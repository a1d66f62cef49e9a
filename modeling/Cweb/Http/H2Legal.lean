import Cweb.Http.H2RecvLedger
import Cweb.Http.H2Table

/-!
# Frames a server may send

A WINDOW_UPDATE has an increment, and RST_STREAM is for a stream that was opened.
The credit for DATA is the length of the frame and an error of WINDOW_UPDATE is
sent before the stream is looked for, so both go wrong on frames that carry
nothing.
-/

namespace Cweb.H2

variable {env : H2Env}

/-- The stream of an upgrade, whose request takes the place of HEADERS. -/
def firstStream (upgrade : Option HttpRequest) : Nat :=
  match upgrade with
  | none => 0
  | some _ => 1

def raiseTop (top : Nat) (f : H2Frame) : Nat := if f.type = .headers then max top f.streamId else top

/-- The largest id of the HEADERS frames received; the ids above it are idle. -/
def highest (first : Nat) (trace : List Event) : Nat := (received trace).foldl raiseTop first

structure Legal (top : Nat) (f : H2Frame) : Prop where
  increment : f.type = .window → 1 ≤ rd32 f.payload ∧ rd32 f.payload ≤ 2 ^ 31 - 1
  opened : f.type = .rst → f.streamId ≠ 0 ∧ f.streamId ≤ top

/-- Each frame is legal when it is sent. -/
def LegalTrace (first : Nat) (trace : List Event) : Prop :=
  ∀ pre f post, trace = pre ++ .sent f :: post → Legal (highest first pre) f

def EmptyData (f : H2Frame) : Prop := f.type = .data ∧ f.streamId ≠ 0 ∧ f.payload = [] ∧ f.padded = false

def IdleZero (top : Nat) (f : H2Frame) : Prop :=
  f.type = .window ∧ f.len = 4 ∧ windowIncrement f = 0 ∧ top < f.streamId

/-- A frame that is not handled at all, or neither of the two that go wrong. -/
def Harmless (first : Nat) (c : H2Conn) (f : H2Frame) : Prop :=
  c.gotClientSettings = true → c.hbStream = 0 → ¬ EmptyData f ∧ ¬ IdleZero (highest first c.trace) f

/-- The runs on which every frame is as `P` says. -/
inductive RunWhere (env : H2Env) (P : H2Conn → H2Frame → Prop) (c₀ : H2Conn) : H2Conn → Prop where
  | start : RunWhere env P c₀ (settle env c₀)
  | turn {c : H2Conn} : RunWhere env P c₀ c → c.error = none → RunWhere env P c₀ (settle env c)
  | frame {c : H2Conn} (f : H2Frame) : RunWhere env P c₀ c → c.error = none → P c f →
      RunWhere env P c₀ (frameStep env c f)
  | behind {c : H2Conn} (f g : H2Frame) : RunWhere env P c₀ c → c.error = none → FailsBehind env c f →
      RunWhere env P c₀ (frameStep env c f) → P (frameStep env c f) g →
      RunWhere env P c₀ (h2ProcessFrame env (frameStep env c f) g)

theorem RunWhere.run {P : H2Conn → H2Frame → Prop} {c₀ c : H2Conn} (h : RunWhere env P c₀ c) :
    Run env c₀ c := by
  induction h with
  | start => exact .start
  | turn _ hOk ih => exact .turn ih hOk
  | frame f _ hOk _ ih => exact .frame f ih hOk
  | behind f g _ hOk hFails _ _ ih ih' => exact ih.behind f g hOk hFails ih'

/-! ## The ids seen -/

theorem le_raiseTop (top : Nat) (f : H2Frame) : top ≤ raiseTop top f := by
  rw [raiseTop]
  split
  · exact Nat.le_max_left _ _
  · exact Nat.le_refl _

theorem foldl_raiseTop_le (frames : List H2Frame) : ∀ top, top ≤ frames.foldl raiseTop top := by
  induction frames with
  | nil => exact Nat.le_refl
  | cons f frames ih => exact fun top => Nat.le_trans (le_raiseTop top f) (ih _)

theorem highest_recv (first : Nat) (trace : List Event) (f : H2Frame) :
    highest first (trace ++ [.recv f]) = raiseTop (highest first trace) f := by
  rw [highest, received_recv, List.foldl_append]
  rfl

theorem highest_congr (first : Nat) {trace trace' : List Event} (h : received trace' = received trace) :
    highest first trace' = highest first trace := by
  rw [highest, highest, h]

theorem le_highest (first : Nat) {trace : List Event} {g : H2Frame} (h : g ∈ received trace)
    (hType : g.type = .headers) :
    g.streamId ≤ highest first trace := by
  obtain ⟨pre, post, hFrames⟩ := List.append_of_mem h
  rw [highest, hFrames, List.foldl_append, List.foldl_cons, raiseTop, if_pos hType]
  exact Nat.le_trans (Nat.le_max_right _ _) (foldl_raiseTop_le post _)

/-! ## What is sent on the way -/

/-- Between the two only legal frames were sent. -/
def Emits (top : Nat) (c c' : H2Conn) : Prop :=
  ∃ frames : List H2Frame, c'.trace = c.trace ++ frames.map Event.sent ∧ ∀ f ∈ frames, Legal top f

variable {top : Nat}

theorem Emits.same {c c' : H2Conn} (h : c'.trace = c.trace) : Emits top c c' :=
  ⟨[], by rw [h, List.map_nil, List.append_nil], fun f hf => absurd hf List.not_mem_nil⟩

theorem Emits.refl (c : H2Conn) : Emits top c c := Emits.same rfl

theorem Emits.trans {c c' c'' : H2Conn} (h : Emits top c c') (h' : Emits top c' c'') : Emits top c c'' := by
  obtain ⟨frames, hTrace, hLegal⟩ := h
  obtain ⟨frames', hTrace', hLegal'⟩ := h'
  refine ⟨frames ++ frames', ?_, ?_⟩
  · rw [hTrace', hTrace, List.map_append, List.append_assoc]
  · intro f hf
    obtain hf | hf := List.mem_append.mp hf
    · exact hLegal f hf
    · exact hLegal' f hf

theorem Emits.connError (c : H2Conn) (e : H2Error) : Emits top c (h2ConnError c e) :=
  Emits.same (by rw [h2ConnError_eq])

theorem Emits.send (c : H2Conn) {f : H2Frame} (hf : Legal top f) : Emits top c (h2SendFrame env c f).1 := by
  obtain ⟨hEq, _⟩ | ⟨writes, hEq⟩ | ⟨writes, hEq⟩ := h2SendFrame_cases env c f
  · rw [hEq]
    exact Emits.connError c _
  · rw [hEq]
    refine ⟨[f], rfl, ?_⟩
    intro g hg
    rw [List.mem_singleton.mp hg]
    exact hf
  · rw [hEq]
    exact Emits.same rfl

theorem Legal.other {f : H2Frame} (hWindow : f.type ≠ .window) (hRst : f.type ≠ .rst) : Legal top f :=
  ⟨fun h => absurd h hWindow, fun h => absurd h hRst⟩

theorem Emits.streamError (c : H2Conn) {id : Nat} (e : H2Error) (hId : id ≠ 0) (hTop : id ≤ top) :
    Emits top c (h2SendStreamError env c id e) :=
  Emits.send c ⟨nofun, fun _ => ⟨hId, hTop⟩⟩

theorem Emits.windowUpdate (c : H2Conn) (id : Nat) {inc : Nat} (hPos : 0 < inc) (hSmall : inc < 2 ^ 31) :
    Emits top c (h2SendWindowUpdate env c id inc) := by
  refine Emits.send c ⟨fun _ => ?_, nofun⟩
  change 1 ≤ rd32 (wr32 inc) ∧ rd32 (wr32 inc) ≤ 2 ^ 31 - 1
  rw [rd32_wr32, Nat.mod_eq_of_lt (by omega)]
  omega

theorem Step.emits {k : Kind} {c c' : H2Conn} (h : Step env k c c') (hBase : k ≠ .base)
    (hCredit : k ≠ .credit) :
    Emits top c c' := by
  cases h with
  | fail _ _ e => exact Emits.connError c e
  | send _ _ f hSends =>
    refine Emits.send c ?_
    cases k with
    | base => exact absurd rfl hBase
    | credit => exact absurd rfl hCredit
    | head =>
      obtain ⟨h | h, _⟩ := hSends
      · exact Legal.other (by rw [h]; exact nofun) (by rw [h]; exact nofun)
      · exact Legal.other (by rw [h]; exact nofun) (by rw [h]; exact nofun)
    | deliver => exact Legal.other (by rw [hSends.1]; exact nofun) (by rw [hSends.1]; exact nofun)
    | _ => exact hSends.elim
  | conn _ _ _ hChange =>
    refine Emits.same ?_
    cases k <;> rw [hChange]
  | streams => exact Emits.same rfl
  | opened => exact Emits.same rfl
  | drop => exact Emits.same rfl

theorem settle_emits (c : H2Conn) : Emits top c (settle env c) := by
  refine (settle_steps c).preserves (P := Emits top c) ?_ (Emits.refl c)
  intro k hk c' c'' hStep hEmits
  refine hEmits.trans (hStep.emits ?_ ?_)
  · rintro rfl
    simp at hk
  · rintro rfl
    simp at hk

/-! ## The handlers -/

/-- No stream is idle. -/
structure NoIdle (top : Nat) (c : H2Conn) : Prop where
  distinct : Distinct c
  last : c.lastStreamId ≤ top

theorem NoIdle.stream {c : H2Conn} (h : NoIdle top c) {s : H2Stream} (hs : s ∈ c.streams) :
    s.id ≠ 0 ∧ s.id ≤ top := by
  obtain ⟨hId, hLast⟩ := h.distinct.bound s hs
  exact ⟨hId, Nat.le_trans hLast h.last⟩

theorem dataBody_emits {c : H2Conn} {i : Nat} {s : H2Stream} (f : H2Frame) (data : Bytes) (hId : s.id ≠ 0)
    (hTop : s.id ≤ top) : Emits top c (dataBody env c i s f data) := by
  rw [dataBody]
  split
  · exact (Emits.streamError c _ hId hTop).trans (Emits.same rfl)
  · dsimp only
    split
    · refine Emits.trans ?_ ((Emits.streamError _ _ hId hTop).trans (Emits.same rfl))
      exact Emits.same rfl
    · exact Emits.same rfl

theorem dataOnStream_emits {c : H2Conn} {i : Nat} {s : H2Stream} {f : H2Frame} (data : Bytes) (hId : s.id ≠ 0)
    (hTop : s.id ≤ top) (hPos : 0 < f.len) (hSmall : f.len < 2 ^ 31) :
    Emits top c (dataOnStream env c i s f data) := by
  rw [dataOnStream]
  split
  · exact Emits.refl c
  · dsimp only
    have hWindow : Emits top c (c.modifyStream i fun s => { s with recvWindow := s.recvWindow - f.len }) :=
      Emits.same rfl
    refine hWindow.trans ?_
    split
    · exact (Emits.streamError _ _ hId hTop).trans (Emits.same rfl)
    · exact (Emits.windowUpdate _ _ hPos hSmall).trans (dataBody_emits f data hId hTop)

theorem dataPayload_len_pos {f : H2Frame} {data : Bytes} (hType : f.type = .data) (hId : f.streamId ≠ 0)
    (hEmpty : ¬ EmptyData f) (h : dataPayload f = some data) : 0 < f.len := by
  rw [H2Frame.len]
  refine List.length_pos_iff.mpr ?_
  intro hNil
  rw [dataPayload] at h
  split at h
  · rw [hNil] at h
    cases h
  · rename_i hPadded
    exact hEmpty ⟨hType, hId, hNil, Bool.not_eq_true _ ▸ hPadded⟩

theorem h2OnData_emits {c : H2Conn} {f : H2Frame} (hc : NoIdle top c) (hNonneg : 0 ≤ c.connRecvWindow)
    (hWindow : c.connRecvWindow ≤ h2InitialWindow) (hType : f.type = .data) (hEmpty : ¬ EmptyData f) :
    Emits top c (h2OnData env c f) := by
  rw [h2OnData]
  split
  · exact Emits.connError c _
  · rename_i hId
    split
    · exact Emits.connError c _
    · rename_i data hData
      split
      · exact Emits.connError c _
      · rename_i hFits
        dsimp only
        have hPos := dataPayload_len_pos hType hId hEmpty hData
        have hSmall : f.len < 2 ^ 31 := by
          rw [h2InitialWindow] at hWindow
          omega
        have hUsed : Emits top c { c with connRecvWindow := c.connRecvWindow - f.len } := Emits.same rfl
        have hCredit := hUsed.trans (@Emits.windowUpdate env top _ 0 f.len hPos hSmall)
        refine hCredit.trans ?_
        have hStreams :
          (h2SendWindowUpdate env { c with connRecvWindow := c.connRecvWindow - f.len } 0 f.len).streams =
            c.streams := h2SendFrame_streams env _ _
        have hLast : (h2SendWindowUpdate env { c with connRecvWindow := c.connRecvWindow - f.len } 0
            f.len).lastStreamId = c.lastStreamId := (h2SendFrame_windows _ _).2
        split
        · split
          · exact Emits.connError _ _
          · rename_i hOld
            rw [hLast] at hOld
            exact Emits.streamError _ _ hId (Nat.le_trans (not_lt.mp hOld) hc.last)
        · split
          · exact Emits.refl _
          · rename_i s hAt
            rw [hStreams] at hAt
            obtain ⟨hId, hTop⟩ := hc.stream (List.mem_of_getElem? hAt)
            exact dataOnStream_emits data hId hTop hPos hSmall

theorem h2OnPriority_emits {c : H2Conn} (hc : NoIdle top c) (f : H2Frame) :
    Emits top c (h2OnPriority env c f) := by
  rw [h2OnPriority]
  split
  · exact Emits.connError c _
  · rename_i hId
    split
    · split
      · rename_i hFound
        obtain ⟨i, hFind⟩ := Option.ne_none_iff_exists'.mp hFound
        obtain ⟨s, hAt, hEq⟩ := h2FindStream_some hFind
        have hTop := (hc.stream (List.mem_of_getElem? hAt)).2
        rw [hEq] at hTop
        exact Emits.streamError c _ hId hTop
      · exact Emits.connError c _
    · exact Emits.refl c

theorem h2OnRst_emits (c : H2Conn) (f : H2Frame) : Emits top c (h2OnRst c f) := by
  rw [h2OnRst]
  split
  · exact Emits.connError c _
  · split
    · exact Emits.connError c _
    · split
      · split
        · exact Emits.connError c _
        · exact Emits.refl c
      · exact Emits.same rfl

theorem h2OnPing_emits (c : H2Conn) (f : H2Frame) : Emits top c (h2OnPing env c f) := by
  rw [h2OnPing]
  split
  · exact Emits.connError c _
  · split
    · exact Emits.connError c _
    · split
      · exact Emits.refl c
      · exact Emits.send c (Legal.other (by rintro ⟨⟩) (by rintro ⟨⟩))

theorem h2OnSettings_emits (c : H2Conn) (f : H2Frame) : Emits top c (h2OnSettings env c f) := by
  rw [h2OnSettings]
  split
  · exact Emits.connError c _
  · split
    · split
      · exact Emits.connError c _
      · exact Emits.refl c
    · dsimp only
      have hApplied : Emits top c (h2ApplySettings { c with gotClientSettings := true } f.payload) :=
        Emits.same (h2ApplySettings_trace _ _)
      split
      · exact hApplied.trans (Emits.send _ (Legal.other (by rintro ⟨⟩) (by rintro ⟨⟩)))
      · exact hApplied

theorem h2OnGoaway_emits (c : H2Conn) (f : H2Frame) : Emits top c (h2OnGoaway c f) := by
  rw [h2OnGoaway]
  split
  · exact Emits.connError c _
  · split
    · exact Emits.connError c _
    · exact Emits.same rfl

theorem windowOnStream_emits {c : H2Conn} {i : Nat} {s : H2Stream} (inc : Nat) (hId : s.id ≠ 0)
    (hTop : s.id ≤ top) :
    Emits top c (windowOnStream env c i s inc) := by
  rw [windowOnStream]
  split
  · exact Emits.refl c
  · dsimp only
    have hGrant : Emits top c (c.modifyStream i fun s => { s with sendWindow := s.sendWindow + inc }) :=
      Emits.same rfl
    split
    · exact hGrant.trans ((Emits.streamError _ _ hId hTop).trans (Emits.same rfl))
    · exact hGrant

theorem h2OnWindow_emits {c : H2Conn} {f : H2Frame} (hc : NoIdle top c) (hType : f.type = .window)
    (hIdle : ¬ IdleZero top f) : Emits top c (h2OnWindow env c f) := by
  rw [h2OnWindow]
  split
  · exact Emits.connError c _
  · rename_i hLen
    split
    · rename_i hZero
      split
      · exact Emits.connError c _
      · rename_i hId
        refine Emits.streamError c _ hId (not_lt.mp ?_)
        exact fun hAbove => hIdle ⟨hType, not_not.mp hLen, hZero, hAbove⟩
    · split
      · dsimp only
        split
        · exact Emits.same (by rw [h2ConnError_eq])
        · exact Emits.same rfl
      · split
        · split
          · exact Emits.connError c _
          · exact Emits.refl c
        · split
          · exact Emits.refl c
          · rename_i s hAt
            obtain ⟨hId, hTop⟩ := hc.stream (List.mem_of_getElem? hAt)
            exact windowOnStream_emits _ hId hTop

theorem openStream_emits (c : H2Conn) {s : H2Stream} (hId : s.id ≠ 0) (hTop : s.id ≤ top) :
    Emits top c (openStream env c s) := by
  rw [openStream]
  dsimp only
  have hOpened : Emits top c { c with streams := c.streams ++ [s], lastStreamId := s.id } := Emits.same rfl
  split
  · exact (hOpened.trans (Emits.streamError _ _ hId hTop)).trans (Emits.same rfl)
  · exact hOpened

theorem h2RequestFromBlock_trace (c : H2Conn) (blk : Bytes) :
    (h2RequestFromBlock env c blk).1.trace = c.trace := by
  rw [h2RequestFromBlock]
  split
  · rw [h2ConnError_eq]
  · rfl

theorem h2OnHeaderBlockFinish_emits (c : H2Conn) {id : Nat} (endStream : Bool) (blk : Bytes)
    (hTop : id ≤ top) :
    Emits top c (h2OnHeaderBlockFinish env c id endStream blk) := by
  have hDecode : Emits top c (h2RequestFromBlock env c blk).1 := Emits.same (h2RequestFromBlock_trace c blk)
  rw [h2OnHeaderBlockFinish]
  split
  · exact Emits.connError c _
  · rename_i hOdd
    have hId : id ≠ 0 := by
      rintro rfl
      exact hOdd rfl
    split
    · exact Emits.streamError c _ hId hTop
    · split
      · exact Emits.connError c _
      · split
        · exact Emits.connError c _
        · split
          · rename_i hEq
            rw [hEq] at hDecode
            exact hDecode
          · rename_i hEq
            rw [hEq] at hDecode
            exact hDecode.trans (Emits.streamError _ _ hId hTop)
          · rename_i hEq
            rw [hEq] at hDecode
            exact hDecode.trans (openStream_emits _ hId hTop)

theorem takeFragment_emits (c : H2Conn) {f : H2Frame} (hId : f.streamId ≠ 0) (hTop : f.streamId ≤ top) :
    Emits top c (takeFragment env c f) := by
  rw [takeFragment]
  split
  · exact Emits.refl c
  · split
    · have hAborted : Emits top c { c with hbAbort := true } := Emits.same rfl
      exact hAborted.trans (Emits.streamError _ _ hId hTop)
    · exact Emits.same rfl

theorem takeFragment_hbStream (c : H2Conn) (f : H2Frame) : (takeFragment env c f).hbStream = c.hbStream := by
  rw [takeFragment]
  split
  · rfl
  · split
    · rw [h2SendStreamError]
      obtain ⟨hEq, _⟩ | ⟨writes, hEq⟩ | ⟨writes, hEq⟩ := h2SendFrame_cases env { c with hbAbort := true }
        ⟨.rst, 0, f.streamId, wr32 H2Error.cancel.code⟩
      · rw [hEq, h2ConnError_eq]
      · rw [hEq]
      · rw [hEq]
    · rfl

theorem h2OnCont_emits {c : H2Conn} (f : H2Frame) (hBlock : c.hbStream ≤ top) :
    Emits top c (h2OnCont env c f) := by
  rw [h2OnCont]
  split
  · exact Emits.connError c _
  · rename_i hOpen
    split
    · exact Emits.connError c _
    · rename_i hSame
      have hSame : f.streamId = c.hbStream := not_not.mp hSame
      dsimp only
      have hTaken : Emits top c (takeFragment env c f) :=
        takeFragment_emits c (hSame.trans_ne hOpen) (hSame.trans_le hBlock)
      split
      · split
        · exact hTaken.trans (Emits.same rfl)
        · have hClear : Emits top (takeFragment env c f) (clearBlock (takeFragment env c f)) := Emits.same rfl
          refine (hTaken.trans hClear).trans (h2OnHeaderBlockFinish_emits _ _ _ ?_)
          rw [takeFragment_hbStream]
          exact hBlock
      · exact hTaken

theorem h2OnHeadersStart_emits {c : H2Conn} {f : H2Frame} (hTop : f.streamId ≤ top) :
    Emits top c (h2OnHeadersStart env c f) := by
  rw [h2OnHeadersStart]
  split
  · exact Emits.connError c _
  · dsimp only
    have hStart : Emits top c
        { c with hbStream := f.streamId, hbEndStream := f.endStream, hbAbort := false, hb := [] } :=
        Emits.same rfl
    refine hStart.trans ?_
    split
    · exact Emits.connError _ _
    · split
      · exact Emits.connError _ _
      · split
        · refine Emits.trans ?_ (h2OnHeaderBlockFinish_emits _ _ _ hTop)
          exact Emits.same rfl
        · exact Emits.same rfl

theorem handleFrame_emits {c : H2Conn} {f : H2Frame} (hc : NoIdle top c) (hNonneg : 0 ≤ c.connRecvWindow)
    (hWindow : c.connRecvWindow ≤ h2InitialWindow) (hBlock : c.hbStream ≤ top)
    (hHeaders : f.type = .headers → f.streamId ≤ top)
    (hHarmless : c.gotClientSettings = true → c.hbStream = 0 → ¬ EmptyData f ∧ ¬ IdleZero top f) :
    Emits top c (handleFrame env c f) := by
  rw [handleFrame]
  split
  · exact Emits.connError c _
  · rename_i hSettings
    split
    · exact Emits.connError c _
    · rename_i hOpen
      have hSafe : f.type ≠ .cont → f.type ≠ .settings → ¬ EmptyData f ∧ ¬ IdleZero top f := by
        intro hCont hOther
        refine hHarmless ?_ ?_
        · by_contra hNot
          exact hSettings ⟨hNot, .inl hOther⟩
        · by_contra hNot
          exact hOpen ⟨hNot, .inl hCont⟩
      split
      · rename_i hType
        exact h2OnData_emits hc hNonneg hWindow hType
          (hSafe (by rw [hType]; rintro ⟨⟩) (by rw [hType]; rintro ⟨⟩)).1
      · rename_i hType
        exact h2OnHeadersStart_emits (hHeaders hType)
      · exact h2OnCont_emits f hBlock
      · exact h2OnPriority_emits hc f
      · exact h2OnRst_emits c f
      · exact h2OnSettings_emits c f
      · exact h2OnPing_emits c f
      · exact h2OnGoaway_emits c f
      · rename_i hType
        exact h2OnWindow_emits hc hType (hSafe (by rw [hType]; rintro ⟨⟩) (by rw [hType]; rintro ⟨⟩)).2
      · exact Emits.connError c _
      · exact Emits.refl c

/-! ## The last stream -/

theorem h2OnHeaderBlockFinish_last {c : H2Conn} {id : Nat} (endStream : Bool) (blk : Bytes)
    (hLast : c.lastStreamId ≤ top)
    (hTop : id ≤ top) : (h2OnHeaderBlockFinish env c id endStream blk).lastStreamId ≤ top := by
  have hFail : ∀ e, (h2ConnError c e).lastStreamId ≤ top := by
    intro e
    rw [h2ConnError_eq]
    exact hLast
  have hReset : ∀ (c : H2Conn) e, c.lastStreamId ≤ top →
    (h2SendStreamError env c id e).lastStreamId ≤ top := by
    intro c e hLast
    rw [h2SendStreamError, (h2SendFrame_windows _ _).2]
    exact hLast
  have hDecode := @h2RequestFromBlock_lastStreamId env c blk
  rw [h2OnHeaderBlockFinish]
  split
  · exact hFail _
  · rename_i hOdd
    split
    · exact hReset c _ hLast
    · split
      · exact hFail _
      · rename_i hNew
        split
        · exact hFail _
        · split
          · rename_i hEq
            rw [hEq] at hDecode
            exact hDecode.trans_le hLast
          · rename_i hEq
            rw [hEq] at hDecode
            exact hReset _ _ (hDecode.trans_le hLast)
          · rename_i hEq
            rw [hEq] at hDecode
            have hFresh := not_le.mp hNew
            rw [← hDecode] at hFresh
            obtain hOpened | ⟨_, hId⟩ := @openStream_effect env _ _ endStream _ hFresh (by omega)
            · exact hOpened.last.trans_le hTop
            · exact hId.trans_le hTop

theorem h2OnCont_last {c : H2Conn} (f : H2Frame) (hLast : c.lastStreamId ≤ top) (hBlock : c.hbStream ≤ top) :
    (h2OnCont env c f).lastStreamId ≤ top := by
  have hTaken : (takeFragment env c f).lastStreamId ≤ top :=
    ((takeFragment_steps c f).lastStreamId_eq (by simp)).trans_le hLast
  rw [h2OnCont]
  split
  · rw [h2ConnError_eq]
    exact hLast
  · split
    · rw [h2ConnError_eq]
      exact hLast
    · dsimp only
      split
      · split
        · exact hTaken
        · refine h2OnHeaderBlockFinish_last _ _ hTaken ?_
          rw [takeFragment_hbStream]
          exact hBlock
      · exact hTaken

theorem h2OnHeadersStart_last {c : H2Conn} {f : H2Frame} (hLast : c.lastStreamId ≤ top)
    (hTop : f.streamId ≤ top) :
    (h2OnHeadersStart env c f).lastStreamId ≤ top := by
  rw [h2OnHeadersStart]
  split
  · rw [h2ConnError_eq]
    exact hLast
  · dsimp only
    split
    · rw [h2ConnError_eq]
      exact hLast
    · split
      · rw [h2ConnError_eq]
        exact hLast
      · split
        · exact h2OnHeaderBlockFinish_last (c := clearBlock _) _ _ hLast hTop
        · exact hLast

theorem handleFrame_last {c : H2Conn} {f : H2Frame} (hLast : c.lastStreamId ≤ top) (hBlock : c.hbStream ≤ top)
    (hHeaders : f.type = .headers → f.streamId ≤ top) : (handleFrame env c f).lastStreamId ≤ top := by
  have hSame : ∀ {ks : List Kind} {c' : H2Conn}, Steps env ks c c' → Kind.opened ∉ ks →
    c'.lastStreamId ≤ top :=
    fun hSteps hNot => (hSteps.lastStreamId_eq hNot).trans_le hLast
  have hFail : (h2ConnError c .protocol).lastStreamId ≤ top := by
    rw [h2ConnError_eq]
    exact hLast
  rw [handleFrame]
  split
  · exact hFail
  · split
    · exact hFail
    · split
      · exact hSame (h2OnData_steps c f) (by simp)
      · rename_i hType
        exact h2OnHeadersStart_last hLast (hHeaders hType)
      · exact h2OnCont_last f hLast hBlock
      · exact hSame (h2OnPriority_steps c f) (by simp)
      · exact hSame (h2OnRst_steps c f) (by simp)
      · exact hSame (h2OnSettings_steps c f) (by simp)
      · exact hSame (h2OnPing_steps c f) (by simp)
      · exact hSame (h2OnGoaway_steps c f) (by simp)
      · exact hSame (h2OnWindow_steps c f) (by simp)
      · exact hFail
      · exact hLast

/-! ## Traces -/

variable {first : Nat} {trace : List Event}

theorem LegalTrace.concat (h : LegalTrace first trace) {e : Event}
    (he : ∀ f, e = .sent f → Legal (highest first trace) f) : LegalTrace first (trace ++ [e]) := by
  intro pre f post hEq
  obtain rfl | ⟨post', e', rfl⟩ := List.eq_nil_or_concat post
  · obtain ⟨rfl, hSent⟩ := List.append_inj' hEq rfl
    exact he f (List.singleton_inj.mp hSent)
  · rw [List.concat_eq_append, ← List.cons_append, ← List.append_assoc] at hEq
    exact h pre f post' (List.append_inj' hEq rfl).1

theorem LegalTrace.sends (frames : List H2Frame) : ∀ {trace : List Event}, LegalTrace first trace →
    (∀ f ∈ frames, Legal (highest first trace) f) → LegalTrace first (trace ++ frames.map Event.sent) := by
  induction frames with
  | nil =>
    intro trace h _
    rw [List.map_nil, List.append_nil]
    exact h
  | cons f frames ih =>
    intro trace h hLegal
    rw [List.map_cons, List.append_cons]
    refine ih (h.concat ?_) ?_
    · rintro _ ⟨⟩
      exact hLegal f List.mem_cons_self
    · intro g hg
      rw [highest_congr first (received_sent trace f)]
      exact hLegal g (List.mem_cons_of_mem _ hg)

theorem LegalTrace.emits {c c' : H2Conn} (h : LegalTrace first c.trace)
    (hEmits : Emits (highest first c.trace) c c') :
    LegalTrace first c'.trace := by
  obtain ⟨frames, hTrace, hLegal⟩ := hEmits
  rw [hTrace]
  exact h.sends frames hLegal

/-! ## Runs -/

/-- What every state of such a run has. -/
structure Lawful (first : Nat) (c : H2Conn) : Prop where
  trace : LegalTrace first c.trace
  last : c.lastStreamId ≤ highest first c.trace

theorem settle_received (c : H2Conn) : received (settle env c).trace = received c.trace :=
  (settle_steps c).received_eq

theorem Lawful.settle {c : H2Conn} (h : Lawful first c) : Lawful first (settle env c) := by
  refine ⟨h.trace.emits (settle_emits c), ?_⟩
  rw [settle_lastStreamId, highest_congr first (settle_received c)]
  exact h.last

theorem Lawful.process {c : H2Conn} {f : H2Frame} (h : Lawful first c) (hDistinct : Distinct c)
    (hPending : Pending (headerView c)) (hNonneg : 0 ≤ c.connRecvWindow)
    (hWindow : c.connRecvWindow ≤ h2InitialWindow)
    (hHarmless : Harmless first c f) : Lawful first (h2ProcessFrame env c f) := by
  have hTop := highest_recv first c.trace f
  have hUp : highest first c.trace ≤ highest first (c.trace ++ [.recv f]) := by
    rw [hTop]
    exact le_raiseTop _ f
  have hLast : c.lastStreamId ≤ highest first (c.trace ++ [.recv f]) := Nat.le_trans h.last hUp
  have hBlock : c.hbStream ≤ highest first (c.trace ++ [.recv f]) := by
    by_cases hNone : c.hbStream = 0
    · rw [hNone]
      exact Nat.zero_le _
    · obtain ⟨pre, g, post, hFrames, hType, hId, _⟩ := hPending hNone
      have hMem : g ∈ received c.trace := by
        change received c.trace = pre ++ g :: post at hFrames
        rw [hFrames]
        exact List.mem_append_right _ List.mem_cons_self
      have hSeen := le_highest first hMem hType
      rw [hId] at hSeen
      exact Nat.le_trans hSeen hUp
  have hHeaders : f.type = .headers → f.streamId ≤ highest first (c.trace ++ [.recv f]) := by
    intro hType
    rw [hTop, raiseTop, if_pos hType]
    exact Nat.le_max_right _ _
  have hRecv : LegalTrace first (c.trace ++ [.recv f]) := h.trace.concat nofun
  constructor
  · refine LegalTrace.emits (c := { c with trace := c.trace ++ [.recv f] }) hRecv
      (handleFrame_emits ⟨⟨hDistinct.nodup, hDistinct.bound⟩, hLast⟩ hNonneg hWindow hBlock hHeaders ?_)
    intro hSettings hNone
    obtain ⟨hEmpty, hZero⟩ := hHarmless hSettings hNone
    refine ⟨hEmpty, ?_⟩
    rintro ⟨hType, hLen, hIncrement, hAbove⟩
    refine hZero ⟨hType, hLen, hIncrement, Nat.lt_of_le_of_lt hUp hAbove⟩
  · have hSeen : received (h2ProcessFrame env c f).trace = received (c.trace ++ [.recv f]) := by
      rw [received_process, received_recv]
    rw [highest_congr first hSeen]
    exact handleFrame_last (c := { c with trace := c.trace ++ [.recv f] }) hLast hBlock hHeaders

theorem LegalTrace.of_text (h : ∀ e ∈ trace, ∃ bytes, e = Event.text bytes) : LegalTrace first trace := by
  rintro pre f post rfl
  obtain ⟨bytes, hText⟩ := h (.sent f) (List.mem_append_right _ List.mem_cons_self)
  cases hText

theorem upgradeSettings_trace {c c' : H2Conn} {src : HttpRequest} (h : upgradeSettings c src = some c') :
    c'.trace = c.trace := by
  rw [upgradeSettings] at h
  split at h
  · rw [Option.some.inj h]
  · split at h
    · cases h
    · split at h
      · cases h
      · dsimp only at h
        split at h
        · rw [← Option.some.inj h]
          exact h2ApplySettings_trace c _
        · cases h

theorem h2SendSettings_lawful {c : H2Conn} (h : Lawful first c) : Lawful first (h2SendSettings env c) := by
  constructor
  · exact h.trace.emits (Emits.send c (Legal.other nofun nofun))
  · rw [h2SendSettings, (h2SendFrame_windows _ _).2, highest_congr first (h2SendFrame_trace _ _).1]
    exact h.last

theorem lawful_start {upgrade : Option HttpRequest} {c : H2Conn} (h : h2Start env upgrade = some c) :
    Lawful (firstStream upgrade) c := by
  cases upgrade with
  | none =>
    obtain rfl := Option.some.inj h
    exact h2SendSettings_lawful ⟨LegalTrace.of_text fun e he => absurd he List.not_mem_nil, Nat.le_refl 0⟩
  | some src =>
    simp only [h2Start] at h
    split at h
    · cases h
    · rename_i c' hText
      obtain ⟨c'', hSettings, rfl⟩ := Option.map_eq_some_iff.mp h
      obtain ⟨writes, events, hEq, hEvents⟩ := @prologueStart_eq env (some src)
      rw [prologueStart, hText] at hEq
      have hTrace : c''.trace = events := by
        rw [upgradeSettings_trace hSettings]
        exact congrArg H2Conn.trace hEq
      refine h2SendSettings_lawful ⟨?_, ?_⟩
      · change LegalTrace _ c''.trace
        rw [hTrace]
        exact LegalTrace.of_text hEvents
      · exact foldl_raiseTop_le _ 1

/-- What the windows and the header blocks are after a frame that settling fails behind. -/
theorem FailsBehind.kept {upgrade : Option HttpRequest} {c₀ c : H2Conn} {f : H2Frame}
    (h : FailsBehind env c f)
    (hStart : h2Start env upgrade = some c₀) (hRun : Run env c₀ c) (hOk : c.error = none) :
    Spent env (frameStep env c f) ∧ Distinct (frameStep env c f) ∧
      Pending (headerView (frameStep env c f)) := by
  obtain ⟨hSettled, hSpent⟩ := reachable_spent ⟨upgrade, c₀, hStart, hRun⟩ hOk
  obtain ⟨log, hLogged⟩ := hRun.logged
  have hPending := ((hLogged.table hStart).2 hOk).1
  rw [frameStep, if_pos h.handled, headerView_settle]
  exact ⟨(settle_steps _).spent (by simp)
    (handled_spent hSettled hSpent (handleFrame_handled h.handled) h.handled),
    (settle_steps _).distinct (h2ProcessFrame_distinct hSettled.distinct f),
    process_pending hPending h.handled⟩

theorem RunWhere.lawful {upgrade : Option HttpRequest} {c₀ c : H2Conn}
    (hStart : h2Start env upgrade = some c₀)
    (h : RunWhere env (Harmless (firstStream upgrade)) c₀ c) : Lawful (firstStream upgrade) c := by
  induction h with
  | start => exact (lawful_start hStart).settle
  | turn _ _ ih => exact ih.settle
  | @frame c f hRun hOk hHarmless ih =>
    obtain ⟨hSettled, hSpent⟩ := reachable_spent ⟨upgrade, c₀, hStart, hRun.run⟩ hOk
    obtain ⟨log, hLogged⟩ := hRun.run.logged
    have hPending := ((hLogged.table hStart).2 hOk).1
    have hWindow : c.connRecvWindow ≤ h2InitialWindow := by
      rw [hSpent.conn.window]
      omega
    have hNext := @Lawful.process env _ _ _ ih hSettled.distinct hPending hSpent.conn.nonneg hWindow hHarmless
    rw [frameStep]
    split
    · exact hNext.settle
    · exact hNext
  | behind f g hRun hOk hFails _ hHarmless _ ih =>
    obtain ⟨hSpent, hDistinct, hPending⟩ := hFails.kept hStart hRun.run hOk
    refine ih.process hDistinct hPending hSpent.conn.nonneg ?_ hHarmless
    rw [hSpent.conn.window]
    omega

/-- On every connection whose client sends neither empty DATA nor an increment of 0
for an idle stream, up to the GOAWAY at its end. -/
theorem frames_legal {upgrade : Option HttpRequest} {c₀ c : H2Conn} (hStart : h2Start env upgrade = some c₀)
    (h : RunWhere env (Harmless (firstStream upgrade)) c₀ c) :
    LegalTrace (firstStream upgrade) c.trace ∧
      ∀ last err, LegalTrace (firstStream upgrade) (h2SendGoaway env c last err).trace := by
  have hTrace := (h.lawful hStart).trace
  exact ⟨hTrace, fun last err => hTrace.emits (Emits.send c (Legal.other nofun nofun))⟩

theorem harmless_of_type {f : H2Frame} (hData : f.type ≠ .data) (hWindow : f.type ≠ .window) (c : H2Conn) :
    Harmless first c f :=
  fun _ _ => ⟨fun h => hData h.1, fun h => hWindow h.1⟩

theorem RunWhere.concat {P : H2Conn → H2Frame → Prop} {c₀ : H2Conn} {frames : List H2Frame} {f : H2Frame}
    (h : RunWhere env P c₀ (plainRun env frames)) (hOk : (plainRun env frames).error = none)
    (hFrame : P (plainRun env frames) f) : RunWhere env P c₀ (plainRun env (frames ++ [f])) := by
  rw [plainRun_concat f hOk]
  exact h.frame f hOk hFrame

/-- A POST whose stream is given back the credit for its byte, and then reset. -/
def creditedPost : List H2Frame := openPost ++ [⟨.data, 0, 1, [7]⟩, ⟨.window, 0, 1, [0, 0, 0, 0]⟩]

theorem frames_legal_credited_post :
    ∃ c₀, h2Start plainEnv none = some c₀ ∧
      RunWhere plainEnv (Harmless 0) c₀ (plainRun plainEnv creditedPost) ∧
      (sent (plainRun plainEnv creditedPost).trace).map H2Frame.type =
        [.settings, .settings, .window, .window, .rst] ∧
      LegalTrace 0 (plainRun plainEnv creditedPost).trace := by
  have hFirst : ∀ c, Harmless 0 c ⟨.settings, 0, 0, []⟩ := harmless_of_type nofun nofun
  have hSecond : ∀ c, Harmless 0 c ⟨.headers, 4, 1, [0x83, 0x86, 0x84]⟩ := harmless_of_type nofun nofun
  have hSettings : RunWhere plainEnv (Harmless 0) (h2SendSettings plainEnv h2Init)
    (plainRun plainEnv (openPost.take 1)) :=
    @RunWhere.concat plainEnv _ _ [] _ .start (by decide +kernel) (hFirst _)
  have hPost := hSettings.concat (by decide +kernel) (hSecond _)
  have hData := hPost.concat (f := ⟨.data, 0, 1, [7]⟩) (by decide +kernel)
    fun _ _ => ⟨fun h => absurd h.2.2.1 (by decide), fun h => absurd h.1 (by decide)⟩
  have hRun := hData.concat (f := ⟨.window, 0, 1, [0, 0, 0, 0]⟩) (by decide +kernel)
    fun _ _ => ⟨fun h => absurd h.1 (by decide), fun h => absurd h.2.2.2 (by decide +kernel)⟩
  exact ⟨_, rfl, hRun, by decide +kernel, (@frames_legal plainEnv none _ _ rfl hRun).1⟩

/-- Empty DATA on an open stream. -/
def emptyData : List H2Frame := openPost ++ [⟨.data, 0, 1, []⟩]

/-- An increment of 0 for a stream that no HEADERS was received for. -/
def idleZero : List H2Frame := [⟨.settings, 0, 0, []⟩, ⟨.window, 0, 5, [0, 0, 0, 0]⟩]

/-- A run in which a frame was sent that is not legal. -/
def SendsIllegal (frames : List H2Frame) : Prop :=
  ∃ c₀, h2Start plainEnv none = some c₀ ∧ Run plainEnv c₀ (plainRun plainEnv frames) ∧
    ¬ LegalTrace (firstStream none) (plainRun plainEnv frames).trace

theorem illegal_frames : SendsIllegal emptyData ∧ SendsIllegal idleZero := by
  constructor
  · refine ⟨_, rfl, Run.start.run emptyData, ?_⟩
    intro hLegal
    have hTrace : (plainRun plainEnv emptyData).trace = (plainRun plainEnv emptyData).trace.take 5 ++
        .sent ⟨.window, 0, 0, [0, 0, 0, 0]⟩ :: (plainRun plainEnv emptyData).trace.drop 6 := by decide +kernel
    have hIncrement := ((hLegal _ _ _ hTrace).increment rfl).1
    exact absurd hIncrement (by decide)
  · refine ⟨_, rfl, Run.start.run idleZero, ?_⟩
    intro hLegal
    have hTrace : (plainRun plainEnv idleZero).trace = (plainRun plainEnv idleZero).trace.take 4 ++
        .sent ⟨.rst, 0, 5, [0, 0, 0, 1]⟩ :: [] := by decide +kernel
    have hOpened := ((hLegal _ _ _ hTrace).opened rfl).2
    exact absurd hOpened (by decide +kernel)

end Cweb.H2
