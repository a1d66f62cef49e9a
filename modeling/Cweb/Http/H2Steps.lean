import Mathlib.Logic.Relation
import Cweb.Http.H2Serve

/-!
# What the handlers can do

Every handler and every phase of settling is a chain of small steps, and each
step is of a kind that says which part of the connection it may change. An
observation of the connection that the steps of a kind leave alone is left
alone by every function made of such steps, so a proof about one part of the
connection looks only at the functions that can change it.
-/

namespace Cweb.H2

open SwapRemove

inductive Kind where
  | base
  | credit
  | grant
  | answer
  | head
  | deliver
  | finish
  | header
  | opened
  | drop
deriving DecidableEq, Repr

/-- The fields of a stream that a step of this kind may change. -/
def Kind.Touches : Kind → H2Stream → H2Stream → Prop
  | .base, s, s' =>
    s' = { s with
      reset := s'.reset, remoteEnded := s'.remoteEnded, body := s'.body, reqBytes := s'.reqBytes,
      bodyTooBig := s'.bodyTooBig }
  | .credit, s, s' => s' = { s with recvWindow := s'.recvWindow }
  | .grant, s, s' => s' = { s with sendWindow := s'.sendWindow }
  | .answer, s, s' =>
    s' = { s with
      dispatched := s'.dispatched, responseReady := s'.responseReady, res := s'.res, req :=
      s'.req, body := s'.body }
  | .head, s, s' => s' = { s with headersSent := s'.headersSent, bodyOff := s'.bodyOff }
  | .deliver, s, s' =>
    s' = { s with
      queueI := s'.queueI, queueOff := s'.queueOff, bodyOff := s'.bodyOff, bodySent := s'.bodySent,
      fnEof := s'.fnEof, fnCaps := s'.fnCaps, sendWindow := s'.sendWindow }
  | .finish, s, s' => s' = { s with localEnded := s.localEnded || s'.localEnded, responseReady :=
    s'.responseReady }
  | _, s, s' => s' = s

/-- The fields of the connection that a step of this kind may change. -/
def Kind.Changes : Kind → H2Conn → H2Conn → Prop
  | .base, c, c' => c' = { c with gotClientSettings := c'.gotClientSettings }
  | .credit, c, c' => c' = { c with connRecvWindow := c'.connRecvWindow }
  | .grant, c, c' =>
    c' = { c with connSendWindow := c'.connSendWindow, clientInitWindow := c'.clientInitWindow }
  | .answer, c, c' => c' = { c with calls := c'.calls }
  | .head, c, c' => c' = { c with heads := c'.heads }
  | .deliver, c, c' => c' = { c with connSendWindow := c'.connSendWindow }
  | .header, c, c' =>
    c' = { c with
      hpack := c'.hpack, hbStream := c'.hbStream, hb := c'.hb, hbEndStream := c'.hbEndStream, hbAbort :=
      c'.hbAbort,
      clientGoaway := c'.clientGoaway, clientGoawayLast := c'.clientGoawayLast }
  | _, c, c' => c' = c

/-- A stream that may send has neither ended nor been reset. -/
def H2Stream.Sending (s : H2Stream) : Prop := s.localEnded = false ∧ s.reset = false

/-- The frames that a step of this kind may send; those of a response go out
on a stream that is sending. -/
def Kind.Sends : Kind → H2Conn → H2Frame → Prop
  | .base, _, f => f.type = .rst ∨ f.type = .settings ∨ f.type = .ping ∨ f.type = .goaway
  | .credit, _, f => f.type = .window
  | .head, c, f => (f.type = .headers ∨ f.type = .cont) ∧ ∃ s ∈ c.streams, s.id = f.streamId ∧ s.Sending
  | .deliver, c, f => f.type = .data ∧ ∃ s ∈ c.streams, s.id = f.streamId ∧ s.Sending
  | _, _, _ => False

/-- A stream as it is when it is opened, with an id no stream has had. -/
def Opens (c : H2Conn) (s : H2Stream) : Prop :=
  c.lastStreamId < s.id ∧
    s = { newStream s.id s.remoteEnded s.req c.clientInitWindow with body := s.body, reqBytes := s.reqBytes }

inductive Step (env : H2Env) : Kind → H2Conn → H2Conn → Prop where
  | fail (k : Kind) (c : H2Conn) (e : H2Error) : Step env k c (h2ConnError c e)
  | send (k : Kind) (c : H2Conn) (f : H2Frame) : k.Sends c f → Step env k c (h2SendFrame env c f).1
  | conn (k : Kind) (c c' : H2Conn) : k.Changes c c' → Step env k c c'
  | streams (k : Kind) (c : H2Conn) (l : List H2Stream) :
      List.Forall₂ k.Touches c.streams l → Step env k c { c with streams := l }
  | opened (c : H2Conn) (s : H2Stream) :
      Opens c s → Step env .opened c { c with streams := c.streams ++ [s], lastStreamId := s.id }
  | drop (c : H2Conn) (i : Nat) : i < c.streams.length → Step env .drop c (h2FreeStream c i)

def Steps (env : H2Env) (ks : List Kind) : H2Conn → H2Conn → Prop :=
  Relation.ReflTransGen fun c c' => ∃ k ∈ ks, Step env k c c'

variable {env : H2Env} {ks : List Kind}

theorem Step.toSteps {k : Kind} {c c' : H2Conn} (h : Step env k c c') (hk : k ∈ ks) : Steps env ks c c' :=
  .single ⟨k, hk, h⟩

theorem Steps.refl (c : H2Conn) : Steps env ks c c := Relation.ReflTransGen.refl

theorem Steps.trans {c c' c'' : H2Conn} (h : Steps env ks c c') (h' : Steps env ks c' c'') :
    Steps env ks c c'' :=
  Relation.ReflTransGen.trans h h'

theorem Steps.preserves {P : H2Conn → Prop} (hStep : ∀ k ∈ ks, ∀ c c', Step env k c c' → P c → P c')
    {c c' : H2Conn} (h : Steps env ks c c') (hP : P c) : P c' := by
  induction h with
  | refl => exact hP
  | tail _ hLast ih =>
    obtain ⟨k, hk, hLast⟩ := hLast
    exact hStep k hk _ _ hLast ih

theorem Kind.touches_refl (k : Kind) (s : H2Stream) : k.Touches s s := by
  cases k with
  | finish => rw [Kind.Touches, Bool.or_self]
  | _ => rfl

theorem Steps.failIn {c : H2Conn} (k : Kind) (e : H2Error) (hk : k ∈ ks) : Steps env ks c (h2ConnError c e) :=
  (Step.fail k c e).toSteps hk

theorem Steps.fail {c : H2Conn} (e : H2Error) (hk : Kind.base ∈ ks) : Steps env ks c (h2ConnError c e) :=
  Steps.failIn .base e hk

theorem Steps.streamError {c : H2Conn} (id : Nat) (e : H2Error) (hk : Kind.base ∈ ks) :
    Steps env ks c (h2SendStreamError env c id e) :=
  (Step.send .base c _ (.inl rfl)).toSteps hk

theorem Steps.windowUpdate {c : H2Conn} (id inc : Nat) (hk : Kind.credit ∈ ks) :
    Steps env ks c (h2SendWindowUpdate env c id inc) :=
  (Step.send .credit c ⟨.window, 0, id, wr32 inc⟩ rfl).toSteps hk

theorem Steps.conn {c c' : H2Conn} (k : Kind) (hk : k ∈ ks) (h : k.Changes c c') : Steps env ks c c' :=
  (Step.conn k c c' h).toSteps hk

theorem forall₂_modify {R : H2Stream → H2Stream → Prop} (hRefl : ∀ s, R s s) (g : H2Stream → H2Stream) :
    ∀ (l : List H2Stream) (i : Nat), (∀ s, l[i]? = some s → R s (g s)) → List.Forall₂ R l (l.modify i g) := by
  intro l
  induction l with
  | nil =>
    intro i _
    cases i <;> exact .nil
  | cons s l ih =>
    intro i h
    cases i with
    | zero => exact .cons (h s rfl) (List.forall₂_same.mpr fun s _ => hRefl s)
    | succ i => exact .cons (hRefl s) (ih i fun s hs => h s (by simpa using hs))

theorem forall₂_trans {R S T : H2Stream → H2Stream → Prop} (hTrans : ∀ s s' s'', R s s' → S s' s'' → T s s'')
    {l l' : List H2Stream} (h : List.Forall₂ R l l') : ∀ {l''}, List.Forall₂ S l' l'' →
      List.Forall₂ T l l'' := by
  induction h with
  | nil =>
    intro l'' h'
    cases h'
    exact .nil
  | cons hHead _ ih =>
    intro l'' h'
    cases h' with
    | cons hHead' hTail' => exact .cons (hTrans _ _ _ hHead hHead') (ih hTail')

theorem Steps.modify {c : H2Conn} {i : Nat} {g : H2Stream → H2Stream} (k : Kind) (hk : k ∈ ks)
    (h : ∀ s, c.streams[i]? = some s → k.Touches s (g s)) : Steps env ks c (c.modifyStream i g) :=
  (Step.streams k c _ (forall₂_modify k.touches_refl g c.streams i h)).toSteps hk

theorem Steps.mono {ks' : List Kind} (hSub : ∀ k ∈ ks, k ∈ ks') {c c' : H2Conn} (h : Steps env ks c c') :
    Steps env ks' c c' := by
  refine Relation.ReflTransGen.mono ?_ _ _ h
  rintro a b ⟨k, hk, hStep⟩
  exact ⟨k, hSub k hk, hStep⟩

theorem Step.error_mono {k : Kind} {c c' : H2Conn} (h : Step env k c c') (hOk : c'.error = none) :
    c.error = none := by
  cases h with
  | fail _ _ e => exact absurd hOk (h2ConnError_error_ne_none c e)
  | send _ _ f _ =>
    obtain ⟨hEq, _⟩ | ⟨writes, hEq⟩ | ⟨writes, hEq⟩ := h2SendFrame_cases env c f
    · rw [hEq] at hOk
      exact absurd hOk (h2ConnError_error_ne_none c _)
    · rw [hEq] at hOk
      exact hOk
    · rw [hEq] at hOk
      exact hOk
  | conn _ _ _ hChange =>
    cases k <;> (rw [hChange] at hOk; exact hOk)
  | streams => exact hOk
  | opened => exact hOk
  | drop => exact hOk

theorem Steps.error_mono {ks : List Kind} {c c' : H2Conn} (h : Steps env ks c c') (hOk : c'.error = none) :
    c.error = none := by
  induction h with
  | refl => exact hOk
  | tail _ hLast ih =>
    obtain ⟨k, _, hStep⟩ := hLast
    exact ih (hStep.error_mono hOk)

/-! ## Frames on streams -/

theorem h2OnPriority_steps (c : H2Conn) (f : H2Frame) : Steps env [.base] c (h2OnPriority env c f) := by
  rw [h2OnPriority]
  split
  · exact Steps.fail _ (by simp)
  · split
    · split
      · exact Steps.streamError _ _ (by simp)
      · exact Steps.fail _ (by simp)
    · exact Steps.refl c

theorem h2OnRst_steps (c : H2Conn) (f : H2Frame) : Steps env [.base] c (h2OnRst c f) := by
  rw [h2OnRst]
  split
  · exact Steps.fail _ (by simp)
  · split
    · exact Steps.fail _ (by simp)
    · split
      · split
        · exact Steps.fail _ (by simp)
        · exact Steps.refl c
      · exact Steps.modify .base (by simp) (by intro s _; rfl)

theorem h2OnPing_steps (c : H2Conn) (f : H2Frame) : Steps env [.base] c (h2OnPing env c f) := by
  rw [h2OnPing]
  split
  · exact Steps.fail _ (by simp)
  · split
    · exact Steps.fail _ (by simp)
    · split
      · exact Steps.refl c
      · exact (Step.send .base c _ (.inr (.inr (.inl rfl)))).toSteps (by simp)

theorem dataBody_steps (c : H2Conn) (i : Nat) (s : H2Stream) (f : H2Frame) (data : Bytes) :
    Steps env [.base] c (dataBody env c i s f data) := by
  rw [dataBody]
  split
  · exact (Steps.streamError _ _ (by simp)).trans (Steps.modify .base (by simp) (by intro s _; rfl))
  · dsimp only
    split
    · exact ((Steps.modify .base (by simp) (by intro s _; rfl)).trans (Steps.streamError _ _ (by simp))).trans
        (Steps.modify .base (by simp) (by intro s _; rfl))
    · exact Steps.modify .base (by simp) (by intro s _; rfl)

theorem dataOnStream_steps (c : H2Conn) (i : Nat) (s : H2Stream) (f : H2Frame) (data : Bytes) :
    Steps env [.base, .credit] c (dataOnStream env c i s f data) := by
  rw [dataOnStream]
  split
  · exact Steps.refl c
  · dsimp only
    have hWindow : Steps env [.base, .credit] c
        (c.modifyStream i fun s => { s with recvWindow := s.recvWindow - f.len }) :=
      Steps.modify .credit (by simp) fun s _ => rfl
    refine hWindow.trans ?_
    split
    · exact (Steps.streamError _ _ (by simp)).trans (Steps.modify .base (by simp) (by intro s _; rfl))
    · exact (Steps.windowUpdate _ _ (by simp)).trans ((dataBody_steps _ i s f data).mono (by simp))

theorem h2OnData_steps (c : H2Conn) (f : H2Frame) : Steps env [.base, .credit] c (h2OnData env c f) := by
  rw [h2OnData]
  split
  · exact Steps.fail _ (by simp)
  · split
    · exact Steps.fail _ (by simp)
    · split
      · exact Steps.fail _ (by simp)
      · dsimp only
        have hWindow : Steps env [.base, .credit] c { c with connRecvWindow := c.connRecvWindow - f.len } :=
          Steps.conn .credit (by simp) rfl
        refine (hWindow.trans (Steps.windowUpdate 0 f.len (by simp))).trans ?_
        split
        · split
          · exact Steps.fail _ (by simp)
          · exact Steps.streamError _ _ (by simp)
        · split
          · exact Steps.refl _
          · exact dataOnStream_steps _ _ _ f _

theorem windowOnStream_steps (c : H2Conn) (i : Nat) (s : H2Stream) (inc : Nat) :
    Steps env [.base, .grant] c (windowOnStream env c i s inc) := by
  rw [windowOnStream]
  split
  · exact Steps.refl c
  · dsimp only
    have hWindow : Steps env [.base, .grant] c
        (c.modifyStream i fun s => { s with sendWindow := s.sendWindow + inc }) :=
      Steps.modify .grant (by simp) fun s _ => rfl
    refine hWindow.trans ?_
    split
    · exact (Steps.streamError _ _ (by simp)).trans (Steps.modify .base (by simp) (by intro s _; rfl))
    · exact Steps.refl _

theorem h2OnWindow_steps (c : H2Conn) (f : H2Frame) : Steps env [.base, .grant] c (h2OnWindow env c f) := by
  rw [h2OnWindow]
  split
  · exact Steps.fail _ (by simp)
  · split
    · split
      · exact Steps.fail _ (by simp)
      · exact Steps.streamError _ _ (by simp)
    · split
      · dsimp only
        have hWindow : Steps env [.base, .grant] c
            { c with connSendWindow := c.connSendWindow + windowIncrement f } :=
          Steps.conn .grant (by simp) rfl
        refine hWindow.trans ?_
        split
        · exact Steps.fail _ (by simp)
        · exact Steps.refl _
      · split
        · split
          · exact Steps.fail _ (by simp)
          · exact Steps.refl c
        · split
          · exact Steps.refl c
          · exact windowOnStream_steps c _ _ _

/-! ## Settings -/

theorem shiftWindows_touches (delta : Int) (l : List H2Stream) :
    List.Forall₂ Kind.grant.Touches l (shiftWindows delta l).1 := by
  induction l with
  | nil => exact .nil
  | cons s l ih =>
    rw [shiftWindows]
    dsimp only
    split
    · exact .cons rfl (List.forall₂_same.mpr fun s _ => rfl)
    · exact .cons rfl ih

theorem applySetting_steps (c : H2Conn) (id val : Nat) :
    Steps env [.base, .grant] c (applySetting c id val) := by
  rw [applySetting.eq_def]
  split
  · split
    · exact Steps.fail _ (by simp)
    · exact Steps.refl c
  · split
    · exact Steps.fail _ (by simp)
    · dsimp only
      have hShift : Steps env [.base, .grant] c
          { c with streams := (shiftWindows ((val : Int) - c.clientInitWindow) c.streams).1 } :=
        (Step.streams .grant c _ (shiftWindows_touches _ c.streams)).toSteps (by simp)
      have hInit : Steps env [.base, .grant]
          { c with streams := (shiftWindows ((val : Int) - c.clientInitWindow) c.streams).1 }
          { c with clientInitWindow := val, streams :=
            (shiftWindows ((val : Int) - c.clientInitWindow) c.streams).1 } :=
        Steps.conn .grant (by simp) rfl
      refine (hShift.trans hInit).trans ?_
      split
      · exact Steps.fail _ (by simp)
      · exact Steps.refl _
  · split
    · exact Steps.fail _ (by simp)
    · exact Steps.refl c
  · exact Steps.refl c

theorem applySettingsLoop_steps (fuel : Nat) :
    ∀ c p, Steps env [.base, .grant] c (applySettingsLoop fuel c p) := by
  induction fuel with
  | zero => exact fun c _ => Steps.refl c
  | succ fuel ih =>
    intro c p
    rw [applySettingsLoop]
    split
    · exact Steps.refl c
    · exact (applySetting_steps c _ _).trans (ih _ _)

theorem h2ApplySettings_steps (c : H2Conn) (payload : Bytes) :
    Steps env [.base, .grant] c (h2ApplySettings c payload) := by
  rw [h2ApplySettings]
  split
  · exact Steps.fail _ (by simp)
  · exact applySettingsLoop_steps _ c payload

theorem h2OnSettings_steps (c : H2Conn) (f : H2Frame) :
    Steps env [.base, .grant] c (h2OnSettings env c f) := by
  rw [h2OnSettings]
  split
  · exact Steps.fail _ (by simp)
  · split
    · split
      · exact Steps.fail _ (by simp)
      · exact Steps.refl c
    · dsimp only
      have hSeen : Steps env [.base, .grant] c { c with gotClientSettings := true } :=
        Steps.conn .base (by simp) rfl
      refine (hSeen.trans (h2ApplySettings_steps _ f.payload)).trans ?_
      split
      · exact (Step.send .base _ ⟨.settings, 1, 0, []⟩ (.inr (.inl rfl))).toSteps (by simp)
      · exact Steps.refl _

theorem h2OnGoaway_steps (c : H2Conn) (f : H2Frame) : Steps env [.base, .header] c (h2OnGoaway c f) := by
  rw [h2OnGoaway]
  split
  · exact Steps.fail _ (by simp)
  · split
    · exact Steps.fail _ (by simp)
    · exact Steps.conn .header (by simp) rfl

/-! ## Header blocks -/

theorem openStream_steps {c : H2Conn} {s : H2Stream} (h : Opens c s) :
    Steps env [.base, .opened, .drop] c (openStream env c s) := by
  rw [openStream]
  dsimp only
  refine ((Step.opened c s h).toSteps (by simp)).trans ?_
  split
  · refine (Steps.streamError s.id .refused (by simp)).trans ((Step.drop _ _ ?_).toSteps (by simp))
    rw [h2SendStreamError, h2SendFrame_streams]
    simp
  · exact Steps.refl _

theorem h2RequestFromBlock_steps (c : H2Conn) (blk : Bytes) :
    Steps env [.base, .header, .opened, .drop] c (h2RequestFromBlock env c blk).1 := by
  rw [h2RequestFromBlock]
  split
  · exact (Steps.conn .header (by simp) (by exact rfl)).trans (Steps.fail .compression (by simp))
  · exact Steps.conn .header (by simp) rfl

theorem h2RequestFromBlock_lastStreamId (c : H2Conn) (blk : Bytes) :
    (h2RequestFromBlock env c blk).1.lastStreamId = c.lastStreamId := by
  rw [h2RequestFromBlock]
  split
  · rw [h2ConnError_eq]
  · rfl

theorem h2OnHeaderBlockFinish_steps (c : H2Conn) (id : Nat) (endStream : Bool) (blk : Bytes) :
    Steps env [.base, .header, .opened, .drop] c (h2OnHeaderBlockFinish env c id endStream blk) := by
  have hDecode : Steps env [.base, .header, .opened, .drop] c (h2RequestFromBlock env c blk).1 :=
    h2RequestFromBlock_steps c blk
  rw [h2OnHeaderBlockFinish]
  split
  · exact Steps.fail _ (by simp)
  · split
    · exact Steps.streamError _ _ (by simp)
    · split
      · exact Steps.fail _ (by simp)
      · rename_i hNew
        split
        · exact Steps.fail _ (by simp)
        · have hLast : (h2RequestFromBlock env c blk).1.lastStreamId < id := by
            rw [h2RequestFromBlock_lastStreamId]
            exact not_le.mp hNew
          split
          · rename_i hEq
            rw [hEq] at hDecode
            exact hDecode
          · rename_i hEq
            rw [hEq] at hDecode
            exact hDecode.trans (Steps.streamError _ _ (by simp))
          · rename_i hEq
            rw [hEq] at hDecode hLast
            exact hDecode.trans ((openStream_steps ⟨hLast, rfl⟩).mono (by simp))

theorem takeFragment_steps (c : H2Conn) (f : H2Frame) :
    Steps env [.base, .header] c (takeFragment env c f) := by
  rw [takeFragment]
  split
  · exact Steps.refl c
  · split
    · exact (Steps.conn .header (by simp) (by exact rfl)).trans (Steps.streamError _ _ (by simp))
    · exact Steps.conn .header (by simp) rfl

theorem h2OnCont_steps (c : H2Conn) (f : H2Frame) :
    Steps env [.base, .header, .opened, .drop] c (h2OnCont env c f) := by
  have hClear : ∀ c, Steps env [.base, .header, .opened, .drop] c (clearBlock c) :=
    fun c => Steps.conn .header (by simp) rfl
  rw [h2OnCont]
  split
  · exact Steps.fail _ (by simp)
  · split
    · exact Steps.fail _ (by simp)
    · dsimp only
      have hTake : Steps env [.base, .header, .opened, .drop] c (takeFragment env c f) :=
        (takeFragment_steps c f).mono (by simp)
      refine hTake.trans ?_
      split
      · split
        · exact hClear _
        · exact (hClear _).trans (h2OnHeaderBlockFinish_steps _ _ _ _)
      · exact Steps.refl _

theorem h2OnHeadersStart_steps (c : H2Conn) (f : H2Frame) :
    Steps env [.base, .header, .opened, .drop] c (h2OnHeadersStart env c f) := by
  rw [h2OnHeadersStart]
  split
  · exact Steps.fail _ (by simp)
  · dsimp only
    have hStart : Steps env [.base, .header, .opened, .drop] c
        { c with hbStream := f.streamId, hbEndStream := f.endStream, hbAbort := false, hb := [] } :=
      Steps.conn .header (by simp) rfl
    refine hStart.trans ?_
    split
    · exact Steps.fail _ (by simp)
    · split
      · exact Steps.fail _ (by simp)
      · split
        · exact (Steps.conn .header (by simp) (by exact rfl)).trans (h2OnHeaderBlockFinish_steps _ _ _ _)
        · exact Steps.conn .header (by simp) rfl

/-! ## One frame -/

/-- Whatever the frame, no response is touched. -/
theorem handleFrame_steps (c : H2Conn) (f : H2Frame) :
    Steps env [.base, .credit, .grant, .header, .opened, .drop] c (handleFrame env c f) := by
  rw [handleFrame]
  split
  · exact Steps.fail _ (by simp)
  · split
    · exact Steps.fail _ (by simp)
    · split
      · exact (h2OnData_steps c f).mono (by simp)
      · exact (h2OnHeadersStart_steps c f).mono (by simp)
      · exact (h2OnCont_steps c f).mono (by simp)
      · exact (h2OnPriority_steps c f).mono (by simp)
      · exact (h2OnRst_steps c f).mono (by simp)
      · exact (h2OnSettings_steps c f).mono (by simp)
      · exact (h2OnPing_steps c f).mono (by simp)
      · exact (h2OnGoaway_steps c f).mono (by simp)
      · exact (h2OnWindow_steps c f).mono (by simp)
      · exact Steps.fail _ (by simp)
      · exact Steps.refl c

/-- A frame that passes the two checks before the handlers is handled by its
type. -/
inductive Handled (env : H2Env) (c : H2Conn) (f : H2Frame) : H2Conn → Prop where
  | data : f.type = .data → Handled env c f (h2OnData env c f)
  | headers : f.type = .headers → Handled env c f (h2OnHeadersStart env c f)
  | cont : f.type = .cont → Handled env c f (h2OnCont env c f)
  | priority : f.type = .priority → Handled env c f (h2OnPriority env c f)
  | rst : f.type = .rst → Handled env c f (h2OnRst c f)
  | settings : f.type = .settings → Handled env c f (h2OnSettings env c f)
  | ping : f.type = .ping → Handled env c f (h2OnPing env c f)
  | goaway : f.type = .goaway → Handled env c f (h2OnGoaway c f)
  | window : f.type = .window → Handled env c f (h2OnWindow env c f)
  | unknown (code : UInt8) : f.type = .unknown code → Handled env c f c

theorem handleFrame_handled {c : H2Conn} {f : H2Frame} (hOk : (handleFrame env c f).error = none) :
    Handled env c f (handleFrame env c f) := by
  rw [handleFrame] at hOk ⊢
  split at hOk
  · exact absurd hOk (h2ConnError_error_ne_none c _)
  · rename_i hSettings
    rw [if_neg hSettings]
    split at hOk
    · exact absurd hOk (h2ConnError_error_ne_none c _)
    · rename_i hBlock
      rw [if_neg hBlock]
      cases hType : f.type with
      | data => exact .data hType
      | headers => exact .headers hType
      | cont => exact .cont hType
      | priority => exact .priority hType
      | rst => exact .rst hType
      | settings => exact .settings hType
      | ping => exact .ping hType
      | goaway => exact .goaway hType
      | window => exact .window hType
      | pushPromise =>
        rw [hType] at hOk
        exact absurd hOk (h2ConnError_error_ne_none c _)
      | unknown code => exact .unknown code hType

/-- A frame that ends without an error has been handled, and then the
connection is settled. -/
theorem frameStep_handled {c : H2Conn} {f : H2Frame} (hOk : (frameStep env c f).error = none) :
    Handled env { c with trace := c.trace ++ [.recv f] } f (h2ProcessFrame env c f) ∧
      (h2ProcessFrame env c f).error = none ∧ frameStep env c f = settle env (h2ProcessFrame env c f) := by
  rw [frameStep] at hOk ⊢
  split at hOk
  · rename_i hNone
    rw [if_pos hNone]
    exact ⟨handleFrame_handled hNone, hNone, rfl⟩
  · rename_i hSome
    exact absurd hOk hSome

end Cweb.H2
