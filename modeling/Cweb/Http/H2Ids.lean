import Cweb.Http.H2Reset

/-!
# Stream ids

A header block opens a stream with an id above those of all blocks before it,
as long as each block with a new id is accepted: the last id is not moved by a
block that is malformed, over the cap, or refused after a GOAWAY.
-/

namespace Cweb.H2

variable {env : H2Env}

/-! ## Runs with the streams they open -/

/-- Ends a header block. -/
def EndsBlock (f : H2Frame) : Bool := (f.type == .headers || f.type == .cont) && f.endHeaders

/-- The ids of the header blocks that these frames complete. -/
def blockIds (frames : List H2Frame) : List Nat := (frames.filter EndsBlock).map H2Frame.streamId

/-- A stream that was opened, and the ids of the blocks received before. -/
structure Opening where
  id : Nat
  before : List Nat
deriving DecidableEq

def isNew (c : H2Conn) (s : H2Stream) : Bool := c.streams.all fun t => t.id != s.id

/-- The streams that `f` adds to the table. -/
def openedBy (env : H2Env) (c : H2Conn) (f : H2Frame) : List Opening :=
  ((h2ProcessFrame env c f).streams.filter (isNew c)).map fun s => ⟨s.id, blockIds (received c.trace)⟩

/-- A run with its calls and the streams opened on the way, on frames for which `P` holds. -/
inductive OpeningRun (env : H2Env) (P : H2Conn → H2Frame → Prop) (c₀ : H2Conn) :
    List Opening → List Call → H2Conn → Prop where
  | start : OpeningRun env P c₀ [] (callsOf env c₀) (settle env c₀)
  | turn {openings : List Opening} {log : List Call} {c : H2Conn} : OpeningRun env P c₀ openings log c →
      c.error = none → OpeningRun env P c₀ openings (log ++ callsOf env c) (settle env c)
  | frame {openings : List Opening} {log : List Call} {c : H2Conn}
    (f : H2Frame) : OpeningRun env P c₀ openings log c →
      c.error = none → P c f →
      OpeningRun env P c₀ (openings ++ openedBy env c f) (log ++ callsOf env (h2ProcessFrame env c f))
        (frameStep env c f)
  | behind {openings openings' : List Opening} {log log' : List Call} {c : H2Conn} (f g : H2Frame) :
      OpeningRun env P c₀ openings log c → c.error = none → FailsBehind env c f → P c f →
      OpeningRun env P c₀ openings' log' (frameStep env c f) → P (frameStep env c f) g →
      OpeningRun env P c₀ (openings' ++ openedBy env (frameStep env c f) g) log'
        (h2ProcessFrame env (frameStep env c f) g)

/-- Streams are opened with ids above those of the blocks before, and the
handler is called for streams that were opened. -/
structure NeverReused (upgrade : Option HttpRequest) (openings : List Opening) (log : List Call) : Prop where
  above : ∀ o ∈ openings, ∀ n ∈ o.before, n < o.id
  increasing : (openings.map Opening.id).Pairwise (· < ·)
  called : ∀ call ∈ log, (∃ o ∈ openings, o.id = call.id) ∨ call.id = 1 ∧ upgrade ≠ none

/-- The frame completes a header block in order, for an id that is new. -/
structure NewBlock (c : H2Conn) (f : H2Frame) : Prop where
  settings : c.gotClientSettings = true
  ends : f.endHeaders = true
  place : f.type = .headers ∧ c.hbStream = 0 ∨ f.type = .cont ∧ c.hbStream = f.streamId ∧ c.hbStream ≠ 0
  fresh : c.lastStreamId < f.streamId

/-- A block with a new id fits its cap, is not refused after a GOAWAY, and is well formed. -/
structure Accepting (env : H2Env) (c : H2Conn) (f : H2Frame) : Prop where
  capped : NewBlock c f → f.type = .cont → c.hbAbort = false ∧ c.hb.length + f.len ≤ h2HeaderBlockCap
  wanted : NewBlock c f → completedBlock c f ≠ none → f.streamId % 2 = 1 →
    ¬ (c.clientGoaway = true ∧ c.clientGoawayLast < f.streamId)
  wellFormed : NewBlock c f → ∀ blk, completedBlock c f = some blk → f.streamId % 2 = 1 →
    (h2RequestFromBlock env c blk).2 ≠ .malformed

/-! ## One frame -/

theorem h2RequestFromBlock_compression {c : H2Conn} {blk : Bytes}
    (h : (h2RequestFromBlock env c blk).2 = .compression) :
    (h2RequestFromBlock env c blk).1.error ≠ none := by
  rw [h2RequestFromBlock] at h ⊢
  split at h
  · exact h2ConnError_error_ne_none _ _
  · exfalso
    dsimp only at h
    split at h
    · cases h
    · cases h

theorem h2OnHeaderBlockFinish_advances {c : H2Conn} {id : Nat} {endStream : Bool} {blk : Bytes}
    (hOk : (h2OnHeaderBlockFinish env c id endStream blk).error = none)
    (hWanted : c.lastStreamId < id → id % 2 = 1 → ¬ (c.clientGoaway = true ∧ c.clientGoawayLast < id))
    (hFormed : c.lastStreamId < id → id % 2 = 1 → (h2RequestFromBlock env c blk).2 ≠ .malformed) :
    id ≤ (h2OnHeaderBlockFinish env c id endStream blk).lastStreamId := by
  by_cases hOld : id ≤ c.lastStreamId
  · obtain hOpened | ⟨_, hLast⟩ := @h2OnHeaderBlockFinish_effect env c id endStream blk
    · exact hOpened.last.ge
    · exact hOld.trans hLast
  have hFresh : c.lastStreamId < id := not_le.mp hOld
  rw [h2OnHeaderBlockFinish] at hOk ⊢
  by_cases hEven : id % 2 = 0
  · rw [if_pos hEven] at hOk
    exact absurd hOk (h2ConnError_error_ne_none c _)
  have hOdd : id % 2 = 1 := by omega
  rw [if_neg hEven, if_neg (hWanted hFresh hOdd), if_neg hOld] at hOk ⊢
  by_cases hFound : h2FindStream c id ≠ none
  · rw [if_pos hFound] at hOk
    exact absurd hOk (h2ConnError_error_ne_none c _)
  rw [if_neg hFound] at hOk ⊢
  have hLast := @h2RequestFromBlock_lastStreamId env c blk
  have hCompression := @h2RequestFromBlock_compression env c blk
  have hNot := hFormed hFresh hOdd
  cases hBlock : h2RequestFromBlock env c blk with
  | mk c' result =>
    rw [hBlock] at hOk hLast hCompression hNot
    cases result with
    | compression => exact absurd hOk (hCompression rfl)
    | malformed => exact absurd rfl hNot
    | request req =>
      obtain hOpened | ⟨_, hId⟩ := @openStream_effect env c' id endStream req
        (hLast.trans_lt hFresh) hOdd
      · exact hOpened.last.ge
      · exact hId.ge

theorem h2OnHeadersStart_advances {c : H2Conn} {f : H2Frame} (hAccepting : Accepting env c f)
    (hNew : NewBlock c f)
    (hType : f.type = .headers) (hOk : (h2OnHeadersStart env c f).error = none) :
    f.streamId ≤ (h2OnHeadersStart env c f).lastStreamId := by
  have hEnd := hNew.ends
  rw [h2OnHeadersStart] at hOk ⊢
  by_cases hZero : f.streamId = 0
  · rw [if_pos hZero] at hOk
    exact absurd hOk (h2ConnError_error_ne_none c _)
  rw [if_neg hZero] at hOk ⊢
  dsimp only at hOk ⊢
  cases hFrag : headersFragment f with
  | none =>
    rw [hFrag] at hOk
    exact absurd hOk (h2ConnError_error_ne_none _ _)
  | some frag =>
    have hBlock : completedBlock c f = some frag := by
      rw [completedBlock, hType]
      exact (if_pos hEnd).trans hFrag
    rw [hFrag] at hOk
    dsimp only at hOk ⊢
    by_cases hLarge : h2HeaderBlockCap < frag.length
    · rw [if_pos hLarge] at hOk
      exact absurd hOk (h2ConnError_error_ne_none _ _)
    rw [if_neg hLarge, if_pos hEnd] at hOk ⊢
    refine h2OnHeaderBlockFinish_advances hOk ?_ ?_
    · intro _ hOdd
      refine hAccepting.wanted hNew ?_ hOdd
      rw [hBlock]
      exact Option.some_ne_none _
    · intro _ hOdd hMalformed
      refine hAccepting.wellFormed hNew frag hBlock hOdd ?_
      rw [← hMalformed]
      symm
      apply h2RequestFromBlock_congr
      rfl

theorem h2OnCont_advances {c : H2Conn} {f : H2Frame} (hAccepting : Accepting env c f)
    (hGot : c.gotClientSettings = true)
    (hEnd : f.endHeaders = true) (hFresh : c.lastStreamId < f.streamId) (hType : f.type = .cont)
    (hOk : (h2OnCont env c f).error = none) : f.streamId ≤ (h2OnCont env c f).lastStreamId := by
  rw [h2OnCont] at hOk ⊢
  by_cases hNone : c.hbStream = 0
  · rw [if_pos hNone] at hOk
    exact absurd hOk (h2ConnError_error_ne_none c _)
  by_cases hOther : f.streamId ≠ c.hbStream
  · rw [if_neg hNone, if_pos hOther] at hOk
    exact absurd hOk (h2ConnError_error_ne_none c _)
  have hSame : c.hbStream = f.streamId := (not_not.mp hOther).symm
  have hNew : NewBlock c f := ⟨hGot, hEnd, .inr ⟨hType, hSame, hNone⟩, hFresh⟩
  obtain ⟨hTaking, hFits⟩ := hAccepting.capped hNew hType
  have hTaken : takeFragment env c f = { c with hb := c.hb ++ f.payload } := by
    rw [takeFragment, if_neg (by rw [hTaking]; rintro ⟨⟩), if_neg (not_lt.mpr hFits)]
  have hBlock : completedBlock c f = some (c.hb ++ f.payload) := by
    rw [completedBlock, hType]
    exact if_pos ⟨hEnd, hTaking, hFits⟩
  rw [if_neg hNone, if_neg hOther] at hOk ⊢
  simp only [hTaken, hEnd, hTaking, if_true, if_false, Bool.false_eq_true] at hOk ⊢
  rw [← hSame]
  refine h2OnHeaderBlockFinish_advances hOk ?_ ?_
  · intro _ hOdd
    rw [hSame] at hOdd ⊢
    refine hAccepting.wanted hNew ?_ hOdd
    rw [hBlock]
    exact Option.some_ne_none _
  · intro _ hOdd hMalformed
    rw [hSame] at hOdd
    refine hAccepting.wellFormed hNew _ hBlock hOdd ?_
    rw [← hMalformed]
    symm
    apply h2RequestFromBlock_congr
    rfl

theorem handleFrame_advances {c : H2Conn} {f : H2Frame} (hAccepting : Accepting env c f)
    (hEnds : EndsBlock f = true) (hOk : (handleFrame env c f).error = none) :
    f.streamId ≤ (handleFrame env c f).lastStreamId := by
  rw [EndsBlock, Bool.and_eq_true, Bool.or_eq_true, beq_iff_eq, beq_iff_eq] at hEnds
  obtain ⟨hType, hEnd⟩ := hEnds
  by_cases hOld : f.streamId ≤ c.lastStreamId
  · exact hOld.trans (handleFrame_effect c f).last
  have hFresh : c.lastStreamId < f.streamId := not_le.mp hOld
  rw [handleFrame] at hOk ⊢
  by_cases hSettings : ¬ c.gotClientSettings ∧ (f.type ≠ .settings ∨ f.endStream)
  · rw [if_pos hSettings] at hOk
    exact absurd hOk (h2ConnError_error_ne_none c _)
  have hGot : c.gotClientSettings = true := by
    by_contra hNot
    refine hSettings ⟨hNot, .inl ?_⟩
    obtain hType | hType := hType
    · rw [hType]
      rintro ⟨⟩
    · rw [hType]
      rintro ⟨⟩
  by_cases hOrder : c.hbStream ≠ 0 ∧ (f.type ≠ .cont ∨ f.streamId ≠ c.hbStream)
  · rw [if_neg hSettings, if_pos hOrder] at hOk
    exact absurd hOk (h2ConnError_error_ne_none c _)
  rw [if_neg hSettings, if_neg hOrder] at hOk ⊢
  obtain hType | hType := hType
  · have hClosed : c.hbStream = 0 := by
      by_contra hOpen
      refine hOrder ⟨hOpen, .inl ?_⟩
      rw [hType]
      rintro ⟨⟩
    simp only [hType] at hOk ⊢
    exact h2OnHeadersStart_advances hAccepting ⟨hGot, hEnd, .inl ⟨hType, hClosed⟩, hFresh⟩ hType hOk
  · simp only [hType] at hOk ⊢
    exact h2OnCont_advances hAccepting hGot hEnd hFresh hType hOk

/-! ## Along a run -/

theorem blockIds_concat (frames : List H2Frame) (f : H2Frame) :
    blockIds (frames ++ [f]) = blockIds frames ++ if EndsBlock f then [f.streamId] else [] := by
  rw [blockIds, List.filter_append, List.map_append]
  by_cases h : EndsBlock f = true
  · rw [List.filter_cons_of_pos h, if_pos h]
    rfl
  · rw [List.filter_cons_of_neg h, if_neg h]
    rfl

/-- The ids of the blocks are not above the last one. -/
def Covered (c : H2Conn) : Prop := ∀ n ∈ blockIds (received c.trace), n ≤ c.lastStreamId

theorem Accepting.recv {c : H2Conn} {f : H2Frame} (h : Accepting env c f) (trace : List Event) :
    Accepting env { c with trace := trace } f := by
  have hNew : NewBlock { c with trace := trace } f → NewBlock c f := fun hNew =>
    ⟨hNew.settings, hNew.ends, hNew.place, hNew.fresh⟩
  constructor
  · exact fun hBlock => h.capped (hNew hBlock)
  · exact fun hBlock => h.wanted (hNew hBlock)
  · intro hBlock blk hCompleted hOdd hMalformed
    refine h.wellFormed (hNew hBlock) blk hCompleted hOdd ?_
    rw [← hMalformed]
    symm
    apply h2RequestFromBlock_congr
    rfl

theorem process_covered {c : H2Conn} {f : H2Frame} (hc : Covered c) (hAccepting : Accepting env c f)
    (hOk : (h2ProcessFrame env c f).error = none) : Covered (h2ProcessFrame env c f) := by
  intro n hn
  rw [received_process, blockIds_concat] at hn
  obtain hOld | hNew := List.mem_append.mp hn
  · exact (hc n hOld).trans (@handleFrame_effect env { c with trace := c.trace ++ [.recv f] } f).last
  · split at hNew
    · rename_i hEnds
      rw [List.mem_singleton.mp hNew]
      exact handleFrame_advances (hAccepting.recv _) hEnds hOk
    · cases hNew

theorem settle_covered {c : H2Conn} (hc : Covered c) : Covered (settle env c) := by
  intro n hn
  rw [(settle_steps c).received_eq] at hn
  rw [settle_lastStreamId]
  exact hc n hn

theorem openedBy_cases {c : H2Conn} (hDistinct : Distinct c) (f : H2Frame) :
    (openedBy env c f = [] ∧ ∀ s' ∈ (h2ProcessFrame env c f).streams, ∃ s ∈ c.streams, s.id = s'.id) ∨
      (openedBy env c f = [⟨f.streamId, blockIds (received c.trace)⟩] ∧ c.lastStreamId < f.streamId ∧
        (h2ProcessFrame env c f).lastStreamId = f.streamId ∧
        ∀ s' ∈ (h2ProcessFrame env c f).streams, s'.id = f.streamId ∨ ∃ s ∈ c.streams, s.id = s'.id) := by
  obtain ⟨e, hOpened, _⟩ | hKeeps :=
    (@handleFrame_effect env { c with trace := c.trace ++ [.recv f] } f).streams
  · obtain ⟨req, window, hStreams⟩ := hOpened.streams
    have hFresh : c.lastStreamId < f.streamId := hOpened.fresh
    right
    refine ⟨?_, hFresh, hOpened.last, ?_⟩
    · have hOld : c.streams.filter (isNew c) = [] := by
        rw [List.filter_eq_nil_iff]
        intro s hs hAll
        have hSelf := List.all_eq_true.mp hAll s hs
        rw [bne_self_eq_false] at hSelf
        cases hSelf
      have hNew : isNew c (newStream f.streamId e req window) = true := by
        refine List.all_eq_true.mpr ?_
        intro t ht
        have hBound := (hDistinct.bound t ht).2
        have hNe : t.id ≠ f.streamId := by omega
        exact bne_iff_ne.mpr hNe
      rw [openedBy, h2ProcessFrame, hStreams, List.filter_append, hOld]
      rw [List.nil_append, List.filter_cons_of_pos hNew]
      rfl
    · intro s' hs'
      rw [h2ProcessFrame, hStreams] at hs'
      obtain hs' | hs' := List.mem_append.mp hs'
      · exact .inr ⟨s', hs', rfl⟩
      · rw [List.mem_singleton.mp hs']
        exact .inl rfl
  · have hIds : ∀ s' ∈ (h2ProcessFrame env c f).streams, ∃ s ∈ c.streams, s.id = s'.id := by
      intro s' hs'
      obtain ⟨s, hs, hKept⟩ := mem_of_forall₂ hKeeps hs'
      exact ⟨s, hs, hKept.id.symm⟩
    refine .inl ⟨?_, hIds⟩
    rw [openedBy, List.map_eq_nil_iff, List.filter_eq_nil_iff]
    intro s' hs' hAll
    obtain ⟨s, hs, hId⟩ := hIds s' hs'
    have hNe := List.all_eq_true.mp hAll s hs
    rw [hId, bne_self_eq_false] at hNe
    cases hNe

/-- What is known of the streams opened so far. -/
structure Fresh (upgrade : Option HttpRequest) (openings : List Opening) (c : H2Conn) : Prop where
  above : ∀ o ∈ openings, ∀ n ∈ o.before, n < o.id
  increasing : (openings.map Opening.id).Pairwise (· < ·)
  bound : ∀ o ∈ openings, o.id ≤ c.lastStreamId
  known : ∀ s ∈ c.streams, (∃ o ∈ openings, o.id = s.id) ∨ s.id = 1 ∧ upgrade ≠ none

theorem Fresh.process {upgrade : Option HttpRequest} {openings : List Opening} {c : H2Conn}
    (h : Fresh upgrade openings c) (hDistinct : Distinct c) (hCovered : Covered c) (f : H2Frame) :
    Fresh upgrade (openings ++ openedBy env c f) (h2ProcessFrame env c f) := by
  have hLast := (@handleFrame_effect env { c with trace := c.trace ++ [.recv f] } f).last
  obtain ⟨hNone, hIds⟩ | ⟨hOne, hFresh, hMoved, hIds⟩ := @openedBy_cases env c hDistinct f
  · rw [hNone, List.append_nil]
    refine ⟨h.above, h.increasing, fun o ho => (h.bound o ho).trans hLast, ?_⟩
    intro s' hs'
    obtain ⟨s, hs, hId⟩ := hIds s' hs'
    rw [← hId]
    exact h.known s hs
  · rw [hOne]
    constructor
    · intro o ho n hn
      obtain ho | ho := List.mem_append.mp ho
      · exact h.above o ho n hn
      · rw [List.mem_singleton.mp ho] at hn ⊢
        exact (hCovered n hn).trans_lt hFresh
    · rw [List.map_append, List.pairwise_append]
      refine ⟨h.increasing, List.pairwise_singleton _ _, ?_⟩
      intro a ha b hb
      obtain ⟨o, ho, rfl⟩ := List.mem_map.mp ha
      rw [List.mem_singleton.mp hb]
      exact (h.bound o ho).trans_lt hFresh
    · intro o ho
      obtain ho | ho := List.mem_append.mp ho
      · exact (h.bound o ho).trans hLast
      · rw [List.mem_singleton.mp ho]
        exact hMoved.ge
    · intro s' hs'
      obtain hId | ⟨s, hs, hId⟩ := hIds s' hs'
      · exact .inl ⟨_, List.mem_append_right _ (List.mem_singleton_self _), hId.symm⟩
      · rw [← hId]
        obtain ⟨o, ho, hSame⟩ | hUpgrade := h.known s hs
        · exact .inl ⟨o, List.mem_append_left _ ho, hSame⟩
        · exact .inr hUpgrade

theorem Fresh.settle {upgrade : Option HttpRequest} {openings : List Opening} {c : H2Conn}
    (h : Fresh upgrade openings c) (hOk : c.error = none) : Fresh upgrade openings (settle env c) := by
  refine ⟨h.above, h.increasing, ?_, ?_⟩
  · rw [settle_lastStreamId]
    exact h.bound
  · intro s' hs'
    obtain ⟨s, hs, hSurvives⟩ := settle_survives hOk hs'
    rw [hSurvives.id]
    exact h.known s hs

theorem Fresh.calls {upgrade : Option HttpRequest} {openings : List Opening} {c : H2Conn}
    (h : Fresh upgrade openings c) : ∀ call ∈ callsOf env c,
      (∃ o ∈ openings, o.id = call.id) ∨ call.id = 1 ∧ upgrade ≠ none := by
  intro call hCall
  obtain ⟨_, _, s, hs, hId, _⟩ := mem_callsOf hCall
  rw [← hId]
  exact h.known s hs

theorem fresh_start {upgrade : Option HttpRequest} {c : H2Conn} (h : h2Start env upgrade = some c) :
    Fresh upgrade [] c ∧ Covered c := by
  have hNone : ∀ (P : Opening → Prop), ∀ o ∈ ([] : List Opening), P o :=
    fun _ _ ho => absurd ho List.not_mem_nil
  refine ⟨⟨hNone _, List.Pairwise.nil, hNone _, ?_⟩, ?_⟩
  · intro s hs
    obtain hEmpty | ⟨hUpgrade, t, hOne, hId, _⟩ := h2Start_streams h
    · rw [hEmpty] at hs
      cases hs
    · rw [hOne] at hs
      rw [List.mem_singleton.mp hs]
      exact .inr ⟨hId, hUpgrade⟩
  · have hNothing : received c.trace = [] := by
      obtain ⟨writes, events, hEq, hEvents⟩ := @prologueStart_eq env upgrade
      rw [(h2Start_steps h).received_eq, hEq]
      exact received_text hEvents
    intro n hn
    rw [hNothing] at hn
    cases hn

theorem OpeningRun.fresh {upgrade : Option HttpRequest} {c₀ c : H2Conn} {openings : List Opening}
    {log : List Call}
    (hStart : h2Start env upgrade = some c₀) (h : OpeningRun env (Accepting env) c₀ openings log c) :
    Distinct c ∧ Fresh upgrade openings c ∧ (c.error = none → Covered c) ∧
      ∀ call ∈ log, (∃ o ∈ openings, o.id = call.id) ∨ call.id = 1 ∧ upgrade ≠ none := by
  induction h with
  | start =>
    obtain ⟨hFresh, hCovered⟩ := fresh_start hStart
    exact ⟨(settle_steps _).distinct (distinct_start hStart), hFresh.settle (h2Start_error hStart),
      fun _ => settle_covered hCovered, hFresh.calls⟩
  | turn _ hOk ih =>
    obtain ⟨hDistinct, hFresh, hCovered, hLog⟩ := ih
    refine ⟨(settle_steps _).distinct hDistinct, hFresh.settle hOk,
      fun _ => settle_covered (hCovered hOk), ?_⟩
    intro call hCall
    obtain hCall | hCall := List.mem_append.mp hCall
    · exact hLog call hCall
    · exact hFresh.calls call hCall
  | frame f _ hOk hAccepting ih =>
    obtain ⟨hDistinct, hFresh, hCovered, hLog⟩ := ih
    have hDistinct' := @h2ProcessFrame_distinct env _ hDistinct f
    have hFresh' := @Fresh.process env _ _ _ hFresh hDistinct (hCovered hOk) f
    have hAfter : ∀ call ∈ callsOf env (h2ProcessFrame env _ f), _ := hFresh'.calls
    refine ⟨?_, ?_, ?_, ?_⟩
    · rw [frameStep]
      split
      · exact (settle_steps _).distinct hDistinct'
      · exact hDistinct'
    · rw [frameStep]
      split
      · rename_i hNone
        exact hFresh'.settle hNone
      · exact hFresh'
    · rw [frameStep]
      split
      · rename_i hNone
        exact fun _ => settle_covered (process_covered (hCovered hOk) hAccepting hNone)
      · rename_i hError
        exact fun hNone => absurd hNone hError
    · intro call hCall
      obtain hCall | hCall := List.mem_append.mp hCall
      · obtain ⟨o, ho, hId⟩ | hUpgrade := hLog call hCall
        · exact .inl ⟨o, List.mem_append_left _ ho, hId⟩
        · exact .inr hUpgrade
      · exact hAfter call hCall
  | @behind _ _ _ _ c f g _ hOk hFails hAccepting _ _ ih ih' =>
    obtain ⟨_, _, hCovered, _⟩ := ih
    obtain ⟨hDistinct, hFresh, _, hLog⟩ := ih'
    have hCovered' : Covered (frameStep env c f) := by
      rw [frameStep, if_pos hFails.handled]
      exact settle_covered (process_covered (hCovered hOk) hAccepting hFails.handled)
    refine ⟨h2ProcessFrame_distinct hDistinct g, hFresh.process hDistinct hCovered' g,
      fun hNone => absurd (h2ProcessFrame_error g hNone) hFails.failed, ?_⟩
    intro call hCall
    obtain ⟨o, ho, hId⟩ | hUpgrade := hLog call hCall
    · exact .inl ⟨o, List.mem_append_left _ ho, hId⟩
    · exact .inr hUpgrade

/-- Where each block with a new id is accepted, no id is used again. -/
theorem ids_never_reused {upgrade : Option HttpRequest} {c₀ c : H2Conn} {openings : List Opening}
    {log : List Call}
    (hStart : h2Start env upgrade = some c₀) (h : OpeningRun env (Accepting env) c₀ openings log c) :
    NeverReused upgrade openings log := by
  obtain ⟨_, hFresh, _, hLog⟩ := h.fresh hStart
  exact ⟨hFresh.above, hFresh.increasing, hLog⟩

theorem OpeningRun.concat {P : H2Conn → H2Frame → Prop} {c₀ : H2Conn} {openings : List Opening}
    {log : List Call}
    {frames : List H2Frame} {f : H2Frame} (h : OpeningRun env P c₀ openings log (plainRun env frames))
    (hOk : (plainRun env frames).error = none) (hFrame : P (plainRun env frames) f) :
    ∃ log, OpeningRun env P c₀ (openings ++ openedBy env (plainRun env frames) f) log
      (plainRun env (frames ++ [f])) := by
  rw [plainRun_concat f hOk]
  exact ⟨_, h.frame f hOk hFrame⟩

theorem accepting_of_other {c : H2Conn} {f : H2Frame} (hHeaders : f.type ≠ .headers)
    (hCont : f.type ≠ .cont) :
    Accepting env c f := by
  have hNone : ¬ NewBlock c f := by
    intro hNew
    obtain ⟨hType, _⟩ | ⟨hType, _⟩ := hNew.place
    · exact hHeaders hType
    · exact hCont hType
  exact ⟨fun h => absurd h hNone, fun h => absurd h hNone, fun h => absurd h hNone⟩

theorem accepting_of_request {c : H2Conn} {f : H2Frame} {blk : Bytes} (hType : f.type = .headers)
    (hBlock : completedBlock c f = some blk) (hGoaway : c.clientGoaway = false)
    (hFormed : (h2RequestFromBlock env c blk).2 ≠ .malformed) : Accepting env c f := by
  constructor
  · intro _ hCont
    rw [hType] at hCont
    cases hCont
  · rintro _ _ _ ⟨hAway, _⟩
    rw [hGoaway] at hAway
    cases hAway
  · intro _ blk' hBlock' _
    rw [hBlock] at hBlock'
    rwa [← Option.some.inj hBlock']

/-- Two requests one after the other. -/
def twoGets : List H2Frame := [⟨.settings, 0, 0, []⟩, ⟨.headers, 5, 1, [0x82, 0x86, 0x84]⟩,
  ⟨.headers, 5, 3, [0x82, 0x86, 0x84]⟩]

theorem ids_never_reused_two_gets :
    ∃ c₀ openings log, h2Start plainEnv none = some c₀ ∧
      OpeningRun plainEnv (Accepting plainEnv) c₀ openings log (plainRun plainEnv twoGets) ∧
      openings = [⟨1, []⟩, ⟨3, [1]⟩] ∧ NeverReused none openings log := by
  have hSettings : Accepting plainEnv (plainRun plainEnv []) ⟨.settings, 0, 0, []⟩ :=
    accepting_of_other nofun nofun
  have hFirst : Accepting plainEnv (plainRun plainEnv (twoGets.take 1))
    ⟨.headers, 5, 1, [0x82, 0x86, 0x84]⟩ :=
    accepting_of_request rfl rfl (by decide +kernel) (by decide +kernel)
  have hSecond : Accepting plainEnv (plainRun plainEnv (twoGets.take 2))
    ⟨.headers, 5, 3, [0x82, 0x86, 0x84]⟩ :=
    accepting_of_request rfl rfl (by decide +kernel) (by decide +kernel)
  obtain ⟨log, hRun⟩ :=
    (OpeningRun.start : OpeningRun plainEnv (Accepting plainEnv) (h2SendSettings plainEnv h2Init) _ _
    (plainRun plainEnv [])).concat (by decide +kernel) hSettings
  obtain ⟨log, hRun⟩ := hRun.concat (by decide +kernel) hFirst
  obtain ⟨log, hRun⟩ := hRun.concat (by decide +kernel) hSecond
  exact ⟨_, _, log, rfl, hRun, by decide +kernel, @ids_never_reused plainEnv none _ _ _ _ rfl hRun⟩

/-- A block without a scheme, and a request under the same id. -/
def sameId : List H2Frame :=
  [⟨.settings, 0, 0, []⟩, ⟨.headers, 5, 1, [0x82]⟩, ⟨.headers, 5, 1, [0x82, 0x86, 0x84]⟩]

/-- The second block opens the stream, and the handler is called for it. -/
theorem malformed_id_reused :
    ∃ c₀ openings log, h2Start plainEnv none = some c₀ ∧
      OpeningRun plainEnv (fun _ _ => True) c₀ openings log (plainRun plainEnv sameId) ∧
      openings = [⟨1, [1]⟩] ∧ (plainRun plainEnv sameId).calls.length = 1 ∧
        ¬ NeverReused none openings log := by
  have hStart : (plainRun plainEnv []).error = none := by decide +kernel
  have hSettings : (plainRun plainEnv (sameId.take 1)).error = none := by decide +kernel
  have hMalformed : (plainRun plainEnv (sameId.take 2)).error = none := by decide +kernel
  obtain ⟨log, hRun⟩ :=
    (OpeningRun.start : OpeningRun plainEnv (fun _ _ => True) (h2SendSettings plainEnv h2Init) _ _
    (plainRun plainEnv [])).concat (f := ⟨.settings, 0, 0, []⟩) hStart trivial
  obtain ⟨log, hRun⟩ := hRun.concat (f := ⟨.headers, 5, 1, [0x82]⟩) hSettings trivial
  obtain ⟨log, hRun⟩ := hRun.concat (f := ⟨.headers, 5, 1, [0x82, 0x86, 0x84]⟩) hMalformed trivial
  have hOpened : (([] : List Opening) ++ openedBy plainEnv (plainRun plainEnv []) ⟨.settings, 0, 0, []⟩ ++
      openedBy plainEnv (plainRun plainEnv (sameId.take 1)) ⟨.headers, 5, 1, [0x82]⟩ ++
      openedBy plainEnv (plainRun plainEnv (sameId.take 2)) ⟨.headers, 5, 1, [0x82, 0x86, 0x84]⟩) =
        [⟨1, [1]⟩] := by
    decide +kernel
  refine ⟨_, _, log, rfl, hRun, hOpened, by decide +kernel, ?_⟩
  intro hNever
  have hAbove := hNever.above ⟨1, [1]⟩ (hOpened ▸ List.mem_singleton_self _) 1 (List.mem_singleton_self _)
  exact absurd hAbove (by decide)

end Cweb.H2
