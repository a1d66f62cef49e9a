import Cweb.Http.H2Calls

/-!
# The stream table

Ids are odd, distinct and no larger than the last one opened, and a stream that
the handler was called for stays dispatched until it is gone. With the log of
the calls this makes one call a stream, after the stream's END_STREAM.
-/

namespace Cweb.H2

open SwapRemove

variable {env : H2Env}

theorem Step.received_eq {k : Kind} {c c' : H2Conn} (h : Step env k c c') :
    received c'.trace = received c.trace := by
  cases h with
  | fail _ _ e => rw [h2ConnError_eq]
  | send _ _ f _ => exact (h2SendFrame_trace c f).1
  | conn _ _ _ hChange => cases k <;> rw [hChange]
  | streams => rfl
  | opened => rfl
  | drop => rfl

theorem Steps.received_eq {ks : List Kind} {c c' : H2Conn} (h : Steps env ks c c') :
    received c'.trace = received c.trace :=
  h.preserves (P := fun c' => received c'.trace = received c.trace)
    (fun _ _ _ _ hStep hEq => hStep.received_eq.trans hEq) rfl

theorem received_process (c : H2Conn) (f : H2Frame) :
    received (h2ProcessFrame env c f).trace = received c.trace ++ [f] :=
  (handleFrame_steps { c with trace := c.trace ++ [.recv f] } f).received_eq.trans (received_recv c.trace f)

/-! ## The end of a request -/

/-- The client has ended stream `id`: behind the frame with END_STREAM there
are only the rest of its header block. -/
def EndReceived (trace : List Event) (id : Nat) : Prop :=
  ∃ pre g post, received trace = pre ++ g :: post ∧ (g.type = .data ∨ g.type = .headers) ∧ g.streamId = id ∧
    g.endStream = true ∧ ∀ h ∈ post, h.type = .cont

/-- The stream was ended by a frame of this type. -/
def EndedBy (type : H2FrameType) (frames : List H2Frame) (id : Nat) : Prop :=
  ∃ pre g post, frames = pre ++ g :: post ∧ g.type = type ∧ g.streamId = id ∧ g.endStream = true ∧
    ∀ h ∈ post, h.type = .cont

theorem EndedBy.received {type : H2FrameType} {trace : List Event} {id : Nat}
    (h : EndedBy type (received trace) id)
    (hType : type = .data ∨ type = .headers) : EndReceived trace id := by
  obtain ⟨pre, g, post, hFrames, rfl, hId, hEnd, hRest⟩ := h
  exact ⟨pre, g, post, hFrames, hType, hId, hEnd, hRest⟩

/-- The block being received was begun by the last frame that is not a
CONTINUATION. -/
def Pending (v : HeaderView) : Prop :=
  v.hbStream ≠ 0 → ∃ pre g post, v.frames = pre ++ g :: post ∧ g.type = .headers ∧ g.streamId = v.hbStream ∧
    g.endStream = v.hbEndStream ∧ ∀ h ∈ post, h.type = .cont

theorem Pending.closed {v : HeaderView} (h : v.hbStream = 0) : Pending v := fun hOpen => absurd h hOpen

theorem handleFrame_block {c : H2Conn} {f : H2Frame} (hOk : (handleFrame env c f).error = none) :
    c.hbStream = 0 ∨ f.type = .cont := by
  rw [handleFrame] at hOk
  split at hOk
  · exact absurd hOk (h2ConnError_error_ne_none c _)
  · split at hOk
    · exact absurd hOk (h2ConnError_error_ne_none c _)
    · rename_i hBlock
      by_cases hZero : c.hbStream = 0
      · exact .inl hZero
      · right
        by_contra hType
        exact hBlock ⟨hZero, .inl hType⟩

theorem h2OnHeaderBlockFinish_closed {c : H2Conn} {id : Nat} {endStream : Bool} {blk : Bytes}
    (hOk : (h2OnHeaderBlockFinish env (clearBlock c) id endStream blk).error = none) :
    (h2OnHeaderBlockFinish env (clearBlock c) id endStream blk).hbStream = 0 := by
  obtain ⟨_, _, hView⟩ | hView := h2OnHeaderBlockFinish_view rfl hOk
  · exact congrArg HeaderView.hbStream hView
  · exact congrArg HeaderView.hbStream hView

theorem h2OnHeadersStart_pending {c : H2Conn} {f : H2Frame} (hType : f.type = .headers)
    (hOk : (h2OnHeadersStart env { c with trace := c.trace ++ [.recv f] } f).error = none) :
    Pending (headerView (h2OnHeadersStart env { c with trace := c.trace ++ [.recv f] } f)) := by
  rw [h2OnHeadersStart] at hOk ⊢
  split at hOk
  · exact absurd hOk (h2ConnError_error_ne_none _ _)
  · rename_i hId
    rw [if_neg hId]
    dsimp only at hOk ⊢
    split at hOk
    · exact absurd hOk (h2ConnError_error_ne_none _ _)
    · rename_i frag hFrag
      split at hOk
      · exact absurd hOk (h2ConnError_error_ne_none _ _)
      · rename_i hFits
        rw [if_neg hFits]
        split at hOk
        · rename_i hEnd
          rw [if_pos hEnd]
          exact Pending.closed (h2OnHeaderBlockFinish_closed hOk)
        · rename_i hMore
          rw [if_neg hMore]
          intro _
          exact ⟨received c.trace, f, [], received_recv c.trace f, hType, rfl, rfl, fun h hh =>
            absurd hh List.not_mem_nil⟩

theorem h2OnCont_pending {c : H2Conn} {f : H2Frame} (hc : Pending (headerView c)) (hType : f.type = .cont)
    (hOk : (h2OnCont env { c with trace := c.trace ++ [.recv f] } f).error = none) :
    Pending (headerView (h2OnCont env { c with trace := c.trace ++ [.recv f] } f)) := by
  obtain ⟨hb, abort, hView, _⟩ := @takeFragment_view env { c with trace := c.trace ++ [.recv f] } f
    (if c.hbAbort then List.replicate (h2HeaderBlockCap + 1) 0 else c.hb) (fun h => by rw [h]; rfl)
    (fun h => by rw [h, if_pos rfl, List.length_replicate]; exact Nat.lt_succ_self _)
  rw [h2OnCont] at hOk ⊢
  split at hOk
  · exact absurd hOk (h2ConnError_error_ne_none _ _)
  · rename_i hBlock
    rw [if_neg hBlock]
    split at hOk
    · exact absurd hOk (h2ConnError_error_ne_none _ _)
    · rename_i hId
      rw [if_neg hId]
      dsimp only at hOk ⊢
      split at hOk
      · rename_i hEnd
        rw [if_pos hEnd]
        split at hOk
        · rename_i hAbort
          rw [if_pos hAbort]
          exact Pending.closed rfl
        · rename_i hAbort
          rw [if_neg hAbort]
          exact Pending.closed (h2OnHeaderBlockFinish_closed hOk)
      · rename_i hMore
        rw [if_neg hMore, hView]
        intro hOpen
        obtain ⟨pre, g, post, hFrames, hHeaders, hStream, hEnd, hRest⟩ := hc hOpen
        refine ⟨pre, g, post ++ [f], ?_, hHeaders, hStream, hEnd, ?_⟩
        · have hTaken : received (c.trace ++ [.recv f]) = received c.trace ++ [f] := received_recv c.trace f
          have hFrames : received c.trace = pre ++ g :: post := hFrames
          change received (c.trace ++ [.recv f]) = _
          rw [hTaken, hFrames, List.append_assoc, List.cons_append]
        · intro h hh
          obtain hh | hh := List.mem_append.mp hh
          · exact hRest h hh
          · rw [List.mem_singleton.mp hh]
            exact hType

theorem h2OnGoaway_block (c : H2Conn) (f : H2Frame) : (h2OnGoaway c f).hbStream = c.hbStream := by
  rw [h2OnGoaway]
  split
  · rw [h2ConnError_eq]
  · split
    · rw [h2ConnError_eq]
    · rfl

theorem process_pending {c : H2Conn} {f : H2Frame} (hc : Pending (headerView c))
    (hOk : (h2ProcessFrame env c f).error = none) : Pending (headerView (h2ProcessFrame env c f)) := by
  have hBlock := handleFrame_block hOk
  have hHandled := handleFrame_handled hOk
  rw [h2ProcessFrame] at hOk ⊢
  have hOther : ∀ {ks : List Kind} {c' : H2Conn}, Steps env ks { c with trace := c.trace ++ [.recv f] } c' →
      Kind.header ∉ ks → f.type ≠ .cont → Pending (headerView c') := by
    intro ks c' hSteps hk hType
    refine Pending.closed ?_
    rw [hSteps.headerView_eq hk]
    exact hBlock.resolve_right hType
  generalize hEq : handleFrame env { c with trace := c.trace ++ [.recv f] } f = c' at hHandled hOk
  cases hHandled with
  | data hType => exact hOther (h2OnData_steps _ f) (by simp) (by rw [hType]; nofun)
  | headers hType => exact h2OnHeadersStart_pending hType hOk
  | cont hType => exact h2OnCont_pending hc hType hOk
  | priority hType => exact hOther (h2OnPriority_steps _ f) (by simp) (by rw [hType]; nofun)
  | rst hType => exact hOther (h2OnRst_steps _ f) (by simp) (by rw [hType]; nofun)
  | settings hType => exact hOther (h2OnSettings_steps _ f) (by simp) (by rw [hType]; nofun)
  | ping hType => exact hOther (h2OnPing_steps _ f) (by simp) (by rw [hType]; nofun)
  | goaway hType =>
    refine Pending.closed ?_
    refine (h2OnGoaway_block _ f).trans (hBlock.resolve_right ?_)
    rw [hType]
    nofun
  | window hType => exact hOther (h2OnWindow_steps _ f) (by simp) (by rw [hType]; nofun)
  | unknown code hType => exact @hOther [] _ (Steps.refl _) (by simp) (by rw [hType]; nofun)

/-! ## The table of a run -/

/-- Stream 1 of an upgraded connection is the upgrade request, which had ended
before the connection began. -/
def Ended (upgrade : Option HttpRequest) (trace : List Event) (id : Nat) : Prop :=
  EndReceived trace id ∨ id = 1 ∧ upgrade ≠ none

structure Table (upgrade : Option HttpRequest) (log : List Call) (c : H2Conn) : Prop where
  distinct : Distinct c
  odd : ∀ s ∈ c.streams, s.id % 2 = 1
  room : c.streams.length ≤ h2MaxConcurrentStreams
  known : ∀ call ∈ log, call.id ≤ c.lastStreamId
  answered : ∀ call ∈ log, ∀ s ∈ c.streams, s.id = call.id → s.dispatched = true
  once : (log.map Call.id).Nodup
  ended : ∀ call ∈ log, Ended upgrade call.trace call.id

theorem callsOf_sublist (c : H2Conn) : ((callsOf env c).map Call.id).Sublist (c.streams.map H2Stream.id) := by
  rw [callsOf]
  split
  · induction c.streams with
    | nil => exact List.Sublist.refl _
    | cons s streams ih =>
      rw [List.filterMap_cons, List.map_cons]
      cases handedOver env s with
      | none => exact ih.cons _
      | some req => exact ih.cons_cons _
  · exact List.nil_sublist _

theorem Step.length_le {k : Kind} {c c' : H2Conn} (h : Step env k c c') (hk : k ≠ .opened) :
    c'.streams.length ≤ c.streams.length := by
  cases h with
  | fail _ _ e => rw [h2ConnError_eq]
  | send _ _ f _ => rw [h2SendFrame_streams]
  | conn _ _ _ hChange => cases k <;> rw [hChange]
  | streams _ _ l hTouch => exact hTouch.length_eq.ge
  | opened => exact absurd rfl hk
  | drop _ i hi =>
    have hLen := (swapRemove_perm c.streams i hi).length_eq
    rw [h2FreeStream, hLen]
    exact List.length_eraseIdx_le _ _

theorem Steps.length_le {ks : List Kind} {c c' : H2Conn} (h : Steps env ks c c') (hk : Kind.opened ∉ ks) :
    c'.streams.length ≤ c.streams.length :=
  h.preserves (P := fun c' => c'.streams.length ≤ c.streams.length)
    (fun _ hMem _ _ hStep hLe => (hStep.length_le fun hEq => hk (hEq ▸ hMem)).trans hLe) (Nat.le_refl _)

theorem settle_lastStreamId (c : H2Conn) : (settle env c).lastStreamId = c.lastStreamId :=
  (settle_steps c).lastStreamId_eq (by simp)

theorem Table.settle {upgrade : Option HttpRequest} {log : List Call} {c : H2Conn} (h : Table upgrade log c)
    (hOk : c.error = none)
    (hEnded : ∀ s ∈ c.streams, handedOver env s ≠ none → Ended upgrade c.trace s.id) :
    Table upgrade (log ++ callsOf env c) (settle env c) := by
  have hCalled : ∀ call ∈ callsOf env c, ∃ s ∈ c.streams, s.id = call.id ∧ handedOver env s ≠ none ∧
      call.trace = c.trace := by
    intro call hCall
    obtain ⟨_, hTrace, s, hs, hId, hReq⟩ := mem_callsOf hCall
    exact ⟨s, hs, hId, by rw [hReq]; exact Option.some_ne_none _, hTrace⟩
  have hUnique : ∀ s ∈ c.streams, ∀ t ∈ c.streams, s.id = t.id → s = t :=
    fun s hs t ht hEq => List.inj_on_of_nodup_map h.distinct.nodup hs ht hEq
  refine ⟨(settle_steps c).distinct h.distinct, ?_, ((settle_steps c).length_le (by simp)).trans h.room,
    ?_, ?_, ?_, ?_⟩
  · intro s' hs'
    obtain ⟨s, hs, hSurvives⟩ := settle_survives hOk hs'
    rw [hSurvives.id]
    exact h.odd s hs
  · intro call hCall
    rw [settle_lastStreamId]
    obtain hCall | hCall := List.mem_append.mp hCall
    · exact h.known call hCall
    · obtain ⟨s, hs, hId, _⟩ := hCalled call hCall
      rw [← hId]
      exact (h.distinct.bound s hs).2
  · intro call hCall s' hs' hId
    obtain ⟨s, hs, hSurvives⟩ := settle_survives hOk hs'
    have hId' : s.id = call.id := hSurvives.id.symm.trans hId
    obtain hCall | hCall := List.mem_append.mp hCall
    · exact hSurvives.dispatched (h.answered call hCall s hs hId')
    · obtain ⟨t, ht, hIdT, hHanded, _⟩ := hCalled call hCall
      obtain rfl := hUnique s hs t ht (hId'.trans hIdT.symm)
      exact hSurvives.handed hHanded
  · rw [List.map_append]
    refine List.nodup_append.mpr ⟨h.once, (callsOf_sublist c).nodup h.distinct.nodup, ?_⟩
    intro a ha b hb hEq
    obtain ⟨old, hOld, rfl⟩ := List.mem_map.mp ha
    obtain ⟨new, hNew, rfl⟩ := List.mem_map.mp hb
    obtain ⟨s, hs, hId, hHanded, _⟩ := hCalled new hNew
    obtain ⟨req, hReq⟩ := Option.ne_none_iff_exists'.mp hHanded
    have hDone := h.answered old hOld s hs (hId.trans hEq.symm)
    have hNot := (handedOver_ready hReq).1
    rw [hDone] at hNot
    cases hNot
  · intro call hCall
    obtain hCall | hCall := List.mem_append.mp hCall
    · exact h.ended call hCall
    · obtain ⟨s, hs, hId, hHanded, hTrace⟩ := hCalled call hCall
      rw [hTrace, ← hId]
      exact hEnded s hs hHanded

/-- A frame adds at most the stream whose header block it ends, which no call
has been for. -/
theorem Table.process {upgrade : Option HttpRequest} {log : List Call} {c : H2Conn} (h : Table upgrade log c)
    (f : H2Frame) : Table upgrade log (h2ProcessFrame env c f) := by
  have hEffect := @handleFrame_effect env { c with trace := c.trace ++ [.recv f] } f
  refine ⟨h2ProcessFrame_distinct h.distinct f, ?_, ?_, fun call hCall =>
    (h.known call hCall).trans hEffect.last, ?_,
    h.once, h.ended⟩
  · intro s' hs'
    obtain ⟨e, hOpened, _⟩ | hKeeps := hEffect.streams
    · obtain ⟨req, window, hStreams⟩ := hOpened.streams
      rw [h2ProcessFrame, hStreams] at hs'
      obtain hs' | hs' := List.mem_append.mp hs'
      · exact h.odd s' hs'
      · rw [List.mem_singleton.mp hs']
        exact hOpened.odd
    · obtain ⟨s, hs, hKept⟩ := mem_of_forall₂ hKeeps hs'
      rw [hKept.id]
      exact h.odd s hs
  · obtain ⟨e, hOpened, _⟩ | hKeeps := hEffect.streams
    · obtain ⟨req, window, hStreams⟩ := hOpened.streams
      rw [h2ProcessFrame, hStreams, List.length_append]
      exact hOpened.room
    · exact hKeeps.length_eq.ge.trans h.room
  · intro call hCall s' hs' hId
    obtain ⟨e, hOpened, _⟩ | hKeeps := hEffect.streams
    · obtain ⟨req, window, hStreams⟩ := hOpened.streams
      rw [h2ProcessFrame, hStreams] at hs'
      obtain hs' | hs' := List.mem_append.mp hs'
      · exact h.answered call hCall s' hs' hId
      · have hNew : f.streamId = call.id := by
          rw [List.mem_singleton.mp hs'] at hId
          exact hId
        have hFresh : c.lastStreamId < f.streamId := hOpened.fresh
        have hKnown := h.known call hCall
        omega
    · obtain ⟨s, hs, hKept⟩ := mem_of_forall₂ hKeeps hs'
      rw [hKept.dispatched]
      exact h.answered call hCall s hs (hKept.id.symm.trans hId)

theorem endedBy_of_completes {c : H2Conn} {f : H2Frame} {e : Bool} (hPending : Pending (headerView c))
    (hCompletes : Completes { c with trace := c.trace ++ [.recv f] } f e) (hEnd : e = true) :
    EndedBy .headers (received (h2ProcessFrame env c f).trace) f.streamId := by
  rw [received_process]
  obtain ⟨hType, hFlag⟩ | ⟨hType, hBlock, hOpen, hFlag⟩ := hCompletes
  · exact ⟨received c.trace, f, [], rfl, hType, rfl, hFlag.symm.trans hEnd, fun h hh =>
      absurd hh List.not_mem_nil⟩
  · obtain ⟨pre, g, post, hFrames, hHeaders, hStream, hFlag', hRest⟩ := hPending hOpen
    refine ⟨pre, g, post ++ [f], ?_, hHeaders, hStream.trans hBlock, hFlag'.trans (hFlag.symm.trans hEnd), ?_⟩
    · have hFrames : received c.trace = pre ++ g :: post := hFrames
      rw [hFrames, List.append_assoc, List.cons_append]
    · intro h hh
      obtain hh | hh := List.mem_append.mp hh
      · exact hRest h hh
      · rw [List.mem_singleton.mp hh]
        exact hType

theorem process_ended {c : H2Conn} {f : H2Frame} (hServed : ∀ s ∈ c.streams, Served s)
    (hPending : Pending (headerView c)) {s' : H2Stream} (hs' : s' ∈ (h2ProcessFrame env c f).streams)
    (hHanded : handedOver env s' ≠ none) : EndReceived (h2ProcessFrame env c f).trace s'.id := by
  obtain ⟨req, hReq⟩ := Option.ne_none_iff_exists'.mp hHanded
  obtain ⟨hDispatched, hReset, hRemote⟩ := handedOver_ready hReq
  have hReady : ∀ s ∈ c.streams, s.dispatched = false → s.reset = false → s.remoteEnded = false := by
    intro s hs hDispatched hReset
    obtain h | h | h := hServed s hs
    · rw [hDispatched] at h
      cases h
    · rw [hReset] at h
      cases h
    · exact h
  have hReceived := @received_process env c f
  obtain ⟨e, hOpened, hCompletes⟩ | hKeeps :=
    (@handleFrame_effect env { c with trace := c.trace ++ [.recv f] } f).streams
  · obtain ⟨req, window, hStreams⟩ := hOpened.streams
    rw [h2ProcessFrame, hStreams] at hs'
    obtain hs' | hs' := List.mem_append.mp hs'
    · have hOpen := hReady s' hs' hDispatched hReset
      rw [hRemote] at hOpen
      cases hOpen
    · obtain rfl := List.mem_singleton.mp hs'
      exact (endedBy_of_completes hPending hCompletes hRemote).received (.inr rfl)
  · obtain ⟨s, hs, hKept⟩ := mem_of_forall₂ hKeeps hs'
    have hResetS : s.reset = false := by
      rw [← Bool.not_eq_true]
      intro h
      have hAfter := hKept.reset h
      rw [hReset] at hAfter
      cases hAfter
    have hOpen := hReady s hs (hKept.dispatched.symm.trans hDispatched) hResetS
    obtain hSame | ⟨hType, hEnd, hId⟩ := hKept.remote
    · rw [hRemote, hOpen] at hSame
      cases hSame
    · exact ⟨received c.trace, f, [], hReceived, .inl hType, (hKept.id.trans hId).symm, hEnd,
        fun h hh => absurd hh List.not_mem_nil⟩

/-! ## Runs -/

theorem h2ApplySettings_streams {c : H2Conn} (h : c.streams = []) (payload : Bytes) :
    (h2ApplySettings c payload).streams = [] := by
  have hKeeps := h2ApplySettings_keeps ⟨.settings, 0, 0, payload⟩ c payload
  rw [Keeps, h] at hKeeps
  exact List.forall₂_nil_left_iff.mp hKeeps

theorem upgradeSettings_streams {c c' : H2Conn} {src : HttpRequest} (h : upgradeSettings c src = some c')
    (hNone : c.streams = []) : c'.streams = [] := by
  rw [upgradeSettings] at h
  split at h
  · obtain rfl := Option.some.inj h
    exact hNone
  · split at h
    · cases h
    · split at h
      · cases h
      · dsimp only at h
        split at h
        · obtain rfl := Option.some.inj h
          exact h2ApplySettings_streams hNone _
        · cases h

theorem h2Start_streams {upgrade : Option HttpRequest} {c : H2Conn} (h : h2Start env upgrade = some c) :
    c.streams = [] ∨ upgrade ≠ none ∧
      ∃ s, c.streams = [s] ∧ s.id = 1 ∧ s.responseReady = false ∧ s.localEnded = false := by
  cases upgrade with
  | none =>
    obtain rfl := Option.some.inj h
    exact .inl (h2SendFrame_streams env h2Init _)
  | some src =>
    simp only [h2Start] at h
    split at h
    · cases h
    · rename_i c' hText
      obtain ⟨c'', hSettings, rfl⟩ := Option.map_eq_some_iff.mp h
      have hNone : c'.streams = [] := by
        obtain ⟨writes, events, hEq, _⟩ := @prologueStart_eq env (some src)
        rw [prologueStart, hText] at hEq
        dsimp only at hEq
        rw [hEq]
        rfl
      refine .inr ⟨Option.some_ne_none src, ?_⟩
      rw [h2SendSettings, h2SendFrame_streams, h2AddUpgradeStream]
      dsimp only
      rw [upgradeSettings_streams hSettings hNone]
      exact ⟨_, rfl, rfl, rfl, rfl⟩

theorem h2SendSettings_error (c : H2Conn) : (h2SendSettings env c).error = c.error := by
  rw [h2SendSettings]
  obtain ⟨_, hLarge⟩ | ⟨writes, hEq⟩ | ⟨writes, hEq⟩ := h2SendFrame_cases env c
    ⟨.settings, 0, 0, [0, 3, 0, 0, 0, UInt8.ofNat h2MaxConcurrentStreams]⟩
  · exact absurd hLarge (by decide)
  · rw [hEq]
  · rw [hEq]

theorem h2Start_error {upgrade : Option HttpRequest} {c : H2Conn} (h : h2Start env upgrade = some c) :
    c.error = none := by
  cases upgrade with
  | none =>
    obtain rfl := Option.some.inj h
    exact h2SendSettings_error h2Init
  | some src =>
    simp only [h2Start] at h
    split at h
    · cases h
    · rename_i c' hText
      obtain ⟨c'', hSettings, rfl⟩ := Option.map_eq_some_iff.mp h
      rw [h2SendSettings_error]
      change c''.error = none
      rw [upgradeSettings] at hSettings
      split at hSettings
      · obtain rfl := Option.some.inj hSettings
        obtain ⟨writes, events, hEq, _⟩ := @prologueStart_eq env (some src)
        rw [prologueStart, hText] at hEq
        dsimp only at hEq
        rw [hEq]
        rfl
      · split at hSettings
        · cases hSettings
        · split at hSettings
          · cases hSettings
          · dsimp only at hSettings
            split at hSettings
            · rename_i hOk
              obtain rfl := Option.some.inj hSettings
              exact hOk
            · cases hSettings

theorem table_start {upgrade : Option HttpRequest} {c : H2Conn} (h : h2Start env upgrade = some c) :
    Table upgrade [] c ∧ ∀ s ∈ c.streams, Ended upgrade c.trace s.id := by
  have hNoCall : ∀ (p : Call → Prop), ∀ call ∈ ([] : List Call), p call :=
    fun _ _ hCall => absurd hCall List.not_mem_nil
  obtain hNone | ⟨hUpgrade, s, hOne, hId, _⟩ := h2Start_streams h
  · refine ⟨⟨distinct_start h, ?_, ?_, hNoCall _, hNoCall _, List.nodup_nil, hNoCall _⟩, ?_⟩
    · rw [hNone]
      exact fun s hs => absurd hs List.not_mem_nil
    · rw [hNone]
      exact Nat.zero_le _
    · rw [hNone]
      exact fun s hs => absurd hs List.not_mem_nil
  · refine ⟨⟨distinct_start h, ?_, ?_, hNoCall _, hNoCall _, List.nodup_nil, hNoCall _⟩, ?_⟩
    · rw [hOne]
      intro t ht
      rw [List.mem_singleton.mp ht, hId]
    · rw [hOne, List.length_singleton, h2MaxConcurrentStreams]
      omega
    · rw [hOne]
      intro t ht
      rw [List.mem_singleton.mp ht]
      exact .inr ⟨hId, hUpgrade⟩

theorem handedOver_of_served {s : H2Stream} (h : Served s) : handedOver env s = none := by
  rw [handedOver, if_pos]
  obtain h | h | h := h
  · exact .inl h
  · exact .inr (.inl h)
  · exact .inr (.inr (by rw [h]; exact Bool.false_ne_true))

theorem pending_start {upgrade : Option HttpRequest} {c : H2Conn} (h : h2Start env upgrade = some c) :
    Pending (headerView c) := by
  obtain ⟨writes, events, hEq, _⟩ := @prologueStart_eq env upgrade
  refine Pending.closed ?_
  rw [(h2Start_steps h).headerView_eq (by simp), hEq]
  rfl

theorem LoggedRun.table {upgrade : Option HttpRequest} {c₀ c : H2Conn} {log : List Call}
    (hStart : h2Start env upgrade = some c₀) (h : LoggedRun env c₀ log c) :
    Table upgrade log c ∧ (c.error = none → Pending (headerView c) ∧ ∀ s ∈ c.streams, Served s) := by
  have hSettled : ∀ {c : H2Conn}, Pending (headerView c) → (settle env c).error = none →
      Pending (headerView (settle env c)) ∧ ∀ s ∈ (settle env c).streams, Served s := by
    intro c hPending hOk
    rw [headerView_settle]
    exact ⟨hPending, fun s hs => (settle_idle hOk s hs).1⟩
  induction h with
  | start =>
    obtain ⟨hTable, hEnded⟩ := table_start hStart
    exact ⟨hTable.settle (h2Start_error hStart) fun s hs _ => hEnded s hs, hSettled (pending_start hStart)⟩
  | turn hRun hOk ih =>
    obtain ⟨hTable, hRest⟩ := ih
    obtain ⟨hPending, hServed⟩ := hRest hOk
    refine ⟨hTable.settle hOk ?_, hSettled hPending⟩
    intro s hs hHanded
    exact absurd (handedOver_of_served (hServed s hs)) hHanded
  | frame f hRun hOk ih =>
    obtain ⟨hTable, hRest⟩ := ih
    obtain ⟨hPending, hServed⟩ := hRest hOk
    have hAfter := @Table.process env _ _ _ hTable f
    rw [frameStep]
    split
    · rename_i hNone
      refine ⟨hAfter.settle hNone ?_, hSettled (process_pending hPending hNone)⟩
      exact fun s' hs' hHanded => .inl (process_ended hServed hPending hs' hHanded)
    · rename_i hError
      rw [callsOf, if_neg hError, List.append_nil]
      exact ⟨hAfter, fun hNone => absurd hNone hError⟩
  | behind f g _ _ hFails _ _ ih =>
    exact ⟨ih.1.process g, fun hNone => absurd (h2ProcessFrame_error g hNone) hFails.failed⟩

/-- The table over a whole connection, however it began: what holds in every
state, and what the log says about the calls made so far. -/
theorem stream_table {upgrade : Option HttpRequest} {c₀ c : H2Conn} {log : List Call}
    (hStart : h2Start env upgrade = some c₀) (h : LoggedRun env c₀ log c) :
    ((c.streams.map H2Stream.id).Nodup ∧ (∀ s ∈ c.streams, s.id % 2 = 1 ∧ s.id ≤ c.lastStreamId) ∧
      c.streams.length ≤ h2MaxConcurrentStreams) ∧
    (c.lastStreamId = (settle env c).lastStreamId ∧ ∀ f, c.lastStreamId ≤ (frameStep env c f).lastStreamId) ∧
    c.calls = log.map Call.req ∧ (log.map Call.id).Nodup ∧
    ∀ call ∈ log, EndReceived call.trace call.id ∨ call.id = 1 ∧ upgrade ≠ none := by
  have hTable := (h.table hStart).1
  refine ⟨⟨hTable.distinct.nodup, fun s hs => ⟨hTable.odd s hs, (hTable.distinct.bound s hs).2⟩, hTable.room⟩,
    ⟨(settle_lastStreamId c).symm, ?_⟩, h.calls_eq hStart, hTable.once, hTable.ended⟩
  intro f
  have hProcess := (@handleFrame_effect env { c with trace := c.trace ++ [.recv f] } f).last
  rw [frameStep]
  split
  · rw [settle_lastStreamId]
    exact hProcess
  · exact hProcess

/-- An upgrade request for `/`. -/
def upgradeGet : HttpRequest :=
  { method := .get, target := ascii "/", path := ascii "/", query := [], version :=
    ascii "HTTP/1.1", body := [],
    contentLength := -1, bodyOffset := 0, remote := [], headers := [⟨ascii "host", ascii "a"⟩] }

/-- The handler has answered it before the client has sent a frame. -/
theorem upgrade_called_at_once :
    ∃ c₀ log c, h2Start plainEnv (some upgradeGet) = some c₀ ∧ LoggedRun plainEnv c₀ log c ∧
      ∃ call ∈ log, ¬ EndReceived call.trace call.id := by
  obtain ⟨c₀, hStart⟩ := Option.isSome_iff_exists.mp
    (by decide +kernel : (h2Start plainEnv (some upgradeGet)).isSome = true)
  have hCalls : (h2Start plainEnv (some upgradeGet)).map (fun c => (callsOf plainEnv c).map fun call =>
      received call.trace) = some [[]] := by decide +kernel
  rw [hStart, Option.map_some] at hCalls
  have hMem : [] ∈ (callsOf plainEnv c₀).map fun call => received call.trace := by
    rw [Option.some.inj hCalls]
    exact List.mem_singleton_self _
  obtain ⟨call, hCall, hNothing⟩ := List.mem_map.mp hMem
  refine ⟨c₀, _, _, hStart, .start, call, hCall, ?_⟩
  rintro ⟨pre, g, post, hFrames, _⟩
  rw [hNothing] at hFrames
  exact absurd hFrames.symm (by simp)

/-- A GET and a POST whose body ends with its DATA frame. -/
def twoRequests : List H2Frame := [⟨.settings, 0, 0, []⟩, ⟨.headers, 5, 1, [0x82, 0x86, 0x84]⟩,
  ⟨.headers, 4, 3, [0x83, 0x86, 0x84]⟩, ⟨.data, 1, 3, [7]⟩]

theorem stream_table_two_requests :
    ∃ c₀ log, h2Start plainEnv none = some c₀ ∧ LoggedRun plainEnv c₀ log (plainRun plainEnv twoRequests) ∧
      (plainRun plainEnv twoRequests).calls.length = 2 ∧ (log.map Call.id).Nodup ∧
      ∀ call ∈ log, EndReceived call.trace call.id ∨ call.id = 1 ∧ (none : Option HttpRequest) ≠ none := by
  obtain ⟨log, hLog⟩ := (Run.start.run twoRequests : Run plainEnv (h2SendSettings plainEnv h2Init) _).logged
  have h := @stream_table plainEnv none _ _ _ rfl hLog
  exact ⟨_, log, rfl, hLog, by decide +kernel, h.2.2.2.1, h.2.2.2.2⟩

end Cweb.H2
