import Cweb.Http.H2Table

/-!
# Nothing after a reset

A stream the server has reset is to be silent from then on. Most handlers that
send RST_STREAM mark the stream or know that it is gone, and the marks are what
keeps the pump off it; four of them do neither.
-/

namespace Cweb.H2

variable {env : H2Env}

def H2Frame.Responds (f : H2Frame) : Prop := f.type = .headers ∨ f.type = .cont ∨ f.type = .data

def ResetSent (trace : List Event) (id : Nat) : Prop := ∃ f ∈ sent trace, f.type = .rst ∧ f.streamId = id

instance (trace : List Event) (id : Nat) : Decidable (ResetSent trace id) :=
  inferInstanceAs (Decidable (∃ f ∈ sent trace, f.type = .rst ∧ f.streamId = id))

/-- No frame of a response was sent on a stream after its RST_STREAM. -/
def Silent (trace : List Event) : Prop :=
  ∀ pre f post, trace = pre ++ .sent f :: post → f.Responds → ¬ ResetSent pre f.streamId

/-- Every stream that was reset is marked so or has ended on this side. -/
def Marked (c : H2Conn) : Prop := ∀ s ∈ c.streams, ResetSent c.trace s.id → s.reset = true ∨
    s.localEnded = true

/-- A stream that is being answered was dispatched. -/
def Ready (s : H2Stream) : Prop := s.dispatched = true ∨ s.responseReady = false ∧ s.localEnded = false

/-! ## Traces -/

theorem sent_append (trace events : List Event) : sent (trace ++ events) = sent trace ++ sent events :=
  List.filterMap_append

theorem resetSent_append (trace events : List Event) (id : Nat) :
    ResetSent (trace ++ events) id ↔ ResetSent trace id ∨ ResetSent events id := by
  rw [ResetSent, sent_append]
  constructor
  · rintro ⟨f, hf, hReset⟩
    obtain hf | hf := List.mem_append.mp hf
    · exact .inl ⟨f, hf, hReset⟩
    · exact .inr ⟨f, hf, hReset⟩
  · rintro (⟨f, hf, hReset⟩ | ⟨f, hf, hReset⟩)
    · exact ⟨f, List.mem_append_left _ hf, hReset⟩
    · exact ⟨f, List.mem_append_right _ hf, hReset⟩

theorem mem_sent {trace : List Event} {f : H2Frame} : f ∈ sent trace ↔ .sent f ∈ trace := by
  rw [sent, List.mem_filterMap]
  constructor
  · rintro ⟨e, he, hEq⟩
    cases e with
    | recv g => cases hEq
    | sent g =>
      obtain rfl := Option.some.inj hEq
      exact he
    | text bytes => cases hEq
  · exact fun h => ⟨.sent f, h, rfl⟩

theorem Silent.append {trace : List Event} (h : Silent trace) {events : List Event}
    (hEvents : ∀ g ∈ sent events, ¬ g.Responds) : Silent (trace ++ events) := by
  intro pre f post hEq hResponds
  obtain ⟨mid, hPre, hRest⟩ | ⟨mid, hTrace, hRest⟩ := List.append_eq_append_iff.mp hEq
  · refine absurd hResponds (hEvents f (mem_sent.mpr ?_))
    rw [hRest]
    exact List.mem_append_right _ List.mem_cons_self
  · cases mid with
    | nil =>
      refine absurd hResponds (hEvents f (mem_sent.mpr ?_))
      rw [List.nil_append] at hRest
      rw [← hRest]
      exact List.mem_cons_self
    | cons e mid =>
      rw [List.cons_append] at hRest
      obtain ⟨rfl, _⟩ := List.cons.inj hRest
      exact h pre f mid hTrace hResponds

theorem Silent.send {trace : List Event} (h : Silent trace) {f : H2Frame}
    (hOpen : ¬ ResetSent trace f.streamId) :
    Silent (trace ++ [.sent f]) := by
  intro pre g post hEq hResponds
  obtain ⟨mid, hPre, hRest⟩ | ⟨mid, hTrace, hRest⟩ := List.append_eq_append_iff.mp hEq
  · cases mid with
    | nil =>
      obtain ⟨hSent, _⟩ := List.cons.inj hRest
      obtain rfl := Event.sent.inj hSent
      rw [hPre, List.append_nil]
      exact hOpen
    | cons e mid =>
      have hLength := congrArg List.length hRest
      simp at hLength
  · cases mid with
    | nil =>
      rw [List.nil_append] at hRest
      obtain ⟨hSent, _⟩ := List.cons.inj hRest
      obtain rfl := Event.sent.inj hSent
      rw [List.append_nil] at hTrace
      rw [← hTrace]
      exact hOpen
    | cons e mid =>
      rw [List.cons_append] at hRest
      obtain ⟨rfl, _⟩ := List.cons.inj hRest
      exact h pre g mid hTrace hResponds

/-! ## Settling -/

structure Mute (c : H2Conn) : Prop where
  distinct : Distinct c
  silent : Silent c.trace
  marked : Marked c

theorem Kind.Touches.marks {k : Kind} (hk : k ∈ [Kind.answer, .head, .deliver, .finish, .drop])
    {s s' : H2Stream}
    (h : k.Touches s s') :
    s'.id = s.id ∧ s'.reset = s.reset ∧ (s.localEnded = true → s'.localEnded = true) := by
  simp only [List.mem_cons, List.not_mem_nil, or_false] at hk
  obtain rfl | rfl | rfl | rfl | rfl := hk
  · rw [h]
    exact ⟨rfl, rfl, fun h => h⟩
  · rw [h]
    exact ⟨rfl, rfl, fun h => h⟩
  · rw [h]
    exact ⟨rfl, rfl, fun h => h⟩
  · rw [h]
    refine ⟨rfl, rfl, ?_⟩
    intro hEnded
    rw [hEnded]
    rfl
  · rw [h]
    exact ⟨rfl, rfl, fun h => h⟩

theorem Kind.Sends.responds {k : Kind} (hk : k ∈ [Kind.answer, .head, .deliver, .finish, .drop]) {c : H2Conn}
    {f : H2Frame} (h : k.Sends c f) : f.type ≠ .rst ∧ ∃ s ∈ c.streams, s.id = f.streamId ∧ s.Sending := by
  simp only [List.mem_cons, List.not_mem_nil, or_false] at hk
  obtain rfl | rfl | rfl | rfl | rfl := hk
  · exact absurd h id
  · obtain ⟨hType | hType, hStream⟩ := h
    · rw [hType]
      exact ⟨nofun, hStream⟩
    · rw [hType]
      exact ⟨nofun, hStream⟩
  · obtain ⟨hType, hStream⟩ := h
    rw [hType]
    exact ⟨nofun, hStream⟩
  · exact absurd h id
  · exact absurd h id

theorem Step.mute {k : Kind} (hk : k ∈ [Kind.answer, .head, .deliver, .finish, .drop]) {c c' : H2Conn}
    (h : Step env k c c') (hc : Mute c) : Mute c' := by
  have hDistinct := h.distinct hc.distinct
  suffices hRest : Silent c'.trace ∧ Marked c' from ⟨hDistinct, hRest.1, hRest.2⟩
  cases h with
  | fail _ _ e =>
    rw [Marked, h2ConnError_eq]
    exact ⟨hc.silent, hc.marked⟩
  | send _ _ f hSends =>
    obtain ⟨hType, s, hs, hId, hLocal, hReset⟩ := hSends.responds hk
    have hOpen : ¬ ResetSent c.trace f.streamId := by
      intro hSent
      rw [← hId] at hSent
      obtain h | h := hc.marked s hs hSent
      · rw [hReset] at h
        cases h
      · rw [hLocal] at h
        cases h
    rw [Marked]
    obtain ⟨hEq, _⟩ | ⟨writes, hEq⟩ | ⟨writes, hEq⟩ := h2SendFrame_cases env c f
    · rw [hEq, h2ConnError_eq]
      exact ⟨hc.silent, hc.marked⟩
    · rw [hEq]
      refine ⟨hc.silent.send hOpen, ?_⟩
      intro t ht hSent
      obtain hSent | ⟨g, hg, hRst, _⟩ := (resetSent_append _ _ _).mp hSent
      · exact hc.marked t ht hSent
      · rw [mem_sent, List.mem_singleton] at hg
        obtain rfl := Event.sent.inj hg
        exact absurd hRst hType
    · rw [hEq]
      exact ⟨hc.silent, hc.marked⟩
  | conn _ _ _ hChange =>
    simp only [List.mem_cons, List.not_mem_nil, or_false] at hk
    obtain rfl | rfl | rfl | rfl | rfl := hk <;> (rw [Marked, hChange]; exact ⟨hc.silent, hc.marked⟩)
  | streams _ _ l hTouch =>
    refine ⟨hc.silent, ?_⟩
    intro s' hs' hSent
    obtain ⟨s, hs, hTouches⟩ := mem_of_forall₂ hTouch hs'
    obtain ⟨hId, hReset, hLocal⟩ := hTouches.marks hk
    rw [hId] at hSent
    rw [hReset]
    exact (hc.marked s hs hSent).imp (fun h => h) hLocal
  | opened => simp at hk
  | drop _ i hi => exact ⟨hc.silent, fun s hs => hc.marked s (SwapRemove.mem_of_mem_swapRemove hi hs)⟩

theorem settle_mute {c : H2Conn} (h : Mute c) : Mute (settle env c) :=
  (settle_steps c).preserves (fun _ hk _ _ hStep => hStep.mute hk) h

/-! ## Steps that reach the unmarked resets -/

/-- The stream, if it is still there, has been answered in full. -/
def Finished (c : H2Conn) (id : Nat) : Prop := ∀ s ∈ c.streams, s.id = id → s.localEnded = true

/-- The header block that the frame completes, if it is one to be looked at. -/
def completedBlock (c : H2Conn) (f : H2Frame) : Option Bytes :=
  match f.type with
  | .headers => if f.endHeaders then headersFragment f else none
  | .cont =>
    if f.endHeaders ∧ c.hbAbort = false ∧ c.hb.length + f.len ≤ h2HeaderBlockCap then some (c.hb ++ f.payload)
    else none
  | _ => none

/-- A frame that makes the server send RST_STREAM without a mark comes only
for a stream that has been answered, and a header block that is accepted is not
for a stream that was reset. -/
structure Careful (env : H2Env) (c : H2Conn) (f : H2Frame) : Prop where
  priority : f.type = .priority → f.len ≠ 5 → Finished c f.streamId
  window : f.type = .window → f.len = 4 → windowIncrement f = 0 → Finished c f.streamId
  oversized : f.type = .cont → c.hbAbort = false → h2HeaderBlockCap < c.hb.length + f.len →
    Finished c f.streamId
  refused : completedBlock c f ≠ none → c.clientGoaway = true → c.clientGoawayLast < f.streamId →
    Finished c f.streamId
  fresh : ∀ blk req, completedBlock c f = some blk → (h2RequestFromBlock env c blk).2 = .request req →
    ¬ (c.clientGoaway = true ∧ c.clientGoawayLast < f.streamId) → c.lastStreamId < f.streamId →
    c.streams.length < h2MaxConcurrentStreams → ¬ ResetSent c.trace f.streamId

/-- Neither a frame of a response nor a RST_STREAM is sent. -/
def Hushed (c c' : H2Conn) : Prop :=
  ∃ events, c'.trace = c.trace ++ events ∧ ∀ g ∈ sent events, ¬ g.Responds ∧ g.type ≠ .rst

/-- No frame of a response is sent, and RST_STREAM only on a stream that is
then marked, answered in full or gone. -/
def Mutes (id : Nat) (c c' : H2Conn) : Prop :=
  ∃ events, c'.trace = c.trace ++ events ∧ ∀ g ∈ sent events, ¬ g.Responds ∧
    (g.type = .rst → g.streamId = id ∧ ∀ s ∈ c'.streams, s.id = id → s.reset = true ∨ s.localEnded = true)

theorem Hushed.same {c c' : H2Conn} (h : c'.trace = c.trace) : Hushed c c' :=
  ⟨[], h.trans (List.append_nil _).symm, fun _ hg => absurd hg List.not_mem_nil⟩

theorem Hushed.connError (c : H2Conn) (e : H2Error) : Hushed c (h2ConnError c e) := by
  refine Hushed.same ?_
  rw [h2ConnError_eq]

theorem h2SendFrame_events (c : H2Conn) (f : H2Frame) :
    ∃ events, (h2SendFrame env c f).1.trace = c.trace ++ events ∧ ∀ g ∈ sent events, g = f := by
  obtain ⟨hEq, _⟩ | ⟨writes, hEq⟩ | ⟨writes, hEq⟩ := h2SendFrame_cases env c f
  · refine ⟨[], ?_, fun _ hg => absurd hg List.not_mem_nil⟩
    rw [hEq, h2ConnError_eq]
    exact (List.append_nil _).symm
  · refine ⟨[.sent f], by rw [hEq], ?_⟩
    intro g hg
    rw [mem_sent, List.mem_singleton] at hg
    exact Event.sent.inj hg
  · refine ⟨[], ?_, fun _ hg => absurd hg List.not_mem_nil⟩
    rw [hEq]
    exact (List.append_nil _).symm

theorem Hushed.send (c : H2Conn) {f : H2Frame} (hQuiet : ¬ f.Responds) (hType : f.type ≠ .rst) :
    Hushed c (h2SendFrame env c f).1 := by
  obtain ⟨events, hTrace, hEvents⟩ := @h2SendFrame_events env c f
  refine ⟨events, hTrace, ?_⟩
  intro g hg
  rw [hEvents g hg]
  exact ⟨hQuiet, hType⟩

theorem Hushed.mutes {id : Nat} {c c' : H2Conn} (h : Hushed c c') : Mutes id c c' := by
  obtain ⟨events, hTrace, hEvents⟩ := h
  exact ⟨events, hTrace, fun g hg => ⟨(hEvents g hg).1, fun hRst => absurd hRst (hEvents g hg).2⟩⟩

theorem Hushed.then {id : Nat} {c c' c'' : H2Conn} (h : Hushed c c') (h' : Mutes id c' c'') :
    Mutes id c c'' := by
  obtain ⟨events, hTrace, hEvents⟩ := h
  obtain ⟨events', hTrace', hEvents'⟩ := h'
  refine ⟨events ++ events', by rw [hTrace', hTrace, List.append_assoc], ?_⟩
  intro g hg
  rw [sent_append] at hg
  obtain hg | hg := List.mem_append.mp hg
  · exact ⟨(hEvents g hg).1, fun hRst => absurd hRst (hEvents g hg).2⟩
  · exact hEvents' g hg

theorem not_responds {f : H2Frame} (hHeaders : f.type ≠ .headers) (hCont : f.type ≠ .cont)
    (hData : f.type ≠ .data) :
    ¬ f.Responds := by
  rintro (h | h | h)
  · exact hHeaders h
  · exact hCont h
  · exact hData h

theorem Mutes.of_trace {id : Nat} {c c' c'' : H2Conn} (h : Mutes id c' c'') (hTrace : c'.trace = c.trace) :
    Mutes id c c'' :=
  (Hushed.same hTrace).then h

theorem modifyStream_at {c : H2Conn} {i : Nat} {s : H2Stream} (hAt : c.streams[i]? = some s)
    (g : H2Stream → H2Stream) :
    (c.modifyStream i g).streams[i]? = some (g s) := by
  rw [H2Conn.modifyStream, List.getElem?_modify_eq, hAt]
  rfl

theorem Mutes.streamError {id : Nat} (c : H2Conn) (e : H2Error) {c' : H2Conn}
    (hTrace : c'.trace = (h2SendStreamError env c id e).trace)
    (hMarked : ∀ s ∈ c'.streams, s.id = id → s.reset = true ∨ s.localEnded = true) : Mutes id c c' := by
  obtain ⟨events, hEvents, hAll⟩ := @h2SendFrame_events env c ⟨.rst, 0, id, wr32 e.code⟩
  refine ⟨events, hTrace.trans hEvents, ?_⟩
  intro g hg
  rw [hAll g hg]
  exact ⟨not_responds nofun nofun nofun, fun _ => ⟨rfl, hMarked⟩⟩

theorem Mutes.reset {c : H2Conn} {i : Nat} {s : H2Stream} (e : H2Error) (hDistinct : Distinct c)
    (hAt : ∃ t, c.streams[i]? = some t ∧ t.id = s.id) :
    Mutes s.id c ((h2SendStreamError env c s.id e).modifyStream i fun s => { s with reset := true }) := by
  obtain ⟨t, hAt, hId⟩ := hAt
  refine Mutes.streamError c e rfl ?_
  intro s' hs' hEq
  rw [H2Conn.modifyStream, h2SendStreamError, h2SendFrame_streams] at hs'
  obtain rfl | ⟨_, hOther⟩ := mem_modify hDistinct.nodup hAt hs'
  · exact .inl rfl
  · exact absurd (hEq.trans hId.symm) hOther

theorem Mutes.finished {id : Nat} {c : H2Conn} (e : H2Error) (h : Finished c id) :
    Mutes id c (h2SendStreamError env c id e) := by
  refine Mutes.streamError c e rfl ?_
  intro s hs hId
  rw [h2SendStreamError, h2SendFrame_streams] at hs
  exact .inr (h s hs hId)

/-! ## The handlers -/

theorem distinct_modify {c : H2Conn} (h : Distinct c) (i : Nat) {g : H2Stream → H2Stream}
    (hId : ∀ s, (g s).id = s.id) :
    Distinct (c.modifyStream i g) := by
  have hIds : (c.streams.modify i g).map H2Stream.id = c.streams.map H2Stream.id := by
    apply List.ext_getElem?
    intro j
    rw [List.getElem?_map, List.getElem?_map, List.getElem?_modify]
    cases c.streams[j]? with
    | none => simp
    | some s =>
      by_cases hj : i = j
      · simp [hj, hId]
      · simp [hj]
  refine ⟨by rw [H2Conn.modifyStream, hIds]; exact h.nodup, ?_⟩
  intro s hs
  obtain hs | ⟨t, ht, rfl⟩ := mem_of_mem_modify hs
  · exact h.bound s hs
  · rw [hId]
    exact h.bound t (List.mem_of_getElem? ht)

theorem distinct_sendFrame {c : H2Conn} (h : Distinct c) (f : H2Frame) :
    Distinct (h2SendFrame env c f).1 := by
  refine ⟨by rw [h2SendFrame_streams]; exact h.nodup, ?_⟩
  rw [h2SendFrame_streams, (h2SendFrame_windows c f).2]
  exact h.bound

theorem Mutes.reset_modified {c : H2Conn} {i : Nat} {s t : H2Stream} (e : H2Error) (g : H2Stream → H2Stream)
    (hDistinct : Distinct c) (hAt : c.streams[i]? = some t) (hId : t.id = s.id)
    (hSame : ∀ s, (g s).id = s.id) :
    Mutes s.id c ((h2SendStreamError env (c.modifyStream i g) s.id e).modifyStream i fun s =>
      { s with reset := true }) :=
  (Mutes.reset e (distinct_modify hDistinct i hSame)
    ⟨_, modifyStream_at hAt g, (hSame t).trans hId⟩).of_trace rfl

theorem Hushed.windowUpdate (c : H2Conn) (id inc : Nat) : Hushed c (h2SendWindowUpdate env c id inc) :=
  Hushed.send c (not_responds nofun nofun nofun) nofun

theorem dataBody_mutes {c : H2Conn} {i : Nat} {s : H2Stream} {f : H2Frame} (data : Bytes)
    (hDistinct : Distinct c)
    (hAt : ∃ t, c.streams[i]? = some t ∧ t.id = s.id) : Mutes s.id c (dataBody env c i s f data) := by
  rw [dataBody]
  split
  · exact Mutes.reset _ hDistinct hAt
  · dsimp only
    split
    · obtain ⟨t, hAt, hId⟩ := hAt
      exact Mutes.reset_modified _ _ hDistinct hAt hId fun _ => rfl
    · exact (Hushed.same rfl).mutes

theorem dataOnStream_mutes {c : H2Conn} {i : Nat} {s : H2Stream} {f : H2Frame} (data : Bytes)
    (hDistinct : Distinct c)
    (hAt : c.streams[i]? = some s) : Mutes s.id c (dataOnStream env c i s f data) := by
  rw [dataOnStream]
  split
  · exact (Hushed.same rfl).mutes
  · dsimp only
    have hTaken : Distinct (c.modifyStream i fun s => { s with recvWindow := s.recvWindow - f.len }) :=
      distinct_modify hDistinct i fun _ => rfl
    have hThere := modifyStream_at hAt fun s => { s with recvWindow := s.recvWindow - f.len }
    split
    · exact Mutes.reset_modified _ _ hDistinct hAt rfl fun _ => rfl
    · have hGranted : Mutes s.id (c.modifyStream i fun s => { s with recvWindow := s.recvWindow - f.len })
          (dataBody env (h2SendWindowUpdate env
            (c.modifyStream i fun s => { s with recvWindow := s.recvWindow - f.len }) s.id f.len) i s f
            data) := by
        refine (Hushed.windowUpdate _ _ _).then (dataBody_mutes data (distinct_sendFrame hTaken _)
          ⟨{ s with recvWindow := s.recvWindow - f.len }, ?_, rfl⟩)
        rw [h2SendWindowUpdate, h2SendFrame_streams]
        exact hThere
      exact hGranted.of_trace rfl

theorem finished_of_none {c : H2Conn} {id : Nat} (h : h2FindStream c id = none) : Finished c id :=
  fun s hs hId => absurd hId (h2FindStream_none h s hs)

theorem h2OnData_mutes {c : H2Conn} {f : H2Frame} (hDistinct : Distinct c) :
    Mutes f.streamId c (h2OnData env c f) := by
  rw [h2OnData]
  split
  · exact (Hushed.connError c _).mutes
  · split
    · exact (Hushed.connError c _).mutes
    · split
      · exact (Hushed.connError c _).mutes
      · dsimp only
        have hSpent : Distinct { c with connRecvWindow := c.connRecvWindow - f.len } :=
          ⟨hDistinct.nodup, hDistinct.bound⟩
        have hGranted : Hushed c
          (h2SendWindowUpdate env { c with connRecvWindow := c.connRecvWindow - f.len } 0 f.len) :=
          Hushed.windowUpdate { c with connRecvWindow := c.connRecvWindow - f.len } 0 f.len
        refine hGranted.then ?_
        split
        · rename_i hNone
          split
          · exact (Hushed.connError _ _).mutes
          · exact Mutes.finished _ (finished_of_none hNone)
        · rename_i i hFind
          obtain ⟨s, hAt, hId⟩ := h2FindStream_some hFind
          rw [hAt, ← hId]
          exact dataOnStream_mutes _ (distinct_sendFrame hSpent _) hAt

theorem h2OnPriority_mutes {c : H2Conn} {f : H2Frame} (h : f.len ≠ 5 → Finished c f.streamId) :
    Mutes f.streamId c (h2OnPriority env c f) := by
  rw [h2OnPriority]
  split
  · exact (Hushed.connError c _).mutes
  · split
    · rename_i hLen
      split
      · exact Mutes.finished _ (h hLen)
      · exact (Hushed.connError c _).mutes
    · exact (Hushed.same rfl).mutes

theorem h2OnRst_hushed (c : H2Conn) (f : H2Frame) : Hushed c (h2OnRst c f) := by
  rw [h2OnRst]
  split
  · exact Hushed.connError c _
  · split
    · exact Hushed.connError c _
    · split
      · split
        · exact Hushed.connError c _
        · exact Hushed.same rfl
      · exact Hushed.same rfl

theorem h2OnSettings_hushed (c : H2Conn) (f : H2Frame) : Hushed c (h2OnSettings env c f) := by
  rw [h2OnSettings]
  split
  · exact Hushed.connError c _
  · split
    · split
      · exact Hushed.connError c _
      · exact Hushed.same rfl
    · dsimp only
      have hTrace : (h2ApplySettings { c with gotClientSettings := true } f.payload).trace = c.trace :=
        h2ApplySettings_trace _ _
      split
      · obtain ⟨events, hEvents, hAll⟩ := @Hushed.send env
          (h2ApplySettings { c with gotClientSettings := true } f.payload) ⟨.settings, 1, 0, []⟩
          (not_responds (by rintro ⟨⟩) (by rintro ⟨⟩) (by rintro ⟨⟩)) (by rintro ⟨⟩)
        rw [hTrace] at hEvents
        exact ⟨events, hEvents, hAll⟩
      · exact Hushed.same hTrace

theorem h2OnPing_hushed (c : H2Conn) (f : H2Frame) : Hushed c (h2OnPing env c f) := by
  rw [h2OnPing]
  split
  · exact Hushed.connError c _
  · split
    · exact Hushed.connError c _
    · split
      · exact Hushed.same rfl
      · exact Hushed.send c (not_responds (by rintro ⟨⟩) (by rintro ⟨⟩) (by rintro ⟨⟩)) (by rintro ⟨⟩)

theorem h2OnGoaway_hushed (c : H2Conn) (f : H2Frame) : Hushed c (h2OnGoaway c f) := by
  rw [h2OnGoaway]
  split
  · exact Hushed.connError c _
  · split
    · exact Hushed.connError c _
    · exact Hushed.same rfl

theorem windowOnStream_mutes {c : H2Conn} {i : Nat} {s : H2Stream} (inc : Nat) (hDistinct : Distinct c)
    (hAt : c.streams[i]? = some s) : Mutes s.id c (windowOnStream env c i s inc) := by
  rw [windowOnStream]
  split
  · exact (Hushed.same rfl).mutes
  · dsimp only
    split
    · exact Mutes.reset_modified _ _ hDistinct hAt rfl fun _ => rfl
    · exact (Hushed.same rfl).mutes

theorem h2OnWindow_mutes {c : H2Conn} {f : H2Frame} (hDistinct : Distinct c)
    (h : f.len = 4 → windowIncrement f = 0 → Finished c f.streamId) :
    Mutes f.streamId c (h2OnWindow env c f) := by
  rw [h2OnWindow]
  split
  · exact (Hushed.connError c _).mutes
  · rename_i hLen
    split
    · rename_i hZero
      split
      · exact (Hushed.connError c _).mutes
      · exact Mutes.finished _ (h (not_not.mp hLen) hZero)
    · split
      · dsimp only
        split
        · refine (Hushed.same ?_).mutes
          rw [h2ConnError_eq]
        · exact (Hushed.same rfl).mutes
      · split
        · split
          · exact (Hushed.connError c _).mutes
          · exact (Hushed.same rfl).mutes
        · rename_i i hFind
          obtain ⟨s, hAt, hId⟩ := h2FindStream_some hFind
          rw [hAt, ← hId]
          exact windowOnStream_mutes _ hDistinct hAt

/-! ## Header blocks -/

/-- A finished block resets its stream when it is refused, malformed or one
stream too many; in the last two cases there is no such stream. -/
theorem h2OnHeaderBlockFinish_mutes {c : H2Conn} {id : Nat} (endStream : Bool) (blk : Bytes)
    (hDistinct : Distinct c)
    (hRefused : c.clientGoaway = true → c.clientGoawayLast < id → Finished c id) :
    Mutes id c (h2OnHeaderBlockFinish env c id endStream blk) := by
  have hBlock := @h2RequestFromBlock_streams env c blk
  rw [h2OnHeaderBlockFinish]
  split
  · exact (Hushed.connError c _).mutes
  · split
    · rename_i hGoaway
      exact Mutes.finished _ (hRefused hGoaway.1 hGoaway.2)
    · split
      · exact (Hushed.connError c _).mutes
      · rename_i hNew
        split
        · exact (Hushed.connError c _).mutes
        · have hAbsent : ∀ s ∈ c.streams, s.id ≠ id := by
            intro s hs hId
            have hLe := (hDistinct.bound s hs).2
            omega
          split
          · rename_i hEq
            rw [hEq] at hBlock
            exact (Hushed.same hBlock.2).mutes
          · rename_i c' hEq
            rw [hEq] at hBlock
            refine (Mutes.finished _ ?_).of_trace hBlock.2
            intro s hs hId
            rw [hBlock.1] at hs
            exact absurd hId (hAbsent s hs)
          · rename_i c' req hEq
            rw [hEq] at hBlock
            refine Mutes.of_trace ?_ hBlock.2
            rw [openStream]
            dsimp only
            split
            · refine Mutes.of_trace (Mutes.streamError _ .refused rfl ?_) rfl
              intro s hs hId
              rw [h2FreeStream, h2SendStreamError, h2SendFrame_streams] at hs
              dsimp only at hs
              rw [List.length_append, List.length_singleton, Nat.add_sub_cancel, swapRemove_concat,
                hBlock.1] at hs
              exact absurd hId (hAbsent s hs)
            · exact (Hushed.same rfl).mutes

theorem h2OnHeadersStart_mutes {c : H2Conn} {f : H2Frame} (hType : f.type = .headers) (hDistinct : Distinct c)
    (hRefused : completedBlock c f ≠ none → c.clientGoaway = true → c.clientGoawayLast < f.streamId →
      Finished c f.streamId) : Mutes f.streamId c (h2OnHeadersStart env c f) := by
  rw [h2OnHeadersStart]
  split
  · exact (Hushed.connError c _).mutes
  · have hBegun : ∀ e, Hushed c (h2ConnError
        { c with hbStream := f.streamId, hbEndStream := f.endStream, hbAbort := false, hb := [] } e) := by
      intro e
      refine Hushed.same ?_
      rw [h2ConnError_eq]
    dsimp only
    split
    · exact (hBegun _).mutes
    · rename_i frag hFrag
      split
      · exact (hBegun _).mutes
      · split
        · rename_i hEnd
          refine Mutes.of_trace (h2OnHeaderBlockFinish_mutes _ _ ⟨hDistinct.nodup, hDistinct.bound⟩ ?_) rfl
          refine hRefused ?_
          rw [completedBlock, hType]
          dsimp only
          rw [if_pos hEnd, hFrag]
          exact Option.some_ne_none frag
        · exact (Hushed.same rfl).mutes

/-- A fragment that takes the block over its cap resets the stream, any other
leaves the connection silent. -/
theorem takeFragment_cases (c : H2Conn) (f : H2Frame) :
    (c.hbAbort = false ∧ h2HeaderBlockCap < c.hb.length + f.len ∧ (takeFragment env c f).hbAbort = true ∧
      (takeFragment env c f).trace =
        (h2SendStreamError env { c with hbAbort := true } f.streamId .cancel).trace) ∨
    (takeFragment env c f).trace = c.trace ∧
      ((takeFragment env c f).hbAbort = false → c.hbAbort = false ∧ c.hb.length + f.len ≤ h2HeaderBlockCap ∧
        takeFragment env c f = { c with hb := c.hb ++ f.payload }) := by
  rw [takeFragment]
  split
  · rename_i hAbort
    refine .inr ⟨rfl, ?_⟩
    intro hFalse
    rw [hAbort] at hFalse
    cases hFalse
  · rename_i hTaking
    rw [Bool.not_eq_true] at hTaking
    split
    · rename_i hLarge
      refine .inl ⟨hTaking, hLarge, ?_, rfl⟩
      exact congrArg HeaderView.hbAbort (headerView_sendFrame { c with hbAbort := true } _)
    · rename_i hFits
      exact .inr ⟨rfl, fun _ => ⟨hTaking, by omega, rfl⟩⟩

theorem h2OnCont_mutes {c : H2Conn} {f : H2Frame} (hType : f.type = .cont) (hDistinct : Distinct c)
    (hOversized : c.hbAbort = false → h2HeaderBlockCap < c.hb.length + f.len → Finished c f.streamId)
    (hRefused : completedBlock c f ≠ none → c.clientGoaway = true → c.clientGoawayLast < f.streamId →
      Finished c f.streamId) : Mutes f.streamId c (h2OnCont env c f) := by
  rw [h2OnCont]
  split
  · exact (Hushed.connError c _).mutes
  · split
    · exact (Hushed.connError c _).mutes
    · rename_i hId
      have hStreams := (@takeFragment_streams env c f).1
      dsimp only
      obtain ⟨hOpen, hLarge, hAbort, hTrace⟩ | ⟨hTrace, hTaken⟩ := @takeFragment_cases env c f
      · have hReset : ∀ c', c'.trace = (takeFragment env c f).trace → c'.streams = c.streams →
          Mutes f.streamId c c' := by
          intro c' hTrace' hStreams'
          have hDone := hOversized hOpen hLarge
          have hSent : Mutes f.streamId { c with hbAbort := true } c' := by
            refine Mutes.streamError _ .cancel (hTrace'.trans hTrace) ?_
            intro s hs hIdS
            rw [hStreams'] at hs
            exact .inr (hDone s hs hIdS)
          exact hSent.of_trace rfl
        split
        · exact hReset _ rfl hStreams
        · exact hReset _ rfl hStreams
      · split
        · rename_i hEnd
          split
          · exact (Hushed.same hTrace).mutes
          · rename_i hAbort
            obtain ⟨hOpen, hFits, hEq⟩ := hTaken (Bool.not_eq_true _ ▸ hAbort)
            rw [hEq]
            dsimp only
            rw [← not_not.mp hId]
            refine Mutes.of_trace (h2OnHeaderBlockFinish_mutes _ _ ⟨hDistinct.nodup, hDistinct.bound⟩ ?_) rfl
            refine hRefused ?_
            rw [completedBlock, hType]
            dsimp only
            rw [if_pos ⟨hEnd, hOpen, hFits⟩]
            exact Option.some_ne_none _
        · exact (Hushed.same hTrace).mutes

theorem handleFrame_mutes {c : H2Conn} {f : H2Frame} (hDistinct : Distinct c) (h : Careful env c f) :
    Mutes f.streamId c (handleFrame env c f) := by
  rw [handleFrame]
  split
  · exact (Hushed.connError c _).mutes
  · split
    · exact (Hushed.connError c _).mutes
    · cases hType : f.type with
      | data => exact h2OnData_mutes hDistinct
      | headers => exact h2OnHeadersStart_mutes hType hDistinct h.refused
      | cont => exact h2OnCont_mutes hType hDistinct (h.oversized hType) h.refused
      | priority => exact h2OnPriority_mutes (h.priority hType)
      | rst => exact (h2OnRst_hushed c f).mutes
      | settings => exact (h2OnSettings_hushed c f).mutes
      | ping => exact (h2OnPing_hushed c f).mutes
      | goaway => exact (h2OnGoaway_hushed c f).mutes
      | window => exact h2OnWindow_mutes hDistinct (h.window hType)
      | pushPromise => exact (Hushed.connError c _).mutes
      | unknown code => exact (Hushed.same rfl).mutes

/-! ## Opening a stream -/

theorem h2OnHeaderBlockFinish_opens {c : H2Conn} {id : Nat} {endStream : Bool} {blk : Bytes}
    (h : (h2OnHeaderBlockFinish env c id endStream blk).streams.length = c.streams.length + 1) :
    ¬ (c.clientGoaway = true ∧ c.clientGoawayLast < id) ∧
      ∃ req, (h2RequestFromBlock env c blk).2 = .request req := by
  have hSame : ∀ {c' : H2Conn}, c'.streams = c.streams → ¬ c'.streams.length = c.streams.length + 1 := by
    intro c' hEq hLength
    rw [hEq] at hLength
    omega
  have hBlock := (@h2RequestFromBlock_streams env c blk).1
  have hError : ∀ e, (h2ConnError c e).streams = c.streams := by
    intro e
    rw [h2ConnError_eq]
  rw [h2OnHeaderBlockFinish] at h
  split at h
  · exact absurd h (hSame (hError _))
  · split at h
    · exact absurd h (hSame (h2SendFrame_streams env c _))
    · rename_i hAccepted
      split at h
      · exact absurd h (hSame (hError _))
      · split at h
        · exact absurd h (hSame (hError _))
        · split at h
          · rename_i hEq
            rw [hEq] at hBlock
            exact absurd h (hSame hBlock)
          · rename_i hEq
            rw [hEq] at hBlock
            exact absurd h (hSame ((h2SendFrame_streams env _ _).trans hBlock))
          · rename_i req hEq
            exact ⟨hAccepted, req, by rw [hEq]⟩

theorem h2RequestFromBlock_congr {c c' : H2Conn} (h : c'.hpack = c.hpack) (blk : Bytes) :
    (h2RequestFromBlock env c' blk).2 = (h2RequestFromBlock env c blk).2 := by
  rw [h2RequestFromBlock, h2RequestFromBlock, h]
  split
  · rfl
  · rfl

theorem h2ConnError_length (c : H2Conn) (e : H2Error) :
    (h2ConnError c e).streams.length ≠ c.streams.length + 1 := by
  rw [h2ConnError_eq]
  exact fun hEq => absurd hEq (by simp)

/-- What is known of the block of a frame that opens a stream. -/
def OpensFor (env : H2Env) (c : H2Conn) (f : H2Frame) : Prop :=
  ∃ blk req, completedBlock c f = some blk ∧ (h2RequestFromBlock env c blk).2 = .request req ∧
    ¬ (c.clientGoaway = true ∧ c.clientGoawayLast < f.streamId)

theorem h2OnHeadersStart_opens {c : H2Conn} {f : H2Frame} (hType : f.type = .headers)
    (hLength : (h2OnHeadersStart env c f).streams.length = c.streams.length + 1) : OpensFor env c f := by
  rw [h2OnHeadersStart] at hLength
  split at hLength
  · exact absurd hLength (h2ConnError_length c _)
  · have hBegun := h2ConnError_length
      { c with hbStream := f.streamId, hbEndStream := f.endStream, hbAbort := false, hb := [] }
    dsimp only at hLength
    split at hLength
    · exact absurd hLength (hBegun _)
    · rename_i frag hFrag
      split at hLength
      · exact absurd hLength (hBegun _)
      · split at hLength
        · rename_i hEnd
          obtain ⟨hAccepted, req, hReq⟩ := h2OnHeaderBlockFinish_opens hLength
          refine ⟨frag, req, ?_, ?_, hAccepted⟩
          · rw [completedBlock, hType]
            dsimp only
            rw [if_pos hEnd, hFrag]
          · rw [← hReq]
            apply h2RequestFromBlock_congr
            rfl
        · exact absurd hLength (by simp)

theorem h2OnCont_opens {c : H2Conn} {f : H2Frame} (hType : f.type = .cont) (hBlock : c.hbStream = f.streamId)
    (hLength : (h2OnCont env c f).streams.length = c.streams.length + 1) : OpensFor env c f := by
  rw [h2OnCont] at hLength
  obtain ⟨hStreams, _⟩ := @takeFragment_streams env c f
  have hSame : ∀ {c' : H2Conn}, c'.streams = c.streams → ¬ c'.streams.length = c.streams.length + 1 := by
    intro c' hEq hLength
    rw [hEq] at hLength
    omega
  split at hLength
  · exact absurd hLength (h2ConnError_length c _)
  · split at hLength
    · exact absurd hLength (h2ConnError_length c _)
    · dsimp only at hLength
      split at hLength
      · rename_i hEnd
        split at hLength
        · exact absurd hLength (hSame hStreams)
        · rename_i hAbort
          rw [Bool.not_eq_true] at hAbort
          obtain ⟨_, _, hAborted, _⟩ | ⟨_, hTaken⟩ := @takeFragment_cases env c f
          · rw [hAbort] at hAborted
            cases hAborted
          · obtain ⟨hOpen, hFits, hEq⟩ := hTaken hAbort
            rw [hEq] at hLength
            obtain ⟨hAccepted, req, hReq⟩ := h2OnHeaderBlockFinish_opens hLength
            refine ⟨c.hb ++ f.payload, req, ?_, ?_, ?_⟩
            · rw [completedBlock, hType]
              dsimp only
              rw [if_pos ⟨hEnd, hOpen, hFits⟩]
            · rw [← hReq]
              apply h2RequestFromBlock_congr
              rfl
            · rw [← hBlock]
              exact hAccepted
      · exact absurd hLength (hSame hStreams)

theorem handleFrame_opens {c : H2Conn} {f : H2Frame} {endStream : Bool}
    (hOpened : Opened c (handleFrame env c f) f.streamId endStream) (hCompletes : Completes c f endStream) :
    OpensFor env c f := by
  obtain ⟨req, window, hStreams⟩ := hOpened.streams
  have hLength : (handleFrame env c f).streams.length = c.streams.length + 1 := by
    rw [hStreams, List.length_append, List.length_singleton]
  rw [handleFrame] at hLength
  split at hLength
  · exact absurd hLength (h2ConnError_length c _)
  · split at hLength
    · exact absurd hLength (h2ConnError_length c _)
    · obtain ⟨hType, _⟩ | ⟨hType, hBlock, _, _⟩ := hCompletes
      · rw [hType] at hLength
        exact h2OnHeadersStart_opens hType hLength
      · rw [hType] at hLength
        exact h2OnCont_opens hType hBlock hLength

/-! ## Along a run -/

/-- The frame is taken in, perhaps answered with a reset, and every stream that
was reset is marked again. -/
theorem process_mute {c : H2Conn} {f : H2Frame} (hc : Mute c) (h : Careful env c f) :
    Mute (h2ProcessFrame env c f) := by
  have hTaken : Careful env { c with trace := c.trace ++ [.recv f] } f := by
    refine ⟨h.priority, h.window, h.oversized, h.refused, ?_⟩
    intro blk req hBlock hReq hAccepted hFresh hRoom hSent
    obtain hSent | ⟨g, hg, _⟩ := (resetSent_append _ _ _).mp hSent
    · refine h.fresh blk req hBlock ?_ hAccepted hFresh hRoom hSent
      rw [← hReq]
      apply h2RequestFromBlock_congr
      rfl
    · exact absurd hg List.not_mem_nil
  have hDistinct : Distinct { c with trace := c.trace ++ [.recv f] } := ⟨hc.distinct.nodup, hc.distinct.bound⟩
  obtain ⟨events, hTrace, hEvents⟩ := handleFrame_mutes hDistinct hTaken
  have hBefore : ∀ id, ResetSent (c.trace ++ [.recv f]) id → ResetSent c.trace id := by
    intro id hSent
    obtain hSent | ⟨g, hg, _⟩ := (resetSent_append _ _ _).mp hSent
    · exact hSent
    · exact absurd hg List.not_mem_nil
  refine ⟨h2ProcessFrame_distinct hc.distinct f, ?_, ?_⟩
  · rw [h2ProcessFrame, hTrace]
    refine Silent.append (hc.silent.append ?_) fun g hg => (hEvents g hg).1
    exact fun g hg => absurd hg List.not_mem_nil
  · intro s' hs' hSent
    rw [h2ProcessFrame, hTrace] at hSent
    obtain hSent | ⟨g, hg, hRst, hId⟩ := (resetSent_append _ _ _).mp hSent
    · obtain ⟨e, hOpened, hCompletes⟩ | hKeeps :=
        (handleFrame_effect { c with trace := c.trace ++ [.recv f] } f).streams
      · obtain ⟨req, window, hStreams⟩ := hOpened.streams
        rw [h2ProcessFrame, hStreams] at hs'
        obtain hs' | hs' := List.mem_append.mp hs'
        · exact hc.marked s' hs' (hBefore _ hSent)
        · obtain ⟨blk, req, hBlock, hReq, hAccepted⟩ := handleFrame_opens hOpened hCompletes
          rw [List.mem_singleton.mp hs'] at hSent
          exact absurd hSent (hTaken.fresh blk req hBlock hReq hAccepted hOpened.fresh hOpened.room)
      · obtain ⟨s, hs, hKept⟩ := mem_of_forall₂ hKeeps hs'
        rw [hKept.id] at hSent
        obtain hReset | hEnded := hc.marked s hs (hBefore _ hSent)
        · exact .inl (hKept.reset hReset)
        · exact .inr (hKept.ended.trans hEnded)
    · obtain ⟨hStream, hMarked⟩ := (hEvents g hg).2 hRst
      exact hMarked s' hs' (hId.symm.trans hStream)

/-! ## Answered streams are dispatched -/

theorem pumpStream_ready {c : H2Conn} (i : Nat) (h : ∀ s ∈ c.streams, Ready s) :
    ∀ s ∈ (pumpStream env c i).1.streams, Ready s := by
  intro s' hs'
  obtain ⟨j, hj⟩ := List.mem_iff_getElem?.mp hs'
  obtain ⟨s, hs, hFixed⟩ := (@pumpStream_steps env c i).getElem?_fixed hj
  have hReady := h s (List.mem_of_getElem? hs)
  obtain ⟨_, hFixed⟩ := Prod.mk.inj hFixed
  obtain ⟨_, hFixed⟩ := Prod.mk.inj hFixed
  obtain ⟨hDispatched, _⟩ := Prod.mk.inj hFixed
  by_cases hEq : i = j
  · subst hEq
    rw [pumpStream, hs] at hj
    dsimp only at hj
    split at hj
    · obtain rfl := Option.some.inj (hs.symm.trans hj)
      exact hReady
    · rename_i hGo
      obtain ⟨_, hGo⟩ := not_or.mp hGo
      obtain ⟨_, hAnswering⟩ := not_or.mp hGo
      obtain hDone | ⟨hNot, _⟩ := hReady
      · exact .inl (hDispatched.trans hDone)
      · exact absurd hNot (by rw [not_not.mp hAnswering]; rintro ⟨⟩)
  · have hSame := ((@pumpStream_serves env c i).others j hEq).symm.trans hj
    obtain rfl := Option.some.inj (hs.symm.trans hSame)
    exact hReady

theorem pumpFrom_ready (left : Nat) : ∀ i {c : H2Conn}, (∀ s ∈ c.streams, Ready s) →
    ∀ s ∈ (pumpFrom env left i c).streams, Ready s := by
  induction left with
  | zero => exact fun _ _ h => h
  | succ left ih =>
    intro i c h
    have hStream := @pumpStream_ready env c i h
    rw [pumpFrom]
    split
    · rename_i hEq
      rw [hEq] at hStream
      exact hStream
    · rename_i hEq
      rw [hEq] at hStream
      exact ih (i + 1) hStream

theorem settle_ready {c : H2Conn} (h : ∀ s ∈ c.streams, Ready s) : ∀ s ∈ (settle env c).streams, Ready s := by
  have hDispatched : ∀ s ∈ (h2DispatchReady env c).streams, Ready s := by
    by_cases hOk : c.error = none
    · intro s' hs'
      obtain ⟨s, hs, hAnswers⟩ := mem_of_forall₂ (h2DispatchReady_answers c hOk) hs'
      obtain ⟨rfl, _⟩ | ⟨_, _, _, _, _, _, _, hDone⟩ := hAnswers
      · exact h s' hs
      · exact .inl hDone
    · rw [h2DispatchReady, if_neg hOk]
      exact h
  have hPumped : ∀ s ∈ (h2Pump env (h2DispatchReady env c)).streams, Ready s := by
    rw [h2Pump]
    split
    · exact pumpFrom_ready _ 0 hDispatched
    · exact hDispatched
  exact fun s hs => hPumped s ((sweepFrom_subset _ _).1 s hs)

theorem process_ready {c : H2Conn} (f : H2Frame) (h : ∀ s ∈ c.streams, Ready s) :
    ∀ s ∈ (h2ProcessFrame env c f).streams, Ready s := by
  intro s' hs'
  obtain ⟨e, hOpened, _⟩ | hKeeps :=
    (@handleFrame_effect env { c with trace := c.trace ++ [.recv f] } f).streams
  · obtain ⟨req, window, hStreams⟩ := hOpened.streams
    rw [h2ProcessFrame, hStreams] at hs'
    obtain hs' | hs' := List.mem_append.mp hs'
    · exact h s' hs'
    · rw [List.mem_singleton.mp hs']
      exact .inr ⟨rfl, rfl⟩
  · obtain ⟨s, hs, hKept⟩ := mem_of_forall₂ hKeeps hs'
    rw [Ready, hKept.dispatched, hKept.ready, hKept.ended]
    exact h s hs

/-! ## Runs -/

/-- A run with its calls, on which every frame meets the condition. -/
inductive CarefulRun (env : H2Env) (c₀ : H2Conn) : List Call → H2Conn → Prop where
  | start : CarefulRun env c₀ (callsOf env c₀) (settle env c₀)
  | turn {log : List Call} {c : H2Conn} : CarefulRun env c₀ log c → c.error = none →
      CarefulRun env c₀ (log ++ callsOf env c) (settle env c)
  | frame {log : List Call} {c : H2Conn} (f : H2Frame) : CarefulRun env c₀ log c → c.error = none →
    Careful env c f →
      CarefulRun env c₀ (log ++ callsOf env (h2ProcessFrame env c f)) (frameStep env c f)
  | behind {log log' : List Call} {c : H2Conn} (f g : H2Frame) : CarefulRun env c₀ log c → c.error = none →
      FailsBehind env c f → CarefulRun env c₀ log' (frameStep env c f) → Careful env (frameStep env c f) g →
      CarefulRun env c₀ log' (h2ProcessFrame env (frameStep env c f) g)

theorem callsOf_not_reset {c : H2Conn} (hMarked : Marked c) (hReady : ∀ s ∈ c.streams, Ready s) :
    ∀ call ∈ callsOf env c, ¬ ResetSent call.trace call.id := by
  intro call hCall hSent
  obtain ⟨_, hTrace, s, hs, hId, hReq⟩ := mem_callsOf hCall
  obtain ⟨hDispatched, hReset, _⟩ := handedOver_ready hReq
  rw [hTrace, ← hId] at hSent
  obtain hMark | hEnded := hMarked s hs hSent
  · rw [hReset] at hMark
    cases hMark
  · obtain hDone | ⟨_, hLocal⟩ := hReady s hs
    · rw [hDispatched] at hDone
      cases hDone
    · rw [hEnded] at hLocal
      cases hLocal

theorem h2Start_sent {upgrade : Option HttpRequest} {c : H2Conn} (h : h2Start env upgrade = some c) :
    ∀ g ∈ sent c.trace, g.type = .settings := by
  have hSettings : ∀ c : H2Conn, sent c.trace = [] → ∀ g ∈ sent (h2SendSettings env c).trace,
    g.type = .settings := by
    intro c hNone g hg
    obtain ⟨events, hTrace, hEvents⟩ := @h2SendFrame_events env c
      ⟨.settings, 0, 0, [0, 3, 0, 0, 0, UInt8.ofNat h2MaxConcurrentStreams]⟩
    rw [h2SendSettings, hTrace, sent_append, hNone, List.nil_append] at hg
    rw [hEvents g hg]
  cases upgrade with
  | none =>
    obtain rfl := Option.some.inj h
    exact hSettings h2Init rfl
  | some src =>
    simp only [h2Start] at h
    split at h
    · cases h
    · rename_i c' hText
      obtain ⟨c'', hUpgrade, rfl⟩ := Option.map_eq_some_iff.mp h
      obtain ⟨writes, events, hEq, hEvents⟩ := @prologueStart_eq env (some src)
      rw [prologueStart, hText] at hEq
      dsimp only at hEq
      refine hSettings (h2AddUpgradeStream env c'' src) ?_
      change sent c''.trace = []
      have hTrace : c''.trace = c'.trace := by
        rw [upgradeSettings] at hUpgrade
        split at hUpgrade
        · obtain rfl := Option.some.inj hUpgrade
          rfl
        · split at hUpgrade
          · cases hUpgrade
          · split at hUpgrade
            · cases hUpgrade
            · dsimp only at hUpgrade
              split at hUpgrade
              · obtain rfl := Option.some.inj hUpgrade
                exact h2ApplySettings_trace _ _
              · cases hUpgrade
      rw [hTrace, hEq]
      exact sent_text hEvents

theorem mute_start {upgrade : Option HttpRequest} {c : H2Conn} (h : h2Start env upgrade = some c) :
    Mute c ∧ ∀ s ∈ c.streams, Ready s := by
  have hSent := h2Start_sent h
  have hNoReset : ∀ id, ¬ ResetSent c.trace id := by
    rintro id ⟨g, hg, hRst, _⟩
    rw [hSent g hg] at hRst
    cases hRst
  refine ⟨⟨distinct_start h, ?_, fun s _ hReset => absurd hReset (hNoReset s.id)⟩, ?_⟩
  · have hEmpty : Silent ([] ++ c.trace) := by
      refine Silent.append (fun pre f post hEq => absurd hEq.symm (by simp)) ?_
      intro g hg
      have hType := hSent g hg
      exact not_responds (by rw [hType]; nofun) (by rw [hType]; nofun) (by rw [hType]; nofun)
    exact hEmpty
  · obtain hNone | ⟨_, s, hOne, _, hNot, hOpen⟩ := h2Start_streams h
    · rw [hNone]
      exact fun s hs => absurd hs List.not_mem_nil
    · rw [hOne]
      intro t ht
      rw [List.mem_singleton.mp ht]
      exact .inr ⟨hNot, hOpen⟩

theorem CarefulRun.mute {upgrade : Option HttpRequest} {c₀ c : H2Conn} {log : List Call}
    (hStart : h2Start env upgrade = some c₀) (h : CarefulRun env c₀ log c) :
    (Mute c ∧ ∀ s ∈ c.streams, Ready s) ∧ ∀ call ∈ log, ¬ ResetSent call.trace call.id := by
  induction h with
  | start =>
    obtain ⟨hMute, hReady⟩ := mute_start hStart
    exact ⟨⟨settle_mute hMute, settle_ready hReady⟩, callsOf_not_reset hMute.marked hReady⟩
  | turn _ _ ih =>
    obtain ⟨⟨hMute, hReady⟩, hLog⟩ := ih
    refine ⟨⟨settle_mute hMute, settle_ready hReady⟩, ?_⟩
    intro call hCall
    obtain hCall | hCall := List.mem_append.mp hCall
    · exact hLog call hCall
    · exact callsOf_not_reset hMute.marked hReady call hCall
  | frame f _ _ hCareful ih =>
    obtain ⟨⟨hMute, hReady⟩, hLog⟩ := ih
    have hMute' := process_mute hMute hCareful
    have hReady' := @process_ready env _ f hReady
    refine ⟨?_, ?_⟩
    · rw [frameStep]
      split
      · exact ⟨settle_mute hMute', settle_ready hReady'⟩
      · exact ⟨hMute', hReady'⟩
    · intro call hCall
      obtain hCall | hCall := List.mem_append.mp hCall
      · exact hLog call hCall
      · exact callsOf_not_reset hMute'.marked hReady' call hCall
  | behind f g _ _ _ _ hCareful _ ih =>
    obtain ⟨⟨hMute, hReady⟩, hLog⟩ := ih
    exact ⟨⟨process_mute hMute hCareful, process_ready g hReady⟩, hLog⟩

/-- On such a run nothing of a response follows a RST_STREAM, and the handler
is not called for the stream any more. -/
theorem silent_after_reset {upgrade : Option HttpRequest} {c₀ c : H2Conn} {log : List Call}
    (hStart : h2Start env upgrade = some c₀) (h : CarefulRun env c₀ log c) :
    Silent c.trace ∧ ∀ call ∈ log, ¬ ResetSent call.trace call.id := by
  obtain ⟨⟨hMute, _⟩, hLog⟩ := h.mute hStart
  exact ⟨hMute.silent, hLog⟩

theorem CarefulRun.concat {c₀ : H2Conn} {log : List Call} {frames : List H2Frame} {f : H2Frame}
    (h : CarefulRun env c₀ log (plainRun env frames)) (hOk : (plainRun env frames).error = none)
    (hCareful : Careful env (plainRun env frames) f) :
    ∃ log, CarefulRun env c₀ log (plainRun env (frames ++ [f])) := by
  rw [plainRun_concat f hOk]
  exact ⟨_, h.frame f hOk hCareful⟩

/-- A POST that has not ended, and a WINDOW_UPDATE that takes its window over
the limit. -/
def overflowUpdate : List H2Frame := [⟨.settings, 0, 0, []⟩, ⟨.headers, 4, 1, [0x83, 0x86, 0x84]⟩,
  ⟨.window, 0, 1, [0x7f, 0xff, 0xff, 0xff]⟩]

theorem silent_after_reset_overflow :
    ∃ c₀ log c, h2Start plainEnv none = some c₀ ∧ CarefulRun plainEnv c₀ log c ∧ ResetSent c.trace 1 ∧
      Silent c.trace ∧ ∀ call ∈ log, ¬ ResetSent call.trace call.id := by
  have hSettings : Careful plainEnv (plainRun plainEnv []) ⟨.settings, 0, 0, []⟩ := by
    refine ⟨nofun, nofun, nofun, ?_, ?_⟩
    · exact fun hBlock => absurd rfl hBlock
    · exact fun blk req hBlock => absurd hBlock nofun
  have hHeaders : Careful plainEnv (plainRun plainEnv (overflowUpdate.take 1))
    ⟨.headers, 4, 1, [0x83, 0x86, 0x84]⟩ := by
    refine ⟨nofun, nofun, nofun, ?_, ?_⟩
    · intro _ hGoaway
      exact absurd hGoaway (by decide +kernel)
    · exact fun _ _ _ _ _ _ _ => by decide +kernel
  have hWindow : Careful plainEnv (plainRun plainEnv (overflowUpdate.take 2))
    ⟨.window, 0, 1, [0x7f, 0xff, 0xff, 0xff]⟩ := by
    refine ⟨nofun, ?_, nofun, ?_, ?_⟩
    · intro _ _ hZero
      exact absurd hZero (by decide)
    · exact fun hBlock => absurd rfl hBlock
    · exact fun blk req hBlock => absurd hBlock nofun
  obtain ⟨log, hRun⟩ := (CarefulRun.start : CarefulRun plainEnv (h2SendSettings plainEnv h2Init) _
    (plainRun plainEnv [])).concat (by decide +kernel) hSettings
  obtain ⟨log, hRun⟩ := hRun.concat (by decide +kernel) hHeaders
  obtain ⟨log, hRun⟩ := hRun.concat (by decide +kernel) hWindow
  exact ⟨_, log, _, rfl, hRun, by decide +kernel, @silent_after_reset plainEnv none _ _ _ rfl hRun⟩

/-- A POST that has not ended, a WINDOW_UPDATE of zero for it, and its end. -/
def zeroUpdate : List H2Frame := [⟨.settings, 0, 0, []⟩, ⟨.headers, 4, 1, [0x83, 0x86, 0x84]⟩,
  ⟨.window, 0, 1, [0, 0, 0, 0]⟩, ⟨.data, 1, 1, [7]⟩]

/-- The server resets the stream and answers it all the same. -/
theorem answered_after_reset :
    ∃ c₀ log c, h2Start plainEnv none = some c₀ ∧ LoggedRun plainEnv c₀ log c ∧ ¬ Silent c.trace ∧
      ∃ call ∈ log, ResetSent call.trace call.id := by
  obtain ⟨log, hLog⟩ : ∃ log, LoggedRun plainEnv (h2SendSettings plainEnv h2Init) log
      (plainRun plainEnv (zeroUpdate.take 3)) := (Run.start.run _).logged
  have hCall : ∃ call ∈ callsOf plainEnv
    (h2ProcessFrame plainEnv (plainRun plainEnv (zeroUpdate.take 3)) ⟨.data, 1, 1, [7]⟩),
      ResetSent call.trace call.id := by decide +kernel
  obtain ⟨call, hMem, hReset⟩ := hCall
  have hOk : (plainRun plainEnv (zeroUpdate.take 3)).error = none := by decide +kernel
  have hRun := hLog.frame ⟨.data, 1, 1, [7]⟩ hOk
  rw [← plainRun_concat ⟨.data, 1, 1, [7]⟩ hOk] at hRun
  refine ⟨_, _, plainRun plainEnv zeroUpdate, rfl, hRun, ?_, call, List.mem_append_right _ hMem, hReset⟩
  intro hSilent
  have hTrace : (plainRun plainEnv zeroUpdate).trace =
      (plainRun plainEnv zeroUpdate).trace.take 9 ++
      .sent ⟨.headers, 5, 1, [136, 15, 18, 0]⟩ :: [] := by decide +kernel
  exact hSilent _ _ _ hTrace (.inl rfl) (by decide +kernel)

end Cweb.H2
