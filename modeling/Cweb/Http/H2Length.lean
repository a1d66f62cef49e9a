import Cweb.Http.H2Table

/-!
# The length of a request

Each DATA frame adds its payload, without its padding, to the count of its
stream. The count is compared with the content length when a DATA frame has
END_STREAM, but not when the HEADERS frame has it.
-/

namespace Cweb.H2

open SwapRemove

variable {env : H2Env}

/-! ## The bytes of a stream -/

def dataFor (f : H2Frame) (id : Nat) : Nat :=
  if f.type = .data ∧ f.streamId = id then ((dataPayload f).getD []).length else 0

/-- The bytes of DATA that these frames bring for a stream, without padding. -/
def dataBytes (frames : List H2Frame) (id : Nat) : Nat := (frames.map fun f => dataFor f id).sum

theorem dataBytes_concat (frames : List H2Frame) (f : H2Frame) (id : Nat) :
    dataBytes (frames ++ [f]) id = dataBytes frames id + dataFor f id := by
  rw [dataBytes, List.map_append, List.sum_append]
  rfl

/-- As many bytes came as the request says, if it says how many. -/
def LengthKept (call : Call) : Prop :=
  0 ≤ call.req.contentLength → (dataBytes (received call.trace) call.id : Int) = call.req.contentLength

/-! ## One frame -/

/-- A stream that is not given any data. -/
structure Alike (s s' : H2Stream) : Prop where
  id : s'.id = s.id
  req : s'.req = s.req
  bytes : s'.reqBytes = s.reqBytes
  remote : s'.remoteEnded = s.remoteEnded
  dispatched : s'.dispatched = s.dispatched
  reset : s.reset = true → s'.reset = true

theorem Alike.refl (s : H2Stream) : Alike s s := ⟨rfl, rfl, rfl, rfl, rfl, fun h => h⟩

theorem alike_lax : Lax Alike where
  refl := Alike.refl
  trans :=
    fun _ _ _ h h' => ⟨h'.id.trans h.id, h'.req.trans h.req, h'.bytes.trans h.bytes, h'.remote.trans h.remote,
    h'.dispatched.trans h.dispatched, fun hReset => h'.reset (h.reset hReset)⟩
  reset := fun _ => ⟨rfl, rfl, rfl, rfl, rfl, fun _ => rfl⟩
  grant := by
    intro s s' h
    rw [h]
    exact ⟨rfl, rfl, rfl, rfl, rfl, fun h => h⟩

/-- The frame ends the stream, and the count is what the request says. -/
structure EndsInFull (f : H2Frame) (s : H2Stream) (bytes : Nat) : Prop where
  data : f.type = .data
  stream : f.streamId = s.id
  flag : f.endStream = true
  full : 0 ≤ s.req.contentLength → (bytes : Int) = s.req.contentLength

/-- A stream before and after a frame that may bring data for it. -/
structure Took (f : H2Frame) (s s' : H2Stream) : Prop where
  id : s'.id = s.id
  req : s'.req = s.req
  dispatched : s'.dispatched = s.dispatched
  reset : s.reset = true → s'.reset = true
  bytes : s'.reset = false → s'.reqBytes = s.reqBytes + dataFor f s.id
  ended : s'.reset = false → s'.remoteEnded = true → s.remoteEnded = true ∨ EndsInFull f s s'.reqBytes

theorem Alike.took {f : H2Frame} {s s' : H2Stream} (h : Alike s s') (hNone : dataFor f s.id = 0) :
    Took f s s' := by
  refine ⟨h.id, h.req, h.dispatched, h.reset, ?_, ?_⟩
  · intro _
    rw [h.bytes, hNone, Nat.add_zero]
  · intro _ hEnded
    exact .inl (h.remote.symm.trans hEnded)

theorem took_of_reset (f : H2Frame) {s s' : H2Stream} (hId : s'.id = s.id) (hReq : s'.req = s.req)
    (hDispatched : s'.dispatched = s.dispatched) (hReset : s'.reset = true) : Took f s s' := by
  refine ⟨hId, hReq, hDispatched, fun _ => hReset, ?_, ?_⟩
  · intro hNot
    rw [hReset] at hNot
    cases hNot
  · intro hNot
    rw [hReset] at hNot
    cases hNot

theorem dataFor_other {f : H2Frame} {id : Nat} (h : f.streamId ≠ id) : dataFor f id = 0 :=
  if_neg fun hBoth => h hBoth.2

theorem dataFor_of_type {f : H2Frame} (h : f.type ≠ .data) (id : Nat) : dataFor f id = 0 :=
  if_neg fun hBoth => h hBoth.1

theorem dataBody_took {c : H2Conn} {i : Nat} {s : H2Stream} {f : H2Frame} {data : Bytes}
    (hType : f.type = .data)
    (hData : dataPayload f = some data) (hId : f.streamId = s.id) :
    ∃ g : H2Stream → H2Stream, (dataBody env c i s f data).streams = c.streams.modify i g ∧
      ∀ window, Took f s (g { s with recvWindow := window }) := by
  have hBytes : dataFor f s.id = data.length := by
    rw [dataFor, if_pos ⟨hType, hId⟩, hData]
    rfl
  rw [dataBody]
  by_cases hEnded : s.remoteEnded = true
  · rw [if_pos hEnded]
    refine ⟨fun s => { s with reset := true }, ?_, fun window => took_of_reset f rfl rfl rfl rfl⟩
    rw [H2Conn.modifyStream, h2SendStreamError, h2SendFrame_streams]
  · rw [if_neg hEnded]
    dsimp only
    split
    · have hStreams : ∀ g, ((h2SendStreamError env (c.modifyStream i g) s.id .protocol).modifyStream i
          fun s => { s with reset := true }).streams = c.streams.modify i
            ((fun s => { s with reset := true }) ∘ g) := by
        intro g
        rw [H2Conn.modifyStream, h2SendStreamError, h2SendFrame_streams, H2Conn.modifyStream]
        exact List.modify_modify_eq _ _ _ _
      exact ⟨_, hStreams _, fun window => took_of_reset f rfl rfl rfl rfl⟩
    · rename_i hFull
      refine ⟨_, rfl, ?_⟩
      intro window
      refine ⟨rfl, rfl, rfl, fun h => h, fun _ => congrArg (s.reqBytes + ·) hBytes.symm, ?_⟩
      intro _ hFlag
      have hEnd : f.endStream = true := hFlag
      refine .inr ⟨hType, hId, hEnd, ?_⟩
      intro hLength
      by_contra hNe
      refine hFull ?_
      rw [hEnd, Bool.true_and, Bool.and_eq_true, decide_eq_true_eq, decide_eq_true_eq]
      exact ⟨hLength, hNe⟩

theorem dataOnStream_took {c : H2Conn} {i : Nat} {s : H2Stream} {f : H2Frame} {data : Bytes}
    (hAt : c.streams[i]? = some s) (hType : f.type = .data) (hData : dataPayload f = some data)
    (hId : f.streamId = s.id) :
    ∃ g : H2Stream → H2Stream, (dataOnStream env c i s f data).streams = c.streams.modify i g ∧
      Took f s (g s) := by
  rw [dataOnStream]
  by_cases hReset : s.reset = true
  · rw [if_pos hReset]
    refine ⟨fun _ => s, ?_, took_of_reset f rfl rfl rfl hReset⟩
    exact (modify_eq_self hAt).symm
  · rw [if_neg hReset]
    dsimp only
    split
    · refine ⟨fun s => { s with recvWindow := s.recvWindow - f.len, reset := true }, ?_,
        took_of_reset f rfl rfl rfl rfl⟩
      rw [H2Conn.modifyStream, h2SendStreamError, h2SendFrame_streams, H2Conn.modifyStream]
      exact List.modify_modify_eq _ _ _ _
    · obtain ⟨g, hStreams, hTook⟩ := @dataBody_took env (h2SendWindowUpdate env (c.modifyStream i fun s =>
        { s with recvWindow := s.recvWindow - f.len }) s.id f.len) i s f data hType hData hId
      refine ⟨fun s => g { s with recvWindow := s.recvWindow - f.len }, ?_, hTook _⟩
      rw [hStreams, h2SendWindowUpdate, h2SendFrame_streams, H2Conn.modifyStream]
      exact List.modify_modify_eq _ _ _ _

theorem forall₂_modify_one {R : H2Stream → H2Stream → Prop} {g : H2Stream → H2Stream} :
    ∀ {l : List H2Stream} {i : Nat} {s : H2Stream}, (l.map H2Stream.id).Nodup → l[i]? = some s → R s (g s) →
      (∀ t ∈ l, t.id ≠ s.id → R t t) → List.Forall₂ R l (l.modify i g) := by
  intro l
  induction l with
  | nil =>
    intro i s _ hAt
    cases hAt
  | cons t l ih =>
    intro i s hNodup hAt hHere hOther
    rw [List.map_cons, List.nodup_cons] at hNodup
    obtain ⟨hFirst, hRest⟩ := hNodup
    cases i with
    | zero =>
      obtain rfl : t = s := Option.some.inj hAt
      refine .cons hHere (List.forall₂_same.mpr ?_)
      intro u hu
      refine hOther u (List.mem_cons_of_mem _ hu) ?_
      exact fun hEq => hFirst (hEq ▸ List.mem_map_of_mem hu)
    | succ i =>
      have hAt' : l[i]? = some s := hAt
      refine .cons (hOther t List.mem_cons_self ?_)
        (ih hRest hAt' hHere fun u hu => hOther u (List.mem_cons_of_mem _ hu))
      exact fun hEq => hFirst (hEq ▸ List.mem_map_of_mem (List.mem_of_getElem? hAt'))

theorem h2OnData_took {c : H2Conn} {f : H2Frame} (hDistinct : Distinct c) (hType : f.type = .data)
    (hOk : (h2OnData env c f).error = none) : List.Forall₂ (Took f) c.streams (h2OnData env c f).streams := by
  have hOther : ∀ s, f.streamId ≠ s.id → Took f s s := fun s hNe => (Alike.refl s).took (dataFor_other hNe)
  have hError : ∀ (c : H2Conn) e, ¬ (h2ConnError c e).error = none := fun c e => h2ConnError_error_ne_none c e
  rw [h2OnData] at hOk ⊢
  split at hOk
  · exact absurd hOk (hError _ _)
  rename_i hZero
  rw [if_neg hZero]
  cases hData : dataPayload f with
  | none =>
    rw [hData] at hOk
    exact absurd hOk (hError _ _)
  | some data =>
    rw [hData] at hOk
    dsimp only at hOk ⊢
    split at hOk
    · exact absurd hOk (hError _ _)
    rename_i hWindow
    rw [if_neg hWindow]
    have hStreams :
      (h2SendWindowUpdate env { c with connRecvWindow := c.connRecvWindow - f.len } 0 f.len).streams =
        c.streams := h2SendFrame_streams env _ _
    generalize h2SendWindowUpdate env { c with connRecvWindow := c.connRecvWindow - f.len } 0 f.len =
      m at hOk hStreams ⊢
    have hNodup : (m.streams.map H2Stream.id).Nodup := hStreams ▸ hDistinct.nodup
    rw [← hStreams]
    cases hFind : h2FindStream m f.streamId with
    | none =>
      rw [hFind] at hOk
      dsimp only at hOk ⊢
      split at hOk
      · exact absurd hOk (hError _ _)
      rename_i hKnown
      rw [if_neg hKnown, h2SendStreamError, h2SendFrame_streams]
      exact List.forall₂_same.mpr fun s hs => hOther s (h2FindStream_none hFind s hs).symm
    | some i =>
      obtain ⟨s, hAt, hId⟩ := h2FindStream_some hFind
      obtain ⟨g, hResult, hTook⟩ := @dataOnStream_took env m i s f data hAt hType hData hId.symm
      dsimp only
      simp only [hAt]
      rw [hResult]
      refine forall₂_modify_one hNodup hAt hTook ?_
      intro t _ hNe
      exact hOther t fun hEq => hNe (hEq.symm.trans hId.symm)

theorem handleFrame_took {c : H2Conn} {f : H2Frame} (hDistinct : Distinct c)
    (hOk : (handleFrame env c f).error = none) :
    (∃ endStream, Opened c (handleFrame env c f) f.streamId endStream ∧ Completes c f endStream) ∨
      List.Forall₂ (Took f) c.streams (handleFrame env c f).streams := by
  by_cases hData : f.type = .data
  · right
    rw [handleFrame] at hOk ⊢
    split at hOk
    · exact absurd hOk (h2ConnError_error_ne_none c _)
    rename_i hSettings
    split at hOk
    · exact absurd hOk (h2ConnError_error_ne_none c _)
    rename_i hOrder
    rw [if_neg hSettings, if_neg hOrder]
    simp only [hData] at hOk ⊢
    exact h2OnData_took hDistinct hData hOk
  have hNone : ∀ {c' : H2Conn}, Each Alike c c' → List.Forall₂ (Took f) c.streams c'.streams :=
    fun h => List.Forall₂.imp (fun s s' hAlike => hAlike.took (dataFor_of_type hData s.id)) h
  by_cases hBlock : f.type = .headers ∨ f.type = .cont
  · have hEffect : BlockEffect f c (handleFrame env c f) := by
      rw [handleFrame]
      split
      · exact BlockEffect.connError f c _
      · split
        · exact BlockEffect.connError f c _
        · obtain hType | hType := hBlock
          · simp only [hType]
            exact h2OnHeadersStart_effect hType
          · simp only [hType]
            exact h2OnCont_effect hType
    exact hEffect.streams.imp_right fun hSame => hNone (Each.same alike_lax hSame)
  · obtain ⟨hHeaders, hCont⟩ := not_or.mp hBlock
    exact .inr (hNone (handleFrame_each alike_lax c hData hHeaders hCont))

/-! ## Between two frames -/

theorem Kind.Touches.count_eq {k : Kind} {s s' : H2Stream} (h : k.Touches s s') (hk : k ≠ .base) :
    s'.id = s.id ∧ s'.reqBytes = s.reqBytes ∧ s'.reset = s.reset := by
  cases k with
  | base => exact absurd rfl hk
  | _ =>
    rw [h]
    exact ⟨rfl, rfl, rfl⟩

theorem Step.counted {k : Kind} {c c' : H2Conn} (h : Step env k c c') (hBase : k ≠ .base)
    (hOpened : k ≠ .opened) :
    ∀ s' ∈ c'.streams, ∃ s ∈ c.streams, s'.id = s.id ∧ s'.reqBytes = s.reqBytes ∧ s'.reset = s.reset := by
  have hSame : ∀ s' ∈ c.streams, ∃ s ∈ c.streams, s'.id = s.id ∧ s'.reqBytes = s.reqBytes ∧
    s'.reset = s.reset :=
    fun s' hs' => ⟨s', hs', rfl, rfl, rfl⟩
  cases h with
  | fail _ _ e =>
    rw [h2ConnError_eq]
    exact hSame
  | send _ _ f _ =>
    rw [h2SendFrame_streams]
    exact hSame
  | conn _ _ _ hChange =>
    cases k <;> rw [hChange] <;> exact hSame
  | streams _ _ l hTouch =>
    intro s' hs'
    obtain ⟨s, hs, hTouches⟩ := mem_of_forall₂ hTouch hs'
    exact ⟨s, hs, hTouches.count_eq hBase⟩
  | opened => exact absurd rfl hOpened
  | drop _ i hi =>
    intro s' hs'
    exact hSame s' (List.mem_of_mem_eraseIdx ((swapRemove_perm c.streams i hi).mem_iff.mp hs'))

theorem settle_counted (c : H2Conn) :
    ∀ s' ∈ (settle env c).streams, ∃ s ∈ c.streams, s'.id = s.id ∧ s'.reqBytes = s.reqBytes ∧
      s'.reset = s.reset := by
  refine (@settle_steps env c).preserves
    (P := fun c' => ∀ s' ∈ c'.streams, ∃ s ∈ c.streams, s'.id = s.id ∧ s'.reqBytes = s.reqBytes ∧
    s'.reset = s.reset)
    ?_ fun s hs => ⟨s, hs, rfl, rfl, rfl⟩
  intro k hk m m' hStep hm s' hs'
  obtain ⟨t, ht, hId, hBytes, hReset⟩ :=
    hStep.counted (by rintro rfl; simp at hk) (by rintro rfl; simp at hk) s' hs'
  obtain ⟨s, hs, hId', hBytes', hReset'⟩ := hm t ht
  exact ⟨s, hs, hId.trans hId', hBytes.trans hBytes', hReset.trans hReset'⟩

/-! ## Along a run -/

/-- The count of a stream is what has come for it, and nothing has come for
streams that are not open yet. The upgrade request has come otherwise. -/
structure Counted (upgrade : Option HttpRequest) (c : H2Conn) : Prop where
  bytes : ∀ s ∈ c.streams, (s.id = 1 ∧ upgrade ≠ none) ∨
    (s.reset = false → s.reqBytes = dataBytes (received c.trace) s.id)
  idle : ∀ id, c.lastStreamId < id → dataBytes (received c.trace) id = 0

theorem Counted.settle {upgrade : Option HttpRequest} {c : H2Conn} (h : Counted upgrade c) :
    Counted upgrade (settle env c) := by
  have hReceived := (@settle_steps env c).received_eq
  constructor
  · intro s' hs'
    obtain ⟨s, hs, hId, hBytes, hReset⟩ := @settle_counted env c s' hs'
    rw [hReceived, hId, hBytes, hReset]
    exact h.bytes s hs
  · rw [hReceived, settle_lastStreamId]
    exact h.idle

theorem data_known {c : H2Conn} {f : H2Frame} (hDistinct : Distinct c) (hType : f.type = .data)
    (hOk : (handleFrame env c f).error = none) : f.streamId ≤ c.lastStreamId := by
  have hError : ∀ (c : H2Conn) e, ¬ (h2ConnError c e).error = none := fun c e => h2ConnError_error_ne_none c e
  by_contra hNew
  rw [handleFrame] at hOk
  split at hOk
  · exact hError _ _ hOk
  split at hOk
  · exact hError _ _ hOk
  simp only [hType] at hOk
  rw [h2OnData] at hOk
  split at hOk
  · exact hError _ _ hOk
  split at hOk
  · exact hError _ _ hOk
  split at hOk
  · exact hError _ _ hOk
  dsimp only at hOk
  have hStreams :
    (h2SendWindowUpdate env { c with connRecvWindow := c.connRecvWindow - f.len } 0 f.len).streams =
      c.streams := h2SendFrame_streams env _ _
  have hLast :
    (h2SendWindowUpdate env { c with connRecvWindow := c.connRecvWindow - f.len } 0 f.len).lastStreamId =
      c.lastStreamId :=
    (Steps.windowUpdate 0 f.len (List.mem_singleton_self Kind.credit)).lastStreamId_eq (by simp)
  generalize h2SendWindowUpdate env { c with connRecvWindow := c.connRecvWindow - f.len } 0 f.len =
    m at hOk hStreams hLast
  split at hOk
  · split at hOk
    · exact hError _ _ hOk
    · rename_i hKnown
      exact hNew (not_lt.mp (hLast ▸ hKnown))
  · rename_i i hFind
    obtain ⟨s, hAt, hId⟩ := h2FindStream_some hFind
    have hs : s ∈ c.streams := hStreams ▸ List.mem_of_getElem? hAt
    exact hNew (hId ▸ (hDistinct.bound s hs).2)

theorem Counted.process {upgrade : Option HttpRequest} {c : H2Conn} (h : Counted upgrade c)
    (hDistinct : Distinct c)
    {f : H2Frame} (hOk : (h2ProcessFrame env c f).error = none) :
    Counted upgrade (h2ProcessFrame env c f) := by
  have hLast := (@handleFrame_effect env { c with trace := c.trace ++ [.recv f] } f).last
  have hDistinct' : Distinct { c with trace := c.trace ++ [.recv f] } := ⟨hDistinct.nodup, hDistinct.bound⟩
  have hReceived := @received_process env c f
  constructor
  · intro s' hs'
    rw [hReceived, dataBytes_concat]
    obtain ⟨e, hOpened, hCompletes⟩ | hTook := handleFrame_took hDistinct' hOk
    · obtain ⟨req, window, hStreams⟩ := hOpened.streams
      have hNot : f.type ≠ .data := by
        obtain ⟨hType, _⟩ | ⟨hType, _⟩ := hCompletes
        · rw [hType]
          nofun
        · rw [hType]
          nofun
      rw [h2ProcessFrame, hStreams] at hs'
      rw [dataFor_of_type hNot, Nat.add_zero]
      obtain hs' | hs' := List.mem_append.mp hs'
      · exact h.bytes s' hs'
      · rw [List.mem_singleton.mp hs']
        exact .inr fun _ => (h.idle f.streamId hOpened.fresh).symm
    · obtain ⟨s, hs, hOne⟩ := mem_of_forall₂ hTook hs'
      rw [hOne.id]
      refine (h.bytes s hs).imp_right fun hBytes hReset => ?_
      have hBefore : s.reset = false := by
        rw [← Bool.not_eq_true]
        intro hMarked
        rw [hOne.reset hMarked] at hReset
        cases hReset
      rw [hOne.bytes hReset, hBytes hBefore]
  · intro id hId
    rw [hReceived, dataBytes_concat, h.idle id (hLast.trans_lt hId), Nat.zero_add, dataFor]
    refine if_neg ?_
    rintro ⟨hType, rfl⟩
    have hKnown : f.streamId ≤ c.lastStreamId :=
      @data_known env { c with trace := c.trace ++ [.recv f] } f hDistinct' hType hOk
    exact absurd (hKnown.trans hLast) (not_le.mpr hId)

theorem handedOver_contentLength {s : H2Stream} {req : HttpRequest} (h : handedOver env s = some req) :
    req.contentLength = s.req.contentLength := by
  rw [handedOver] at h
  split at h
  · cases h
  split at h
  · cases h
  split at h
  · split at h
    · cases h
    · cases h
    · obtain rfl := Option.some.inj h
      rfl
  · obtain rfl := Option.some.inj h
    rfl

theorem not_endedBy_headers {frames : List H2Frame} {f : H2Frame} (hType : f.type = .data) (id : Nat) :
    ¬ EndedBy .headers (frames ++ [f]) id := by
  rintro ⟨pre, g, post, hFrames, hHeaders, _, _, hRest⟩
  have hLast : (frames ++ [f]).getLast? = some f := List.getLast?_concat
  rw [hFrames] at hLast
  cases post using List.reverseRecOn with
  | nil =>
    rw [List.getLast?_concat] at hLast
    rw [Option.some.inj hLast, hType] at hHeaders
    cases hHeaders
  | append_singleton post h _ =>
    rw [← List.cons_append, ← List.append_assoc, List.getLast?_concat] at hLast
    have hCont := hRest h (List.mem_append_right _ (List.mem_singleton_self h))
    rw [Option.some.inj hLast, hType] at hCont
    cases hCont

/-- The request of a call, its END_STREAM and its length. -/
def LengthIff (upgrade : Option HttpRequest) (call : Call) : Prop :=
  (call.id = 1 ∧ upgrade ≠ none) ∨
    (LengthKept call ↔ (EndedBy .headers (received call.trace) call.id → call.req.contentLength ≤ 0))

theorem process_length {upgrade : Option HttpRequest} {c : H2Conn} {f : H2Frame}
    (hCounted : Counted upgrade c)
    (hDistinct : Distinct c) (hServed : ∀ s ∈ c.streams, Served s) (hPending : Pending (headerView c))
    (hOk : (h2ProcessFrame env c f).error = none) : ∀ call ∈ callsOf env (h2ProcessFrame env c f),
      LengthIff upgrade call := by
  intro call hCall
  obtain ⟨_, hTrace, s', hs', hId, hReq⟩ := mem_callsOf hCall
  obtain ⟨hDispatched, hReset, hRemote⟩ := handedOver_ready hReq
  have hLength := handedOver_contentLength hReq
  have hReceived := @received_process env c f
  obtain hUpgrade | hBytes := (hCounted.process hDistinct hOk).bytes s' hs'
  · exact .inl (hId ▸ hUpgrade)
  have hBytes := hBytes hReset
  have hDistinct' : Distinct { c with trace := c.trace ++ [.recv f] } := ⟨hDistinct.nodup, hDistinct.bound⟩
  have hReady : ∀ s ∈ c.streams, s.dispatched = false → s.reset = false → s.remoteEnded = true → False := by
    intro s hs hD hR hE
    obtain h | h | h := hServed s hs
    · rw [hD] at h
      cases h
    · rw [hR] at h
      cases h
    · rw [hE] at h
      cases h
  right
  rw [LengthKept, hTrace, ← hId, ← hBytes, hLength]
  obtain ⟨e, hOpened, hCompletes⟩ | hTook := handleFrame_took hDistinct' hOk
  · obtain ⟨req, window, hStreams⟩ := hOpened.streams
    rw [h2ProcessFrame, hStreams] at hs'
    obtain hs' | hs' := List.mem_append.mp hs'
    · exact absurd hRemote (hReady s' hs' hDispatched hReset)
    · obtain rfl := List.mem_singleton.mp hs'
      have hEnded : EndedBy .headers (received (h2ProcessFrame env c f).trace) f.streamId :=
        endedBy_of_completes hPending hCompletes hRemote
      constructor
      · intro hKept _
        change req.contentLength ≤ 0
        by_contra hPositive
        have hZero : ((0 : Nat) : Int) = req.contentLength := hKept (not_le.mp hPositive).le
        omega
      · intro hNone hLow
        have hLe : req.contentLength ≤ 0 := hNone hEnded
        have hLow : 0 ≤ req.contentLength := hLow
        change ((0 : Nat) : Int) = req.contentLength
        omega
  · obtain ⟨s, hs, hOne⟩ := mem_of_forall₂ hTook hs'
    have hBefore : s.reset = false := by
      rw [← Bool.not_eq_true]
      intro hMarked
      rw [hOne.reset hMarked] at hReset
      cases hReset
    obtain hEnded | hFull := hOne.ended hReset hRemote
    · exact absurd hEnded (hReady s hs (hOne.dispatched.symm.trans hDispatched) hBefore)
    · rw [hReceived, hOne.req]
      constructor
      · intro _ hHeaders
        exact absurd hHeaders (not_endedBy_headers hFull.data _)
      · exact fun _ => hFull.full

theorem counted_start {upgrade : Option HttpRequest} {c : H2Conn} (h : h2Start env upgrade = some c) :
    Counted upgrade c := by
  have hNothing : received c.trace = [] := by
    obtain ⟨writes, events, hEq, hEvents⟩ := @prologueStart_eq env upgrade
    rw [(h2Start_steps h).received_eq, hEq]
    exact received_text hEvents
  constructor
  · intro s hs
    obtain hNone | ⟨hUpgrade, t, hOne, hId, _⟩ := h2Start_streams h
    · rw [hNone] at hs
      cases hs
    · rw [hOne] at hs
      rw [List.mem_singleton.mp hs]
      exact .inl ⟨hId, hUpgrade⟩
  · intro id _
    rw [hNothing]
    rfl

theorem LoggedRun.counted {upgrade : Option HttpRequest} {c₀ c : H2Conn} {log : List Call}
    (hStart : h2Start env upgrade = some c₀) (h : LoggedRun env c₀ log c) :
    (c.error = none → Counted upgrade c) ∧ ∀ call ∈ log, LengthIff upgrade call := by
  induction h with
  | start =>
    refine ⟨fun _ => (counted_start hStart).settle, ?_⟩
    intro call hCall
    obtain ⟨_, _, s, hs, hId, _⟩ := mem_callsOf hCall
    obtain hNone | ⟨hUpgrade, t, hOne, hIdT, _⟩ := h2Start_streams hStart
    · rw [hNone] at hs
      cases hs
    · rw [hOne] at hs
      rw [List.mem_singleton.mp hs] at hId
      exact .inl ⟨hId.symm.trans hIdT, hUpgrade⟩
  | turn hRun hOk ih =>
    obtain ⟨hCounted, hLog⟩ := ih
    refine ⟨fun _ => (hCounted hOk).settle, ?_⟩
    intro call hCall
    obtain hCall | hCall := List.mem_append.mp hCall
    · exact hLog call hCall
    · obtain ⟨_, _, s, hs, _, hReq⟩ := mem_callsOf hCall
      rw [handedOver_of_served (((hRun.table hStart).2 hOk).2 s hs)] at hReq
      cases hReq
  | frame f hRun hOk ih =>
    obtain ⟨hCounted, hLog⟩ := ih
    obtain ⟨hTable, hRest⟩ := hRun.table hStart
    obtain ⟨hPending, hServed⟩ := hRest hOk
    constructor
    · rw [frameStep]
      split
      · rename_i hNone
        exact fun _ => ((hCounted hOk).process hTable.distinct hNone).settle
      · rename_i hError
        exact fun hNone => absurd hNone hError
    · intro call hCall
      obtain hCall | hCall := List.mem_append.mp hCall
      · exact hLog call hCall
      · have hNone := (mem_callsOf hCall).1
        exact process_length (hCounted hOk) hTable.distinct hServed hPending hNone call hCall
  | behind f g _ _ hFails _ _ ih =>
    exact ⟨fun hNone => absurd (h2ProcessFrame_error g hNone) hFails.failed, ih.2⟩

/-- A request that the handler is called for has the length it says, unless it
was ended by its HEADERS frame and says more than nothing. -/
theorem content_length_iff {upgrade : Option HttpRequest} {c₀ c : H2Conn} {log : List Call}
    (hStart : h2Start env upgrade = some c₀) (h : LoggedRun env c₀ log c) :
    ∀ call ∈ log, (call.id = 1 ∧ upgrade ≠ none) ∨
      (LengthKept call ↔ (EndedBy .headers (received call.trace) call.id → call.req.contentLength ≤ 0)) :=
  (h.counted hStart).2

theorem content_length_two_requests :
    ∃ c₀ log, h2Start plainEnv none = some c₀ ∧ LoggedRun plainEnv c₀ log (plainRun plainEnv twoRequests) ∧
      (plainRun plainEnv twoRequests).calls.length = 2 ∧
        ∀ call ∈ log, (call.id = 1 ∧ (none : Option HttpRequest) ≠ none) ∨
        (LengthKept call ↔
          (EndedBy .headers (received call.trace) call.id → call.req.contentLength ≤ 0)) := by
  obtain ⟨log, hLog⟩ := (Run.start.run twoRequests : Run plainEnv (h2SendSettings plainEnv h2Init) _).logged
  exact ⟨_, log, rfl, hLog, by decide +kernel, @content_length_iff plainEnv none _ _ _ rfl hLog⟩

/-- A POST that says 5 bytes, and ends with its HEADERS frame. -/
def emptyPost : List H2Frame :=
  [⟨.settings, 0, 0, []⟩, ⟨.headers, 5, 1, [0x83, 0x86, 0x84, 0x0f, 0x0d, 0x01, 0x35]⟩]

/-- The handler is called for it. -/
theorem empty_post_called :
    ∃ c₀ log, h2Start plainEnv none = some c₀ ∧ LoggedRun plainEnv c₀ log (plainRun plainEnv emptyPost) ∧
      ∃ call ∈ log, call.req.contentLength = 5 ∧ dataBytes (received call.trace) call.id = 0 ∧
        ¬ LengthKept call := by
  obtain ⟨log, hLog⟩ : ∃ log, LoggedRun plainEnv (h2SendSettings plainEnv h2Init) log
      (plainRun plainEnv (emptyPost.take 1)) := (Run.start.run _).logged
  have hCall : ∃ call ∈ callsOf plainEnv (h2ProcessFrame plainEnv (plainRun plainEnv (emptyPost.take 1))
      ⟨.headers, 5, 1, [0x83, 0x86, 0x84, 0x0f, 0x0d, 0x01, 0x35]⟩),
      call.req.contentLength = 5 ∧ dataBytes (received call.trace) call.id = 0 := by decide +kernel
  obtain ⟨call, hMem, hLength, hBytes⟩ := hCall
  have hOk : (plainRun plainEnv (emptyPost.take 1)).error = none := by decide +kernel
  have hRun := hLog.frame ⟨.headers, 5, 1, [0x83, 0x86, 0x84, 0x0f, 0x0d, 0x01, 0x35]⟩ hOk
  rw [← plainRun_concat _ hOk] at hRun
  refine ⟨_, _, rfl, hRun, call, List.mem_append_right _ hMem, hLength, hBytes, ?_⟩
  intro hKept
  have hFive := hKept (by rw [hLength]; decide)
  rw [hBytes, hLength] at hFive
  exact absurd hFive (by decide)

end Cweb.H2
