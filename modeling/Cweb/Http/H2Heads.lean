import Cweb.Http.Producer
import Cweb.Http.H2Rides

/-!
# Heads and producers along a run

The HEADERS frame of a stream and the CONTINUATION frames behind it carry the
block of its response and nothing else, and its producer is asked for more until
it gives nothing.
-/

namespace Cweb.H2

open SwapRemove

variable {env : H2Env}

/-! ## The block of a stream -/

def ofBlock (id : Nat) (f : H2Frame) : Bool := (f.type == .headers || f.type == .cont) && f.streamId == id

def blockOf (id : Nat) (trace : List Event) : Bytes :=
  ((sent trace).filter (ofBlock id)).flatMap H2Frame.payload

theorem blockOf_sent (id : Nat) (trace : List Event) (frames : List H2Frame) :
    blockOf id (trace ++ frames.map Event.sent) = blockOf id trace ++
      (frames.filter (ofBlock id)).flatMap H2Frame.payload := by
  rw [blockOf, sent_append_map, List.filter_append, List.flatMap_append]
  rfl

theorem blockOf_sent_of_not {id : Nat} {f : H2Frame} (h : ofBlock id f = false) (trace : List Event) :
    blockOf id (trace ++ [.sent f]) = blockOf id trace := by
  have hSent := blockOf_sent id trace [f]
  rw [List.filter_cons, h, if_neg Bool.false_ne_true, List.filter_nil, List.flatMap_nil,
    List.append_nil] at hSent
  exact hSent

theorem blockOf_recv (id : Nat) (trace : List Event) (f : H2Frame) :
    blockOf id (trace ++ [.recv f]) = blockOf id trace := by
  rw [blockOf, sent_recv]
  rfl

theorem ofBlock_of_type_ne {f : H2Frame} (hHeaders : f.type ≠ .headers) (hCont : f.type ≠ .cont) (id : Nat) :
    ofBlock id f = false := by
  simp [ofBlock, hHeaders, hCont]

theorem blockOf_sendFrame {id : Nat} {f : H2Frame} (h : ofBlock id f = false) (c : H2Conn) :
    blockOf id (h2SendFrame env c f).1.trace = blockOf id c.trace := by
  obtain ⟨hEq, _⟩ | ⟨writes, hEq⟩ | ⟨writes, hEq⟩ := h2SendFrame_cases env c f
  · rw [hEq, h2ConnError_eq]
  · rw [hEq]
    exact blockOf_sent_of_not h c.trace
  · rw [hEq]

theorem Kind.Aside.not_ofBlock {k : Kind} (hk : k.Aside) {c : H2Conn} {f : H2Frame} (h : k.Sends c f)
    (id : Nat) :
    ofBlock id f = false := by
  obtain ⟨_, hHead, hDeliver, _⟩ := hk
  cases k with
  | base => obtain h | h | h | h := h <;> (apply ofBlock_of_type_ne <;> simp [h])
  | credit => apply ofBlock_of_type_ne <;> simp [show f.type = .window from h]
  | head => exact absurd rfl hHead
  | deliver => exact absurd rfl hDeliver
  | _ => exact h.elim

/-! ## A property of each stream and its block -/

/-- What holds of every stream and the block written on it; nothing is written
on a stream that was not opened. -/
structure Heading (P : H2Stream → Bytes → Prop) (c : H2Conn) : Prop where
  streams : ∀ s ∈ c.streams, P s (blockOf s.id c.trace)
  unopened : ∀ id, c.lastStreamId < id → blockOf id c.trace = []

variable {P : H2Stream → Bytes → Prop}

theorem Heading.same {c c' : H2Conn} (hc : Heading P c) (hStreams : c'.streams = c.streams)
    (hLast : c'.lastStreamId = c.lastStreamId)
    (hTrace : ∀ id, blockOf id c'.trace = blockOf id c.trace) : Heading P c' := by
  constructor
  · intro s hs
    rw [hStreams] at hs
    rw [hTrace]
    exact hc.streams s hs
  · intro id hId
    rw [hLast] at hId
    rw [hTrace]
    exact hc.unopened id hId

theorem Heading.step {k : Kind} {c c' : H2Conn} (h : Step env k c c') (hk : k.Aside)
    (hTouch : ∀ {s s' block}, k.Touches s s' → P s block → P s' block) (hOpens : ∀ {c s}, Opens c s → P s [])
    (hc : Heading P c) : Heading P c' := by
  cases h with
  | fail _ _ e =>
    exact hc.same (by rw [h2ConnError_eq]) (by rw [h2ConnError_eq]) fun id => by rw [h2ConnError_eq]
  | send _ _ f hSends =>
    exact hc.same (h2SendFrame_streams env c f) (h2SendFrame_windows c f).2 fun id =>
      blockOf_sendFrame (hk.not_ofBlock hSends id) c
  | conn _ _ _ hChange =>
    cases k <;> (rw [hChange]; exact ⟨hc.streams, hc.unopened⟩)
  | streams _ _ l hTouches =>
    refine ⟨?_, hc.unopened⟩
    intro s' hs'
    obtain ⟨s, hs, hR⟩ := mem_of_forall₂ hTouches hs'
    rw [hR.id_eq]
    exact hTouch hR (hc.streams s hs)
  | opened _ s hNew =>
    constructor
    · intro t ht
      obtain ht | ht := List.mem_append.mp ht
      · exact hc.streams t ht
      · obtain rfl := List.mem_singleton.mp ht
        rw [hc.unopened t.id hNew.1]
        exact hOpens hNew
    · intro id hId
      have hId : s.id < id := hId
      have hLater := hNew.1
      exact hc.unopened id (by omega)
  | drop _ i hi => exact ⟨fun s hs => hc.streams s (mem_of_mem_swapRemove hi hs), hc.unopened⟩

theorem Heading.replace {c c' : H2Conn} {i : Nat} {s : H2Stream} {g : H2Stream → H2Stream} (hc : Heading P c)
    (hDistinct : Distinct c) (hAt : c.streams[i]? = some s) (hStreams : c'.streams = c.streams.modify i g)
    (hId : (g s).id = s.id) (hLast : c'.lastStreamId = c.lastStreamId)
    (hOther : ∀ id, id ≠ s.id → blockOf id c'.trace = blockOf id c.trace)
    (hNew : P (g s) (blockOf s.id c'.trace)) :
    Heading P c' := by
  constructor
  · intro t ht
    rw [hStreams] at ht
    obtain rfl | ⟨ht, hNe⟩ := mem_modify hDistinct.nodup hAt ht
    · rw [hId]
      exact hNew
    · rw [hOther t.id hNe]
      exact hc.streams t ht
  · intro id hId
    rw [hLast] at hId
    have hBound := hDistinct.bound s (List.mem_of_getElem? hAt)
    rw [hOther id (by omega)]
    exact hc.unopened id hId

/-! ## Heads -/

theorem headerFrames_ofBlock (id : Nat) (endStream : Bool) (fuel : Nat) :
    ∀ first rest, ∀ f ∈ headerFrames id endStream fuel first rest, ofBlock id f = true := by
  induction fuel with
  | zero => exact fun _ _ f hf => absurd hf List.not_mem_nil
  | succ fuel ih =>
    intro first rest f hf
    rw [headerFrames] at hf
    obtain rfl | hf := List.mem_cons.mp hf
    · cases first <;> simp [ofBlock]
    · split at hf
      · exact absurd hf List.not_mem_nil
      · exact ih _ _ f hf

theorem headerFrames_payload (id : Nat) (endStream : Bool) (fuel : Nat) :
    ∀ first rest, rest.length < fuel →
      (headerFrames id endStream fuel first rest).flatMap H2Frame.payload = rest := by
  induction fuel with
  | zero => exact fun _ _ h => absurd h (Nat.not_lt_zero _)
  | succ fuel ih =>
    intro first rest hFuel
    rw [headerFrames, List.flatMap_cons]
    by_cases hLeft : rest.drop h2MaxFrameSize = []
    · rw [if_pos hLeft, if_pos hLeft, List.flatMap_nil, List.append_nil]
      have hWhole := List.take_append_drop h2MaxFrameSize rest
      rw [hLeft, List.append_nil] at hWhole
      exact hWhole
    · rw [if_neg hLeft, if_neg hLeft]
      have hPos := List.length_pos_iff.mpr hLeft
      have hCap : 0 < h2MaxFrameSize := by decide
      rw [List.length_drop] at hPos
      rw [ih false (rest.drop h2MaxFrameSize) (by rw [List.length_drop]; omega)]
      exact List.take_append_drop _ _

theorem pumpHead_block (hWrites : ∀ n, env.writeOk n = true) {c : H2Conn} (i : Nat) (s : H2Stream)
    (hOk : c.error = none) :
    (pumpHead env c i s).1.lastStreamId = c.lastStreamId ∧ ∀ id, blockOf id (pumpHead env c i s).1.trace =
      blockOf id c.trace ++ if id = s.id then responseBlock s.res (env.date c.heads) else [] := by
  obtain ⟨writes, hSend⟩ := sendFrames_of_writeOk hWrites
    (headerFrames s.id (bodyless s) ((responseBlock s.res (env.date c.heads)).length + 1) true
      (responseBlock s.res (env.date c.heads))) { c with heads := c.heads + 1 } (headerFrames_len _ _ _ _ _)
  have hBlock : h2SendHeaderBlock env { c with heads := c.heads + 1 } s.id
    (responseBlock s.res (env.date c.heads)) (bodyless s) =
      sendFrames env { c with heads := c.heads + 1 }
        (headerFrames s.id (bodyless s) ((responseBlock s.res (env.date c.heads)).length + 1) true
          (responseBlock s.res (env.date c.heads))) := by
    rw [h2SendHeaderBlock, if_neg (responseBlock_ne_nil _ _), List.append_nil]
  rw [hSend] at hBlock
  have hTrace : (pumpHead env c i s).1.trace = c.trace ++
      (headerFrames s.id (bodyless s) ((responseBlock s.res (env.date c.heads)).length + 1) true
        (responseBlock s.res (env.date c.heads))).map Event.sent ∧
      (pumpHead env c i s).1.lastStreamId = c.lastStreamId := by
    rw [pumpHead, if_neg (not_not.mpr hOk)]
    dsimp only
    rw [hBlock]
    dsimp only
    cases bodyless s with
    | true => exact ⟨rfl, rfl⟩
    | false => exact ⟨rfl, rfl⟩
  refine ⟨hTrace.2, fun id => ?_⟩
  rw [hTrace.1, blockOf_sent]
  congr 1
  split
  · rename_i hId
    rw [hId, List.filter_eq_self.mpr (headerFrames_ofBlock _ _ _ _ _)]
    exact headerFrames_payload _ _ _ _ _ (Nat.lt_succ_self _)
  · rename_i hId
    rw [List.filter_eq_nil_iff.mpr, List.flatMap_nil]
    intro f hf hOther
    have hOwn := headerFrames_ofBlock _ _ _ _ _ f hf
    simp only [ofBlock, Bool.and_eq_true, beq_iff_eq] at hOwn hOther
    exact hId (hOther.2.symm.trans hOwn.2)

/-! ## Producers -/

/-- What the producer of a stream was asked and what it gave. -/
structure Asked (s : H2Stream) : Prop where
  going : ∀ fn, s.res.streamFn = some fn → s.fnEof = false → Offered fn s.fnCaps (produced s)
  stopped : ∀ fn, s.res.streamFn = some fn → s.fnEof = true →
    ∃ caps cap, s.fnCaps = caps ++ [cap] ∧ 0 < cap ∧ cap ≤ h2MaxFrameSize ∧ Offered fn caps (produced s)

theorem produced_congr {s s' : H2Stream} (hRes : s'.res = s.res) (hCaps : s'.fnCaps = s.fnCaps) :
    produced s' = produced s := by
  rw [produced, produced, hRes, hCaps]

theorem Asked.congr {s s' : H2Stream} (h : Asked s) (hRes : s'.res = s.res) (hCaps : s'.fnCaps = s.fnCaps)
    (hEof : s'.fnEof = s.fnEof) : Asked s' := by
  constructor
  · intro fn hFn hGoing
    rw [produced_congr hRes hCaps, hCaps]
    rw [hRes] at hFn
    rw [hEof] at hGoing
    exact h.going fn hFn hGoing
  · intro fn hFn hStopped
    rw [produced_congr hRes hCaps, hCaps]
    rw [hRes] at hFn
    rw [hEof] at hStopped
    exact h.stopped fn hFn hStopped

theorem Asked.start {s : H2Stream} (hCaps : s.fnCaps = []) (hEof : s.fnEof = false) : Asked s := by
  constructor
  · intro fn _ _
    rw [produced_of_caps_nil hCaps, hCaps]
    exact .start
  · intro fn _ hStopped
    rw [hEof] at hStopped
    cases hStopped

theorem skipDrained_asked (fuel : Nat) : ∀ s : H2Stream, (skipDrained fuel s).res = s.res ∧
    (skipDrained fuel s).fnCaps = s.fnCaps ∧ (skipDrained fuel s).fnEof = s.fnEof := by
  induction fuel with
  | zero => exact fun s => ⟨rfl, rfl, rfl⟩
  | succ fuel ih =>
    intro s
    rw [skipDrained]
    split
    · exact ⟨rfl, rfl, rfl⟩
    · split
      · exact ih { s with queueI := s.queueI + 1, queueOff := 0 }
      · exact ⟨rfl, rfl, rfl⟩

theorem dataCap_bounds {room : Int} (h : 0 < room) : 0 < dataCap room ∧ dataCap room ≤ h2MaxFrameSize := by
  rw [dataCap]
  have hPos : 0 < h2MaxFrameSize := by decide
  split <;> omega

theorem nextProduced_asked {s s' : H2Stream} {fn : List Nat → Bytes} {room : Int}
    {r : Option (Bytes × Bool)} (hAsked : Asked s)
    (hFn : s.res.streamFn = some fn) (h : nextProduced s fn room = (s', r)) :
    Asked s' ∧ ∀ src, r = some (src, true) → s'.fnEof = true := by
  rw [nextProduced] at h
  split at h
  · rename_i hEof
    obtain ⟨rfl, rfl⟩ := Prod.mk.inj h
    exact ⟨hAsked, fun _ _ => hEof⟩
  · rename_i hGoing
    split at h
    · obtain ⟨rfl, rfl⟩ := Prod.mk.inj h
      refine ⟨hAsked, fun _ hNone => ?_⟩
      cases hNone
    · rename_i hRoom
      obtain ⟨hPos, hMax⟩ := dataCap_bounds (not_le.mp hRoom)
      have hOffered := hAsked.going fn hFn (Bool.not_eq_true _ ▸ hGoing)
      have hProduced : ∀ t : H2Stream, t.res = s.res → t.fnCaps = s.fnCaps ++ [dataCap room] →
          produced t = produced s ++ output fn (s.fnCaps ++ [dataCap room]) := by
        intro t hRes hCaps
        rw [produced, produced, hRes, hFn, hCaps]
        exact producedBy_append fn _ _
      dsimp only at h
      split at h
      · rename_i hDone
        obtain ⟨rfl, rfl⟩ := Prod.mk.inj h
        refine ⟨⟨fun _ _ hFalse => Bool.noConfusion hFalse, fun fn' hFn' _ => ?_⟩, fun _ _ => rfl⟩
        obtain rfl := Option.some.inj (hFn.symm.trans hFn')
        refine ⟨s.fnCaps, dataCap room, rfl, hPos, hMax, ?_⟩
        rw [hProduced { s with fnCaps := s.fnCaps ++ [dataCap room], fnEof := true } rfl rfl,
          output_eq_nil hDone, List.append_nil]
        exact hOffered
      · rename_i hMore
        obtain ⟨rfl, rfl⟩ := Prod.mk.inj h
        obtain ⟨hSome, hSmall⟩ := not_or.mp hMore
        refine ⟨⟨fun fn' hFn' _ => ?_, fun _ _ hTrue => absurd hTrue hGoing⟩, fun _ hLast => ?_⟩
        · obtain rfl := Option.some.inj (hFn.symm.trans hFn')
          rw [hProduced { s with fnCaps := s.fnCaps ++ [dataCap room] } rfl rfl, output, if_neg hSmall]
          exact hOffered.call hPos hSome
        · cases hLast

theorem h2NextData_asked {s s' : H2Stream} {room : Int} {r : Option (Bytes × Bool)} (hAsked : Asked s)
    (h : h2NextData s room = (s', r)) :
    Asked s' ∧ ∀ src, r = some (src, true) → s.res.streamFn ≠ none → s'.fnEof = true := by
  rw [h2NextData] at h
  split at h
  · dsimp only at h
    obtain ⟨hRes, hCaps, hEof⟩ := skipDrained_asked s.res.streamChunks.length s
    have hSkipped := hAsked.congr hRes hCaps hEof
    rw [← hRes]
    generalize skipDrained s.res.streamChunks.length s = t at h hRes hSkipped
    split at h
    · rename_i ch _
      rw [nextChunk] at h
      split at h
      · obtain ⟨rfl, rfl⟩ := Prod.mk.inj h
        refine ⟨hSkipped, fun _ hNone => ?_⟩
        cases hNone
      · dsimp only at h
        obtain ⟨rfl, rfl⟩ := Prod.mk.inj h
        constructor
        · split <;> exact hSkipped.congr rfl rfl rfl
        · intro src hLast hFn
          have hBoth := (Prod.mk.inj (Option.some.inj hLast)).2
          rw [Bool.and_eq_true, Option.isNone_iff_eq_none] at hBoth
          exact absurd hBoth.2 hFn
    · split at h
      · rename_i hNone
        obtain ⟨rfl, rfl⟩ := Prod.mk.inj h
        exact ⟨hSkipped, fun _ _ hFn => absurd hNone hFn⟩
      · rename_i fn hFn
        obtain ⟨hNext, hLast⟩ := nextProduced_asked hSkipped hFn h
        exact ⟨hNext, fun src hEnd _ => hLast src hEnd⟩
  · rename_i hPlain
    have hNone : s.res.streamFn = none := by
      rw [Bool.not_eq_true, HttpResponse.streaming, Bool.or_eq_false_iff] at hPlain
      exact Option.isSome_eq_false_iff.mp hPlain.1 |> Option.isNone_iff_eq_none.mp
    refine ⟨?_, fun _ _ hFn => absurd hNone hFn⟩
    rw [nextAssembled] at h
    split at h
    · obtain ⟨rfl, rfl⟩ := Prod.mk.inj h
      exact hAsked
    · split at h
      · obtain ⟨rfl, rfl⟩ := Prod.mk.inj h
        exact hAsked
      · obtain ⟨rfl, rfl⟩ := Prod.mk.inj h
        exact hAsked.congr rfl rfl rfl

/-! ## Along a run -/

/-- The head of a stream's response and the calls of its producer. -/
structure Responding (env : H2Env) (s : H2Stream) (block : Bytes) : Prop where
  waiting : s.headersSent = false → block = []
  head : s.headersSent = true → ∃ n, block = responseBlock s.res (env.date n)
  asked : Asked s
  ended : s.localEnded = true → bodyless s = false → s.res.streamFn ≠ none → s.fnEof = true

theorem Responding.touches {k : Kind} (hk : k.Aside) {s s' : H2Stream} {block : Bytes}
    (hTouch : k.Touches s s')
    (h : Responding env s block) : Responding env s' block := by
  obtain ⟨hAnswer, hHead, hDeliver, hFinish⟩ := hk
  cases k with
  | answer => exact absurd rfl hAnswer
  | head => exact absurd rfl hHead
  | deliver => exact absurd rfl hDeliver
  | finish => exact absurd rfl hFinish
  | _ =>
    rw [hTouch]
    exact ⟨h.waiting, h.head, h.asked.congr rfl rfl rfl, h.ended⟩

theorem responding_opens {c : H2Conn} {s : H2Stream} (h : Opens c s) : Responding env s [] := by
  rw [h.2]
  refine ⟨fun _ => rfl, ?_, Asked.start rfl rfl, ?_⟩
  · intro hSent
    cases hSent
  · intro hEnded
    cases hEnded

theorem Responding.answer {s t : H2Stream} {block : Bytes} {frames : List H2Frame}
    (h : Responding env s block)
    (hDelivery : Delivery s frames) (hNot : s.dispatched = false) (hTouch : Kind.answer.Touches s t) :
    Responding env t block := by
  have hSent : s.headersSent = false := by
    rw [← Bool.not_eq_true]
    intro hSent
    have hDispatched := hDelivery.ready (.inr hSent)
    rw [hNot] at hDispatched
    cases hDispatched
  obtain ⟨_, _, _, hCaps, hEof, hEnded⟩ := hDelivery.waiting hSent
  rw [hTouch]
  refine ⟨fun _ => h.waiting hSent, fun hTrue => ?_, Asked.start hCaps hEof, fun hTrue => ?_⟩
  · rw [show s.headersSent = true from hTrue] at hSent
    cases hSent
  · rw [show s.localEnded = true from hTrue] at hEnded
    cases hEnded

theorem dispatchStream_heading {c : H2Conn} (i : Nat) (hDelivering : Delivering c)
    (hc : Heading (Responding env) c) :
    Heading (Responding env) (dispatchStream env c i) := by
  rw [dispatchStream]
  split
  · exact hc
  · rename_i s hAt
    split
    · exact hc
    · rename_i hGo
      have hNot : s.dispatched = false := Bool.not_eq_true _ ▸ (not_or.mp hGo).1
      have hAnswered : ∀ {c' : H2Conn} {g : H2Stream → H2Stream}, Kind.answer.Touches s (g s) →
          c'.streams = c.streams.modify i g → c'.lastStreamId = c.lastStreamId → c'.trace = c.trace →
          Heading (Responding env) c' := by
        intro c' g hTouch hStreams hLast hTrace
        constructor
        · intro t ht
          rw [hTrace]
          rw [hStreams] at ht
          obtain ht | ⟨s', hAt', rfl⟩ := mem_of_mem_modify ht
          · exact hc.streams t ht
          · obtain rfl : s' = s := Option.some.inj (hAt'.symm.trans hAt)
            have hMem := List.mem_of_getElem? hAt
            rw [hTouch.id_eq]
            exact (hc.streams s' hMem).answer (hDelivering.streams s' hMem) hNot hTouch
        · intro id hId
          rw [hLast] at hId
          rw [hTrace]
          exact hc.unopened id hId
      have hDirect : ∀ status, Heading (Responding env) (c.modifyStream i fun s => h2DirectError s status) :=
        fun status => hAnswered (g := fun s => h2DirectError s status) rfl rfl rfl rfl
      split
      · exact hDirect 413
      · split
        · split
          · exact hDirect 400
          · exact hDirect 413
          · rename_i bytes _
            exact hAnswered (g := fun _ =>
              { s with
                body := [], req := { s.req with body := bytes }, dispatched := true, responseReady := true,
                res := env.handler (c.calls ++ [{ s.req with body := bytes }]) }) rfl rfl rfl rfl
        · exact hAnswered (g := fun _ =>
            { s with
              req := { s.req with body := s.body }, dispatched := true, responseReady := true,
              res := env.handler (c.calls ++ [{ s.req with body := s.body }]) }) rfl rfl rfl rfl

theorem pumpHead_heading (hWrites : ∀ n, env.writeOk n = true) {c : H2Conn} {i : Nat} {s : H2Stream}
    (hDelivering : Delivering c)
    (hDistinct : Distinct c) (hc : Heading (Responding env) c) (hAt : c.streams[i]? = some s)
    (hSent : s.headersSent = false)
    (hReady : s.responseReady = true) (hOk : c.error = none) :
    Heading (Responding env) (pumpHead env c i s).1 := by
  have hOld := hc.streams s (List.mem_of_getElem? hAt)
  obtain ⟨_, _, _, hCaps, hEof, _⟩ := (hDelivering.streams s (List.mem_of_getElem? hAt)).waiting hSent
  obtain ⟨_, hStreams⟩ := pumpHead_delivering hWrites hDelivering hDistinct hAt hSent hReady hOk
  obtain ⟨hLast, hBlock⟩ := @pumpHead_block env hWrites c i s hOk
  refine hc.replace hDistinct hAt hStreams ?_ hLast ?_ ?_
  · rw [headOut]
    split <;> rfl
  · intro id hId
    rw [hBlock, if_neg hId, List.append_nil]
  · rw [hBlock, if_pos rfl, hOld.waiting hSent, List.nil_append, headOut]
    split
    · rename_i hNone
      refine ⟨fun hFalse => Bool.noConfusion hFalse, fun _ => ⟨_, rfl⟩, Asked.start hCaps hEof,
        fun _ hBody => ?_⟩
      rw [show bodyless s = false from hBody] at hNone
      cases hNone
    · rename_i hBody
      obtain ⟨_, _, _, _, _, hEnded⟩ := (hDelivering.streams s (List.mem_of_getElem? hAt)).waiting hSent
      refine ⟨fun hFalse => Bool.noConfusion hFalse, fun _ => ⟨_, rfl⟩, Asked.start hCaps hEof,
        fun hTrue => ?_⟩
      rw [show s.localEnded = true from hTrue] at hEnded
      cases hEnded

theorem pumpRound_heading (hWrites : ∀ n, env.writeOk n = true) {c : H2Conn} {i : Nat} {s : H2Stream}
    (hDistinct : Distinct c) (hc : Heading (Responding env) c) (hAt : c.streams[i]? = some s)
    (hSent : s.headersSent = true)
    (hEnded : s.localEnded = false) : Heading (Responding env) (pumpRound env c i s).1 := by
  have hOld := hc.streams s (List.mem_of_getElem? hAt)
  have hMoves := h2NextData_moves s (min c.connSendWindow s.sendWindow)
  -- only the cursors move, and the end comes with the producer's
  have hNew : ∀ {t : H2Stream}, t.headersSent = s.headersSent → t.res = s.res → t.req = s.req → Asked t →
      (t.localEnded = true → s.res.streamFn ≠ none → t.fnEof = true) →
      Responding env t (blockOf s.id c.trace) := by
    intro t hSentT hRes hReq hAsked hLast
    refine ⟨fun hFalse => ?_, fun _ => ?_, hAsked, fun hTrue _ hFn => hLast hTrue (hRes ▸ hFn)⟩
    · rw [hSentT, hSent] at hFalse
      cases hFalse
    · rw [hRes]
      exact hOld.head hSent
  rw [pumpRound]
  rcases hNext : h2NextData s (min c.connSendWindow s.sendWindow) with ⟨s', _ | ⟨src, eof⟩⟩
  · rw [hNext] at hMoves
    dsimp only at hMoves ⊢
    obtain ⟨hAsked, _⟩ := h2NextData_asked hOld.asked hNext
    refine hc.replace hDistinct hAt (g := fun _ => s') rfl (by rw [hMoves]) rfl (fun _ _ => rfl) ?_
    refine hNew (by rw [hMoves]) (by rw [hMoves]) (by rw [hMoves]) hAsked fun hTrue => ?_
    rw [hMoves] at hTrue
    rw [show s.localEnded = true from hTrue] at hEnded
    cases hEnded
  · rw [hNext] at hMoves
    dsimp only at hMoves ⊢
    obtain ⟨hAsked, hEof⟩ := h2NextData_asked hOld.asked hNext
    obtain ⟨hLen, hRoom⟩ := h2NextData_length hNext
    rw [if_neg (fun hAnd => hRoom.elim hAnd.1 fun hPos => absurd hAnd.2 (not_le.mpr hPos))]
    obtain ⟨hStreams, hLastId, hTrace⟩ :=
      h2SendData_of_writeOk hWrites (c.modifyStream i fun _ => s') i s.id hLen eof
    have hModified : (h2SendData env (c.modifyStream i fun _ => s') i s.id src eof).streams =
        c.streams.modify i fun _ => dataOut src s' := by
      rw [hStreams, H2Conn.modifyStream]
      exact List.modify_modify_eq _ _ _ _
    have hBlock : ∀ id,
      blockOf id (h2SendData env (c.modifyStream i fun _ => s') i s.id src eof).trace =
      blockOf id c.trace := by
      intro id
      rw [hTrace]
      exact blockOf_sent_of_not (by apply ofBlock_of_type_ne <;> simp) _
    have hOut : Asked (dataOut src s') := hAsked.congr rfl rfl rfl
    have hSame : s'.id = s.id ∧ s'.headersSent = s.headersSent ∧ s'.res = s.res ∧ s'.req = s.req ∧
        s'.localEnded = s.localEnded := by
      rw [hMoves]
      exact ⟨rfl, rfl, rfl, rfl, rfl⟩
    obtain ⟨hId, hSentS, hRes, hReq, hEndedS⟩ := hSame
    cases eof with
    | true =>
      have hEndModified :
        ((h2SendData env (c.modifyStream i fun _ => s') i s.id src true).modifyStream i endLocal).streams =
          c.streams.modify i fun _ => endLocal (dataOut src s') := by
        rw [H2Conn.modifyStream, hModified]
        exact List.modify_modify_eq _ _ _ _
      refine hc.replace hDistinct hAt hEndModified hId hLastId (fun id _ => hBlock id) ?_
      change Responding env _
        (blockOf s.id (h2SendData env (c.modifyStream i fun _ => s') i s.id src true).trace)
      rw [hBlock]
      exact hNew hSentS hRes hReq (hOut.congr rfl rfl rfl) fun _ hFn => hEof src rfl hFn
    | false =>
      refine hc.replace hDistinct hAt hModified hId hLastId (fun id _ => hBlock id) ?_
      change Responding env _
        (blockOf s.id (h2SendData env (c.modifyStream i fun _ => s') i s.id src false).trace)
      rw [hBlock]
      refine hNew hSentS hRes hReq hOut fun hTrue => ?_
      rw [show s'.localEnded = true from hTrue] at hEndedS
      rw [hEnded] at hEndedS
      cases hEndedS

theorem heading_rides (hWrites : ∀ n, env.writeOk n = true) : Rides env (Heading (Responding env)) where
  step hStep hk hc := hc.step hStep hk (fun hTouch h => h.touches hk hTouch) responding_opens
  recv f hc := hc.same rfl rfl fun id => blockOf_recv id _ f
  dispatch i hDelivering hc := dispatchStream_heading i hDelivering hc
  head hDelivering hDistinct hc hAt hSent hReady hOk :=
    pumpHead_heading hWrites hDelivering hDistinct hc hAt hSent hReady hOk
  round _ hDistinct hc hAt hSent hEnded := pumpRound_heading hWrites hDistinct hc hAt hSent hEnded

/-- The header block of a stream and its producer where the responses have been
pumped. -/
theorem pumped_responding (hWrites : ∀ n, env.writeOk n = true) {upgrade : Option HttpRequest} {c₀ p : H2Conn}
    (hStart : h2Start env upgrade = some c₀) (hPoint : SettlePoint env c₀ p) {s : H2Stream}
    (hs : s ∈ (pumped env p).streams) :
    Responding env s (blockOf s.id (pumped env p).trace) := by
  refine ((heading_rides hWrites).settlePoint hWrites hStart ?_ hPoint).streams s hs
  obtain ⟨writes, events, hEq, hText⟩ := @prologueStart_eq env upgrade
  rw [hEq]
  refine ⟨fun s hs => absurd hs List.not_mem_nil, fun id _ => ?_⟩
  rw [blockOf, sent_text hText]
  rfl

end Cweb.H2
