import Cweb.Http.H2Delivery

/-!
# Pumping bodies

With a socket that takes everything a response is sent as one HEADERS frame and
DATA frames, and every round of the pump keeps what was delivered in step with
the cursors.
-/

namespace Cweb.H2

open SwapRemove

variable {env : H2Env}

/-! ## Answers -/

theorem Delivering.answer {c c' : H2Conn} {i : Nat} {s : H2Stream} {g : H2Stream → H2Stream}
    (hc : Delivering c)
    (hAt : c.streams[i]? = some s) (hNot : s.dispatched = false) (hTouch : Kind.answer.Touches s (g s))
    (hReady : (g s).dispatched = true) (hStreams : c'.streams = c.streams.modify i g)
    (hLast : c'.lastStreamId = c.lastStreamId) (hTrace : c'.trace = c.trace) : Delivering c' := by
  constructor
  · intro t ht
    rw [hTrace]
    rw [hStreams] at ht
    obtain ht | ⟨s', hAt', rfl⟩ := mem_of_mem_modify ht
    · exact hc.streams t ht
    · obtain rfl : s' = s := Option.some.inj (hAt'.symm.trans hAt)
      have hOld := hc.streams s' (List.mem_of_getElem? hAt)
      have hSent : s'.headersSent = false := by
        rw [← Bool.not_eq_true]
        intro hSent
        have hDispatched := hOld.ready (.inr hSent)
        rw [hNot] at hDispatched
        cases hDispatched
      have hWaiting := hOld.waiting hSent
      have hStill : (g s').headersSent = false := by rw [hTouch]; exact hSent
      have hNone : ∀ {P : Prop}, (g s').headersSent = true → P := by
        intro P hTrue
        rw [hStill] at hTrue
        cases hTrue
      rw [hTouch.id_eq]
      refine ⟨fun _ => ?_, fun _ => hReady, hNone, hNone, hNone, ?_, ?_⟩
      · rw [hTouch]
        exact hWaiting
      · intro _ f hf
        rw [hWaiting.1] at hf
        exact absurd hf List.not_mem_nil
      · intro hEnded
        rw [hTouch] at hEnded
        rw [show s'.localEnded = true from hEnded] at hWaiting
        exact Bool.noConfusion hWaiting.2.2.2.2.2
  · intro id hId
    rw [hLast] at hId
    rw [hTrace]
    exact hc.unopened id hId

theorem dispatchStream_delivering {c : H2Conn} (hc : Delivering c) (i : Nat) :
    Delivering (dispatchStream env c i) := by
  rw [dispatchStream]
  split
  · exact hc
  · rename_i s hAt
    split
    · exact hc
    · rename_i hGo
      have hNot : s.dispatched = false := Bool.not_eq_true _ ▸ (not_or.mp hGo).1
      have hDirect : ∀ status, Delivering (c.modifyStream i fun s => h2DirectError s status) :=
        fun status => hc.answer hAt hNot (g := fun s => h2DirectError s status) rfl rfl rfl rfl rfl
      split
      · exact hDirect 413
      · split
        · split
          · exact hDirect 400
          · exact hDirect 413
          · rename_i bytes _
            exact hc.answer hAt hNot (g := fun _ =>
              { s with
                body := [], req := { s.req with body := bytes }, dispatched := true, responseReady := true,
                res := env.handler (c.calls ++ [{ s.req with body := bytes }]) }) rfl rfl rfl rfl rfl
        · exact hc.answer hAt hNot (g := fun _ =>
            { s with
              req := { s.req with body := s.body }, dispatched := true, responseReady := true,
              res := env.handler (c.calls ++ [{ s.req with body := s.body }]) }) rfl rfl rfl rfl rfl

theorem dispatchFrom_delivering (left : Nat) : ∀ i c, Delivering c →
    Delivering (dispatchFrom env left i c) := by
  induction left with
  | zero => exact fun _ _ hc => hc
  | succ left ih => exact fun i c hc => ih _ _ (dispatchStream_delivering hc i)

theorem h2DispatchReady_delivering {c : H2Conn} (hc : Delivering c) : Delivering (h2DispatchReady env c) := by
  rw [h2DispatchReady]
  split
  · exact dispatchFrom_delivering _ 0 c hc
  · exact hc

/-! ## Header frames -/

theorem headerFrames_cont (id : Nat) (endStream : Bool) (fuel : Nat) :
    ∀ rest, ∀ f ∈ headerFrames id endStream fuel false rest, f.type = .cont := by
  induction fuel with
  | zero => exact fun _ f hf => absurd hf List.not_mem_nil
  | succ fuel ih =>
    intro rest f hf
    rw [headerFrames] at hf
    obtain rfl | hf := List.mem_cons.mp hf
    · rfl
    · split at hf
      · exact absurd hf List.not_mem_nil
      · exact ih _ f hf

theorem headerFrames_len (id : Nat) (endStream : Bool) (fuel : Nat) :
    ∀ first rest, ∀ f ∈ headerFrames id endStream fuel first rest, f.len ≤ h2MaxFrameSize := by
  induction fuel with
  | zero => exact fun _ _ f hf => absurd hf List.not_mem_nil
  | succ fuel ih =>
    intro first rest f hf
    rw [headerFrames] at hf
    obtain rfl | hf := List.mem_cons.mp hf
    · exact List.length_take_le _ _
    · split at hf
      · exact absurd hf List.not_mem_nil
      · exact ih _ _ f hf

/-- A block becomes one HEADERS frame that ends the stream or not, and frames
that count for nothing. -/
theorem headerFrames_carried (id : Nat) (endStream : Bool) (fuel : Nat) (blk : Bytes) :
    ∃ f, f.type = .headers ∧ f.endStream = endStream ∧ ∀ id',
      (headerFrames id endStream (fuel + 1) true blk).filter (carries id') = if id' = id then [f]
        else [] := by
  rw [headerFrames]
  refine ⟨⟨.headers, (if blk.drop h2MaxFrameSize = [] then 4 else 0) +
    (if true && endStream then 1 else 0), id,
    blk.take h2MaxFrameSize⟩, rfl, ?_, ?_⟩
  · cases endStream
    · dsimp only [H2Frame.endStream]
      split <;> rfl
    · dsimp only [H2Frame.endStream]
      split <;> rfl
  · intro id'
    have hConts : ∀ l : List H2Frame, (∀ f ∈ l, f.type = .cont) → l.filter (carries id') = [] := by
      intro l hl
      refine List.filter_eq_nil_iff.mpr ?_
      intro f hf
      rw [carries_of_type_ne] <;> simp [hl f hf]
    rw [List.filter_cons, hConts]
    · by_cases hId : id' = id
      · simp [hId, carries]
      · rw [carries_of_id_ne (fun hEq => hId (Eq.symm hEq)), if_neg Bool.false_ne_true, if_neg hId]
    · intro f hf
      split at hf
      · exact absurd hf List.not_mem_nil
      · exact headerFrames_cont _ _ _ _ f hf

theorem sendFrames_of_writeOk (hWrites : ∀ n, env.writeOk n = true) (frames : List H2Frame) :
    ∀ c, (∀ f ∈ frames, f.len ≤ h2MaxFrameSize) →
      ∃ writes, sendFrames env c frames =
        ({ c with writes := writes, trace := c.trace ++ frames.map Event.sent }, true) := by
  induction frames with
  | nil =>
    intro c _
    refine ⟨c.writes, ?_⟩
    rw [sendFrames, List.map_nil, List.append_nil]
  | cons f frames ih =>
    intro c h
    obtain ⟨writes, hEq⟩ := h2SendFrame_of_writeOk (c := c) (h f List.mem_cons_self) hWrites
    obtain ⟨writes', hRest⟩ := ih { c with writes := writes, trace := c.trace ++ [.sent f] }
      fun f hf => h f (List.mem_cons_of_mem _ hf)
    refine ⟨writes', ?_⟩
    rw [sendFrames, hEq]
    dsimp only
    rw [hRest, List.map_cons, List.append_assoc]
    rfl

theorem sent_append_map (trace : List Event) (frames : List H2Frame) :
    sent (trace ++ frames.map Event.sent) = sent trace ++ frames := by
  rw [sent, List.filterMap_append, List.filterMap_map]
  congr 1
  exact List.filterMap_some

/-! ## One stream at a time -/

theorem Delivering.replace {c c' : H2Conn} {i : Nat} {s : H2Stream} {g : H2Stream → H2Stream}
    (hc : Delivering c)
    (hDistinct : Distinct c) (hAt : c.streams[i]? = some s) (hStreams : c'.streams = c.streams.modify i g)
    (hId : (g s).id = s.id) (hLast : c'.lastStreamId = c.lastStreamId)
    (hOther : ∀ id, id ≠ s.id → carried id c'.trace = carried id c.trace)
    (hNew : Delivery (g s) (carried s.id c'.trace)) : Delivering c' := by
  constructor
  · intro t ht
    rw [hStreams] at ht
    obtain rfl | ⟨ht, hNe⟩ := mem_modify hDistinct.nodup hAt ht
    · rw [hId]
      exact hNew
    · rw [hOther t.id hNe]
      exact hc.streams t ht
  · intro id hId
    rw [hLast] at hId
    have hBound := hDistinct.bound s (List.mem_of_getElem? hAt)
    rw [hOther id (by omega)]
    exact hc.unopened id hId

theorem responseBlock_ne_nil (res : HttpResponse) (date : Bytes) : responseBlock res date ≠ [] := by
  have hStatus : ∀ status, Hpack.hpackEncodeStatus status ≠ [] := by
    intro status
    rw [Hpack.hpackEncodeStatus.eq_def]
    split <;> simp [Hpack.hpEncInt]
  rw [responseBlock]
  intro hNil
  exact hStatus _ (List.append_eq_nil_iff.mp (List.append_eq_nil_iff.mp hNil).1).1

theorem h2SendHeaderBlock_carried (hWrites : ∀ n, env.writeOk n = true) (c : H2Conn) (id : Nat) {blk : Bytes}
    (hBlk : blk ≠ []) (endStream : Bool) :
    ∃ c' f, h2SendHeaderBlock env c id blk endStream = (c', true) ∧ c'.streams = c.streams ∧
      c'.lastStreamId = c.lastStreamId ∧ f.type = .headers ∧ f.endStream = endStream ∧
      ∀ id', carried id' c'.trace = carried id' c.trace ++ if id' = id then [f] else [] := by
  obtain ⟨f, hType, hEnd, hCarried⟩ := headerFrames_carried id endStream blk.length blk
  obtain ⟨writes, hSend⟩ :=
    sendFrames_of_writeOk hWrites (headerFrames id endStream (blk.length + 1) true blk) c
    (headerFrames_len _ _ _ _ _)
  have hBlock : h2SendHeaderBlock env c id blk endStream =
      sendFrames env c (headerFrames id endStream (blk.length + 1) true blk) := by
    rw [h2SendHeaderBlock, if_neg hBlk, List.append_nil]
  refine ⟨_, f, hBlock.trans hSend, rfl, rfl, hType, hEnd, ?_⟩
  intro id'
  rw [carried, sent_append_map, List.filter_append, hCarried]
  rfl

/-- The stream once its HEADERS frame is out. -/
def headOut (last : Bool) (s : H2Stream) : H2Stream :=
  if last then endLocal { s with headersSent := true, bodyOff := 0 }
  else { s with headersSent := true, bodyOff := 0 }

theorem delivery_headOut {s : H2Stream} {f : H2Frame} (h : Delivery s []) (hSent : s.headersSent = false)
    (hReady : s.responseReady = true) (hType : f.type = .headers) (hEnd : f.endStream = bodyless s) :
    Delivery (headOut (bodyless s) s) [f] := by
  obtain ⟨_, hQueue, hOff, hCaps, hEof, hEnded⟩ := h.waiting hSent
  have hDispatched := h.ready (.inl hReady)
  have hBody : bodyOf [f] = [] := by
    simp [bodyOf, hType]
  have hTaken : taken { s with headersSent := true, bodyOff := 0 } = [] := by
    have hProduced : produced { s with headersSent := true, bodyOff := 0 } = [] := produced_of_caps_nil hCaps
    rw [taken, hProduced, hQueue, hOff]
    split
    · rw [List.take_zero, List.take_zero, List.flatten_nil, List.nil_append, List.nil_append]
    · exact List.take_zero
  have hCursor : CursorOk { s with headersSent := true, bodyOff := 0 } := by
    refine ⟨?_, fun hNe => absurd hCaps hNe, fun hTrue => ?_⟩
    · change s.queueI ≤ s.res.streamChunks.length
      omega
    · rw [show s.fnEof = true from hTrue] at hEof
      cases hEof
  cases hNone : bodyless s with
  | true =>
    change Delivery (endLocal { s with headersSent := true, bodyOff := 0 }) [f]
    refine ⟨?_, fun _ => hDispatched, fun _ => ⟨hCursor.queue, hCursor.order, hCursor.eof⟩, ?_,
      fun _ _ => rfl, ?_, ?_⟩
    · intro hFalse
      cases hFalse
    · intro _
      rw [hBody, if_pos (by exact hNone)]
    · intro hFalse
      cases hFalse
    · intro _
      refine ⟨?_, fun hFalse => ?_, [], f, rfl, hEnd.trans hNone, fun g hg => absurd hg List.not_mem_nil⟩
      · rw [hBody]
        exact (entityBody_of_bodyless hNone).symm
      · rw [show bodyless s = false from hFalse] at hNone
        cases hNone
  | false =>
    change Delivery { s with headersSent := true, bodyOff := 0 } [f]
    refine ⟨?_, fun _ => hDispatched, fun _ => hCursor, ?_, ?_, ?_, ?_⟩
    · intro hFalse
      cases hFalse
    · intro _
      rw [hBody, hTaken, ite_self]
    · intro _ hTrue
      rw [show bodyless s = true from hTrue] at hNone
      cases hNone
    · intro _ g hg
      obtain rfl := List.mem_singleton.mp hg
      exact hEnd.trans hNone
    · intro hTrue
      rw [show s.localEnded = true from hTrue] at hEnded
      cases hEnded

theorem pumpHead_delivering (hWrites : ∀ n, env.writeOk n = true) {c : H2Conn} {i : Nat} {s : H2Stream}
    (hc : Delivering c) (hDistinct : Distinct c) (hAt : c.streams[i]? = some s)
    (hSent : s.headersSent = false)
    (hReady : s.responseReady = true) (hOk : c.error = none) :
    Delivering (pumpHead env c i s).1 ∧
      (pumpHead env c i s).1.streams = c.streams.modify i (headOut (bodyless s)) := by
  have hOld := hc.streams s (List.mem_of_getElem? hAt)
  have hEmpty := (hOld.waiting hSent).1
  rw [hEmpty] at hOld
  obtain ⟨c', f, hSend, hStreams, hLast, hType, hEnd, hCarried⟩ := h2SendHeaderBlock_carried hWrites
    { c with heads := c.heads + 1 } s.id (responseBlock_ne_nil s.res (env.date c.heads)) (bodyless s)
  have hEq : pumpHead env c i s = (c'.modifyStream i (headOut (bodyless s)), true) := by
    rw [pumpHead, if_neg (not_not.mpr hOk)]
    dsimp only
    rw [hSend]
    dsimp only
    cases bodyless s with
    | true =>
      rw [if_pos rfl, H2Conn.modifyStream, H2Conn.modifyStream]
      dsimp only
      rw [List.modify_modify_eq]
      rfl
    | false => rfl
  have hModified : (pumpHead env c i s).1.streams = c.streams.modify i (headOut (bodyless s)) := by
    rw [hEq]
    dsimp only [H2Conn.modifyStream]
    rw [hStreams]
  have hTrace : ∀ id, carried id (pumpHead env c i s).1.trace = carried id c.trace ++ if id = s.id then
    [f] else [] := by
    rw [hEq]
    exact hCarried
  refine ⟨hc.replace hDistinct hAt hModified ?_ ?_ ?_ ?_, hModified⟩
  · rw [headOut]
    split <;> rfl
  · rw [hEq]
    exact hLast
  · intro id hId
    rw [hTrace, if_neg hId, List.append_nil]
  · rw [hTrace, if_pos rfl, hEmpty]
    exact delivery_headOut hOld hSent hReady hType hEnd

/-! ## One round -/

theorem Delivery.advance {s s' : H2Stream} {frames frames' : List H2Frame} (h : Delivery s frames)
    (hTouch : Kind.deliver.Touches s s') (hSent : s.headersSent = true) (hEnded : s.localEnded = false)
    (hCursor : CursorOk s') (hBody : bodyOf frames' = taken s')
    (hUnended : ∀ f ∈ frames', f.endStream = false) :
    Delivery s' frames' := by
  have hSent' : s'.headersSent = true := by
    rw [hTouch]
    exact hSent
  have hEnded' : s'.localEnded = false := by
    rw [hTouch]
    exact hEnded
  have hSame : bodyless s' = bodyless s := by
    rw [hTouch]
    rfl
  have hCarriesBody : bodyless s' = false := by
    rw [hSame, ← Bool.not_eq_true]
    intro hNone
    rw [h.headOnly hSent hNone] at hEnded
    cases hEnded
  refine ⟨?_, ?_, fun _ => hCursor, ?_, ?_, fun _ => hUnended, ?_⟩
  · intro hFalse
    rw [hSent'] at hFalse
    cases hFalse
  · intro _
    rw [hTouch]
    exact h.ready (.inr hSent)
  · intro _
    rw [hBody, hCarriesBody, if_neg Bool.false_ne_true]
  · intro _ hTrue
    rw [hCarriesBody] at hTrue
    cases hTrue
  · intro hTrue
    rw [hEnded'] at hTrue
    cases hTrue

theorem Delivery.endLocal {s : H2Stream} {frames : List H2Frame} {f : H2Frame}
    (hDispatched : s.dispatched = true) (hSent : s.headersSent = true) (hCursor : CursorOk s)
    (hCarriesBody : bodyless s = false) (hBody : bodyOf (frames ++ [f]) = taken s)
    (hFull : taken s = fullBody s)
    (hExhausted : Exhausted s) (hUnended : ∀ g ∈ frames, g.endStream = false) (hLast : f.endStream = true) :
    Delivery (endLocal s) (frames ++ [f]) := by
  refine ⟨?_, fun _ => hDispatched, fun _ => ⟨hCursor.queue, hCursor.order, hCursor.eof⟩, ?_,
    fun _ _ => rfl, ?_, ?_⟩
  · intro hFalse
    rw [show s.headersSent = false from hFalse] at hSent
    cases hSent
  · intro _
    rw [if_neg (by rw [show bodyless (H2.endLocal s) = false from hCarriesBody]; exact Bool.false_ne_true)]
    exact hBody
  · intro hFalse
    cases hFalse
  · intro _
    refine ⟨?_, fun _ => hExhausted, frames, f, rfl, hLast, hUnended⟩
    rw [hBody, hFull]
    exact (entityBody_of_not_bodyless hCarriesBody).symm

def dataOut (src : Bytes) (s : H2Stream) : H2Stream :=
  { s with sendWindow := s.sendWindow - src.length, bodySent := s.bodySent + src.length }

theorem h2SendData_of_writeOk (hWrites : ∀ n, env.writeOk n = true) (c : H2Conn) (i id : Nat) {src : Bytes}
    (hLen : src.length ≤ h2MaxFrameSize) (eof : Bool) :
    (h2SendData env c i id src eof).streams = c.streams.modify i (dataOut src) ∧
      (h2SendData env c i id src eof).lastStreamId = c.lastStreamId ∧
      (h2SendData env c i id src eof).trace = c.trace ++ [.sent ⟨.data, if eof then 1 else 0, id, src⟩] := by
  obtain ⟨writes, hEq⟩ :=
    h2SendFrame_of_writeOk (c := c) (f := ⟨.data, if eof then 1 else 0, id, src⟩) hLen hWrites
  rw [h2SendData, hEq]
  exact ⟨rfl, rfl, rfl⟩

theorem endStream_data (eof : Bool) (id : Nat) (src : Bytes) :
    H2Frame.endStream ⟨.data, if eof then 1 else 0, id, src⟩ = eof := by
  cases eof <;> (dsimp only [H2Frame.endStream]; decide)

theorem bodyOf_append_data (frames : List H2Frame) (flags : UInt8) (id : Nat) (src : Bytes) :
    bodyOf (frames ++ [⟨.data, flags, id, src⟩]) = bodyOf frames ++ src := by
  simp [bodyOf]

theorem carried_data (id : Nat) (trace : List Event) (flags : UInt8) (src : Bytes) :
    carried id (trace ++ [.sent ⟨.data, flags, id, src⟩]) = carried id trace ++
      [⟨.data, flags, id, src⟩] := by
  rw [carried_sent]
  simp [carries]

theorem pumpRound_delivering (hWrites : ∀ n, env.writeOk n = true) {c : H2Conn} {i : Nat} {s : H2Stream}
    (hc : Delivering c) (hDistinct : Distinct c) (hAt : c.streams[i]? = some s) (hSent : s.headersSent = true)
    (hEnded : s.localEnded = false) :
    Delivering (pumpRound env c i s).1 ∧
      ∃ g, (pumpRound env c i s).1.streams = c.streams.modify i g ∧ (g s).headersSent = true := by
  have hOld := hc.streams s (List.mem_of_getElem? hAt)
  have hCarriesBody : bodyless s = false := by
    rw [← Bool.not_eq_true]
    intro hNone
    rw [hOld.headOnly hSent hNone] at hEnded
    cases hEnded
  have hBodyNow : bodyOf (carried s.id c.trace) = taken s := by
    rw [hOld.body hSent, hCarriesBody, if_neg Bool.false_ne_true]
  have hMoves := h2NextData_moves s (min c.connSendWindow s.sendWindow)
  rw [pumpRound]
  rcases hNext : h2NextData s (min c.connSendWindow s.sendWindow) with ⟨s', _ | ⟨src, eof⟩⟩
  · rw [hNext] at hMoves
    dsimp only at hMoves ⊢
    obtain ⟨hTaken, hCursor⟩ := h2NextData_none (hOld.cursor hSent) hNext
    have hTouch : Kind.deliver.Touches s s' := by
      rw [Kind.Touches, hMoves]
    refine ⟨hc.replace hDistinct hAt (g := fun _ => s') rfl hTouch.id_eq rfl (fun _ _ => rfl) ?_,
      fun _ => s', rfl, ?_⟩
    · exact hOld.advance hTouch hSent hEnded hCursor (hBodyNow.trans hTaken.symm) (hOld.unended hEnded)
    · rw [hMoves]
      exact hSent
  · rw [hNext] at hMoves
    dsimp only at hMoves ⊢
    obtain ⟨hTaken, hCursor, hLast⟩ := h2NextData_taken (hOld.cursor hSent) hNext
    obtain ⟨hLen, hRoom⟩ := h2NextData_length hNext
    rw [if_neg (fun hAnd => hRoom.elim hAnd.1 fun hPos => absurd hAnd.2 (not_le.mpr hPos))]
    obtain ⟨hStreams, hLastId, hTrace⟩ :=
      h2SendData_of_writeOk hWrites (c.modifyStream i fun _ => s') i s.id hLen eof
    have hModified : (h2SendData env (c.modifyStream i fun _ => s') i s.id src eof).streams =
        c.streams.modify i fun _ => dataOut src s' := by
      rw [hStreams, H2Conn.modifyStream]
      exact List.modify_modify_eq _ _ _ _
    have hTouch : Kind.deliver.Touches s (dataOut src s') := by
      rw [Kind.Touches, dataOut, hMoves]
    have hOut : CursorOk (dataOut src s') := ⟨hCursor.queue, hCursor.order, hCursor.eof⟩
    have hFrames : carried s.id (h2SendData env (c.modifyStream i fun _ => s') i s.id src eof).trace =
        carried s.id c.trace ++ [⟨.data, if eof then 1 else 0, s.id, src⟩] := by
      rw [hTrace]
      exact carried_data _ _ _ _
    have hOther : ∀ id, id ≠ s.id →
        carried id (h2SendData env (c.modifyStream i fun _ => s') i s.id src eof).trace =
        carried id c.trace := by
      intro id hNe
      rw [hTrace]
      exact carried_sent_of_not (carries_of_id_ne hNe.symm) _
    have hBody : bodyOf (carried s.id c.trace ++ [⟨.data, if eof then 1 else 0, s.id, src⟩]) = taken
      (dataOut src s') := by
      rw [bodyOf_append_data, hBodyNow, ← hTaken]
      rfl
    have hStill : (dataOut src s').headersSent = true := by
      rw [hTouch]
      exact hSent
    cases eof with
    | true =>
      have hEndModified :
        ((h2SendData env (c.modifyStream i fun _ => s') i s.id src true).modifyStream i endLocal).streams =
          c.streams.modify i fun _ => endLocal (dataOut src s') := by
        rw [H2Conn.modifyStream, hModified]
        exact List.modify_modify_eq _ _ _ _
      refine ⟨hc.replace hDistinct hAt hEndModified hTouch.id_eq hLastId hOther ?_, _, hEndModified, hStill⟩
      change Delivery _ (carried s.id (h2SendData env (c.modifyStream i fun _ => s') i s.id src true).trace)
      rw [hFrames]
      refine Delivery.endLocal ?_ hStill hOut ?_ hBody (hLast rfl).1 (hLast rfl).2 (hOld.unended hEnded)
        (endStream_data true _ _)
      · rw [hTouch]
        exact hOld.ready (.inr hSent)
      · rw [hTouch]
        exact hCarriesBody
    | false =>
      refine ⟨hc.replace hDistinct hAt hModified hTouch.id_eq hLastId hOther ?_, _, hModified, hStill⟩
      change Delivery _ (carried s.id (h2SendData env (c.modifyStream i fun _ => s') i s.id src false).trace)
      rw [hFrames]
      refine hOld.advance hTouch hSent hEnded hOut hBody ?_
      intro f hf
      obtain hf | hf := List.mem_append.mp hf
      · exact hOld.unended hEnded f hf
      · obtain rfl := List.mem_singleton.mp hf
        exact endStream_data false _ _

/-! ## The loop ends by itself -/

/-- A round after which the loop goes on has used up part of the window, or
ended the connection. -/
theorem pumpRound_uses {c c' : H2Conn} {i : Nat} {s : H2Stream} (h : pumpRound env c i s = (c', true)) :
    c'.error ≠ none ∨ c'.connSendWindow.toNat < c.connSendWindow.toNat := by
  rw [pumpRound] at h
  rcases hNext : h2NextData s (min c.connSendWindow s.sendWindow) with ⟨s', _ | ⟨src, eof⟩⟩
  · rw [hNext] at h
    cases h
  · obtain ⟨_, hRoom⟩ := h2NextData_length hNext
    rw [hNext] at h
    dsimp only at h
    split at h
    · cases h
    · cases eof with
      | true => cases h
      | false =>
        have hSome := h2NextData_progress hNext
        have hPos := List.length_pos_iff.mpr hSome
        have hWindow := hRoom.resolve_left hSome
        obtain rfl := (Prod.mk.inj h).1
        rw [h2SendData]
        split
        · exact .inl (h2ConnError_error_ne_none _ _)
        · rename_i c'' hSend
          have hSame : c''.connSendWindow = c.connSendWindow := by
            obtain ⟨hEq, _⟩ | ⟨writes, hEq⟩ | ⟨writes, hEq⟩ :=
              h2SendFrame_cases env (c.modifyStream i fun _ => s') ⟨.data, if false then 1 else 0, s.id, src⟩
            · rw [hEq] at hSend
              cases hSend
            · rw [hEq] at hSend
              obtain rfl := (Prod.mk.inj hSend).1
              rfl
            · rw [hEq] at hSend
              cases hSend
          right
          dsimp only
          rw [hSame]
          omega

end Cweb.H2
