import Cweb.Http.H2Body
import Cweb.Http.H2Streams
import Cweb.Http.H2Trace

/-!
# Delivery of bodies

The HEADERS and DATA frames written on a stream carry what its cursors have
passed, whatever happens on the connection in between.
-/

namespace Cweb.H2

open SwapRemove

variable {env : H2Env}

/-! ## The frames of a stream -/

def carries (id : Nat) (f : H2Frame) : Bool := (f.type == .headers || f.type == .data) && f.streamId == id

/-- The HEADERS and DATA frames written on a stream; the CONTINUATION frames
belong to the HEADERS frame before them. -/
def carried (id : Nat) (trace : List Event) : List H2Frame := (sent trace).filter (carries id)

def bodyOf (frames : List H2Frame) : Bytes := frames.flatMap fun f => if f.type = .data then f.payload else []

/-- END_STREAM is set on the last frame and on no other. -/
def EndsOnce (frames : List H2Frame) : Prop :=
  ∃ front f, frames = front ++ [f] ∧ f.endStream = true ∧ ∀ g ∈ front, g.endStream = false

theorem carried_sent (id : Nat) (trace : List Event) (f : H2Frame) :
    carried id (trace ++ [.sent f]) = carried id trace ++ if carries id f then [f] else [] := by
  rw [carried, sent_sent, List.filter_append, List.filter_cons, List.filter_nil]
  rfl

theorem carried_recv (id : Nat) (trace : List Event) (f : H2Frame) :
    carried id (trace ++ [.recv f]) = carried id trace := by
  rw [carried, sent_recv]
  rfl

theorem carried_sent_of_not {id : Nat} {f : H2Frame} (h : carries id f = false) (trace : List Event) :
    carried id (trace ++ [.sent f]) = carried id trace := by
  rw [carried_sent, h, if_neg Bool.false_ne_true, List.append_nil]

theorem carries_of_id_ne {id : Nat} {f : H2Frame} (h : f.streamId ≠ id) : carries id f = false := by
  simp [carries, h]

theorem carries_of_type_ne {f : H2Frame} (hHeaders : f.type ≠ .headers) (hData : f.type ≠ .data) (id : Nat) :
    carries id f = false := by
  simp [carries, hHeaders, hData]

theorem carried_sendFrame {id : Nat} {f : H2Frame} (h : carries id f = false) (c : H2Conn) :
    carried id (h2SendFrame env c f).1.trace = carried id c.trace := by
  obtain ⟨_, hEq | hEq⟩ := @h2SendFrame_trace env c f
  · rw [carried, hEq]
    rfl
  · rw [carried, hEq, List.filter_append, List.filter_cons, List.filter_nil, h,
      if_neg Bool.false_ne_true, List.append_nil]
    rfl

/-! ## One stream -/

structure Delivery (s : H2Stream) (frames : List H2Frame) : Prop where
  waiting : s.headersSent = false →
    frames = [] ∧ s.queueI = 0 ∧ s.queueOff = 0 ∧ s.fnCaps = [] ∧ s.fnEof = false ∧ s.localEnded = false
  ready : s.responseReady = true ∨ s.headersSent = true → s.dispatched = true
  cursor : s.headersSent = true → CursorOk s
  body : s.headersSent = true → bodyOf frames = if bodyless s then [] else taken s
  headOnly : s.headersSent = true → bodyless s = true → s.localEnded = true
  unended : s.localEnded = false → ∀ f ∈ frames, f.endStream = false
  ended : s.localEnded = true →
    bodyOf frames = entityBody s ∧ (bodyless s = false → Exhausted s) ∧ EndsOnce frames

structure Delivering (c : H2Conn) : Prop where
  streams : ∀ s ∈ c.streams, Delivery s (carried s.id c.trace)
  unopened : ∀ id, c.lastStreamId < id → carried id c.trace = []

/-- Whatever a stream has sent is a prefix of its body. -/
theorem Delivery.prefix_body {s : H2Stream} {frames : List H2Frame} (h : Delivery s frames) :
    bodyOf frames <+: entityBody s := by
  cases hSent : s.headersSent with
  | false =>
    rw [(h.waiting hSent).1]
    exact List.nil_prefix
  | true =>
    rw [h.body hSent]
    split
    · exact List.nil_prefix
    · rename_i hBody
      rw [entityBody_of_not_bodyless (Bool.not_eq_true _ ▸ hBody)]
      exact taken_prefix (h.cursor hSent)

def Kind.Aside (k : Kind) : Prop := k ≠ .answer ∧ k ≠ .head ∧ k ≠ .deliver ∧ k ≠ .finish

theorem Delivery.touches {k : Kind} (hk : k.Aside) {s s' : H2Stream} (hTouch : k.Touches s s')
    {frames : List H2Frame} (h : Delivery s frames) : Delivery s' frames := by
  obtain ⟨hAnswer, hHead, hDeliver, hFinish⟩ := hk
  have hCursor : s.headersSent = true → s.queueI ≤ s.res.streamChunks.length ∧
      (s.fnCaps ≠ [] → s.queueI = s.res.streamChunks.length) ∧
      (s.fnEof = true → s.queueI = s.res.streamChunks.length ∧ Exhausted s) :=
    fun hSent => ⟨(h.cursor hSent).queue, (h.cursor hSent).order, (h.cursor hSent).eof⟩
  cases k with
  | answer => exact absurd rfl hAnswer
  | head => exact absurd rfl hHead
  | deliver => exact absurd rfl hDeliver
  | finish => exact absurd rfl hFinish
  | _ =>
    rw [hTouch]
    exact ⟨h.waiting, h.ready, fun hSent =>
      ⟨(hCursor hSent).1, (hCursor hSent).2.1, (hCursor hSent).2.2⟩, h.body,
      h.headOnly, h.unended, h.ended⟩

theorem Kind.Aside.not_carries {k : Kind} (hk : k.Aside) {c : H2Conn} {f : H2Frame} (h : k.Sends c f)
    (id : Nat) :
    carries id f = false := by
  obtain ⟨_, hHead, hDeliver, _⟩ := hk
  cases k with
  | base => obtain h | h | h | h := h <;> (apply carries_of_type_ne <;> simp [h])
  | credit => apply carries_of_type_ne <;> simp [show f.type = .window from h]
  | head => exact absurd rfl hHead
  | deliver => exact absurd rfl hDeliver
  | _ => exact h.elim

theorem delivery_opens {c : H2Conn} {s : H2Stream} (h : Opens c s) : Delivery s [] := by
  rw [h.2]
  refine ⟨fun _ => ⟨rfl, rfl, rfl, rfl, rfl, rfl⟩, ?_, ?_, ?_, ?_, ?_, ?_⟩
  · rintro (hReady | hSent)
    · cases hReady
    · cases hSent
  · intro hSent
    cases hSent
  · intro hSent
    cases hSent
  · intro hSent
    cases hSent
  · intro _ f hf
    exact absurd hf List.not_mem_nil
  · intro hEnded
    cases hEnded

theorem Step.delivering {k : Kind} {c c' : H2Conn} (h : Step env k c c') (hk : k.Aside) (hc : Delivering c) :
    Delivering c' := by
  cases h with
  | fail _ _ e =>
    rw [h2ConnError_eq]
    exact ⟨hc.streams, hc.unopened⟩
  | send _ _ f hSends =>
    have hSame : ∀ id, carried id (h2SendFrame env c f).1.trace = carried id c.trace :=
      fun id => carried_sendFrame (hk.not_carries hSends id) c
    constructor
    · intro s hs
      rw [h2SendFrame_streams] at hs
      rw [hSame]
      exact hc.streams s hs
    · intro id hId
      rw [(h2SendFrame_windows c f).2] at hId
      rw [hSame]
      exact hc.unopened id hId
  | conn _ _ _ hChange =>
    cases k <;> (rw [hChange]; exact ⟨hc.streams, hc.unopened⟩)
  | streams _ _ l hTouch =>
    refine ⟨?_, hc.unopened⟩
    intro s' hs'
    obtain ⟨s, hs, hR⟩ := mem_of_forall₂ hTouch hs'
    rw [hR.id_eq]
    exact (hc.streams s hs).touches hk hR
  | opened _ s hOpens =>
    constructor
    · intro t ht
      obtain ht | ht := List.mem_append.mp ht
      · exact hc.streams t ht
      · obtain rfl := List.mem_singleton.mp ht
        rw [hc.unopened t.id hOpens.1]
        exact delivery_opens hOpens
    · intro id hId
      have hId : s.id < id := hId
      have hNew := hOpens.1
      exact hc.unopened id (by omega)
  | drop _ i hi => exact ⟨fun s hs => hc.streams s (mem_of_mem_swapRemove hi hs), hc.unopened⟩

theorem Steps.delivering {ks : List Kind} {c c' : H2Conn} (h : Steps env ks c c') (hk : ∀ k ∈ ks, k.Aside)
    (hc : Delivering c) : Delivering c' :=
  h.preserves (fun k hMem _ _ hStep => hStep.delivering (hk k hMem)) hc

end Cweb.H2
