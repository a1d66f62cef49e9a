import Cweb.Http.H2Streams
import Cweb.Http.H2Trace

/-!
# The send windows

What a client has granted is read off its WINDOW_UPDATE and SETTINGS frames and
what was used off the DATA frames written. The two windows the server keeps are
the difference at every moment of a run, and no DATA frame goes out that one of
them does not cover.
-/

namespace Cweb.H2

open SwapRemove

variable {env : H2Env}

/-- The initial window of streams after the entries of a SETTINGS payload. -/
def initAfter : Nat → Nat → Bytes → Nat
  | 0, w, _ => w
  | fuel + 1, w, p =>
    if p = [] then w else initAfter fuel (if rd16 p = 4 then rd32 (p.drop 2) else w) (p.drop 6)

def H2Frame.initWindow (w : Nat) (f : H2Frame) : Nat :=
  if f.type = .settings ∧ f.endStream = false then initAfter f.len w f.payload else w

/-- The client's initial window, `w` before its first frame. -/
def initWindow (w : Nat) (frames : List H2Frame) : Nat := frames.foldl H2Frame.initWindow w

def connWindow (trace : List Event) : Int :=
  h2InitialWindow + total (H2Frame.incrementOn 0) (received trace) - total H2Frame.dataLen (sent trace)

def streamWindow (w id : Nat) (trace : List Event) : Int :=
  initWindow w (received trace) + total (H2Frame.incrementOn id) (received trace) -
    total (H2Frame.dataLenOn id) (sent trace)

/-- Every DATA frame fitted both windows when it was sent. -/
def Paced (w : Nat) (trace : List Event) : Prop :=
  ∀ pre f post, trace = pre ++ .sent f :: post → f.type = .data → 0 < f.len →
    (f.len : Int) ≤ connWindow pre ∧ (f.len : Int) ≤ streamWindow w f.streamId pre ∧ f.len ≤ h2MaxFrameSize

/-- A producer that returns at most what it was offered. -/
def Capped (fn : List Nat → Bytes) : Prop := ∀ caps cap, (fn (caps ++ [cap])).length ≤ cap

structure SendLedger (w : Nat) (c : H2Conn) : Prop where
  conn : c.connSendWindow = connWindow c.trace
  range : 0 ≤ c.connSendWindow ∧ c.connSendWindow ≤ maxWindow
  init : c.clientInitWindow = initWindow w (received c.trace)
  streams : ∀ s ∈ c.streams, s.sendWindow = streamWindow w s.id c.trace
  unopened : ∀ id, c.lastStreamId < id →
    total (H2Frame.incrementOn id) (received c.trace) = 0 ∧ total (H2Frame.dataLenOn id) (sent c.trace) = 0
  paced : Paced w c.trace

theorem paced_append {w : Nat} {trace : List Event} (h : Paced w trace) (e : Event)
    (hLast : ∀ f, e = .sent f → f.type = .data → 0 < f.len →
      (f.len : Int) ≤ connWindow trace ∧ (f.len : Int) ≤ streamWindow w f.streamId trace ∧
        f.len ≤ h2MaxFrameSize) :
    Paced w (trace ++ [e]) := by
  intro pre f post hEq hType hPos
  obtain rfl | ⟨post, last, rfl⟩ := List.eq_nil_or_concat' post
  · obtain ⟨rfl, hEvent⟩ := List.append_inj' hEq rfl
    exact hLast f (List.singleton_inj.mp hEvent) hType hPos
  · rw [← List.cons_append, ← List.append_assoc] at hEq
    exact h pre f post (List.append_inj' hEq rfl).1 hType hPos

/-! ## Steps that neither grant nor deliver -/

theorem Kind.Touches.sendWindow_eq {k : Kind} {s s' : H2Stream} (h : k.Touches s s') (hGrant : k ≠ .grant)
    (hDeliver : k ≠ .deliver) : s'.sendWindow = s.sendWindow := by
  cases k with
  | grant => exact absurd rfl hGrant
  | deliver => exact absurd rfl hDeliver
  | _ => rw [h]

theorem Kind.Sends.ne_data {k : Kind} {c : H2Conn} {f : H2Frame} (h : k.Sends c f) (hk : k ≠ .deliver) :
    f.type ≠ .data := by
  cases k with
  | base => obtain h | h | h | h := h <;> (rw [h]; exact H2FrameType.noConfusion)
  | credit =>
    rw [h]
    exact H2FrameType.noConfusion
  | head => obtain ⟨h | h, _⟩ := h <;> (rw [h]; exact H2FrameType.noConfusion)
  | deliver => exact absurd rfl hk
  | _ => exact h.elim

theorem connWindow_sent {trace : List Event} {f : H2Frame} (h : f.type ≠ .data) :
    connWindow (trace ++ [.sent f]) = connWindow trace := by
  rw [connWindow, received_sent, sent_sent, total_append, dataLen_of_ne h, Nat.add_zero]
  rfl

theorem streamWindow_sent {trace : List Event} {f : H2Frame} (h : f.type ≠ .data) (w id : Nat) :
    streamWindow w id (trace ++ [.sent f]) = streamWindow w id trace := by
  rw [streamWindow, received_sent, sent_sent, total_append, dataLenOn_of_ne h, Nat.add_zero]
  rfl

theorem SendLedger.send {w : Nat} {c : H2Conn} {f : H2Frame} (hc : SendLedger w c) (hType : f.type ≠ .data) :
    SendLedger w (h2SendFrame env c f).1 := by
  obtain ⟨hEq, _⟩ | ⟨writes, hEq⟩ | ⟨writes, hEq⟩ := h2SendFrame_cases env c f
  · rw [hEq, h2ConnError_eq]
    exact ⟨hc.conn, hc.range, hc.init, hc.streams, hc.unopened, hc.paced⟩
  · rw [hEq]
    refine ⟨?_, hc.range, ?_, ?_, ?_, ?_⟩
    · rw [connWindow_sent hType]
      exact hc.conn
    · rw [received_sent]
      exact hc.init
    · intro s hs
      rw [streamWindow_sent hType]
      exact hc.streams s hs
    · intro id hId
      rw [received_sent, sent_sent, total_append, dataLenOn_of_ne hType]
      exact hc.unopened id hId
    · refine paced_append hc.paced _ ?_
      intro g hg hData
      obtain rfl := Event.sent.inj hg
      exact absurd hData hType
  · rw [hEq]
    exact ⟨hc.conn, hc.range, hc.init, hc.streams, hc.unopened, hc.paced⟩

theorem Step.sendLedger {w : Nat} {k : Kind} {c c' : H2Conn} (h : Step env k c c') (hGrant : k ≠ .grant)
    (hDeliver : k ≠ .deliver) (hc : SendLedger w c) : SendLedger w c' := by
  cases h with
  | fail _ _ e =>
    rw [h2ConnError_eq]
    exact ⟨hc.conn, hc.range, hc.init, hc.streams, hc.unopened, hc.paced⟩
  | send _ _ f hSends => exact hc.send (hSends.ne_data hDeliver)
  | conn _ _ _ hChange =>
    cases k with
    | grant => exact absurd rfl hGrant
    | deliver => exact absurd rfl hDeliver
    | _ =>
      rw [hChange]
      exact ⟨hc.conn, hc.range, hc.init, hc.streams, hc.unopened, hc.paced⟩
  | streams _ _ l hTouch =>
    refine ⟨hc.conn, hc.range, hc.init, ?_, hc.unopened, hc.paced⟩
    intro s' hs'
    obtain ⟨s, hs, hR⟩ := mem_of_forall₂ hTouch hs'
    rw [hR.id_eq, hR.sendWindow_eq hGrant hDeliver]
    exact hc.streams s hs
  | opened _ s hOpens =>
    obtain ⟨hNew, hFresh⟩ := hOpens
    refine ⟨hc.conn, hc.range, hc.init, ?_, ?_, hc.paced⟩
    · intro t ht
      obtain ht | ht := List.mem_append.mp ht
      · exact hc.streams t ht
      · obtain rfl := List.mem_singleton.mp ht
        obtain ⟨hGranted, hUsed⟩ := hc.unopened t.id hNew
        rw [streamWindow, hGranted, hUsed, ← hc.init, hFresh]
        simp [newStream]
    · intro id hId
      have hId : s.id < id := hId
      exact hc.unopened id (by omega)
  | drop _ i hi =>
    refine ⟨hc.conn, hc.range, hc.init, ?_, hc.unopened, hc.paced⟩
    intro s hs
    exact hc.streams s (mem_of_mem_swapRemove hi hs)

theorem Steps.sendLedger {w : Nat} {ks : List Kind} {c c' : H2Conn} (h : Steps env ks c c')
    (hGrant : Kind.grant ∉ ks)
    (hDeliver : Kind.deliver ∉ ks) (hc : SendLedger w c) : SendLedger w c' :=
  h.preserves (fun _ hMem _ _ hStep => hStep.sendLedger (fun hEq => hGrant (hEq ▸ hMem))
    (fun hEq => hDeliver (hEq ▸ hMem))) hc

end Cweb.H2
