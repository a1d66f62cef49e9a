import Cweb.Http.H2Streams
import Cweb.Http.H2Trace

/-!
# The receive windows

DATA uses up the connection's window and its stream's, and for each frame the
server announces the same credit again. The announcements are not added to the
windows it checks, so these only ever fall and agree with the announced credit
while no DATA frame has carried a byte.
-/

namespace Cweb.H2

open SwapRemove

variable {env : H2Env}

/-- What the client may still send on the connection: the initial window and
the announced increments less the DATA received. -/
def connCredit (trace : List Event) : Int :=
  h2InitialWindow + total (H2Frame.incrementOn 0) (sent trace) - total H2Frame.dataLen (received trace)

def streamCredit (id : Nat) (trace : List Event) : Int :=
  h2InitialWindow + total (H2Frame.incrementOn id) (sent trace) - total (H2Frame.dataLenOn id)
    (received trace)

/-- The windows the server checks are the credit it announced. -/
structure Balanced (c : H2Conn) : Prop where
  conn : c.connRecvWindow = connCredit c.trace
  streams : ∀ s ∈ c.streams, s.recvWindow = streamCredit s.id c.trace

/-! ## The windows as they are -/

structure ConnSpent (env : H2Env) (c : H2Conn) : Prop where
  window : c.connRecvWindow = h2InitialWindow - total H2Frame.dataLen (received c.trace)
  nonneg : 0 ≤ c.connRecvWindow
  credit : total (H2Frame.incrementOn 0) (sent c.trace) ≤ total H2Frame.dataLen (received c.trace)
  announced : (∀ n, env.writeOk n = true) →
    total (H2Frame.incrementOn 0) (sent c.trace) = total H2Frame.dataLen (received c.trace)

structure StreamsSpent (c : H2Conn) : Prop where
  window : ∀ s ∈ c.streams, s.recvWindow = h2InitialWindow - total (H2Frame.dataLenOn s.id) (received c.trace)
  unopened : ∀ id, c.lastStreamId < id → total (H2Frame.dataLenOn id) (received c.trace) = 0
  credit : ∀ id, id ≠ 0 →
    total (H2Frame.incrementOn id) (sent c.trace) ≤ total (H2Frame.dataLenOn id) (received c.trace)

theorem Kind.Touches.recvWindow_eq {k : Kind} {s s' : H2Stream} (h : k.Touches s s') (hk : k ≠ .credit) :
    s'.recvWindow = s.recvWindow := by
  cases k with
  | credit => exact absurd rfl hk
  | _ => rw [h]

theorem Kind.Sends.ne_window {k : Kind} {c : H2Conn} {f : H2Frame} (h : k.Sends c f) (hk : k ≠ .credit) :
    f.type ≠ .window := by
  cases k with
  | base => obtain h | h | h | h := h <;> (rw [h]; exact H2FrameType.noConfusion)
  | head => obtain ⟨h | h, _⟩ := h <;> (rw [h]; exact H2FrameType.noConfusion)
  | deliver =>
    rw [h.1]
    exact H2FrameType.noConfusion
  | credit => exact absurd rfl hk
  | _ => exact h.elim

theorem ConnSpent.congr {c c' : H2Conn} (h : ConnSpent env c) (hWindow : c'.connRecvWindow = c.connRecvWindow)
    (hReceived : received c'.trace = received c.trace)
    (hSent : total (H2Frame.incrementOn 0) (sent c'.trace) = total (H2Frame.incrementOn 0) (sent c.trace)) :
    ConnSpent env c' := by
  obtain ⟨hEq, hNonneg, hCredit, hAnnounced⟩ := h
  rw [← hWindow, ← hReceived] at hEq
  rw [← hWindow] at hNonneg
  rw [← hSent, ← hReceived] at hCredit hAnnounced
  exact ⟨hEq, hNonneg, hCredit, hAnnounced⟩

theorem h2SendFrame_increments (c : H2Conn) (f : H2Frame) (id : Nat) (h : f.incrementOn id = 0) :
    total (H2Frame.incrementOn id) (sent (h2SendFrame env c f).1.trace) =
      total (H2Frame.incrementOn id) (sent c.trace) := by
  obtain ⟨_, hEq | hEq⟩ := @h2SendFrame_trace env c f
  · rw [hEq]
  · rw [hEq, total_append, h, Nat.add_zero]

theorem Step.connSpent {k : Kind} {c c' : H2Conn} (h : Step env k c c') (hk : k ≠ .credit)
    (hc : ConnSpent env c) :
    ConnSpent env c' := by
  cases h with
  | fail _ _ e =>
    rw [h2ConnError_eq]
    exact hc.congr rfl rfl rfl
  | send _ _ f hSends =>
    exact hc.congr (h2SendFrame_windows c f).1 (h2SendFrame_trace c f).1
      (h2SendFrame_increments c f 0 (incrementOn_of_ne (hSends.ne_window hk) 0))
  | conn _ _ _ hChange =>
    cases k with
    | credit => exact absurd rfl hk
    | _ =>
      rw [hChange]
      exact hc.congr rfl rfl rfl
  | streams => exact hc.congr rfl rfl rfl
  | opened => exact hc.congr rfl rfl rfl
  | drop => exact hc.congr rfl rfl rfl

theorem StreamsSpent.congr {c c' : H2Conn} (h : StreamsSpent c)
    (hWindow : ∀ s' ∈ c'.streams, ∃ s ∈ c.streams, s'.id = s.id ∧ s'.recvWindow = s.recvWindow)
    (hLast : c'.lastStreamId = c.lastStreamId) (hReceived : received c'.trace = received c.trace)
    (hSent : ∀ id, total (H2Frame.incrementOn id) (sent c'.trace) = total (H2Frame.incrementOn id)
      (sent c.trace)) :
    StreamsSpent c' := by
  refine ⟨?_, ?_, ?_⟩
  · intro s' hs'
    obtain ⟨s, hs, hId, hEq⟩ := hWindow s' hs'
    rw [hReceived, hId, hEq]
    exact h.window s hs
  · intro id hId
    rw [hLast] at hId
    rw [hReceived]
    exact h.unopened id hId
  · intro id hId
    rw [hReceived, hSent]
    exact h.credit id hId

theorem Step.streamsSpent {k : Kind} {c c' : H2Conn} (h : Step env k c c') (hk : k ≠ .credit)
    (hc : StreamsSpent c) : StreamsSpent c' := by
  have hSame : ∀ s ∈ c.streams, ∃ t ∈ c.streams, s.id = t.id ∧ s.recvWindow = t.recvWindow :=
    fun s hs => ⟨s, hs, rfl, rfl⟩
  cases h with
  | fail _ _ e =>
    rw [h2ConnError_eq]
    exact hc.congr hSame rfl rfl fun _ => rfl
  | send _ _ f hSends =>
    refine hc.congr ?_ (h2SendFrame_windows c f).2 (h2SendFrame_trace c f).1 ?_
    · rw [h2SendFrame_streams]
      exact hSame
    · exact fun id => h2SendFrame_increments c f id (incrementOn_of_ne (hSends.ne_window hk) id)
  | conn _ _ _ hChange =>
    cases k with
    | credit => exact absurd rfl hk
    | _ =>
      rw [hChange]
      exact hc.congr hSame rfl rfl fun _ => rfl
  | streams _ _ l hTouch =>
    refine hc.congr ?_ rfl rfl fun _ => rfl
    intro s' hs'
    obtain ⟨s, hs, hR⟩ := mem_of_forall₂ hTouch hs'
    exact ⟨s, hs, hR.id_eq, hR.recvWindow_eq hk⟩
  | opened _ s hOpens =>
    obtain ⟨hNew, hFresh⟩ := hOpens
    refine ⟨?_, ?_, hc.credit⟩
    · intro t ht
      obtain ht | ht := List.mem_append.mp ht
      · exact hc.window t ht
      · obtain rfl := List.mem_singleton.mp ht
        rw [hc.unopened t.id hNew, hFresh]
        rfl
    · intro id hId
      have hId : s.id < id := hId
      exact hc.unopened id (by omega)
  | drop _ i hi =>
    refine hc.congr ?_ rfl rfl fun _ => rfl
    intro s hs
    exact hSame s (mem_of_mem_swapRemove hi hs)

theorem Steps.connSpent {ks : List Kind} {c c' : H2Conn} (h : Steps env ks c c') (hk : Kind.credit ∉ ks)
    (hc : ConnSpent env c) : ConnSpent env c' :=
  h.preserves (fun _ hMem _ _ hStep => hStep.connSpent fun hEq => hk (hEq ▸ hMem)) hc

theorem Steps.streamsSpent {ks : List Kind} {c c' : H2Conn} (h : Steps env ks c c') (hk : Kind.credit ∉ ks)
    (hc : StreamsSpent c) : StreamsSpent c' :=
  h.preserves (fun _ hMem _ _ hStep => hStep.streamsSpent fun hEq => hk (hEq ▸ hMem)) hc

/-! ## A DATA frame -/

theorem connSpent_take {c : H2Conn} {f : H2Frame} (hType : f.type = .data) (hc : ConnSpent env c)
    (hFits : ¬ c.connRecvWindow % 2 ^ 64 < f.len) :
    ConnSpent env (h2SendWindowUpdate env
      { c with connRecvWindow := c.connRecvWindow - f.len, trace := c.trace ++ [.recv f] } 0 f.len) := by
  obtain ⟨hWindow, hNonneg, hCredit, hAnnounced⟩ := hc
  rw [h2InitialWindow] at hWindow
  have hLen : f.dataLen = f.len := if_pos hType
  have hFrame : H2Frame.incrementOn 0 ⟨.window, 0, 0, wr32 f.len⟩ = f.len := by
    rw [incrementOn_windowUpdate, if_pos rfl]
    omega
  have hReceived := (@h2SendFrame_trace env
    { c with connRecvWindow := c.connRecvWindow - f.len, trace := c.trace ++ [.recv f] }
    ⟨.window, 0, 0, wr32 f.len⟩).1
  rw [received_recv] at hReceived
  refine ⟨?_, ?_, ?_, ?_⟩
  · rw [h2SendWindowUpdate, (h2SendFrame_windows _ _).1, hReceived, total_append, hLen, h2InitialWindow]
    dsimp only
    omega
  · rw [h2SendWindowUpdate, (h2SendFrame_windows _ _).1]
    dsimp only
    omega
  · rw [h2SendWindowUpdate, hReceived, total_append, hLen]
    obtain hSent | hSent := (h2SendFrame_trace _ _).2
    · rw [hSent, sent_recv]
      omega
    · rw [hSent, total_append, hFrame, sent_recv]
      omega
  · intro hWrites
    rw [h2SendWindowUpdate, hReceived, total_append, hLen, ← hAnnounced hWrites]
    obtain ⟨writes, hEq⟩ := h2SendFrame_of_writeOk
      (c := { c with connRecvWindow := c.connRecvWindow - f.len, trace := c.trace ++ [.recv f] })
      (f := ⟨.window, 0, 0, wr32 f.len⟩) (by simp [H2Frame.len, wr32, h2MaxFrameSize]) hWrites
    rw [hEq]
    dsimp only
    rw [sent_sent, total_append, hFrame, sent_recv]

theorem dataOnStream_connSpent {c : H2Conn} {i : Nat} {s : H2Stream} {f : H2Frame} {data : Bytes}
    (hId : s.id ≠ 0)
    (hc : ConnSpent env c) : ConnSpent env (dataOnStream env c i s f data) := by
  have hWindow : ConnSpent env (c.modifyStream i fun s => { s with recvWindow := s.recvWindow - f.len }) :=
    hc.congr rfl rfl rfl
  rw [dataOnStream]
  split
  · exact hc
  · dsimp only
    split
    · exact ((Steps.streamError _ _ (by simp)).trans
        (Steps.modify .base (by simp) (by intro s _; rfl)) : Steps env [.base] _ _).connSpent
          (by simp) hWindow
    · refine (dataBody_steps _ i s f data).connSpent (by simp) ?_
      refine hWindow.congr (h2SendFrame_windows _ _).1 (h2SendFrame_trace _ _).1
        (h2SendFrame_increments _ _ 0 ?_)
      rw [incrementOn_windowUpdate, if_neg hId]

/-- The streams' part of a DATA frame: its stream pays for it and is given as
much credit at most. -/
theorem StreamsSpent.data {c c' : H2Conn} {f : H2Frame} (hc : StreamsSpent c)
    (hKnown : f.streamId ≤ c.lastStreamId)
    (hReceived : received c'.trace = received c.trace ++ [f]) (hLast : c'.lastStreamId = c.lastStreamId)
    (hWindow : ∀ t ∈ c'.streams, ∃ s ∈ c.streams, t.id = s.id ∧
      t.recvWindow = s.recvWindow - f.dataLenOn t.id)
    (hSent : ∀ id, id ≠ 0 → total (H2Frame.incrementOn id) (sent c'.trace) ≤
      total (H2Frame.incrementOn id) (sent c.trace) + f.dataLenOn id) : StreamsSpent c' := by
  refine ⟨?_, ?_, ?_⟩
  · intro t ht
    obtain ⟨s, hs, hId, hEq⟩ := hWindow t ht
    have hOld := hc.window s hs
    rw [hReceived, total_append, hEq, hOld, hId]
    push_cast
    omega
  · intro id hId
    rw [hLast] at hId
    rw [hReceived, total_append, hc.unopened id hId, H2Frame.dataLenOn, if_neg]
    omega
  · intro id hId
    have hOld := hc.credit id hId
    have hNew := hSent id hId
    rw [hReceived, total_append]
    omega

theorem dataOnStream_streamsSpent {c t : H2Conn} {i : Nat} {s : H2Stream} {f : H2Frame} {data : Bytes}
    (hType : f.type = .data) (hc : StreamsSpent c) (hDistinct : Distinct c) (hAt : c.streams[i]? = some s)
    (hId : s.id = f.streamId) (hLive : s.reset = false) (hStreams : t.streams = c.streams)
    (hLast : t.lastStreamId = c.lastStreamId) (hReceived : received t.trace = received c.trace ++ [f])
    (hSent : ∀ id, id ≠ 0 → total (H2Frame.incrementOn id) (sent t.trace) =
      total (H2Frame.incrementOn id) (sent c.trace)) : StreamsSpent (dataOnStream env t i s f data) := by
  have hOn : f.dataLenOn s.id = f.len := if_pos ⟨hType, hId.symm⟩
  have hKnown : f.streamId ≤ c.lastStreamId := hId ▸ (hDistinct.bound s (List.mem_of_getElem? hAt)).2
  have hWindow : ∀ u ∈ (t.modifyStream i fun s => { s with recvWindow := s.recvWindow - f.len }).streams,
      ∃ s ∈ c.streams, u.id = s.id ∧ u.recvWindow = s.recvWindow - f.dataLenOn u.id := by
    intro u hu
    rw [H2Conn.modifyStream, hStreams] at hu
    obtain rfl | ⟨hu, hNe⟩ := mem_modify hDistinct.nodup hAt hu
    · refine ⟨s, List.mem_of_getElem? hAt, rfl, ?_⟩
      change s.recvWindow - f.len = s.recvWindow - f.dataLenOn s.id
      rw [hOn]
    · refine ⟨u, hu, rfl, ?_⟩
      rw [H2Frame.dataLenOn, if_neg (fun hAnd => hNe (hAnd.2.symm.trans hId.symm))]
      simp
  rw [dataOnStream, if_neg (by rw [hLive]; exact Bool.false_ne_true)]
  dsimp only
  split
  · refine ((Steps.streamError _ _ (by simp)).trans
      (Steps.modify .base (by simp) (by intro s _; rfl)) : Steps env [.base] _ _).streamsSpent (by simp) ?_
    refine hc.data hKnown hReceived hLast hWindow ?_
    intro id hPos
    exact (hSent id hPos).le.trans (Nat.le_add_right _ _)
  · refine (dataBody_steps _ i s f data).streamsSpent (by simp) ?_
    refine hc.data hKnown ((h2SendFrame_trace _ _).1.trans hReceived)
      ((h2SendFrame_windows _ _).2.trans hLast) ?_ ?_
    · rw [h2SendWindowUpdate, h2SendFrame_streams]
      exact hWindow
    · intro id hPos
      rw [h2SendWindowUpdate, ← hSent id hPos]
      obtain hEq | hEq := (h2SendFrame_trace _ _).2
      · rw [hEq]
        exact Nat.le_add_right _ _
      · rw [hEq, total_append, incrementOn_windowUpdate]
        refine Nat.add_le_add_left ?_ _
        split
        · rename_i hSame
          rw [← hSame, hOn]
          exact Nat.mod_le _ _
        · exact Nat.zero_le _

/-- The windows of the connection and of every stream. -/
structure Spent (env : H2Env) (c : H2Conn) : Prop where
  conn : ConnSpent env c
  streams : StreamsSpent c

theorem Steps.spent {ks : List Kind} {c c' : H2Conn} (h : Steps env ks c c') (hk : Kind.credit ∉ ks)
    (hc : Spent env c) : Spent env c' :=
  ⟨h.connSpent hk hc.conn, h.streamsSpent hk hc.streams⟩

theorem h2OnData_spent {c c' : H2Conn} {f : H2Frame} (hType : f.type = .data) (hc : Spent env c)
    (hDistinct : Distinct c) (hLive : ∀ s ∈ c.streams, s.reset = false)
    (h : h2OnData env { c with trace := c.trace ++ [.recv f] } f = c') (hOk : c'.error = none) :
    Spent env c' := by
  rw [h2OnData] at h
  split at h
  · subst h
    exact absurd hOk (h2ConnError_error_ne_none _ _)
  · rename_i hId
    split at h
    · subst h
      exact absurd hOk (h2ConnError_error_ne_none _ _)
    · rename_i data _
      split at h
      · subst h
        exact absurd hOk (h2ConnError_error_ne_none _ _)
      · rename_i hFits
        dsimp only at h
        have hConn := connSpent_take hType hc.conn hFits
        have hStreams : (h2SendWindowUpdate env
            { c with connRecvWindow := c.connRecvWindow - f.len, trace :=
            c.trace ++ [.recv f] } 0 f.len).streams =
            c.streams := h2SendFrame_streams _ _ _
        have hLast : (h2SendWindowUpdate env
            { c with connRecvWindow := c.connRecvWindow - f.len, trace :=
            c.trace ++ [.recv f] } 0 f.len).lastStreamId =
            c.lastStreamId := (h2SendFrame_windows _ _).2
        have hReceived : received (h2SendWindowUpdate env
            { c with connRecvWindow := c.connRecvWindow - f.len, trace :=
            c.trace ++ [.recv f] } 0 f.len).trace =
            received c.trace ++ [f] := (h2SendFrame_trace _ _).1.trans (received_recv _ _)
        have hSent : ∀ id, id ≠ 0 → total (H2Frame.incrementOn id) (sent (h2SendWindowUpdate env
            { c with connRecvWindow := c.connRecvWindow - f.len, trace :=
            c.trace ++ [.recv f] } 0 f.len).trace) =
            total (H2Frame.incrementOn id) (sent c.trace) := by
          intro id hPos
          rw [h2SendWindowUpdate, h2SendFrame_increments _ _ id, sent_recv]
          rw [incrementOn_windowUpdate, if_neg (fun hEq => hPos hEq.symm)]
        generalize h2SendWindowUpdate env
          { c with connRecvWindow := c.connRecvWindow - f.len, trace := c.trace ++ [.recv f] } 0 f.len = t
          at h hConn hStreams hLast hReceived hSent
        split at h
        · rename_i hNone
          split at h
          · subst h
            exact absurd hOk (h2ConnError_error_ne_none _ _)
          · rename_i hKnown
            subst h
            refine (Steps.streamError _ _ (by simp) : Steps env [.base] _ _).spent (by simp) ⟨hConn, ?_⟩
            refine hc.streams.data (by omega) hReceived hLast ?_ ?_
            · intro s hs
              have hNe := h2FindStream_none hNone s hs
              refine ⟨s, hStreams ▸ hs, rfl, ?_⟩
              rw [H2Frame.dataLenOn, if_neg (fun hAnd => hNe hAnd.2.symm)]
              simp
            · exact fun id hPos => (hSent id hPos).le.trans (Nat.le_add_right _ _)
        · rename_i i hFound
          obtain ⟨s, hAt, hSame⟩ := h2FindStream_some hFound
          rw [hAt] at h
          dsimp only at h
          subst h
          rw [hStreams] at hAt
          refine ⟨dataOnStream_connSpent (hSame ▸ hId) hConn, ?_⟩
          exact dataOnStream_streamsSpent hType hc.streams hDistinct hAt hSame
            (hLive s (List.mem_of_getElem? hAt)) hStreams hLast hReceived hSent

/-! ## Along a run -/

theorem Spent.recv {c : H2Conn} (hc : Spent env c) {f : H2Frame} (hType : f.type ≠ .data) :
    Spent env { c with trace := c.trace ++ [.recv f] } := by
  obtain ⟨⟨hWindow, hNonneg, hCredit, hAnnounced⟩, hStreams, hUnopened, hStreamCredit⟩ := hc
  have hConn : total H2Frame.dataLen (received (c.trace ++ [.recv f])) = total H2Frame.dataLen
    (received c.trace) := by
    rw [received_recv, total_append, dataLen_of_ne hType, Nat.add_zero]
  have hOn : ∀ id, total (H2Frame.dataLenOn id) (received (c.trace ++ [.recv f])) =
      total (H2Frame.dataLenOn id) (received c.trace) := by
    intro id
    rw [received_recv, total_append, dataLenOn_of_ne hType, Nat.add_zero]
  refine ⟨⟨?_, hNonneg, ?_, ?_⟩, ?_, ?_, ?_⟩
  · rw [hConn]
    exact hWindow
  · rw [hConn, sent_recv]
    exact hCredit
  · rw [hConn, sent_recv]
    exact hAnnounced
  · intro s hs
    rw [hOn]
    exact hStreams s hs
  · intro id hId
    rw [hOn]
    exact hUnopened id hId
  · intro id hId
    rw [hOn, sent_recv]
    exact hStreamCredit id hId

theorem handled_spent {c c' : H2Conn} {f : H2Frame} (hSettled : Settled c) (hc : Spent env c)
    (h : Handled env { c with trace := c.trace ++ [.recv f] } f c') (hOk : c'.error = none) :
    Spent env c' := by
  have hRecv : f.type ≠ .data → Spent env { c with trace := c.trace ++ [.recv f] } := hc.recv
  cases h with
  | data hType => exact h2OnData_spent hType hc hSettled.distinct hSettled.not_reset rfl hOk
  | headers hType => exact (h2OnHeadersStart_steps _ f).spent (by simp) (hRecv (by simp [hType]))
  | cont hType => exact (h2OnCont_steps _ f).spent (by simp) (hRecv (by simp [hType]))
  | priority hType => exact (h2OnPriority_steps _ f).spent (by simp) (hRecv (by simp [hType]))
  | rst hType => exact (h2OnRst_steps _ f).spent (by simp) (hRecv (by simp [hType]))
  | settings hType => exact (h2OnSettings_steps _ f).spent (by simp) (hRecv (by simp [hType]))
  | ping hType => exact (h2OnPing_steps _ f).spent (by simp) (hRecv (by simp [hType]))
  | goaway hType => exact (h2OnGoaway_steps _ f).spent (by simp) (hRecv (by simp [hType]))
  | window hType => exact (h2OnWindow_steps _ f).spent (by simp) (hRecv (by simp [hType]))
  | unknown code hType => exact hRecv (by simp [hType])

theorem spent_start {upgrade : Option HttpRequest} {c : H2Conn} (h : h2Start env upgrade = some c) :
    Spent env c := by
  refine (h2Start_steps h).spent (by simp) ?_
  obtain ⟨writes, events, hEq, hText⟩ := @prologueStart_eq env upgrade
  rw [hEq]
  refine ⟨⟨?_, Int.natCast_nonneg _, ?_, fun _ => ?_⟩, fun s hs => absurd hs List.not_mem_nil, fun id _ => ?_,
    fun id _ => ?_⟩
  · rw [received_text hText]
    rfl
  · rw [received_text hText, sent_text hText, total_nil]
    exact Nat.le_refl _
  · rw [received_text hText, sent_text hText, total_nil, total_nil]
  · rw [received_text hText, total_nil]
  · rw [received_text hText, sent_text hText, total_nil]
    exact Nat.zero_le _

theorem reachable_spent {c : H2Conn} (h : Reachable env c) (hOk : c.error = none) :
    Settled c ∧ Spent env c := by
  obtain ⟨upgrade, c₀, hStart, hRun⟩ := h
  refine hRun.invariant hStart (spent_start hStart) ?_ ?_ hOk
  · intro c _ _ hc
    exact (settle_steps c).spent (by simp) hc
  · intro c c' f hSettled hc hHandled hNone
    exact handled_spent hSettled hc hHandled hNone

theorem Spent.balanced {c : H2Conn} (h : Spent env c)
    (hEmpty : ∀ f ∈ received c.trace, f.type = .data → f.len = 0)
    (hIds : ∀ s ∈ c.streams, s.id ≠ 0) : Balanced c := by
  have hConn : total H2Frame.dataLen (received c.trace) = 0 := by
    refine (total_eq_zero_iff _ _).mpr ?_
    intro f hf
    rw [H2Frame.dataLen]
    split
    · rename_i hType
      exact hEmpty f hf hType
    · rfl
  have hOn : ∀ id, total (H2Frame.dataLenOn id) (received c.trace) = 0 := by
    intro id
    refine (total_eq_zero_iff _ _).mpr ?_
    intro f hf
    rw [H2Frame.dataLenOn]
    split
    · rename_i hType
      exact hEmpty f hf hType.1
    · rfl
  refine ⟨?_, ?_⟩
  · have hCredit := h.conn.credit
    have hWindow := h.conn.window
    rw [connCredit]
    omega
  · intro s hs
    have hCredit := h.streams.credit s.id (hIds s hs)
    have hWindow := h.streams.window s hs
    rw [hOn] at hCredit hWindow
    rw [streamCredit, hOn]
    omega

/-! ## Answers to DATA -/

/-- Nothing between the two states is a flow control error. -/
def NoFlow (c c' : H2Conn) : Prop :=
  (c'.error = some .flow → c.error = some .flow) ∧
    ∃ events, c'.trace = c.trace ++ events ∧
      ∀ g, Event.sent g ∈ events → ¬ (g.type = .rst ∧ g.payload = wr32 H2Error.flow.code)

theorem NoFlow.refl (c : H2Conn) : NoFlow c c :=
  ⟨id, [], (List.append_nil _).symm, fun _ hg => absurd hg List.not_mem_nil⟩

theorem NoFlow.trans {c c' c'' : H2Conn} (h : NoFlow c c') (h' : NoFlow c' c'') : NoFlow c c'' := by
  obtain ⟨hErr, events, hTrace, hQuiet⟩ := h
  obtain ⟨hErr', events', hTrace', hQuiet'⟩ := h'
  refine ⟨fun hFlow => hErr (hErr' hFlow), events ++ events', ?_, ?_⟩
  · rw [hTrace', hTrace, List.append_assoc]
  · intro g hg
    obtain hg | hg := List.mem_append.mp hg
    · exact hQuiet g hg
    · exact hQuiet' g hg

theorem NoFlow.fail (c : H2Conn) {e : H2Error} (he : e ≠ .flow) : NoFlow c (h2ConnError c e) := by
  rw [h2ConnError_eq]
  refine ⟨?_, (NoFlow.refl c).2⟩
  dsimp only
  intro hFlow
  cases hErr : c.error with
  | none =>
    rw [hErr] at hFlow
    exact absurd (Option.some.inj hFlow) he
  | some e' =>
    rw [hErr] at hFlow
    exact hFlow

theorem NoFlow.send (c : H2Conn) {f : H2Frame} (hf : ¬ (f.type = .rst ∧ f.payload = wr32 H2Error.flow.code)) :
    NoFlow c (h2SendFrame env c f).1 := by
  obtain ⟨hEq, _⟩ | ⟨writes, hEq⟩ | ⟨writes, hEq⟩ := h2SendFrame_cases env c f
  · rw [hEq]
    exact NoFlow.fail c H2Error.noConfusion
  · rw [hEq]
    refine ⟨id, [.sent f], rfl, ?_⟩
    intro g hg
    obtain rfl := Event.sent.inj (List.mem_singleton.mp hg)
    exact hf
  · rw [hEq]
    exact NoFlow.refl c

theorem NoFlow.streamError (c : H2Conn) (id : Nat) {e : H2Error} (he : wr32 e.code ≠ wr32 H2Error.flow.code) :
    NoFlow c (h2SendStreamError env c id e) :=
  NoFlow.send c fun hAnd => he hAnd.2

theorem dataBody_noFlow (c : H2Conn) (i : Nat) (s : H2Stream) (f : H2Frame) (data : Bytes) :
    NoFlow c (dataBody env c i s f data) := by
  rw [dataBody]
  split
  · exact NoFlow.streamError c s.id (by decide)
  · dsimp only
    split
    · exact NoFlow.streamError (c.modifyStream i _) s.id (by decide)
    · exact NoFlow.refl c

theorem dataOnStream_noFlow (c : H2Conn) {i : Nat} {s : H2Stream} {f : H2Frame} {data : Bytes}
    (hFits : (f.len : Int) ≤ s.recvWindow) : NoFlow c (dataOnStream env c i s f data) := by
  rw [dataOnStream]
  split
  · exact NoFlow.refl c
  · dsimp only
    rw [if_neg (by omega)]
    have hWindow : NoFlow c (c.modifyStream i fun s => { s with recvWindow := s.recvWindow - f.len }) :=
      NoFlow.refl c
    refine hWindow.trans (NoFlow.trans (NoFlow.send _ ?_) (dataBody_noFlow _ i s f data))
    exact fun hAnd => H2FrameType.noConfusion hAnd.1

theorem h2OnData_noFlow {c : H2Conn} {f : H2Frame} (hConn : (f.len : Int) ≤ c.connRecvWindow)
    (hSmall : c.connRecvWindow < 2 ^ 64)
    (hStream : ∀ s ∈ c.streams, s.id = f.streamId → (f.len : Int) ≤ s.recvWindow) :
    NoFlow c (h2OnData env c f) := by
  rw [h2OnData]
  split
  · exact NoFlow.fail c H2Error.noConfusion
  · split
    · exact NoFlow.fail c H2Error.noConfusion
    · rw [if_neg (by omega)]
      dsimp only
      have hUpdate : NoFlow c
          (h2SendWindowUpdate env { c with connRecvWindow := c.connRecvWindow - f.len } 0 f.len) :=
        @NoFlow.send env { c with connRecvWindow := c.connRecvWindow - f.len } _
          (fun hAnd => H2FrameType.noConfusion hAnd.1)
      refine hUpdate.trans ?_
      split
      · split
        · exact NoFlow.fail _ H2Error.noConfusion
        · exact NoFlow.streamError _ _ (by decide)
      · rename_i i hFound
        obtain ⟨s, hAt, hSame⟩ := h2FindStream_some hFound
        rw [hAt]
        refine dataOnStream_noFlow _ (hStream s ?_ hSame)
        rw [h2SendWindowUpdate, h2SendFrame_streams] at hAt
        exact List.mem_of_getElem? hAt

theorem h2ProcessFrame_noFlow {c : H2Conn} {f : H2Frame} (hType : f.type = .data)
    (hConn : (f.len : Int) ≤ c.connRecvWindow) (hSmall : c.connRecvWindow < 2 ^ 64)
    (hStream : ∀ s ∈ c.streams, s.id = f.streamId → (f.len : Int) ≤ s.recvWindow) :
    NoFlow c (h2ProcessFrame env c f) := by
  have hRecv : NoFlow c { c with trace := c.trace ++ [.recv f] } := by
    refine ⟨id, [.recv f], rfl, ?_⟩
    intro g hg
    exact Event.noConfusion (List.mem_singleton.mp hg)
  refine hRecv.trans ?_
  rw [h2ProcessFrame, handleFrame]
  split
  · exact NoFlow.fail _ H2Error.noConfusion
  · split
    · exact NoFlow.fail _ H2Error.noConfusion
    · rw [hType]
      exact h2OnData_noFlow hConn hSmall hStream

/-- As long as no DATA frame carried a byte the windows are the announced
credit, and a DATA frame within the credit is not a flow control error. Once
one did, the connection's window is not what was announced. -/
theorem balanced_of_empty_data {c : H2Conn} (h : Reachable env c) (hOk : c.error = none) :
    ((∀ f ∈ received c.trace, f.type = .data → f.len = 0) →
      Balanced c ∧ ∀ f : H2Frame, f.type = .data → (f.len : Int) ≤ connCredit c.trace →
        (f.len : Int) ≤ streamCredit f.streamId c.trace → NoFlow c (h2ProcessFrame env c f)) ∧
    ((∀ n, env.writeOk n = true) → Balanced c → ∀ f ∈ received c.trace, f.type = .data → f.len = 0) := by
  obtain ⟨hSettled, hSpent⟩ := reachable_spent h hOk
  refine ⟨?_, ?_⟩
  · intro hEmpty
    have hBalanced := hSpent.balanced hEmpty fun s hs => (hSettled.distinct.bound s hs).1
    refine ⟨hBalanced, ?_⟩
    intro f hType hConn hStream
    rw [← hBalanced.conn] at hConn
    refine h2ProcessFrame_noFlow hType hConn ?_ ?_
    · have hWindow := hSpent.conn.window
      rw [h2InitialWindow] at hWindow
      omega
    · intro s hs hId
      rw [hBalanced.streams s hs, hId]
      exact hStream
  · intro hWrites hBalanced f hf hType
    have hZero : total H2Frame.dataLen (received c.trace) = 0 := by
      have hWindow := hSpent.conn.window
      have hCredit := hBalanced.conn
      have hAnnounced := hSpent.conn.announced hWrites
      rw [connCredit] at hCredit
      omega
    have hLen := (total_eq_zero_iff _ _).mp hZero f hf
    rwa [H2Frame.dataLen, if_pos hType] at hLen

/-- A POST on stream 1 whose body is still to come. -/
def openPost : List H2Frame := [⟨.settings, 0, 0, []⟩, ⟨.headers, 4, 1, [0x83, 0x86, 0x84]⟩]

def emptyDataRun : H2Conn := plainRun plainEnv (openPost ++ [⟨.data, 0, 1, []⟩])

theorem balanced_of_empty_data_post :
    emptyDataRun.streams.map H2Stream.id = [1] ∧ Balanced emptyDataRun :=
  ⟨by decide +kernel,
    ((balanced_of_empty_data (reachable_plainRun plainEnv _) (by decide +kernel)).1 (by decide +kernel)).1⟩

/-- One byte of body, and the window is one less than the announced credit. -/
theorem unbalanced_after_one_byte : ∃ c, Reachable plainEnv c ∧ c.error = none ∧ ¬ Balanced c :=
  ⟨_, reachable_plainRun plainEnv (openPost ++ [⟨.data, 0, 1, [0]⟩]), by decide +kernel,
    fun h => absurd h.conn (by decide +kernel)⟩

end Cweb.H2
