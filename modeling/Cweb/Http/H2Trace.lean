import Cweb.Http.H2Recv

/-!
# The frames of a trace

What was taken from the client and what was written to it, and what the frames
of either side add up to.
-/

namespace Cweb.H2

variable {env : H2Env}

def received (trace : List Event) : List H2Frame :=
  trace.filterMap fun e =>
    match e with
    | .recv f => some f
    | _ => none

def sent (trace : List Event) : List H2Frame :=
  trace.filterMap fun e =>
    match e with
    | .sent f => some f
    | _ => none

theorem received_sent (trace : List Event) (f : H2Frame) :
    received (trace ++ [.sent f]) = received trace := by
  simp [received]

theorem received_recv (trace : List Event) (f : H2Frame) :
    received (trace ++ [.recv f]) = received trace ++ [f] := by
  simp [received]

theorem sent_sent (trace : List Event) (f : H2Frame) : sent (trace ++ [.sent f]) = sent trace ++ [f] := by
  simp [sent]

theorem sent_recv (trace : List Event) (f : H2Frame) : sent (trace ++ [.recv f]) = sent trace := by
  simp [sent]

theorem received_text {events : List Event} (h : ∀ e ∈ events, ∃ bytes, e = Event.text bytes) :
    received events = [] := by
  refine List.filterMap_eq_nil_iff.mpr ?_
  intro e he
  obtain ⟨bytes, rfl⟩ := h e he
  rfl

theorem sent_text {events : List Event} (h : ∀ e ∈ events, ∃ bytes, e = Event.text bytes) :
    sent events = [] := by
  refine List.filterMap_eq_nil_iff.mpr ?_
  intro e he
  obtain ⟨bytes, rfl⟩ := h e he
  rfl

/-! ## Sending -/

theorem h2SendFrame_trace (c : H2Conn) (f : H2Frame) :
    received (h2SendFrame env c f).1.trace = received c.trace ∧
      (sent (h2SendFrame env c f).1.trace = sent c.trace ∨
        sent (h2SendFrame env c f).1.trace = sent c.trace ++ [f]) := by
  obtain ⟨hEq, _⟩ | ⟨writes, hEq⟩ | ⟨writes, hEq⟩ := h2SendFrame_cases env c f
  · rw [hEq, h2ConnError_eq]
    exact ⟨rfl, .inl rfl⟩
  · rw [hEq]
    exact ⟨received_sent _ f, .inr (sent_sent _ f)⟩
  · rw [hEq]
    exact ⟨rfl, .inl rfl⟩

theorem h2SendFrame_windows (c : H2Conn) (f : H2Frame) :
    (h2SendFrame env c f).1.connRecvWindow = c.connRecvWindow ∧
      (h2SendFrame env c f).1.lastStreamId = c.lastStreamId := by
  obtain ⟨hEq, _⟩ | ⟨writes, hEq⟩ | ⟨writes, hEq⟩ := h2SendFrame_cases env c f
  · rw [hEq, h2ConnError_eq]
    exact ⟨rfl, rfl⟩
  · rw [hEq]
    exact ⟨rfl, rfl⟩
  · rw [hEq]
    exact ⟨rfl, rfl⟩

theorem h2SendFrame_of_writeOk {c : H2Conn} {f : H2Frame} (hLen : f.len ≤ h2MaxFrameSize)
    (hWrites : ∀ n, env.writeOk n = true) :
    ∃ writes, h2SendFrame env c f = ({ c with writes := writes, trace := c.trace ++ [.sent f] }, true) := by
  rw [h2SendFrame, if_neg (by omega)]
  dsimp only
  have hOk : (writeFrame env c.writes f.len).2 = true := by
    rw [writeFrame, if_pos (hWrites _)]
    split
    · rfl
    · exact hWrites _
  rw [if_pos hOk]
  exact ⟨_, rfl⟩

/-! ## Settings -/

theorem applySetting_trace (c : H2Conn) (id val : Nat) : (applySetting c id val).trace = c.trace := by
  rw [applySetting.eq_def]
  split
  · split
    · rw [h2ConnError_eq]
    · rfl
  · split
    · rw [h2ConnError_eq]
    · dsimp only
      split
      · rw [h2ConnError_eq]
      · rfl
  · split
    · rw [h2ConnError_eq]
    · rfl
  · rfl

theorem h2ApplySettings_trace (c : H2Conn) (payload : Bytes) :
    (h2ApplySettings c payload).trace = c.trace := by
  have hLoop : ∀ fuel c p, (applySettingsLoop fuel c p).trace = c.trace := by
    intro fuel
    induction fuel with
    | zero => exact fun _ _ => rfl
    | succ fuel ih =>
      intro c p
      rw [applySettingsLoop]
      split
      · rfl
      · exact (ih _ _).trans (applySetting_trace c _ _)
  rw [h2ApplySettings]
  split
  · rw [h2ConnError_eq]
  · exact hLoop _ c payload

/-! ## Sums -/

def total (w : H2Frame → Nat) (frames : List H2Frame) : Nat := (frames.map w).sum

@[simp]
theorem total_nil (w : H2Frame → Nat) : total w [] = 0 := rfl

theorem total_append (w : H2Frame → Nat) (frames : List H2Frame) (f : H2Frame) :
    total w (frames ++ [f]) = total w frames + w f := by
  simp [total]

def H2Frame.dataLen (f : H2Frame) : Nat := if f.type = .data then f.len else 0

def H2Frame.dataLenOn (id : Nat) (f : H2Frame) : Nat := if f.type = .data ∧ f.streamId = id then f.len else 0

def H2Frame.incrementOn (id : Nat) (f : H2Frame) : Nat :=
  if f.type = .window ∧ f.streamId = id then windowIncrement f else 0

theorem dataLen_of_ne {f : H2Frame} (h : f.type ≠ .data) : f.dataLen = 0 := if_neg h

theorem dataLenOn_of_ne {f : H2Frame} (h : f.type ≠ .data) (id : Nat) : f.dataLenOn id = 0 :=
  if_neg fun hAnd => h hAnd.1

theorem incrementOn_of_ne {f : H2Frame} (h : f.type ≠ .window) (id : Nat) : f.incrementOn id = 0 :=
  if_neg fun hAnd => h hAnd.1

theorem rd32_wr32 (v : Nat) : rd32 (wr32 v) = v % 2 ^ 32 := by
  simp only [rd32, wr32, UInt8.toNat_ofNat']
  omega

theorem incrementOn_windowUpdate (id inc id' : Nat) :
    H2Frame.incrementOn id' ⟨.window, 0, id, wr32 inc⟩ = if id = id' then inc % 2 ^ 31 else 0 := by
  have hInc : windowIncrement ⟨.window, 0, id, wr32 inc⟩ = inc % 2 ^ 31 := by
    rw [windowIncrement, rd32_wr32]
    omega
  rw [H2Frame.incrementOn, hInc]
  simp

theorem total_eq_zero_iff (w : H2Frame → Nat) (frames : List H2Frame) :
    total w frames = 0 ↔ ∀ f ∈ frames, w f = 0 := by
  rw [total, List.sum_eq_zero_iff_forall_eq_nat]
  simp

end Cweb.H2
