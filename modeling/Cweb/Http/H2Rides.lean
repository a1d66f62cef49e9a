import Cweb.Http.H2BodyRun

/-!
# Properties that ride along

A property of the connection holds wherever its responses have been pumped when
the frames of the client, an answer, a head and a round of the pump keep it. Each
of these may use that bodies have been delivered up to there.
-/

namespace Cweb.H2

variable {env : H2Env}

/-- What makes a property hold wherever the connection is settled. -/
structure Rides (env : H2Env) (J : H2Conn → Prop) : Prop where
  step : ∀ {k c c'}, Step env k c c' → k.Aside → J c → J c'
  recv : ∀ {c} f, J c → J { c with trace := c.trace ++ [.recv f] }
  dispatch : ∀ {c} i, Delivering c → J c → J (dispatchStream env c i)
  head : ∀ {c i s}, Delivering c → Distinct c → J c → c.streams[i]? = some s → s.headersSent = false →
    s.responseReady = true → c.error = none → J (pumpHead env c i s).1
  round : ∀ {c i s}, Delivering c → Distinct c → J c → c.streams[i]? = some s → s.headersSent = true →
    s.localEnded = false → J (pumpRound env c i s).1

variable {J : H2Conn → Prop}

theorem Rides.steps (h : Rides env J) {ks : List Kind} {c c' : H2Conn} (hSteps : Steps env ks c c')
    (hAside : ∀ k ∈ ks, k.Aside) (hc : J c) : J c' :=
  hSteps.preserves (fun k hMem _ _ hStep => h.step hStep (hAside k hMem)) hc

theorem Rides.dispatchFrom (h : Rides env J) (left : Nat) : ∀ i c, Delivering c → J c →
    J (dispatchFrom env left i c) := by
  induction left with
  | zero => exact fun _ _ _ hc => hc
  | succ left ih =>
    exact fun i c hDelivering hc => ih _ _ (dispatchStream_delivering hDelivering i)
      (h.dispatch i hDelivering hc)

theorem Rides.pumpBody (h : Rides env J) (hWrites : ∀ n, env.writeOk n = true) (fuel : Nat) :
    ∀ {c : H2Conn} {i : Nat}, Delivering c → Distinct c → J c →
      (∀ s, c.streams[i]? = some s → s.reset = false) →
      (∀ s, c.streams[i]? = some s → s.headersSent = true) → J (pumpBody env fuel c i) := by
  induction fuel with
  | zero => exact fun _ _ hc _ _ => hc
  | succ fuel ih =>
    intro c i hDelivering hDistinct hc hReset hSent
    rw [H2.pumpBody]
    cases hAt : c.streams[i]? with
    | none => exact hc
    | some s =>
      dsimp only
      split
      · exact hc
      · rename_i hGo
        have hEnded : s.localEnded = false := Bool.not_eq_true _ ▸ (not_or.mp hGo).1
        have hSteps := @pumpRound_steps env c i s hAt ⟨hEnded, hReset s hAt⟩
        obtain ⟨hNext, g, hStreams, hStill⟩ :=
          pumpRound_delivering hWrites hDelivering hDistinct hAt (hSent s hAt) hEnded
        have hRide := h.round hDelivering hDistinct hc hAt (hSent s hAt) hEnded
        rcases hRound : pumpRound env c i s with ⟨c', _ | _⟩
        · rw [hRound] at hRide
          exact hRide
        · rw [hRound] at hNext hSteps hStreams hRide
          dsimp only at hNext hSteps hStreams hRide ⊢
          refine ih hNext (hSteps.distinct hDistinct) hRide (hSteps.not_reset hReset) ?_
          intro t ht
          rw [hStreams, List.getElem?_modify_eq, hAt] at ht
          obtain rfl := Option.some.inj ht
          exact hStill

theorem Rides.pumpStream (h : Rides env J) (hWrites : ∀ n, env.writeOk n = true) {c : H2Conn}
    (hDelivering : Delivering c)
    (hDistinct : Distinct c) (hc : J c) (i : Nat) : J (pumpStream env c i).1 := by
  rw [H2.pumpStream]
  cases hAt : c.streams[i]? with
  | none => exact hc
  | some s =>
    dsimp only
    split
    · exact hc
    · rename_i hGo
      obtain ⟨hReset, hGo⟩ := not_or.mp hGo
      obtain ⟨hEnded, hReady⟩ := not_or.mp hGo
      have hReset : ∀ t, c.streams[i]? = some t → t.reset = false := by
        intro t ht
        obtain rfl : t = s := Option.some.inj (ht.symm.trans hAt)
        exact Bool.not_eq_true _ ▸ hReset
      have hEnded : s.localEnded = false := Bool.not_eq_true _ ▸ hEnded
      have hReady : s.responseReady = true := not_not.mp hReady
      cases hSent : s.headersSent with
      | true =>
        change J (H2.pumpBody env (c.connSendWindow.toNat + 1) c i)
        refine h.pumpBody hWrites _ hDelivering hDistinct hc hReset ?_
        intro t ht
        obtain rfl := Option.some.inj (hAt.symm.trans ht)
        exact hSent
      | false =>
        rw [if_neg Bool.false_ne_true]
        by_cases hOk : c.error = none
        · obtain ⟨hHead, hStreams⟩ := pumpHead_delivering hWrites hDelivering hDistinct hAt hSent hReady hOk
          have hRide := h.head hDelivering hDistinct hc hAt hSent hReady hOk
          split
          · have hSteps := @pumpHead_steps env c i s hAt ⟨hEnded, hReset s hAt⟩
            refine h.pumpBody hWrites _ hHead (hSteps.distinct hDistinct) hRide
              ((hSteps.mono (by simp)).not_reset hReset) ?_
            intro t ht
            rw [hStreams, List.getElem?_modify_eq, hAt] at ht
            obtain rfl := Option.some.inj ht
            rw [headOut]
            split <;> rfl
          · exact hRide
        · rw [pumpHead, if_pos hOk]
          exact hc

theorem Rides.pumpFrom (h : Rides env J) (hWrites : ∀ n, env.writeOk n = true) (left : Nat) :
    ∀ {i : Nat} {c : H2Conn}, Delivering c → Distinct c → J c → J (pumpFrom env left i c) := by
  induction left with
  | zero => exact fun _ _ hc => hc
  | succ left ih =>
    intro i c hDelivering hDistinct hc
    have hSteps := @pumpStream_steps env c i
    have hNext := pumpStream_delivering hWrites hDelivering hDistinct i
    have hRide := h.pumpStream hWrites hDelivering hDistinct hc i
    rw [H2.pumpFrom]
    rcases hStream : H2.pumpStream env c i with ⟨c', _ | _⟩
    · rw [hStream] at hRide
      exact hRide
    · rw [hStream] at hNext hSteps hRide
      exact ih hNext (hSteps.distinct hDistinct) hRide

theorem Rides.pumped (h : Rides env J) (hWrites : ∀ n, env.writeOk n = true) {c : H2Conn}
    (hDelivering : Delivering c)
    (hDistinct : Distinct c) (hc : J c) : J (pumped env c) := by
  have hReady : J (h2DispatchReady env c) := by
    rw [h2DispatchReady]
    split
    · exact h.dispatchFrom _ 0 c hDelivering hc
    · exact hc
  rw [H2.pumped, h2Pump]
  split
  · exact h.pumpFrom hWrites _ (h2DispatchReady_delivering hDelivering)
      ((h2DispatchReady_steps c).distinct hDistinct) hReady
  · exact hReady

theorem Rides.settle (h : Rides env J) (hWrites : ∀ n, env.writeOk n = true) {c : H2Conn}
    (hDelivering : Delivering c)
    (hDistinct : Distinct c) (hc : J c) : J (settle env c) :=
  h.steps (@h2Sweep_steps env (H2.pumped env c)) (by simp [Kind.Aside])
    (h.pumped hWrites hDelivering hDistinct hc)

theorem Rides.frame (h : Rides env J) {c : H2Conn} (hc : J c) (f : H2Frame) : J (h2ProcessFrame env c f) :=
  h.steps (handleFrame_steps { c with trace := c.trace ++ [.recv f] } f) (by simp [Kind.Aside]) (h.recv f hc)

theorem Rides.run (h : Rides env J) (hWrites : ∀ n, env.writeOk n = true) {c₀ c : H2Conn}
    (hInit : Delivering c₀ ∧ Distinct c₀) (hJ : J c₀) (hRun : Run env c₀ c) : J c := by
  induction hRun with
  | start => exact h.settle hWrites hInit.1 hInit.2 hJ
  | turn hRun _ ih =>
    obtain ⟨hDelivering, hDistinct⟩ := run_delivering hWrites hInit hRun
    exact h.settle hWrites hDelivering hDistinct ih
  | @frame c f hRun _ ih =>
    obtain ⟨hDelivering, hDistinct⟩ := run_delivering hWrites hInit hRun
    rw [frameStep]
    split
    · exact h.settle hWrites (h2ProcessFrame_delivering hDelivering f)
        (h2ProcessFrame_distinct hDistinct f) (h.frame ih f)
    · exact h.frame ih f
  | behind f g _ _ _ _ _ ih => exact h.frame ih g

theorem Rides.settlePoint (h : Rides env J) (hWrites : ∀ n, env.writeOk n = true)
    {upgrade : Option HttpRequest}
    {c₀ p : H2Conn} (hStart : h2Start env upgrade = some c₀) (hJ : J (prologueStart env upgrade))
    (hPoint : SettlePoint env c₀ p) : J (H2.pumped env p) := by
  have hInit : Delivering c₀ ∧ Distinct c₀ := ⟨delivering_start hStart, distinct_start hStart⟩
  have hJ₀ : J c₀ := h.steps (h2Start_steps hStart) (by simp [Kind.Aside]) hJ
  obtain ⟨hDelivering, hDistinct⟩ := hPoint.delivering hWrites hInit
  refine h.pumped hWrites hDelivering hDistinct ?_
  cases hPoint with
  | start => exact hJ₀
  | turn hRun _ => exact h.run hWrites hInit hJ₀ hRun
  | frame f hRun _ _ => exact h.frame (h.run hWrites hInit hJ₀ hRun) f

end Cweb.H2
