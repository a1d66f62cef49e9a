import Mathlib.Logic.Relation

/-!
# Loops with a break

The body of an endless loop maps a state to the state of the next turn or to
the one the loop is left in. Invariants hold in every state visited; a loop
whose turns decrease a measure ends; a loop whose turns are turns of another
loop, or silent, ends where the other one ends.
-/

namespace Loop

variable {σ τ : Type*}

inductive Turn (σ : Type*) where
  | again (c : σ)
  | leave (c : σ)

def Turn.state : Turn σ → σ
  | .again c => c
  | .leave c => c

def run (body : σ → Turn σ) : Nat → σ → σ
  | 0, c => c
  | fuel + 1, c =>
    match body c with
    | .again c => run body fuel c
    | .leave c => c

/-- The states the loop comes back to its head in. -/
def Visits (body : σ → Turn σ) : σ → σ → Prop := Relation.ReflTransGen fun c c' => body c = .again c'

theorem Visits.refl {body : σ → Turn σ} (c : σ) : Visits body c c := Relation.ReflTransGen.refl

theorem Visits.head {body : σ → Turn σ} {c c' c'' : σ} (h : body c = .again c') (h' : Visits body c' c'') :
    Visits body c c'' :=
  Relation.ReflTransGen.head h h'

theorem Visits.again {body : σ → Turn σ} {c c' c'' : σ} (h : Visits body c c') (h' : body c' = .again c'') :
    Visits body c c'' :=
  Relation.ReflTransGen.tail h h'

theorem Visits.invariant {body : σ → Turn σ} {P : σ → Prop} {c c' : σ} (h : Visits body c c') (hStart : P c)
    (hStep : ∀ c₁ c₂, Visits body c c₁ → P c₁ → body c₁ = .again c₂ → P c₂) : P c' := by
  induction h with
  | refl => exact hStart
  | tail hVisits hBody ih => exact hStep _ _ hVisits ih hBody

/-- Whether every state of a run that ends within the fuel passes a test. -/
def checked (P : σ → Bool) (body : σ → Turn σ) : Nat → σ → Bool
  | 0, _ => false
  | fuel + 1, c =>
    P c &&
      match body c with
      | .again c => checked P body fuel c
      | .leave _ => true

theorem Visits.of_checked {P : σ → Bool} {body : σ → Turn σ} (fuel : Nat) : ∀ {c c' : σ}, Visits body c c' →
    checked P body fuel c = true → P c' = true := by
  induction fuel with
  | zero =>
    intro c c' _ h
    cases h
  | succ fuel ih =>
    intro c c' hVisits h
    rw [checked, Bool.and_eq_true] at h
    obtain ⟨hHere, hRest⟩ := h
    obtain rfl | ⟨c'', hBody, hVisits⟩ := Relation.ReflTransGen.cases_head hVisits
    · exact hHere
    · rw [hBody] at hRest
      exact ih hVisits hRest

/-- The state after so many turns, and whether the loop goes on through all of
them. -/
def steps (body : σ → Turn σ) : Nat → σ → σ
  | 0, c => c
  | n + 1, c => steps body n (body c).state

def goesOn (body : σ → Turn σ) : Nat → σ → Bool
  | 0, _ => true
  | n + 1, c =>
    match body c with
    | .again c => goesOn body n c
    | .leave _ => false

theorem visits_steps {body : σ → Turn σ} (n : Nat) : ∀ {c : σ}, goesOn body n c = true →
    Visits body c (steps body n c) := by
  induction n with
  | zero => exact fun _ => Visits.refl _
  | succ n ih =>
    intro c h
    rw [goesOn] at h
    rw [steps]
    cases hBody : body c with
    | leave c' =>
      rw [hBody] at h
      cases h
    | again c' =>
      rw [hBody] at h
      exact (ih h).head hBody

/-! ## Runs -/

theorem run_again {body : σ → Turn σ} {c c' : σ} (h : body c = .again c') (fuel : Nat) :
    run body (fuel + 1) c = run body fuel c' := by
  rw [run, h]

theorem run_leave {body : σ → Turn σ} {c c' : σ} (h : body c = .leave c') (fuel : Nat) :
    run body (fuel + 1) c = c' := by
  rw [run, h]

/-- Whatever the fuel, a run stops in a state visited or in the one it leaves. -/
theorem run_visits {body : σ → Turn σ} (fuel : Nat) : ∀ c, Visits body c (run body fuel c) ∨
    ∃ c', Visits body c c' ∧ body c' = .leave (run body fuel c) := by
  induction fuel with
  | zero => exact fun c => .inl (Visits.refl c)
  | succ fuel ih =>
    intro c
    rw [run]
    cases hBody : body c with
    | leave c' => exact .inr ⟨c, Visits.refl c, hBody⟩
    | again c' =>
      obtain hVisits | ⟨c'', hVisits, hLeave⟩ := ih c'
      · exact .inl (hVisits.head hBody)
      · exact .inr ⟨c'', hVisits.head hBody, hLeave⟩

/-- Two loops side by side. A turn of the first is silent or a turn of the
second, and the first is left when the second is. -/
structure Follows (body : σ → Turn σ) (other : τ → Turn τ) (R : σ → τ → Prop) (Q : σ → τ → Prop) (c : σ) :
    Prop where
  again : ∀ c₁ c₂ i, Visits body c c₁ → R c₁ i → body c₁ = .again c₂ →
    R c₂ i ∨ ∃ i', other i = .again i' ∧ R c₂ i'
  leave : ∀ c₁ c₂ i, Visits body c c₁ → R c₁ i → body c₁ = .leave c₂ → ∃ i', other i = .leave i' ∧ Q c₂ i'

theorem Follows.next {body : σ → Turn σ} {other : τ → Turn τ} {R Q : σ → τ → Prop} {c c' : σ}
    (h : Follows body other R Q c) (hBody : body c = .again c') : Follows body other R Q c' :=
  ⟨fun c₁ c₂ i hVisits => h.again c₁ c₂ i (hVisits.head hBody),
    fun c₁ c₂ i hVisits => h.leave c₁ c₂ i (hVisits.head hBody)⟩

theorem Follows.run {body : σ → Turn σ} {other : τ → Turn τ} {R Q : σ → τ → Prop} (ν : τ → Nat)
    (hν : ∀ i i', other i = .again i' → ν i' < ν i) (μ : σ → Nat) (fuel : Nat) :
    ∀ c, Follows body other R Q c → (∀ c' c'', Visits body c c' → body c' = .again c'' → μ c'' < μ c') →
      μ c < fuel → ∀ i fuel', R c i → ν i < fuel' → Q (run body fuel c) (run other fuel' i) := by
  induction fuel with
  | zero => exact fun c _ _ h => absurd h (Nat.not_lt_zero _)
  | succ fuel ih =>
    intro c hFollows hμ hFuel i fuel' hR hFuel'
    cases hBody : body c with
    | leave c' =>
      obtain ⟨i', hOther, hQ⟩ := hFollows.leave c c' i (Visits.refl c) hR hBody
      cases fuel' with
      | zero => exact absurd hFuel' (Nat.not_lt_zero _)
      | succ fuel' =>
        rw [run_leave hBody, run_leave hOther]
        exact hQ
    | again c' =>
      have hLt := hμ c c' (Visits.refl c) hBody
      have hRest := ih c' (hFollows.next hBody) (fun a b h => hμ a b (h.head hBody)) (by omega)
      rw [run_again hBody]
      obtain hSilent | ⟨i', hOther, hR'⟩ := hFollows.again c c' i (Visits.refl c) hR hBody
      · exact hRest i fuel' hSilent hFuel'
      · have hLt' := hν i i' hOther
        cases fuel' with
        | zero => exact absurd hFuel' (Nat.not_lt_zero _)
        | succ fuel' =>
          rw [run_again hOther]
          exact hRest i' fuel' hR' (by omega)

/-! ## Ends -/

def Ends (body : σ → Turn σ) (c c' : σ) : Prop := ∃ c₁, Visits body c c₁ ∧ body c₁ = .leave c'

theorem Ends.of_leave {body : σ → Turn σ} {c c' : σ} (h : body c = .leave c') : Ends body c c' :=
  ⟨c, Visits.refl c, h⟩

def Turn.leaves : Turn σ → Bool
  | .again _ => false
  | .leave _ => true

theorem Ends.of_steps {body : σ → Turn σ} {c : σ} (n : Nat) (hGo : goesOn body n c = true)
    (hLeave : (body (steps body n c)).leaves = true) : Ends body c (body (steps body n c)).state := by
  refine ⟨_, visits_steps n hGo, ?_⟩
  cases hBody : body (steps body n c) with
  | again c' =>
    rw [hBody] at hLeave
    cases hLeave
  | leave c' => rfl

theorem Ends.head {body : σ → Turn σ} {c c' c'' : σ} (h : body c = .again c') (h' : Ends body c' c'') :
    Ends body c c'' := by
  obtain ⟨c₁, hVisits, hLeave⟩ := h'
  exact ⟨c₁, hVisits.head h, hLeave⟩

theorem ends_run {body : σ → Turn σ} (μ : σ → Nat) (fuel : Nat) : ∀ c,
    (∀ c' c'', Visits body c c' → body c' = .again c'' → μ c'' < μ c') → μ c < fuel →
      Ends body c (run body fuel c) := by
  induction fuel with
  | zero => exact fun _ _ h => absurd h (Nat.not_lt_zero _)
  | succ fuel ih =>
    intro c hμ hFuel
    cases hBody : body c with
    | leave c' =>
      rw [run_leave hBody]
      exact .of_leave hBody
    | again c' =>
      have hLt := hμ c c' (Visits.refl c) hBody
      rw [run_again hBody]
      exact (ih c' (fun a b h => hμ a b (h.head hBody)) (by omega)).head hBody

theorem Ends.tail {body : σ → Turn σ} {c c' c'' : σ} (h : Ends body c c'')
    (hBody : body c = .again c') : Ends body c' c'' := by
  obtain ⟨c₁, hVisits, hLeave⟩ := h
  obtain rfl | ⟨c₂, hFirst, hVisits⟩ := Relation.ReflTransGen.cases_head hVisits
  · rw [hBody] at hLeave
    cases hLeave
  · obtain rfl := Turn.again.inj (hBody.symm.trans hFirst)
    exact ⟨c₁, hVisits, hLeave⟩

theorem Ends.unique {body : σ → Turn σ} {c a b : σ} (ha : Ends body c a) (hb : Ends body c b) : a = b := by
  obtain ⟨c₁, hVisits, hLeave⟩ := ha
  induction hVisits using Relation.ReflTransGen.head_induction_on with
  | refl =>
    obtain ⟨c₂, hVisits, hOther⟩ := hb
    obtain rfl | ⟨c₃, hFirst, _⟩ := Relation.ReflTransGen.cases_head hVisits
    · exact Turn.leave.inj (hLeave.symm.trans hOther)
    · rw [hLeave] at hFirst
      cases hFirst
  | head hFirst _ ih => exact ih (hb.tail hFirst)

/-- A loop whose turns decrease a measure ends, and so does the other one. -/
theorem Follows.ends {body : σ → Turn σ} {other : τ → Turn τ} {R Q : σ → τ → Prop} (μ : σ → Nat) (n : Nat) :
    ∀ c i, Follows body other R Q c →
      (∀ c' c'', Visits body c c' → body c' = .again c'' → μ c'' < μ c') → μ c < n → R c i →
      ∃ c' i', Ends body c c' ∧ Ends other i i' ∧ Q c' i' := by
  induction n with
  | zero => exact fun c _ _ _ h => absurd h (Nat.not_lt_zero _)
  | succ n ih =>
    intro c i hFollows hμ hLess hR
    cases hBody : body c with
    | leave c' =>
      obtain ⟨i', hOther, hQ⟩ := hFollows.leave c c' i (Visits.refl c) hR hBody
      exact ⟨c', i', .of_leave hBody, .of_leave hOther, hQ⟩
    | again c' =>
      have hLt := hμ c c' (Visits.refl c) hBody
      have hRest := fun i => ih c' i (hFollows.next hBody) (fun a b h => hμ a b (h.head hBody)) (by omega)
      obtain hSilent | ⟨i', hOther, hR'⟩ := hFollows.again c c' i (Visits.refl c) hR hBody
      · obtain ⟨c'', i'', hEnds, hEnds', hQ⟩ := hRest i hSilent
        exact ⟨c'', i'', hEnds.head hBody, hEnds', hQ⟩
      · obtain ⟨c'', i'', hEnds, hEnds', hQ⟩ := hRest i' hR'
        exact ⟨c'', i'', hEnds.head hBody, hEnds'.head hOther, hQ⟩

end Loop
