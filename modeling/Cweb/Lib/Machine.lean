import Mathlib.Data.Option.Basic

/-!
# Machines that answer

A machine takes a call to its next state and an answer, or is stuck. Two
machines are compared by a relation of their states that may also look at the
calls still to come.
-/

namespace Machine

variable {σ τ ι ο α : Type*}

def run (step : σ → ι → Option (σ × ο)) : σ → List ι → Option (σ × List ο)
  | s, [] => some (s, [])
  | s, i :: is => (step s i).bind fun r => (run step r.1 is).map fun rest => (rest.1, r.2 :: rest.2)

theorem run_append (step : σ → ι → Option (σ × ο)) (is js : List ι) : ∀ s,
    run step s (is ++ js) = (run step s is).bind fun r => (run step r.1 js).map fun rest =>
      (rest.1, r.2 ++ rest.2) := by
  induction is with
  | nil =>
    intro s
    rw [List.nil_append, run, Option.bind_some]
    cases run step s js with
    | none => rfl
    | some r => rfl
  | cons i is ih =>
    intro s
    rw [List.cons_append, run, run]
    cases step s i with
    | none => rfl
    | some r =>
      rw [Option.bind_some, Option.bind_some, ih]
      cases run step r.1 is with
      | none => rfl
      | some r' =>
        rw [Option.bind_some, Option.map_some, Option.bind_some]
        cases run step r'.1 js with
        | none => rfl
        | some r'' => rfl

/-- Both are stuck, or the states are related and the answers the same. -/
def Agree (R : σ → τ → Prop) (a : Option (σ × α)) (b : Option (τ × α)) : Prop :=
  (a = none ∧ b = none) ∨ ∃ s t x, a = some (s, x) ∧ b = some (t, x) ∧ R s t

theorem Agree.of_eq {R : σ → τ → Prop} {a : Option (σ × α)} {b : Option (τ × α)} {s : σ} {t : τ} {x : α}
    (ha : a = some (s, x)) (hb : b = some (t, x)) (hR : R s t) : Agree R a b :=
  .inr ⟨s, t, x, ha, hb, hR⟩

theorem Agree.stuck {R : σ → τ → Prop} {a : Option (σ × α)} {b : Option (τ × α)} (ha : a = none)
    (hb : b = none) :
    Agree R a b :=
  .inl ⟨ha, hb⟩

theorem Agree.imp {R R' : σ → τ → Prop} {a : Option (σ × α)} {b : Option (τ × α)} (h : Agree R a b)
    (hImp : ∀ s t, R s t → R' s t) : Agree R' a b := by
  rcases h with hStuck | ⟨s, t, x, ha, hb, hR⟩
  · exact .inl hStuck
  · exact .of_eq ha hb (hImp s t hR)

theorem Agree.join {υ : Type*} {R : σ → τ → Prop} {S : σ → υ → Prop} {a : Option (σ × α)} {b : Option (τ × α)}
    {c : Option (υ × α)} (hR : Agree R a b) (hS : Agree S a c) :
    Agree (fun s u => ∃ t, R s t ∧ S s u) a c := by
  rcases hS with ⟨ha, hc⟩ | ⟨s, u, x, rfl, rfl, hS⟩
  · exact .stuck ha hc
  · rcases hR with ⟨ha, _⟩ | ⟨s', t, x', ha, _, hR⟩
    · exact nomatch ha
    · cases ha
      exact .of_eq rfl rfl ⟨t, hR, hS⟩

theorem Agree.map_eq {β : Type*} {R : σ → τ → Prop} {a : Option (σ × α)} {b : Option (τ × α)}
    (h : Agree R a b)
    {f : σ → β} {g : τ → β} (hSame : ∀ s t, R s t → f s = g t) :
    a.map (fun r => (f r.1, r.2)) = b.map fun r => (g r.1, r.2) := by
  rcases h with ⟨rfl, rfl⟩ | ⟨s, t, x, rfl, rfl, hR⟩
  · rfl
  · rw [Option.map_some, Option.map_some, hSame s t hR]

theorem run_agree {f : σ → ι → Option (σ × ο)} {g : τ → ι → Option (τ × ο)} {R : List ι → σ → τ → Prop}
    (hStep : ∀ i is s t, R (i :: is) s t → Agree (R is) (f s i) (g t i)) (is : List ι) :
    ∀ s t, R is s t → Agree (R []) (run f s is) (run g t is) := by
  induction is with
  | nil => exact fun s t h => .of_eq rfl rfl h
  | cons i is ih =>
    intro s t h
    rw [run, run]
    rcases hStep i is s t h with ⟨hf, hg⟩ | ⟨s', t', x, hf, hg, hR⟩
    · rw [hf, hg]
      exact .stuck rfl rfl
    · rw [hf, hg, Option.bind_some, Option.bind_some]
      rcases ih s' t' hR with ⟨hf', hg'⟩ | ⟨s'', t'', xs, hf', hg', hR'⟩
      · rw [hf', hg']
        exact .stuck rfl rfl
      · rw [hf', hg']
        exact .of_eq rfl rfl hR'

end Machine
