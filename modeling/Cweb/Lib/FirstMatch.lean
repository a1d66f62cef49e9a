import Mathlib.Data.List.Basic
import Mathlib.Order.Basic

/-!
# The first match

A search from an index on answers with the first one that passes a test, and
there is only one such answer. A scan is the search as a loop whose tests may
fail to give a result.
-/

namespace FirstMatch

/-- The answer of a search for the first number with a property. -/
def First (P : Nat → Prop) : Option Nat → Prop
  | none => ∀ i, ¬P i
  | some k => P k ∧ ∀ i < k, ¬P i

theorem First.unique {P : Nat → Prop} {r r' : Option Nat} (h : First P r) (h' : First P r') : r = r' := by
  cases r with
  | none =>
    cases r' with
    | none => rfl
    | some k' => exact absurd h'.1 (h k')
  | some k =>
    cases r' with
    | none => exact absurd h.1 (h' k)
    | some k' =>
      rcases Nat.lt_trichotomy k k' with hLt | rfl | hGt
      · exact absurd h.1 (h'.2 k hLt)
      · rfl
      · exact absurd h'.1 (h.2 k' hGt)

theorem First.congr {P Q : Nat → Prop} {r : Option Nat} (h : First P r) (hPQ : ∀ i, P i ↔ Q i) :
    First Q r := by
  have hEq : P = Q := funext fun i => propext (hPQ i)
  exact hEq ▸ h

theorem first_find?_range (n : Nat) (p : Nat → Bool) :
    First (fun i => i < n ∧ p i = true) ((List.range n).find? p) := by
  cases h : (List.range n).find? p with
  | none =>
    rintro i ⟨hi, hp⟩
    exact absurd hp (by simpa using List.find?_eq_none.mp h i (List.mem_range.mpr hi))
  | some k =>
    obtain ⟨hp, hk, hBelow⟩ := List.find?_range_eq_some.mp h
    refine ⟨⟨List.mem_range.mp hk, hp⟩, ?_⟩
    rintro i hi ⟨-, hpi⟩
    simpa [hpi] using hBelow i hi

/-! ## Scans -/

/-- The first index below a bound that passes a test. -/
def scan (test : Nat → Option Bool) (bound : Nat) : Nat → Nat → Option (Option Nat)
  | 0, _ => none
  | fuel + 1, i =>
    if i < bound then
      match test i with
      | none => none
      | some true => some (some i)
      | some false => scan test bound fuel (i + 1)
    else some none

/-- When every test gives a result, so does the scan. -/
theorem scan_first {test : Nat → Option Bool} {p : Nat → Bool} {bound : Nat}
    (hTest : ∀ i < bound, test i = some (p i)) (fuel : Nat) :
    ∀ start, bound - start < fuel → ∃ r, scan test bound fuel start = some r ∧
      First (fun i => start ≤ i ∧ i < bound ∧ p i = true) r := by
  induction fuel with
  | zero => exact fun start h => absurd h (Nat.not_lt_zero _)
  | succ fuel ih =>
    intro start h
    rw [scan]
    split
    · next hLt =>
      rw [hTest start hLt]
      cases hp : p start with
      | true =>
        exact ⟨some start, rfl, ⟨Nat.le_refl start, hLt, hp⟩, fun i hi hMatch =>
          absurd hMatch.1 (Nat.not_le.mpr hi)⟩
      | false =>
        obtain ⟨r, hScan, hFirst⟩ := ih (start + 1) (by omega)
        refine ⟨r, hScan, hFirst.congr fun i => ?_⟩
        constructor
        · exact fun hi => ⟨Nat.le_of_succ_le hi.1, hi.2⟩
        · rintro ⟨hLe, hBelow, hi⟩
          rcases Nat.eq_or_lt_of_le hLe with rfl | hNext
          · rw [hp] at hi
            cases hi
          · exact ⟨hNext, hBelow, hi⟩
    · next hGe => exact ⟨none, rfl, fun i hi => hGe (Nat.lt_of_le_of_lt hi.1 hi.2.1)⟩

end FirstMatch
