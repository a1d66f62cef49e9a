import Mathlib.Logic.Function.Basic
import Mathlib.Data.Option.Basic

/-!
# Lookups

A table is known by what a lookup finds. What the lookups of a table find after
a key was bound, or unbound, makes them an update of the lookups before. In a
list of pairs the last pair with the key counts.
-/

namespace Lookup

variable {κ ν : Type*} [DecidableEq κ]

theorem eq_update_some {f g : κ → Option ν} {key : κ} {value : ν}
    (h : ∀ k v, f k = some v ↔ (k = key ∧ v = value) ∨ (k ≠ key ∧ g k = some v)) :
    f = Function.update g key (some value) := by
  funext k
  apply Option.ext
  intro v
  rw [h]
  rcases eq_or_ne k key with rfl | hNe
  · rw [Function.update_self]
    simp [eq_comm]
  · rw [Function.update_of_ne hNe]
    simp [hNe]

theorem eq_update_none {f g : κ → Option ν} {key : κ} (h : ∀ k v, f k = some v ↔ k ≠ key ∧ g k = some v) :
    f = Function.update g key none := by
  funext k
  apply Option.ext
  intro v
  rw [h]
  rcases eq_or_ne k key with rfl | hNe
  · rw [Function.update_self]
    simp
  · rw [Function.update_of_ne hNe]
    simp [hNe]

/-- The value that comes last with a key. -/
def lastOf : List (κ × ν) → κ → Option ν
  | [], _ => none
  | (key, value) :: ps, k => (lastOf ps k).or (if key = k then some value else none)

theorem lastOf_append (ps qs : List (κ × ν)) (k : κ) :
    lastOf (ps ++ qs) k = (lastOf qs k).or (lastOf ps k) := by
  induction ps with
  | nil => exact Option.or_none.symm
  | cons e ps ih => rw [List.cons_append, lastOf, ih, lastOf, Option.or_assoc]

theorem lastOf_map {μ : Type*} (f : ν → μ) (ps : List (κ × ν)) (k : κ) :
    lastOf (ps.map fun e => (e.1, f e.2)) k = (lastOf ps k).map f := by
  induction ps with
  | nil => rfl
  | cons e ps ih =>
    rw [List.map_cons, lastOf, ih, lastOf]
    cases lastOf ps k with
    | some v => rfl
    | none =>
      split
      · rfl
      · rfl

theorem mem_of_lastOf {ps : List (κ × ν)} {k : κ} {v : ν} (h : lastOf ps k = some v) : (k, v) ∈ ps := by
  induction ps with
  | nil => cases h
  | cons e ps ih =>
    rw [lastOf, Option.or_eq_some_iff] at h
    rcases h with hLater | ⟨_, hHere⟩
    · exact List.mem_cons_of_mem _ (ih hLater)
    · split at hHere
      · rename_i hKey
        rw [← hKey, ← Option.some.inj hHere]
        exact List.mem_cons_self
      · cases hHere

theorem lastOf_ne_none {ps : List (κ × ν)} {e : κ × ν} (h : e ∈ ps) : lastOf ps e.1 ≠ none := by
  induction ps with
  | nil => exact absurd h List.not_mem_nil
  | cons first ps ih =>
    intro hNone
    rw [lastOf, Option.or_eq_none_iff] at hNone
    rcases List.mem_cons.mp h with rfl | hLater
    · rw [if_pos rfl] at hNone
      cases hNone.2
    · exact ih hLater hNone.1

end Lookup
