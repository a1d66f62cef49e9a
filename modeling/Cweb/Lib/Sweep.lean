import Mathlib.Data.Nat.Init

/-!
# Arrays filled from the front

A loop that stores one entry after the other, each computed from those below it.
-/

namespace Sweep

variable {α : Type*} {n : Nat}

def fill (g : Vector α n → Nat → α) (start count : Nat) (w : Vector α n) : Vector α n :=
  (List.range' start count).foldl (fun w i => w.set! i (g w i)) w

theorem fill_succ (g : Vector α n → Nat → α) (start count : Nat) (w : Vector α n) :
    fill g start (count + 1) w = (fill g start count w).set! (start + count)
      (g (fill g start count w) (start + count)) := by
  rw [fill, List.range'_concat, List.foldl_append, Nat.one_mul, List.foldl_cons, List.foldl_nil, ← fill]

variable [Inhabited α]

theorem getElem!_set! (w : Vector α n) (i : Nat) (x : α) {t : Nat} (ht : t < n) :
    (w.set! i x)[t]! = if i = t then x else w[t]! := by
  rw [getElem!_pos _ t ht, getElem!_pos w t ht, Vector.set!_eq_setIfInBounds, Vector.getElem_setIfInBounds]

/-- What holds of the entries in front of the loop, and of an entry whenever it
holds of those below it, holds of every entry that the loop has passed. -/
theorem fill_spec {g : Vector α n → Nat → α} {P : Nat → α → Prop} {start stop : Nat} {w : Vector α n}
    (hStop : stop ≤ n)
    (hFront : ∀ t < start, P t w[t]!)
    (hStep : ∀ (v : Vector α n) (i : Nat), start ≤ i → i < stop → (∀ t < i, P t v[t]!) → P i (g v i))
    (count : Nat) (hCount : start + count ≤ stop) : ∀ t < start + count, P t (fill g start count w)[t]! := by
  induction count with
  | zero => exact hFront
  | succ count ih =>
    intro t ht
    have hBelow := ih (by omega)
    rw [fill_succ, getElem!_set! _ _ _ (by omega)]
    split
    · next hEq =>
      subst hEq
      exact hStep _ _ (Nat.le_add_right start count) (by omega) hBelow
    · next hNe => exact hBelow t (by omega)

end Sweep
