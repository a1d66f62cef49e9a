import Mathlib.Algebra.GroupWithZero.Nat
import Mathlib.Data.List.Basic

/-!
# Growing strings

How a `Strbuf` takes its room. When a string grows past its capacity it moves to
another block, and a view of the block it was in is one of memory that was given
back. Only lengths matter for this.
-/

namespace Cweb

/-- `moves` is the number of blocks the string has been in. -/
structure Strbuf where
  count : Nat
  capacity : Nat
  moves : Nat
deriving DecidableEq

def strbufInit : Strbuf := ⟨0, 0, 0⟩

def sbMinCap : Nat := 256

/-- The capacity is doubled until it holds `want` bytes. -/
def sbDouble : Nat → Nat → Nat → Nat
  | 0, capacity, _ => capacity
  | fuel + 1, capacity, want => if capacity < want then sbDouble fuel (capacity * 2) want else capacity

def sbGrowTo (capacity want : Nat) : Nat := sbDouble want (if capacity = 0 then sbMinCap else capacity) want

def strbufAppend (sb : Strbuf) (len : Nat) : Strbuf :=
  if len = 0 then sb
  else if sb.capacity < sb.count + len then
    ⟨sb.count + len, sbGrowTo sb.capacity (sb.count + len), sb.moves + 1⟩
  else { sb with count := sb.count + len }

/-- A view of the block that the string was in at the time. -/
structure StrbufView where
  block : Nat
  start : Nat
  count : Nat
deriving DecidableEq

/-- The bytes of the view are still there. -/
def Strbuf.Backs (sb : Strbuf) (v : StrbufView) : Prop := v.count = 0 ∨ v.block = sb.moves

instance (sb : Strbuf) (v : StrbufView) : Decidable (sb.Backs v) := inferInstanceAs (Decidable (_ ∨ _))

/-! ## Growing -/

theorem sbDouble_le (fuel : Nat) : ∀ {capacity want : Nat}, 0 < capacity → want ≤ capacity + fuel →
    want ≤ sbDouble fuel capacity want := by
  induction fuel with
  | zero => exact fun _ hEnough => hEnough
  | succ fuel ih =>
    intro capacity want hSome hEnough
    rw [sbDouble]
    split
    · exact ih (by omega) (by omega)
    · omega

theorem sbGrowTo_le (capacity want : Nat) : want ≤ sbGrowTo capacity want := by
  rw [sbGrowTo]
  refine sbDouble_le want ?_ (Nat.le_add_left _ _)
  split
  · decide
  · omega

def Strbuf.Within (sb : Strbuf) : Prop := sb.count ≤ sb.capacity

theorem strbufAppend_within {sb : Strbuf} (h : sb.Within) (len : Nat) : (strbufAppend sb len).Within := by
  rw [strbufAppend]
  split
  · exact h
  · split
    · exact sbGrowTo_le _ _
    · rename_i hRoom
      exact Nat.not_lt.mp hRoom

theorem strbufAppend_count (sb : Strbuf) (len : Nat) : (strbufAppend sb len).count = sb.count + len := by
  rw [strbufAppend]
  split
  · rename_i hNone
    rw [hNone, Nat.add_zero]
  · split
    · rfl
    · rfl

theorem strbufAppend_moves {sb : Strbuf} (h : sb.Within) (len : Nat) :
    sb.moves < (strbufAppend sb len).moves ∧ sb.capacity < sb.count + len ∨
      (strbufAppend sb len).moves = sb.moves ∧ (strbufAppend sb len).capacity = sb.capacity ∧
        sb.count + len ≤ sb.capacity := by
  rw [strbufAppend]
  split
  · rename_i hNone
    exact .inr ⟨rfl, rfl, by rw [hNone]; exact h⟩
  · split
    · rename_i hFull
      exact .inl ⟨Nat.lt_succ_self _, hFull⟩
    · rename_i hRoom
      exact .inr ⟨rfl, rfl, Nat.not_lt.mp hRoom⟩

/-! ## Several pieces -/

def strbufAppendAll (sb : Strbuf) (lens : List Nat) : Strbuf := lens.foldl strbufAppend sb

theorem strbufAppendAll_moves_le (lens : List Nat) : ∀ {sb : Strbuf}, sb.Within →
    sb.moves ≤ (strbufAppendAll sb lens).moves := by
  induction lens with
  | nil => exact fun _ => Nat.le_refl _
  | cons len lens ih =>
    intro sb h
    have hLater := ih (strbufAppend_within h len)
    obtain ⟨hMoves, _⟩ | ⟨hStays, _⟩ := strbufAppend_moves h len
    · exact Nat.le_trans (Nat.le_of_lt hMoves) hLater
    · rw [hStays] at hLater
      exact hLater

theorem strbufAppendAll_stays_iff (lens : List Nat) : ∀ {sb : Strbuf}, sb.Within →
    ((strbufAppendAll sb lens).moves = sb.moves ↔ sb.count + lens.sum ≤ sb.capacity) := by
  induction lens with
  | nil => exact fun h => ⟨fun _ => h, fun _ => rfl⟩
  | cons len lens ih =>
    intro sb h
    have hIn := strbufAppend_within h len
    have hLater := ih hIn
    rw [strbufAppend_count] at hLater
    rw [strbufAppendAll, List.foldl_cons, ← strbufAppendAll, List.sum_cons, ← Nat.add_assoc]
    obtain ⟨hMoves, hFull⟩ | ⟨hStays, hRoom, _⟩ := strbufAppend_moves h len
    · have hLe := strbufAppendAll_moves_le lens hIn
      constructor
      · intro hSame
        omega
      · intro hFits
        omega
    · rw [hStays, hRoom] at hLater
      exact hLater

end Cweb
