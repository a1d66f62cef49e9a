import Cweb.Utils.Sv

/-!
# The read buffer

The live bytes stand at the front of the allocation, and what was there before
stands behind them. The calls keep the live bytes within the capacity; writes
past their end are up to the caller.
-/

namespace Cweb

structure ReadBuffer where
  view : Bytes
  behind : Bytes
  capacity : Nat
deriving DecidableEq, Repr

def ReadBuffer.count (b : ReadBuffer) : Nat := b.view.length

/-- `fresh` is what the new memory happens to hold. -/
def rbInit (fresh : Bytes) (capacity : Nat) : ReadBuffer := ⟨[], fresh, capacity⟩

def rbRoom (b : ReadBuffer) : Nat := b.capacity - b.count

/-- Write behind the live bytes and count them in, without a look at the
capacity. -/
def rbPark (b : ReadBuffer) (bytes : Bytes) : ReadBuffer :=
  { b with view := b.view ++ bytes, behind := b.behind.drop bytes.length }

def rbCommit (b : ReadBuffer) (bytes : Bytes) : ReadBuffer := rbPark b (bytes.take (rbRoom b))

def rbTruncate (b : ReadBuffer) (n : Nat) : ReadBuffer :=
  { b with view := b.view.take n, behind := b.view.drop n ++ b.behind }

/-- The bytes move to the front; the last ones also stay where they were. -/
def rbDiscard (b : ReadBuffer) (n : Nat) : ReadBuffer :=
  let n := min n b.count
  { b with view := b.view.drop n, behind := b.view.drop (b.count - n) ++ b.behind }

/-- The live bytes are within the allocation. -/
def ReadBuffer.Within (b : ReadBuffer) : Prop := b.count ≤ b.capacity

instance (b : ReadBuffer) : Decidable b.Within := inferInstanceAs (Decidable (_ ≤ _))

theorem rbInit_within (fresh : Bytes) (capacity : Nat) : (rbInit fresh capacity).Within := Nat.zero_le _

theorem rbPark_within_iff (b : ReadBuffer) (bytes : Bytes) :
    (rbPark b bytes).Within ↔ b.count + bytes.length ≤ b.capacity := by
  rw [ReadBuffer.Within, ReadBuffer.count, rbPark, List.length_append]
  rfl

theorem rbCommit_within {b : ReadBuffer} (h : b.Within) (bytes : Bytes) : (rbCommit b bytes).Within := by
  rw [rbCommit, rbPark_within_iff, List.length_take, rbRoom]
  rw [ReadBuffer.Within] at h
  omega

theorem rbTruncate_within {b : ReadBuffer} (h : b.Within) (n : Nat) : (rbTruncate b n).Within := by
  rw [ReadBuffer.Within, ReadBuffer.count] at h ⊢
  rw [rbTruncate, List.length_take]
  exact (Nat.min_le_right _ _).trans h

theorem rbDiscard_within {b : ReadBuffer} (h : b.Within) (n : Nat) : (rbDiscard b n).Within := by
  rw [ReadBuffer.Within, ReadBuffer.count] at h ⊢
  rw [rbDiscard, List.length_drop]
  exact (Nat.sub_le _ _).trans h

end Cweb
