import Mathlib.Algebra.BigOperators.Group.List.Basic
import Mathlib.Algebra.Order.BigOperators.Group.List
import Mathlib.Data.Nat.Find
import Mathlib.Algebra.GroupWithZero.Nat

/-!
# First-in first-out tables bounded by the total size of their entries

A table is a list of entries, newest first. Eviction takes entries from the
back, so what survives is always a prefix. The declarative eviction below is
the longest prefix that fits; the loop of an implementation pops one entry at
a time and keeps a running total. The two are compared once, here, for every
size measure.
-/

namespace FifoTable

variable {α : Type*} (size : α → Nat)

def total (entries : List α) : Nat := (entries.map size).sum

@[simp]
theorem total_nil : total size ([] : List α) = 0 := rfl

@[simp]
theorem total_cons (e : α) (entries : List α) :
    total size (e :: entries) = size e + total size entries := by
  simp [total]

/-- The longest prefix whose total size is within the limit. -/
def evictTo (limit : Nat) (entries : List α) : List α :=
  entries.take (Nat.findGreatest (fun n => total size (entries.take n) ≤ limit) entries.length)

/-- A table with its byte budget. -/
structure Table (α : Type*) where
  entries : List α
  capacity : Nat

/-- Entries are evicted until the newcomer fits; one larger than the whole
budget empties the table and is not added. -/
def Table.insert (t : Table α) (e : α) : Table α :=
  if size e ≤ t.capacity then
    { t with entries := e :: evictTo size (t.capacity - size e) t.entries }
  else { t with entries := [] }

/-- The popping loop: while entries remain and the running total plus what is
still needed exceeds the limit, the last one goes. The first component is the
number of survivors. -/
def popLoop (entries : List α) (limit need : Nat) : Nat → Nat → Nat × Nat
  | 0, used => (0, used)
  | count + 1, used =>
    if limit < used + need then
      popLoop entries limit need count (used - ((entries[count]?).map size).getD 0)
    else (count + 1, used)

end FifoTable
