import Mathlib.Data.List.Basic

/-!
# Allocations

Memory as a list of allocations in the order they were made. A freed one stays
in the list and can neither be read, written nor freed again, so that a use
after a free shows as `none`. Addresses are never given out twice.
-/

namespace Allocations

structure Heap (α : Type*) where
  cells : List (Option α)
deriving DecidableEq, Repr

variable {α : Type*}

def Heap.empty : Heap α := ⟨[]⟩

def Heap.read (h : Heap α) (p : Nat) : Option α := h.cells[p]?.join

def Heap.alloc (h : Heap α) (a : α) : Heap α × Nat := (⟨h.cells ++ [some a]⟩, h.cells.length)

def Heap.free (h : Heap α) (p : Nat) : Option (Heap α) := (h.read p).map fun _ => ⟨h.cells.set p none⟩

def Heap.write (h : Heap α) (p : Nat) (a : α) : Option (Heap α) :=
  (h.read p).map fun _ => ⟨h.cells.set p (some a)⟩

theorem Heap.read_eq_some_iff (h : Heap α) (p : Nat) (a : α) : h.read p = some a ↔
    h.cells[p]? = some (some a) := by
  rw [Heap.read, Option.join_eq_some_iff]

theorem Heap.lt_of_read {h : Heap α} {p : Nat} {a : α} (hRead : h.read p = some a) : p < h.cells.length := by
  obtain ⟨hLt, _⟩ := List.getElem?_eq_some_iff.mp ((h.read_eq_some_iff p a).mp hRead)
  exact hLt

theorem Heap.read_set (h : Heap α) {p : Nat} (hp : p < h.cells.length) (cell : Option α) (q : Nat) :
    Heap.read ⟨h.cells.set p cell⟩ q = if q = p then cell else h.read q := by
  rw [Heap.read]
  rcases eq_or_ne q p with rfl | hNe
  · rw [List.getElem?_set_self hp, Option.join_some, if_pos rfl]
  · rw [List.getElem?_set_ne (Ne.symm hNe), if_neg hNe]
    rfl

@[simp]
theorem Heap.read_alloc_self (h : Heap α) (a : α) : (h.alloc a).1.read (h.alloc a).2 = some a := by
  rw [Heap.read_eq_some_iff]
  exact List.getElem?_concat_length

theorem Heap.read_alloc_of_ne (h : Heap α) (a : α) {p : Nat} (hp : p ≠ (h.alloc a).2) :
    (h.alloc a).1.read p = h.read p := by
  rw [Heap.read, Heap.read]
  change ((h.cells ++ [some a])[p]?).join = _
  change p ≠ h.cells.length at hp
  rcases Nat.lt_or_ge p h.cells.length with hOld | hNew
  · rw [List.getElem?_append_left hOld]
  · rw [List.getElem?_eq_none (by rw [List.length_append, List.length_singleton]; omega),
      List.getElem?_eq_none hNew]

theorem Heap.ne_alloc_of_read {h : Heap α} {p : Nat} {b : α} (hRead : h.read p = some b) (a : α) :
    p ≠ (h.alloc a).2 :=
  Nat.ne_of_lt (Heap.lt_of_read hRead)

theorem Heap.read_alloc {h : Heap α} {p : Nat} {b : α} (hRead : h.read p = some b) (a : α) :
    (h.alloc a).1.read p = some b :=
  (h.read_alloc_of_ne a (Heap.ne_alloc_of_read hRead a)).trans hRead

theorem Heap.free_of_read {h : Heap α} {p : Nat} {a : α} (hRead : h.read p = some a) :
    ∃ h', h.free p = some h' ∧ h'.read p = none ∧ ∀ q, q ≠ p → h'.read q = h.read q := by
  have hp := Heap.lt_of_read hRead
  refine ⟨⟨h.cells.set p none⟩, by rw [Heap.free, hRead]; rfl, ?_, ?_⟩
  · rw [Heap.read_set h hp, if_pos rfl]
  · intro q hq
    rw [Heap.read_set h hp, if_neg hq]

theorem Heap.length_of_free {h h' : Heap α} {p : Nat} (hFree : h.free p = some h') :
    h'.cells.length = h.cells.length := by
  obtain ⟨_, _, rfl⟩ := Option.map_eq_some_iff.mp hFree
  exact List.length_set

theorem Heap.length_of_write {h h' : Heap α} {p : Nat} {a : α} (hWrite : h.write p a = some h') :
    h'.cells.length = h.cells.length := by
  obtain ⟨_, _, rfl⟩ := Option.map_eq_some_iff.mp hWrite
  exact List.length_set

theorem Heap.write_of_read {h : Heap α} {p : Nat} {b : α} (hRead : h.read p = some b) (a : α) :
    ∃ h', h.write p a = some h' ∧ h'.read p = some a ∧ ∀ q, q ≠ p → h'.read q = h.read q := by
  have hp := Heap.lt_of_read hRead
  refine ⟨⟨h.cells.set p (some a)⟩, by rw [Heap.write, hRead]; rfl, ?_, ?_⟩
  · rw [Heap.read_set h hp, if_pos rfl]
  · intro q hq
    rw [Heap.read_set h hp, if_neg hq]

theorem Heap.write_self {h : Heap α} {p : Nat} {a : α} (hRead : h.read p = some a) :
    h.write p a = some h := by
  obtain ⟨hp, hAt⟩ := List.getElem?_eq_some_iff.mp ((h.read_eq_some_iff p a).mp hRead)
  rw [Heap.write, hRead, Option.map_some, ← hAt, List.set_getElem_self]

end Allocations
