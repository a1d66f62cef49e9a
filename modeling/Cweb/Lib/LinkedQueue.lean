import Mathlib.Data.List.Nodup
import Mathlib.Logic.Function.Basic

/-!
# A queue of linked cells

The cells live in a heap, each with the address of its successor. The queue
keeps the address of its first and of its last cell. `Linked` says which
addresses the queue runs through. Both operations keep it, and cells that are
not in the queue are left alone.
-/

namespace LinkedQueue

structure Cell (α : Type*) where
  arg : α
  next : Option Nat

abbrev Heap (α : Type*) := Nat → Option (Cell α)

structure LinkedQueue (α : Type*) where
  heap : Heap α
  head : Option Nat
  tail : Option Nat

variable {α : Type*}

def setNext (heap : Heap α) (last new : Nat) : Heap α :=
  match heap last with
  | some cell => Function.update heap last (some { cell with next := some new })
  | none => heap

def LinkedQueue.push (q : LinkedQueue α) (new : Nat) (arg : α) : LinkedQueue α :=
  let heap := Function.update q.heap new (some ⟨arg, none⟩)
  match q.tail with
  | some last => ⟨setNext heap last new, q.head, some new⟩
  | none => ⟨heap, some new, some new⟩

/-- The first cell is taken off. It stays allocated until it is freed. -/
def LinkedQueue.pop (q : LinkedQueue α) (first : Cell α) : LinkedQueue α :=
  match first.next with
  | some second => { q with head := some second }
  | none => { q with head := none, tail := none }

def LinkedQueue.free (q : LinkedQueue α) (old : Nat) : LinkedQueue α :=
  { q with heap := Function.update q.heap old none }

def LinkedQueue.empty : LinkedQueue α := ⟨fun _ => none, none, none⟩

/-- The successors lead from `head` through these addresses and end there. -/
def Chain (heap : Heap α) : Option Nat → List Nat → Prop
  | head, [] => head = none
  | head, a :: rest => head = some a ∧ ∃ cell, heap a = some cell ∧ Chain heap cell.next rest

structure Linked (q : LinkedQueue α) (addrs : List Nat) : Prop where
  chain : Chain q.heap q.head addrs
  last : q.tail = addrs.getLast?
  nodup : addrs.Nodup

/-- What the cells at these addresses carry. -/
def args (heap : Heap α) (addrs : List Nat) : List α :=
  addrs.filterMap fun a => (heap a).map Cell.arg

@[simp]
theorem args_nil (heap : Heap α) : args heap [] = [] := rfl

theorem args_cons {heap : Heap α} {a : Nat} {cell : Cell α} (h : heap a = some cell) (addrs : List Nat) :
    args heap (a :: addrs) = cell.arg :: args heap addrs := by
  simp [args, h]

@[simp]
theorem args_append (heap : Heap α) (front back : List Nat) :
    args heap (front ++ back) = args heap front ++ args heap back :=
  List.filterMap_append

theorem args_congr {heap heap' : Heap α} {addrs : List Nat}
    (h : ∀ a ∈ addrs, (heap' a).map Cell.arg = (heap a).map Cell.arg) : args heap' addrs = args heap addrs :=
  List.filterMap_congr h

theorem args_perm (heap : Heap α) {addrs addrs' : List Nat} (h : addrs.Perm addrs') :
    (args heap addrs).Perm (args heap addrs') :=
  h.filterMap _

theorem Chain.congr {heap heap' : Heap α} {head : Option Nat} {addrs : List Nat}
    (h : Chain heap head addrs) (hSame : ∀ a ∈ addrs, heap' a = heap a) : Chain heap' head addrs := by
  induction addrs generalizing head with
  | nil => exact h
  | cons a rest ih =>
    obtain ⟨hHead, cell, hCell, hRest⟩ := h
    refine ⟨hHead, cell, ?_, ?_⟩
    · rw [hSame a List.mem_cons_self, hCell]
    · exact ih hRest fun b hb => hSame b (List.mem_cons_of_mem a hb)

theorem Chain.allocated {heap : Heap α} {head : Option Nat} {addrs : List Nat}
    (h : Chain heap head addrs) : ∀ a ∈ addrs, (heap a).isSome = true := by
  induction addrs generalizing head with
  | nil =>
    intro a ha
    cases ha
  | cons a rest ih =>
    obtain ⟨_, cell, hCell, hRest⟩ := h
    intro b hb
    obtain rfl | hb := List.mem_cons.mp hb
    · rw [hCell]
      rfl
    · exact ih hRest b hb

theorem Chain.concat {heap heap' : Heap α} {head : Option Nat} {front : List Nat} {last new : Nat}
    {cell newCell : Cell α} (h : Chain heap head (front ++ [last])) (hLast : heap last = some cell)
    (hFront : ∀ a ∈ front, heap' a = heap a) (hSet : heap' last = some { cell with next := some new })
    (hNew : heap' new = some newCell) (hEnd : newCell.next = none) :
    Chain heap' head (front ++ [last] ++ [new]) := by
  induction front generalizing head with
  | nil =>
    obtain ⟨hHead, _⟩ := h
    exact ⟨hHead, _, hSet, rfl, newCell, hNew, hEnd⟩
  | cons a rest ih =>
    obtain ⟨hHead, first, hFirst, hRest⟩ := h
    refine ⟨hHead, first, ?_, ?_⟩
    · rw [hFront a List.mem_cons_self, hFirst]
    · exact ih hRest fun b hb => hFront b (List.mem_cons_of_mem a hb)

theorem setNext_self {heap : Heap α} {last : Nat} {cell : Cell α} (h : heap last = some cell) (new : Nat) :
    setNext heap last new last = some { cell with next := some new } := by
  rw [setNext, h]
  exact Function.update_self last _ heap

theorem setNext_of_ne (heap : Heap α) {last a : Nat} (h : a ≠ last) (new : Nat) :
    setNext heap last new a = heap a := by
  cases hCell : heap last with
  | none => rw [setNext, hCell]
  | some cell =>
    rw [setNext, hCell]
    exact Function.update_of_ne h _ heap

theorem setNext_arg (heap : Heap α) (last new a : Nat) :
    (setNext heap last new a).map Cell.arg = (heap a).map Cell.arg := by
  by_cases hEq : a = last
  · subst hEq
    cases hCell : heap a with
    | none => rw [setNext, hCell]; simp [hCell]
    | some cell => rw [setNext_self hCell]; rfl
  · rw [setNext_of_ne heap hEq]

theorem push_heap_new {q : LinkedQueue α} {new : Nat} (h : q.tail ≠ some new) (arg : α) :
    (q.push new arg).heap new = some ⟨arg, none⟩ := by
  cases hTail : q.tail with
  | none =>
    rw [LinkedQueue.push, hTail]
    exact Function.update_self new _ _
  | some last =>
    have hNe : new ≠ last := by
      rintro rfl
      exact h hTail
    rw [LinkedQueue.push, hTail]
    exact (setNext_of_ne _ hNe new).trans (Function.update_self new _ _)

theorem push_heap_of_ne {q : LinkedQueue α} {new a : Nat} (hNew : a ≠ new) (hLast : q.tail ≠ some a)
    (arg : α) : (q.push new arg).heap a = q.heap a := by
  cases hTail : q.tail with
  | none =>
    rw [LinkedQueue.push, hTail]
    exact Function.update_of_ne hNew _ _
  | some last =>
    have hNe : a ≠ last := by
      rintro rfl
      exact hLast hTail
    rw [LinkedQueue.push, hTail]
    exact (setNext_of_ne _ hNe new).trans (Function.update_of_ne hNew _ _)

theorem push_heap_arg {q : LinkedQueue α} {new a : Nat} (h : a ≠ new) (arg : α) :
    ((q.push new arg).heap a).map Cell.arg = (q.heap a).map Cell.arg := by
  cases hTail : q.tail with
  | none =>
    rw [LinkedQueue.push, hTail]
    dsimp only
    rw [Function.update_of_ne h]
  | some last =>
    rw [LinkedQueue.push, hTail]
    dsimp only
    rw [setNext_arg, Function.update_of_ne h]

theorem Linked.empty : Linked (LinkedQueue.empty : LinkedQueue α) [] :=
  ⟨rfl, rfl, List.nodup_nil⟩

theorem Linked.head_eq_none {q : LinkedQueue α} {addrs : List Nat} (h : Linked q addrs) :
    q.head = none ↔ addrs = [] := by
  cases addrs with
  | nil => exact ⟨fun _ => rfl, fun _ => h.chain⟩
  | cons a rest =>
    rw [h.chain.1]
    exact ⟨nofun, nofun⟩

theorem Linked.tail_mem {q : LinkedQueue α} {addrs : List Nat} (h : Linked q addrs) {a : Nat}
    (hTail : q.tail = some a) : a ∈ addrs :=
  List.mem_of_getLast? (h.last ▸ hTail)

theorem Linked.push {q : LinkedQueue α} {addrs : List Nat} (h : Linked q addrs) {new : Nat}
    (hFresh : q.heap new = none) (arg : α) :
    Linked (q.push new arg) (addrs ++ [new]) ∧
      args (q.push new arg).heap (addrs ++ [new]) = args q.heap addrs ++ [arg] := by
  have hNotIn : new ∉ addrs := by
    intro hIn
    have hSome := h.chain.allocated new hIn
    rw [hFresh] at hSome
    cases hSome
  have hTail : q.tail ≠ some new := fun hTail => hNotIn (h.tail_mem hTail)
  have hNew := push_heap_new hTail arg
  refine ⟨⟨?_, ?_, ?_⟩, ?_⟩
  · obtain rfl | ⟨front, last, rfl⟩ := List.eq_nil_or_concat addrs
    · have hLast : q.tail = none := h.last
      have hHead : (q.push new arg).head = some new := by rw [LinkedQueue.push, hLast]
      exact ⟨hHead, _, hNew, rfl⟩
    · rw [List.concat_eq_append] at h hNotIn ⊢
      have hLast : q.tail = some last := by rw [h.last, List.getLast?_concat]
      obtain ⟨cell, hCell⟩ := Option.isSome_iff_exists.mp (h.chain.allocated last (by simp))
      have hNe : last ≠ new := by
        rintro rfl
        exact hTail hLast
      have hHead : (q.push new arg).head = q.head := by rw [LinkedQueue.push, hLast]
      have hSet : (q.push new arg).heap last = some { cell with next := some new } := by
        rw [LinkedQueue.push, hLast]
        exact setNext_self (by rw [Function.update_of_ne hNe, hCell]) new
      rw [hHead]
      refine h.chain.concat hCell ?_ hSet hNew rfl
      intro a ha
      apply push_heap_of_ne
      · rintro rfl
        exact hNotIn (List.mem_append_left _ ha)
      · rw [hLast]
        intro hEq
        cases hEq
        exact (List.nodup_append.mp h.nodup).2.2 last ha last (List.mem_singleton_self last) rfl
  · rw [List.getLast?_concat, LinkedQueue.push]
    cases q.tail <;> rfl
  · refine List.Nodup.append h.nodup (List.nodup_singleton new) ?_
    intro a ha hNewMem
    rw [List.mem_singleton] at hNewMem
    exact hNotIn (hNewMem ▸ ha)
  · rw [args_append, args_cons hNew, args_nil]
    congr 1
    apply args_congr
    intro a ha
    apply push_heap_arg
    rintro rfl
    exact hNotIn ha

theorem Linked.head_cell {q : LinkedQueue α} {addrs : List Nat} (h : Linked q addrs) {a : Nat}
    (hHead : q.head = some a) : ∃ cell rest, q.heap a = some cell ∧ addrs = a :: rest := by
  cases addrs with
  | nil =>
    have hNone : q.head = none := h.chain
    rw [hHead] at hNone
    cases hNone
  | cons b rest =>
    obtain ⟨hHead', cell, hCell, _⟩ := h.chain
    rw [hHead] at hHead'
    cases hHead'
    exact ⟨cell, rest, hCell, rfl⟩

theorem pop_heap (q : LinkedQueue α) (cell : Cell α) : (q.pop cell).heap = q.heap := by
  rw [LinkedQueue.pop]
  split <;> rfl

theorem Linked.pop {q : LinkedQueue α} {a : Nat} {rest : List Nat} (h : Linked q (a :: rest))
    {cell : Cell α} (hCell : q.heap a = some cell) : Linked (q.pop cell) rest := by
  obtain ⟨_, cell', hCell', hRest⟩ := h.chain
  rw [hCell] at hCell'
  cases hCell'
  cases rest with
  | nil =>
    have hNext : cell.next = none := hRest
    refine ⟨?_, ?_, List.nodup_nil⟩
    · rw [LinkedQueue.pop, hNext]
      rfl
    · rw [LinkedQueue.pop, hNext]
      rfl
  | cons b rest =>
    have hNext : cell.next = some b := hRest.1
    refine ⟨?_, ?_, (List.nodup_cons.mp h.nodup).2⟩
    · rw [pop_heap, LinkedQueue.pop, hNext]
      rw [hNext] at hRest
      exact hRest
    · rw [LinkedQueue.pop, hNext]
      exact h.last

theorem Linked.free {q : LinkedQueue α} {addrs : List Nat} (h : Linked q addrs) {old : Nat}
    (hOld : old ∉ addrs) : Linked (q.free old) addrs := by
  refine ⟨?_, h.last, h.nodup⟩
  apply h.chain.congr
  intro a ha
  have hNe : a ≠ old := ne_of_mem_of_not_mem ha hOld
  exact Function.update_of_ne hNe _ _

theorem args_free (q : LinkedQueue α) {addrs : List Nat} {old : Nat} (hOld : old ∉ addrs) :
    args (q.free old).heap addrs = args q.heap addrs := by
  apply args_congr
  intro a ha
  have hNe : a ≠ old := ne_of_mem_of_not_mem ha hOld
  exact congrArg (Option.map Cell.arg) (Function.update_of_ne hNe _ _)

end LinkedQueue
