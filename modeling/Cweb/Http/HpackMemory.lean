import Cweb.Lib.Allocations
import Cweb.Http.HpackUpdates

/-!
# The strings of the dynamic table

The table owns a copy of each name and value. Eviction frees them, and a literal
that takes its name from an entry hands the entry's own copy to the insertion,
which evicts first and copies the name afterwards. Here the decoder runs over
allocations; `none` is a read of freed memory, or a second free.
-/

namespace Cweb.Hpack

open HpackTable Allocations

/-- A copy the table owns. -/
structure Owned where
  ptr : Nat
  count : Nat
deriving DecidableEq, Repr

/-- A view of a string: memory that outlives the call, or a copy. -/
inductive View where
  | fixed (bytes : Bytes)
  | copy (o : Owned)
deriving DecidableEq, Repr

structure Entry where
  name : Owned
  value : Owned
deriving DecidableEq, Repr

structure HpackMem where
  heap : Heap Bytes
  dyn : List Entry
  dynUsed : Nat
  dynMaxCapacity : Nat
deriving DecidableEq, Repr

def View.count : View → Nat
  | .fixed bytes => bytes.length
  | .copy o => o.count

def View.read (heap : Heap Bytes) : View → Option Bytes
  | .fixed bytes => some bytes
  | .copy o => (heap.read o.ptr).map (List.take o.count)

/-- A literal with incremental indexing whose name stands in a table, and the
decoder that comes to it. -/
structure Borrow where
  hp : Hpack
  idx : Nat
  name : Bytes
  value : Bytes
deriving DecidableEq, Repr

def Borrow.size (b : Borrow) : Nat := Field.size ⟨b.name, b.value⟩

/-- The insertion keeps the entry the name stands in: the name is a static one,
the new entry is too large to be put in, or it fits beside that entry and all
newer ones. -/
def Borrow.Kept (b : Borrow) : Prop :=
  b.idx ≤ 61 ∨ (b.hp.dynMaxCapacity ≠ 0 ∧ b.hp.dynMaxCapacity < b.size) ∨
    FifoTable.total Field.size (b.hp.dynTable.take (b.idx - 61)) + b.size ≤ b.hp.dynMaxCapacity

/-! ## Memory that shows a table -/

def Entry.ptrs (e : Entry) : List Nat := [e.name.ptr, e.value.ptr]

structure Holds (heap : Heap Bytes) (e : Entry) (f : Field) : Prop where
  name : heap.read e.name.ptr = some f.name
  nameCount : e.name.count = f.name.length
  value : heap.read e.value.ptr = some f.value
  valueCount : e.value.count = f.value.length

/-- No two copies share an allocation. -/
structure Apart (dyn : List Entry) : Prop where
  own : ∀ (i : Nat) (e : Entry), dyn[i]? = some e → e.name.ptr ≠ e.value.ptr
  other : ∀ (i j : Nat) (e e' : Entry), i ≠ j → dyn[i]? = some e → dyn[j]? = some e' →
    ∀ p ∈ e.ptrs, p ∉ e'.ptrs

/-- The table in memory is this decoder's. -/
structure Stands (m : HpackMem) (hp : Hpack) : Prop where
  length : m.dyn.length = hp.dynTable.length
  holds : ∀ (i : Nat) (e : Entry) (f : Field), m.dyn[i]? = some e → hp.dynTable[i]? = some f →
    Holds m.heap e f
  apart : Apart m.dyn
  used : m.dynUsed = hp.dynUsed
  capacity : m.dynMaxCapacity = hp.dynMaxCapacity
  accounted : hp.Accounted

theorem Holds.congr {heap heap' : Heap Bytes} {e : Entry} {f : Field} (h : Holds heap e f)
    (hSame : ∀ p ∈ e.ptrs, heap'.read p = heap.read p) : Holds heap' e f := by
  refine ⟨?_, h.nameCount, ?_, h.valueCount⟩
  · rw [hSame _ List.mem_cons_self, h.name]
  · rw [hSame _ (List.mem_cons_of_mem _ List.mem_cons_self), h.value]

theorem Holds.live {heap : Heap Bytes} {e : Entry} {f : Field} (h : Holds heap e f) {p : Nat}
    (hp : p ∈ e.ptrs) :
    ∃ bytes, heap.read p = some bytes := by
  rcases List.mem_cons.mp hp with rfl | hp
  · exact ⟨_, h.name⟩
  · obtain rfl := List.mem_singleton.mp hp
    exact ⟨_, h.value⟩

theorem Apart.take {dyn : List Entry} (h : Apart dyn) (n : Nat) : Apart (dyn.take n) := by
  have hGet : ∀ (i : Nat) (e : Entry), (dyn.take n)[i]? = some e → dyn[i]? = some e := by
    intro i e he
    rw [List.getElem?_take] at he
    split at he
    · exact he
    · cases he
  exact ⟨fun i e he => h.own i e (hGet i e he),
    fun i j e e' hNe he he' => h.other i j e e' hNe (hGet i e he) (hGet j e' he')⟩

theorem Stands.congr {m : HpackMem} {hp : Hpack} (h : Stands m hp) {heap : Heap Bytes}
    (hSame : ∀ e ∈ m.dyn, ∀ p ∈ e.ptrs, heap.read p = m.heap.read p) : Stands { m with heap := heap } hp :=
  ⟨h.length, fun i e f he hf => (h.holds i e f he hf).congr (hSame e (List.mem_of_getElem? he)),
    h.apart, h.used,
    h.capacity, h.accounted⟩

theorem Stands.live {m : HpackMem} {hp : Hpack} (h : Stands m hp) {e : Entry} (he : e ∈ m.dyn) {p : Nat}
    (hPtr : p ∈ e.ptrs) : ∃ bytes, m.heap.read p = some bytes := by
  obtain ⟨i, hi, rfl⟩ := List.getElem_of_mem he
  have hTable : i < hp.dynTable.length := h.length ▸ hi
  exact (h.holds i _ _ (List.getElem?_eq_getElem hi) (List.getElem?_eq_getElem hTable)).live hPtr

/-! ## Eviction -/

theorem Stands.push {m : HpackMem} {hp : Hpack} (h : Stands m hp) (name value : Bytes) :
    Stands ⟨((m.heap.alloc name).1.alloc value).1,
        ⟨⟨(m.heap.alloc name).2, name.length⟩,
          ⟨((m.heap.alloc name).1.alloc value).2, value.length⟩⟩ :: m.dyn,
        m.dynUsed + Field.size ⟨name, value⟩, m.dynMaxCapacity⟩
      { hp with dynTable := ⟨name, value⟩ :: hp.dynTable, dynUsed := hp.dynUsed +
        Field.size ⟨name, value⟩ } := by
  have hFresh : ∀ e ∈ m.dyn, ∀ p ∈ e.ptrs,
      p ≠ (m.heap.alloc name).2 ∧ p ≠ ((m.heap.alloc name).1.alloc value).2 ∧
        ((m.heap.alloc name).1.alloc value).1.read p = m.heap.read p := by
    intro e he p hPtr
    obtain ⟨bytes, hRead⟩ := h.live he hPtr
    have hNext := Heap.read_alloc hRead name
    exact ⟨Heap.ne_alloc_of_read hRead name, Heap.ne_alloc_of_read hNext value,
      (Heap.read_alloc hNext value).trans hRead.symm⟩
  have hName := Heap.read_alloc_self m.heap name
  have hOwn := Heap.ne_alloc_of_read hName value
  have hNew : ∀ e ∈ m.dyn, ∀ p ∈ e.ptrs,
      p ∉ [(m.heap.alloc name).2, ((m.heap.alloc name).1.alloc value).2] := by
    intro e he p hPtr hMem
    obtain ⟨hNe, hNe', _⟩ := hFresh e he p hPtr
    rcases List.mem_cons.mp hMem with hEq | hMem
    · exact hNe hEq
    · exact hNe' (List.mem_singleton.mp hMem)
  refine ⟨?_, ?_, ⟨?_, ?_⟩, ?_, h.capacity, ?_⟩
  · rw [List.length_cons, List.length_cons, h.length]
  · intro i e f he hf
    cases i with
    | zero =>
      obtain rfl := Option.some.inj he
      obtain rfl := Option.some.inj hf
      exact ⟨Heap.read_alloc hName value, rfl, Heap.read_alloc_self _ value, rfl⟩
    | succ i =>
      refine (h.holds i e f he hf).congr ?_
      intro p hPtr
      exact (hFresh e (List.mem_of_getElem? he) p hPtr).2.2
  · intro i e he
    cases i with
    | zero =>
      obtain rfl := Option.some.inj he
      exact hOwn
    | succ i => exact h.apart.own i e he
  · intro i j e e' hNe he he' p hPtr hPtr'
    cases i with
    | zero =>
      obtain rfl := Option.some.inj he
      cases j with
      | zero => exact hNe rfl
      | succ j => exact hNew e' (List.mem_of_getElem? he') p hPtr' hPtr
    | succ i =>
      cases j with
      | zero =>
        obtain rfl := Option.some.inj he'
        exact hNew e (List.mem_of_getElem? he) p hPtr hPtr'
      | succ j => exact h.apart.other i j e e' (fun hEq => hNe (congrArg _ hEq)) he he' p hPtr hPtr'
  · change m.dynUsed + _ = hp.dynUsed + _
    rw [h.used]
  · have hTotal : hp.dynUsed = FifoTable.total Field.size hp.dynTable := h.accounted
    change hp.dynUsed + _ = FifoTable.total Field.size (_ :: hp.dynTable)
    rw [FifoTable.total_cons, hTotal, Nat.add_comm]

/-! ## Insertion -/

/-- When every name is kept the step comes out at the decoder and the answer
given, and otherwise it reads freed memory. -/
structure Mirrors {α : Type*} (bs : List Borrow) (got : Option (HpackMem × α)) (hp : Hpack)
    (answer : α) : Prop where
  kept : (∀ b ∈ bs, b.Kept) → ∃ m, got = some (m, answer) ∧ Stands m hp
  lost : (∃ b ∈ bs, ¬ b.Kept) → got = none

theorem Mirrors.of_eq {α : Type*} {m : HpackMem} {hp : Hpack} (h : Stands m hp)
    {got : Option (HpackMem × α)} {answer : α}
    (hGot : got = some (m, answer)) : Mirrors [] got hp answer :=
  ⟨fun _ => ⟨m, hGot, h⟩, fun ⟨_, hMem, _⟩ => absurd hMem List.not_mem_nil⟩

theorem Mirrors.map {α β : Type*} {bs : List Borrow} {got : Option (HpackMem × α)} {hp : Hpack} {answer : α}
    (h : Mirrors bs got hp answer) (f : α → β) :
    Mirrors bs (got.map fun x => (x.1, f x.2)) hp (f answer) := by
  refine ⟨?_, ?_⟩
  · intro hKept
    obtain ⟨m, rfl, hStands⟩ := h.kept hKept
    exact ⟨m, rfl, hStands⟩
  · intro hLost
    rw [h.lost hLost]
    rfl

theorem Mirrors.bind {α β : Type*} {bs bs' : List Borrow} {got : Option (HpackMem × α)} {hp hp' : Hpack}
    {answer : α}
    {answer' : β} (h : Mirrors bs got hp answer) {next : HpackMem × α → Option (HpackMem × β)}
    (hNext : ∀ m, Stands m hp → Mirrors bs' (next (m, answer)) hp' answer') :
    Mirrors (bs ++ bs') (got.bind next) hp' answer' := by
  refine ⟨?_, ?_⟩
  · intro hKept
    obtain ⟨m, rfl, hStands⟩ := h.kept fun b hb => hKept b (List.mem_append_left _ hb)
    exact (hNext m hStands).kept fun b hb => hKept b (List.mem_append_right _ hb)
  · rintro ⟨b, hb, hLost⟩
    by_cases hFirst : ∀ b ∈ bs, b.Kept
    · obtain ⟨m, rfl, hStands⟩ := h.kept hFirst
      obtain hb | hb := List.mem_append.mp hb
      · exact absurd (hFirst b hb) hLost
      · exact (hNext m hStands).lost ⟨b, hb, hLost⟩
    · push Not at hFirst
      rw [h.lost hFirst]
      rfl

theorem Stands.free {m : HpackMem} {hp : Hpack} (h : Stands m hp) {p : Nat} {text : Bytes}
    (hText : m.heap.read p = some text)
    (hOut : ∀ e ∈ m.dyn, p ∉ e.ptrs) : ∃ heap, m.heap.free p = some heap ∧
      Stands { m with heap := heap } hp := by
  obtain ⟨heap, hFree, _, hSame⟩ := Heap.free_of_read hText
  refine ⟨heap, hFree, h.congr ?_⟩
  intro e he q hPtr
  apply hSame
  rintro rfl
  exact hOut e he hPtr

end Cweb.Hpack
