import Cweb.Http.HpackMemory

/-!
# The dynamic table in memory and RFC 7541 sections 4.2 to 4.4

A new entry brings the text of its name or refers to a name the tables hold.
The RFC resolves the reference before it evicts. Here the insertion and the
resizing of the code run over allocations, and the run is compared with the
RFC's table on the same operations.
-/

namespace Cweb.Hpack

open HpackTable

inductive NameRef where
  | text (name : Bytes)
  | index (idx : Nat)
deriving DecidableEq

inductive DynOp where
  | insert (name : NameRef) (value : Bytes)
  | setCapacity (size : Nat)
deriving DecidableEq

/-- The strings of an entry, as far as they are still allocated. -/
def Entry.field (heap : Allocations.Heap Bytes) (e : Entry) : Option Field :=
  match (View.copy e.name).read heap, (View.copy e.value).read heap with
  | some name, some value => some ⟨name, value⟩
  | _, _ => none

def dynFields (m : HpackMem) : List (Option Field) := m.dyn.map (Entry.field m.heap)

/-! ## The RFC's table -/

/-- Both tables are one index space that starts at 1. -/
def rfcLookup (t : RfcTable) (idx : Nat) : Option Field :=
  if idx = 0 then none else (hpackStaticTable ++ t.entries)[idx - 1]?

def DynOp.resolve (t : RfcTable) : DynOp → Option TableOp
  | .insert (.text name) value => some (.insert name value)
  | .insert (.index idx) value => (rfcLookup t idx).map fun e => .insert e.name value
  | .setCapacity size => some (.setCapacity size)

def decoderOf (t : RfcTable) : Hpack := ⟨t.entries, FifoTable.total Field.size t.entries, t.capacity⟩

/-- The insertion keeps the entry its name is taken from. -/
def DynOp.Kept (t : RfcTable) : DynOp → Prop
  | .insert (.index idx) value => ∀ e, rfcLookup t idx = some e →
    Borrow.Kept ⟨decoderOf t, idx, e.name, value⟩
  | _ => True

/-- The operation is one the code performs as the RFC does. -/
structure DynOp.Sound (t : RfcTable) (op : DynOp) : Prop where
  sound : ∀ plain, op.resolve t = some plain → HpackTable.Sound t plain
  kept : op.Kept t

theorem Stands.fields {m : HpackMem} {hp : Hpack} (h : Stands m hp) : dynFields m = hp.dynTable.map some := by
  apply List.ext_getElem (by rw [dynFields, List.length_map, List.length_map, h.length])
  intro i hi hi'
  rw [dynFields, List.length_map] at hi
  rw [List.length_map] at hi'
  have hHolds := h.holds i _ _ (List.getElem?_eq_getElem hi) (List.getElem?_eq_getElem hi')
  simp only [dynFields, List.getElem_map, Entry.field, View.read, hHolds.name, hHolds.value, Option.map_some,
    hHolds.nameCount, hHolds.valueCount, List.take_length]

end Cweb.Hpack
