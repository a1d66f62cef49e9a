import Cweb.Lib.FifoTable
import Cweb.Utils.Sv

/-!
# The HPACK dynamic table and RFC 7541 sections 4.2 to 4.4

The decoder keeps its dynamic table newest first, with a running byte total
and a budget. Insertion and resizing each have an eviction loop. The standard
table is the size-bounded FIFO of the library at the RFC's entry size. The
insertion of the code leaves it on two inputs: an entry larger than a non-zero
budget returns early without emptying the table, and under a zero budget the
early return is skipped and the entry is stored.
-/

namespace Cweb.HpackTable

structure Field where
  name : Bytes
  value : Bytes
deriving DecidableEq, Repr

/-- RFC 7541 section 4.1. -/
def Field.size (e : Field) : Nat := e.name.length + e.value.length + 32

/-- The decoder state that header blocks change. The array slots behind the
table and the Huffman trie, built once, are left out. -/
structure Hpack where
  dynTable : List Field
  dynUsed : Nat
  dynMaxCapacity : Nat
deriving DecidableEq, Repr

def hpackInit : Hpack := ⟨[], 0, 4096⟩

def hpDynInsert (hp : Hpack) (name value : Bytes) : Hpack :=
  let entry : Field := ⟨name, value⟩
  if hp.dynMaxCapacity ≠ 0 ∧ hp.dynMaxCapacity < entry.size then hp
  else
    let kept := FifoTable.popLoop Field.size hp.dynTable hp.dynMaxCapacity entry.size
      hp.dynTable.length hp.dynUsed
    { hp with dynTable := entry :: hp.dynTable.take kept.1, dynUsed := kept.2 + entry.size }

def hpShrinkTo (hp : Hpack) (size : Nat) : Hpack :=
  let kept := FifoTable.popLoop Field.size hp.dynTable size 0 hp.dynTable.length hp.dynUsed
  ⟨hp.dynTable.take kept.1, kept.2, size⟩

/-- The running total is the size of the table. -/
def Hpack.Accounted (hp : Hpack) : Prop :=
  hp.dynUsed = FifoTable.total Field.size hp.dynTable

inductive TableOp where
  | insert (name value : Bytes)
  | setCapacity (size : Nat)
deriving DecidableEq, Repr

abbrev RfcTable := FifoTable.Table Field

/-- An insertion the code performs as the RFC does: the entry fits the whole
budget, or the table it should empty is empty and the budget is not zero. -/
def Sound (t : RfcTable) : TableOp → Prop
  | .insert name value =>
    Field.size ⟨name, value⟩ ≤ t.capacity ∨ (t.capacity ≠ 0 ∧ t.entries = [])
  | .setCapacity _ => True

/-- Same budget and same entries. -/
def Agrees (hp : Hpack) (t : RfcTable) : Prop :=
  hp.dynTable = t.entries ∧ hp.dynMaxCapacity = t.capacity

end Cweb.HpackTable
