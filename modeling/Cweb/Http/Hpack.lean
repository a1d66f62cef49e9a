import Cweb.Http.HpackStatic

/-!
# Decoding and encoding header blocks

A block is a sequence of representations: table size updates, indexed fields
and literals. Decoding changes the dynamic table as it goes, also when a later
representation turns out to be malformed. The encoder uses neither the dynamic
table nor Huffman strings.
-/

namespace Cweb.Hpack

open HpackTable

/-! ## The Huffman trie -/

inductive HuffNode where
  | null
  | node (symbol : Option Nat) (zero one : HuffNode)
deriving DecidableEq, Repr

/-- Walk the low `len` bits of a code, the highest first, making the nodes
that are missing. -/
def huffInsert (code sym : Nat) : Nat → HuffNode → HuffNode
  | 0, .null => .node (some sym) .null .null
  | 0, .node _ zero one => .node (some sym) zero one
  | len + 1, .null =>
    if code.testBit len then .node none .null (huffInsert code sym len .null)
    else .node none (huffInsert code sym len .null) .null
  | len + 1, .node symbol zero one =>
    if code.testBit len then .node symbol zero (huffInsert code sym len one)
    else .node symbol (huffInsert code sym len zero) one

def hpHuffBuild : HuffNode :=
  hpackHuffman.zipIdx.foldl (fun root e => huffInsert e.1.1 e.2 e.1.2 root) (.node none .null .null)

/-- The decoder between two bits. `pending` counts the bits since the root. -/
structure HuffState where
  node : HuffNode
  pending : Nat
  padOnes : Bool
  out : Bytes
deriving DecidableEq, Repr

def huffBit (root : HuffNode) (st : HuffState) (bit : Bool) : Option HuffState :=
  let padOnes := st.padOnes && bit
  match st.node with
  | .null => none
  | .node _ zero one =>
    match (if bit then one else zero) with
    | .null => none
    | .node none zero one => some ⟨.node none zero one, st.pending + 1, padOnes, st.out⟩
    | .node (some sym) _ _ =>
      if sym = 256 then none else some ⟨root, 0, true, st.out ++ [UInt8.ofNat sym]⟩

def huffByte (root : HuffNode) (st : HuffState) (byte : UInt8) : Option HuffState :=
  [7, 6, 5, 4, 3, 2, 1, 0].foldlM (fun st i => huffBit root st (byte.toNat.testBit i)) st

/-- What is left behind the last symbol is at most seven one bits. -/
def huffDecode (raw : Bytes) : Option Bytes :=
  let root := hpHuffBuild
  match raw.foldlM (huffByte root) ⟨root, 0, true, []⟩ with
  | none => none
  | some st => if st.pending = 0 ∨ (st.pending ≤ 7 ∧ st.padOnes) then some st.out else none

/-! ## Integers and strings -/

/-- The continuation octets. The multiplier is a 64-bit number. -/
def hpIntRest : Nat → Nat → Bytes → Option (Nat × Bytes)
  | _, _, [] => none
  | mult, out, b :: rest =>
    let add := (b.toNat % 128) * mult % 2 ^ 64
    if 2 ^ 32 ≤ out + add then none
    else if 128 ≤ b.toNat then
      if mult * 128 % 2 ^ 64 = 0 then none else hpIntRest (mult * 128 % 2 ^ 64) (out + add) rest
    else some (out + add, rest)

def hpInt (nbits : Nat) : Bytes → Option (Nat × Bytes)
  | [] => none
  | b :: rest =>
    let maxp := 2 ^ nbits - 1
    let v := b.toNat % 2 ^ nbits
    if v < maxp then some (v, rest) else hpIntRest 1 maxp rest

def hpackMaxStringLen : Nat := 64 * 1024

def hpString (p : Bytes) : Option (Bytes × Bytes) :=
  match p with
  | [] => none
  | first :: _ =>
    match hpInt 7 p with
    | none => none
    | some (len, rest) =>
      if hpackMaxStringLen < len ∨ rest.length < len then none
      else if 128 ≤ first.toNat then (huffDecode (rest.take len)).map fun s => (s, rest.drop len)
      else some (rest.take len, rest.drop len)

/-! ## Blocks -/

def hpLookup (hp : Hpack) (idx : Nat) : Option Field :=
  if 1 ≤ idx ∧ idx ≤ 61 then hpackStaticTable[idx - 1]?
  else if 62 ≤ idx then hp.dynTable[idx - 62]?
  else none

/-- A literal: its name from a table or spelled out, then its value. -/
def hpLiteral (hp : Hpack) (nbits : Nat) (p : Bytes) : Option (Field × Bytes) :=
  match hpInt nbits p with
  | none => none
  | some (idx, rest) =>
    let name : Option (Bytes × Bytes) :=
      if idx = 0 then hpString rest else (hpLookup hp idx).map fun e => (e.name, rest)
    match name with
    | none => none
    | some (name, rest) => (hpString rest).map fun v => (⟨name, v.1⟩, v.2)

/-- One representation at the front of a block: the decoder afterwards, the
field if it is one, and the rest of the block. -/
def hpRepresentation (hp : Hpack) (anyField : Bool) (p : Bytes) : Hpack × Option (Option Field × Bytes) :=
  match p with
  | [] => (hp, none)
  | b :: _ =>
    if b.toNat / 32 = 1 then
      if anyField then (hp, none)
      else
        match hpInt 5 p with
        | none => (hp, none)
        | some (size, rest) =>
          if hp.dynMaxCapacity < size then (hp, none) else (hpShrinkTo hp size, some (none, rest))
    else if 128 ≤ b.toNat then
      match hpInt 7 p with
      | none => (hp, none)
      | some (idx, rest) =>
        match hpLookup hp idx with
        | none => (hp, none)
        | some e => (hp, some (some e, rest))
    else if 64 ≤ b.toNat then
      match hpLiteral hp 6 p with
      | none => (hp, none)
      | some (e, rest) => (hpDynInsert hp e.name e.value, some (some e, rest))
    else
      match hpLiteral hp 4 p with
      | none => (hp, none)
      | some (e, rest) => (hp, some (some e, rest))

def hpDecodeLoop : Nat → Hpack → List Field → Bytes → Hpack × Option (List Field)
  | _, hp, fields, [] => (hp, some fields)
  | 0, hp, _, _ => (hp, none)
  | fuel + 1, hp, fields, p =>
    match hpRepresentation hp (!fields.isEmpty) p with
    | (hp, none) => (hp, none)
    | (hp, some (none, rest)) => hpDecodeLoop fuel hp fields rest
    | (hp, some (some e, rest)) => hpDecodeLoop fuel hp (fields ++ [e]) rest

/-- Each representation takes at least one octet. -/
def hpackDecodeBlock (hp : Hpack) (data : Bytes) : Hpack × Option (List Field) :=
  hpDecodeLoop data.length hp [] data

/-! ## Encoding -/

def hpEncRest : Nat → Nat → Bytes
  | 0, value => [UInt8.ofNat value]
  | fuel + 1, value =>
    if 128 ≤ value then UInt8.ofNat (value % 128 + 128) :: hpEncRest fuel (value / 128)
    else [UInt8.ofNat value]

def hpEncInt (value nbits pattern : Nat) : Bytes :=
  let maxp := 2 ^ nbits - 1
  if value < maxp then [UInt8.ofNat (pattern + value)]
  else UInt8.ofNat (pattern + maxp) :: hpEncRest 5 (value - maxp)

def hpEncStr (s : Bytes) : Bytes := hpEncInt (s.length % 2 ^ 32) 7 0 ++ s

def hpStaticIndex (name : Bytes) : Nat :=
  match hpackStaticTable.findIdx? fun e => e.name == name with
  | none => 0
  | some i => i + 1

def hpackEncodeStatus (status : Nat) : Bytes :=
  match status with
  | 200 => [0x88]
  | 204 => [0x89]
  | 206 => [0x8a]
  | 304 => [0x8b]
  | 400 => [0x8c]
  | 404 => [0x8d]
  | 500 => [0x8e]
  | _ => hpEncInt 0 4 0 ++ hpEncStr (ascii ":status") ++ hpEncStr (Sv.decimal status)

def hpackEncodeField (name value : Bytes) : Bytes :=
  let idx := hpStaticIndex name
  (if idx = 0 then hpEncInt 0 4 0 ++ hpEncStr name else hpEncInt idx 4 0) ++ hpEncStr value

end Cweb.Hpack
