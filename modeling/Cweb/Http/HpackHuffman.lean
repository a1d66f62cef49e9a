import Cweb.Http.HpackRead
import Cweb.Lib.PrefixCode

/-!
# Huffman strings

The trie is a map from words to symbols, whatever the table is; that no code of
the table starts with another one makes it a reader of a prefix code. The bits
of the octets of a literal then are the codes of the symbols and the padding.
-/

namespace Cweb.Hpack

open PrefixCode

/-! ## The trie as a map -/

/-- The low `len` bits of a code, the highest first. -/
def lowBits (code : Nat) : Nat → List Bool
  | 0 => []
  | len + 1 => code.testBit len :: lowBits code len

def HuffNode.symbolAt : HuffNode → List Bool → Option Nat
  | .null, _ => none
  | .node symbol _ _, [] => symbol
  | .node _ zero one, b :: word => (if b then one else zero).symbolAt word

@[simp]
theorem HuffNode.symbolAt_null (word : List Bool) : HuffNode.null.symbolAt word = none := by
    cases word <;> rfl

@[simp]
theorem HuffNode.symbolAt_empty (word : List Bool) :
    (HuffNode.node none .null .null).symbolAt word = none := by
  rcases word with _ | ⟨b, word⟩
  · rfl
  · cases b <;> exact HuffNode.symbolAt_null word

theorem symbolAt_huffInsert (code sym : Nat) (len : Nat) : ∀ (n : HuffNode) (word : List Bool),
    (huffInsert code sym len n).symbolAt word = if word = lowBits code len then some sym
      else n.symbolAt word := by
  induction len with
  | zero =>
    rintro (_ | ⟨symbol, zero, one⟩) (_ | ⟨b, word⟩)
    · rfl
    · cases b <;> simp [huffInsert, HuffNode.symbolAt, lowBits]
    · rfl
    · simp [huffInsert, HuffNode.symbolAt, lowBits]
  | succ len ih =>
    rintro (_ | ⟨symbol, zero, one⟩) (_ | ⟨b, word⟩)
    · cases hBit : code.testBit len <;> simp [huffInsert, hBit, HuffNode.symbolAt, lowBits]
    · cases hBit : code.testBit len <;> cases b <;> simp [huffInsert, hBit, HuffNode.symbolAt, lowBits, ih]
    · cases hBit : code.testBit len <;> simp [huffInsert, hBit, HuffNode.symbolAt, lowBits]
    · cases hBit : code.testBit len <;> cases b <;> simp [huffInsert, hBit, HuffNode.symbolAt, lowBits, ih]

theorem symbolAt_foldl (table : List ((Nat × Nat) × Nat)) : ∀ (root : HuffNode) {word : List Bool}
    {sym : Nat},
    (table.foldl (fun root e => huffInsert e.1.1 e.2 e.1.2 root) root).symbolAt word = some sym →
    root.symbolAt word = some sym ∨ ∃ e ∈ table, e.2 = sym ∧ word = lowBits e.1.1 e.1.2 := by
  induction table with
  | nil =>
    intro root word sym h
    exact .inl h
  | cons e table ih =>
    intro root word sym h
    rcases ih _ h with h | ⟨e', hMem, hEq⟩
    · rw [symbolAt_huffInsert] at h
      split at h
      next hWord => exact .inr ⟨e, List.mem_cons_self, Option.some.inj h, hWord⟩
      next => exact .inl h
    · exact .inr ⟨e', List.mem_cons_of_mem _ hMem, hEq⟩

/-- The code of a symbol, 256 being the end of string. -/
def huffCode (sym : Nat) : List Bool :=
  match hpackHuffman[sym]? with
  | none => []
  | some (code, len) => lowBits code len

theorem hpHuffBuild_symbolAt {word : List Bool} {sym : Nat} (h : hpHuffBuild.symbolAt word = some sym) :
    sym < 257 ∧ word = huffCode sym := by
  have hTable : (HuffNode.node none .null .null).symbolAt word = some sym ∨
      ∃ e ∈ hpackHuffman.zipIdx, e.2 = sym ∧ word = lowBits e.1.1 e.1.2 := symbolAt_foldl _ _ h
  obtain hEmpty | ⟨⟨⟨code, len⟩, i⟩, hMem, hSym, hWord⟩ := hTable
  · rw [HuffNode.symbolAt_empty] at hEmpty
    exact nomatch hEmpty
  · have hAt : hpackHuffman[i]? = some (code, len) := List.mk_mem_zipIdx_iff_getElem?.mp hMem
    obtain ⟨hLt, _⟩ := List.getElem?_eq_some_iff.mp hAt
    rw [hpackHuffman_length] at hLt
    subst hSym
    exact ⟨hLt, by rw [huffCode, hAt]; exact hWord⟩

/-! ## The trie as a reader -/

def huffStep (n : HuffNode) (bit : Bool) : Option (HuffNode ⊕ UInt8) :=
  match n with
  | .null => none
  | .node _ zero one =>
    match (if bit then one else zero) with
    | .null => none
    | .node none zero one => some (.inl (.node none zero one))
    | .node (some sym) _ _ => if sym = 256 then none else some (.inr (UInt8.ofNat sym))

def huffReader (root : HuffNode) : Reader HuffNode Bool UInt8 := ⟨root, huffStep⟩

theorem huffReader_walk (root : HuffNode) (word : List Bool) :
    (huffReader root).walk word = (huffReader root).walkFrom root word := rfl

def octetCode (a : UInt8) : List Bool := huffCode a.toNat

theorem symbolAt_of_inl {n m : HuffNode} {bit : Bool} (h : huffStep n bit = some (.inl m))
    (word : List Bool) :
    n.symbolAt (bit :: word) = m.symbolAt word := by
  rcases n with _ | ⟨symbol, zero, one⟩
  · exact nomatch h
  · simp only [huffStep] at h
    rw [HuffNode.symbolAt]
    split at h
    · exact nomatch h
    next hChild =>
      rw [hChild, ← Sum.inl.inj (Option.some.inj h)]
    next => split at h <;> exact nomatch h

theorem symbolAt_of_inr {n : HuffNode} {bit : Bool} {a : UInt8} (h : huffStep n bit = some (.inr a)) :
    ∃ sym, n.symbolAt [bit] = some sym ∧ sym ≠ 256 ∧ a = UInt8.ofNat sym := by
  rcases n with _ | ⟨symbol, zero, one⟩
  · exact nomatch h
  · simp only [huffStep] at h
    split at h
    · exact nomatch h
    · exact nomatch h
    next sym _ _ hChild =>
      split at h
      · exact nomatch h
      next hEos =>
        refine ⟨sym, ?_, hEos, (Sum.inr.inj (Option.some.inj h)).symm⟩
        rw [HuffNode.symbolAt, hChild]
        rfl

theorem symbolAt_walk {root : HuffNode} (word : List Bool) :
    ∀ {n : HuffNode}, (huffReader root).walk word = some n →
    ∀ tail, root.symbolAt (word ++ tail) = n.symbolAt tail := by
  induction word using List.reverseRecOn with
  | nil =>
    rintro n hWalk tail
    obtain rfl := Option.some.inj hWalk
    rfl
  | append_singleton word b ih =>
    rintro n hWalk tail
    rw [Reader.walk_concat] at hWalk
    obtain ⟨m, hm, hWalk⟩ := Option.bind_eq_some_iff.mp hWalk
    obtain ⟨next, hStep, hLeft⟩ := Option.bind_eq_some_iff.mp hWalk
    obtain rfl : next = .inl n := Sum.getLeft?_eq_some_iff.mp hLeft
    rw [List.append_assoc, ih hm, List.singleton_append, symbolAt_of_inl hStep]

/-- The symbol at the end of a path on which no other one stands. -/
def HuffNode.firstAt : HuffNode → List Bool → Option Nat
  | .node (some sym) _ _, [] => some sym
  | .node none zero one, b :: word => (if b then one else zero).firstAt word
  | _, _ => none

theorem hpHuffBuild_firstAt :
    ∀ e ∈ hpackHuffman.zipIdx, hpHuffBuild.firstAt (lowBits e.1.1 e.1.2) = some e.2 := by
  decide +kernel

theorem walkFrom_of_firstAt (root : HuffNode) {sym : Nat} (hEos : sym ≠ 256) (path : List Bool) :
    ∀ {zero one : HuffNode}, (HuffNode.node none zero one).firstAt path = some sym →
    ∃ word n b, path = word ++ [b] ∧ (huffReader root).walkFrom (.node none zero one) word = some n ∧
      huffStep n b = some (.inr (UInt8.ofNat sym)) := by
  induction path with
  | nil =>
    rintro zero one h
    simp only [HuffNode.firstAt, reduceCtorEq] at h
  | cons b path ih =>
    rintro zero one h
    simp only [HuffNode.firstAt] at h
    rcases hChild : (if b then one else zero) with _ | ⟨_ | sym', zero', one'⟩
    · rw [hChild] at h
      cases path <;> exact nomatch h
    · rw [hChild] at h
      obtain ⟨word, n, b', hPath, hWalk, hStep⟩ := ih h
      have hInner : (huffReader root).step (.node none zero one) b = some (.inl (.node none zero' one')) := by
        simp only [huffReader, huffStep, hChild]
      exact ⟨b :: word, n, b', by
        rw [hPath, List.cons_append], (Reader.walkFrom_cons_of_step hInner word).trans hWalk,
        hStep⟩
    · rw [hChild] at h
      rcases path with _ | ⟨b', path⟩
      · obtain rfl := Option.some.inj h
        exact ⟨[], _, b, rfl, rfl, by rw [huffStep, hChild]; exact if_neg hEos⟩
      · exact nomatch h

theorem inner_of_firstAt {root : HuffNode} {b : Bool} {path : List Bool} {sym : Nat}
    (h : root.firstAt (b :: path) = some sym) : ∃ zero one, root = .node none zero one := by
  rcases root with _ | ⟨_ | _, zero, one⟩
  · exact nomatch h
  · exact ⟨zero, one, rfl⟩
  · exact nomatch h

theorem hpHuffBuild_reads {sym : Nat} (h : sym < 257) : hpHuffBuild.firstAt (huffCode sym) = some sym := by
  rw [← hpackHuffman_length] at h
  obtain ⟨⟨code, len⟩, hGet⟩ : ∃ e, hpackHuffman[sym]? = some e := ⟨_, List.getElem?_eq_getElem h⟩
  rw [huffCode, hGet]
  exact hpHuffBuild_firstAt ((code, len), sym) (List.mk_mem_zipIdx_iff_getElem?.mpr hGet)

theorem huffReader_spells : (huffReader hpHuffBuild).Spells octetCode where
  sound word n b a hWalk hStep := by
    obtain ⟨sym, hSym, hEos, rfl⟩ := symbolAt_of_inr hStep
    rw [← symbolAt_walk word hWalk] at hSym
    obtain ⟨hLt, hWord⟩ := hpHuffBuild_symbolAt hSym
    have hOctet : sym < 256 := by omega
    rw [octetCode, UInt8.toNat_ofNat_of_lt' hOctet, ← hWord]
  complete a := by
    have hOctet : a.toNat < 256 := a.toNat_lt
    have hFirst := hpHuffBuild_reads (Nat.lt_succ_of_lt hOctet)
    have hZero : hpHuffBuild.firstAt (huffCode 0) = some 0 := hpHuffBuild_reads (by omega)
    obtain ⟨zero, one, hRoot⟩ := inner_of_firstAt hZero
    rw [hRoot] at hFirst
    obtain ⟨word, n, b, hWord, hWalk, hStep⟩ := walkFrom_of_firstAt hpHuffBuild (Nat.ne_of_lt hOctet) _ hFirst
    rw [UInt8.ofNat_toNat] at hStep
    rw [← hRoot] at hWalk
    exact ⟨word, n, b, by rw [octetCode, hWord], (huffReader_walk hpHuffBuild word).trans hWalk, hStep⟩

/-! ## The decoder -/

/-- The decoder after what has been read: it counts and checks the bits since the root. -/
def huffState (p : Progress HuffNode Bool UInt8) : HuffState :=
  ⟨p.state, p.rest.length, p.rest.all id, p.text⟩

theorem huffBit_eq (root : HuffNode) (p : Progress HuffNode Bool UInt8) (bit : Bool) :
    huffBit root (huffState p) bit = ((huffReader root).feed p bit).map huffState := by
  rcases p with ⟨_ | ⟨symbol, zero, one⟩, text, rest⟩
  · rfl
  · simp only [huffBit, huffState, Reader.feed, huffReader, huffStep]
    rcases hChild : (if bit then one else zero) with _ | ⟨_ | sym, zero', one'⟩
    · rfl
    · simp only [Option.map_some, huffState, List.length_append, List.length_singleton, List.all_append,
        List.all_cons,
        List.all_nil, id_eq, Bool.and_true]
    · simp only
      split <;> rfl

/-- The bits of an octet in the order they are sent. -/
def octetBits (b : UInt8) : List Bool := lowBits b.toNat 8

def bits (raw : Bytes) : List Bool := raw.flatMap octetBits

theorem huffByte_eq (root : HuffNode) (st : HuffState) (b : UInt8) :
    huffByte root st b = (octetBits b).foldlM (huffBit root) st := rfl

theorem foldlM_huffByte (root : HuffNode) (raw : Bytes) : ∀ st,
    raw.foldlM (huffByte root) st = (bits raw).foldlM (huffBit root) st := by
  induction raw with
  | nil =>
    intro st
    rfl
  | cons b raw ih =>
    intro st
    rw [List.foldlM_cons, huffByte_eq, bits, List.flatMap_cons, List.foldlM_append]
    congr 1
    funext st'
    exact ih st'

theorem foldlM_huffBit (root : HuffNode) (w : List Bool) : ∀ p,
    w.foldlM (huffBit root) (huffState p) = (w.foldlM (huffReader root).feed p).map huffState := by
  induction w with
  | nil =>
    intro p
    rfl
  | cons b w ih =>
    intro p
    rw [List.foldlM_cons, List.foldlM_cons, huffBit_eq]
    cases (huffReader root).feed p b with
    | none => rfl
    | some q => exact ih q

theorem huffState_start (root : HuffNode) : huffState (huffReader root).start = ⟨root, 0, true, []⟩ := rfl

theorem huffDecode_eq (raw : Bytes) : huffDecode raw = ((huffReader hpHuffBuild).run (bits raw)).bind fun p =>
    if p.rest.length = 0 ∨ (p.rest.length ≤ 7 ∧ p.rest.all id) then some p.text else none := by
  have hFold := foldlM_huffBit hpHuffBuild (bits raw) (huffReader hpHuffBuild).start
  rw [← foldlM_huffByte, huffState_start] at hFold
  simp only [huffDecode, hFold, Reader.run]
  cases (bits raw).foldlM (huffReader hpHuffBuild).feed (huffReader hpHuffBuild).start <;> rfl

/-- The octets are the codes of the symbols and at most seven one bits. -/
def HuffText (raw s : Bytes) : Prop := ∃ k ≤ 7, bits raw = encode octetCode s ++ List.replicate k true

theorem walk_ones : ∀ k < 8, ((huffReader hpHuffBuild).walk (List.replicate k true)).isSome := by
    decide +kernel

theorem eq_ones {rest : List Bool} (h : rest.all id) : rest = List.replicate rest.length true :=
  List.eq_replicate_of_mem fun b hb => List.all_eq_true.mp h b hb

theorem huffDecode_eq_some_iff (raw s : Bytes) : huffDecode raw = some s ↔ HuffText raw s := by
  rw [huffDecode_eq]
  constructor
  · intro h
    obtain ⟨p, hRun, hPad⟩ := Option.bind_eq_some_iff.mp h
    obtain ⟨hBits, _⟩ := Reader.run_sound huffReader_spells (bits raw) hRun
    split at hPad
    next hRest =>
      obtain rfl := Option.some.inj hPad
      refine ⟨p.rest.length, by omega, ?_⟩
      rcases hRest with hNil | ⟨_, hOnes⟩
      · rw [hBits, hNil, List.eq_nil_of_length_eq_zero hNil]
        rfl
      · rw [← eq_ones hOnes]
        exact hBits
    next => exact nomatch hPad
  · rintro ⟨k, hk, hBits⟩
    obtain ⟨n, hWalk⟩ := Option.isSome_iff_exists.mp (walk_ones k (by omega))
    have hRun := (Reader.run_eq_some_iff huffReader_spells (bits raw) ⟨n, s, List.replicate k true⟩).mpr
      ⟨hBits, hWalk⟩
    rw [hRun, Option.bind_some, if_pos]
    right
    rw [List.length_replicate]
    exact ⟨hk, by rw [List.all_eq_true]; rintro b hb; rw [List.eq_of_mem_replicate hb]; rfl⟩

theorem HuffText.unique {raw s t : Bytes} (hs : HuffText raw s) (ht : HuffText raw t) : s = t :=
  Option.some.inj (((huffDecode_eq_some_iff raw s).mpr hs).symm.trans ((huffDecode_eq_some_iff raw t).mpr ht))

/-! ## The canonical encoding -/

/-- The octet sent as eight bits, the highest first. -/
def octetOf (w : List Bool) : UInt8 := UInt8.ofNat (w.foldl (fun v b => 2 * v + b.toNat) 0)

/-- Eight bits to an octet; what is missing in the last one is ones. -/
def packBits : Nat → List Bool → Bytes
  | 0, _ => []
  | fuel + 1, w =>
    if w = [] then []
    else octetOf (w.take 8 ++ List.replicate (8 - w.length) true) :: packBits fuel (w.drop 8)

def huffEncode (s : Bytes) : Bytes :=
  let w := encode octetCode s
  packBits w.length w

theorem octetBits_octetOf {w : List Bool} (h : w.length = 8) : octetBits (octetOf w) = w := by
  have hAll : ∀ a b c d e f g i : Bool,
    octetBits (octetOf [a, b, c, d, e, f, g, i]) = [a, b, c, d, e, f, g, i] := by
    decide
  match w, h with
  | [a, b, c, d, e, f, g, i], _ => exact hAll a b c d e f g i

def padding (len : Nat) : Nat := (8 - len % 8) % 8

theorem bits_packBits (fuel : Nat) : ∀ {w : List Bool}, w.length ≤ fuel →
    bits (packBits fuel w) = w ++ List.replicate (padding w.length) true := by
  induction fuel with
  | zero =>
    intro w h
    rw [List.eq_nil_of_length_eq_zero (Nat.le_zero.mp h)]
    rfl
  | succ fuel ih =>
    intro w h
    rcases eq_or_ne w [] with rfl | hw
    · rfl
    · have hPos := List.length_pos_iff.mpr hw
      have hRest := ih (w := w.drop 8) (by rw [List.length_drop]; omega)
      have hOctet : (w.take 8 ++ List.replicate (8 - w.length) true).length = 8 := by
        rw [List.length_append, List.length_take, List.length_replicate]
        omega
      rw [bits, List.length_drop] at hRest
      rw [packBits, if_neg hw, bits, List.flatMap_cons, octetBits_octetOf hOctet, hRest]
      rcases Nat.lt_or_ge w.length 8 with hShort | hLong
      · rw [List.take_of_length_le (by omega), List.drop_of_length_le (by omega), padding, padding]
        simp only [List.nil_append, List.append_assoc, List.replicate_append_replicate]
        congr 2
        omega
      · rw [Nat.sub_eq_zero_of_le hLong, List.replicate_zero, List.append_nil, ← List.append_assoc,
          List.take_append_drop, padding, padding, Nat.mod_eq_sub_mod hLong]

theorem huffText_huffEncode (s : Bytes) : HuffText (huffEncode s) s := by
  refine ⟨padding (encode octetCode s).length, ?_, bits_packBits _ (Nat.le_refl _)⟩
  exact Nat.le_of_lt_succ (Nat.mod_lt _ (by omega))

/-! ## Huffman-flagged literals -/

/-- The literal at the front of `p` is Huffman-flagged and has the payload `e`. -/
structure Flagged (p e rest : Bytes) : Prop where
  flag : ∃ first tail, p = first :: tail ∧ 128 ≤ first.toNat
  payload : hpInt 7 p = some (e.length, e ++ rest)

theorem hpString_flagged {p e rest : Bytes} (h : Flagged p e rest) :
    hpString p = if hpackMaxStringLen < e.length then none else (huffDecode e).map fun s => (s, rest) := by
  obtain ⟨first, tail, rfl, hFirst⟩ := h.flag
  have hLong : ¬(e ++ rest).length < e.length := by
    rw [List.length_append]
    omega
  simp only [hpString, h.payload, hLong, or_false, if_pos hFirst, List.take_left', List.drop_left']

/-- A Huffman-flagged literal within the limit on strings is read as the one text
its payload is the code of, and is refused if there is none. A longer one is
refused. -/
theorem hpString_huffman {p e rest : Bytes} (h : Flagged p e rest) :
    (e.length ≤ hpackMaxStringLen → (∀ s left, hpString p = some (s, left) ↔ HuffText e s ∧ left = rest) ∧
      (∀ s t, HuffText e s → HuffText e t → s = t) ∧ ∀ s, e = huffEncode s → hpString p = some (s, rest)) ∧
    (hpackMaxStringLen < e.length → hpString p = none) := by
  refine ⟨fun hCap => ?_, fun hLong => by rw [hpString_flagged h, if_pos hLong]⟩
  have hRead : ∀ s left, hpString p = some (s, left) ↔ HuffText e s ∧ left = rest := by
    intro s left
    rw [hpString_flagged h, if_neg (Nat.not_lt.mpr hCap), Option.map_eq_some_iff, ← huffDecode_eq_some_iff]
    constructor
    · rintro ⟨t, hText, hEq⟩
      obtain ⟨rfl, rfl⟩ := Prod.mk.inj hEq
      exact ⟨hText, rfl⟩
    · rintro ⟨hText, rfl⟩
      exact ⟨s, hText, rfl⟩
  refine ⟨hRead, fun s t => HuffText.unique, ?_⟩
  rintro s rfl
  exact (hRead s rest).mpr ⟨huffText_huffEncode s, rfl⟩

theorem hpString_huffman_example :
    hpString [0x8c, 0xf1, 0xe3, 0xc2, 0xe5, 0xf2, 0x3a, 0x6b, 0xa0, 0xab, 0x90, 0xf4, 0xff] =
      some (ascii "www.example.com", []) :=
  (hpString_huffman (e := [0xf1, 0xe3, 0xc2, 0xe5, 0xf2, 0x3a, 0x6b, 0xa0, 0xab, 0x90, 0xf4, 0xff])
    ⟨⟨_, _, rfl, by decide⟩, rfl⟩).1 (by decide) |>.2.2 (ascii "www.example.com") (by decide +kernel)

theorem flagged_encInt {e : Bytes} (h : e.length < 2 ^ 32) (rest : Bytes) :
    Flagged (hpEncInt e.length 7 128 ++ (e ++ rest)) e rest where
  flag := by
    obtain ⟨v, hv, tail, hTail⟩ : ∃ v < 2 ^ 7, ∃ tail, hpEncInt e.length 7 128 ++
      (e ++ rest) = UInt8.ofNat (128 + v) :: tail :=
      hpEncInt_head _
    refine ⟨_, tail, hTail, ?_⟩
    rw [UInt8.toNat_ofNat']
    omega
  payload := hpInt_encInt h ⟨1, rfl⟩ (by omega) (e ++ rest)

/-- Five zero bits are the digit zero, so that five zero octets are eight of them. -/
theorem huffText_zeros (n : Nat) : HuffText (List.replicate (n * 5) 0) (List.replicate (n * 8) 48) := by
  have hOctet : octetBits 0 = List.replicate 8 false := by decide
  have hDigit : octetCode 48 = List.replicate 5 false := by decide
  refine ⟨0, by omega, ?_⟩
  rw [bits, encode, List.flatMap_replicate, List.flatMap_replicate, hOctet, hDigit,
    List.flatten_replicate_replicate,
    List.flatten_replicate_replicate, List.replicate_zero, List.append_nil]
  congr 1
  omega

/-- 65540 octets of zero bits are the code of 104864 digits, and are refused for their length. -/
theorem long_huffman_refused :
    Flagged (0xff :: 0x85 :: 0xff :: 0x03 :: List.replicate 65540 0) (List.replicate 65540 0) [] ∧
      HuffText (List.replicate 65540 0) (List.replicate 104864 48) ∧
      hpString (0xff :: 0x85 :: 0xff :: 0x03 :: List.replicate 65540 0) = none := by
  have hLength : (List.replicate 65540 (0 : UInt8)).length = 65540 := List.length_replicate
  have hInt : hpEncInt 65540 7 128 = [0xff, 0x85, 0xff, 0x03] := by decide
  have hFlagged := flagged_encInt (e := List.replicate 65540 0) (by omega) []
  rw [hLength, hInt, List.append_nil] at hFlagged
  refine ⟨hFlagged, huffText_zeros 13108, ?_⟩
  refine (hpString_flagged hFlagged).trans (if_pos ?_)
  rw [hLength]
  decide

end Cweb.Hpack
