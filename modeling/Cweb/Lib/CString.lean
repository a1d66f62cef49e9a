import Mathlib.Data.List.Infix
import Mathlib.Data.List.TakeWhile

/-!
# String literals of C11

What the text of a string literal denotes: trigraphs are replaced, lines that
end in a backslash are joined, and the escape sequences between the quotes are
read (5.1.1.2, 5.2.1.1, 6.4.3, 6.4.4.4 and 6.4.5 of the standard). Bytes that
are not ASCII stand for themselves.
-/

namespace CString

theorem forall_byte {P : UInt8 → Prop} (h : ∀ n : Fin 256, P (UInt8.ofNat n)) (b : UInt8) : P b := by
  have hb := h ⟨b.toNat, b.toNat_lt⟩
  rwa [UInt8.ofNat_toNat] at hb

/-! ## Trigraphs and lines -/

/-- What `??c` is replaced by. -/
def trigraph (c : UInt8) : Option UInt8 :=
  if c = 61 then some 35
  else if c = 47 then some 92
  else if c = 39 then some 94
  else if c = 40 then some 91
  else if c = 41 then some 93
  else if c = 33 then some 124
  else if c = 60 then some 123
  else if c = 62 then some 125
  else if c = 45 then some 126
  else none

def replaceTrigraphs : List UInt8 → List UInt8
  | [] => []
  | [a] => [a]
  | [a, b] => [a, b]
  | a :: b :: c :: rest =>
    if a = 63 ∧ b = 63 then
      match trigraph c with
      | some r => r :: replaceTrigraphs rest
      | none => a :: replaceTrigraphs (b :: c :: rest)
    else a :: replaceTrigraphs (b :: c :: rest)

def joinLines : List UInt8 → List UInt8
  | [] => []
  | [a] => [a]
  | a :: b :: rest => if a = 92 ∧ b = 10 then joinLines rest else a :: joinLines (b :: rest)

def HasTrigraph (s : List UInt8) : Prop := ∃ c, trigraph c ≠ none ∧ [63, 63, c] <:+: s

/-! ## Escape sequences -/

def octalDigit (c : UInt8) : Option Nat := if 48 ≤ c ∧ c ≤ 55 then some (c.toNat - 48) else none

def hexDigit (c : UInt8) : Option Nat :=
  if 48 ≤ c ∧ c ≤ 57 then some (c.toNat - 48)
  else if 97 ≤ c ∧ c ≤ 102 then some (c.toNat - 87)
  else if 65 ≤ c ∧ c ≤ 70 then some (c.toNat - 55)
  else none

def simpleEscape (c : UInt8) : Option UInt8 :=
  if c = 39 ∨ c = 34 ∨ c = 63 ∨ c = 92 then some c
  else if c = 97 then some 7
  else if c = 98 then some 8
  else if c = 102 then some 12
  else if c = 110 then some 10
  else if c = 114 then some 13
  else if c = 116 then some 9
  else if c = 118 then some 11
  else none

/-- A universal character name does not name a surrogate, nor one of the basic characters. -/
def universalOk (n : Nat) : Bool :=
  (n == 0x24 || n == 0x40 || n == 0x60 || 0xa0 ≤ n) && !(0xd800 ≤ n && n ≤ 0xdfff) && n ≤ 0x10ffff

def utf8 (n : Nat) : List UInt8 :=
  if n < 0x80 then [UInt8.ofNat n]
  else if n < 0x800 then [UInt8.ofNat (0xc0 + n / 64), UInt8.ofNat (0x80 + n % 64)]
  else if n < 0x10000 then
    [UInt8.ofNat (0xe0 + n / 4096), UInt8.ofNat (0x80 + n / 64 % 64), UInt8.ofNat (0x80 + n % 64)]
  else [UInt8.ofNat (0xf0 + n / 262144 % 8), UInt8.ofNat (0x80 + n / 4096 % 64),
    UInt8.ofNat (0x80 + n / 64 % 64), UInt8.ofNat (0x80 + n % 64)]

/-- Where a reader is between two characters. -/
inductive Reading
  | chars
  | escape
  | octal (digits value : Nat)
  | hex (value : Option Nat)
  | universal (left value : Nat)
deriving DecidableEq

def byteOf (n : Nat) : Option (List UInt8) := if n < 256 then some [UInt8.ofNat n] else none

/-- What a numeric escape sequence stands for that ends here. -/
def Reading.finish : Reading → Option (List UInt8)
  | .chars => some []
  | .octal _ value => byteOf value
  | .hex (some value) => byteOf value
  | _ => none

def readChar (c : UInt8) : Option (List UInt8 × Reading) :=
  if c = 92 then some ([], .escape)
  else if c = 10 then none
  else some ([c], .chars)

def readEscape (c : UInt8) : Option (List UInt8 × Reading) :=
  match simpleEscape c, octalDigit c with
  | some v, _ => some ([v], .chars)
  | none, some d => some ([], .octal 1 d)
  | none, none =>
    if c = 120 then some ([], .hex none)
    else if c = 117 then some ([], .universal 4 0)
    else if c = 85 then some ([], .universal 8 0)
    else none

/-- A character that does not belong to the escape sequence before it. -/
def Reading.next (st : Reading) (c : UInt8) : Option (List UInt8 × Reading) :=
  match st.finish, readChar c with
  | some done, some (out, st') => some (done ++ out, st')
  | _, _ => none

def Reading.step (st : Reading) (c : UInt8) : Option (List UInt8 × Reading) :=
  match st with
  | .chars => readChar c
  | .escape => readEscape c
  | .octal digits value =>
    match octalDigit c with
    | some d =>
      if digits < 2 then some ([], .octal (digits + 1) (8 * value + d))
      else (byteOf (8 * value + d)).map fun out => (out, .chars)
    | none => st.next c
  | .hex value =>
    match hexDigit c with
    | some d => some ([], .hex (some (16 * value.getD 0 + d)))
    | none => st.next c
  | .universal left value =>
    match hexDigit c with
    | some d =>
      let n := 16 * value + d
      if 1 < left then some ([], .universal (left - 1) n)
      else if universalOk n then some (utf8 n, .chars) else none
    | none => none

/-- The characters up to the closing quote, which ends the text. -/
def readChars : Reading → List UInt8 → Option (List UInt8)
  | _, [] => none
  | st, c :: rest =>
    if c = 34 ∧ st ≠ .escape then if rest = [] then st.finish else none
    else
      match st.step c with
      | none => none
      | some (out, st') => (readChars st' rest).map (out ++ ·)

def readLiteral : List UInt8 → Option (List UInt8)
  | [] => none
  | c :: rest => if c = 34 then readChars .chars rest else none

/-- What the text of a string literal denotes, the final zero left out. -/
def denoted (text : List UInt8) : Option (List UInt8) := readLiteral (joinLines (replaceTrigraphs text))

example : denoted [34, 97, 92, 110, 92, 49, 48, 49, 57, 34] = some [97, 10, 65, 57] := by decide

/-! ## Trigraphs in a text -/

theorem hasTrigraph_cons {a : UInt8} {t : List UInt8} :
    HasTrigraph (a :: t) ↔ (∃ c rest, a = 63 ∧ t = 63 :: c :: rest ∧ trigraph c ≠ none) ∨ HasTrigraph t := by
  constructor
  · rintro ⟨c, hTrigraph, hInfix⟩
    obtain hPrefix | hInfix := List.infix_cons_iff.mp hInfix
    · obtain ⟨rest, hEq⟩ := hPrefix
      obtain ⟨rfl, rfl⟩ := List.cons.inj hEq
      exact .inl ⟨c, rest, rfl, rfl, hTrigraph⟩
    · exact .inr ⟨c, hTrigraph, hInfix⟩
  · rintro (⟨c, rest, rfl, rfl, hTrigraph⟩ | ⟨c, hTrigraph, hInfix⟩)
    · exact ⟨c, hTrigraph, List.infix_cons_iff.mpr (.inl ⟨rest, rfl⟩)⟩
    · exact ⟨c, hTrigraph, List.infix_cons_iff.mpr (.inr hInfix)⟩

theorem not_hasTrigraph_nil : ¬ HasTrigraph [] := by
  rintro ⟨c, _, hInfix⟩
  cases List.infix_nil.mp hInfix

theorem replaceTrigraphs_cons {a : UInt8} {t : List UInt8}
    (h : ∀ c rest, a = 63 → t = 63 :: c :: rest → trigraph c = none) :
    replaceTrigraphs (a :: t) = a :: replaceTrigraphs t := by
  match t with
  | [] => rfl
  | [b] => rfl
  | b :: c :: rest =>
    rw [replaceTrigraphs]
    by_cases hMarks : a = 63 ∧ b = 63
    · obtain ⟨hFirst, rfl⟩ := hMarks
      have hNone := h c rest hFirst rfl
      rw [if_pos ⟨hFirst, rfl⟩, hNone]
    · rw [if_neg hMarks]

theorem replaceTrigraphs_append {xs : List UInt8} (h : 63 ∉ xs) (t : List UInt8) :
    replaceTrigraphs (xs ++ t) = xs ++ replaceTrigraphs t := by
  induction xs with
  | nil => rfl
  | cons x xs ih =>
    obtain ⟨hHead, hTail⟩ := not_or.mp (mt List.mem_cons.mpr h)
    rw [List.cons_append, replaceTrigraphs_cons fun _ _ hMark => absurd hMark.symm hHead, ih hTail]
    rfl

theorem joinLines_of_not_mem {s : List UInt8} (h : 10 ∉ s) : joinLines s = s := by
  match s with
  | [] => rfl
  | [a] => rfl
  | a :: b :: rest =>
    obtain ⟨_, hTail⟩ := not_or.mp (mt List.mem_cons.mpr h)
    obtain ⟨hSecond, _⟩ := not_or.mp (mt List.mem_cons.mpr hTail)
    rw [joinLines, if_neg fun hBoth => hSecond hBoth.2.symm, joinLines_of_not_mem hTail]

/-! ## Reading part of a text -/

/-- Reads characters none of which is the closing quote. -/
def reads : Reading → List UInt8 → Option (List UInt8 × Reading)
  | st, [] => some ([], st)
  | st, c :: rest =>
    if c = 34 ∧ st ≠ .escape then none
    else
      match st.step c with
      | none => none
      | some (out, st') => (reads st' rest).map fun p => (out ++ p.1, p.2)

theorem readChars_append {xs : List UInt8} : ∀ {st : Reading} {out : List UInt8} {st' : Reading},
    reads st xs = some (out, st') → ∀ t, readChars st (xs ++ t) = (readChars st' t).map (out ++ ·) := by
  induction xs with
  | nil =>
    intro st out st' h t
    cases h
    simp
  | cons c xs ih =>
    intro st out st' h t
    rw [reads] at h
    by_cases hClose : c = 34 ∧ st ≠ .escape
    · rw [if_pos hClose] at h
      cases h
    · rw [if_neg hClose] at h
      cases hStep : st.step c with
      | none =>
        rw [hStep] at h
        cases h
      | some p =>
        obtain ⟨first, mid⟩ := p
        rw [hStep] at h
        obtain ⟨⟨more, last⟩, hRest, hEq⟩ := Option.map_eq_some_iff.mp h
        cases hEq
        rw [List.cons_append, readChars, if_neg hClose, hStep]
        dsimp only
        rw [ih hRest, Option.map_map]
        congr 1
        funext w
        exact (List.append_assoc _ _ _).symm

theorem readChars_append_inv {xs t : List UInt8} (ht : t ≠ []) : ∀ {st : Reading} {v : List UInt8},
    readChars st (xs ++ t) = some v →
      ∃ out st' w, reads st xs = some (out, st') ∧ readChars st' t = some w ∧ v = out ++ w := by
  induction xs with
  | nil =>
    intro st v h
    exact ⟨[], st, v, rfl, h, rfl⟩
  | cons c xs ih =>
    intro st v h
    rw [List.cons_append, readChars] at h
    by_cases hClose : c = 34 ∧ st ≠ .escape
    · rw [if_pos hClose, if_neg (by simp [ht])] at h
      cases h
    · rw [if_neg hClose] at h
      cases hStep : st.step c with
      | none =>
        rw [hStep] at h
        cases h
      | some p =>
        obtain ⟨first, mid⟩ := p
        rw [hStep] at h
        obtain ⟨w, hRest, rfl⟩ := Option.map_eq_some_iff.mp h
        obtain ⟨out, st', w', hReads, hw, rfl⟩ := ih hRest
        refine ⟨first ++ out, st', w', ?_, hw, (List.append_assoc _ _ _).symm⟩
        rw [reads, if_neg hClose, hStep]
        dsimp only
        rw [hReads]
        rfl

/-! ## Question marks -/

/-- A pending escape sequence may still turn out to be a question mark. -/
def Reading.pending : Reading → Nat
  | .chars => 0
  | _ => 1

def marks (s : List UInt8) : Nat := s.count 63

theorem marks_append (xs ys : List UInt8) : marks (xs ++ ys) = marks xs + marks ys := List.count_append

theorem marks_singleton_le (b : UInt8) : marks [b] ≤ 1 := List.count_le_length

theorem marks_byteOf {n : Nat} {out : List UInt8} (h : byteOf n = some out) : marks out ≤ 1 := by
  rw [byteOf] at h
  split at h
  · cases h
    exact marks_singleton_le _
  · cases h

theorem ofNat_ne_mark {n : Nat} (hLow : 128 ≤ n) (hHigh : n < 256) : UInt8.ofNat n ≠ 63 := by
  intro hEq
  have hNat := congrArg UInt8.toNat hEq
  rw [UInt8.toNat_ofNat_of_lt' hHigh] at hNat
  have hMark : (63 : UInt8).toNat = 63 := rfl
  omega

theorem marks_utf8 (n : Nat) : marks (utf8 n) ≤ 1 := by
  have hNone : ∀ s : List UInt8, (∀ b ∈ s, b ≠ 63) → marks s ≤ 1 := by
    intro s hs
    have hZero : marks s = 0 := List.count_eq_zero.mpr fun hMem => hs 63 hMem rfl
    omega
  rw [utf8]
  by_cases hOne : n < 0x80
  · rw [if_pos hOne]
    exact marks_singleton_le _
  by_cases hTwo : n < 0x800
  · rw [if_neg hOne, if_pos hTwo]
    apply hNone
    simp only [List.forall_mem_cons, List.not_mem_nil, false_implies, implies_true, and_true]
    exact ⟨ofNat_ne_mark (by omega) (by omega), ofNat_ne_mark (by omega) (by omega)⟩
  by_cases hThree : n < 0x10000
  · rw [if_neg hOne, if_neg hTwo, if_pos hThree]
    apply hNone
    simp only [List.forall_mem_cons, List.not_mem_nil, false_implies, implies_true, and_true]
    exact ⟨ofNat_ne_mark (by omega) (by omega), ofNat_ne_mark (by omega) (by omega),
      ofNat_ne_mark (by omega) (by omega)⟩
  · rw [if_neg hOne, if_neg hTwo, if_neg hThree]
    apply hNone
    simp only [List.forall_mem_cons, List.not_mem_nil, false_implies, implies_true, and_true]
    exact ⟨ofNat_ne_mark (by omega) (by omega), ofNat_ne_mark (by omega) (by omega),
      ofNat_ne_mark (by omega) (by omega), ofNat_ne_mark (by omega) (by omega)⟩

theorem marks_finish {st : Reading} {out : List UInt8} (h : st.finish = some out) :
    marks out ≤ st.pending := by
  match st with
  | .chars =>
    cases h
    exact le_refl 0
  | .octal _ _ => exact marks_byteOf h
  | .hex (some _) => exact marks_byteOf h
  | .hex none => cases h
  | .escape => cases h
  | .universal _ _ => cases h

/-- What a character can add: a question mark, or the start of an escape sequence. -/
def weight (c : UInt8) : Nat := if c = 63 ∨ c = 92 then 1 else 0

theorem weight_le (c : UInt8) : weight c ≤ 1 := by
  rw [weight]
  split <;> omega

theorem marks_readChar {c : UInt8} {out : List UInt8} {st' : Reading} (h : readChar c = some (out, st')) :
    marks out + st'.pending ≤ weight c := by
  rw [readChar] at h
  by_cases hEscape : c = 92
  · rw [if_pos hEscape] at h
    cases h
    rw [hEscape]
    decide
  by_cases hLine : c = 10
  · rw [if_neg hEscape, if_pos hLine] at h
    cases h
  rw [if_neg hEscape, if_neg hLine] at h
  cases h
  rw [weight]
  by_cases hMark : c = 63
  · rw [hMark]
    decide
  · have hZero : marks [c] = 0 := List.count_eq_zero.mpr (by simpa using Ne.symm hMark)
    rw [hZero]
    exact Nat.zero_le _

theorem marks_readEscape {c : UInt8} {out : List UInt8} {st' : Reading} (h : readEscape c = some (out, st')) :
    marks out + st'.pending ≤ 1 := by
  rw [readEscape] at h
  split at h
  · cases h
    exact marks_singleton_le _
  · cases h
    exact le_refl 1
  · split at h
    · cases h
      decide
    split at h
    · cases h
      decide
    split at h
    · cases h
      decide
    · cases h

theorem marks_next {st : Reading} {c : UInt8} {out : List UInt8} {st' : Reading}
    (h : st.next c = some (out, st')) : marks out + st'.pending ≤ st.pending + weight c := by
  rw [Reading.next] at h
  split at h
  · rename_i done more mid hFinish hChar
    cases h
    have hDone := marks_finish hFinish
    have hMore := marks_readChar hChar
    rw [marks_append]
    omega
  · cases h

theorem marks_step {st : Reading} {c : UInt8} {out : List UInt8} {st' : Reading}
    (h : st.step c = some (out, st')) : marks out + st'.pending ≤ st.pending + weight c := by
  have hEnough : marks out + st'.pending ≤ 1 → 1 ≤ st.pending →
      marks out + st'.pending ≤ st.pending + weight c := by omega
  cases st with
  | chars => exact (marks_readChar h).trans (Nat.le_add_left _ _)
  | escape => exact hEnough (marks_readEscape h) (le_refl 1)
  | octal digits value =>
    rw [Reading.step] at h
    split at h
    · split at h
      · cases h
        exact hEnough (le_refl 1) (le_refl 1)
      · obtain ⟨v, hByte, hEq⟩ := Option.map_eq_some_iff.mp h
        cases hEq
        exact hEnough (marks_byteOf hByte) (le_refl 1)
    · exact marks_next h
  | hex value =>
    rw [Reading.step] at h
    split at h
    · cases h
      exact hEnough (le_refl 1) (le_refl 1)
    · exact marks_next h
  | universal left value =>
    rw [Reading.step] at h
    split at h
    · dsimp only at h
      split at h
      · cases h
        exact hEnough (le_refl 1) (le_refl 1)
      split at h
      · cases h
        exact hEnough (marks_utf8 _) (le_refl 1)
      · cases h
    · cases h

theorem marks_reads_one {st : Reading} {c : UInt8} {out : List UInt8} {st' : Reading}
    (h : reads st [c] = some (out, st')) : marks out + st'.pending ≤ st.pending + weight c := by
  rw [reads] at h
  split at h
  · cases h
  · cases hStep : st.step c with
    | none =>
      rw [hStep] at h
      cases h
    | some p =>
      rw [hStep] at h
      cases h
      rw [List.append_nil]
      exact marks_step hStep

/-! ## Encoders -/

/-- An encoder writes every byte as a piece of a literal that is read as this
byte, and leaves the bytes alone that trigraphs consist of. -/
structure Encoder (enc : UInt8 → List UInt8) : Prop where
  read : ∀ b, reads .chars (enc b) = some ([b], .chars)
  bare : ∀ b, b = 63 ∨ trigraph b ≠ none → enc b = [b]
  unmarked : ∀ b, b ≠ 63 → 63 ∉ enc b
  first : ∀ b, trigraph b = none → (enc b).head?.bind trigraph = none
  line : ∀ b, 10 ∉ enc b
  shape : ∀ b, (enc b = [b] ∧ b ≠ 92) ∨ (enc b).head? = some 92
  escaped : ∀ b, ((reads .escape (enc b)).all fun p => marks p.1 + p.2.pending ≤ 1 + marks [b]) = true

section encoders

variable {enc : UInt8 → List UInt8}

/-- The encoding of a text once its trigraphs are replaced. -/
def replaced (enc : UInt8 → List UInt8) : List UInt8 → List UInt8
  | [] => []
  | [a] => enc a
  | [a, b] => enc a ++ enc b
  | a :: b :: c :: rest =>
    if a = 63 ∧ b = 63 then
      match trigraph c with
      | some r => r :: replaced enc rest
      | none => enc a ++ replaced enc (b :: c :: rest)
    else enc a ++ replaced enc (b :: c :: rest)

theorem Encoder.ne_nil (h : Encoder enc) (b : UInt8) : enc b ≠ [] := by
  intro hNil
  have hRead := h.read b
  rw [hNil] at hRead
  cases hRead

theorem marks_of_weight {b : UInt8} (h : b ≠ 92) : weight b = marks [b] := by
  rw [weight]
  by_cases hMark : b = 63
  · rw [hMark]
    decide
  · rw [if_neg (by simp [hMark, h])]
    exact (List.count_eq_zero.mpr (by simpa using Ne.symm hMark)).symm

theorem reads_finish {st : Reading} {xs out : List UInt8} {st' : Reading} (hChars : st ≠ .chars)
    (hEscape : st ≠ .escape) (h : reads st (92 :: xs) = some (out, st')) :
    ∃ done more, st.finish = some done ∧ reads .chars (92 :: xs) = some (more, st') ∧ out = done ++ more := by
  have hStep : st.step 92 = st.finish.map fun done => (done, .escape) := by
    cases st with
    | chars => exact absurd rfl hChars
    | escape => exact absurd rfl hEscape
    | octal digits value =>
      have hDigit : octalDigit 92 = none := by decide
      rw [Reading.step, hDigit]
      dsimp only
      rw [Reading.next]
      cases (Reading.octal digits value).finish with
      | none => rfl
      | some done => exact congrArg (fun l => some (l, Reading.escape)) (List.append_nil done)
    | hex value =>
      have hDigit : hexDigit 92 = none := by decide
      rw [Reading.step, hDigit]
      dsimp only
      rw [Reading.next]
      cases (Reading.hex value).finish with
      | none => rfl
      | some done => exact congrArg (fun l => some (l, Reading.escape)) (List.append_nil done)
    | universal left value => rfl
  rw [reads, if_neg (by simp), hStep] at h
  cases hFinish : st.finish with
  | none =>
    rw [hFinish] at h
    cases h
  | some done =>
    rw [hFinish] at h
    obtain ⟨⟨more, last⟩, hRest, hEq⟩ := Option.map_eq_some_iff.mp h
    cases hEq
    refine ⟨done, more, rfl, ?_, rfl⟩
    rw [reads, if_neg (by simp)]
    exact congrArg (Option.map fun p => ([] ++ p.1, p.2)) hRest

theorem Encoder.marked (h : Encoder enc) {b : UInt8} {st : Reading} {out : List UInt8} {st' : Reading}
    (hReads : reads st (enc b) = some (out, st')) : marks out + st'.pending ≤ st.pending + marks [b] := by
  by_cases hChars : st = .chars
  · rw [hChars, h.read b] at hReads
    cases hReads
    exact Nat.le_add_left _ _
  by_cases hEscape : st = .escape
  · have hPiece := h.escaped b
    rw [hEscape] at hReads ⊢
    rw [hReads] at hPiece
    exact of_decide_eq_true hPiece
  obtain ⟨hBare, hNe⟩ | hFirst := h.shape b
  · rw [hBare] at hReads
    rw [← marks_of_weight hNe]
    exact marks_reads_one hReads
  · obtain ⟨xs, hEnc⟩ := List.head?_eq_some_iff.mp hFirst
    have hRead := h.read b
    rw [hEnc] at hReads hRead
    obtain ⟨done, more, hFinish, hMore, rfl⟩ := reads_finish hChars hEscape hReads
    rw [hRead] at hMore
    cases hMore
    have hDone := marks_finish hFinish
    have hNone : Reading.chars.pending = 0 := rfl
    rw [marks_append]
    omega

theorem replaced_cons {a : UInt8} {t : List UInt8}
    (h : ∀ c rest, a = 63 → t = 63 :: c :: rest → trigraph c = none) :
    replaced enc (a :: t) = enc a ++ replaced enc t := by
  match t with
  | [] => exact (List.append_nil _).symm
  | [b] => rfl
  | b :: c :: rest =>
    rw [replaced]
    by_cases hMarks : a = 63 ∧ b = 63
    · obtain ⟨hFirst, rfl⟩ := hMarks
      have hNone := h c rest hFirst rfl
      rw [if_pos ⟨hFirst, rfl⟩, hNone]
    · rw [if_neg hMarks]

theorem trigraph_or (a : UInt8) (t : List UInt8) :
    (∃ c rest r, a = 63 ∧ t = 63 :: c :: rest ∧ trigraph c = some r) ∨
      ∀ c rest, a = 63 → t = 63 :: c :: rest → trigraph c = none := by
  by_cases h : ∀ c rest, a = 63 → t = 63 :: c :: rest → trigraph c = none
  · exact .inr h
  · simp only [not_forall] at h
    obtain ⟨c, rest, hFirst, hTail, hSome⟩ := h
    obtain ⟨r, hr⟩ := Option.ne_none_iff_exists'.mp hSome
    exact .inl ⟨c, rest, r, hFirst, hTail, hr⟩

theorem replaced_trigraph {c r : UInt8} (rest : List UInt8) (h : trigraph c = some r) :
    replaced enc (63 :: 63 :: c :: rest) = r :: replaced enc rest := by
  rw [replaced, if_pos ⟨rfl, rfl⟩, h]

theorem Encoder.starts (h : Encoder enc) {t : List UInt8} {c : UInt8} {rest : List UInt8}
    (hEq : t.flatMap enc ++ [34] = 63 :: c :: rest) (hTrigraph : trigraph c ≠ none) :
    ∃ rest', t = 63 :: c :: rest' := by
  match t with
  | [] => cases hEq
  | b :: t =>
    by_cases hMark : b = 63
    · subst hMark
      rw [List.flatMap_cons, h.bare 63 (.inl rfl), List.append_assoc] at hEq
      have hTail : t.flatMap enc ++ [34] = c :: rest := (List.cons.inj hEq).2
      match t with
      | [] =>
        obtain ⟨rfl, _⟩ := List.cons.inj hTail
        exact absurd rfl hTrigraph
      | d :: t =>
        have hHead : ∀ e ∈ (enc d).head?, e = c := by
          intro e he
          obtain ⟨more, hMore⟩ := List.head?_eq_some_iff.mp he
          rw [List.flatMap_cons, hMore] at hTail
          exact (List.cons.inj hTail).1
        obtain ⟨e, he⟩ : ∃ e, e ∈ (enc d).head? := by
          obtain ⟨e, more, hMore⟩ := List.exists_cons_of_ne_nil (h.ne_nil d)
          exact ⟨e, by rw [hMore]; rfl⟩
        have hBare : trigraph d ≠ none := by
          intro hNone
          have hFirst := h.first d hNone
          rw [he, Option.bind_some, hHead e he] at hFirst
          exact hTrigraph hFirst
        have hSame := hHead e he
        rw [h.bare d (.inr hBare)] at he
        obtain rfl : d = c := (Option.some.inj he).trans hSame
        exact ⟨t, rfl⟩
    · obtain ⟨e, more, hMore⟩ := List.exists_cons_of_ne_nil (h.ne_nil b)
      have hUnmarked := h.unmarked b hMark
      rw [hMore] at hUnmarked
      rw [List.flatMap_cons, hMore] at hEq
      obtain ⟨rfl, _⟩ := List.cons.inj hEq
      exact absurd List.mem_cons_self hUnmarked

theorem Encoder.replaceTrigraphs (h : Encoder enc) (s : List UInt8) :
    replaceTrigraphs (s.flatMap enc ++ [34]) = replaced enc s ++ [34] := by
  induction hLength : s.length using Nat.strong_induction_on generalizing s with
  | _ n ih =>
  match s with
  | [] => rfl
  | a :: t =>
    rw [List.length_cons] at hLength
    obtain ⟨c, rest, r, rfl, rfl, hTrigraph⟩ | hNone := trigraph_or a t
    · rw [List.length_cons, List.length_cons] at hLength
      have hBare := h.bare 63 (.inl rfl)
      have hThird := h.bare c (.inr (by rw [hTrigraph]; nofun))
      simp only [List.flatMap_cons, hBare, hThird, List.cons_append, List.nil_append]
      rw [CString.replaceTrigraphs, if_pos ⟨rfl, rfl⟩, hTrigraph, replaced_trigraph rest hTrigraph]
      dsimp only
      rw [ih _ (by omega) rest rfl]
      rfl
    · rw [replaced_cons hNone, List.flatMap_cons, List.append_assoc, List.append_assoc]
      by_cases hMark : a = 63
      · rw [hMark, h.bare 63 (.inl rfl)]
        refine (replaceTrigraphs_cons ?_).trans (congrArg (63 :: ·) (ih _ (by omega) t rfl))
        intro c rest _ hEq
        by_contra hSome
        obtain ⟨rest', hText⟩ := h.starts hEq hSome
        exact hSome (hNone c rest' hMark hText)
      · rw [replaceTrigraphs_append (h.unmarked a hMark), ih _ (by omega) t rfl]

theorem trigraph_line : ∀ c, trigraph c ≠ some 10 := forall_byte (by decide +kernel)

theorem Encoder.line_replaced (h : Encoder enc) (s : List UInt8) : 10 ∉ replaced enc s := by
  induction hLength : s.length using Nat.strong_induction_on generalizing s with
  | _ n ih =>
  match s with
  | [] => exact List.not_mem_nil
  | a :: t =>
    rw [List.length_cons] at hLength
    obtain ⟨c, rest, r, rfl, rfl, hTrigraph⟩ | hNone := trigraph_or a t
    · rw [List.length_cons, List.length_cons] at hLength
      rw [replaced_trigraph rest hTrigraph]
      intro hMem
      obtain rfl | hMem := List.mem_cons.mp hMem
      · exact trigraph_line c hTrigraph
      · exact ih _ (by omega) rest rfl hMem
    · rw [replaced_cons hNone]
      intro hMem
      obtain hMem | hMem := List.mem_append.mp hMem
      · exact h.line a hMem
      · exact ih _ (by omega) t rfl hMem

def literal (enc : UInt8 → List UInt8) (s : List UInt8) : List UInt8 := 34 :: (s.flatMap enc ++ [34])

theorem Encoder.denoted_eq (h : Encoder enc) (s : List UInt8) :
    denoted (literal enc s) = readChars .chars (replaced enc s ++ [34]) := by
  have hQuote : CString.replaceTrigraphs (literal enc s) = 34 :: (replaced enc s ++ [34]) := by
    rw [literal, replaceTrigraphs_cons (by nofun), h.replaceTrigraphs]
  have hLine : 10 ∉ 34 :: (replaced enc s ++ [34]) := by
    intro hMem
    obtain hQuote | hMem := List.mem_cons.mp hMem
    · cases hQuote
    obtain hMem | hMem := List.mem_append.mp hMem
    · exact h.line_replaced s hMem
    · cases List.mem_singleton.mp hMem
  rw [denoted, hQuote, joinLines_of_not_mem hLine, readLiteral, if_pos rfl]

theorem readChars_quote {st : Reading} (h : st ≠ .escape) : readChars st [34] = st.finish := by
  rw [readChars, if_pos ⟨rfl, h⟩, if_pos rfl]

theorem Encoder.denoted_literal (h : Encoder enc) {s : List UInt8} (hs : ¬ HasTrigraph s) :
    denoted (literal enc s) = some s := by
  rw [h.denoted_eq]
  induction s with
  | nil => rfl
  | cons a t ih =>
    rw [hasTrigraph_cons, not_or] at hs
    obtain ⟨hHere, hTail⟩ := hs
    have hNone : ∀ c rest, a = 63 → t = 63 :: c :: rest → trigraph c = none := by
      intro c rest hFirst hEq
      by_contra hSome
      exact hHere ⟨c, rest, hFirst, hEq, hSome⟩
    rw [replaced_cons hNone, List.append_assoc, readChars_append (h.read a), ih hTail]
    rfl

theorem Encoder.marks_le (h : Encoder enc) {s : List UInt8} {st : Reading} {v : List UInt8}
    (hv : readChars st (replaced enc s ++ [34]) = some v) :
    marks v ≤ marks s + st.pending ∧ (HasTrigraph s → marks v < marks s + st.pending) := by
  induction hLength : s.length using Nat.strong_induction_on generalizing s st v with
  | _ n ih =>
  match s with
  | [] =>
    constructor
    · by_cases hEscape : st = .escape
      · rw [hEscape] at hv
        cases hv
      · rw [replaced, List.nil_append, readChars_quote hEscape] at hv
        exact (marks_finish hv).trans (Nat.le_add_left _ _)
    · exact fun hTrigraph => absurd hTrigraph not_hasTrigraph_nil
  | a :: t =>
    rw [List.length_cons] at hLength
    obtain ⟨c, rest, r, rfl, rfl, hTrigraph⟩ | hNone := trigraph_or a t
    · rw [List.length_cons, List.length_cons] at hLength
      rw [replaced_trigraph rest hTrigraph] at hv
      obtain ⟨out, st', w, hReads, hw, rfl⟩ :=
        @readChars_append_inv [r] _ (List.append_ne_nil_of_right_ne_nil _ (List.cons_ne_nil _ _)) st v hv
      obtain ⟨hLe, _⟩ := ih _ (by omega) hw rfl
      have hPiece := marks_reads_one hReads
      have hWeight := weight_le r
      have hText : marks (63 :: 63 :: c :: rest) = 2 + (marks [c] + marks rest) := by
        rw [← marks_append [c] rest]
        exact marks_append [63, 63] (c :: rest)
      rw [marks_append, hText]
      constructor
      · omega
      · intro _
        omega
    · rw [replaced_cons hNone, List.append_assoc] at hv
      obtain ⟨out, st', w, hReads, hw, rfl⟩ :=
        readChars_append_inv (List.append_ne_nil_of_right_ne_nil _ (List.cons_ne_nil _ _)) hv
      obtain ⟨hLe, hLt⟩ := ih _ (by omega) hw rfl
      have hPiece := h.marked hReads
      have hText : marks (a :: t) = marks [a] + marks t := marks_append [a] t
      rw [marks_append, hText]
      constructor
      · omega
      · intro hHas
        obtain ⟨c, rest, hFirst, hEq, hSome⟩ | hTail := hasTrigraph_cons.mp hHas
        · exact absurd (hNone c rest hFirst hEq) hSome
        · have hLess := hLt hTail
          omega

/-- What a function gets that is passed the literal, and looks for the final zero. -/
def passed (text : List UInt8) : Option (List UInt8) := (denoted text).map (List.takeWhile (· ≠ 0))

theorem Encoder.passed_literal_iff (h : Encoder enc) (s : List UInt8) :
    passed (literal enc s) = some s ↔ 0 ∉ s ∧ ¬ HasTrigraph s := by
  constructor
  · intro hPassed
    obtain ⟨v, hDenoted, hUpTo⟩ := Option.map_eq_some_iff.mp hPassed
    constructor
    · intro hZero
      rw [← hUpTo] at hZero
      have hNe := List.mem_takeWhile_imp hZero
      exact absurd rfl (of_decide_eq_true hNe)
    · intro hTrigraph
      rw [h.denoted_eq] at hDenoted
      have hLess := (h.marks_le hDenoted).2 hTrigraph
      have hPrefix : marks (v.takeWhile (· ≠ 0)) ≤ marks v :=
        (List.takeWhile_prefix _).sublist.count_le 63
      rw [hUpTo] at hPrefix
      have hPending : Reading.chars.pending = 0 := rfl
      omega
  · rintro ⟨hZero, hTrigraph⟩
    rw [passed, h.denoted_literal hTrigraph]
    refine congrArg some (List.takeWhile_eq_self_iff.mpr ?_)
    intro b hb
    exact decide_eq_true fun hEq => hZero (hEq ▸ hb)

end encoders

end CString
