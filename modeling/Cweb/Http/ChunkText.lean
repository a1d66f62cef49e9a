import Cweb.Lib.ChunkGrammar
import Cweb.Http.RequestCut

/-!
# Chunked bodies in pieces

A request whose chunks have not all come is unfolded again from its first byte
when there is more of it. For that the decoder must say that it waits, and must
leave the bytes alone. What it does with a view shows in the chunks that are
complete and in what is left behind them.
-/

namespace Cweb

open Sv ChunkGrammar
open CString (forall_byte)

/-! ## Reads -/

/-- Whether the byte behind the view is read. All other reads come after a test of
the index. -/
def unfoldPeeks : Nat → Bytes → Bool
  | 0, _ => false
  | fuel + 1, rest =>
    match rest.dropWhile isCrLf with
    | [] => false
    | c :: rest =>
      match sizeDigits 0 false (c :: rest) with
      | (size, true, 13 :: 10 :: rest) =>
        if size = 0 then rest == [13]
        else if rest.length < size then false
        else
          match rest.drop size with
          | 13 :: 10 :: left => unfoldPeeks fuel left
          | _ => false
      | _ => false

def decodePeeks (req : HttpRequest) : Bool :=
  if httpRequestGetHeader req (ascii "content-length") ≠ none then false
  else unfoldPeeks req.body.length.succ req.body

/-! ## Size lines -/

theorem hexValue_eq : ∀ c, hexValue c = digitValue c := forall_byte (by decide +kernel)

/-- A size line as the decoder takes it. -/
structure SizeMark where
  lead : Bytes
  digits : Bytes
  ext : Bytes
  feeds : ∀ b ∈ lead, isCrLf b = true
  size : IsSize digits
  passed : ext = [] ∨ ∃ b rest, ext = b :: rest ∧ (b = 59 ∨ b = 32) ∧ ∀ c ∈ rest, isCrLf c = false

def SizeMark.text (m : SizeMark) : Bytes := m.lead ++ (m.digits ++ (m.ext ++ [13, 10]))

def SizeMark.word (m : SizeMark) : Nat := number m.digits % 2 ^ 64

theorem sizeDigits_digits {digits : Bytes} (hHex : ∀ c ∈ digits, (digitValue c).isSome = true)
    (rest : Bytes) :
    ∀ n seen, sizeDigits (n % 2 ^ 64) seen (digits ++ rest) =
      sizeDigits (numberFrom n digits % 2 ^ 64) (seen || !digits.isEmpty) rest := by
  induction digits with
  | nil =>
    intro n seen
    rw [List.nil_append, List.isEmpty_nil, Bool.not_true, Bool.or_false]
    rfl
  | cons c digits ih =>
    intro n seen
    obtain ⟨v, hv⟩ := Option.isSome_iff_exists.mp (hHex c List.mem_cons_self)
    have hNext := ih (fun d hd => hHex d (List.mem_cons_of_mem _ hd)) (n * 16 + v) true
    have hMod : (n % 2 ^ 64 * 16 + v) % 2 ^ 64 = (n * 16 + v) % 2 ^ 64 := by omega
    rw [List.cons_append, sizeDigits, hexValue_eq, hv]
    dsimp only
    rw [hMod, hNext, numberFrom, numberFrom, List.foldl_cons, hv, List.isEmpty_cons, Bool.true_or,
      Bool.not_false,
      Bool.or_true, Option.getD_some]

theorem sizeDigits_ext {ext : Bytes}
    (h : ext = [] ∨ ∃ b rest, ext = b :: rest ∧ (b = 59 ∨ b = 32) ∧ ∀ c ∈ rest, isCrLf c = false)
    (size : Nat) (seen : Bool) (more : Bytes) :
    sizeDigits size seen (ext ++ 13 :: more) = (size, seen, 13 :: more) := by
  obtain rfl | ⟨b, rest, rfl, hb, hRest⟩ := h
  · rfl
  · have hNone : hexValue b = none := by
      obtain rfl | rfl := hb <;> rfl
    rw [List.cons_append, sizeDigits, hNone]
    dsimp only
    rw [if_pos hb, List.dropWhile_append_of_pos, List.dropWhile_cons_of_neg (by decide)]
    intro c hc
    rw [hRest c hc]
    rfl

theorem SizeMark.sizeDigits (m : SizeMark) (more : Bytes) :
    sizeDigits 0 false (m.digits ++ (m.ext ++ 13 :: more)) = (m.word, true, 13 :: more) := by
  have hDigits := sizeDigits_digits m.size.hex (m.ext ++ 13 :: more) 0 false
  have hSome : m.digits.isEmpty = false := List.isEmpty_eq_false_iff.mpr m.size.some
  rw [hSome, Bool.not_false, Bool.or_true, sizeDigits_ext m.passed] at hDigits
  exact hDigits

theorem sizeDigits_inv {x more : Bytes} {s : Nat} : ∀ {size : Nat} {seen : Bool},
    sizeDigits size seen x = (s, true, 13 :: more) →
      ∃ digits ext, x = digits ++ (ext ++ 13 :: more) ∧ (∀ c ∈ digits, (digitValue c).isSome = true) ∧
        (seen = false → digits ≠ []) ∧
        (ext = [] ∨ ∃ b rest, ext = b :: rest ∧ (b = 59 ∨ b = 32) ∧ ∀ c ∈ rest, isCrLf c = false) := by
  induction x with
  | nil =>
    intro size seen h
    cases h
  | cons c rest ih =>
    intro size seen h
    rw [Cweb.sizeDigits] at h
    cases hDigit : hexValue c with
    | some v =>
      rw [hDigit] at h
      obtain ⟨digits, ext, rfl, hHex, _, hExt⟩ := ih h
      refine ⟨c :: digits, ext, rfl, ?_, fun _ => List.cons_ne_nil _ _, hExt⟩
      intro d hd
      obtain rfl | hd := List.mem_cons.mp hd
      · rw [← hexValue_eq, hDigit]
        rfl
      · exact hHex d hd
    | none =>
      rw [hDigit] at h
      dsimp only at h
      split at h
      · rename_i hStarts
        obtain ⟨_, hSeen⟩ := Prod.mk.inj h
        obtain ⟨rfl, hDrop⟩ := Prod.mk.inj hSeen
        obtain ⟨_, pre, rfl, hPre, _⟩ := dropWhile_split hDrop
        refine ⟨[], c :: pre, rfl, fun d hd => absurd hd List.not_mem_nil, by
          rintro ⟨⟩, .inr ⟨c, pre, rfl, hStarts, ?_⟩⟩
        intro d hd
        rw [← Bool.not_eq_true', hPre d hd]
      · obtain ⟨_, hSeen⟩ := Prod.mk.inj h
        obtain ⟨rfl, hLine⟩ := Prod.mk.inj hSeen
        exact ⟨[], [], hLine, fun d hd => absurd hd List.not_mem_nil, by rintro ⟨⟩, .inl rfl⟩

theorem SizeMark.skip (m : SizeMark) (more : Bytes) :
    ∃ c tail, (m.text ++ more).dropWhile isCrLf = c :: tail ∧
    Cweb.sizeDigits 0 false (c :: tail) = (m.word, true, 13 :: 10 :: more) := by
  have hDigits := m.sizeDigits (10 :: more)
  have hHex := m.size.hex
  cases hCons : m.digits with
  | nil => exact absurd hCons m.size.some
  | cons c digits =>
    rw [hCons] at hDigits hHex
    refine ⟨c, digits ++ (m.ext ++ 13 :: 10 :: more), ?_, hDigits⟩
    have hText : m.text ++ more = m.lead ++ c :: (digits ++ (m.ext ++ 13 :: 10 :: more)) := by
      rw [SizeMark.text, hCons]
      simp only [List.append_assoc, List.cons_append, List.nil_append]
    have hStops : ∀ c, (digitValue c).isSome = true → isCrLf c = false := forall_byte (by decide +kernel)
    rw [hText, List.dropWhile_append_of_pos m.feeds, List.dropWhile_cons_of_neg]
    rw [hStops c (hHex c List.mem_cons_self)]
    exact Bool.false_ne_true

theorem SizeMark.unfoldLoop (m : SizeMark) (len : Nat) (behind : Bytes) (fuel : Nat) (payload more : Bytes) :
    unfoldLoop len behind (fuel + 1) payload (m.text ++ more) =
      if m.word = 0 then unfoldTrailer payload more behind
      else if more.length < m.word then
        if (len - more.length) + m.word < 2 ^ 64 then .incomplete payload else .wild
      else
        match more.drop m.word with
        | 13 :: 10 :: left => Cweb.unfoldLoop len behind fuel (payload ++ more.take m.word) left
        | _ => .malformed (payload ++ more.take m.word) := by
  obtain ⟨c, tail, hSkip, hDigits⟩ := m.skip more
  rw [Cweb.unfoldLoop, hSkip]
  dsimp only
  rw [hDigits]
  rfl

theorem SizeMark.unfoldPeeks (m : SizeMark) (fuel : Nat) (more : Bytes) :
    unfoldPeeks (fuel + 1) (m.text ++ more) =
      if m.word = 0 then more == [13]
      else if more.length < m.word then false
      else
        match more.drop m.word with
        | 13 :: 10 :: left => Cweb.unfoldPeeks fuel left
        | _ => false := by
  obtain ⟨c, tail, hSkip, hDigits⟩ := m.skip more
  rw [Cweb.unfoldPeeks, hSkip]
  simp only [hDigits]

/-! ## Chunks -/

/-- A complete chunk as the decoder takes it. Its size counts in words. -/
structure LooseChunk extends SizeMark where
  data : Bytes
  some : data ≠ []
  sized : toSizeMark.word = data.length

def LooseChunk.bytes (c : LooseChunk) : Bytes := c.text ++ (c.data ++ [13, 10])

def chunksBytes (cs : List LooseChunk) : Bytes := cs.flatMap LooseChunk.bytes

def chunksData (cs : List LooseChunk) : Bytes := cs.flatMap LooseChunk.data

theorem LooseChunk.word_pos (c : LooseChunk) : c.word ≠ 0 := by
  rw [c.sized]
  exact fun hZero => c.some (List.length_eq_zero_iff.mp hZero)

theorem LooseChunk.bytes_append (c : LooseChunk) (rest : Bytes) :
    c.bytes ++ rest = c.text ++ (c.data ++ 13 :: 10 :: rest) := by
  rw [LooseChunk.bytes]
  simp only [List.append_assoc, List.cons_append, List.nil_append]

theorem LooseChunk.length_pos (c : LooseChunk) : 0 < c.bytes.length := by
  rw [LooseChunk.bytes, List.length_append, List.length_append, List.length_cons]
  omega

section Rounds

variable (c : LooseChunk) (rest : Bytes)

theorem LooseChunk.drop : (c.data ++ 13 :: 10 :: rest).drop c.word = 13 :: 10 :: rest :=
  List.drop_left' c.sized.symm

theorem LooseChunk.take : (c.data ++ 13 :: 10 :: rest).take c.word = c.data := List.take_left' c.sized.symm

theorem LooseChunk.enough : ¬ (c.data ++ 13 :: 10 :: rest).length < c.word := by
  rw [List.length_append, c.sized]
  omega

theorem unfoldLoop_chunk (len : Nat) (behind : Bytes) (fuel : Nat) (payload : Bytes) :
    unfoldLoop len behind (fuel + 1) payload (c.bytes ++ rest) = unfoldLoop len behind fuel
      (payload ++ c.data) rest := by
  rw [c.bytes_append, c.toSizeMark.unfoldLoop, if_neg c.word_pos, if_neg (c.enough rest), c.drop, c.take]
  rfl

theorem unfoldPeeks_chunk (fuel : Nat) :
    unfoldPeeks (fuel + 1) (c.bytes ++ rest) = unfoldPeeks fuel rest := by
  rw [c.bytes_append, c.toSizeMark.unfoldPeeks, if_neg c.word_pos, if_neg (c.enough rest), c.drop]
  rfl

end Rounds

theorem chunksBytes_length (cs : List LooseChunk) : cs.length ≤ (chunksBytes cs).length := by
  induction cs with
  | nil => exact Nat.le_refl 0
  | cons c cs ih =>
    have hPos := c.length_pos
    rw [chunksBytes, List.flatMap_cons, List.length_append, ← chunksBytes, List.length_cons]
    omega

theorem unfoldLoop_chunks (cs : List LooseChunk) (len : Nat) (behind : Bytes) (fuel : Nat)
    (rest : Bytes) : ∀ payload,
    unfoldLoop len behind (cs.length + fuel) payload (chunksBytes cs ++ rest) =
      unfoldLoop len behind fuel (payload ++ chunksData cs) rest := by
  induction cs with
  | nil =>
    intro payload
    rw [List.length_nil, Nat.zero_add]
    exact congrArg (fun p => unfoldLoop len behind fuel p rest) (List.append_nil payload).symm
  | cons c cs ih =>
    intro payload
    have hBytes : chunksBytes (c :: cs) ++ rest = c.bytes ++ (chunksBytes cs ++ rest) :=
      List.append_assoc _ _ _
    have hData : payload ++ chunksData (c :: cs) = (payload ++ c.data) ++ chunksData cs :=
      (List.append_assoc _ _ _).symm
    rw [List.length_cons, Nat.succ_add, hBytes, hData, unfoldLoop_chunk, ih]

theorem unfoldPeeks_chunks (cs : List LooseChunk) (fuel : Nat) (rest : Bytes) :
    unfoldPeeks (cs.length + fuel) (chunksBytes cs ++ rest) = unfoldPeeks fuel rest := by
  induction cs with
  | nil =>
    rw [List.length_nil, Nat.zero_add]
    rfl
  | cons c cs ih =>
    have hBytes : chunksBytes (c :: cs) ++ rest = c.bytes ++ (chunksBytes cs ++ rest) :=
      List.append_assoc _ _ _
    rw [List.length_cons, Nat.succ_add, hBytes, unfoldPeeks_chunk, ih]

/-! ## What is left behind the chunks -/

/-- Bytes that the decoder finds to be no chunk. -/
def Broken (rest : Bytes) : Prop :=
  (∃ moved, ∀ len behind fuel payload, unfoldLoop len behind (fuel + 1) payload rest = .malformed
    (payload ++ moved)) ∧
    ∀ fuel, unfoldPeeks (fuel + 1) rest = false

/-- Where the complete chunks of a view end. -/
inductive Tail (rest : Bytes) : Prop where
  | dry : (∀ b ∈ rest, isCrLf b = true) → Tail rest
  | last (m : SizeMark) (more : Bytes) : rest = m.text ++ more → m.word = 0 → Tail rest
  | part (m : SizeMark) (more : Bytes) : rest = m.text ++ more → m.word ≠ 0 → more.length < m.word → Tail rest
  | broken : Broken rest → Tail rest

theorem broken_of_digits {rest : Bytes} {c : UInt8} {tail : Bytes} (hSkip : rest.dropWhile isCrLf = c :: tail)
    (hNot : ∀ size more, sizeDigits 0 false (c :: tail) ≠ (size, true, 13 :: 10 :: more)) : Broken rest := by
  constructor
  · refine ⟨[], fun len behind fuel payload => ?_⟩
    rw [unfoldLoop, hSkip, List.append_nil]
    dsimp only
    split
    · rename_i size more hSize
      exact absurd hSize (hNot size more)
    · rfl
  · intro fuel
    rw [unfoldPeeks, hSkip]
    dsimp only
    split
    · rename_i size more hSize
      exact absurd hSize (hNot size more)
    · rfl

theorem mark_cases (rest : Bytes) :
    (∀ b ∈ rest, isCrLf b = true) ∨ (∃ (m : SizeMark) (more : Bytes), rest = m.text ++ more) ∨
      Broken rest := by
  cases hSkip : rest.dropWhile isCrLf with
  | nil => exact .inl (List.dropWhile_eq_nil_iff.mp hSkip)
  | cons c tail =>
    obtain ⟨_, lead, rfl, hLead, _⟩ := dropWhile_split hSkip
    by_cases hSize : ∃ size more, sizeDigits 0 false (c :: tail) = (size, true, 13 :: 10 :: more)
    · obtain ⟨size, more, hDigits⟩ := hSize
      obtain ⟨digits, ext, hLine, hHex, hSome, hExt⟩ := sizeDigits_inv hDigits
      refine .inr (.inl ⟨⟨lead, digits, ext, hLead, ⟨hSome rfl, hHex⟩, hExt⟩, more, ?_⟩)
      rw [hLine, SizeMark.text]
      simp only [List.append_assoc, List.cons_append, List.nil_append]
    · refine .inr (.inr (broken_of_digits hSkip ?_))
      intro size more hDigits
      exact hSize ⟨size, more, hDigits⟩

theorem chunk_cases (rest : Bytes) : Tail rest ∨ ∃ (c : LooseChunk)
    (more : Bytes), rest = c.bytes ++ more := by
  obtain hDry | ⟨m, more, rfl⟩ | hBroken := mark_cases rest
  · exact .inl (.dry hDry)
  · by_cases hZero : m.word = 0
    · exact .inl (.last m more rfl hZero)
    · by_cases hShort : more.length < m.word
      · exact .inl (.part m more rfl hZero hShort)
      · by_cases hEnd : ∃ left, more.drop m.word = 13 :: 10 :: left
        · obtain ⟨left, hLeft⟩ := hEnd
          have hLength : (more.take m.word).length = m.word := by
            rw [List.length_take]
            omega
          have hSome : more.take m.word ≠ [] := by
            intro hNil
            rw [hNil] at hLength
            exact hZero hLength.symm
          refine .inr ⟨⟨m, more.take m.word, hSome, hLength.symm⟩, left, ?_⟩
          rw [LooseChunk.bytes_append, ← hLeft, List.take_append_drop]
        · refine .inl (.broken ⟨?_, ?_⟩)
          · refine ⟨more.take m.word, fun len behind fuel payload => ?_⟩
            rw [m.unfoldLoop, if_neg hZero, if_neg hShort]
            split
            · rename_i left hLeft
              exact absurd ⟨left, hLeft⟩ hEnd
            · rfl
          · intro fuel
            rw [m.unfoldPeeks, if_neg hZero, if_neg hShort]
            split
            · rename_i left hLeft
              exact absurd ⟨left, hLeft⟩ hEnd
            · rfl
  · exact .inl (.broken hBroken)

theorem chunks_split (n : Nat) : ∀ rest : Bytes, rest.length ≤ n → ∃ cs tail, rest = chunksBytes cs ++
    tail ∧ Tail tail := by
  induction n with
  | zero =>
    intro rest hLength
    obtain rfl := List.length_eq_zero_iff.mp (Nat.le_zero.mp hLength)
    exact ⟨[], [], rfl, .dry fun b hb => absurd hb List.not_mem_nil⟩
  | succ n ih =>
    intro rest hLength
    obtain hTail | ⟨c, more, rfl⟩ := chunk_cases rest
    · exact ⟨[], rest, rfl, hTail⟩
    · have hPos := c.length_pos
      rw [List.length_append] at hLength
      obtain ⟨cs, tail, rfl, hTail⟩ := ih more (by omega)
      exact ⟨c :: cs, tail, (List.append_assoc _ _ _).symm, hTail⟩

/-! ## Waiting for more -/

/-- A line of trailers without its end, other than a lone CR. -/
structure OpenLine (rest : Bytes) : Prop where
  nonempty : rest ≠ []
  cr : rest ≠ [13]
  line : ∃ text more, rest = text ++ more ∧ (∀ b ∈ text, isCrLf b = false) ∧
    (more = [] ∨ ∃ after, more = 13 :: after ∧ after.head? ≠ some 10)

/-- The view ends between two chunks, in the data of a chunk or in the first line of
trailers. -/
inductive Waiting (len : Nat) (tail : Bytes) : Prop where
  | dry : (∀ b ∈ tail, isCrLf b = true) → Waiting len tail
  | data (m : SizeMark) (more : Bytes) : tail = m.text ++ more → m.word ≠ 0 → more.length < m.word →
      (len - more.length) + m.word < 2 ^ 64 → Waiting len tail
  | trailer (m : SizeMark) (more : Bytes) : tail = m.text ++ more → m.word = 0 → OpenLine more →
    Waiting len tail

/-- Behind complete chunks the view waits for more, and the data of the chunks, at
its front, is what stands there anyway. -/
def Pauses (view : Bytes) : Prop :=
  ∃ cs tail, view = chunksBytes cs ++ tail ∧ Waiting view.length tail ∧ chunksData cs <+: view

/-- The decoder asks for more bytes, and has read the view only and changed nothing. -/
structure PausesCleanly (req : HttpRequest) (behind : Bytes) : Prop where
  inside : decodePeeks req = false
  waits : ∃ payload, httpRequestDecodeChunked req behind = .incomplete payload ∧
    payload ++ req.body.drop payload.length = req.body

theorem unfoldTrailer_open {rest : Bytes} (h : OpenLine rest) (payload behind : Bytes) :
    unfoldTrailer payload rest behind = .incomplete payload := by
  obtain ⟨text, more, hRest, hText, hMore⟩ := h.line
  have hPass : ∀ b ∈ text, (!isCrLf b) = true := by
    intro b hb
    rw [hText b hb]
    rfl
  obtain rfl | ⟨after, rfl, hAfter⟩ := hMore
  · rw [List.append_nil] at hRest
    have hHead : rest.head? ≠ some 13 := by
      intro hCr
      have hMem := hText 13 (hRest ▸ List.mem_of_head? hCr)
      cases hMem
    rw [unfoldTrailer_line hHead h.nonempty, hRest, List.dropWhile_eq_nil_iff.mpr hPass]
  · have hDrop : (text ++ 13 :: after).dropWhile (fun b => !isCrLf b) = 13 :: after := by
      rw [List.dropWhile_append_of_pos hPass, List.dropWhile_cons_of_neg (by decide)]
    have hStays : ∀ left, after ≠ 10 :: left := by
      rintro left rfl
      exact hAfter rfl
    unfold unfoldTrailer
    split
    · exact absurd rfl h.nonempty
    · exact absurd rfl h.cr
    · rename_i left _
      cases text with
      | nil =>
        obtain ⟨_, hLeft⟩ := List.cons.inj hRest
        exact absurd hLeft.symm (hStays _)
      | cons b text =>
        obtain ⟨rfl, _⟩ := List.cons.inj hRest
        have hMem := hText 13 List.mem_cons_self
        cases hMem
    · rw [hRest, hDrop]
      split
      · rename_i left hLeft
        exact absurd (List.cons.inj hLeft).2 (hStays left)
      · rename_i left hLeft
        cases (List.cons.inj hLeft).1
      · rfl

theorem openLine_of_incomplete {payload rest behind p : Bytes}
    (h : unfoldTrailer payload rest behind = .incomplete p)
    (hCr : rest ≠ [13]) : OpenLine rest := by
  unfold unfoldTrailer at h
  split at h
  · cases h
  · exact absurd rfl hCr
  · cases h
  · rename_i hNil hOne hTwo
    refine ⟨fun hEq => hNil hEq, hCr, rest.takeWhile (fun b => !isCrLf b),
      rest.dropWhile (fun b => !isCrLf b),
      List.takeWhile_append_dropWhile.symm, ?_, ?_⟩
    · intro b hb
      have hTake := List.mem_takeWhile_imp hb
      rw [← Bool.not_eq_true']
      exact hTake
    · cases hDrop : rest.dropWhile fun b => !isCrLf b with
      | nil => exact .inl rfl
      | cons e after =>
        have hStops := (dropWhile_split hDrop).1
        rw [hDrop] at h
        have hEnd : e = 13 ∨ e = 10 := by
          rw [Bool.not_eq_false', isCrLf, Bool.or_eq_true, beq_iff_eq, beq_iff_eq] at hStops
          exact hStops
        obtain rfl | rfl := hEnd
        · refine .inr ⟨after, rfl, ?_⟩
          intro hFeed
          obtain ⟨left, rfl⟩ := List.head?_eq_some_iff.mp hFeed
          cases h
        · cases h

theorem decode_chunks {req : HttpRequest} (hNone : httpRequestGetHeader req (ascii "content-length") = none)
    {cs : List LooseChunk} {tail : Bytes} (hBody : req.body = chunksBytes cs ++ tail) :
    ∃ fuel, (∀ behind, httpRequestDecodeChunked req behind =
        unfoldLoop req.body.length behind (fuel + 1) (chunksData cs) tail) ∧
      decodePeeks req = unfoldPeeks (fuel + 1) tail := by
  have hLe : cs.length ≤ req.body.length := by
    rw [hBody, List.length_append]
    exact (chunksBytes_length cs).trans (Nat.le_add_right _ _)
  have hFuel : req.body.length.succ = cs.length + ((req.body.length - cs.length) + 1) := by omega
  refine ⟨req.body.length - cs.length, fun behind => ?_, ?_⟩
  · rw [httpRequestDecodeChunked, if_neg (not_not.mpr hNone), hFuel]
    have hRounds := unfoldLoop_chunks cs req.body.length behind ((req.body.length - cs.length) + 1) tail []
    rw [← hBody] at hRounds
    exact hRounds
  · rw [decodePeeks, if_neg (not_not.mpr hNone), hFuel]
    have hRounds := unfoldPeeks_chunks cs ((req.body.length - cs.length) + 1) tail
    rw [← hBody] at hRounds
    exact hRounds

theorem unfoldLoop_dry {rest : Bytes} (h : ∀ b ∈ rest, isCrLf b = true) (len : Nat) (behind : Bytes)
    (fuel : Nat) (payload : Bytes) :
    unfoldLoop len behind (fuel + 1) payload rest = .incomplete payload ∧
      unfoldPeeks (fuel + 1) rest = false := by
  have hDrop : rest.dropWhile isCrLf = [] := List.dropWhile_eq_nil_iff.mpr h
  rw [unfoldLoop, unfoldPeeks, hDrop]
  exact ⟨rfl, rfl⟩

/-- Asking for more leaves the view alone where it waits behind complete chunks whose
data is in place. -/
theorem pausesCleanly_iff (req : HttpRequest) (behind : Bytes) :
    PausesCleanly req behind ↔ httpRequestGetHeader req (ascii "content-length") = none ∧
      Pauses req.body := by
  constructor
  · rintro ⟨hInside, payload, hWaits, hSame⟩
    have hNone : httpRequestGetHeader req (ascii "content-length") = none := by
      by_contra hSome
      rw [httpRequestDecodeChunked, if_pos hSome] at hWaits
      cases hWaits
    obtain ⟨cs, tail, hBody, hTail⟩ := chunks_split _ req.body (Nat.le_refl _)
    obtain ⟨fuel, hRounds, hPeeks⟩ := decode_chunks hNone hBody
    rw [hRounds] at hWaits
    rw [hPeeks] at hInside
    have hPayload : payload = chunksData cs ∧ Waiting req.body.length tail := by
      cases hTail with
      | dry hDry =>
        rw [(unfoldLoop_dry hDry _ _ _ _).1] at hWaits
        exact ⟨(Unfolded.incomplete.inj hWaits).symm, .dry hDry⟩
      | last m more hText hZero =>
        rw [hText, m.unfoldLoop, if_pos hZero] at hWaits
        rw [hText, m.unfoldPeeks, if_pos hZero, beq_eq_false_iff_ne] at hInside
        have hOpen := openLine_of_incomplete hWaits hInside
        rw [unfoldTrailer_open hOpen] at hWaits
        exact ⟨(Unfolded.incomplete.inj hWaits).symm, .trailer m more hText hZero hOpen⟩
      | part m more hText hSome hShort =>
        rw [hText, m.unfoldLoop, if_neg hSome, if_pos hShort] at hWaits
        split at hWaits
        · rename_i hFits
          exact ⟨(Unfolded.incomplete.inj hWaits).symm, .data m more hText hSome hShort hFits⟩
        · cases hWaits
      | broken hBroken =>
        obtain ⟨⟨moved, hMoved⟩, _⟩ := hBroken
        rw [hMoved] at hWaits
        cases hWaits
    rw [hPayload.1] at hSame
    exact ⟨hNone, cs, tail, hBody, hPayload.2, List.prefix_iff_eq_append.mpr hSame⟩
  · rintro ⟨hNone, cs, tail, hBody, hWaiting, hData⟩
    obtain ⟨fuel, hRounds, hPeeks⟩ := decode_chunks hNone hBody
    have hPlace : chunksData cs ++ req.body.drop (chunksData cs).length = req.body :=
      List.prefix_iff_eq_append.mp hData
    have hRound : unfoldLoop req.body.length behind (fuel + 1) (chunksData cs) tail = .incomplete
      (chunksData cs) ∧
        unfoldPeeks (fuel + 1) tail = false := by
      cases hWaiting with
      | dry hDry => exact unfoldLoop_dry hDry _ _ _ _
      | data m more hText hSome hShort hFits =>
        rw [hText, m.unfoldLoop, m.unfoldPeeks, if_neg hSome, if_neg hSome, if_pos hShort,
          if_pos hShort, if_pos hFits]
        exact ⟨rfl, rfl⟩
      | trailer m more hText hZero hOpen =>
        rw [hText, m.unfoldLoop, m.unfoldPeeks, if_pos hZero, if_pos hZero, unfoldTrailer_open hOpen]
        exact ⟨rfl, beq_eq_false_iff_ne.mpr hOpen.cr⟩
    refine ⟨hPeeks.trans hRound.2, chunksData cs, ?_, hPlace⟩
    rw [hRounds]
    exact hRound.1

def helloChunks : Bytes := ascii "5\r\nhello\r\n0\r\n\r\n"

theorem helloChunks_rfc : Rfc helloChunks (ascii "hello") := by
  have hLast : Rfc ([] ++ (ascii "0" ++ ([] ++ (13 :: 10 :: ([] ++ [13, 10]))))) [] :=
    .last rfl ⟨by decide +kernel, by decide +kernel⟩ .nil (by decide +kernel) .nil
  have hChunk := @Body.chunk (· = []) Extensions [] (ascii "5") [] (ascii "hello") _ _ rfl
    ⟨by decide +kernel, by decide +kernel⟩ .nil (by decide +kernel) (by decide +kernel) hLast
  exact hChunk

/-- Cut behind its first digit, a well-formed body is taken for a malformed one. -/
theorem helloChunks_cut : Rfc helloChunks (ascii "hello") ∧ ascii "5" <+: helloChunks ∧
    ascii "5" ≠ helloChunks ∧
    ¬ PausesCleanly { emptyRequest with body := ascii "5" } [] := by
  refine ⟨helloChunks_rfc, ⟨ascii "\r\nhello\r\n0\r\n\r\n", by decide +kernel⟩, by decide +kernel, ?_⟩
  rintro ⟨_, payload, hWaits, _⟩
  have hMalformed : httpRequestDecodeChunked { emptyRequest with body := ascii "5" } [] =
    .malformed [] := by decide +kernel
  rw [hMalformed] at hWaits
  cases hWaits

end Cweb
