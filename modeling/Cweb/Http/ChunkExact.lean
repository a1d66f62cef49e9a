import Cweb.Http.ChunkText

/-!
# What a chunked body is taken for

The decoder accepts more than the grammar of chunked bodies: line ends may stand
in front of a size, and any text that begins with a semicolon or a space behind
it. Where sizes fit a word and an empty line follows the last chunk, this is all
that it adds, and it gives the payload and takes up the text of the body.
-/

namespace Cweb

open Sv ChunkGrammar

/-! ## Sums and cursors -/

/-- The values of a size as its digits are read, before they are reduced to a word. -/
def digitSums : Nat → Bytes → List Nat
  | _, [] => []
  | size, c :: rest =>
    match hexValue c with
    | some v => (size * 16 + v) :: digitSums ((size * 16 + v) % 2 ^ 64) rest
    | none => []

/-- The sums with a size in them: those of its digits, and that with the cursor. -/
def unfoldSums (len : Nat) : Nat → Bytes → List Nat
  | 0, _ => []
  | fuel + 1, rest =>
    match rest.dropWhile isCrLf with
    | [] => []
    | c :: rest =>
      digitSums 0 (c :: rest) ++
        match sizeDigits 0 false (c :: rest) with
        | (size, true, 13 :: 10 :: rest) =>
          if size = 0 then []
          else ((len - rest.length) + size) ::
            if rest.length < size then []
            else
              match rest.drop size with
              | 13 :: 10 :: left => unfoldSums len fuel left
              | _ => []
        | _ => []

/-- The cursors for writing and for reading, each time that a payload was moved. -/
def unfoldCursors (len : Nat) : Nat → Nat → Bytes → List (Nat × Nat)
  | 0, _, _ => []
  | fuel + 1, w, rest =>
    match rest.dropWhile isCrLf with
    | [] => []
    | c :: rest =>
      match sizeDigits 0 false (c :: rest) with
      | (size, true, 13 :: 10 :: rest) =>
        if size = 0 then []
        else if rest.length < size ∧ (len - rest.length) + size < 2 ^ 64 then []
        else ((w + size) % 2 ^ 64, ((len - rest.length) + size) % 2 ^ 64) ::
          match rest.drop size with
          | 13 :: 10 :: left => unfoldCursors len fuel (w + size) left
          | _ => []
      | _ => []

def decodeSums (req : HttpRequest) : List Nat :=
  if httpRequestGetHeader req (ascii "content-length") ≠ none then []
  else unfoldSums req.body.length req.body.length.succ req.body

def decodeCursors (req : HttpRequest) : List (Nat × Nat) :=
  if httpRequestGetHeader req (ascii "content-length") ≠ none then []
  else unfoldCursors req.body.length req.body.length.succ 0 req.body

/-! ## Liberties -/

def Feeds (lead : Bytes) : Prop := ∀ b ∈ lead, isCrLf b = true

def PassedOver (ext : Bytes) : Prop := ext = [] ∨ ∃ b rest, ext = b :: rest ∧ (b = 59 ∨ b = 32) ∧
    ∀ c ∈ rest, isCrLf c = false

/-- Digits where the decoder looks for a size. -/
def SizeAt (view digits : Bytes) : Prop :=
  ∃ cs lead rest, view = chunksBytes cs ++ (lead ++ (digits ++ rest)) ∧ Feeds lead ∧
    ∀ c ∈ digits, (digitValue c).isSome = true

/-- An accepted view begins with a body of the grammar `Body Lead Ext` that has the
payload, and nothing else of the view is used up. -/
structure ExactlyRead (Lead Ext : Bytes → Prop) (req : HttpRequest) (behind : Bytes) : Prop where
  accepted : ∀ payload left overread, httpRequestDecodeChunked req behind = .complete payload left overread →
    overread = false ∧ ∃ text, req.body = text ++ left ∧ Body Lead Ext text payload
  sums : ∀ n ∈ decodeSums req, n < 2 ^ 64
  cursors : ∀ p ∈ decodeCursors req, p.1 ≤ p.2

theorem body_of_chunks {m : SizeMark} (hZero : number m.digits = 0) (cs : List LooseChunk)
    (hSized : ∀ c ∈ cs, number c.digits = c.data.length) :
    Body Feeds PassedOver (chunksBytes cs ++ (m.text ++ [13, 10])) (chunksData cs) := by
  induction cs with
  | nil =>
    have hLast := @Body.last Feeds PassedOver m.lead m.digits m.ext [] m.feeds m.size m.passed hZero .nil
    rw [chunksBytes, List.flatMap_nil, List.nil_append, SizeMark.text]
    simp only [List.append_assoc, List.cons_append, List.nil_append] at hLast ⊢
    exact hLast
  | cons c cs ih =>
    have hMore := ih fun d hd => hSized d (List.mem_cons_of_mem _ hd)
    have hChunk := @Body.chunk Feeds PassedOver c.lead c.digits c.ext c.data _ _ c.feeds c.size c.passed
      (hSized c List.mem_cons_self) c.some hMore
    have hBytes : chunksBytes (c :: cs) ++ (m.text ++ [13, 10]) = c.bytes ++
      (chunksBytes cs ++ (m.text ++ [13, 10])) :=
      List.append_assoc _ _ _
    rw [hBytes, LooseChunk.bytes_append, SizeMark.text]
    simp only [List.append_assoc, List.cons_append, List.nil_append] at hChunk ⊢
    exact hChunk

section Fitting

variable {view : Bytes} (hSizes : ∀ digits, SizeAt view digits → number digits + view.length < 2 ^ 64)
include hSizes

theorem number_lt {cs : List LooseChunk} {m : SizeMark} {more : Bytes}
    (hView : view = chunksBytes cs ++ (m.text ++ more)) :
    number m.digits + view.length < 2 ^ 64 := by
  refine hSizes m.digits ⟨cs, m.lead, m.ext ++ [13, 10] ++ more, ?_, m.feeds, m.size.hex⟩
  rw [hView, SizeMark.text]
  simp only [List.append_assoc]

theorem word_eq {cs : List LooseChunk} {m : SizeMark} {more : Bytes}
    (hView : view = chunksBytes cs ++ (m.text ++ more)) :
    m.word = number m.digits := by
  have hLt := number_lt hSizes hView
  rw [SizeMark.word, Nat.mod_eq_of_lt (by omega)]

theorem digitSums_lt {cs : List LooseChunk} {lead : Bytes} (hLead : Feeds lead) :
    ∀ (rest read : Bytes), (∀ c ∈ read, (digitValue c).isSome = true) →
      view = chunksBytes cs ++ (lead ++ (read ++ rest)) →
      ∀ n ∈ digitSums (number read) rest, n < 2 ^ 64 := by
  intro rest
  induction rest with
  | nil => exact fun read _ _ n hn => absurd hn List.not_mem_nil
  | cons c rest ih =>
    intro read hRead hView n hn
    rw [digitSums] at hn
    cases hDigit : hexValue c with
    | none =>
      rw [hDigit] at hn
      cases hn
    | some v =>
      rw [hDigit] at hn
      have hValue : digitValue c = some v := (hexValue_eq c).symm.trans hDigit
      have hNumber : number (read ++ [c]) = number read * 16 + v := by
        rw [number, number, numberFrom, numberFrom, List.foldl_append, List.foldl_cons,
          List.foldl_nil, hValue]
        rfl
      have hMore : ∀ d ∈ read ++ [c], (digitValue d).isSome = true := by
        intro d hd
        obtain hd | hd := List.mem_append.mp hd
        · exact hRead d hd
        · rw [List.mem_singleton.mp hd, hValue]
          rfl
      have hNext : view = chunksBytes cs ++ (lead ++ ((read ++ [c]) ++ rest)) := by
        rw [hView, List.append_assoc read, List.singleton_append]
      have hLt := hSizes (read ++ [c]) ⟨cs, lead, rest, hNext, hLead, hMore⟩
      rw [hNumber] at hLt
      obtain rfl | hn := List.mem_cons.mp hn
      · omega
      · have hMod : (number read * 16 + v) % 2 ^ 64 = number (read ++ [c]) := by
          rw [hNumber, Nat.mod_eq_of_lt (by omega)]
        rw [hMod] at hn
        exact ih (read ++ [c]) hMore hNext n hn

theorem mark_of_digits {cs : List LooseChunk} {rest tail more : Bytes} {c : UInt8} {size : Nat}
    (hView : view = chunksBytes cs ++ rest) (hSkip : rest.dropWhile isCrLf = c :: tail)
    (hDigits : sizeDigits 0 false (c :: tail) = (size, true, 13 :: 10 :: more)) :
    size + view.length < 2 ^ 64 ∧ more.length < rest.length ∧ rest.length ≤ view.length ∧
      (size ≠ 0 → ∀ left, more.drop size = 13 :: 10 :: left →
        ∃ ch : LooseChunk, ch.data.length = size ∧ view = chunksBytes (cs ++ [ch]) ++ left) := by
  obtain ⟨_, lead, rfl, hLead, _⟩ := dropWhile_split hSkip
  obtain ⟨digits, ext, hLine, hHex, hSome, hExt⟩ := sizeDigits_inv hDigits
  let m : SizeMark := ⟨lead, digits, ext, hLead, ⟨hSome rfl, hHex⟩, hExt⟩
  have hText : lead ++ c :: tail = m.text ++ more := by
    rw [hLine, SizeMark.text]
    simp only [List.append_assoc, List.cons_append, List.nil_append]
    rfl
  have hWord := m.sizeDigits (10 :: more)
  have hSize : size = m.word := by
    have hBoth := hDigits.symm.trans (hLine ▸ hWord)
    exact (Prod.mk.inj hBoth).1
  rw [hText] at hView ⊢
  have hNumber := word_eq hSizes hView
  have hFits := number_lt hSizes hView
  have hLength : (m.text ++ more).length ≤ view.length := by
    rw [hView, @List.length_append _ (chunksBytes cs) _]
    exact Nat.le_add_left _ _
  refine ⟨by omega, ?_, hLength, ?_⟩
  · rw [List.length_append, SizeMark.text, List.length_append, List.length_append, List.length_append,
      List.length_cons]
    omega
  · intro hPos left hLeft
    have hEnough : (more.take size).length = size := by
      have hDrop := congrArg List.length hLeft
      rw [List.length_drop, List.length_cons, List.length_cons] at hDrop
      rw [List.length_take]
      omega
    have hData : more.take size ≠ [] := by
      intro hNil
      rw [hNil] at hEnough
      exact hPos hEnough.symm
    refine ⟨⟨m, more.take size, hData, by rw [hEnough, hSize]⟩, hEnough, ?_⟩
    rw [hView, chunksBytes, chunksBytes, List.flatMap_append, List.append_assoc, List.flatMap_singleton,
      LooseChunk.bytes_append, ← hLeft, List.take_append_drop]

theorem unfoldSums_lt (fuel : Nat) : ∀ (cs : List LooseChunk) (rest : Bytes), view = chunksBytes cs ++ rest →
    ∀ n ∈ unfoldSums view.length fuel rest, n < 2 ^ 64 := by
  induction fuel with
  | zero => exact fun cs rest _ n hn => absurd hn List.not_mem_nil
  | succ fuel ih =>
    intro cs rest hView n hn
    rw [unfoldSums] at hn
    cases hSkip : rest.dropWhile isCrLf with
    | nil =>
      rw [hSkip] at hn
      cases hn
    | cons c tail =>
      rw [hSkip] at hn
      dsimp only at hn
      obtain hn | hn := List.mem_append.mp hn
      · obtain ⟨_, lead, rfl, hLead, _⟩ := dropWhile_split hSkip
        exact digitSums_lt hSizes hLead (c :: tail) [] (fun d hd => absurd hd List.not_mem_nil) hView n hn
      · split at hn
        · rename_i size more hDigits
          obtain ⟨hFits, _, _, hChunk⟩ := mark_of_digits hSizes hView hSkip hDigits
          split at hn
          · cases hn
          · rename_i hPos
            obtain rfl | hn := List.mem_cons.mp hn
            · omega
            · split at hn
              · cases hn
              · split at hn
                · rename_i left hLeft
                  obtain ⟨ch, _, hNext⟩ := hChunk hPos left hLeft
                  exact ih (cs ++ [ch]) left hNext n hn
                · cases hn
        · cases hn

theorem unfoldCursors_le (fuel : Nat) : ∀ (cs : List LooseChunk) (w : Nat)
    (rest : Bytes), view = chunksBytes cs ++ rest →
    w + rest.length ≤ view.length → ∀ p ∈ unfoldCursors view.length fuel w rest, p.1 ≤ p.2 := by
  induction fuel with
  | zero => exact fun cs w rest _ _ p hp => absurd hp List.not_mem_nil
  | succ fuel ih =>
    intro cs w rest hView hBehind p hp
    rw [unfoldCursors] at hp
    split at hp
    · cases hp
    · rename_i c tail hSkip
      split at hp
      · rename_i size more hDigits
        obtain ⟨hFits, hShorter, hInside, hChunk⟩ := mark_of_digits hSizes hView hSkip hDigits
        split at hp
        · cases hp
        · rename_i hPos
          split at hp
          · cases hp
          · rename_i hMoves
            have hEnough : size ≤ more.length := by omega
            obtain rfl | hp := List.mem_cons.mp hp
            · dsimp only
              rw [Nat.mod_eq_of_lt (by omega : w + size < 2 ^ 64),
                Nat.mod_eq_of_lt (by omega : view.length - more.length + size < 2 ^ 64)]
              omega
            · split at hp
              · rename_i left hLeft
                obtain ⟨ch, _, hNext⟩ := hChunk hPos left hLeft
                have hDrop := congrArg List.length hLeft
                rw [List.length_drop, List.length_cons, List.length_cons] at hDrop
                exact ih (cs ++ [ch]) (w + size) left hNext (by omega) p hp
              · cases hp
      · cases hp

end Fitting

/-- An empty line follows the last chunk. -/
def EmptyLine (view : Bytes) : Prop :=
  ∀ (cs : List LooseChunk) (m : SizeMark) (more : Bytes), view = chunksBytes cs ++ (m.text ++ more) →
    number m.digits = 0 →
    [13, 10] <+: more

/-- Where the sizes fit a word and an empty line follows the last chunk, line ends in
front of a size and text behind it are the only liberties. -/
theorem exactlyRead_loose (req : HttpRequest) (behind : Bytes)
    (hSizes : ∀ digits, SizeAt req.body digits → number digits + req.body.length < 2 ^ 64)
    (hEmpty : EmptyLine req.body) :
    ExactlyRead Feeds PassedOver req behind := by
  constructor
  · intro payload left overread hDecode
    have hNone : httpRequestGetHeader req (ascii "content-length") = none := by
      by_contra hSome
      rw [httpRequestDecodeChunked, if_pos hSome] at hDecode
      cases hDecode
    obtain ⟨cs, tail, hBody, hTail⟩ := chunks_split _ req.body (Nat.le_refl _)
    obtain ⟨fuel, hRounds, _⟩ := decode_chunks hNone hBody
    rw [hRounds] at hDecode
    cases hTail with
    | dry hDry =>
      rw [(unfoldLoop_dry hDry _ _ _ _).1] at hDecode
      cases hDecode
    | last m more hText hZero =>
      rw [hText] at hBody
      have hNumber : number m.digits = 0 := by rw [← word_eq hSizes hBody, hZero]
      obtain ⟨after, rfl⟩ := hEmpty cs m more hBody hNumber
      rw [hText, m.unfoldLoop, if_pos hZero] at hDecode
      obtain ⟨rfl, rfl, rfl⟩ := Unfolded.complete.inj hDecode
      refine ⟨rfl, chunksBytes cs ++ (m.text ++ [13, 10]), ?_, body_of_chunks hNumber cs ?_⟩
      · rw [hBody]
        simp only [List.append_assoc]
        rfl
      · intro c hc
        obtain ⟨pre, post, rfl⟩ := List.append_of_mem hc
        have hAt : req.body = chunksBytes pre ++
          (c.text ++ (c.data ++ 13 :: 10 :: (chunksBytes post ++ (m.text ++ ([13, 10] ++ after))))) := by
          rw [hBody, chunksBytes, List.flatMap_append, List.flatMap_cons, List.append_assoc,
            List.append_assoc,
            LooseChunk.bytes_append]
          rfl
        rw [← word_eq hSizes hAt, c.sized]
    | part m more hText hSome hShort =>
      rw [hText, m.unfoldLoop, if_neg hSome, if_pos hShort] at hDecode
      split at hDecode
      · cases hDecode
      · cases hDecode
    | broken hBroken =>
      obtain ⟨⟨moved, hMoved⟩, _⟩ := hBroken
      rw [hMoved] at hDecode
      cases hDecode
  · intro n hn
    rw [decodeSums] at hn
    split at hn
    · cases hn
    · exact unfoldSums_lt hSizes _ [] req.body rfl n hn
  · intro p hp
    rw [decodeCursors] at hp
    split at hp
    · cases hp
    · exact unfoldCursors_le hSizes _ [] 0 req.body rfl (by omega) p hp

theorem numberFrom_lt {digits : Bytes} (h : ∀ c ∈ digits, (digitValue c).isSome = true) :
    ∀ n, numberFrom n digits < (n + 1) * 16 ^ digits.length := by
  have hDigit : ∀ c, (digitValue c).getD 0 < 16 := CString.forall_byte (by decide +kernel)
  induction digits with
  | nil =>
    intro n
    rw [List.length_nil, Nat.pow_zero, Nat.mul_one]
    exact Nat.lt_succ_self n
  | cons c digits ih =>
    intro n
    have hc := hDigit c
    have hMore := ih (fun d hd => h d (List.mem_cons_of_mem _ hd)) (n * 16 + (digitValue c).getD 0)
    rw [numberFrom, List.foldl_cons, ← numberFrom, List.length_cons, Nat.pow_succ']
    calc
      numberFrom (n * 16 + (digitValue c).getD 0) digits <
        (n * 16 + (digitValue c).getD 0 + 1) * 16 ^ digits.length := hMore
      _ ≤ ((n + 1) * 16) * 16 ^ digits.length := Nat.mul_le_mul_right _ (by omega)
      _ = (n + 1) * (16 * 16 ^ digits.length) := Nat.mul_assoc _ _ _

theorem sizes_of_short {view : Bytes} (h : view.length ≤ 15) : ∀ digits, SizeAt view digits →
    number digits + view.length < 2 ^ 64 := by
  rintro digits ⟨cs, lead, rest, hView, _, hHex⟩
  have hLength : digits.length ≤ 15 := by
    rw [hView, List.length_append, List.length_append, List.length_append] at h
    omega
  have hLt := numberFrom_lt hHex 0
  have hPow : 16 ^ digits.length ≤ 16 ^ 15 := Nat.pow_le_pow_right (by decide) hLength
  rw [number]
  omega

theorem SizeMark.reads (m : SizeMark) (more : Bytes) :
    Cweb.sizeDigits 0 false ((m.text ++ more).dropWhile isCrLf) = (m.word, true, 13 :: 10 :: more) := by
  obtain ⟨c, tail, hSkip, hDigits⟩ := m.skip more
  rw [hSkip, hDigits]

theorem emptyLine_of_last {view left : Bytes}
    (h : sizeDigits 0 false (view.dropWhile isCrLf) = (0, true, 13 :: 10 :: 13 :: 10 :: left)) :
    EmptyLine view := by
  intro cs m more hView _
  cases cs with
  | nil =>
    have hReads := m.reads more
    rw [chunksBytes, List.flatMap_nil, List.nil_append] at hView
    rw [← hView, h] at hReads
    simp only [Prod.mk.injEq, List.cons.injEq, true_and] at hReads
    exact ⟨left, hReads.2⟩
  | cons c cs =>
    have hReads := c.toSizeMark.reads (c.data ++ 13 :: 10 :: (chunksBytes cs ++ (m.text ++ more)))
    rw [← LooseChunk.bytes_append, ← List.append_assoc, show c.bytes ++
      chunksBytes cs = chunksBytes (c :: cs) from rfl, ← hView, h]
      at hReads
    exact absurd (Prod.mk.inj hReads).1.symm c.word_pos

theorem emptyLine_of_chunk {view data left : Bytes}
    (h : sizeDigits 0 false (view.dropWhile isCrLf) =
      (data.length, true, 13 :: 10 :: (data ++ 13 :: 10 :: left)))
    (hShort : data.length ≠ 0) (hLeft : EmptyLine left) : EmptyLine view := by
  intro cs m more hView hZero
  cases cs with
  | nil =>
    have hReads := m.reads more
    rw [chunksBytes, List.flatMap_nil, List.nil_append] at hView
    rw [← hView, h] at hReads
    have hWord := (Prod.mk.inj hReads).1
    rw [SizeMark.word, hZero] at hWord
    exact absurd hWord hShort
  | cons c cs =>
    have hReads := c.toSizeMark.reads (c.data ++ 13 :: 10 :: (chunksBytes cs ++ (m.text ++ more)))
    rw [← LooseChunk.bytes_append, ← List.append_assoc, show c.bytes ++
      chunksBytes cs = chunksBytes (c :: cs) from rfl, ← hView, h]
      at hReads
    simp only [Prod.mk.injEq, List.cons.injEq, true_and] at hReads
    obtain ⟨_, hRest⟩ := List.append_inj hReads.2 (by rw [hReads.1, c.sized])
    simp only [List.cons.injEq, true_and] at hRest
    exact hLeft cs m more hRest hZero

theorem exactlyRead_hello : ExactlyRead Feeds PassedOver { emptyRequest with body := helloChunks } [] := by
  refine exactlyRead_loose { emptyRequest with body := helloChunks } []
    (sizes_of_short (by decide +kernel)) ?_
  have hLast : EmptyLine (ascii "0\r\n\r\n") := @emptyLine_of_last _ [] (by decide +kernel)
  exact @emptyLine_of_chunk helloChunks (ascii "hello") _ (by decide +kernel) (by decide +kernel) hLast

/-- A line end in front of a size is passed over, and is not in the grammar of the RFC. -/
theorem stray_accepted :
    ¬ ExactlyRead (· = []) Extensions { emptyRequest with body := ascii "\r\n0\r\n\r\n" } [] := by
  intro h
  have hDecode : httpRequestDecodeChunked { emptyRequest with body := ascii "\r\n0\r\n\r\n" } [] =
    .complete [] [] false := by
    decide +kernel
  obtain ⟨_, text, hText, hRfc⟩ := h.accepted _ _ _ hDecode
  obtain ⟨c, rest, rfl, hDigit⟩ := Rfc.head hRfc
  have hHead := congrArg List.head? hText
  obtain rfl : 13 = c := Option.some.inj hHead
  cases hDigit

end Cweb
