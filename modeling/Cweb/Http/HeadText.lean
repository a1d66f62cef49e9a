import Mathlib.Data.List.Infix
import Cweb.Http.Response
import Cweb.Http.ClientRead

/-!
# The text of a head

A head is a list of lines, each ended by CRLF, and an empty line. Lines that
are not empty and hold no CR or LF can be told apart again: the first blank line
is the end of the head, also while only a part of it has arrived.
-/

namespace Cweb

open Sv HttpClient

def LineOk (text : Bytes) : Prop := text ≠ [] ∧ 13 ∉ text ∧ 10 ∉ text

def linesText (lines : List Bytes) : Bytes := lines.flatMap fun text => text ++ crlf

def headText (lines : List Bytes) : Bytes := linesText lines ++ crlf

theorem linesText_append (l l' : List Bytes) : linesText (l ++ l') = linesText l ++ linesText l' :=
  List.flatMap_append

/-! ## The blank line -/

/-- A CRLF and an empty line at `i`. -/
def BlankAt (data : Bytes) (i : Nat) : Prop := ascii "\r\n\r\n" <+: data.drop i

theorem BlankAt.first {data : Bytes} {i : Nat} (h : BlankAt data i) : data[i]? = some 13 := by
  obtain ⟨t, hEq⟩ := h
  have hAt : (data.drop i)[0]? = some 13 := by
    rw [← hEq]
    rfl
  rwa [List.getElem?_drop, Nat.add_zero] at hAt

theorem BlankAt.third {data : Bytes} {i : Nat} (h : BlankAt data i) : data[i + 2]? = some 13 := by
  obtain ⟨t, hEq⟩ := h
  have hAt : (data.drop i)[2]? = some 13 := by
    rw [← hEq]
    rfl
  rwa [List.getElem?_drop] at hAt

theorem BlankAt.of_prefix {data more : Bytes} {i : Nat} (h : BlankAt data i) (hPrefix : data <+: more) :
    BlankAt more i := by
  obtain ⟨t, rfl⟩ := hPrefix
  have hLen : i ≤ data.length := by
    obtain ⟨hLt, _⟩ := List.getElem?_eq_some_iff.mp h.first
    exact hLt.le
  rw [BlankAt, List.drop_append_of_le_length hLen]
  exact h.trans (List.prefix_append _ _)

theorem blankAt_head_le {lines : List Bytes} (hLines : ∀ text ∈ lines, LineOk text)
    (hNonempty : lines ≠ []) (more : Bytes) :
    ∀ {i : Nat}, BlankAt (headText lines ++ more) i → (headText lines).length ≤ i + 4 := by
  induction lines with
  | nil => exact absurd rfl hNonempty
  | cons text lines ih =>
    intro i hBlank
    obtain ⟨_, hCr, _⟩ := hLines text List.mem_cons_self
    have hText : headText (text :: lines) ++ more = text ++ (13 :: 10 :: (headText lines ++ more)) := by
      rw [headText, linesText, List.flatMap_cons]
      simp [crlf, headText, linesText]
    rw [hText] at hBlank
    have hBehind : text.length ≤ i := by
      by_contra hLt
      have hAt := hBlank.first
      rw [List.getElem?_append_left (by omega)] at hAt
      exact hCr (List.mem_of_getElem? hAt)
    have hLength : (headText (text :: lines)).length = text.length + 2 + (headText lines).length := by
      rw [headText, linesText, List.flatMap_cons]
      simp [crlf, headText, linesText]
      omega
    obtain ⟨k, rfl⟩ : ∃ k, i = text.length + k := ⟨i - text.length, by omega⟩
    have hFirst := hBlank.first
    have hThird := hBlank.third
    rw [List.getElem?_append_right (by omega)] at hFirst hThird
    rw [Nat.add_sub_cancel_left] at hFirst
    rw [show text.length + k + 2 - text.length = k + 2 by omega] at hThird
    cases k with
    | zero =>
      cases lines with
      | nil =>
        rw [hLength]
        change text.length + 2 + 2 ≤ _
        omega
      | cons next lines =>
        obtain ⟨hNext, hCrNext, _⟩ := hLines next (List.mem_cons_of_mem _ List.mem_cons_self)
        exfalso
        cases next with
        | nil => exact hNext rfl
        | cons b next =>
          have hAt : (13 :: 10 :: (headText ((b :: next) :: lines) ++ more))[0 + 2]? = some b := by
            rw [headText, linesText, List.flatMap_cons]
            rfl
          rw [hAt] at hThird
          exact hCrNext (by rw [Option.some.inj hThird]; exact List.mem_cons_self)
    | succ k =>
      cases k with
      | zero =>
        have hAt : (13 :: 10 :: (headText lines ++ more) : Bytes)[0 + 1]? = some 10 := rfl
        rw [hAt] at hFirst
        exact absurd (Option.some.inj hFirst) (by decide)
      | succ k =>
        have hRest : BlankAt (headText lines ++ more) k := by
          rw [BlankAt, List.drop_append, List.drop_of_length_le (by omega), List.nil_append,
            show text.length + (k + 1 + 1) - text.length = k + 2 by omega] at hBlank
          exact hBlank
        rw [hLength]
        cases lines with
        | nil =>
          change text.length + 2 + 2 ≤ _
          omega
        | cons next lines =>
          have hLe := ih (fun t ht => hLines t (List.mem_cons_of_mem _ ht)) (List.cons_ne_nil _ _) hRest
          omega

theorem blankAt_head {lines : List Bytes} (hNonempty : lines ≠ []) (more : Bytes) :
    BlankAt (headText lines ++ more) ((headText lines).length - 4) := by
  obtain ⟨init, last, rfl⟩ : ∃ init last, lines = init ++ [last] :=
    ⟨lines.dropLast, lines.getLast hNonempty, (List.dropLast_append_getLast hNonempty).symm⟩
  have hText : headText (init ++ [last]) ++ more = (linesText init ++ last) ++
    (ascii "\r\n\r\n" ++ more) := by
    rw [headText, linesText_append]
    have hFour : ascii "\r\n\r\n" = crlf ++ crlf := by decide
    rw [hFour]
    simp [linesText]
  have hLength : (headText (init ++ [last])).length - 4 = (linesText init ++ last).length := by
    rw [headText, linesText_append]
    simp [linesText, crlf]
    omega
  rw [BlankAt, hText, hLength, List.drop_left]
  exact List.prefix_append _ _

theorem findHeadSep_head {lines : List Bytes} (hLines : ∀ text ∈ lines, LineOk text)
    (hNonempty : lines ≠ []) {more data : Bytes}
    (hData : data <+: headText lines ++ more) :
    findHeadSep data =
      if (headText lines).length ≤ data.length then some ((headText lines).length - 4) else none := by
  have hLong : 4 ≤ (headText lines).length := by
    have hBlank := blankAt_head hNonempty ([] : Bytes)
    obtain ⟨t, hEq⟩ := hBlank
    have hLen := congrArg List.length hEq
    rw [List.length_append, List.length_drop, List.append_nil] at hLen
    have hFour : (ascii "\r\n\r\n").length = 4 := by decide
    omega
  have hPrefix : ∀ i, (ascii "\r\n\r\n").isPrefixOf (data.drop i) = true ↔ BlankAt data i := by
    intro i
    rw [List.isPrefixOf_iff_prefix]
    rfl
  split
  · rename_i hAll
    rw [findHeadSep, List.findIdx?_eq_some_iff_getElem]
    have hAt : BlankAt data ((headText lines).length - 4) := by
      obtain ⟨rest, hRest⟩ := hData
      have hHead : headText lines <+: data := by
        refine List.prefix_of_prefix_length_le (List.prefix_append _ more) ?_ hAll
        rw [← hRest]
        exact List.prefix_append _ _
      obtain ⟨mid, rfl⟩ := hHead
      exact blankAt_head hNonempty mid
    refine ⟨by rw [List.length_tails]; omega, ?_, ?_⟩
    · rw [List.getElem_tails]
      exact (hPrefix _).mpr hAt
    · intro j hj
      rw [List.getElem_tails, Bool.not_eq_true, ← Bool.not_eq_true, hPrefix]
      intro hBlank
      have hLe := blankAt_head_le hLines hNonempty more (hBlank.of_prefix hData)
      omega
  · rename_i hPart
    rw [findHeadSep, List.findIdx?_eq_none_iff]
    intro tail hTail
    rw [List.mem_tails, List.suffix_iff_eq_drop] at hTail
    rw [hTail, ← Bool.not_eq_true, hPrefix]
    intro hBlank
    have hLe := blankAt_head_le hLines hNonempty more (hBlank.of_prefix hData)
    have hThere : (ascii "\r\n\r\n").length ≤ (data.drop (data.length - tail.length)).length :=
      List.IsPrefix.length_le hBlank
    rw [List.length_drop] at hThere
    have hFour : (ascii "\r\n\r\n").length = 4 := by decide
    omega

/-! ## The lines -/

theorem svPieces_linesText (lines : List Bytes) : ∀ fuel, (linesText lines).length ≤ fuel →
    (∀ text ∈ lines, 10 ∉ text) → svPieces 10 fuel (linesText lines) = lines.map (· ++ [13]) := by
  induction lines with
  | nil =>
    intro fuel _ _
    cases fuel with
    | zero => rfl
    | succ fuel => rfl
  | cons text lines ih =>
    intro fuel hFuel hLf
    have hText : linesText (text :: lines) = (text ++ [13]) ++ 10 :: linesText lines := by
      rw [linesText, List.flatMap_cons]
      simp [crlf, linesText]
    rw [hText] at hFuel ⊢
    rw [List.length_append, List.length_append, List.length_cons, List.length_cons] at hFuel
    obtain ⟨fuel, rfl⟩ : ∃ k, fuel = k + 1 := ⟨fuel - 1, by omega⟩
    have hNot : 10 ∉ text ++ [13] := by
      intro hMem
      obtain hMem | hMem := List.mem_append.mp hMem
      · exact hLf text List.mem_cons_self hMem
      · exact absurd (List.mem_singleton.mp hMem) (by decide)
    have hChop : svChopByDelim 10 ((text ++ [13]) ++ 10 :: linesText lines) =
      (text ++ [13], linesText lines) :=
      svChopByDelim_append 10 _ _ hNot
    rw [svPieces, if_neg (by simp), hChop, ih fuel (by omega) fun t ht => hLf t (List.mem_cons_of_mem _ ht)]
    rfl

theorem svTrimRight_cr (text : Bytes) : svTrimRight (text ++ [13]) = svTrimRight text := by
  rw [svTrimRight, svTrimRight, List.rdropWhile_concat_pos _ _ _ (by decide)]

theorem headLines_linesText {lines : List Bytes} (hLf : ∀ text ∈ lines, 10 ∉ text)
    (hSeen : ∀ text ∈ lines, svTrimRight text ≠ []) :
    headLines (linesText lines) = lines.map svTrimRight := by
  rw [headLines, svSplit, svPieces_linesText lines _ (Nat.le_refl _) hLf, List.map_map]
  have hTrimmed : (svTrimRight ∘ fun text => text ++ [13]) = svTrimRight := by
    funext text
    exact svTrimRight_cr text
  rw [hTrimmed]
  refine List.takeWhile_eq_self_iff.mpr ?_
  intro text hText
  obtain ⟨t, ht, rfl⟩ := List.mem_map.mp hText
  exact decide_eq_true (hSeen t ht)

/-! ## Fields -/

def fieldText (f : HttpHeader) : Bytes := f.key ++ ascii ": " ++ f.value

theorem headerLine_eq (name value : Bytes) : headerLine name value = fieldText ⟨name, value⟩ ++ crlf := rfl

/-- A name without a colon and no CR or LF anywhere. -/
structure FieldOk (f : HttpHeader) : Prop where
  colon : 58 ∉ f.key
  keyCr : 13 ∉ f.key
  keyLf : 10 ∉ f.key
  valueCr : 13 ∉ f.value
  valueLf : 10 ∉ f.value

theorem FieldOk.line {f : HttpHeader} (h : FieldOk f) : LineOk (fieldText f) := by
  have hSep : 13 ∉ ascii ": " ∧ 10 ∉ ascii ": " := by decide
  refine ⟨?_, ?_, ?_⟩
  · intro hNil
    exact absurd (List.append_eq_nil_iff.mp (List.append_eq_nil_iff.mp hNil).1).2 (by decide)
  · intro hMem
    obtain hMem | hMem := List.mem_append.mp hMem
    · obtain hMem | hMem := List.mem_append.mp hMem
      · exact h.keyCr hMem
      · exact hSep.1 hMem
    · exact h.valueCr hMem
  · intro hMem
    obtain hMem | hMem := List.mem_append.mp hMem
    · obtain hMem | hMem := List.mem_append.mp hMem
      · exact h.keyLf hMem
      · exact hSep.2 hMem
    · exact h.valueLf hMem

theorem takeWhile_key {f : HttpHeader} (hColon : 58 ∉ f.key) (more : Bytes) :
    (fieldText f ++ more).takeWhile (· ≠ 58) = f.key := by
  rw [fieldText, List.append_assoc, List.append_assoc, List.takeWhile_append_of_pos]
  · exact List.append_nil _
  · intro b hb
    exact decide_eq_true fun hEq => hColon (hEq ▸ hb)

theorem drop_key (f : HttpHeader) (more : Bytes) :
    (fieldText f ++ more).drop (f.key.length + 1) = 32 :: (f.value ++ more) := by
  rw [fieldText, List.append_assoc, List.append_assoc, ← List.drop_drop, List.drop_left]
  rfl

theorem tolower_eq_iff {b c : UInt8} (hc : c = 58 ∨ c = 13 ∨ c = 10) : tolower b = c ↔ b = c := by
  have hCase : ∀ b : UInt8, tolower b = b ∨ 65 ≤ b.toNat ∧ b.toNat ≤ 90 ∧ (tolower b).toNat = b.toNat +
    32 := by
    intro b
    rw [tolower]
    split
    · rename_i hUpper
      rw [Bool.and_eq_true, decide_eq_true_eq, decide_eq_true_eq, UInt8.le_iff_toNat_le,
        UInt8.le_iff_toNat_le] at hUpper
      have hLow : 65 ≤ b.toNat := hUpper.1
      have hHigh : b.toNat ≤ 90 := hUpper.2
      refine .inr ⟨hLow, hHigh, ?_⟩
      rw [UInt8.toNat_add]
      change (b.toNat + 32) % 2 ^ 8 = b.toNat + 32
      omega
    · exact .inl rfl
  obtain hSame | ⟨hLow, hHigh, hEq⟩ := hCase b
  · rw [hSame]
  · have hNat : c.toNat = 58 ∨ c.toNat = 13 ∨ c.toNat = 10 := by
      obtain rfl | rfl | rfl := hc
      · exact .inl rfl
      · exact .inr (.inl rfl)
      · exact .inr (.inr rfl)
    constructor
    · intro h
      rw [h] at hEq
      omega
    · intro h
      rw [h] at hLow
      omega

/-- Bytes that are no letters are in a text whatever its case. -/
theorem mem_of_map_tolower {s s' : Bytes} (h : s.map tolower = s'.map tolower) {c : UInt8}
    (hc : c = 58 ∨ c = 13 ∨ c = 10) (hMem : c ∈ s) : c ∈ s' := by
  have hLower : c ∈ s'.map tolower := by
    rw [← h]
    exact List.mem_map.mpr ⟨c, hMem, (tolower_eq_iff hc).mpr rfl⟩
  obtain ⟨b, hb, hEq⟩ := List.mem_map.mp hLower
  rw [(tolower_eq_iff hc).mp hEq] at hb
  exact hb

theorem name_of_colon {f : HttpHeader} (hColon : 58 ∉ f.key) {text name : Bytes} (hName : 58 ∉ name)
    (hText : text <+: fieldText f) (hAt : text[name.length]? = some 58)
    (hTake : (text.take name.length).map tolower = name.map tolower) :
    text.take name.length = f.key ∧ f.key.map tolower = name.map tolower := by
  obtain ⟨rest, hRest⟩ := hText
  have hLt : name.length < text.length := (List.getElem?_eq_some_iff.mp hAt).1
  have hFull : (fieldText f)[name.length]? = some 58 := by
    rw [← hRest, List.getElem?_append_left hLt]
    exact hAt
  have hNone : 58 ∉ text.take name.length := fun hMem => hName (mem_of_map_tolower hTake (.inl rfl) hMem)
  have hKey : f.key.length = name.length := by
    obtain hLess | hEq | hMore := Nat.lt_trichotomy f.key.length name.length
    · exfalso
      have hColonAt : (fieldText f)[f.key.length]? = some 58 := by
        rw [fieldText, List.append_assoc, List.getElem?_append_right (Nat.le_refl _), Nat.sub_self]
        rfl
      rw [← hRest, List.getElem?_append_left (by omega)] at hColonAt
      refine hNone (List.mem_of_getElem? (i := f.key.length) ?_)
      rw [List.getElem?_take_of_lt hLess]
      exact hColonAt
    · exact hEq
    · exfalso
      rw [fieldText, List.append_assoc, List.getElem?_append_left hMore] at hFull
      exact hColon (List.mem_of_getElem? hFull)
  have hEq : text.take name.length = f.key := by
    have hPrefix : text.take name.length <+: fieldText f := (List.take_prefix _ _).trans ⟨rest, hRest⟩
    have hKeyPrefix : f.key <+: fieldText f := by
      rw [fieldText, List.append_assoc]
      exact List.prefix_append _ _
    refine (List.prefix_of_prefix_length_le hPrefix hKeyPrefix ?_).eq_of_length ?_
    · rw [List.length_take]
      omega
    · rw [List.length_take]
      omega
  exact ⟨hEq, by rw [← hEq]; exact hTake⟩

end Cweb
