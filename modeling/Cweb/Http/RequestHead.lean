import Cweb.Http.ParseStable

/-!
# The lines of an accepted head

The parser takes off the blank space around a head before it looks for lines. What
it makes of the first line as it was sent, and of the lines behind it, is told here
by the lines of the head as they stand.
-/

namespace Cweb

open Sv

/-! ## The lines as they stand -/

/-- The lines of a head without their ends. -/
def rawLines (head : Bytes) : List Bytes := (svSplit 10 head).map dropCr

/-- The request is what the lines of its head say. No token has white space in it. -/
structure FromHead (head : Bytes) (req : HttpRequest) : Prop where
  lines : ∃ first fields method, rawLines head = first :: fields ∧
    IsRequestLine first method req.target req.version ∧ (∀ b ∈ first, b = 32 ∨ isspace b = false) ∧
    req.method = httpMethodFromSv method ∧ req.headers = fields.filterMap fieldLine
  path : 63 ∉ req.path
  query : req.target = req.path ∧ req.query = [] ∨ req.target = req.path ++ 63 :: req.query

/-- The head ahead of the first blank line. -/
def headAt (raw behind : Bytes) : Option Bytes := (findHeaderEnd raw behind).map fun stop =>
    (raw ++ behind).take stop

/-- A line with bytes in it, none of them white space but spaces in between. -/
structure PlainLine (line : Bytes) : Prop where
  filled : line ≠ []
  first : line.head? ≠ some 32
  last : line.getLast? ≠ some 32
  blanks : ∀ b ∈ line, b = 32 ∨ isspace b = false

/-- The first line of the head, as it stands, is a plain one. -/
def FirstLineOk (head : Bytes) : Prop := ∃ first fields, rawLines head = first :: fields ∧ PlainLine first

theorem IsRequestLine.plainLine {line method target version : Bytes}
    (h : IsRequestLine line method target version)
    (hBlanks : ∀ b ∈ line, b = 32 ∨ isspace b = false) : PlainLine line := by
  obtain ⟨hSome, hSpace⟩ := h.tokens method (by simp)
  obtain ⟨b, rest, hMethod⟩ := List.exists_cons_of_ne_nil hSome
  refine ⟨?_, ?_, h.last, hBlanks⟩
  · rw [h.split]
    exact List.append_ne_nil_of_left_ne_nil hSome _
  · rw [h.split, hMethod]
    intro hFirst
    obtain rfl : b = 32 := Option.some.inj hFirst
    exact hSpace (hMethod ▸ List.mem_cons_self)

theorem svSplit_front {s line : Bytes} {rest : List Bytes} (h : svSplit 10 s = line :: rest) :
    line <+: s := by
  obtain ⟨hNone, _⟩ | ⟨piece, more, rfl, hNone, _⟩ := svChopByDelim_cases 10 s
  · cases s with
    | nil => cases h
    | cons b s =>
      rw [svSplit_last hNone (List.cons_ne_nil b s)] at h
      obtain ⟨rfl, _⟩ := List.cons.inj h
      exact List.prefix_refl _
  · rw [svSplit_line hNone] at h
    obtain ⟨rfl, _⟩ := List.cons.inj h
    exact List.prefix_append _ _

theorem dropCr_front (text : Bytes) : dropCr text <+: text := by
  rw [dropCr]
  split
  · exact List.dropLast_prefix text
  · exact List.prefix_refl _

theorem PlainLine.starts {head first : Bytes} {fields : List Bytes} (h : PlainLine first)
    (hLines : rawLines head = first :: fields) :
    ∃ b, head.head? = some b ∧ isspace b = false := by
  obtain ⟨line, rest, hSplit, rfl, _⟩ := List.map_eq_cons_iff.mp hLines
  obtain ⟨b, tail, hCons⟩ := List.exists_cons_of_ne_nil h.filled
  obtain ⟨more, hMore⟩ := (dropCr_front line).trans (svSplit_front hSplit)
  refine ⟨b, by rw [← hMore, hCons]; rfl, ?_⟩
  obtain rfl | hNot := h.blanks b (hCons ▸ List.mem_cons_self)
  · exact absurd (by rw [hCons]; rfl) h.first
  · exact hNot

theorem fieldLine_blank_only {w : Bytes} (hw : Blank w) : fieldLine w = none := by
  have hSame := fieldLine_blank hw []
  rw [List.nil_append] at hSame
  rw [hSame]
  rfl

theorem blankLines_fields (n : Nat) : ∀ c : Bytes, c.length ≤ n → Blank c →
    ((svSplit 10 c).map dropCr).filterMap fieldLine = [] := by
  induction n with
  | zero =>
    intro c hLength _
    obtain rfl := List.length_eq_zero_iff.mp (Nat.le_zero.mp hLength)
    rfl
  | succ n ih =>
    intro c hLength hBlank
    have hLine : ∀ {line : Bytes}, line ⊆ c → fieldLine (dropCr line) = none :=
      fun hSubset => fieldLine_blank_only fun b hb => hBlank b (hSubset (dropCr_subset _ hb))
    obtain ⟨hNone, _⟩ | ⟨line, rest, rfl, hNone, _⟩ := svChopByDelim_cases 10 c
    · cases c with
      | nil => rfl
      | cons b c =>
        rw [svSplit_last hNone (List.cons_ne_nil b c), List.map_singleton, List.filterMap_cons,
          hLine fun _ h => h]
        rfl
    · rw [List.length_append, List.length_cons] at hLength
      have hRest :=
        ih rest (by omega) fun b hb => hBlank b (List.mem_append_right _ (List.mem_cons_of_mem _ hb))
      rw [svSplit_line hNone, List.map_cons, List.filterMap_cons, hLine fun _ h => List.mem_append_left _ h]
      exact hRest

/-- A plain head that ends in a line feed. Its lines are those of the trimmed head, the
last one with blanks behind it, and blank ones. -/
theorem plainHead_lines {head : Bytes} (hStarts : ∃ first, head.head? = some first ∧ isspace first = false)
    (hEnd : head.getLast? = some 10) : ∃ init last w more, Blank w ∧ last ≠ [] ∧
      headLines head = init ++ [last] ∧
      (svSplit 10 head).map dropCr = init ++ (last ++ w) :: more ∧ fieldLine (last ++ w) = fieldLine last ∧
        more.filterMap fieldLine = [] := by
  obtain ⟨first, hHead, hFirst⟩ := hStarts
  obtain ⟨tail, hCons⟩ := List.head?_eq_some_iff.mp hHead
  have hTrim : svTrim head = svTrimRight head := by
    rw [svTrim, svTrimLeft, hCons, List.dropWhile_cons_of_neg (by rw [hFirst]; exact Bool.false_ne_true)]
  obtain ⟨w, hw, hSplit⟩ := svTrimRight_split head
  have hLast : ∀ b ∈ (svTrim head).getLast?, isspace b = false := svTrimRight_getLast _
  rw [← hTrim] at hSplit
  have hSome : svTrim head ≠ [] := by
    intro hNil
    rw [hNil, List.nil_append] at hSplit
    have hIs := hw first (by rw [← hSplit, hCons]; exact List.mem_cons_self)
    rw [hFirst] at hIs
    cases hIs
  have hNotFeed : (svTrim head).getLast? ≠ some 10 := fun hEq => absurd (hLast 10 hEq) (by decide)
  obtain ⟨hNone, _⟩ | ⟨w₁, c, rfl, hNone, _⟩ := svChopByDelim_cases 10 w
  · refine absurd hEnd ?_
    rw [hSplit, List.getLast?_append]
    cases hw' : w.getLast? with
    | none => exact hNotFeed
    | some b =>
      intro hEq
      obtain rfl : b = 10 := Option.some.inj hEq
      exact hNone (List.mem_of_getLast? hw')
  · obtain ⟨init, last, hShort, hLastSome, hSameEnd, hGrown⟩ :=
      svSplit_grown hNone _ (svTrim head) (Nat.le_refl _) hSome hNotFeed
    rw [← hSameEnd] at hLast
    have hw₁ : Blank w₁ := fun b hb => hw b (List.mem_append_left _ hb)
    have hc : Blank c := fun b hb => hw b (List.mem_append_right _ (List.mem_cons_of_mem _ hb))
    obtain ⟨hSelf, w', hw', hLine⟩ := dropCr_blank hw₁ hLast
    refine ⟨init.map dropCr, last, w', (svSplit 10 c).map dropCr, hw', hLastSome, ?_, ?_,
      fieldLine_blank hw' last,
      blankLines_fields _ c (Nat.le_refl _) hc⟩
    · rw [headLines, hShort, List.map_append, List.map_singleton, hSelf]
    · have hLines := congrArg (List.map dropCr) (hGrown c)
      rw [← hSplit, List.map_append, List.map_cons, hLine] at hLines
      exact hLines

/-! ## The end of a head -/

theorem crlfEnd_feed {behind l : Bytes} :
    ∀ i stop, crlfEnd behind i l = some stop → ((l ++ behind).take (stop - i)).getLast? = some 10 := by
  induction l with
  | nil => exact fun i stop h => nomatch h
  | cons a tail ih =>
    intro i stop h
    match tail, ih, h with
    | b :: c :: rest, ih, h =>
      have hGe := crlfEnd_ge h
      rw [crlfEnd] at h
      obtain ⟨k, hk⟩ : ∃ k, stop - i = k + 1 := ⟨stop - i - 1, by omega⟩
      rw [hk, List.cons_append, List.take_succ_cons]
      split at h
      · rename_i hBlank
        have hStop := Option.some.inj h
        obtain rfl : k = 3 := by omega
        obtain ⟨more, hMore⟩ := List.head?_eq_some_iff.mp hBlank.2.2.2
        rw [List.cons_append, List.cons_append, hMore]
        rfl
      · have hGe' := crlfEnd_ge h
        have hTail := ih (i + 1) stop h
        rw [show stop - (i + 1) = k by omega] at hTail
        rw [List.getLast?_cons, hTail]
        rfl

theorem findHeaderEnd_feed {raw behind : Bytes} {stop : Nat} (h : findHeaderEnd raw behind = some stop) :
    ((raw ++ behind).take stop).getLast? = some 10 := by
  rw [findHeaderEnd] at h
  cases hCrlf : crlfEnd behind 0 raw with
  | some stop' =>
    rw [hCrlf] at h
    obtain rfl := Option.some.inj h
    exact crlfEnd_feed 0 stop' hCrlf
  | none =>
    rw [hCrlf] at h
    obtain ⟨x, hx⟩ := lfEnd_ends 0 stop h
    have hLe := (lfEnd_append 0 h []).2
    rw [Nat.zero_add] at hLe
    rw [Nat.sub_zero] at hx
    rw [List.take_append_of_le_length hLe, ← hx, List.getLast?_append]
    rfl

/-! ## Accepted requests -/

theorem splitQuery_spec (target : Bytes) : 63 ∉ (splitQuery target).1 ∧
    (target = (splitQuery target).1 ∧ (splitQuery target).2 = [] ∨
      target = (splitQuery target).1 ++ 63 :: (splitQuery target).2) := by
  rw [splitQuery]
  constructor
  · intro hMem
    have hTake := List.mem_takeWhile_imp hMem
    simp at hTake
  · cases hDrop : target.dropWhile (· ≠ 63) with
    | nil =>
      refine .inl ⟨?_, rfl⟩
      have hAll := (List.takeWhile_append_dropWhile (p := (· ≠ 63)) (l := target)).symm
      rw [hDrop, List.append_nil] at hAll
      exact hAll
    | cons mark query =>
      right
      have hMark := (dropWhile_split hDrop).1
      simp only [ne_eq, decide_not, Bool.not_eq_false', decide_eq_true_eq] at hMark
      have hAll := (List.takeWhile_append_dropWhile (p := (· ≠ 63)) (l := target)).symm
      rw [hDrop, hMark] at hAll
      exact hAll

/-- The parser reads a plain first line as it stands, and finds the fields of the lines
behind it. -/
theorem PlainLine.headLines {head first : Bytes} {fields : List Bytes} (h : PlainLine first)
    (hEnd : head.getLast? = some 10)
    (hLines : rawLines head = first :: fields) :
    ∃ fields', headLines head = first :: fields' ∧
      fields'.filterMap fieldLine = fields.filterMap fieldLine := by
  obtain ⟨init, last, w, more, hw, _, hShort, hLong, hField, hMore⟩ := plainHead_lines (h.starts hLines) hEnd
  rw [rawLines, hLong] at hLines
  cases init with
  | nil =>
    obtain ⟨rfl, rfl⟩ := List.cons.inj hLines
    obtain rfl : w = [] := by
      cases w using List.reverseRecOn with
      | nil => rfl
      | append_singleton w b =>
        have hIs := hw b (by simp)
        obtain rfl | hNot := h.blanks b (by simp)
        · refine absurd ?_ h.last
          rw [← List.append_assoc, List.getLast?_concat]
        · rw [hIs] at hNot
          cases hNot
    exact ⟨[], by rw [hShort, List.append_nil]; rfl, hMore.symm⟩
  | cons line init =>
    obtain ⟨rfl, rfl⟩ := List.cons.inj hLines
    refine ⟨init ++ [last], hShort, ?_⟩
    change _ = (init ++ (last ++ w) :: more).filterMap fieldLine
    rw [List.filterMap_append, List.filterMap_append, List.filterMap_cons, List.filterMap_cons, hField,
      hMore, List.filterMap_nil]

/-- An accepted request has the request line and the fields of its head exactly when
the first line, as it stands, neither begins nor ends with a space and has no other
white space in it. -/
theorem fromHead_iff {raw behind : Bytes} {req : HttpRequest} {consumed : Nat}
    (h : parseOutcome raw behind = .ok req consumed) :
    (∃ head, headAt raw behind = some head ∧ FromHead head req) ↔
      ∃ head, headAt raw behind = some head ∧ FirstLineOk head := by
  constructor
  · rintro ⟨head, hHead, hFrom⟩
    obtain ⟨first, fields, method, hLines, hFirst, hBlanks, _⟩ := hFrom.lines
    exact ⟨head, hHead, first, fields, hLines, hFirst.plainLine hBlanks⟩
  · rintro ⟨head, hHead, first, fields, hRaw, hPlain⟩
    refine ⟨head, hHead, ?_⟩
    obtain ⟨stop, hEnd, rfl⟩ := Option.map_eq_some_iff.mp hHead
    obtain ⟨fields', hLines, hFields⟩ := hPlain.headLines (findHeaderEnd_feed hEnd) hRaw
    rw [parseOutcome, hEnd] at h
    dsimp only at h
    rw [Cweb.headLines] at hLines
    rw [hLines] at h
    dsimp only at h
    cases hLine : parseRequestLine emptyRequest first with
    | none =>
      rw [hLine] at h
      cases h
    | some base =>
      rw [hLine] at h
      obtain ⟨len, rfl⟩ := measureBody_ok h
      rw [foldl_parseHeaderLine_eq]
      have hHeaders : base.headers = [] := parseRequestLine_headers hLine
      have hTarget := parseRequestLine_target hLine
      obtain ⟨hPath, hQuery⟩ := splitQuery_spec base.target
      rw [hTarget] at hPath hQuery
      obtain ⟨method, hMethod, hIs | ⟨line, rfl, _⟩⟩ := parseRequestLine_some hLine
      · refine ⟨⟨first, fields, method, hRaw, hIs, hPlain.blanks, hMethod, ?_⟩, hPath, hQuery⟩
        rw [hHeaders, List.nil_append]
        exact hFields
      · refine absurd ?_ hPlain.last
        rw [List.getLast?_append, List.getLast?_singleton]
        rfl

theorem fromHead_plain : (∃ head, headAt plainRequest [] = some head ∧
    FromHead head ⟨.post, ascii "/", ascii "/", [], ascii "HTTP/1.1", [], 3, 0, [],
      [⟨ascii "Content-Length", ascii "3"⟩]⟩) ↔
      ∃ head, headAt plainRequest [] = some head ∧ FirstLineOk head :=
  @fromHead_iff plainRequest [] _ 41 (by decide +kernel)

/-- A blank line is all that an accepted request needs. -/
theorem blank_accepted : parseOutcome [13, 10, 13, 10] [] = .ok emptyRequest 4 ∧
    ¬ ∃ head, headAt [13, 10, 13, 10] [] = some head ∧ FromHead head emptyRequest := by
  refine ⟨by decide +kernel, ?_⟩
  rintro ⟨head, hHead, hFrom⟩
  obtain ⟨first, fields, method, hLines, hFirst, hBlanks, _⟩ := hFrom.lines
  have hBlank : (headAt [13, 10, 13, 10] []).map rawLines = some [[], []] := by decide +kernel
  rw [hHead, Option.map_some, hLines] at hBlank
  obtain ⟨rfl, _⟩ := List.cons.inj (Option.some.inj hBlank)
  exact (IsRequestLine.plainLine hFirst hBlanks).filled rfl

end Cweb
