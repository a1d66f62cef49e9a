import Cweb.Http.RequestLine

/-!
# Parsing a request again

A request is parsed again whenever more of it has come. A head that ended in two
line feeds is read further once there is a CRLF CRLF behind it, so what is
reported of a request can change with the bytes that follow it. A head that was
refused stays refused, unless its end was behind the view.
-/

namespace Cweb

open Sv

/-! ## Lines of a longer head -/

theorem svSplit_grown {w : Bytes} (hw : 10 ∉ w) (n : Nat) : ∀ y : Bytes, y.length ≤ n → y ≠ [] →
    y.getLast? ≠ some 10 →
    ∃ init last, svSplit 10 y = init ++ [last] ∧ last ≠ [] ∧ last.getLast? = y.getLast? ∧
      ∀ c, svSplit 10 (y ++ (w ++ 10 :: c)) = init ++ (last ++ w) :: svSplit 10 c := by
  induction n with
  | zero =>
    intro y hLength hSome _
    exact absurd (List.length_eq_zero_iff.mp (Nat.le_zero.mp hLength)) hSome
  | succ n ih =>
    intro y hLength hSome hLast
    obtain ⟨hNone, _⟩ | ⟨line, rest, rfl, hLine, _⟩ := svChopByDelim_cases 10 y
    · refine ⟨[], y, svSplit_last hNone hSome, hSome, rfl, ?_⟩
      intro c
      rw [← List.append_assoc, svSplit_line fun hMem => (List.mem_append.mp hMem).elim hNone hw]
      rfl
    · rw [List.length_append, List.length_cons] at hLength
      have hRest : rest ≠ [] := by
        rintro rfl
        rw [List.getLast?_append, List.getLast?_singleton] at hLast
        exact hLast rfl
      have hEnd : (line ++ 10 :: rest).getLast? = rest.getLast? := by
        rw [List.getLast?_append, List.getLast?_cons, List.getLast?_eq_some_getLast hRest]
        rfl
      rw [hEnd] at hLast
      obtain ⟨init, last, hSplit, hLastSome, hLastEnd, hGrown⟩ := ih rest (by omega) hRest hLast
      refine ⟨line :: init, last, ?_, hLastSome, hLastEnd.trans hEnd.symm, ?_⟩
      · rw [svSplit_line hLine, hSplit, List.cons_append]
      · intro c
        rw [List.append_assoc, List.cons_append, svSplit_line hLine, hGrown c, List.cons_append]

/-! ## Blank space behind a line -/

def Blank (w : Bytes) : Prop := ∀ b ∈ w, isspace b = true

theorem svTrimRight_split (y : Bytes) : ∃ w, Blank w ∧ y = svTrimRight y ++ w := by
  refine ⟨y.rtakeWhile isspace, fun b hb => List.mem_rtakeWhile_imp hb, ?_⟩
  rw [svTrimRight]
  exact List.rdropWhile_append_rtakeWhile.symm

theorem svTrimRight_getLast (y : Bytes) : ∀ b ∈ (svTrimRight y).getLast?, isspace b = false := by
  intro b hb
  rw [svTrimRight, List.rdropWhile, List.getLast?_reverse] at hb
  have hNot := List.head?_dropWhile_not isspace y.reverse
  rw [Option.mem_def.mp hb] at hNot
  exact hNot

theorem dropCr_blank {last w : Bytes} (hw : Blank w) (hLast : ∀ b ∈ last.getLast?, isspace b = false) :
    dropCr last = last ∧ ∃ w', Blank w' ∧ dropCr (last ++ w) = last ++ w' := by
  have hSelf : dropCr last = last := by
    rw [dropCr, if_neg]
    intro hCr
    exact absurd (hLast 13 hCr) (by decide)
  refine ⟨hSelf, ?_⟩
  cases w using List.reverseRecOn with
  | nil =>
    refine ⟨[], hw, ?_⟩
    rw [List.append_nil, hSelf]
  | append_singleton w b =>
    by_cases hCr : b = 13
    · subst hCr
      refine ⟨w, fun b hb => hw b (List.mem_append_left _ hb), ?_⟩
      rw [← List.append_assoc, dropCr, List.getLast?_concat, if_pos rfl, List.dropLast_concat]
    · refine ⟨w ++ [b], hw, ?_⟩
      rw [← List.append_assoc, dropCr, List.getLast?_concat, if_neg fun hEq => hCr (Option.some.inj hEq)]

/-- A head that goes on where another one ended has the same lines, but for blank
space behind the last of them. -/
theorem headLines_grown {x b : Bytes} (hb : Blank b) (c : Bytes) :
    headLines (x ++ 10 :: b) = [] ∨ headLines (x ++ 10 :: c) = headLines (x ++ 10 :: b) ∨
      ∃ init last w more, Blank w ∧ last ≠ [] ∧ (∀ b ∈ last.getLast?, isspace b = false) ∧
        headLines (x ++ 10 :: b) = init ++ [last] ∧ headLines (x ++ 10 :: c) = init ++
          (last ++ w) :: more := by
  have hEnd : Blank (10 :: b) := by
    intro a ha
    obtain rfl | ha := List.mem_cons.mp ha
    · rfl
    · exact hb a ha
  have hShort : svTrim (x ++ 10 :: b) = svTrim x := svTrim_append_blank hEnd x
  by_cases hBlank : Blank c
  · have hEnd' : Blank (10 :: c) := by
      intro a ha
      obtain rfl | ha := List.mem_cons.mp ha
      · rfl
      · exact hBlank a ha
    right
    left
    rw [headLines, headLines, hShort, svTrim_append_blank hEnd' x]
  · cases hTrim : svTrim x with
    | nil =>
      left
      rw [headLines, hShort, hTrim]
      rfl
    | cons first tail =>
      right
      right
      -- the longer head, from the first byte that is not blank
      have hLeft : svTrimLeft (x ++ 10 :: c) = svTrimLeft x ++ 10 :: c := by
        rw [svTrimLeft, List.dropWhile_append, if_neg]
        · rfl
        · intro hAll
          have hNil : svTrimLeft x = [] := List.isEmpty_iff.mp hAll
          rw [svTrim, hNil] at hTrim
          cases hTrim
      obtain ⟨w₁, hw₁, hSplit⟩ := svTrimRight_split (svTrimLeft x)
      rw [← svTrim] at hSplit
      have hLong : svTrim (x ++ 10 :: c) = svTrim x ++ (w₁ ++ 10 :: svTrimRight c) := by
        have hFeed : ¬ Blank (10 :: c) := fun hAll => hBlank fun b hb => hAll b (List.mem_cons_of_mem _ hb)
        calc
          svTrim (x ++ 10 :: c) = svTrimLeft x ++ svTrimRight ([10] ++ c) := by
            rw [svTrim, hLeft, svTrimRight_append hFeed]
            rfl
          _ = (svTrim x ++ w₁) ++ 10 :: svTrimRight c := by rw [svTrimRight_append hBlank, ← hSplit]; rfl
          _ = svTrim x ++ (w₁ ++ 10 :: svTrimRight c) := List.append_assoc _ _ _
      -- the blanks up to the next line feed stay on the last line
      obtain ⟨w, c', hw, hFeed, hRest⟩ : ∃ w c', Blank w ∧ 10 ∉ w ∧ w₁ ++ 10 :: svTrimRight c = w ++
        10 :: c' := by
        obtain ⟨hNone, _⟩ | ⟨w, rest, rfl, hNone, _⟩ := svChopByDelim_cases 10 w₁
        · exact ⟨w₁, _, hw₁, hNone, rfl⟩
        · refine ⟨w, rest ++ 10 :: svTrimRight c, fun b hb => hw₁ b (List.mem_append_left _ hb), hNone, ?_⟩
          rw [List.append_assoc, List.cons_append]
      have hTrimmed : ∀ b ∈ (svTrim x).getLast?, isspace b = false := svTrimRight_getLast _
      have hNotFeed : (svTrim x).getLast? ≠ some 10 := fun hEq => absurd (hTrimmed 10 hEq) (by decide)
      have hSome : svTrim x ≠ [] := by
        rw [hTrim]
        exact List.cons_ne_nil _ _
      obtain ⟨init, last, hLines, hLastSome, hLast, hGrown⟩ :=
        svSplit_grown hFeed _ (svTrim x) (Nat.le_refl _) hSome hNotFeed
      rw [← hLast] at hTrimmed
      obtain ⟨hSelf, w', hw', hGrownLine⟩ := dropCr_blank hw hTrimmed
      refine ⟨init.map dropCr, last, w', (svSplit 10 c').map dropCr, hw', hLastSome, hTrimmed, ?_, ?_⟩
      · rw [headLines, hShort, hLines, List.map_append, List.map_singleton, hSelf]
      · rw [headLines, hLong, hRest, hGrown, List.map_append, List.map_cons, hGrownLine]

/-! ## Heads that are refused -/

/-- The parser finds nothing wrong with the head. -/
structure HeadFine (head : Bytes) : Prop where
  line : ∀ first ∈ (headLines head).head?, (parseRequestLine emptyRequest first).isSome = true
  length : LengthOk (fieldsOf head)

theorem parseRequestLine_isSome {req : HttpRequest} {text method target version : Bytes}
    (h : IsRequestLine text method target version) : (parseRequestLine req text).isSome = true := by
  obtain ⟨hMethod, hNoMethod⟩ := h.tokens method (by simp)
  obtain ⟨hTarget, hNoTarget⟩ := h.tokens target (by simp)
  obtain ⟨hVersion, hNoVersion⟩ := h.tokens version (by simp)
  have hThird : svChopByDelim 32 version = (version, []) := by
    obtain ⟨_, hChop⟩ | ⟨piece, rest, hSplit, _⟩ := svChopByDelim_cases 32 version
    · exact hChop
    · exact absurd (hSplit ▸ List.mem_append_right _ List.mem_cons_self) hNoVersion
  have hHttp : svStartsWith version (ascii "HTTP/") = true := List.isPrefixOf_iff_prefix.mpr h.http
  rw [h.split, parseRequestLine, svChopByDelim_append 32 method _ hNoMethod]
  dsimp only
  rw [svChopByDelim_append 32 target _ hNoTarget]
  dsimp only
  rw [hThird, if_neg]
  · rfl
  · rintro (hNil | hNil | hNil | hNot | hLeft)
    · exact hMethod hNil
    · exact hTarget hNil
    · exact hVersion hNil
    · rw [hHttp] at hNot
      cases hNot
    · exact hLeft rfl

theorem IsRequestLine.of_blank {last w method target version : Bytes} (hw : Blank w)
    (h : IsRequestLine (last ++ w) method target version) :
    ∃ version', IsRequestLine last method target version' := by
  obtain ⟨rest, hHttp⟩ := h.http
  have hSplit : last ++ w = (method ++ 32 :: (target ++ 32 :: ascii "HTTP/")) ++ rest := by
    rw [h.split, ← hHttp]
    simp only [List.append_assoc, List.cons_append]
  have hShorter : ∃ rest', last = (method ++ 32 :: (target ++ 32 :: ascii "HTTP/")) ++ rest' ∧
    rest' <+: rest := by
    obtain ⟨past, hOver, hBehind⟩ | ⟨rest', hLast, hRest⟩ := List.append_eq_append_iff.mp hSplit
    · cases past using List.reverseRecOn with
      | nil => exact ⟨[], by rw [hOver, List.append_nil, List.append_nil], List.nil_prefix⟩
      | append_singleton past b =>
        -- the slash is not blank
        have hEnd := congrArg List.getLast? hOver
        rw [← List.append_assoc, List.getLast?_concat, List.getLast?_append, List.getLast?_cons,
          List.getLast?_append,
          List.getLast?_cons] at hEnd
        obtain rfl : 47 = b := Option.some.inj hEnd
        refine absurd (hw 47 ?_) (by decide)
        rw [hBehind]
        simp
    · exact ⟨rest', hLast, w, hRest.symm⟩
  obtain ⟨rest', rfl, hPrefix⟩ := hShorter
  refine ⟨ascii "HTTP/" ++ rest', ?_, ?_, List.prefix_append _ _⟩
  · simp only [List.append_assoc, List.cons_append]
  · intro token hToken
    simp only [List.mem_cons, List.not_mem_nil, or_false] at hToken
    obtain rfl | rfl | rfl := hToken
    · exact h.tokens token (by simp)
    · exact h.tokens token (by simp)
    · refine ⟨by simp [ascii], fun hSpace => (h.tokens version (by simp)).2 ?_⟩
      rw [← hHttp]
      obtain hSpace | hSpace := List.mem_append.mp hSpace
      · exact List.mem_append_left _ hSpace
      · exact List.mem_append_right _ (hPrefix.subset hSpace)

theorem parseRequestLine_blank {last w : Bytes} (hw : Blank w)
    (hLast : ∀ b ∈ last.getLast?, isspace b = false)
    (h : (parseRequestLine emptyRequest (last ++ w)).isSome = true) :
    (parseRequestLine emptyRequest last).isSome = true := by
  obtain ⟨req, hSome⟩ := Option.isSome_iff_exists.mp h
  obtain ⟨method, _, hIs | ⟨line, hLine, hIs⟩⟩ := parseRequestLine_some hSome
  · obtain ⟨version, hShort⟩ := hIs.of_blank hw
    exact parseRequestLine_isSome hShort
  · cases w using List.reverseRecOn with
    | nil =>
      rw [List.append_nil] at hLine
      rw [hLine, List.getLast?_concat] at hLast
      exact absurd (hLast 32 rfl) (by decide)
    | append_singleton w b =>
      rw [← List.append_assoc] at hLine
      obtain ⟨rfl, _⟩ := List.append_inj' hLine rfl
      obtain ⟨version, hShort⟩ := hIs.of_blank fun b hb => hw b (List.mem_append_left _ hb)
      exact parseRequestLine_isSome hShort

theorem fieldLine_blank {w : Bytes} (hw : Blank w) (last : Bytes) :
    fieldLine (last ++ w) = fieldLine last := by
  have hColon : w.dropWhile (· ≠ 58) = [] := by
    rw [List.dropWhile_eq_nil_iff]
    intro b hb
    refine decide_eq_true fun hEq => ?_
    rw [hEq] at hb
    exact absurd (hw 58 hb) (by decide)
  cases hDrop : last.dropWhile (· ≠ 58) with
  | nil =>
    have hDropLong : (last ++ w).dropWhile (· ≠ 58) = [] := by
      rw [List.dropWhile_append, hDrop, List.isEmpty_nil, if_pos rfl, hColon]
    rw [fieldLine, fieldLine, hDrop, hDropLong]
  | cons colon value =>
    have hDropLong : (last ++ w).dropWhile (· ≠ 58) = colon :: (value ++ w) := by
      rw [List.dropWhile_append, hDrop, if_neg (by simp), List.cons_append]
    obtain ⟨hStops, name, rfl, hName, _⟩ := dropWhile_split hDrop
    have hKey : ∀ rest, (name ++ colon :: rest).takeWhile (· ≠ 58) = name := by
      intro rest
      rw [List.takeWhile_append_of_pos hName,
        List.takeWhile_cons_of_neg (by rw [hStops]; exact Bool.false_ne_true),
        List.append_nil]
    rw [fieldLine, fieldLine, hDrop, hDropLong]
    dsimp only
    rw [List.append_assoc, List.cons_append, hKey, hKey, svTrim_append_blank hw]

theorem lengthOk_of_append {fields more : List HttpHeader} (h : LengthOk (fields ++ more)) :
    LengthOk fields := by
  intro v hv
  refine h v ?_
  have hAll : contentLengths (fields ++ more) = contentLengths fields ++ contentLengths more := by
    rw [contentLengths, named, List.filter_append, List.map_append]
    rfl
  rw [hAll, List.head?_append, hv]
  rfl

theorem lengthOk_nil : LengthOk [] := fun _ hv => nomatch hv

theorem HeadFine.of_grown {x b c : Bytes} (hb : Blank b) (h : HeadFine (x ++ 10 :: c)) :
    HeadFine (x ++ 10 :: b) := by
  obtain hNil | hSame | ⟨init, last, w, more, hw, hSome, hLast, hShort, hLong⟩ := @headLines_grown x b hb c
  · refine ⟨?_, ?_⟩
    · rw [hNil]
      exact fun first hFirst => nomatch hFirst
    · rw [fieldsOf, hNil]
      exact lengthOk_nil
  · refine ⟨hSame ▸ h.line, ?_⟩
    have hLength := h.length
    rw [fieldsOf, hSame] at hLength
    exact hLength
  · have hLine := h.line
    have hLength := h.length
    rw [hLong] at hLine
    rw [fieldsOf, hLong] at hLength
    cases init with
    | nil =>
      constructor
      · rw [hShort]
        intro first hFirst
        obtain rfl := Option.some.inj hFirst
        exact parseRequestLine_blank hw hLast (hLine (last ++ w) rfl)
      · rw [fieldsOf, hShort]
        exact lengthOk_nil
    | cons first init =>
      constructor
      · rw [hShort]
        exact hLine
      · rw [fieldsOf, hShort]
        rw [List.cons_append, List.drop_one, List.tail_cons, List.filterMap_append, List.filterMap_cons,
          fieldLine_blank hw]
          at hLength
        rw [List.cons_append, List.drop_one, List.tail_cons, List.filterMap_append, List.filterMap_cons,
          List.filterMap_nil]
        cases hField : fieldLine last with
        | none =>
          rw [hField] at hLength
          rw [List.append_nil]
          exact lengthOk_of_append hLength
        | some f =>
          rw [hField] at hLength
          have hAll : init.filterMap fieldLine ++ f :: more.filterMap fieldLine =
              (init.filterMap fieldLine ++ [f]) ++ more.filterMap fieldLine := by
            rw [List.append_assoc]
            rfl
          exact lengthOk_of_append (hAll ▸ hLength)

/-! ## What is reported of a head -/

/-- The first length of a head, zero where there is none. -/
def bodyLength (fields : List HttpHeader) : Nat :=
  ((contentLengths fields).head?.bind svToI64).elim 0 Int.toNat

def HttpRequest.declared (req : HttpRequest) : HttpRequest :=
  { req with contentLength := ((contentLengths req.headers).head?.bind svToI64).getD req.contentLength }

theorem measureBody_cases (req : HttpRequest) (raw : Bytes) (stop : Nat) :
    measureBody req raw stop = .error ∧ ¬ LengthOk req.headers ∨
      LengthOk req.headers ∧
        (bodyLength req.headers ≤ bodyCount raw stop ∧
            measureBody req raw stop = .ok req.declared (stop + bodyLength req.headers) ∨
          bodyCount raw stop < bodyLength req.headers ∧ measureBody req raw stop = .incomplete) := by
  rw [measureBody, httpRequestGetHeader_eq_head, bodyLength, HttpRequest.declared, ← contentLengths]
  cases hHead : (contentLengths req.headers).head? with
  | none =>
    refine .inr ⟨?_, .inl ⟨Nat.zero_le _, rfl⟩⟩
    intro v hv
    rw [hHead] at hv
    cases hv
  | some value =>
    dsimp only [Option.bind_some]
    cases hNumber : svToI64 value with
    | none =>
      refine .inl ⟨rfl, fun hOk => ?_⟩
      obtain ⟨n, hn, _⟩ := hOk value hHead
      rw [hNumber] at hn
      cases hn
    | some len =>
      dsimp only [Option.elim_some, Option.getD_some]
      by_cases hNeg : len < 0
      · rw [if_pos hNeg]
        refine .inl ⟨rfl, fun hOk => ?_⟩
        obtain ⟨n, hn, hPos⟩ := hOk value hHead
        rw [hNumber] at hn
        cases hn
        omega
      · rw [if_neg hNeg]
        refine .inr ⟨?_, ?_⟩
        · intro v hv
          rw [hHead] at hv
          cases hv
          exact ⟨len, hNumber, by omega⟩
        · by_cases hRoom : len.toNat ≤ bodyCount raw stop
          · rw [if_pos hRoom]
            exact .inl ⟨hRoom, rfl⟩
          · rw [if_neg hRoom]
            exact .inr ⟨not_le.mp hRoom, rfl⟩

/-- The request that is reported for a head. -/
def requestOf (head : Bytes) : HttpRequest := ((parseHead (fun _ => true) head).getD emptyRequest).declared

theorem parseHead_some {head : Bytes} {req : HttpRequest} (h : parseHead (fun _ => true) head = some req) :
    req.headers = fieldsOf head ∧ ∀ first ∈ (headLines head).head?,
      (parseRequestLine emptyRequest first).isSome = true := by
  rw [parseHead] at h
  rw [fieldsOf]
  cases hLines : headLines head with
  | nil =>
    rw [hLines] at h
    obtain rfl := Option.some.inj h
    exact ⟨rfl, fun _ hFirst => absurd hFirst (Option.not_mem_none _)⟩
  | cons first fields =>
    rw [hLines] at h
    dsimp only at h
    obtain ⟨base, hLine, rfl⟩ := Option.map_eq_some_iff.mp h
    have hAll : (fields.filter fun text => (fieldLine text).all fun _ => true).filterMap fieldLine =
      fields.filterMap fieldLine :=
      (filterMap_kept (fun _ => true) fields).trans (List.filter_true _)
    constructor
    · rw [foldl_parseHeaderLine_headers, parseRequestLine_headers hLine, hAll]
      rfl
    · intro text hText
      obtain rfl := Option.some.inj hText
      rw [hLine]
      rfl

theorem parseHead_none {head : Bytes} (h : parseHead (fun _ => true) head = none) : ¬ HeadFine head := by
  intro hFine
  have hLine := hFine.line
  rw [parseHead] at h
  cases hLines : headLines head with
  | nil =>
    rw [hLines] at h
    cases h
  | cons first fields =>
    rw [hLines] at h hLine
    have hNone := Option.map_eq_none_iff.mp h
    have hSome := hLine first rfl
    rw [hNone] at hSome
    cases hSome

theorem requestOf_headers {head : Bytes} (h : HeadFine head) : (requestOf head).headers = fieldsOf head := by
  cases hHead : parseHead (fun _ => true) head with
  | none => exact absurd h (parseHead_none hHead)
  | some req =>
    rw [requestOf, hHead]
    exact (parseHead_some hHead).1

/-- A request with this head is accepted with `room` bytes behind it. -/
structure Taken (head : Bytes) (room : Nat) : Prop where
  fine : HeadFine head
  fits : bodyLength (fieldsOf head) ≤ room

theorem parseOutcome_cases {raw behind head : Bytes} {stop : Nat}
    (hEnd : findHeaderEnd raw behind = some stop)
    (hHead : (raw ++ behind).take stop = head) :
    parseOutcome raw behind = .error ∧ ¬ HeadFine head ∨
      Taken head (bodyCount raw stop) ∧
        parseOutcome raw behind = .ok (requestOf head) (stop + bodyLength (fieldsOf head)) ∨
      HeadFine head ∧ bodyCount raw stop < bodyLength (fieldsOf head) ∧
        parseOutcome raw behind = .incomplete := by
  rw [parseOutcome_eq, hEnd]
  dsimp only
  rw [hHead, requestOf]
  cases hParse : parseHead (fun _ => true) head with
  | none => exact .inl ⟨rfl, parseHead_none hParse⟩
  | some req =>
    obtain ⟨hHeaders, hLine⟩ := parseHead_some hParse
    dsimp only [Option.getD_some]
    rw [← hHeaders]
    obtain ⟨hError, hBad⟩ | ⟨hOk, ⟨hFits, hTaken⟩ | ⟨hShort, hWaits⟩⟩ := measureBody_cases req raw stop
    · exact .inl ⟨hError, fun hFine => hBad (hHeaders ▸ hFine.length)⟩
    · exact .inr (.inl ⟨⟨⟨hLine, hHeaders ▸ hOk⟩, hHeaders ▸ hFits⟩, hTaken⟩)
    · exact .inr (.inr ⟨⟨hLine, hHeaders ▸ hOk⟩, hShort, hWaits⟩)

/-! ## With more bytes -/

/-- The request is reported in the same way when `ext` has come. -/
structure ParseStable (raw behind ext behind' : Bytes) : Prop where
  ok : ∀ req consumed, parseOutcome raw behind = .ok req consumed →
    parseOutcome (raw ++ ext) behind' = .ok req consumed
  error : parseOutcome raw behind = .error → parseOutcome (raw ++ ext) behind' = .error

/-- The blank line that the view breaks off in is completed by the byte behind it. -/
def EndsBehind (raw behind : Bytes) : Prop := OpenBlank raw ∧ behind.head? = some 10

/-- No CRLF CRLF comes behind a head that two line feeds have ended, unless the
request is refused or waits for its body. A head that ends behind the view ends
there again, with all of its body behind it. Where it is refused the next head is
also to be refused. -/
structure Settled (raw behind ext behind' : Bytes) : Prop where
  feeds : ¬ [13, 10, 13, 10] <:+: raw → ¬ EndsBehind raw behind → ∀ stop, lfEnd 0 raw = some stop →
    [13, 10, 13, 10] <:+: (raw ++ ext) ++ behind'.take 1 → ¬ Taken (raw.take stop) (raw.length - stop)
  past : EndsBehind raw behind → HeadFine (raw ++ [10]) →
    ext = [] ∧ behind'.head? = some 10 ∨
      ∃ more, ext = 10 :: more ∧ bodyLength (fieldsOf (raw ++ [10])) ≤ more.length
  refused : EndsBehind raw behind → ¬ HeadFine (raw ++ [10]) →
    (ext ++ behind').head? = some 10 ∨ [13, 10, 13, 10] <:+: (raw ++ ext) ++ behind'.take 1 ∨
      ∃ stop, lfEnd 0 (raw ++ ext) = some stop ∧ (stop ≤ raw.length → ¬ HeadFine (raw.take stop))

theorem findHeaderEnd_eq (raw behind : Bytes) :
    findHeaderEnd raw behind = (crlfEnd [] 0 (raw ++ behind.take 1)).or (lfEnd 0 raw) := by
  rw [findHeaderEnd, crlfEnd_behind]
  cases crlfEnd [] 0 (raw ++ behind.take 1) <;> rfl

theorem findHeaderEnd_infix {raw : Bytes} (h : [13, 10, 13, 10] <:+: raw) :
    ∃ stop, stop ≤ raw.length ∧ ∀ ext behind, findHeaderEnd (raw ++ ext) behind = some stop := by
  cases hEnd : crlfEnd [] 0 raw with
  | none => exact absurd h ((crlfEnd_eq_none 0).mp hEnd)
  | some stop =>
    have hLe := (crlfEnd_append hEnd []).2
    rw [Nat.zero_add] at hLe
    refine ⟨stop, hLe, fun ext behind => ?_⟩
    rw [findHeaderEnd_eq, List.append_assoc, (crlfEnd_append hEnd _).1]
    rfl

theorem openBlank_split {raw : Bytes} (h : OpenBlank raw) : ∃ x, raw = x ++ [10, 13] ∧
    raw ++ [10] = x ++ 10 :: [13, 10] := by
  obtain ⟨x, rfl⟩ := h.1
  exact ⟨x ++ [13], by simp, by simp⟩

/-- With a line feed behind it, a view that breaks off in its first blank line ends
with it. -/
theorem crlfEnd_openBlank {raw : Bytes} (h : OpenBlank raw) (m : Bytes) :
    crlfEnd [] 0 ((raw ++ [10]) ++ m) = some (raw.length + 1) := by
  obtain ⟨x, hRaw⟩ := h.1
  cases hEnd : crlfEnd [] 0 (raw ++ [10]) with
  | none =>
    refine absurd ?_ ((crlfEnd_eq_none 0).mp hEnd)
    rw [← hRaw]
    exact ⟨x, [], by simp⟩
  | some stop =>
    obtain ⟨hMore, hLe⟩ := crlfEnd_append hEnd m
    rw [Nat.zero_add, List.length_append, List.length_singleton] at hLe
    by_cases hInside : stop ≤ raw.length
    · have hShort := crlfEnd_of_append hEnd (by omega)
      have hNone := (crlfEnd_eq_none 0).mpr h.2
      rw [hShort] at hNone
      cases hNone
    · rw [hMore, show stop = raw.length + 1 by omega]

theorem findHeaderEnd_later {raw ext behind' : Bytes} (hNone : ¬ [13, 10, 13, 10] <:+: raw)
    (hLater : [13, 10, 13, 10] <:+: (raw ++ ext) ++ behind'.take 1) :
    ∃ stop, findHeaderEnd (raw ++ ext) behind' = some stop ∧ raw.length < stop := by
  cases hEnd : crlfEnd [] 0 ((raw ++ ext) ++ behind'.take 1) with
  | none => exact absurd hLater ((crlfEnd_eq_none 0).mp hEnd)
  | some stop =>
    refine ⟨stop, by rw [findHeaderEnd_eq, hEnd]; rfl, ?_⟩
    by_contra hLe
    rw [List.append_assoc] at hEnd
    have hShort := crlfEnd_of_append hEnd (by omega)
    rw [(crlfEnd_eq_none 0).mpr hNone] at hShort
    cases hShort

theorem findHeaderEnd_feeds {raw behind : Bytes} (hNone : ¬ [13, 10, 13, 10] <:+: raw ++ behind.take 1) :
    findHeaderEnd raw behind = lfEnd 0 raw := by
  rw [findHeaderEnd_eq, (crlfEnd_eq_none 0).mpr hNone]
  rfl

theorem endsBehind_iff {raw behind : Bytes} (hNone : ¬ [13, 10, 13, 10] <:+: raw) :
    [13, 10, 13, 10] <:+: raw ++ behind.take 1 ↔ EndsBehind raw behind := by
  constructor
  · intro hInfix
    cases hEnd : crlfEnd behind 0 raw with
    | none =>
      rw [crlfEnd_behind] at hEnd
      exact absurd hInfix ((crlfEnd_eq_none 0).mp hEnd)
    | some stop =>
      obtain hLe | ⟨_, hOpen, hHead⟩ := crlfEnd_le 0 stop hEnd
      · rw [crlfEnd_behind] at hEnd
        have hShort := crlfEnd_of_append hEnd hLe
        rw [(crlfEnd_eq_none 0).mpr hNone] at hShort
        cases hShort
      · exact ⟨hOpen, hHead⟩
  · rintro ⟨hOpen, hHead⟩
    obtain ⟨more, rfl⟩ := List.head?_eq_some_iff.mp hHead
    obtain ⟨x, hRaw⟩ := hOpen.1
    rw [← hRaw]
    exact ⟨x, [], by simp⟩

theorem lfEnd_ends {l : Bytes} : ∀ i stop, lfEnd i l = some stop → [10, 10] <:+ l.take (stop - i) := by
  induction l with
  | nil => exact fun i stop h => nomatch h
  | cons a tail ih =>
    intro i stop h
    match tail, ih, h with
    | b :: rest, ih, h =>
      have hGe := lfEnd_ge h
      obtain ⟨k, hk⟩ : ∃ k, stop - i = k + 2 := ⟨stop - i - 2, by omega⟩
      rw [lfEnd] at h
      rw [hk, List.take_succ_cons]
      split at h
      · rename_i hBlank
        obtain rfl := Option.some.inj h
        obtain rfl : k = 0 := by omega
        rw [hBlank.1, hBlank.2]
        exact List.suffix_refl _
      · have hTail := ih (i + 1) stop h
        rw [show stop - (i + 1) = k + 1 by omega] at hTail
        exact hTail.trans (List.suffix_cons a _)

theorem bodyLength_lt {fields : List HttpHeader} (h : LengthOk fields) : bodyLength fields < 2 ^ 63 := by
  rw [bodyLength]
  cases hHead : (contentLengths fields).head? with
  | none => exact Nat.two_pow_pos 63
  | some v =>
    obtain ⟨n, hNumber, hPos⟩ := h v hHead
    have hMax : llongMax = 9223372036854775807 := rfl
    have hLe : n ≤ llongMax := svToI64_le hNumber
    rw [Option.bind_some, hNumber, Option.elim_some]
    omega

section Compare

variable {raw behind ext behind' head head' : Bytes} {stop stop' : Nat}

theorem stable_of_same (hEnd : findHeaderEnd raw behind = some stop)
    (hHead : (raw ++ behind).take stop = head)
    (hEnd' : findHeaderEnd (raw ++ ext) behind' = some stop)
    (hHead' : ((raw ++ ext) ++ behind').take stop = head)
    (hRoom : bodyLength (fieldsOf head) ≤ bodyCount raw stop →
      bodyLength (fieldsOf head) ≤ bodyCount (raw ++ ext) stop) :
    ParseStable raw behind ext behind' := by
  obtain ⟨hFirst, hBad⟩ | ⟨hTaken, hFirst⟩ | ⟨hFine, _, hFirst⟩ := parseOutcome_cases hEnd hHead
  · refine ⟨fun req n hOk => ?_, fun _ => ?_⟩
    · rw [hFirst] at hOk
      cases hOk
    obtain ⟨hSecond, _⟩ | ⟨hTaken, _⟩ | ⟨hFine, _⟩ := parseOutcome_cases hEnd' hHead'
    · exact hSecond
    · exact absurd hTaken.fine hBad
    · exact absurd hFine hBad
  · refine ⟨fun req n hOk => ?_, fun hError => ?_⟩
    swap
    · rw [hFirst] at hError
      cases hError
    rw [hFirst] at hOk
    obtain ⟨_, hBad⟩ | ⟨_, hSecond⟩ | ⟨_, hShort, _⟩ := parseOutcome_cases hEnd' hHead'
    · exact absurd hTaken.fine hBad
    · exact hSecond.trans hOk
    · exact absurd (hRoom hTaken.fits) (not_le.mpr hShort)
  · constructor
    · intro req n hOk
      rw [hFirst] at hOk
      cases hOk
    · intro hError
      rw [hFirst] at hError
      cases hError

theorem error_of_bad (hEnd : findHeaderEnd raw behind = some stop) (hHead : (raw ++ behind).take stop = head)
    (hBad : ¬ HeadFine head) : parseOutcome raw behind = .error := by
  obtain ⟨hError, _⟩ | ⟨hTaken, _⟩ | ⟨hFine, _⟩ := parseOutcome_cases hEnd hHead
  · exact hError
  · exact absurd hTaken.fine hBad
  · exact absurd hFine hBad

theorem stable_of_bad (hEnd : findHeaderEnd raw behind = some stop) (hHead : (raw ++ behind).take stop = head)
    (hBad : ¬ HeadFine head) (hError : parseOutcome (raw ++ ext) behind' = .error) :
    ParseStable raw behind ext behind' := by
  refine ⟨fun req n hOk => ?_, fun _ => hError⟩
  rw [error_of_bad hEnd hHead hBad] at hOk
  cases hOk

/-- An accepted request takes up another number of bytes when its head ends elsewhere. -/
theorem end_of_stable (hEnd : findHeaderEnd raw behind = some stop) (hHead : (raw ++ behind).take stop = head)
    (hTaken : Taken head (bodyCount raw stop)) (h : ParseStable raw behind ext behind') :
    findHeaderEnd (raw ++ ext) behind' = some stop := by
  obtain ⟨_, hBad⟩ | ⟨_, hFirst⟩ | ⟨_, hShort, _⟩ := parseOutcome_cases hEnd hHead
  · exact absurd hTaken.fine hBad
  · have hSecond := h.ok _ _ hFirst
    cases hEnd' : findHeaderEnd (raw ++ ext) behind' with
    | none =>
      rw [parseOutcome, hEnd'] at hSecond
      cases hSecond
    | some stop' =>
      obtain ⟨hError, _⟩ | ⟨hTaken', hOk⟩ | ⟨_, _, hWaits⟩ := parseOutcome_cases hEnd' rfl
      · rw [hError] at hSecond
        cases hSecond
      · rw [hOk] at hSecond
        obtain ⟨hReq, hConsumed⟩ := Outcome.ok.inj hSecond
        have hFields := congrArg HttpRequest.headers hReq
        rw [requestOf_headers hTaken'.fine, requestOf_headers hTaken.fine] at hFields
        rw [hFields] at hConsumed
        rw [Nat.add_right_cancel hConsumed]
      · rw [hWaits] at hSecond
        cases hSecond
  · exact absurd hTaken.fits (not_le.mpr hShort)

theorem not_fine_of_longer {x b : Bytes} (hb : Blank b) (hBad : ¬ HeadFine (x ++ 10 :: b))
    (hPrefix : x ++ [10] <+: head') :
    ¬ HeadFine head' := by
  obtain ⟨c, rfl⟩ := hPrefix
  rw [List.append_assoc]
  exact fun hFine => hBad (hFine.of_grown hb)

end Compare

section Cases

variable {raw behind ext behind' : Bytes}

theorem take_of_le {stop : Nat} (h : stop ≤ raw.length) (ext behind' : Bytes) :
    ((raw ++ ext) ++ behind').take stop = raw.take stop := by
  rw [List.append_assoc, List.take_append_of_le_length h]

theorem raw_begins {stop : Nat} (h : raw.length ≤ stop) (ext behind' : Bytes) :
    raw <+: ((raw ++ ext) ++ behind').take stop := by
  rw [List.append_assoc, List.take_append, List.take_of_length_le h]
  exact List.prefix_append _ _

theorem stable_of_infix (h : [13, 10, 13, 10] <:+: raw) : ParseStable raw behind ext behind' := by
  obtain ⟨stop, hLe, hEnds⟩ := findHeaderEnd_infix h
  have hEnd := hEnds [] behind
  rw [List.append_nil] at hEnd
  refine stable_of_same hEnd (List.take_append_of_le_length hLe) (hEnds ext behind')
    (take_of_le hLe ext behind') ?_
  have hLength : (raw ++ ext).length = raw.length + ext.length := List.length_append
  rw [bodyCount, bodyCount, if_neg (not_lt.mpr hLe), if_neg (by omega)]
  omega

theorem stable_of_feeds (hNone : ¬ [13, 10, 13, 10] <:+: raw) (hInside : ¬ EndsBehind raw behind) :
    ParseStable raw behind ext behind' ↔ ∀ stop, lfEnd 0 raw = some stop →
      [13, 10, 13, 10] <:+: (raw ++ ext) ++ behind'.take 1 → ¬ Taken (raw.take stop) (raw.length - stop) := by
  have hFirst : findHeaderEnd raw behind = lfEnd 0 raw :=
    findHeaderEnd_feeds fun hInfix => hInside ((endsBehind_iff hNone).mp hInfix)
  cases hLf : lfEnd 0 raw with
  | none =>
    refine ⟨fun _ stop hStop => (nomatch hStop), fun _ => ?_⟩
    rw [hLf] at hFirst
    have hWaits : parseOutcome raw behind = .incomplete := by rw [parseOutcome, hFirst]
    constructor
    · intro req n hOk
      rw [hWaits] at hOk
      cases hOk
    · intro hError
      rw [hWaits] at hError
      cases hError
  | some stop =>
    rw [hLf] at hFirst
    obtain ⟨hMore, hLe⟩ := lfEnd_append 0 hLf ext
    rw [Nat.zero_add] at hLe
    have hHead : (raw ++ behind).take stop = raw.take stop := List.take_append_of_le_length hLe
    have hCount : bodyCount raw stop = raw.length - stop := by rw [bodyCount, if_neg (not_lt.mpr hLe)]
    constructor
    · rintro hStable _ hStop hLater hTaken
      obtain rfl := Option.some.inj hStop
      rw [← hCount] at hTaken
      obtain ⟨stop', hEnd', hLt⟩ := findHeaderEnd_later hNone hLater
      rw [end_of_stable hFirst hHead hTaken hStable] at hEnd'
      obtain rfl := Option.some.inj hEnd'
      omega
    · intro hSettled
      by_cases hLater : [13, 10, 13, 10] <:+: (raw ++ ext) ++ behind'.take 1
      · obtain ⟨stop', hEnd', hLt⟩ := findHeaderEnd_later hNone hLater
        have hNot := hSettled stop rfl hLater
        rw [← hCount] at hNot
        by_cases hFine : HeadFine (raw.take stop)
        · obtain ⟨_, hBad⟩ | ⟨hTaken, _⟩ | ⟨_, _, hWaits⟩ := parseOutcome_cases hFirst hHead
          · exact absurd hFine hBad
          · exact absurd hTaken hNot
          · constructor
            · intro req n hOk
              rw [hWaits] at hOk
              cases hOk
            · intro hError
              rw [hWaits] at hError
              cases hError
        · obtain ⟨x, hEnds⟩ := lfEnd_ends 0 stop hLf
          rw [Nat.sub_zero] at hEnds
          have hPrefix : x ++ [10] <+: ((raw ++ ext) ++ behind').take stop' := by
            have hFeeds : x ++ [10] <+: raw.take stop := by
              rw [← hEnds]
              exact ⟨[10], by simp⟩
            exact (hFeeds.trans (List.take_prefix stop raw)).trans (raw_begins hLt.le ext behind')
          have hBlank : Blank [10] := by
            intro b hb
            rw [List.mem_singleton.mp hb]
            rfl
          refine stable_of_bad hFirst hHead hFine (error_of_bad hEnd' rfl ?_)
          refine not_fine_of_longer hBlank ?_ hPrefix
          rw [← hEnds] at hFine
          exact hFine
      · have hEnd' := findHeaderEnd_feeds hLater
        rw [hMore] at hEnd'
        refine stable_of_same hFirst hHead hEnd' (take_of_le hLe ext behind') ?_
        have hLength : (raw ++ ext).length = raw.length + ext.length := List.length_append
        rw [hCount, bodyCount, if_neg (by omega)]
        omega

theorem findHeaderEnd_open (hOpen : OpenBlank raw) {m : Bytes} (hHead : (ext ++ m).head? = some 10) :
    findHeaderEnd (raw ++ ext) m = some (raw.length + 1) ∧
      ((raw ++ ext) ++ m).take (raw.length + 1) = raw ++ [10] := by
  have hSplit : ∃ more, ext ++ m = 10 :: more := List.head?_eq_some_iff.mp hHead
  have hSeen : ∃ more, (raw ++ ext) ++ m.take 1 = (raw ++ [10]) ++ more := by
    cases ext with
    | nil =>
      obtain ⟨more, hMore⟩ := hSplit
      rw [List.nil_append] at hMore
      exact ⟨[], by rw [hMore, List.append_nil, List.append_nil]; rfl⟩
    | cons b rest =>
      obtain rfl : b = 10 := Option.some.inj hHead
      exact ⟨rest ++ m.take 1, by simp⟩
  obtain ⟨more, hMore⟩ := hSeen
  obtain ⟨all, hAll⟩ := hSplit
  constructor
  · rw [findHeaderEnd_eq, hMore, crlfEnd_openBlank hOpen]
    rfl
  · rw [List.append_assoc, hAll, List.take_length_add_append]
    rfl

theorem findHeaderEnd_moved {m : Bytes} (hHead : (ext ++ m).head? ≠ some 10) :
    findHeaderEnd (raw ++ ext) m ≠ some (raw.length + 1) := by
  intro hEnd
  rw [findHeaderEnd_eq, List.append_assoc] at hEnd
  cases hCrlf : crlfEnd [] 0 (raw ++ (ext ++ m.take 1)) with
  | some stop =>
    rw [hCrlf] at hEnd
    obtain rfl : stop = raw.length + 1 := Option.some.inj hEnd
    cases hRest : ext ++ m.take 1 with
    | nil =>
      rw [hRest, List.append_nil] at hCrlf
      have hLe := (crlfEnd_append hCrlf []).2
      omega
    | cons c rest =>
      rw [hRest, List.append_cons] at hCrlf
      have hShort := crlfEnd_of_append hCrlf (by rw [List.length_append, List.length_singleton]; omega)
      have hNext : crlfEnd [c] 0 raw = some (raw.length + 1) := by
        rw [crlfEnd_behind]
        exact hShort
      obtain hLe | ⟨_, _, hFeed⟩ := crlfEnd_le 0 _ hNext
      · omega
      · refine hHead ?_
        have hSame : (ext ++ m.take 1).head? = (ext ++ m).head? := by
          rw [List.head?_append, List.head?_append, List.head?_take, if_neg (Nat.succ_ne_zero 0)]
        rw [← hSame, hRest]
        exact hFeed
  | none =>
    rw [hCrlf] at hEnd
    have hLf : lfEnd 0 (raw ++ ext) = some (raw.length + 1) := hEnd
    have hLe := (lfEnd_append 0 hLf []).2
    obtain ⟨x, hEnds⟩ := lfEnd_ends 0 _ hLf
    rw [Nat.zero_add, List.length_append] at hLe
    rw [Nat.sub_zero, List.take_length_add_append] at hEnds
    cases ext with
    | nil => exact absurd hLe (by simp)
    | cons c rest =>
      have hLast := congrArg List.getLast? hEnds
      rw [List.take_succ_cons, List.take_zero, List.getLast?_concat, List.getLast?_append] at hLast
      exact hHead hLast.symm

theorem stable_of_open (hOpen : EndsBehind raw behind) (hFine : HeadFine (raw ++ [10])) :
    ParseStable raw behind ext behind' ↔ ext = [] ∧ behind'.head? = some 10 ∨
      ∃ more, ext = 10 :: more ∧ bodyLength (fieldsOf (raw ++ [10])) ≤ more.length := by
  obtain ⟨hEnd, hHead⟩ := @findHeaderEnd_open raw [] hOpen.1 behind hOpen.2
  rw [List.append_nil] at hEnd hHead
  have hShort := bodyLength_lt hFine.length
  have hTaken : Taken (raw ++ [10]) (bodyCount raw (raw.length + 1)) := by
    refine ⟨hFine, ?_⟩
    rw [bodyCount, if_pos (Nat.lt_succ_self _)]
    omega
  constructor
  · intro hStable
    have hEnd' := end_of_stable hEnd hHead hTaken hStable
    by_cases hFeed : (ext ++ behind').head? = some 10
    · cases ext with
      | nil => exact .inl ⟨rfl, hFeed⟩
      | cons c more =>
        obtain rfl : c = 10 := Option.some.inj hFeed
        refine .inr ⟨more, rfl, ?_⟩
        have hHead' := (findHeaderEnd_open hOpen.1 hFeed).2
        obtain ⟨_, hBad⟩ | ⟨_, hFirst⟩ | ⟨_, hFew, _⟩ := parseOutcome_cases hEnd hHead
        · exact absurd hFine hBad
        · have hSecond := hStable.ok _ _ hFirst
          obtain ⟨_, hBad⟩ | ⟨hTaken', _⟩ | ⟨_, _, hWaits⟩ := parseOutcome_cases hEnd' hHead'
          · exact absurd hFine hBad
          · have hFits := hTaken'.fits
            have hLength : (raw ++ 10 :: more).length = raw.length + (more.length + 1) := List.length_append
            rw [bodyCount, hLength, if_neg (by omega)] at hFits
            omega
          · rw [hWaits] at hSecond
            cases hSecond
        · exact absurd hTaken.fits (not_le.mpr hFew)
    · exact absurd hEnd' (findHeaderEnd_moved hFeed)
  · rintro (⟨rfl, hFeed⟩ | ⟨more, rfl, hFits⟩)
    · obtain ⟨hEnd', hHead'⟩ := @findHeaderEnd_open raw [] hOpen.1 behind' hFeed
      refine stable_of_same hEnd hHead hEnd' hHead' ?_
      rw [List.append_nil]
      exact id
    · obtain ⟨hEnd', hHead'⟩ := @findHeaderEnd_open raw (10 :: more) hOpen.1 behind' rfl
      refine stable_of_same hEnd hHead hEnd' hHead' fun _ => ?_
      have hLength : (raw ++ 10 :: more).length = raw.length + (more.length + 1) := List.length_append
      rw [bodyCount, hLength, if_neg (by omega)]
      omega

theorem stable_of_open_refused (hOpen : EndsBehind raw behind) (hBad : ¬ HeadFine (raw ++ [10])) :
    ParseStable raw behind ext behind' ↔
      (ext ++ behind').head? = some 10 ∨ [13, 10, 13, 10] <:+: (raw ++ ext) ++ behind'.take 1 ∨
        ∃ stop, lfEnd 0 (raw ++ ext) = some stop ∧ (stop ≤ raw.length → ¬ HeadFine (raw.take stop)) := by
  obtain ⟨hEnd, hHead⟩ := @findHeaderEnd_open raw [] hOpen.1 behind hOpen.2
  rw [List.append_nil] at hEnd hHead
  have hFirst := error_of_bad hEnd hHead hBad
  -- a head that goes on behind the view
  have hLonger : ∀ stop, findHeaderEnd (raw ++ ext) behind' = some stop → raw.length < stop →
      parseOutcome (raw ++ ext) behind' = .error := by
    intro stop hEnd' hLt
    obtain ⟨x, hRaw, hEnds⟩ := openBlank_split hOpen.1
    have hBlank : Blank [13, 10] := by
      intro b hb
      simp only [List.mem_cons, List.not_mem_nil, or_false] at hb
      obtain rfl | rfl := hb <;> rfl
    refine error_of_bad hEnd' rfl (not_fine_of_longer hBlank (hEnds ▸ hBad) ?_)
    have hPrefix : x ++ [10] <+: raw := ⟨[13], by rw [hRaw, List.append_assoc]; rfl⟩
    exact hPrefix.trans (raw_begins hLt.le ext behind')
  constructor
  · intro hStable
    have hSecond := hStable.error hFirst
    by_cases hLater : [13, 10, 13, 10] <:+: (raw ++ ext) ++ behind'.take 1
    · exact .inr (.inl hLater)
    · refine .inr (.inr ?_)
      have hEnd' := findHeaderEnd_feeds hLater
      cases hLf : lfEnd 0 (raw ++ ext) with
      | none =>
        rw [hLf] at hEnd'
        rw [parseOutcome, hEnd'] at hSecond
        cases hSecond
      | some stop =>
        rw [hLf] at hEnd'
        refine ⟨stop, rfl, fun hLe => ?_⟩
        obtain ⟨_, hBad'⟩ | ⟨_, hOk⟩ | ⟨_, _, hWaits⟩ := parseOutcome_cases hEnd' (take_of_le hLe ext behind')
        · exact hBad'
        · rw [hOk] at hSecond
          cases hSecond
        · rw [hWaits] at hSecond
          cases hSecond
  · rintro (hFeed | hLater | ⟨stop, hLf, hRefused⟩)
    · obtain ⟨hEnd', hHead'⟩ := findHeaderEnd_open hOpen.1 hFeed
      exact stable_of_bad hEnd hHead hBad (error_of_bad hEnd' hHead' hBad)
    · obtain ⟨stop, hEnd', hLt⟩ := findHeaderEnd_later hOpen.1.2 hLater
      exact stable_of_bad hEnd hHead hBad (hLonger stop hEnd' hLt)
    · refine stable_of_bad hEnd hHead hBad ?_
      by_cases hLater : [13, 10, 13, 10] <:+: (raw ++ ext) ++ behind'.take 1
      · obtain ⟨stop', hEnd', hLt⟩ := findHeaderEnd_later hOpen.1.2 hLater
        exact hLonger stop' hEnd' hLt
      · have hEnd' := (findHeaderEnd_feeds hLater).trans hLf
        by_cases hLe : stop ≤ raw.length
        · exact error_of_bad hEnd' (take_of_le hLe ext behind') (hRefused hLe)
        · exact hLonger stop hEnd' (not_le.mp hLe)

end Cases

/-- What is reported of a request stays as more bytes come exactly when nothing
behind its head moves the end of the head. -/
theorem parseStable_iff (raw behind ext behind' : Bytes) :
    ParseStable raw behind ext behind' ↔ Settled raw behind ext behind' := by
  by_cases hInfix : [13, 10, 13, 10] <:+: raw
  · refine ⟨fun _ => ⟨fun hNone => absurd hInfix hNone, fun hOpen => absurd hInfix hOpen.1.2, ?_⟩,
      fun _ => ?_⟩
    · exact fun hOpen => absurd hInfix hOpen.1.2
    · exact stable_of_infix hInfix
  · by_cases hOpen : EndsBehind raw behind
    · by_cases hFine : HeadFine (raw ++ [10])
      · rw [stable_of_open hOpen hFine]
        constructor
        · exact fun h =>
            ⟨fun _ hInside => absurd hOpen hInside, fun _ _ => h, fun _ hBad => absurd hFine hBad⟩
        · exact fun h => h.past hOpen hFine
      · rw [stable_of_open_refused hOpen hFine]
        constructor
        · exact fun h => ⟨fun _ hInside => absurd hOpen hInside, fun _ hFine' => absurd hFine' hFine,
            fun _ _ => h⟩
        · exact fun h => h.refused hOpen hFine
    · rw [stable_of_feeds hInfix hOpen]
      constructor
      · exact fun h => ⟨fun _ _ => h, fun hOpen' => absurd hOpen' hOpen, fun hOpen' => absurd hOpen' hOpen⟩
      · exact fun h => h.feeds hInfix hOpen

def feedsRequest : Bytes := ascii "GET /a HTTP/1.1\nHost: a\n\n"

def nextRequest : Bytes := ascii "GET /b HTTP/1.1\r\nHost: b\r\n\r\n"

/-- A pipelined request becomes part of the head of the one before it. -/
theorem feeds_unstable : ¬ ParseStable feedsRequest [] nextRequest [] := by
  intro hStable
  have hFirst : parseOutcome feedsRequest [] = .ok (requestOf feedsRequest) 25 := by decide +kernel
  have hSecond := hStable.ok _ _ hFirst
  exact absurd hSecond (by decide +kernel)

end Cweb
