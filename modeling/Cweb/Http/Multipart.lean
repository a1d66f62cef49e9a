import Cweb.Http.Params
import Cweb.Lib.FirstMatch
import Mathlib.Data.List.GetD
import Mathlib.Logic.Relation

/-!
# Multipart bodies, read byte by byte

Every read of the parser is checked here against the length of the body, and a
failure keeps the parts that the code leaves in the list. Where all reads
succeed it is the parser over byte strings.
-/

namespace Cweb.Multipart

open Sv FirstMatch

/-! ## Checked reads -/

/-- Bytes compared one after the other, up to the first that differs. -/
def readsAre (body : Bytes) : Nat → Bytes → Option Bool
  | _, [] => some true
  | i, b :: text =>
    match body[i]? with
    | none => none
    | some c => if c = b then readsAre body (i + 1) text else some false

/-- `memcmp` may read all of its bytes. -/
def memEq (body : Bytes) (i : Nat) (text : Bytes) : Option Bool :=
  if i + text.length ≤ body.length then some ((body.drop i).take text.length == text) else none

/-- A view of the bytes from one index to another. -/
def view (body : Bytes) (start stop : Nat) : Option Bytes :=
  if start ≤ stop ∧ stop ≤ body.length then some ((body.drop start).take (stop - start)) else none

/-! ## The parser -/

/-- The byte behind a boundary, when there is one. -/
def byteBehind (body : Bytes) (i : Nat) : Option UInt8 := if i < body.length then body[i]? else some 0

def delimiterTest (body boundary : Bytes) (i : Nat) : Option Bool :=
  match readsAre body i (ascii "\r\n--") with
  | none => none
  | some false => some false
  | some true =>
    match memEq body (i + 4) boundary with
    | none => none
    | some false => some false
    | some true =>
      match byteBehind body (i + 4 + boundary.length), byteBehind body (i + 5 + boundary.length) with
      | some a, some b => some ((a == 13 && b == 10) || (a == 45 && b == 45))
      | _, _ => none

/-- The loop runs while `i + blen + 6 <= body.count`. -/
def findDelimiterRead (body : Bytes) (start : Nat) (boundary : Bytes) : Option (Option Nat) :=
  (scan (delimiterTest body boundary) (body.length + 1 - (boundary.length + 6)) (body.length + 2) start).map
    fun found => found.map (· + 2)

def findBlankLineRead (body : Bytes) (start : Nat) : Option (Option Nat) :=
  scan (fun i => readsAre body i (ascii "\r\n\r\n")) (body.length - 3) (body.length + 2) start

/-- Two bytes at `pos`, when there are two. -/
def pairAt (body : Bytes) (pos : Nat) (text : Bytes) : Option Bool :=
  if pos + 1 < body.length then readsAre body pos text else some false

/-- What is returned, and the parts in the list then. Only where no delimiter is
found are they freed. -/
def parseLoop (body boundary : Bytes) : Nat → Nat → List MultipartPart → Option (Int × List MultipartPart)
  | 0, _, _ => none
  | fuel + 1, pos, items =>
    match pairAt body pos (ascii "--") with
    | none => none
    | some true => some (0, items)
    | some false =>
      match pairAt body pos (ascii "\r\n") with
      | none => none
      | some false => some (-1, items)
      | some true =>
        match findBlankLineRead body (pos + 2) with
        | none => none
        | some none => some (-1, items)
        | some (some hEnd) =>
          match view body (pos + 2) hEnd with
          | none => none
          | some block =>
            match findDelimiterRead body (hEnd + 4) boundary with
            | none => none
            | some none => some (-1, [])
            | some (some delim) =>
              match view body (hEnd + 4) (delim - 2) with
              | none => none
              | some content =>
                parseLoop body boundary fuel (delim + 2 + boundary.length)
                  (items ++ [⟨(parsePartHeaders block).1, (parsePartHeaders block).2, content⟩])

/-- `multipart_parse`, with the items it leaves. -/
def multipartRead (body boundary : Bytes) : Option (Int × List MultipartPart) :=
  if boundary.length = 0 ∨ multipartMaxBoundary < boundary.length then some (-1, [])
  else if body.length < 2 + boundary.length then some (-1, [])
  else
    match memEq body 0 (ascii "--" ++ boundary) with
    | none => none
    | some false => some (-1, [])
    | some true => parseLoop body boundary (body.length + 1) (2 + boundary.length) []

/-! ## The reads are inside the body -/

theorem readsAre_eq {body : Bytes} (text : Bytes) : ∀ {i : Nat}, i + text.length ≤ body.length →
    readsAre body i text = some (text.isPrefixOf (body.drop i)) := by
  induction text with
  | nil => exact fun _ => rfl
  | cons b text ih =>
    intro i h
    rw [List.length_cons] at h
    have hi : i < body.length := by omega
    rw [readsAre, List.getElem?_eq_getElem hi, List.drop_eq_getElem_cons hi]
    dsimp only
    rw [List.isPrefixOf_cons_cons]
    split
    · next hEq =>
      rw [ih (by omega), hEq, beq_self_eq_true, Bool.true_and]
    · next hNe =>
      rw [beq_eq_false_iff_ne.mpr (Ne.symm hNe), Bool.false_and]

theorem memEq_eq {body : Bytes} {i : Nat} {text : Bytes} (h : i + text.length ≤ body.length) :
    memEq body i text = some (text.isPrefixOf (body.drop i)) := by
  rw [memEq, if_pos h, Option.some.injEq, Bool.eq_iff_iff, beq_iff_eq, List.isPrefixOf_iff_prefix,
    List.prefix_iff_eq_take]
  exact eq_comm

theorem lt_of_isPrefixOf {body text : Bytes} {i : Nat} (h : text.isPrefixOf (body.drop i) = true)
    (hText : text ≠ []) :
    i + text.length ≤ body.length := by
  have hLength := (List.isPrefixOf_iff_prefix.mp h).length_le
  have hPos := List.length_pos_of_ne_nil hText
  rw [List.length_drop] at hLength
  omega

theorem pairAt_eq (body : Bytes) (pos : Nat) (a b : UInt8) :
    pairAt body pos [a, b] = some ([a, b].isPrefixOf (body.drop pos)) := by
  rw [pairAt]
  split
  · exact readsAre_eq [a, b] (by simp only [List.length_cons, List.length_nil]; omega)
  · next hFew =>
    cases h : [a, b].isPrefixOf (body.drop pos) with
    | false => rfl
    | true =>
      have hLe := lt_of_isPrefixOf h (List.cons_ne_nil _ _)
      simp only [List.length_cons, List.length_nil] at hLe
      omega

theorem view_eq {body : Bytes} {start stop : Nat} (h : start ≤ stop) (h' : stop ≤ body.length) :
    view body start stop = some ((body.drop start).take (stop - start)) := if_pos ⟨h, h'⟩

/-! ## The two searches -/

def blankLineAt (body : Bytes) (i : Nat) : Bool := (ascii "\r\n\r\n").isPrefixOf (body.drop i)

def delimiterAt (body boundary : Bytes) (i : Nat) : Bool :=
  (ascii "\r\n--" ++ boundary).isPrefixOf (body.drop i) &&
    ((ascii "\r\n").isPrefixOf (body.drop (i + (ascii "\r\n--" ++ boundary).length)) ||
      (ascii "--").isPrefixOf (body.drop (i + (ascii "\r\n--" ++ boundary).length)))

theorem blankLineAt_le {body : Bytes} {i : Nat} (h : blankLineAt body i = true) : i + 4 ≤ body.length :=
  lt_of_isPrefixOf h (List.cons_ne_nil _ _)

theorem delimiterAt_le {body boundary : Bytes} {i : Nat} (h : delimiterAt body boundary i = true) :
    i + boundary.length + 6 ≤ body.length := by
  have hMark : (ascii "\r\n--" ++ boundary).length = 4 + boundary.length := List.length_append
  rw [delimiterAt, hMark, Bool.and_eq_true, Bool.or_eq_true] at h
  rcases h.2 with hNext | hNext
  · have hLe := lt_of_isPrefixOf hNext (List.cons_ne_nil _ _)
    change i + (4 + boundary.length) + 2 ≤ body.length at hLe
    omega
  · have hLe := lt_of_isPrefixOf hNext (List.cons_ne_nil _ _)
    change i + (4 + boundary.length) + 2 ≤ body.length at hLe
    omega

theorem findBlankLine_first (body : Bytes) (start : Nat) :
    First (fun i => start ≤ i ∧ blankLineAt body i = true) (findBlankLine body start) := by
  refine (first_find?_range body.length _).congr fun i => ?_
  rw [Bool.and_eq_true, decide_eq_true_iff]
  exact and_iff_right_of_imp fun h => Nat.lt_of_lt_of_le (Nat.lt_add_of_pos_right (by decide))
    (blankLineAt_le h.2)

theorem findDelimiter_first (body : Bytes) (start : Nat) (boundary : Bytes) :
    ∃ r, findDelimiter body start boundary = r.map (· + 2) ∧
    First (fun i => start ≤ i ∧ delimiterAt body boundary i = true) r := by
  refine ⟨_, rfl, (first_find?_range (body.length + 1) _).congr fun i => ?_⟩
  simp only [Bool.and_eq_true, decide_eq_true_eq, and_assoc]
  constructor
  · rintro ⟨-, hStart, -, hMark, hNext⟩
    exact ⟨hStart, by rw [delimiterAt, hMark, hNext]; rfl⟩
  · rintro ⟨hStart, h⟩
    have hLe := delimiterAt_le h
    rw [delimiterAt, Bool.and_eq_true] at h
    exact ⟨by omega, hStart, hLe, h.1, h.2⟩

theorem findBlankLineRead_eq (body : Bytes) (start : Nat) :
    findBlankLineRead body start = some (findBlankLine body start) := by
  obtain ⟨r, hScan, hFirst⟩ :=
    @scan_first (fun i => readsAre body i (ascii "\r\n\r\n")) (blankLineAt body) (body.length - 3)
    (fun i hi => readsAre_eq _ (by change i + 4 ≤ body.length; omega)) (body.length + 2) start (by omega)
  rw [findBlankLineRead, hScan]
  refine congrArg some (First.unique (hFirst.congr fun i => ?_) (findBlankLine_first body start))
  exact and_congr_right fun _ => and_iff_right_of_imp fun h => by have := blankLineAt_le h; omega

theorem append_isPrefixOf (a b body : Bytes) (i : Nat) :
    (a ++ b).isPrefixOf (body.drop i) =
      (a.isPrefixOf (body.drop i) && b.isPrefixOf (body.drop (i + a.length))) := by
  induction a generalizing i with
  | nil => rw [List.nil_append, List.isPrefixOf_nil_left, Bool.true_and, List.length_nil, Nat.add_zero]
  | cons x a ih =>
    cases hDrop : body.drop i with
    | nil => rfl
    | cons c rest =>
      have hRest : body.drop (i + 1) = rest := by rw [← List.drop_drop, hDrop, List.drop_one, List.tail_cons]
      rw [List.cons_append, List.isPrefixOf_cons_cons, List.isPrefixOf_cons_cons, ← hRest, ih,
        List.length_cons, Bool.and_assoc,
        Nat.add_right_comm i 1, Nat.add_assoc]

theorem pair_isPrefixOf {body : Bytes} {k : Nat} (a b : UInt8) (h : k + 1 < body.length) :
    [a, b].isPrefixOf (body.drop k) = (body[k] == a && body[k + 1] == b) := by
  rw [List.drop_eq_getElem_cons (Nat.lt_of_succ_lt h), List.drop_eq_getElem_cons h,
    List.isPrefixOf_cons_cons, List.isPrefixOf_cons_cons,
    List.isPrefixOf_nil_left, Bool.and_true, BEq.comm, @BEq.comm _ _ _ b]

theorem byteBehind_eq {body : Bytes} {i : Nat} (h : i < body.length) : byteBehind body i = some body[i] := by
  rw [byteBehind, if_pos h, List.getElem?_eq_getElem h]

theorem delimiterTest_eq {body boundary : Bytes} {i : Nat}
    (hi : i < body.length + 1 - (boundary.length + 6)) :
    delimiterTest body boundary i = some (delimiterAt body boundary i) := by
  obtain ⟨k, hk⟩ : ∃ k, i + 4 + boundary.length = k := ⟨_, rfl⟩
  have hk' : i + 5 + boundary.length = k + 1 := by omega
  have hMark : i + (ascii "\r\n--" ++ boundary).length = k := by
    rw [List.length_append, ← Nat.add_assoc]
    exact hk
  have hBehind : k + 1 < body.length := by omega
  have hStart : readsAre body i (ascii "\r\n--") = some ((ascii "\r\n--").isPrefixOf (body.drop i)) :=
    readsAre_eq _ (by change i + 4 ≤ body.length; omega)
  have hName : memEq body (i + 4) boundary = some (boundary.isPrefixOf (body.drop (i + 4))) :=
    memEq_eq (by omega)
  have hCrlf : (ascii "\r\n").isPrefixOf (body.drop k) = (body[k] == 13 && body[k + 1] == 10) :=
    pair_isPrefixOf 13 10 hBehind
  have hDashes : (ascii "--").isPrefixOf (body.drop k) = (body[k] == 45 && body[k + 1] == 45) :=
    pair_isPrefixOf 45 45 hBehind
  rw [delimiterTest, delimiterAt, hStart, hName, hk, hk', hMark,
    byteBehind_eq (Nat.lt_of_succ_lt hBehind), byteBehind_eq hBehind,
    append_isPrefixOf, hCrlf, hDashes]
  cases (ascii "\r\n--").isPrefixOf (body.drop i) with
  | false => rfl
  | true =>
    change _ = some (boundary.isPrefixOf (body.drop (i + 4)) && _)
    cases boundary.isPrefixOf (body.drop (i + 4)) with
    | false => rfl
    | true => rfl

theorem findDelimiterRead_eq (body : Bytes) (start : Nat) (boundary : Bytes) :
    findDelimiterRead body start boundary = some (findDelimiter body start boundary) := by
  obtain ⟨r, hFind, hFirst⟩ := findDelimiter_first body start boundary
  obtain ⟨r', hScan, hFirst'⟩ :=
    @scan_first (delimiterTest body boundary) (delimiterAt body boundary)
      (body.length + 1 - (boundary.length + 6))
    (fun _ hi => delimiterTest_eq hi) (body.length + 2) start (by omega)
  have hSame : r' = r := by
    refine First.unique (hFirst'.congr fun i => ?_) hFirst
    exact and_congr_right fun _ => and_iff_right_of_imp fun h => by have := delimiterAt_le h; omega
  rw [findDelimiterRead, hScan, hFind, hSame]
  rfl

/-! ## What a failure leaves -/

/-- Behind the part that starts at `pos`, when it is complete. -/
def nextPart (body boundary : Bytes) (pos : Nat) : Option Nat :=
  if (ascii "\r\n").isPrefixOf (body.drop pos) then
    (findBlankLine body (pos + 2)).bind fun hEnd => (findDelimiter body (hEnd + 4) boundary).map
      (· + 2 + boundary.length)
  else none

/-- A part is announced at `pos`, but no blank line ends its headers. -/
def Stuck (body : Bytes) (pos : Nat) : Prop := (ascii "\r\n").isPrefixOf (body.drop pos) = true ∧
    findBlankLine body (pos + 2) = none

/-- One such part behind some complete ones. -/
def StuckBehind (body boundary : Bytes) (pos : Nat) : Prop :=
  ∃ q, Relation.TransGen (fun p q => nextPart body boundary p = some q) pos q ∧ Stuck body q

theorem stuckBehind_of_none {body boundary : Bytes} {pos : Nat}
    (h : nextPart body boundary pos = none) : ¬StuckBehind body boundary pos := by
  rintro ⟨q, hSteps, -⟩
  obtain ⟨p, hFirst, -⟩ := Relation.TransGen.head'_iff.mp hSteps
  rw [h] at hFirst
  cases hFirst

theorem stuckBehind_iff {body boundary : Bytes} {pos next : Nat}
    (h : nextPart body boundary pos = some next) :
    StuckBehind body boundary pos ↔ Stuck body next ∨ StuckBehind body boundary next := by
  constructor
  · rintro ⟨q, hSteps, hStuck⟩
    obtain ⟨p, hFirst, hRest⟩ := Relation.TransGen.head'_iff.mp hSteps
    rw [h, Option.some.injEq] at hFirst
    subst hFirst
    rcases Relation.reflTransGen_iff_eq_or_transGen.mp hRest with rfl | hMore
    · exact .inl hStuck
    · exact .inr ⟨q, hMore, hStuck⟩
  · rintro (hStuck | ⟨q, hSteps, hStuck⟩)
    · exact ⟨next, .single h, hStuck⟩
    · exact ⟨q, .head h hSteps, hStuck⟩

theorem not_crlf_of_dashes {s : Bytes} (h : (ascii "--").isPrefixOf s = true) :
    (ascii "\r\n").isPrefixOf s = false := by
  obtain ⟨rest, rfl⟩ := List.isPrefixOf_iff_prefix.mp h
  rfl

theorem behind_delimiter {body boundary : Bytes} {i : Nat} (h : delimiterAt body boundary i = true) :
    (ascii "--").isPrefixOf (body.drop (i + 2 + 2 + boundary.length)) = true ∨
      (ascii "\r\n").isPrefixOf (body.drop (i + 2 + 2 + boundary.length)) = true := by
  have hMark : i + (ascii "\r\n--" ++ boundary).length = i + 2 + 2 + boundary.length := by
    rw [List.length_append, ← Nat.add_assoc]
    rfl
  rw [delimiterAt, hMark, Bool.and_eq_true, Bool.or_eq_true] at h
  exact h.2.symm

theorem parseLoop_part {body boundary : Bytes} {pos hEnd i : Nat} (fuel : Nat) (items : List MultipartPart)
    (hClosing : (ascii "--").isPrefixOf (body.drop pos) = false)
    (hNext : (ascii "\r\n").isPrefixOf (body.drop pos) = true)
    (hHeaders : findBlankLine body (pos + 2) = some hEnd)
    (hFind : findDelimiter body (hEnd + 4) boundary = some (i + 2))
    (hFrom : pos + 2 ≤ hEnd) (hStart : hEnd + 4 ≤ i) (hEnds : i ≤ body.length) :
    nextPart body boundary pos = some (i + 2 + 2 + boundary.length) ∧ ∃ part,
      parseLoop body boundary (fuel + 1) pos items = parseLoop body boundary fuel
        (i + 2 + 2 + boundary.length) (items ++ [part]) ∧
        multipartLoop body boundary (fuel + 1) pos =
          (multipartLoop body boundary fuel (i + 2 + 2 + boundary.length)).map (part :: ·) := by
  have hDashes : pairAt body pos (ascii "--") = some ((ascii "--").isPrefixOf (body.drop pos)) :=
    pairAt_eq body pos 45 45
  have hCrlf : pairAt body pos (ascii "\r\n") = some ((ascii "\r\n").isPrefixOf (body.drop pos)) :=
    pairAt_eq body pos 13 10
  refine ⟨?_, ⟨(parsePartHeaders ((body.drop (pos + 2)).take (hEnd - (pos + 2)))).1,
    (parsePartHeaders ((body.drop (pos + 2)).take (hEnd - (pos + 2)))).2,
    (body.drop (hEnd + 4)).take (i + 2 - 2 - (hEnd + 4))⟩, ?_, ?_⟩
  · rw [nextPart, hNext, hHeaders]
    simp [hFind]
  · rw [parseLoop, hDashes, hClosing, hCrlf, hNext]
    dsimp only
    rw [findBlankLineRead_eq, hHeaders]
    dsimp only
    rw [view_eq hFrom (by omega), findDelimiterRead_eq, hFind]
    dsimp only
    rw [view_eq (by omega) (by omega)]
  · rw [multipartLoop, hClosing, hNext, hHeaders]
    dsimp only
    rw [hFind, if_neg (by decide), if_neg (by decide)]

theorem parseLoop_spec (body boundary : Bytes) (fuel : Nat) : ∀ pos items, pos ≤ body.length →
    body.length - pos < fuel →
    (items = [] ∨ (ascii "--").isPrefixOf (body.drop pos) = true ∨
      (ascii "\r\n").isPrefixOf (body.drop pos) = true) →
    ∃ rc left, parseLoop body boundary fuel pos items = some (rc, left) ∧
      ((rc = 0 ∧ (multipartLoop body boundary fuel pos).map (items ++ ·) = some left) ∨
        (rc = -1 ∧ multipartLoop body boundary fuel pos = none)) ∧
      ((rc = -1 → left = []) ↔ ¬((items ≠ [] ∧ Stuck body pos) ∨ StuckBehind body boundary pos)) := by
  induction fuel with
  | zero => exact fun _ _ _ h => absurd h (Nat.not_lt_zero _)
  | succ fuel ih =>
    intro pos items hPos hFuel hEntry
    have hDashes : pairAt body pos (ascii "--") = some ((ascii "--").isPrefixOf (body.drop pos)) :=
      pairAt_eq body pos 45 45
    have hCrlf : pairAt body pos (ascii "\r\n") = some ((ascii "\r\n").isPrefixOf (body.drop pos)) :=
      pairAt_eq body pos 13 10
    cases hClosing : (ascii "--").isPrefixOf (body.drop pos) with
    | true =>
      rw [parseLoop, multipartLoop, hDashes, hClosing]
      have hNot := not_crlf_of_dashes hClosing
      refine ⟨0, items, rfl, .inl ⟨rfl, congrArg some (List.append_nil items)⟩,
        iff_of_true (fun h => absurd h (by decide)) ?_⟩
      rintro (⟨-, hStuck, -⟩ | hBehind)
      · rw [hNot] at hStuck
        cases hStuck
      · exact stuckBehind_of_none (by rw [nextPart, hNot]; rfl) hBehind
    | false =>
      cases hNext : (ascii "\r\n").isPrefixOf (body.drop pos) with
      | false =>
        rw [parseLoop, multipartLoop, hDashes, hClosing, hCrlf, hNext]
        have hNone : items = [] := by
          rw [hClosing, hNext] at hEntry
          simpa using hEntry
        refine ⟨-1, items, rfl, .inr ⟨rfl, rfl⟩, iff_of_true (fun _ => hNone) ?_⟩
        rintro (⟨hSome, -⟩ | hBehind)
        · exact hSome hNone
        · exact stuckBehind_of_none (by rw [nextPart, hNext]; rfl) hBehind
      | true =>
        have hBlank := findBlankLine_first body (pos + 2)
        cases hHeaders : findBlankLine body (pos + 2) with
        | none =>
          rw [parseLoop, multipartLoop, hDashes, hClosing, hCrlf, hNext]
          dsimp only
          rw [findBlankLineRead_eq, hHeaders]
          have hBehind : ¬StuckBehind body boundary pos :=
            stuckBehind_of_none (by rw [nextPart, hNext, hHeaders]; rfl)
          refine ⟨-1, items, rfl, .inr ⟨rfl, rfl⟩, ?_⟩
          rw [or_iff_left hBehind, and_iff_left ⟨hNext, hHeaders⟩, not_not]
          exact forall_prop_of_true rfl
        | some hEnd =>
          rw [hHeaders] at hBlank
          have hFrom := hBlank.1.1
          have hEndLe := blankLineAt_le hBlank.1.2
          have hStuck : ¬Stuck body pos := by
            rintro ⟨-, hNone⟩
            rw [hHeaders] at hNone
            cases hNone
          obtain ⟨r, hFind, hFirst⟩ := findDelimiter_first body (hEnd + 4) boundary
          cases r with
          | none =>
            rw [parseLoop, multipartLoop, hDashes, hClosing, hCrlf, hNext]
            dsimp only
            rw [findBlankLineRead_eq, hHeaders]
            dsimp only
            rw [view_eq hFrom (by omega), findDelimiterRead_eq, hFind]
            have hBehind : ¬StuckBehind body boundary pos :=
              stuckBehind_of_none (by rw [nextPart, hNext, hHeaders]; simp [hFind])
            refine ⟨-1, [], rfl, .inr ⟨rfl, rfl⟩, iff_of_true (fun _ => rfl) ?_⟩
            rintro (⟨-, h⟩ | h)
            · exact hStuck h
            · exact hBehind h
          | some i =>
            have hDelimLe := delimiterAt_le hFirst.1.2
            have hStart := hFirst.1.1
            obtain ⟨hStep, part, hRead, hLoop⟩ :=
              parseLoop_part fuel items hClosing hNext hHeaders hFind hFrom hStart (by omega)
            obtain ⟨rc, left, hRun, hResult, hLeft⟩ :=
              ih (i + 2 + 2 + boundary.length) (items ++ [part]) (by omega) (by omega)
              (.inr (behind_delimiter hFirst.1.2))
            refine ⟨rc, left, hRead.trans hRun, ?_, ?_⟩
            · rw [hLoop]
              rcases hResult with ⟨hrc, hParts⟩ | ⟨hrc, hNone⟩
              · refine .inl ⟨hrc, ?_⟩
                rw [← hParts]
                simp [Option.map_map, Function.comp_def]
              · exact .inr ⟨hrc, by rw [hNone]; rfl⟩
            · have hHere : ¬(items ≠ [] ∧ Stuck body pos) := fun h => hStuck h.2
              rw [hLeft, or_iff_right hHere, stuckBehind_iff hStep,
                and_iff_right (List.append_ne_nil_of_right_ne_nil _ (List.cons_ne_nil _ _))]

/-! ## The whole body -/

/-- Complete parts, and behind the last of their delimiters a part whose headers
do not end. -/
def CutShort (body boundary : Bytes) : Prop :=
  boundary ≠ [] ∧ boundary.length ≤ multipartMaxBoundary ∧ (ascii "--" ++ boundary).isPrefixOf body = true ∧
    StuckBehind body boundary (2 + boundary.length)

/-- No index that is read is outside the body, the loop ends, and it answers
what the parser over byte strings answers. A failure leaves nothing behind
unless the body is cut short in the headers of a later part. -/
theorem multipart_failure_iff (body boundary : Bytes) :
    ∃ rc items, multipartRead body boundary = some (rc, items) ∧
    ((rc = 0 ∧ multipartParse body boundary = some items) ∨ (rc = -1 ∧ multipartParse body boundary = none)) ∧
    ((rc = -1 → items = []) ↔ ¬CutShort body boundary) := by
  have hEmpty : boundary.length = 0 ↔ boundary = [] := List.length_eq_zero_iff
  have hNothing : ∀ {P : Prop}, ¬P → (((-1 : Int) = -1 → ([] : List MultipartPart) = []) ↔ ¬P) :=
    fun h => iff_of_true (fun _ => rfl) h
  rw [multipartRead, multipartParse]
  by_cases hName : boundary = [] ∨ multipartMaxBoundary < boundary.length
  · rw [if_pos (hName.imp_left hEmpty.mpr), if_pos hName]
    exact ⟨-1, [], rfl, .inr ⟨rfl, rfl⟩, hNothing fun h => hName.elim h.1 (Nat.not_lt.mpr h.2.1)⟩
  rw [if_neg fun h => hName (h.imp_left hEmpty.mp), if_neg hName]
  cases hOpens : (ascii "--" ++ boundary).isPrefixOf body with
  | false =>
    have hCut : ¬CutShort body boundary := by
      rintro ⟨-, -, hTrue, -⟩
      rw [hOpens] at hTrue
      cases hTrue
    rw [if_pos Bool.false_ne_true]
    split
    · exact ⟨-1, [], rfl, .inr ⟨rfl, rfl⟩, hNothing hCut⟩
    · next hLong =>
      have hRead :=
        @memEq_eq body 0 (ascii "--" ++ boundary)
          (by rw [Nat.zero_add, List.length_append]; exact Nat.le_of_not_lt hLong)
      rw [List.drop_zero, hOpens] at hRead
      rw [hRead]
      exact ⟨-1, [], rfl, .inr ⟨rfl, rfl⟩, hNothing hCut⟩
  | true =>
    have hLong : 2 + boundary.length ≤ body.length := by
      have hLe := (List.isPrefixOf_iff_prefix.mp hOpens).length_le
      rw [List.length_append] at hLe
      exact hLe
    have hRead :=
      @memEq_eq body 0 (ascii "--" ++ boundary) (by rw [Nat.zero_add, List.length_append]; exact hLong)
    rw [List.drop_zero, hOpens] at hRead
    rw [if_neg (Nat.not_lt.mpr hLong), hRead, if_neg (not_not.mpr rfl)]
    obtain ⟨rc, items, hRun, hResult, hLeft⟩ :=
      parseLoop_spec body boundary (body.length + 1) (2 + boundary.length) [] hLong (by omega) (.inl rfl)
    have hCut : CutShort body boundary ↔ StuckBehind body boundary (2 + boundary.length) := by
      refine ⟨fun h => h.2.2.2,
        fun h => ⟨fun hNil => hName (.inl hNil), Nat.le_of_not_lt fun hLt => hName (.inr hLt), hOpens, h⟩⟩
    refine ⟨rc, items, hRun, ?_, ?_⟩
    · simpa using hResult
    · rw [hLeft, hCut, or_iff_right fun h => h.1 rfl]

/-- A truncated upload: the first part stays in the list. -/
theorem multipart_left_behind : multipartRead (ascii "--B\r\nh:1\r\n\r\nx\r\n--B\r\ntruncated") (ascii "B") =
    some (-1, [⟨[], [], ascii "x"⟩]) := by
  decide +kernel

/-! ## Saving an upload -/

/-- How many bytes of the filename are behind its last separator. -/
def lastCount (filename : Bytes) : Nat :=
  (List.range filename.length).foldl (fun last i =>
    if filename.getD i 0 = 47 ∨ filename.getD i 0 = 92 then filename.length - i - 1 else last) filename.length

def dirSlash (dir : Bytes) : Bytes := if 0 < dir.length ∧ dir.getD (dir.length - 1) 0 ≠ 47 then [47] else []

/-- The buffer and the data that `file_write` is called with. -/
def multipartSave (part : MultipartPart) (dir : Bytes) (outSz : Nat) : Option (Bytes × Bytes) :=
  let last := lastCount part.filename
  let base := part.filename.drop (part.filename.length - last)
  if last = 0 ∨ (last = 1 ∧ base.getD 0 0 = 46) ∨ (last = 2 ∧ base.getD 0 0 = 46 ∧ base.getD 1 0 = 46) then
    none
  else
    let dir := svFromCstr dir
    let need := dir.length + (dirSlash dir).length + last + 1
    if outSz < need then none else some (dir ++ dirSlash dir ++ base.take last ++ [0], part.content)

def isSeparator (c : UInt8) : Bool := c == 47 || c == 92

/-- What stands behind the last slash or backslash. -/
def lastComponent (filename : Bytes) : Bytes := filename.rtakeWhile fun c => !isSeparator c

theorem lastComponent_concat (s : Bytes) (c : UInt8) :
    lastComponent (s ++ [c]) = if isSeparator c then [] else lastComponent s ++ [c] := by
  rw [lastComponent]
  cases hSep : isSeparator c with
  | true => exact List.rtakeWhile_concat_neg _ _ _ (by simp [hSep])
  | false => exact List.rtakeWhile_concat_pos _ _ _ (by simp [hSep])

theorem lastCount_prefix (filename : Bytes) (n : Nat) (hn : n ≤ filename.length) :
    (List.range n).foldl (fun last i =>
      if filename.getD i 0 = 47 ∨ filename.getD i 0 = 92 then filename.length - i - 1
        else last) filename.length =
        filename.length - n + (lastComponent (filename.take n)).length := by
  induction n with
  | zero =>
    rw [List.take_zero, lastComponent, List.rtakeWhile_nil]
    rfl
  | succ n ih =>
    have hGet : filename.getD n 0 = filename[n] := List.getD_eq_getElem _ _ hn
    rw [List.range_succ, List.foldl_append, List.foldl_cons, List.foldl_nil, ih (Nat.le_of_succ_le hn),
      List.take_succ_eq_append_getElem hn,
      lastComponent_concat, hGet]
    cases hSep : isSeparator filename[n] with
    | true =>
      have hEither : filename[n] = 47 ∨ filename[n] = 92 := by simpa [isSeparator] using hSep
      rw [if_pos hEither, if_pos rfl]
      rfl
    | false =>
      have hNeither : ¬(filename[n] = 47 ∨ filename[n] = 92) := by simpa [isSeparator] using hSep
      rw [if_neg hNeither, if_neg Bool.false_ne_true, List.length_append, List.length_singleton]
      omega

theorem lastCount_eq (filename : Bytes) : lastCount filename = (lastComponent filename).length := by
  rw [lastCount, lastCount_prefix filename filename.length (Nat.le_refl _), List.take_length,
    Nat.sub_self, Nat.zero_add]

theorem drop_lastComponent (filename : Bytes) :
    filename.drop (filename.length - (lastComponent filename).length) = lastComponent filename :=
  (List.suffix_iff_eq_drop.mp (List.rtakeWhile_suffix _ _)).symm

/-- A name that stands for no file of its own. -/
def Special (name : Bytes) : Prop := name = [] ∨ name = ascii "." ∨ name = ascii ".."

theorem special_iff (name : Bytes) : (name.length = 0 ∨ (name.length = 1 ∧ name.getD 0 0 = 46) ∨
    (name.length = 2 ∧ name.getD 0 0 = 46 ∧ name.getD 1 0 = 46)) ↔ Special name := by
  rcases name with _ | ⟨a, _ | ⟨b, _ | ⟨c, rest⟩⟩⟩
  · exact iff_of_true (.inl rfl) (.inl rfl)
  all_goals simp [Special, ascii]

/-- What the claim on `multipart_save` asks of a call of `file_write`. -/
structure Inside (dir name : Bytes) (outSz : Nat) (path : Bytes) : Prop where
  whole : svFromCstr path = svFromCstr dir ++ dirSlash (svFromCstr dir) ++ name
  named : ¬Special (svFromCstr name)
  fits : path.length ≤ outSz

/-- Nothing is written. -/
def Refused (dir name : Bytes) (outSz : Nat) : Prop :=
  Special name ∨ outSz < (svFromCstr dir ++ dirSlash (svFromCstr dir) ++ name).length + 1

theorem multipartSave_eq_some_iff (part : MultipartPart) (dir : Bytes) (outSz : Nat) (path data : Bytes) :
    multipartSave part dir outSz = some (path, data) ↔ ¬Refused dir (lastComponent part.filename) outSz ∧
      path = svFromCstr dir ++ dirSlash (svFromCstr dir) ++ lastComponent part.filename ++ [0] ∧
        data = part.content := by
  have hNeed : (svFromCstr dir).length + (dirSlash (svFromCstr dir)).length +
    (lastComponent part.filename).length =
      (svFromCstr dir ++ dirSlash (svFromCstr dir) ++ lastComponent part.filename).length := by
    rw [List.length_append, List.length_append]
  rw [multipartSave, lastCount_eq, drop_lastComponent, Refused]
  by_cases hSpecial : Special (lastComponent part.filename)
  · rw [if_pos ((special_iff _).mpr hSpecial)]
    exact iff_of_false (fun h => by cases h) fun h => h.1 (.inl hSpecial)
  · rw [if_neg fun h => hSpecial ((special_iff _).mp h)]
    dsimp only
    rw [hNeed, or_iff_right hSpecial, List.take_length]
    split
    · next hLong => exact iff_of_false (fun h => by cases h) fun h => h.1 hLong
    · next hFits =>
        rw [and_iff_right hFits, Option.some.injEq, Prod.mk.injEq, eq_comm, @eq_comm _ part.content]

/-- An upload lands in its directory under its whole name exactly when this name
holds no NUL, or when nothing is written. -/
theorem upload_inside_iff (part : MultipartPart) (dir : Bytes) (outSz : Nat) :
    (∀ path data, multipartSave part dir outSz = some (path, data) →
      Inside dir (lastComponent part.filename) outSz path) ↔
      0 ∉ lastComponent part.filename ∨ Refused dir (lastComponent part.filename) outSz := by
  simp only [multipartSave_eq_some_iff]
  generalize lastComponent part.filename = name
  have hFront : 0 ∉ svFromCstr dir ++ dirSlash (svFromCstr dir) := by
    rw [List.mem_append, not_or, dirSlash]
    refine ⟨not_mem_svFromCstr dir, ?_⟩
    split
    · decide
    · exact List.not_mem_nil
  have hPath : svFromCstr (svFromCstr dir ++ dirSlash (svFromCstr dir) ++ name ++ [0]) =
      svFromCstr dir ++ dirSlash (svFromCstr dir) ++ svFromCstr (name ++ [0]) := by
    rw [List.append_assoc, svFromCstr_append hFront]
  by_cases hRefused : Refused dir name outSz
  · exact iff_of_true (fun _ _ h => absurd hRefused h.1) (.inr hRefused)
  rw [or_iff_left hRefused]
  constructor
  · intro h
    have hWhole := (h _ _ ⟨hRefused, rfl, rfl⟩).whole
    rw [hPath, List.append_cancel_left_eq] at hWhole
    rw [← hWhole]
    exact not_mem_svFromCstr _
  · rintro hZero path data ⟨-, rfl, -⟩
    refine ⟨?_, ?_, ?_⟩
    · rw [hPath, svFromCstr_append hZero]
      exact congrArg _ (List.append_nil name)
    · rw [svFromCstr_of_not_mem hZero]
      exact fun h => hRefused (.inl h)
    · rw [List.length_append]
      exact Nat.le_of_not_lt fun h => hRefused (.inr h)

/-- The check sees seven bytes, the file system two dots. -/
theorem upload_cut_short : ∃ path data,
    multipartSave ⟨ascii "f", ascii ".." ++ [0] ++ ascii ".png", ascii "x"⟩ (ascii "up") 64 = some
      (path, data) ∧
      svFromCstr path = ascii "up/.." ∧
        ¬Inside (ascii "up") (lastComponent (ascii ".." ++ [0] ++ ascii ".png")) 64 path := by
  refine ⟨ascii "up/.." ++ [0] ++ ascii ".png" ++ [0], ascii "x", by decide +kernel, by decide +kernel, ?_⟩
  intro h
  exact absurd h.whole (by decide +kernel)

end Cweb.Multipart
