import Cweb.Http.Multipart

/-!
# Multipart bodies, written and read back

A form is written as multipart/form-data: each part behind a delimiter, with its
name and filename quoted in a Content-Disposition line. The parser cuts that line
at every semicolon, also at those between quotes.
-/

namespace Cweb.Multipart

open Sv FirstMatch

/-! ## Writing a form -/

/-- A field of a form, or a file with what it is. -/
structure FormPart where
  name : Bytes
  filename : Option Bytes
  contentType : Option Bytes
  content : Bytes

def quoted (s : Bytes) : Bytes := 34 :: (s ++ [34])

def parameter (key value : Bytes) : Bytes := 32 :: (key ++ 61 :: quoted value)

def dispositionOf (p : FormPart) : Bytes :=
  ascii "form-data" ++
    59 :: (parameter (ascii "name") p.name ++ p.filename.elim [] fun f =>
      59 :: parameter (ascii "filename") f)

def headOf (p : FormPart) : Bytes :=
  ascii "Content-Disposition: " ++ dispositionOf p ++ p.contentType.elim [] fun t => ascii "\r\n" ++
    (ascii "Content-Type: " ++ t)

/-- Two bytes behind a boundary say whether a part follows. -/
def afterBoundary : List FormPart → Bytes
  | [] => ascii "--"
  | _ :: _ => ascii "\r\n"

def behindBoundary (boundary : Bytes) : List FormPart → Bytes
  | [] => ascii "--" ++ ascii "\r\n"
  | p :: ps => ascii "\r\n" ++
    (headOf p ++
    (ascii "\r\n\r\n" ++ (p.content ++ (ascii "\r\n--" ++ boundary ++ behindBoundary boundary ps))))

def formData (boundary : Bytes) (parts : List FormPart) : Bytes :=
  ascii "--" ++ boundary ++ behindBoundary boundary parts

/-- What can stand between quotes as it is. -/
def Quotable (s : Bytes) : Prop := 34 ∉ s ∧ 13 ∉ s ∧ 10 ∉ s

instance (s : Bytes) : Decidable (Quotable s) := inferInstanceAs (Decidable (34 ∉ s ∧ 13 ∉ s ∧ 10 ∉ s))

structure FormPart.Writable (p : FormPart) : Prop where
  name : Quotable p.name
  filename : ∀ f ∈ p.filename, Quotable f
  contentType : ∀ t ∈ p.contentType, 13 ∉ t ∧ 10 ∉ t

/-- In each content with its closing delimiter the first delimiter is the
closing one. -/
def Unambiguous (boundary : Bytes) : List FormPart → Prop
  | [] => True
  | p :: ps => (∀ i < p.content.length,
      delimiterAt (p.content ++ (ascii "\r\n--" ++ boundary ++ afterBoundary ps)) boundary i = false) ∧
      Unambiguous boundary ps

def parsedPart (p : FormPart) : MultipartPart := ⟨p.name, p.filename.getD [], p.content⟩

/-! ## The searches in what was written -/

theorem isPrefixOf_append {text s : Bytes} (h : text.length ≤ s.length) (t : Bytes) :
    text.isPrefixOf (s ++ t) = text.isPrefixOf s := by
  rw [Bool.eq_iff_iff, List.isPrefixOf_iff_prefix, List.isPrefixOf_iff_prefix]
  exact ⟨fun hText => List.prefix_of_prefix_length_le hText (List.prefix_append s t) h, fun hText =>
    hText.trans (List.prefix_append s t)⟩

theorem isPrefixOf_self_append (text t : Bytes) : text.isPrefixOf (text ++ t) = true :=
  List.isPrefixOf_iff_prefix.mpr (List.prefix_append text t)

theorem blankLineAt_behind (pre s : Bytes) (k : Nat) :
    blankLineAt (pre ++ s) (pre.length + k) = blankLineAt s k := by
  rw [blankLineAt, blankLineAt, List.drop_length_add_append]

theorem delimiterAt_behind (pre s boundary : Bytes) (k : Nat) :
    delimiterAt (pre ++ s) boundary (pre.length + k) = delimiterAt s boundary k := by
  rw [delimiterAt, delimiterAt, Nat.add_assoc, List.drop_length_add_append, List.drop_length_add_append]

theorem delimiterAt_append {s boundary : Bytes} {k : Nat} (h : k + boundary.length + 6 ≤ s.length)
    (t : Bytes) :
    delimiterAt (s ++ t) boundary k = delimiterAt s boundary k := by
  have hMark : (ascii "\r\n--" ++ boundary).length = 4 + boundary.length := List.length_append
  have hCrlf : (ascii "\r\n").length = 2 := rfl
  have hDashes : (ascii "--").length = 2 := rfl
  rw [delimiterAt, delimiterAt, List.drop_append_of_le_length (by omega),
    List.drop_append_of_le_length (by omega),
    isPrefixOf_append (by rw [List.length_drop]; omega), isPrefixOf_append (by rw [List.length_drop]; omega),
    isPrefixOf_append (by rw [List.length_drop]; omega)]

theorem findDelimiter_content {boundary content after : Bytes}
    (hAfter : after = ascii "\r\n" ∨ after = ascii "--")
    (hClear : ∀ i < content.length,
      delimiterAt (content ++ (ascii "\r\n--" ++ boundary ++ after)) boundary i = false) (pre rest : Bytes) :
    findDelimiter (pre ++ (content ++ (ascii "\r\n--" ++ boundary ++ (after ++ rest)))) pre.length boundary =
      some (pre.length + content.length + 2) := by
  have hLength : after.length = 2 := by rcases hAfter with rfl | rfl <;> rfl
  have hSame : content ++ (ascii "\r\n--" ++ boundary ++ (after ++ rest)) =
    (content ++ (ascii "\r\n--" ++ boundary ++ after)) ++ rest := by
    simp only [List.append_assoc]
  have hHere : delimiterAt
    (content ++ (ascii "\r\n--" ++ boundary ++ (after ++ rest))) boundary content.length = true := by
    have hNext : (content ++ (ascii "\r\n--" ++ boundary ++ (after ++ rest))).drop
      (content.length + (ascii "\r\n--" ++ boundary).length) =
        after ++ rest := by
      rw [List.drop_length_add_append, List.drop_left]
    rw [delimiterAt, List.drop_left, isPrefixOf_self_append, hNext, Bool.true_and, Bool.or_eq_true]
    rcases hAfter with rfl | rfl
    · exact .inl (isPrefixOf_self_append _ _)
    · exact .inr (isPrefixOf_self_append _ _)
  obtain ⟨r, hFind, hFirst⟩ :=
    findDelimiter_first (pre ++ (content ++ (ascii "\r\n--" ++ boundary ++ (after ++ rest)))) pre.length
    boundary
  have hContent : First (fun i => pre.length ≤ i ∧
      delimiterAt (pre ++ (content ++ (ascii "\r\n--" ++ boundary ++ (after ++ rest)))) boundary i =
      true) (some (pre.length + content.length)) := by
    refine ⟨⟨Nat.le_add_right _ _, by rw [delimiterAt_behind, hHere]⟩, ?_⟩
    rintro i hi ⟨hLe, hMatch⟩
    obtain ⟨k, rfl⟩ := Nat.exists_eq_add_of_le hLe
    have hk : k < content.length := by omega
    rw [delimiterAt_behind, hSame, delimiterAt_append, hClear k hk] at hMatch
    · cases hMatch
    · simp only [List.length_append, hLength]
      change k + boundary.length + 6 ≤ content.length + (4 + boundary.length + 2)
      omega
  rw [hFind, First.unique hFirst hContent]
  rfl

theorem not_blankLineAt_line {text rest : Bytes} (h : 13 ∉ text) {i : Nat} (hi : i < text.length) :
    blankLineAt (text ++ rest) i = false := by
  rw [blankLineAt, List.drop_append_of_le_length (Nat.le_of_lt hi), List.drop_eq_getElem_cons hi,
    List.cons_append]
  have hNe : (13 == text[i]) = false := beq_eq_false_iff_ne.mpr fun hEq => h (hEq ▸ List.getElem_mem hi)
  change (13 == text[i] && _) = false
  rw [hNe, Bool.false_and]

theorem length_line {line rest : Bytes} (h : 13 ∉ line) {i : Nat}
    (hBlank : blankLineAt (line ++ rest) i = true) : line.length ≤ i := by
  refine Nat.le_of_not_lt fun hi => ?_
  rw [not_blankLineAt_line h hi] at hBlank
  cases hBlank

theorem not_mem_dispositionOf {p : FormPart} {b : UInt8} (hb : b = 13 ∨ b = 10) (hName : b ∉ p.name)
    (hFilename : ∀ f ∈ p.filename, b ∉ f) :
    b ∉ ascii "Content-Disposition: " ++ dispositionOf p := by
  have hParameter : ∀ key, b ∉ key → ∀ value, b ∉ value → b ∉ parameter key value := by
    intro key hKey value hValue
    simp only [parameter, quoted, List.mem_cons, List.mem_append, List.not_mem_nil, or_false, not_or]
    rcases hb with rfl | rfl
    · exact ⟨by decide, hKey, by decide, by decide, hValue, by decide⟩
    · exact ⟨by decide, hKey, by decide, by decide, hValue, by decide⟩
  have hFirst : b ∉ ascii "name" ∧ b ∉ ascii "filename" ∧ b ∉ ascii "form-data" ∧
    b ∉ ascii "Content-Disposition: " ∧ b ≠ 59 := by
    rcases hb with rfl | rfl <;> decide
  obtain ⟨hNameKey, hFileKey, hForm, hKey, hSemi⟩ := hFirst
  rw [dispositionOf, List.mem_append, List.mem_append, List.mem_cons, List.mem_append]
  rintro (h | h | h | h | h)
  · exact hKey h
  · exact hForm h
  · exact hSemi h
  · exact hParameter _ hNameKey _ hName h
  · cases hFile : p.filename with
    | none =>
      rw [hFile] at h
      cases h
    | some f =>
      rw [hFile] at h
      rcases List.mem_cons.mp h with h | h
      · exact hSemi h
      · exact hParameter _ hFileKey _ (hFilename f hFile) h

theorem findBlankLine_head {p : FormPart} (hp : p.Writable) (pre rest : Bytes) :
    findBlankLine (pre ++ (headOf p ++ (ascii "\r\n\r\n" ++ rest))) pre.length = some
      (pre.length + (headOf p).length) := by
  have hLine : 13 ∉ ascii "Content-Disposition: " ++ dispositionOf p :=
    not_mem_dispositionOf (.inl rfl) hp.name.2.1 fun f hf => (hp.filename f hf).2.1
  refine First.unique (findBlankLine_first _ _) ⟨⟨Nat.le_add_right _ _, ?_⟩, ?_⟩
  · rw [blankLineAt_behind, blankLineAt, List.drop_left, isPrefixOf_self_append]
  rintro i hi ⟨hLe, hBlank⟩
  obtain ⟨k, rfl⟩ := Nat.exists_eq_add_of_le hLe
  rw [blankLineAt_behind] at hBlank
  have hk : k < (headOf p).length := by omega
  cases hType : p.contentType with
  | none =>
    rw [headOf, hType] at hBlank hk
    exact absurd hk (Nat.not_lt.mpr (length_line (by simpa using hLine) hBlank))
  | some t =>
    rw [headOf, hType] at hBlank hk
    change k < ((ascii "Content-Disposition: " ++ dispositionOf p) ++
      (ascii "\r\n" ++ (ascii "Content-Type: " ++ t))).length at hk
    change blankLineAt
      ((ascii "Content-Disposition: " ++ dispositionOf p ++
          (ascii "\r\n" ++ (ascii "Content-Type: " ++ t))) ++
      (ascii "\r\n\r\n" ++ rest)) k = true at hBlank
    generalize ascii "Content-Disposition: " ++ dispositionOf p = line at hLine hBlank hk
    have hTypeLine : 13 ∉ ascii "Content-Type: " ++ t := by
      rw [List.mem_append, not_or]
      exact ⟨by decide, (hp.contentType t hType).1⟩
    rw [List.append_assoc, List.append_assoc] at hBlank
    obtain ⟨j, rfl⟩ := Nat.exists_eq_add_of_le (length_line hLine hBlank)
    rw [blankLineAt_behind] at hBlank
    -- a CRLF is in front of the second line, and the line is not empty
    rcases j with _ | _ | j
    · cases hBlank
    · cases hBlank
    · have hTwo : j + 1 + 1 = (ascii "\r\n").length + j := Nat.add_comm j 2
      rw [hTwo, blankLineAt_behind] at hBlank
      have hBehind := length_line hTypeLine hBlank
      rw [List.length_append, List.length_append] at hk
      change line.length + (j + 2) < line.length + (2 + _) at hk
      omega

/-! ## The parts, one after the other -/

theorem behindBoundary_after (boundary : Bytes) (ps : List FormPart) :
    ∃ rest, behindBoundary boundary ps = afterBoundary ps ++ rest := by
  cases ps with
  | nil => exact ⟨_, rfl⟩
  | cons p ps => exact ⟨_, rfl⟩

theorem afterBoundary_cases (ps : List FormPart) : afterBoundary ps = ascii "\r\n" ∨
    afterBoundary ps = ascii "--" := by
  cases ps with
  | nil => exact .inr rfl
  | cons p ps => exact .inl rfl

theorem multipartLoop_behindBoundary {boundary : Bytes} (parts : List FormPart) : ∀ (pre : Bytes)
    (fuel : Nat), parts.length < fuel →
    (∀ p ∈ parts, p.Writable) → Unambiguous boundary parts →
    multipartLoop (pre ++ behindBoundary boundary parts) boundary fuel pre.length =
      some (parts.map fun p =>
        ⟨(parsePartHeaders (headOf p)).1, (parsePartHeaders (headOf p)).2, p.content⟩) := by
  induction parts with
  | nil =>
    intro pre fuel hFuel _ _
    obtain ⟨fuel, rfl⟩ := Nat.exists_eq_succ_of_ne_zero (Nat.ne_of_gt hFuel)
    rw [multipartLoop, List.drop_left, behindBoundary, isPrefixOf_self_append, if_pos rfl, List.map_nil]
  | cons p ps ih =>
    intro pre fuel hFuel hWritable hClear
    obtain ⟨fuel, rfl⟩ := Nat.exists_eq_succ_of_ne_zero (Nat.ne_of_gt (Nat.zero_lt_of_lt hFuel))
    have hp := hWritable p List.mem_cons_self
    obtain ⟨rest, hRest⟩ := behindBoundary_after boundary ps
    obtain ⟨body, hBody⟩ : ∃ body, pre ++ behindBoundary boundary (p :: ps) = body := ⟨_, rfl⟩
    obtain ⟨pre₁, hPre₁⟩ : ∃ pre₁, pre ++ ascii "\r\n" = pre₁ := ⟨_, rfl⟩
    obtain ⟨pre₂, hPre₂⟩ : ∃ pre₂, pre₁ ++ (headOf p ++ ascii "\r\n\r\n") = pre₂ := ⟨_, rfl⟩
    obtain ⟨pre₃, hPre₃⟩ : ∃ pre₃, pre₂ ++ (p.content ++ (ascii "\r\n--" ++ boundary)) = pre₃ := ⟨_, rfl⟩
    have hBody₁ : body = pre₁ ++
      (headOf p ++
      (ascii "\r\n\r\n" ++ (p.content ++ (ascii "\r\n--" ++ boundary ++ behindBoundary boundary ps)))) := by
      simp only [← hBody, ← hPre₁, behindBoundary, List.append_assoc]
    have hBody₂ : body = pre₂ ++
      (p.content ++ (ascii "\r\n--" ++ boundary ++ behindBoundary boundary ps)) := by
      simp only [hBody₁, ← hPre₂, List.append_assoc]
    have hBody₃ : body = pre₃ ++ behindBoundary boundary ps := by
      simp only [hBody₂, ← hPre₃, List.append_assoc]
    have hLength₁ : pre₁.length = pre.length + 2 := by rw [← hPre₁, List.length_append]; rfl
    have hLength₂ : pre₂.length = pre₁.length + (headOf p).length + 4 := by
      rw [← hPre₂, List.length_append, List.length_append]; rfl
    have hLength₃ : pre₃.length = pre₂.length + p.content.length + 2 + 2 + boundary.length := by
      simp only [← hPre₃, List.length_append, ← Nat.add_assoc]
      rfl
    have hOpens : body.drop pre.length = ascii "\r\n" ++ body.drop pre₁.length := by
      rw [hBody₁, List.drop_left, ← hPre₁, List.append_assoc, List.drop_left]
    have hHead : findBlankLine body pre₁.length = some (pre₁.length + (headOf p).length) :=
      hBody₁ ▸ findBlankLine_head hp pre₁ _
    have hBlock : (body.drop pre₁.length).take (headOf p).length = headOf p := by
      rw [hBody₁, List.drop_left, List.take_left]
    have hContent : findDelimiter body pre₂.length boundary = some (pre₂.length + p.content.length + 2) := by
      rw [hBody₂, hRest]
      exact findDelimiter_content (afterBoundary_cases ps) hClear.1 pre₂ rest
    have hData : (body.drop pre₂.length).take p.content.length = p.content := by
      rw [hBody₂, List.drop_left, List.take_left]
    have hTail :=
      ih pre₃ fuel (Nat.lt_of_succ_lt_succ hFuel)
        (fun q hq => hWritable q (List.mem_cons_of_mem _ hq)) hClear.2
    rw [← hBody₃, hLength₃] at hTail
    have hDashes : (ascii "--").isPrefixOf (ascii "\r\n" ++ body.drop pre₁.length) = false := rfl
    rw [hBody, multipartLoop, hOpens, hDashes, if_neg Bool.false_ne_true, isPrefixOf_self_append,
      if_neg (not_not.mpr rfl), ← hLength₁, hHead]
    dsimp only
    rw [Nat.add_sub_cancel_left, hBlock, ← hLength₂, hContent]
    dsimp only
    rw [hTail, Nat.add_sub_cancel, Nat.add_sub_cancel_left, hData, Option.map_some, List.map_cons]

/-! ## The head of a part -/

/-- One parameter of a Content-Disposition value. -/
def dispositionParam (names : Bytes × Bytes) (param : Bytes) : Bytes × Bytes :=
  let key := svTrim (svChopByDelim 61 (svTrim param)).1
  let val := unquote (svTrim (svChopByDelim 61 (svTrim param)).2)
  if key = ascii "name" then (val, names.2) else if key = ascii "filename" then (names.1, val) else names

def partLine (names : Bytes × Bytes) (line : Bytes) : Bytes × Bytes :=
  let key := svTrimRight ((svTrim line).takeWhile (· ≠ 58))
  if 58 ∈ svTrim line ∧ svFromCstr ((key.take 255).map tolower) = ascii "content-disposition" then
    parseDisposition (svTrim (((svTrim line).dropWhile (· ≠ 58)).drop 1))
  else names

theorem parseDisposition_eq (value : Bytes) :
    parseDisposition value = ((svSplit 59 value).drop 1).foldl dispositionParam ([], []) := rfl

theorem parsePartHeaders_eq (block : Bytes) :
    parsePartHeaders block = (svSplit 10 block).foldl partLine ([], []) := rfl

theorem getLast?_quoted (s : Bytes) : (quoted s).getLast? = some 34 := by
  rw [quoted, ← List.cons_append, List.getLast?_concat]

theorem unquote_quoted (s : Bytes) : unquote (quoted s) = s := by
  have hLong : 2 ≤ (quoted s).length := by simp [quoted]
  rw [unquote, if_pos ⟨hLong, rfl⟩, quoted, List.drop_one, List.tail_cons, List.dropLast_concat]

theorem svTrim_quoted (s : Bytes) : svTrim (quoted s) = quoted s := by
  refine svTrim_eq_self ?_ ?_
  · rintro b ⟨⟩
    decide
  · rw [getLast?_quoted]
    rintro b ⟨⟩
    decide

theorem svTrim_parameter {key : Bytes} (hSome : key ≠ []) (hSolid : ∀ b ∈ key, isspace b = false)
    (value : Bytes) :
    svTrim (parameter key value) = key ++ 61 :: quoted value := by
  rw [parameter, svTrim_blank]
  refine svTrim_eq_self ?_ ?_
  · intro b hb
    rw [List.head?_append_of_ne_nil _ hSome] at hb
    exact hSolid b (List.mem_of_mem_head? hb)
  · rw [List.getLast?_append_cons, List.getLast?_cons, getLast?_quoted]
    rintro b ⟨⟩
    decide

theorem dispositionParam_parameter {key : Bytes} (hSome : key ≠ [])
    (hSolid : ∀ b ∈ key, isspace b = false) (hKey : 61 ∉ key)
    (names : Bytes × Bytes) (value : Bytes) : dispositionParam names (parameter key value) =
      if key = ascii "name" then (value, names.2) else if key = ascii "filename" then (names.1, value)
        else names := by
  rw [dispositionParam, svTrim_parameter hSome hSolid, svChopByDelim_append 61 key _ hKey]
  dsimp only
  rw [svTrim_solid hSolid, svTrim_quoted, unquote_quoted]

theorem parameter_ne_nil (key value : Bytes) : parameter key value ≠ [] := List.cons_ne_nil _ _

theorem not_mem_parameter {key value : Bytes} (hKey : 59 ∉ key) (hValue : 59 ∉ value) :
    59 ∉ parameter key value := by
  simp only [parameter, quoted, List.mem_cons, List.mem_append, List.not_mem_nil, or_false, not_or]
  exact ⟨by decide, hKey, by decide, by decide, hValue, by decide⟩

theorem parseDisposition_dispositionOf {p : FormPart} (hName : 59 ∉ p.name)
    (hFilename : 59 ∉ p.filename.getD []) :
    parseDisposition (dispositionOf p) = (p.name, p.filename.getD []) := by
  have hFirst : 59 ∉ parameter (ascii "name") p.name := not_mem_parameter (by decide) hName
  have hNameParam : ∀ names : Bytes × Bytes, dispositionParam names (parameter (ascii "name") p.name) =
    (p.name, names.2) := fun names =>
    (dispositionParam_parameter (by decide +kernel) (by decide +kernel) (by decide) names p.name).trans
      (if_pos rfl)
  rw [parseDisposition_eq, dispositionOf, svSplit_line (by decide)]
  cases hFile : p.filename with
  | none =>
    rw [Option.elim_none, List.append_nil, svSplit_last hFirst (parameter_ne_nil _ _), List.drop_one,
      List.tail_cons, List.foldl_cons,
      hNameParam, List.foldl_nil]
    rfl
  | some f =>
    rw [hFile] at hFilename
    have hSecond : 59 ∉ parameter (ascii "filename") f := not_mem_parameter (by decide) hFilename
    rw [Option.elim_some, svSplit_line hFirst, svSplit_last hSecond (parameter_ne_nil _ _),
      List.drop_one, List.tail_cons, List.foldl_cons,
      hNameParam, List.foldl_cons, dispositionParam_parameter (by decide +kernel) (by decide +kernel)
        (by decide), if_neg (by decide), if_pos rfl, List.foldl_nil]
    rfl

theorem not_mem_parseDisposition (value : Bytes) : 59 ∉ (parseDisposition value).1 ∧
    59 ∉ (parseDisposition value).2 := by
  have hParam : ∀ param : Bytes, 59 ∉ param → 59 ∉ unquote (svTrim (svChopByDelim 61 (svTrim param)).2) := by
    intro param hNot hMem
    have hValue : 59 ∈ svTrim (svChopByDelim 61 (svTrim param)).2 := by
      rw [unquote] at hMem
      split at hMem
      · exact List.drop_subset 1 _ (List.dropLast_subset _ hMem)
      · exact hMem
    exact hNot (svTrim_subset ((svChopByDelim_subset 61 _).2 _ (svTrim_subset hValue)))
  have hFold : ∀ (params : List Bytes) (names : Bytes × Bytes), (∀ param ∈ params, 59 ∉ param) →
    59 ∉ names.1 ∧ 59 ∉ names.2 →
      59 ∉ (params.foldl dispositionParam names).1 ∧ 59 ∉ (params.foldl dispositionParam names).2 := by
    intro params
    induction params with
    | nil => exact fun _ _ h => h
    | cons param params ih =>
      intro names hParams hNames
      have hHere := hParam param (hParams param List.mem_cons_self)
      refine ih _ (fun q hq => hParams q (List.mem_cons_of_mem _ hq)) ?_
      rw [dispositionParam]
      split
      · exact ⟨hHere, hNames.2⟩
      · split
        · exact ⟨hNames.1, hHere⟩
        · exact hNames
  rw [parseDisposition_eq]
  exact hFold _ _ (fun param h => not_mem_svSplit (List.drop_subset 1 _ h))
    ⟨List.not_mem_nil, List.not_mem_nil⟩

theorem dispositionOf_ends (p : FormPart) : ∃ front, dispositionOf p = front ++ [34] := by
  rw [dispositionOf]
  cases p.filename with
  | none => exact ⟨ascii "form-data" ++ 59 :: 32 :: (ascii "name" ++ 61 :: 34 :: p.name), by
    simp [parameter, quoted]⟩
  | some f =>
    exact ⟨ascii "form-data" ++
      59 :: (parameter (ascii "name") p.name ++ 59 :: 32 :: (ascii "filename" ++ 61 :: 34 :: f)),
      by simp [parameter, quoted]⟩

theorem svTrim_dispositionLine (p : FormPart) : svTrim (ascii "Content-Disposition: " ++ dispositionOf p) =
    ascii "Content-Disposition" ++ 58 :: 32 :: dispositionOf p := by
  obtain ⟨front, hFront⟩ := dispositionOf_ends p
  refine svTrim_eq_self ?_ ?_
  · rintro b ⟨⟩
    decide
  · rw [hFront, ← List.append_assoc, List.getLast?_concat]
    rintro b ⟨⟩
    decide

theorem svTrim_dispositionOf (p : FormPart) : svTrim (dispositionOf p) = dispositionOf p := by
  obtain ⟨front, hFront⟩ := dispositionOf_ends p
  refine svTrim_eq_self ?_ ?_
  · rintro b ⟨⟩
    decide
  · rw [hFront, List.getLast?_concat]
    rintro b ⟨⟩
    decide

theorem partLine_disposition {line : Bytes} {p : FormPart}
    (h : svTrim line = ascii "Content-Disposition" ++ 58 :: 32 :: dispositionOf p)
    (names : Bytes × Bytes) : partLine names line = parseDisposition (dispositionOf p) := by
  have hKey : (ascii "Content-Disposition" ++ 58 :: 32 :: dispositionOf p).takeWhile (· ≠ 58) =
    ascii "Content-Disposition" := rfl
  have hValue : (ascii "Content-Disposition" ++ 58 :: 32 :: dispositionOf p).dropWhile (· ≠ 58) =
    58 :: 32 :: dispositionOf p := rfl
  rw [partLine, h, hKey, hValue, if_pos ⟨List.mem_append_right _ List.mem_cons_self, by decide +kernel⟩,
    List.drop_one, List.tail_cons, svTrim_blank, svTrim_dispositionOf]

/-- The right end of a text is trimmed no further than to the last byte that is
not blank. -/
theorem svTrimRight_append_cases {s : Bytes} (hs : svTrimRight s = s) (t : Bytes) :
    ∃ rest, svTrimRight (s ++ t) = s ++ rest := by
  by_cases ht : ∀ b ∈ t, isspace b = true
  · exact ⟨[], by rw [svTrimRight_append_blank ht, hs, List.append_nil]⟩
  · exact ⟨svTrimRight t, svTrimRight_append ht s⟩

theorem partLine_contentType (names : Bytes × Bytes) (t : Bytes) :
    partLine names (ascii "Content-Type: " ++ t) = names := by
  obtain ⟨rest, hRest⟩ := @svTrimRight_append_cases (ascii "Content-Type:") (by decide) (32 :: t)
  have hTrim : svTrim (ascii "Content-Type: " ++ t) = ascii "Content-Type:" ++ rest := hRest
  have hKey : (ascii "Content-Type:" ++ rest).takeWhile (· ≠ 58) = ascii "Content-Type" := rfl
  rw [partLine, hTrim, hKey]
  exact if_neg fun h => absurd h.2 (by decide +kernel)

theorem parsePartHeaders_headOf {p : FormPart} (hp : p.Writable) :
    parsePartHeaders (headOf p) = parseDisposition (dispositionOf p) := by
  have hLine : 10 ∉ ascii "Content-Disposition: " ++ dispositionOf p :=
    not_mem_dispositionOf (.inr rfl) hp.name.2.2 fun f hf => (hp.filename f hf).2.2
  rw [parsePartHeaders_eq, headOf]
  cases hType : p.contentType with
  | none =>
    rw [Option.elim_none, List.append_nil, svSplit_last hLine (List.cons_ne_nil _ _), List.foldl_cons,
      List.foldl_nil]
    exact partLine_disposition (svTrim_dispositionLine p) _
  | some t =>
    have hFirst : 10 ∉ ascii "Content-Disposition: " ++ dispositionOf p ++ [13] := by
      rw [List.mem_append, not_or]
      exact ⟨hLine, by decide⟩
    have hSecond : 10 ∉ ascii "Content-Type: " ++ t := by
      rw [List.mem_append, not_or]
      exact ⟨by decide, (hp.contentType t hType).2⟩
    have hLines : ascii "Content-Disposition: " ++ dispositionOf p ++
      (ascii "\r\n" ++ (ascii "Content-Type: " ++ t)) =
        (ascii "Content-Disposition: " ++ dispositionOf p ++ [13]) ++
        10 :: (ascii "Content-Type: " ++ t) := by
      rw [List.append_assoc _ [13]]
      rfl
    rw [Option.elim_some, hLines, svSplit_line hFirst, svSplit_last hSecond (List.cons_ne_nil _ _),
      List.foldl_cons, List.foldl_cons,
      List.foldl_nil, partLine_contentType]
    exact partLine_disposition ((svTrim_cr _).trans (svTrim_dispositionLine p)) _

/-! ## Round trip -/

theorem parts_le_length (boundary : Bytes) (parts : List FormPart) :
    parts.length ≤ (behindBoundary boundary parts).length := by
  induction parts with
  | nil => exact Nat.zero_le _
  | cons p ps ih =>
    simp only [behindBoundary, List.length_append, List.length_cons]
    change ps.length + 1 ≤ 2 + _
    omega

theorem multipartParse_formData {boundary : Bytes} (hSome : boundary ≠ [])
    (hLong : boundary.length ≤ multipartMaxBoundary)
    {parts : List FormPart} (hWritable : ∀ p ∈ parts, p.Writable) (hClear : Unambiguous boundary parts) :
    multipartParse (formData boundary parts) boundary = some (parts.map fun p =>
      ⟨(parseDisposition (dispositionOf p)).1, (parseDisposition (dispositionOf p)).2, p.content⟩) := by
  have hLength : (ascii "--" ++ boundary).length = 2 + boundary.length := List.length_append
  have hFuel : parts.length < (formData boundary parts).length + 1 := by
    rw [formData, List.length_append]
    have hLe := parts_le_length boundary parts
    omega
  have hLoop := multipartLoop_behindBoundary parts (ascii "--" ++ boundary) _ hFuel hWritable hClear
  have hName : ¬(boundary = [] ∨ multipartMaxBoundary < boundary.length) :=
    not_or.mpr ⟨hSome, Nat.not_lt.mpr hLong⟩
  rw [multipartParse, if_neg hName, formData, isPrefixOf_self_append, if_neg (not_not.mpr rfl), ← hLength]
  refine hLoop.trans (congrArg some (List.map_congr_left fun p hp => ?_))
  rw [parsePartHeaders_headOf (hWritable p hp)]

/-- A form that was written is read back exactly when no name and no filename
holds a semicolon. -/
theorem multipart_round_trip_iff {boundary : Bytes} (hSome : boundary ≠ [])
    (hLong : boundary.length ≤ multipartMaxBoundary)
    {parts : List FormPart} (hWritable : ∀ p ∈ parts, p.Writable) (hClear : Unambiguous boundary parts) :
    multipartParse (formData boundary parts) boundary = some (parts.map parsedPart) ↔
      ∀ p ∈ parts, 59 ∉ p.name ∧ 59 ∉ p.filename.getD [] := by
  rw [multipartParse_formData hSome hLong hWritable hClear, Option.some.injEq, List.map_inj_left]
  refine forall₂_congr fun p _ => ?_
  constructor
  · intro hSame
    obtain ⟨hName, hFilename, -⟩ := MultipartPart.mk.inj hSame
    obtain ⟨hFirst, hSecond⟩ := not_mem_parseDisposition (dispositionOf p)
    exact ⟨hName ▸ hFirst, hFilename ▸ hSecond⟩
  · rintro ⟨hName, hFilename⟩
    rw [parseDisposition_dispositionOf hName hFilename]
    rfl

/-- A field with a near miss of the boundary in it, and an empty file. -/
theorem multipart_round_trip_example :
    multipartParse
      (formData (ascii "B") [⟨ascii "a=b", none, none, ascii "x\r\n--Bx\r\n"⟩,
        ⟨ascii "f", some (ascii "p q.png"), some (ascii "image/png"), []⟩])
      (ascii "B") = some [⟨ascii "a=b", [], ascii "x\r\n--Bx\r\n"⟩, ⟨ascii "f", ascii "p q.png", []⟩] := by
  refine (@multipart_round_trip_iff (ascii "B") (by decide) (by decide)
    [⟨ascii "a=b", none, none, ascii "x\r\n--Bx\r\n"⟩,
    ⟨ascii "f", some (ascii "p q.png"), some (ascii "image/png"), []⟩] ?_ ?_).mpr (by decide +kernel)
  · intro p hp
    simp only [List.mem_cons, List.not_mem_nil, or_false] at hp
    rcases hp with rfl | rfl
    · exact ⟨by decide, nofun, nofun⟩
    · exact ⟨by decide, by decide, by decide⟩
  · exact ⟨by decide +kernel, by decide +kernel, trivial⟩

/-- A filename is cut at its semicolon, and loses one more byte to the quote
that is missing there. -/
theorem multipart_cut_filename : ∃ p : FormPart, p.Writable ∧ Unambiguous (ascii "B") [p] ∧
    parsedPart p = ⟨ascii "f", ascii "photo;1.png", ascii "x"⟩ ∧
    multipartParse (formData (ascii "B") [p]) (ascii "B") = some [⟨ascii "f", ascii "phot", ascii "x"⟩] := by
  refine ⟨⟨ascii "f", some (ascii "photo;1.png"), none, ascii "x"⟩, ?_, ?_, rfl, by decide +kernel⟩
  · exact ⟨by decide, by decide, nofun⟩
  · exact ⟨by decide +kernel, trivial⟩

end Cweb.Multipart
