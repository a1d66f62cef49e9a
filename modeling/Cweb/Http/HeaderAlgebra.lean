import Mathlib.Data.List.Find
import Cweb.Http.Etag
import Cweb.Http.RequestCut
import Cweb.Http.ResponseHead
import Cweb.Lib.ChunkGrammar

/-!
# The calls that set and read headers

The headers of a response are one text. Setting a field copies the lines of other
names and puts a line behind them, three scanners look for a name, and each walks
from one newline to the next on its own. On a text that was built by the calls they
see the same lines.
-/

namespace Cweb

open Sv
open Etag (httpResponseGetHeader)
open ChunkGrammar (IsToken isTchar)

/-! ## The scanners, byte by byte -/

def lineAt (text : Bytes) : Bytes := text.takeWhile (· ≠ 10)

/-- Visits what is left of the text from each line on, while that is more than the bound. -/
def scanLines (bound : Nat) (visit : Bytes → Option α) : Nat → Bytes → Option α
  | 0, _ => none
  | fuel + 1, text =>
    if ¬ bound < text.length then none
    else
      match visit text with
      | some a => some a
      | none => scanLines bound visit fuel (text.drop ((lineAt text).length + 1))

/-- The name and a colon stand at the front, and before the end of the line. -/
def namedHere (name text : Bytes) : Bool := name.length ≤ (lineAt text).length && lineNamed name text

def responseHasHeader (headers name : Bytes) : Bool :=
  (scanLines name.length (fun text => if namedHere name text then some ()
    else none) headers.length headers).isSome

def getHeaderScan (headers name : Bytes) : Option Bytes :=
  scanLines name.length (fun text =>
    if namedHere name text then
      let value := ((lineAt text).drop (name.length + 1)).dropWhile fun b => b == 32 || b == 9
      some (svFromCstr (value.rdropWhile fun b => b == 32 || b == 9 || b == 13))
    else none) headers.length headers

/-- Here the name ends at the first colon of the line. -/
def hasHeaderScan (headers name : Bytes) : Bool :=
  (scanLines 0 (fun text =>
    let key := (lineAt text).takeWhile (· ≠ 58)
    if key.map toupper == name.map toupper then some () else none) headers.length headers).isSome

/-! ## The lines they see -/

@[simp]
theorem lineAt_newline (text : Bytes) : lineAt (10 :: text) = [] := rfl

theorem lineAt_cons {b : UInt8} (hb : b ≠ 10) (text : Bytes) : lineAt (b :: text) = b :: lineAt text :=
  List.takeWhile_cons_of_pos (decide_eq_true hb)

theorem headerLinesOf_first {text : Bytes} (h : text ≠ []) :
    headerLinesOf text = text.take ((lineAt text).length + 1) :: headerLinesOf
      (text.drop ((lineAt text).length + 1)) := by
  induction text with
  | nil => exact absurd rfl h
  | cons b text ih =>
    by_cases hb : b = 10
    · simp [hb, headerLinesOf]
    · rw [headerLinesOf, if_neg hb, lineAt_cons hb]
      cases text with
      | nil => rfl
      | cons c text =>
        rw [ih (List.cons_ne_nil _ _)]
        rfl

theorem lineAt_first (text : Bytes) : lineAt (text.take ((lineAt text).length + 1)) = lineAt text := by
  induction text with
  | nil => rfl
  | cons b text ih =>
    by_cases hb : b = 10
    · simp [hb]
    · rw [lineAt_cons hb, List.length_cons, List.take_succ_cons, lineAt_cons hb, ih]

theorem lineNamed_first (name text : Bytes) :
    lineNamed name (text.take ((lineAt text).length + 1)) = namedHere name text := by
  rw [namedHere, lineNamed, lineNamed, List.getElem?_take, List.take_take]
  by_cases hLe : name.length ≤ (lineAt text).length
  · rw [if_pos (Nat.lt_succ_of_le hLe), Nat.min_eq_left (Nat.le_succ_of_le hLe), decide_eq_true hLe,
      Bool.true_and]
  · rw [if_neg (fun hLt => hLe (Nat.le_of_lt_succ hLt)), decide_eq_false hLe, Bool.false_and]
    rfl

theorem scanLines_eq {bound : Nat} {visit f : Bytes → Option α}
    (hVisit : ∀ text, visit text = f (text.take ((lineAt text).length + 1)))
    (hShort : ∀ text, text.length ≤ bound → (headerLinesOf text).findSome? f = none) (fuel : Nat) :
    ∀ text, text.length ≤ fuel → scanLines bound visit fuel text = (headerLinesOf text).findSome? f := by
  induction fuel with
  | zero =>
    intro text hFuel
    rw [List.length_eq_zero_iff.mp (Nat.le_zero.mp hFuel)]
    rfl
  | succ fuel ih =>
    intro text hFuel
    rw [scanLines]
    split
    · rename_i hBound
      exact (hShort text (Nat.le_of_not_lt hBound)).symm
    · rename_i hBound
      have hSome : text ≠ [] := by
        rintro rfl
        simp at hBound
      rw [headerLinesOf_first hSome, List.findSome?_cons, ← hVisit]
      cases visit text with
      | some a => rfl
      | none =>
        apply ih
        rw [List.length_drop]
        omega

theorem findSome?_ite (p : α → Bool) (g : α → β) (l : List α) :
    l.findSome? (fun a => if p a then some (g a) else none) = (l.find? p).map g := by
  induction l with
  | nil => rfl
  | cons a l ih =>
    rw [List.findSome?_cons, List.find?_cons, ih]
    cases p a with
    | true => rfl
    | false => rfl

theorem not_lineNamed_of_short {name text : Bytes} (h : text.length ≤ name.length) :
    ∀ line ∈ headerLinesOf text, lineNamed name line = false := by
  intro line hLine
  have hLe := (List.sublist_flatten_of_mem hLine).length_le
  rw [Etag.flatten_headerLinesOf] at hLe
  rw [lineNamed, List.getElem?_eq_none (hLe.trans h)]
  rfl

theorem find?_short {name text : Bytes} (h : text.length ≤ name.length) :
    (headerLinesOf text).find? (lineNamed name) = none := by
  apply List.find?_eq_none.mpr
  simpa using not_lineNamed_of_short h

theorem responseHasHeader_eq (headers name : Bytes) :
    responseHasHeader headers name = (headerLinesOf headers).any (lineNamed name) := by
  rw [responseHasHeader, @scanLines_eq _ _ _ (fun line => if lineNamed name line then some ()
    else none), findSome?_ite,
    Option.isSome_map, List.isSome_find?]
  · intro text
    rw [lineNamed_first]
  · intro text hShort
    rw [findSome?_ite, find?_short hShort]
    rfl
  · exact Nat.le_refl _

theorem getHeaderScan_eq (headers name : Bytes) :
    getHeaderScan headers name = httpResponseGetHeader headers name := by
  rw [getHeaderScan, httpResponseGetHeader, ← findSome?_ite]
  apply scanLines_eq
  · intro text
    rw [lineNamed_first, ← lineAt, lineAt_first]
  · intro text hShort
    rw [findSome?_ite, find?_short hShort]
    rfl
  · exact Nat.le_refl _

theorem hasHeaderScan_eq (headers name : Bytes) : hasHeaderScan headers name = hasHeader headers name := by
  have hKey : ∀ line : Bytes, (lineAt line).takeWhile (· ≠ 58) = line.takeWhile fun b => b ≠ 58 &&
    b ≠ 10 := by
    intro line
    rw [lineAt, List.takeWhile_takeWhile]
    simp
  rw [hasHeaderScan, hasHeader, @scanLines_eq _ _ _ (fun line =>
    if (line.takeWhile fun b => b ≠ 58 && b ≠ 10).map toupper == name.map toupper then some ()
    else none), findSome?_ite,
    Option.isSome_map, List.isSome_find?]
  · intro text
    rw [← hKey, lineAt_first]
  · intro text hShort
    rw [List.length_eq_zero_iff.mp (Nat.le_zero.mp hShort)]
    rfl
  · exact Nat.le_refl _

/-! ## Fields and their lines -/

/-- A call's field: a token and a C string without CR and LF. -/
structure HeaderCall (f : HttpHeader) : Prop where
  token : IsToken f.key
  cr : 13 ∉ f.value
  lf : 10 ∉ f.value
  cstr : 0 ∉ f.value

theorem not_mem_token {text : Bytes} (h : IsToken text) {b : UInt8} (hb : isTchar b = false) : b ∉ text := by
  intro hMem
  rw [h.2 b hMem] at hb
  cases hb

variable {f : HttpHeader} {fields : List HttpHeader} {name value : Bytes}

theorem HeaderCall.ok (h : HeaderCall f) : FieldOk f where
  colon := not_mem_token h.token (by decide)
  keyCr := not_mem_token h.token (by decide)
  keyLf := not_mem_token h.token (by decide)
  valueCr := h.cr
  valueLf := h.lf

theorem fieldOk_caseFree : CaseFree FieldOk where
  ok h := h
  spelled h hCase := h.spelled hCase

/-- What a line has in front of its first colon is the name, in any case. -/
def carries (name line : Bytes) : Bool := (line.takeWhile (· ≠ 58)).map tolower == name.map tolower

theorem carries_field (h : FieldOk f) (name : Bytes) :
    carries name (fieldText f ++ crlf) = svIeq f.key name := by
  rw [carries, takeWhile_key h.colon, svIeq]

theorem lineNamed_field (h : FieldOk f) (hName : 58 ∉ name) :
    lineNamed name (fieldText f ++ crlf) = svIeq f.key name := by
  have hText : fieldText f ++ crlf = f.key ++ 58 :: 32 :: (f.value ++ crlf) := by simp [fieldText, ascii]
  rw [Bool.eq_iff_iff, lineNamed, svIeq, Bool.and_eq_true, beq_iff_eq, beq_iff_eq, beq_iff_eq]
  constructor
  · rintro ⟨hAt, hTake⟩
    have hFree : 58 ∉ (fieldText f ++ crlf).take name.length :=
      fun hMem => hName (mem_of_map_tolower hTake (.inl rfl) hMem)
    have hKey : f.key = (fieldText f ++ crlf).take name.length := by
      rw [← takeWhile_key h.colon crlf]
      conv_lhs => rw [← List.take_append_drop name.length (fieldText f ++ crlf)]
      obtain ⟨hLt, hGet⟩ := List.getElem?_eq_some_iff.mp hAt
      rw [List.takeWhile_append_of_pos fun b hb => by simpa using fun hEq : b = 58 => hFree (hEq ▸ hb),
        List.drop_eq_getElem_cons hLt, hGet,
        List.takeWhile_cons_of_neg (by decide), List.append_nil]
    rw [hKey, hTake]
  · intro hCase
    have hLength : f.key.length = name.length := by
      have hLengths := congrArg List.length hCase
      rwa [List.length_map, List.length_map] at hLengths
    rw [hText, ← hLength]
    simp [hCase]

theorem hasHeader_field (h : FieldOk f) (name : Bytes) :
    (((fieldText f ++ crlf).takeWhile fun b => b ≠ 58 && b ≠ 10).map toupper == name.map toupper) =
      svIeq f.key name := by
  have hKey : (fieldText f ++ crlf).takeWhile (fun b => b ≠ 58 && b ≠ 10) = f.key := by
    rw [fieldText, List.append_assoc, List.append_assoc, List.takeWhile_append_of_pos]
    · exact List.append_nil _
    · intro b hb
      rw [Bool.and_eq_true]
      exact ⟨decide_eq_true fun hEq => h.colon (hEq ▸ hb), decide_eq_true fun hEq => h.keyLf (hEq ▸ hb)⟩
  rw [hKey, Bool.eq_iff_iff, beq_iff_eq, svIeq, beq_iff_eq]
  exact map_toupper_eq_iff _ _

theorem rdropWhile_blank_cr {value : Bytes} (h : 13 ∉ value) :
    value.rdropWhile (fun b => b == 32 || b == 9 || b == 13) = value.rdropWhile isBlank := by
  induction value using List.reverseRecOn with
  | nil => rfl
  | append_singleton value b ih =>
    rw [List.mem_append, not_or, List.mem_singleton] at h
    rw [List.rdropWhile_concat, List.rdropWhile_concat, ih h.1, isBlank]
    simp [Ne.symm h.2]

theorem getHeader_field (h : FieldOk f) :
    (((((fieldText f ++ crlf).takeWhile (· ≠ 10)).drop (f.key.length + 1)).dropWhile
    fun b => b == 32 || b == 9).rdropWhile fun b => b == 32 || b == 9 || b == 13) = trimBlanks f.value := by
  have hLine : (fieldText f ++ crlf).takeWhile (· ≠ 10) = fieldText f ++ [13] := by
    have hText : fieldText f ++ crlf = (fieldText f ++ [13]) ++ [10] := by simp [crlf]
    have hLf : 10 ∉ fieldText f ++ [13] := by simp [h.line.2.2]
    rw [hText, List.takeWhile_append_of_pos fun b hb => by simpa using fun hEq : b = 10 => hLf (hEq ▸ hb),
      List.takeWhile_cons_of_neg (by decide), List.append_nil]
  have hCr : 13 ∉ f.value.dropWhile isBlank := fun hMem => h.valueCr ((List.dropWhile_suffix _).subset hMem)
  rw [hLine, drop_key, List.dropWhile_cons_of_pos (by decide), trimBlanks, ← rdropWhile_blank_cr hCr]
  change ((f.value ++ [13]).dropWhile isBlank).rdropWhile _ = _
  rw [List.dropWhile_append]
  cases f.value.dropWhile isBlank with
  | nil => rfl
  | cons b rest => exact List.rdropWhile_concat_pos _ _ _ (by decide)

/-! ## The text of a list of fields -/

theorem find?_fieldsText (hFields : ∀ f ∈ fields, FieldOk f) (hName : 58 ∉ name) :
    (headerLinesOf (fieldsText fields)).find? (lineNamed name) =
      (fields.find? fun f => svIeq f.key name).map fun f => fieldText f ++ crlf := by
  rw [headerLinesOf_fieldsText hFields, List.find?_map]
  apply congrArg (Option.map _)
  apply List.find?_congr
  intro f hf
  exact lineNamed_field (hFields f hf) hName

theorem getHeader_fieldsText (hFields : ∀ f ∈ fields, FieldOk f) (hName : 58 ∉ name) :
    httpResponseGetHeader (fieldsText fields) name =
      (fields.find? fun f => svIeq f.key name).map fun f => svFromCstr (trimBlanks f.value) := by
  rw [httpResponseGetHeader, find?_fieldsText hFields hName, Option.map_map]
  cases hFind : fields.find? fun f => svIeq f.key name with
  | none => rfl
  | some f =>
    have hCase := List.find?_some hFind
    rw [svIeq, beq_iff_eq] at hCase
    have hLength : name.length = f.key.length := by
      have hLengths := congrArg List.length hCase
      rw [List.length_map, List.length_map] at hLengths
      exact hLengths.symm
    simp only [Option.map_some, Function.comp_apply, hLength,
      getHeader_field (hFields f (List.mem_of_find?_eq_some hFind))]

theorem any_fieldsText (hFields : ∀ f ∈ fields, FieldOk f) {p : Bytes → Bool} {q : HttpHeader → Bool}
    (h : ∀ f, FieldOk f → p (fieldText f ++ crlf) = q f) :
    (headerLinesOf (fieldsText fields)).any p = fields.any q := by
  rw [headerLinesOf_fieldsText hFields, List.any_map, ← List.isSome_find?, ← List.isSome_find?]
  apply congrArg Option.isSome
  apply List.find?_congr
  intro f hf
  exact h f (hFields f hf)

theorem filter_fieldsText (hFields : ∀ f ∈ fields, FieldOk f) {p : Bytes → Bool} {q : HttpHeader → Bool}
    (h : ∀ f, FieldOk f → p (fieldText f ++ crlf) = q f) :
    (headerLinesOf (fieldsText fields)).filter p = (fields.filter q).map fun f => fieldText f ++ crlf := by
  rw [headerLinesOf_fieldsText hFields, List.filter_map]
  apply congrArg (List.map _)
  apply List.filter_congr
  intro f hf
  exact h f (hFields f hf)

/-! ## The calls -/

/-- What a text becomes by setting a field. -/
structure IsSet (before after name value : Bytes) : Prop where
  one : ((headerLinesOf after).filter (carries name)).length = 1
  value : getHeaderScan after name = some (trimBlanks value)
  others : (headerLinesOf after).filter (fun text => !carries name text) =
    (headerLinesOf before).filter fun text => !carries name text

theorem isSet_emit (hFields : ∀ f ∈ fields, FieldOk f) (h : HeaderCall ⟨name, value⟩) :
    IsSet (fieldsText fields) (responseEmitHeader (fieldsText fields) name value true) name value := by
  have hName : 58 ∉ name := h.ok.colon
  obtain ⟨spelled, hSpelled, hEmit⟩ := emit_replace hFields name value
  have hSame : ∀ f ∈ fields, (!lineNamed name (fieldText f ++ crlf)) = !svIeq f.key name := by
    intro f hf
    rw [lineNamed_field (hFields f hf) hName]
  have hNew : svIeq spelled name = true := beq_iff_eq.mpr hSpelled
  rw [List.filter_congr hSame] at hEmit
  generalize hOthers : fields.filter (fun f => !svIeq f.key name) = others at hEmit
  have hNot : ∀ f ∈ others, svIeq f.key name = false := by
    intro f hf
    rw [← hOthers, List.mem_filter, Bool.not_eq_true'] at hf
    exact hf.2
  have hAll : ∀ f ∈ others ++ [⟨spelled, value⟩], FieldOk f := by
    intro f hf
    obtain hf | hf := List.mem_append.mp hf
    · rw [← hOthers] at hf
      exact hFields f (List.mem_of_mem_filter hf)
    · rw [List.mem_singleton.mp hf]
      exact h.ok.spelled hSpelled
  have hCarries : ∀ f, FieldOk f → carries name (fieldText f ++ crlf) = svIeq f.key name :=
    fun f hf => carries_field hf name
  rw [hEmit]
  constructor
  · have hNone : others.filter (fun f => svIeq f.key name) = [] := by
      apply List.filter_eq_nil_iff.mpr
      intro f hf
      simp [hNot f hf]
    rw [filter_fieldsText hAll hCarries, List.filter_append, hNone]
    simp [hNew]
  · have hNone : others.find? (fun f => svIeq f.key name) = none := by
      apply List.find?_eq_none.mpr
      intro f hf
      simp [hNot f hf]
    have hNul : 0 ∉ trimBlanks value :=
      fun hMem => h.cstr ((List.dropWhile_suffix _).subset ((List.rdropWhile_prefix _ _).subset hMem))
    rw [getHeaderScan_eq, getHeader_fieldsText hAll hName, List.find?_append, hNone]
    simp [hNew, svFromCstr_of_not_mem hNul]
  · have hKept : others.filter (fun f => !svIeq f.key name) = others := by
      apply List.filter_eq_self.mpr
      intro f hf
      simp [hNot f hf]
    have hNegated : ∀ f, FieldOk f → (!carries name (fieldText f ++ crlf)) = !svIeq f.key name :=
      fun f hf => congrArg Bool.not (hCarries f hf)
    rw [filter_fieldsText hAll hNegated, filter_fieldsText hFields hNegated, List.filter_append, hKept,
      hOthers]
    simp [hNew]

theorem lines_append (hFields : ∀ f ∈ fields, FieldOk f) (h : HeaderCall ⟨name, value⟩) :
    headerLinesOf (responseEmitHeader (fieldsText fields) name value false) =
      headerLinesOf (fieldsText fields) ++ [headerLine name value] := by
  have hAll : ∀ f ∈ fields ++ [⟨name, value⟩], FieldOk f := by
    intro f hf
    obtain hf | hf := List.mem_append.mp hf
    · exact hFields f hf
    · rw [List.mem_singleton.mp hf]
      exact h.ok
  have hEmit : responseEmitHeader (fieldsText fields) name value false = fieldsText
    (fields ++ [⟨name, value⟩]) := by
    rw [fieldsText_append, fieldsText_singleton]
    rfl
  rw [hEmit, headerLinesOf_fieldsText hAll, headerLinesOf_fieldsText hFields, List.map_append]
  rfl

/-- The scanners find a name where a line carries it. -/
structure Agree (headers name : Bytes) : Prop where
  response : responseHasHeader headers name = (headerLinesOf headers).any (carries name)
  getter : (getHeaderScan headers name).isSome = (headerLinesOf headers).any (carries name)
  serializer : hasHeaderScan headers name = (headerLinesOf headers).any (carries name)

theorem agree_fieldsText (hFields : ∀ f ∈ fields, FieldOk f) (hName : 58 ∉ name) :
    Agree (fieldsText fields) name := by
  have hCarries := any_fieldsText hFields fun f hf => carries_field hf name
  constructor
  · rw [responseHasHeader_eq, hCarries]
    exact any_fieldsText hFields fun f hf => lineNamed_field hf hName
  · rw [getHeaderScan_eq, getHeader_fieldsText hFields hName, Option.isSome_map, List.isSome_find?, hCarries]
  · rw [hasHeaderScan_eq, hCarries]
    exact any_fieldsText hFields fun f hf => hasHeader_field hf name

theorem buildResponse_concat (ops : List ResponseOp) (op : ResponseOp) :
    buildResponse (ops ++ [op]) = (buildResponse ops).apply op := by
  rw [buildResponse, List.foldl_append]
  rfl

/-- What setting, appending and looking for a field do, after any calls. -/
theorem header_algebra (ops : List ResponseOp) (hOps : ∀ op ∈ ops, ∀ f, opField op = some f → HeaderCall f) :
    (∀ name value, HeaderCall ⟨name, value⟩ →
      IsSet (buildResponse ops).headers (buildResponse (ops ++ [.setHeader name value])).headers name value) ∧
    (∀ name value, HeaderCall ⟨name, value⟩ →
      headerLinesOf (buildResponse (ops ++ [.appendHeader name value])).headers =
      headerLinesOf (buildResponse ops).headers ++ [headerLine name value]) ∧
    ∀ name, IsToken name → Agree (buildResponse ops).headers name := by
  obtain ⟨⟨fields, hFields, hText⟩, -⟩ := fieldOk_caseFree.build ops fun op hOp f hf => (hOps op hOp f hf).ok
  refine ⟨?_, ?_, ?_⟩
  · intro name value h
    rw [buildResponse_concat, HttpResponse.apply, hText]
    exact isSet_emit hFields h
  · intro name value h
    rw [buildResponse_concat, HttpResponse.apply, hText]
    exact lines_append hFields h
  · intro name hName
    rw [hText]
    exact agree_fieldsText hFields (not_mem_token hName (by decide))

theorem cookie_call : HeaderCall ⟨ascii "Set-Cookie", ascii "a: b"⟩ where
  token := ⟨by decide, by decide +kernel⟩
  cr := by decide
  lf := by decide
  cstr := by decide

theorem header_algebra_cookie :
    IsSet (buildResponse [.appendHeader (ascii "Set-Cookie") (ascii "a: b")]).headers
      (buildResponse ([.appendHeader (ascii "Set-Cookie") (ascii "a: b")] ++
        [.setHeader (ascii "Set-Cookie") (ascii "a: b")])).headers
      (ascii "Set-Cookie") (ascii "a: b") := by
  refine (header_algebra [.appendHeader (ascii "Set-Cookie") (ascii "a: b")] ?_).1 _ _ cookie_call
  intro op hOp f hf
  rw [List.mem_singleton.mp hOp] at hf
  rw [← Option.some.inj hf]
  exact cookie_call

end Cweb
