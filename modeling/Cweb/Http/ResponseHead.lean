import Cweb.Http.HeadText

/-!
# The head of a built response

The header text of a response that was built by the calls is a list of fields,
and its head is the status line, these fields and those of the framing. The
client finds in it the status and the framing it was written with.
-/

namespace Cweb

open Sv HttpClient

def reservedNames : List Bytes := [ascii "content-length", ascii "transfer-encoding", ascii "connection"]

/-- A field a handler may set. -/
structure UserField (f : HttpHeader) : Prop where
  ok : FieldOk f
  free : f.key.map tolower ∉ reservedNames

/-- The calls set only such fields. -/
def OpOk : ResponseOp → Prop
  | .setHeader name value => UserField ⟨name, value⟩
  | .appendHeader name value => UserField ⟨name, value⟩
  | _ => True

/-! ## The header text -/

def fieldsText (fields : List HttpHeader) : Bytes := linesText (fields.map fieldText)

theorem fieldsText_append (l l' : List HttpHeader) :
    fieldsText (l ++ l') = fieldsText l ++ fieldsText l' := by
  rw [fieldsText, List.map_append, linesText_append]
  rfl

theorem fieldsText_singleton (f : HttpHeader) : fieldsText [f] = headerLine f.key f.value := by
  rw [headerLine_eq]
  simp [fieldsText, linesText]

theorem headerLinesOf_append {text rest : Bytes} (hLf : 10 ∉ text) :
    headerLinesOf (text ++ crlf ++ rest) = (text ++ crlf) :: headerLinesOf rest := by
  induction text with
  | nil =>
    change headerLinesOf (13 :: 10 :: rest) = _
    rw [headerLinesOf, if_neg (by decide), headerLinesOf, if_pos rfl]
    rfl
  | cons b text ih =>
    have hb : b ≠ 10 := fun hEq => hLf (by rw [hEq]; exact List.mem_cons_self)
    rw [List.cons_append, List.cons_append, headerLinesOf, if_neg hb, ih fun hMem =>
      hLf (List.mem_cons_of_mem _ hMem)]

theorem headerLinesOf_fieldsText {fields : List HttpHeader} (hFields : ∀ f ∈ fields, FieldOk f) :
    headerLinesOf (fieldsText fields) = fields.map fun f => fieldText f ++ crlf := by
  induction fields with
  | nil => rfl
  | cons f fields ih =>
    have hText : fieldsText (f :: fields) = fieldText f ++ crlf ++ fieldsText fields := by
      rw [fieldsText, List.map_cons, linesText, List.flatMap_cons]
      rfl
    rw [hText, headerLinesOf_append (hFields f List.mem_cons_self).line.2.2,
      ih fun g hg => hFields g (List.mem_cons_of_mem _ hg)]
    rfl

theorem flatten_lines (fields : List HttpHeader) :
    (fields.map fun f => fieldText f ++ crlf).flatten = fieldsText fields := by
  rw [fieldsText, linesText, List.flatMap_map, List.flatMap_def]

/-- A property of fields that does not ask for the case of a name. -/
structure CaseFree (P : HttpHeader → Prop) : Prop where
  ok : ∀ {f}, P f → FieldOk f
  spelled : ∀ {key key' value}, P ⟨key, value⟩ → key'.map tolower = key.map tolower → P ⟨key', value⟩

theorem FieldOk.spelled {key key' value : Bytes} (h : FieldOk ⟨key, value⟩)
    (hCase : key'.map tolower = key.map tolower) :
    FieldOk ⟨key', value⟩ := by
  have hIn : ∀ {c : UInt8}, c = 58 ∨ c = 13 ∨ c = 10 → c ∈ key' → c ∈ key :=
    fun hc hMem => mem_of_map_tolower hCase hc hMem
  exact ⟨fun hMem => h.colon (hIn (.inl rfl) hMem), fun hMem => h.keyCr (hIn (.inr (.inl rfl)) hMem),
    fun hMem => h.keyLf (hIn (.inr (.inr rfl)) hMem), h.valueCr, h.valueLf⟩

theorem userField_caseFree : CaseFree UserField where
  ok h := h.ok
  spelled := by
    intro key key' value h hCase
    have hFree := h.free
    refine ⟨h.ok.spelled hCase, ?_⟩
    change key'.map tolower ∉ reservedNames
    rw [hCase]
    exact hFree

/-- The new line stands behind the others, its name spelled like the first that it
replaces. -/
theorem emit_replace {fields : List HttpHeader} (hFields : ∀ f ∈ fields, FieldOk f) (name value : Bytes) :
    ∃ spelled, spelled.map tolower = name.map tolower ∧
      responseEmitHeader (fieldsText fields) name value true =
      fieldsText (fields.filter (fun f => !lineNamed name (fieldText f ++ crlf)) ++ [⟨spelled, value⟩]) := by
  have hLines := headerLinesOf_fieldsText hFields
  refine ⟨(((fields.map fun f => fieldText f ++ crlf).find? (lineNamed name)).map
      (List.take name.length)).getD name, ?_, ?_⟩
  · cases hFind : (fields.map fun f => fieldText f ++ crlf).find? (lineNamed name) with
    | none => rfl
    | some line =>
      have hNamed := List.find?_some hFind
      rw [lineNamed, Bool.and_eq_true, beq_iff_eq, beq_iff_eq] at hNamed
      exact hNamed.2
  · rw [responseEmitHeader, if_neg (by decide)]
    dsimp only
    rw [hLines, fieldsText_append, fieldsText_singleton, List.filter_map, flatten_lines]
    rfl

variable {P : HttpHeader → Prop}

theorem CaseFree.emit_fields (hP : CaseFree P) {fields : List HttpHeader} (hFields : ∀ f ∈ fields, P f)
    {name value : Bytes}
    (hField : P ⟨name, value⟩) (replace : Bool) :
    ∃ fields', (∀ f ∈ fields', P f) ∧
      responseEmitHeader (fieldsText fields) name value replace = fieldsText fields' := by
  cases replace with
  | false =>
    refine ⟨fields ++ [⟨name, value⟩], ?_, ?_⟩
    · intro f hf
      obtain hf | hf := List.mem_append.mp hf
      · exact hFields f hf
      · rw [List.mem_singleton.mp hf]
        exact hField
    · rw [fieldsText_append, fieldsText_singleton]
      rfl
  | true =>
    obtain ⟨spelled, hSpelled, hEmit⟩ := emit_replace (fun f hf => hP.ok (hFields f hf)) name value
    refine ⟨_, ?_, hEmit⟩
    intro f hf
    obtain hf | hf := List.mem_append.mp hf
    · exact hFields f (List.mem_of_mem_filter hf)
    · rw [List.mem_singleton.mp hf]
      exact hP.spelled hField hSpelled

/-- The field a call sets, if it sets one. -/
def opField : ResponseOp → Option HttpHeader
  | .setHeader name value => some ⟨name, value⟩
  | .appendHeader name value => some ⟨name, value⟩
  | _ => none

def MadeOf (P : HttpHeader → Prop) (headers : Bytes) : Prop :=
  ∃ fields, (∀ f ∈ fields, P f) ∧ headers = fieldsText fields

theorem CaseFree.apply (hP : CaseFree P) {res : HttpResponse} (h : MadeOf P res.headers) {op : ResponseOp}
    (hOp : ∀ f, opField op = some f → P f) : MadeOf P (res.apply op).headers := by
  obtain ⟨fields, hFields, hText⟩ := h
  cases op with
  | setHeader name value =>
    obtain ⟨fields', hFields', hEmit⟩ := hP.emit_fields hFields (hOp _ rfl) true
    refine ⟨fields', hFields', ?_⟩
    rw [← hEmit, ← hText]
    rfl
  | appendHeader name value =>
    obtain ⟨fields', hFields', hEmit⟩ := hP.emit_fields hFields (hOp _ rfl) false
    refine ⟨fields', hFields', ?_⟩
    rw [← hEmit, ← hText]
    rfl
  | streamWrite data =>
    rw [HttpResponse.apply]
    split
    · exact ⟨fields, hFields, hText⟩
    · exact ⟨fields, hFields, hText⟩
  | _ => exact ⟨fields, hFields, hText⟩

theorem apply_plain {res : HttpResponse} (hKept : res.suppressBody = false) (hUpgrade : res.upgrade = false)
    (op : ResponseOp) : (res.apply op).suppressBody = false ∧ (res.apply op).upgrade = false := by
  cases op with
  | streamWrite data =>
    rw [HttpResponse.apply]
    split
    · exact ⟨hKept, hUpgrade⟩
    · exact ⟨rfl, hUpgrade⟩
  | setStream fn => exact ⟨rfl, hUpgrade⟩
  | _ => exact ⟨hKept, hUpgrade⟩

theorem CaseFree.build (hP : CaseFree P) (ops : List ResponseOp)
    (hOps : ∀ op ∈ ops, ∀ f, opField op = some f → P f) :
    MadeOf P (buildResponse ops).headers ∧ (buildResponse ops).suppressBody = false ∧
      (buildResponse ops).upgrade = false := by
  have hFold : ∀ (ops : List ResponseOp) (res : HttpResponse), (∀ op ∈ ops, ∀ f, opField op = some f → P f) →
      MadeOf P res.headers ∧ res.suppressBody = false ∧ res.upgrade = false →
        MadeOf P (ops.foldl HttpResponse.apply res).headers ∧
        (ops.foldl HttpResponse.apply res).suppressBody = false ∧
          (ops.foldl HttpResponse.apply res).upgrade = false := by
    intro ops
    induction ops with
    | nil => exact fun _ _ h => h
    | cons op ops ih =>
      rintro res hOps ⟨hText, hKept, hUpgrade⟩
      rw [List.foldl_cons]
      exact ih _ (fun o ho => hOps o (List.mem_cons_of_mem _ ho))
        ⟨hP.apply hText (hOps op List.mem_cons_self), apply_plain hKept hUpgrade op⟩
  exact hFold ops _ hOps ⟨⟨[], fun f hf => absurd hf List.not_mem_nil, rfl⟩, rfl, rfl⟩

/-- What the calls leave of a response that is not streamed through the router. -/
structure Built (res : HttpResponse) : Prop where
  fields : ∃ fields, (∀ f ∈ fields, UserField f) ∧ res.headers = fieldsText fields
  kept : res.suppressBody = false
  upgrade : res.upgrade = false

theorem OpOk.field {op : ResponseOp} (h : OpOk op) (f : HttpHeader) (hf : opField op = some f) :
    UserField f := by
  cases op with
  | setHeader name value => exact Option.some.inj hf ▸ h
  | appendHeader name value => exact Option.some.inj hf ▸ h
  | _ => cases hf

theorem buildResponse_built {ops : List ResponseOp} (hOps : ∀ op ∈ ops, OpOk op) :
    Built (buildResponse ops) := by
  obtain ⟨hText, hKept, hUpgrade⟩ := userField_caseFree.build ops fun op hOp f hf => (hOps op hOp).field f hf
  exact ⟨hText, hKept, hUpgrade⟩

/-! ## The head as lines -/

def statusText (status : Nat) : Bytes := ascii "HTTP/1.1 " ++ decimal status ++ ascii " " ++
    httpStatusReason status

def framingFields (res : HttpResponse) : List HttpHeader :=
  if statusHasNoBody res.status then []
  else if res.streaming then [⟨ascii "Transfer-Encoding", ascii "chunked"⟩]
  else [⟨ascii "Content-Length", decimal res.body.length⟩]

/-- The fields behind those of the framing. -/
def closingFields (res : HttpResponse) (date : Bytes) : List HttpHeader :=
  (if hasHeader res.headers (ascii "date") then [] else [⟨ascii "Date", date⟩]) ++
    [⟨ascii "Connection", ascii (if res.keepAlive then "keep-alive" else "close")⟩]

def headLinesOf (fields : List HttpHeader) (res : HttpResponse) (date : Bytes) : List Bytes :=
  statusText res.status :: (fields ++ framingFields res ++ closingFields res date).map fieldText

theorem framingLine_eq (res : HttpResponse) : framingLine res = fieldsText (framingFields res) := by
  rw [framingLine, framingFields]
  split
  · rfl
  · split
    · rw [fieldsText_singleton]
      decide
    · rw [fieldsText_singleton]
      rfl

theorem closing_eq (res : HttpResponse) (date : Bytes) :
    (if hasHeader res.headers (ascii "date") then [] else headerLine (ascii "Date") date) ++
      ascii (if res.keepAlive then "Connection: keep-alive\r\n" else "Connection: close\r\n") =
        fieldsText (closingFields res date) := by
  have hConnection : ascii (if res.keepAlive then "Connection: keep-alive\r\n" else "Connection: close\r\n") =
      fieldsText [⟨ascii "Connection", ascii (if res.keepAlive then "keep-alive" else "close")⟩] := by
    cases res.keepAlive with
    | true => decide
    | false => decide
  rw [hConnection, closingFields, fieldsText_append]
  congr 1
  split
  · rfl
  · exact (fieldsText_singleton ⟨ascii "Date", date⟩).symm

theorem serializeHead_eq {res : HttpResponse} {fields : List HttpHeader} (hStatus : 200 ≤ res.status)
    (hHeaders : res.headers = fieldsText fields) (date : Bytes) :
    httpResponseSerializeHead res date = headText (headLinesOf fields res date) := by
  have hInformational : (decide (100 ≤ res.status) && decide (res.status < 200)) = false := by
    rw [Bool.and_eq_false_iff]
    exact .inr (decide_eq_false (by omega))
  rw [httpResponseSerializeHead, hInformational, Bool.false_or, if_neg Bool.false_ne_true, headText,
    headLinesOf, linesText, List.flatMap_cons]
  have hFields : (List.map fieldText (fields ++ framingFields res ++ closingFields res date)).flatMap
    (· ++ crlf) =
      fieldsText fields ++ fieldsText (framingFields res) ++ fieldsText (closingFields res date) := by
    rw [← fieldsText_append, ← fieldsText_append]
    rfl
  rw [hFields, ← hHeaders, ← framingLine_eq, ← closing_eq]
  simp only [statusLine, statusText, List.append_assoc]

/-! ## What the client makes of it -/

def StatusReads (status : Nat) : Prop :=
  LineOk (statusText status) ∧ svTrimRight (statusText status) = statusText status ∧
    parseStatusLine (statusText status ++ crlf) = some status

instance (status : Nat) : Decidable (StatusReads status) :=
  inferInstanceAs
    (Decidable ((statusText status ≠ [] ∧ 13 ∉ statusText status ∧ 10 ∉ statusText status) ∧ _ ∧ _))

theorem decimal_digits (n : Nat) : ∀ b ∈ decimal n, isdigit b = true := decimalFuel_isdigit n n

theorem decimal_not_mem {b : UInt8} (hb : isdigit b = false) (n : Nat) : b ∉ decimal n := by
  intro hMem
  rw [decimal_digits n b hMem] at hb
  cases hb

theorem httpStatusReason_ok (status : Nat) : httpStatusReason status ≠ [] ∧ 13 ∉ httpStatusReason status ∧
    10 ∉ httpStatusReason status ∧ svTrimRight (httpStatusReason status) = httpStatusReason status := by
  unfold httpStatusReason
  split <;> decide

theorem statusText_ok (status : Nat) : LineOk (statusText status) := by
  obtain ⟨_, hCr, hLf, _⟩ := httpStatusReason_ok status
  refine ⟨nofun, ?_, ?_⟩
  · simp only [statusText, List.mem_append, not_or]
    exact ⟨⟨⟨by decide, decimal_not_mem (by decide) _⟩, by decide⟩, hCr⟩
  · simp only [statusText, List.mem_append, not_or]
    exact ⟨⟨⟨by decide, decimal_not_mem (by decide) _⟩, by decide⟩, hLf⟩

theorem svTrimRight_append_self {tail : Bytes} (hSome : tail ≠ []) (h : svTrimRight tail = tail)
    (text : Bytes) :
    svTrimRight (text ++ tail) = text ++ tail := by
  refine List.rdropWhile_eq_self_iff.mpr fun _ => ?_
  rw [List.getLast_append_of_ne_nil _ hSome]
  exact List.rdropWhile_eq_self_iff.mp h hSome

theorem svTrimRight_statusText (status : Nat) : svTrimRight (statusText status) = statusText status := by
  obtain ⟨hSome, _, _, hTrim⟩ := httpStatusReason_ok status
  exact svTrimRight_append_self hSome hTrim _

theorem parseStatusLine_statusText {status : Nat} (hLow : 200 ≤ status) (hHigh : status ≤ 599) :
    parseStatusLine (statusText status ++ crlf) = some status := by
  have hNot : 10 ∉ statusText status ++ [13] := by
    rw [List.mem_append, not_or]
    exact ⟨(statusText_ok status).2.2, by decide⟩
  have hChop : svChopByDelim 10 (statusText status ++ crlf) = (statusText status ++ [13], []) := by
    rw [← svChopByDelim_append 10 (statusText status ++ [13]) [] hNot, List.append_assoc]
    rfl
  have hCode : (statusText status).dropWhile (· ≠ 32) = 32 :: digitChar (status / 10 / 10) :: digitChar
    (status / 10 % 10) ::
      digitChar (status % 10) :: (ascii " " ++ httpStatusReason status) := by
    rw [statusText, decimal_three (by omega) (by omega)]
    rfl
  rw [parseStatusLine, hChop]
  dsimp only
  rw [svTrimRight_cr, svTrimRight_statusText, hCode]
  dsimp only
  rw [if_pos ⟨isdigit_digitChar (by omega), isdigit_digitChar (by omega), isdigit_digitChar (by omega)⟩,
    digitChar_toNat (by omega), digitChar_toNat (by omega), digitChar_toNat (by omega), if_neg (by omega)]
  exact congrArg some (by omega)

theorem statusReads {status : Nat} (hLow : 200 ≤ status) (hHigh : status ≤ 599) : StatusReads status :=
  ⟨statusText_ok status, svTrimRight_statusText status, parseStatusLine_statusText hLow hHigh⟩

theorem fieldOk_of {name value : Bytes} (hName : 58 ∉ name ∧ 13 ∉ name ∧ 10 ∉ name)
    (hValue : 13 ∉ value ∧ 10 ∉ value) :
    FieldOk ⟨name, value⟩ :=
  ⟨hName.1, hName.2.1, hName.2.2, hValue.1, hValue.2⟩

theorem framingFields_ok (res : HttpResponse) : ∀ f ∈ framingFields res, FieldOk f := by
  intro f hf
  rw [framingFields] at hf
  split at hf
  · exact absurd hf List.not_mem_nil
  · split at hf
    · rw [List.mem_singleton.mp hf]
      exact fieldOk_of (by decide) (by decide)
    · rw [List.mem_singleton.mp hf]
      exact fieldOk_of (by decide) ⟨decimal_not_mem (by decide) _, decimal_not_mem (by decide) _⟩

theorem closingFields_ok (res : HttpResponse) {date : Bytes} (hDate : 13 ∉ date ∧ 10 ∉ date) :
    ∀ f ∈ closingFields res date, FieldOk f := by
  intro f hf
  rw [closingFields] at hf
  obtain hf | hf := List.mem_append.mp hf
  · split at hf
    · exact absurd hf List.not_mem_nil
    · rw [List.mem_singleton.mp hf]
      exact fieldOk_of (by decide) hDate
  · rw [List.mem_singleton.mp hf]
    cases res.keepAlive with
    | true => exact fieldOk_of (by decide) (by decide)
    | false => exact fieldOk_of (by decide) (by decide)

/-- The lines of a head, as the client sees them. -/
structure HeadOk (fields : List HttpHeader) (res : HttpResponse) (date : Bytes) : Prop where
  low : 200 ≤ res.status
  high : res.status ≤ 599
  user : ∀ f ∈ fields, UserField f
  date : 13 ∉ date ∧ 10 ∉ date

variable {fields : List HttpHeader} {res : HttpResponse} {date : Bytes}

theorem HeadOk.fieldOk (h : HeadOk fields res date) :
    ∀ f ∈ fields ++ framingFields res ++ closingFields res date, FieldOk f := by
  intro f hf
  obtain hf | hf := List.mem_append.mp hf
  · obtain hf | hf := List.mem_append.mp hf
    · exact (h.user f hf).ok
    · exact framingFields_ok res f hf
  · exact closingFields_ok res h.date f hf

theorem HeadOk.lineOk (h : HeadOk fields res date) : ∀ text ∈ headLinesOf fields res date, LineOk text := by
  intro text hText
  obtain rfl | hText := List.mem_cons.mp hText
  · exact (statusReads h.low h.high).1
  · obtain ⟨f, hf, rfl⟩ := List.mem_map.mp hText
    exact (h.fieldOk f hf).line

theorem svTrimRight_ne_nil {text : Bytes} (h : 58 ∈ text) : svTrimRight text ≠ [] := by
  intro hNil
  have hAll := List.rdropWhile_eq_nil_iff.mp hNil
  exact absurd (hAll 58 h) (by decide)

theorem HeadOk.seen (h : HeadOk fields res date) : ∀ text ∈ headLinesOf fields res date,
    svTrimRight text ≠ [] := by
  intro text hText
  obtain rfl | hText := List.mem_cons.mp hText
  · rw [(statusReads h.low h.high).2.1]
    exact (statusReads h.low h.high).1.1
  · obtain ⟨f, _, rfl⟩ := List.mem_map.mp hText
    refine svTrimRight_ne_nil (List.mem_append_left _ (List.mem_append_right _ ?_))
    decide

theorem HeadOk.headLines_eq (h : HeadOk fields res date) :
    headLines (linesText (headLinesOf fields res date)) = (headLinesOf fields res date).map svTrimRight :=
  headLines_linesText (fun text hText => (h.lineOk text hText).2.2) h.seen

theorem parseStatusLine_lines {status : Nat} (hLow : 200 ≤ status) (hHigh : status ≤ 599)
    (lines : List Bytes) :
    parseStatusLine (linesText (statusText status :: lines)) = some status := by
  obtain ⟨⟨_, _, hLf⟩, _, hParse⟩ := statusReads hLow hHigh
  have hNot : 10 ∉ statusText status ++ [13] := by
    intro hMem
    obtain hMem | hMem := List.mem_append.mp hMem
    · exact hLf hMem
    · exact absurd (List.mem_singleton.mp hMem) (by decide)
  have hChop : ∀ rest, (svChopByDelim 10 (statusText status ++ crlf ++ rest)).1 = statusText status ++
    [13] := by
    intro rest
    have hEq : statusText status ++ crlf ++ rest = (statusText status ++ [13]) ++ 10 :: rest := by simp [crlf]
    rw [hEq, svChopByDelim_append 10 _ _ hNot]
  have hFirst := hChop []
  rw [List.append_nil] at hFirst
  rw [parseStatusLine, hFirst] at hParse
  rw [parseStatusLine, linesText, List.flatMap_cons, hChop]
  exact hParse

theorem HeadOk.status_eq (h : HeadOk fields res date) :
    parseStatusLine (linesText (headLinesOf fields res date)) = some res.status :=
      parseStatusLine_lines h.low h.high _

/-! ## Framing fields -/

theorem headerIs_field {f : HttpHeader} (hOk : FieldOk f) {name : Bytes} (hName : 58 ∉ name)
    (h : headerIs (svTrimRight (fieldText f)) name = true) : f.key.map tolower = name.map tolower := by
  rw [headerIs, Bool.and_eq_true, Bool.and_eq_true, beq_iff_eq, beq_iff_eq] at h
  exact (name_of_colon hOk.colon hName (List.rdropWhile_prefix _ _) h.1.2 h.2).2

theorem headerIs_status {status : Nat} (hLow : 200 ≤ status) (hHigh : status ≤ 599) {b : UInt8} {name : Bytes}
    (hFirst : tolower b ≠ 104) : headerIs (svTrimRight (statusText status)) (b :: name) = false := by
  rw [(statusReads hLow hHigh).2.1, headerIs, Bool.and_eq_false_iff]
  right
  rw [beq_eq_false_iff_ne]
  intro hEq
  have hHead := congrArg List.head? hEq
  rw [List.map_cons, List.head?_cons] at hHead
  have hStatus : ((statusText status).take (b :: name).length).map tolower =
      104 :: (((statusText status).drop 1).take name.length).map tolower := rfl
  rw [hStatus, List.head?_cons] at hHead
  exact hFirst (Option.some.inj hHead).symm

theorem HeadOk.reserved (h : HeadOk fields res date) {f : HttpHeader} {name : Bytes}
    (hf : f ∈ fields ++ framingFields res ++ closingFields res date)
    (hName : name = ascii "transfer-encoding" ∨ name = ascii "content-length")
    (hKey : f.key.map tolower = name.map tolower) : f ∈ framingFields res := by
  have hLower : name.map tolower = name := by
    obtain rfl | rfl := hName
    · decide
    · decide
  rw [hLower] at hKey
  obtain hf | hf := List.mem_append.mp hf
  · obtain hf | hf := List.mem_append.mp hf
    · refine absurd ?_ (h.user f hf).free
      rw [hKey]
      obtain rfl | rfl := hName
      · decide
      · decide
    · exact hf
  · exfalso
    rw [closingFields] at hf
    obtain hf | hf := List.mem_append.mp hf
    · split at hf
      · exact absurd hf List.not_mem_nil
      · rw [List.mem_singleton.mp hf] at hKey
        obtain rfl | rfl := hName
        · exact absurd hKey (by change ¬ (ascii "Date").map tolower = _; decide)
        · exact absurd hKey (by change ¬ (ascii "Date").map tolower = _; decide)
    · rw [List.mem_singleton.mp hf] at hKey
      obtain rfl | rfl := hName
      · exact absurd hKey (by change ¬ (ascii "Connection").map tolower = _; decide)
      · exact absurd hKey (by change ¬ (ascii "Connection").map tolower = _; decide)

theorem HeadOk.headerIs_line (h : HeadOk fields res date) {line name : Bytes}
    (hName : name = ascii "transfer-encoding" ∨ name = ascii "content-length")
    (hLine : line ∈ (headLinesOf fields res date).map svTrimRight) (hIs : headerIs line name = true) :
    ∃ f ∈ framingFields res, line = svTrimRight (fieldText f) ∧ f.key.map tolower = name.map tolower := by
  obtain ⟨text, hText, rfl⟩ := List.mem_map.mp hLine
  obtain rfl | hText := List.mem_cons.mp hText
  · obtain rfl | rfl := hName
    · have hFalse := @headerIs_status res.status h.low h.high 116 (ascii "ransfer-encoding") (by decide)
      exact absurd (hIs.symm.trans hFalse) (by decide)
    · have hFalse := @headerIs_status res.status h.low h.high 99 (ascii "ontent-length") (by decide)
      exact absurd (hIs.symm.trans hFalse) (by decide)
  · obtain ⟨f, hf, rfl⟩ := List.mem_map.mp hText
    have hColon : 58 ∉ name := by
      obtain rfl | rfl := hName
      · decide
      · decide
    have hKey := headerIs_field (h.fieldOk f hf) hColon hIs
    exact ⟨f, h.reserved hf hName hKey, rfl, hKey⟩

theorem HeadOk.chunked_eq (h : HeadOk fields res date) :
    headHasToken (linesText (headLinesOf fields res date)) (ascii "transfer-encoding") (ascii "chunked") =
      (!statusHasNoBody res.status && res.streaming) := by
  rw [headHasToken, h.headLines_eq, Bool.eq_iff_iff, List.any_eq_true]
  constructor
  · rintro ⟨line, hLine, hBoth⟩
    rw [Bool.and_eq_true] at hBoth
    obtain ⟨f, hf, _, hKey⟩ := h.headerIs_line (.inl rfl) hLine hBoth.1
    rw [framingFields] at hf
    split at hf
    · exact absurd hf List.not_mem_nil
    · rename_i hBody
      split at hf
      · rename_i hStreaming
        rw [Bool.not_eq_true] at hBody
        rw [hBody, hStreaming]
        rfl
      · rw [List.mem_singleton.mp hf] at hKey
        exact absurd hKey (by change ¬ (ascii "Content-Length").map tolower = _; decide)
  · intro hBoth
    rw [Bool.and_eq_true, Bool.not_eq_true'] at hBoth
    refine ⟨svTrimRight (fieldText ⟨ascii "Transfer-Encoding", ascii "chunked"⟩), ?_, by decide⟩
    refine List.mem_map_of_mem (List.mem_cons_of_mem _ (List.mem_map_of_mem ?_))
    refine List.mem_append_left _ (List.mem_append_right _ ?_)
    rw [framingFields, hBoth.1, hBoth.2]
    exact List.mem_singleton_self _

theorem svTrimRight_of_last {text : Bytes} {b : UInt8} (hb : isspace b = false) :
    svTrimRight (text ++ [b]) = text ++ [b] :=
  List.rdropWhile_concat_neg _ _ _ (by rw [hb]; exact Bool.false_ne_true)

theorem decimal_concat (n : Nat) : ∃ text b, decimal n = text ++ [b] ∧ isspace b = false := by
  have hNe : decimal n ≠ [] := decimalFuel_ne_nil n n
  refine ⟨(decimal n).dropLast, (decimal n).getLast hNe, (List.dropLast_append_getLast hNe).symm, ?_⟩
  exact isspace_of_isdigit (decimal_digits n _ (List.getLast_mem hNe))

theorem svToI64_decimal {n : Nat} (h : (n : Int) ≤ llongMax) : svToI64 (decimal n) = some (n : Int) :=
  svToI64_decimalInt (.ofNat n)
    (by have h0 : (0 : Int) ≤ n := Int.natCast_nonneg n; simp only [Int.ofNat_eq_natCast]; omega) h

theorem svTrim_decimal (n : Nat) : svTrim (32 :: decimal n) = decimal n := by
  obtain ⟨text, b, hText, hb⟩ := decimal_concat n
  have hLeft : svTrimLeft (32 :: decimal n) = decimal n := by
    rw [svTrimLeft, List.dropWhile_cons_of_pos (by decide)]
    cases hDec : decimal n with
    | nil => rfl
    | cons c rest =>
      have hDigit := decimal_digits n c (by rw [hDec]; exact List.mem_cons_self)
      refine List.dropWhile_cons_of_neg ?_
      rw [isspace_of_isdigit hDigit]
      exact Bool.false_ne_true
  rw [svTrim, hLeft, hText]
  exact svTrimRight_of_last hb

theorem HeadOk.length_eq (h : HeadOk fields res date) (hBody : statusHasNoBody res.status = false)
    (hPlain : res.streaming = false) (hFits : res.body.length ≤ clientMaxBody) :
    headContentLength (linesText (headLinesOf fields res date)) = some res.body.length := by
  have hFraming : framingFields res = [⟨ascii "Content-Length", decimal res.body.length⟩] := by
    rw [framingFields, hBody, hPlain]
    rfl
  obtain ⟨text, b, hText, hb⟩ := decimal_concat res.body.length
  have hLine : svTrimRight (fieldText ⟨ascii "Content-Length", decimal res.body.length⟩) =
      ascii "Content-Length: " ++ decimal res.body.length := by
    have hEq : fieldText ⟨ascii "Content-Length", decimal res.body.length⟩ =
      (ascii "Content-Length: " ++ text) ++ [b] := by
      change ascii "Content-Length: " ++ decimal res.body.length = _
      rw [hText, List.append_assoc]
    rw [hEq, svTrimRight_of_last hb, hText, List.append_assoc]
  have hIs : headerIs (ascii "Content-Length: " ++ decimal res.body.length) (ascii "content-length") =
    true := by
    rw [hText, headerIs, Bool.and_eq_true, Bool.and_eq_true]
    refine ⟨⟨?_, rfl⟩, ?_⟩
    · rw [decide_eq_true_eq, List.length_append, List.length_append, List.length_singleton]
      have hName : (ascii "content-length").length + 2 = (ascii "Content-Length: ").length := by decide
      omega
    · rw [List.take_append_of_le_length (by decide)]
      decide
  have hFind : ((headLinesOf fields res date).map svTrimRight).find?
    (fun line => headerIs line (ascii "content-length")) =
      some (ascii "Content-Length: " ++ decimal res.body.length) := by
    cases hFind : ((headLinesOf fields res date).map svTrimRight).find? fun line =>
      headerIs line (ascii "content-length") with
    | none =>
      have hNone := List.find?_eq_none.mp hFind _ (List.mem_map_of_mem (List.mem_cons_of_mem _
        (List.mem_map_of_mem (List.mem_append_left _ (List.mem_append_right _ (by
          rw [hFraming]
          exact List.mem_singleton_self _))))))
      rw [hLine] at hNone
      exact absurd hIs hNone
    | some line =>
      have hSome := List.find?_eq_some_iff_append.mp hFind
      obtain ⟨f, hf, hEq, _⟩ := h.headerIs_line (.inr rfl) (List.mem_of_find?_eq_some hFind) hSome.1
      rw [hFraming] at hf
      rw [hEq, List.mem_singleton.mp hf, hLine]
  have hValue : svTrim
    ((ascii "Content-Length: " ++ decimal res.body.length).drop ((ascii "content-length").length + 1)) =
      decimal res.body.length := svTrim_decimal res.body.length
  have hMax : ((res.body.length : Nat) : Int) ≤ llongMax := by
    rw [clientMaxBody] at hFits
    rw [llongMax]
    omega
  rw [headContentLength, headGetValue, h.headLines_eq, hFind, Option.map_some, hValue]
  dsimp only
  rw [svToI64_decimal hMax]
  dsimp only
  rw [if_pos (Int.natCast_nonneg _), Int.toNat_natCast]

end Cweb
