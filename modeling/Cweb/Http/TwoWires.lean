import Cweb.Http.H2Heads
import Cweb.Http.HeaderAlgebra
import Cweb.Http.HpackRead
import Cweb.Http.ResponseRead
import Cweb.Http.RequestCut

/-!
# One response over two wires

What a recipient makes of a response written over HTTP/1.1 and of the frames
written for it over HTTP/2: the status, the fields in their order with names in
lower case and values trimmed, and the entity body. The two agree on every field
that is not about the connection, unless a value is too long for HPACK.
-/

namespace Cweb.Wires

open Sv HttpClient HpackTable Hpack H2

structure Delivered where
  status : Nat
  fields : List Field
  body : Bytes
deriving DecidableEq, Repr

/-! ## Reading an HTTP/1.1 response -/

def lineField (line : Bytes) : Field :=
  let name := line.takeWhile (· ≠ 58)
  ⟨name.map tolower, svTrim (line.drop (name.length + 1))⟩

/-- The size of a chunk and what stands behind its line. -/
def chunkLength : Nat → Bytes → Option (Nat × Bytes)
  | _, [] => none
  | n, b :: rest =>
    if b = 13 then if rest.head? = some 10 then some (n, rest.drop 1) else none
    else
      match hexDigit b with
      | none => none
      | some d => chunkLength (n * 16 + d) rest

/-- The data of the chunks up to the last one. -/
def dechunk : Nat → Bytes → Option Bytes
  | 0, _ => none
  | fuel + 1, p =>
    match chunkLength 0 p with
    | none => none
    | some (n, rest) =>
      if n = 0 then some []
      else if rest.length < n + 2 then none
      else (dechunk fuel (rest.drop (n + 2))).map (rest.take n ++ ·)

/-- The status line, the lines up to the blank one and what stands behind it. -/
def http1Message (streamed : Bool) (wire : Bytes) : Option Delivered :=
  match findHeadSep wire with
  | none => none
  | some sep =>
    let head := wire.take (sep + 2)
    let rest := wire.drop (sep + 4)
    match parseStatusLine head, if streamed then dechunk (rest.length + 1) rest else some rest with
    | some status, some body => some ⟨status, ((svSplit 10 head).drop 1).map lineField, body⟩
    | _, _ => none

/-! ## Reading the frames of a stream -/

def trimmed (e : Field) : Field := ⟨e.name.map tolower, svTrim e.value⟩

/-- The status comes first. Strings may be of any length that can be written. -/
def http2Message (hp : Hpack) (block body : Bytes) : Option Delivered :=
  match readBlock (2 ^ 32) hp block with
  | some (e :: fields) =>
    if e.name = ascii ":status" then
      (svToI64 e.value).map fun status => ⟨status.toNat, fields.map trimmed, body⟩
    else none
  | _ => none

/-! ## The comparison -/

def carriedField (e : Field) : Bool := !connSpecName e.name && !svIeq e.name (ascii "content-length")

/-- Without a date that the handler did not set. -/
def comparedField (ownDate : Bool) (e : Field) : Bool :=
  carriedField e && (ownDate || !svIeq e.name (ascii "date"))

def Delivered.compared (ownDate : Bool) (m : Delivered) : Delivered :=
  { m with fields := m.fields.filter (comparedField ownDate) }

def ownDate (res : HttpResponse) : Bool := hasHeader res.headers (ascii "date")

/-- Both recipients read the response and get the same. -/
def SameMessage (res : HttpResponse) (hp : Hpack) (wire block body : Bytes) : Prop :=
  ∃ m₁ m₂, http1Message res.streaming wire = some m₁ ∧ http2Message hp block body = some m₂ ∧
    m₁.compared (ownDate res) = m₂.compared (ownDate res)

/-- No value that goes over both wires has 2^32 bytes or more. -/
def ValuesFit (res : HttpResponse) : Prop :=
  ∀ line ∈ svSplit 10 res.headers, carriedField (lineField line) = true →
    (lineField line).value.length < 2 ^ 32

/-- A field with a token of at most 256 bytes for its name and no CR or LF in
its value. -/
structure TokenField (f : HttpHeader) : Prop where
  some : f.key ≠ []
  token : ∀ b ∈ f.key, tokenChar (tolower b) = true
  long : f.key.length ≤ 256
  valueCr : 13 ∉ f.value
  valueLf : 10 ∉ f.value

def DateText (date : Bytes) : Prop := date.length < 64 ∧ 13 ∉ date ∧ 10 ∉ date

/-! ## Fields and their lines -/

structure CleanField (f : HttpHeader) : Prop where
  ok : FieldOk f
  some : f.key ≠ []
  long : f.key.length ≤ 256

theorem TokenField.clean {f : HttpHeader} (h : TokenField f) : CleanField f := by
  have hNot : ∀ {b : UInt8}, tokenChar (tolower b) = false → b ∉ f.key := by
    intro b hb hMem
    rw [h.token b hMem] at hb
    cases hb
  exact ⟨⟨hNot (by decide), hNot (by decide), hNot (by decide), h.valueCr, h.valueLf⟩, h.some, h.long⟩

theorem cleanField_caseFree : CaseFree CleanField where
  ok h := h.ok
  spelled := by
    intro key key' value h hCase
    have hLength := congrArg List.length hCase
    rw [List.length_map, List.length_map] at hLength
    refine ⟨h.ok.spelled hCase, ?_, hLength ▸ h.long⟩
    intro hNil
    have hKey : key = [] :=
      List.length_eq_zero_iff.mp (by rw [← hLength]; exact List.length_eq_zero_iff.mpr hNil)
    exact h.some hKey

def fieldOf (f : HttpHeader) : Field := ⟨f.key.map tolower, svTrim f.value⟩

theorem dropWhile_head {p : UInt8 → Bool} (l : Bytes) : ∀ b ∈ (l.dropWhile p).head?, p b = false := by
  intro b hb
  have hNot := List.head?_dropWhile_not p l
  rw [Option.mem_def.mp hb] at hNot
  exact hNot

theorem svTrim_svTrim (v : Bytes) : svTrim (svTrim v) = svTrim v := by
  have hLeft : svTrimLeft (svTrim v) = svTrim v := by
    cases hTrim : svTrim v with
    | nil => rfl
    | cons b rest =>
      -- what is left of the trimmed text begins where the left end was trimmed to
      have hHead : b ∈ (svTrimLeft v).head? := by
        have hPrefix := List.rdropWhile_prefix isspace (svTrimLeft v)
        rw [← svTrimRight, ← svTrim, hTrim] at hPrefix
        obtain ⟨more, hMore⟩ := hPrefix
        rw [← hMore]
        rfl
      exact List.dropWhile_cons_of_neg (by rw [dropWhile_head v b hHead]; exact Bool.false_ne_true)
  rw [svTrim, hLeft, svTrim, svTrimRight]
  exact List.rdropWhile_idempotent isspace _

theorem svTrim_length_le (v : Bytes) : (svTrim v).length ≤ v.length := by
  have hRight := (List.rdropWhile_prefix isspace (svTrimLeft v)).length_le
  have hLeft := (List.dropWhile_suffix (p := isspace) (l := v)).length_le
  exact hRight.trans hLeft

theorem tolower_idem (s : Bytes) : (s.map tolower).map tolower = s.map tolower := by
  rw [List.map_map]
  have hSame : tolower ∘ tolower = tolower := funext (CString.forall_byte (by decide +kernel))
  rw [hSame]

theorem svIeq_lower (s name : Bytes) : svIeq (s.map tolower) name = svIeq s name := by
  rw [svIeq, svIeq, tolower_idem]

theorem connSpecName_lower (s : Bytes) : connSpecName (s.map tolower) = connSpecName s := by
  rw [connSpecName, connSpecName]
  simp only [svIeq_lower]

theorem trimmed_fieldOf (f : HttpHeader) : trimmed (fieldOf f) = fieldOf f := by
  rw [trimmed, fieldOf, tolower_idem, svTrim_svTrim]

theorem lineField_text {f : HttpHeader} (hColon : 58 ∉ f.key) :
    lineField (fieldText f ++ [13]) = fieldOf f := by
  rw [lineField, takeWhile_key hColon, drop_key, svTrim_blank, svTrim_cr, fieldOf]

theorem carriedField_fieldOf (f : HttpHeader) :
    carriedField (fieldOf f) = (!connSpecName f.key && !svIeq f.key (ascii "content-length")) := by
  rw [carriedField, fieldOf, connSpecName_lower, svIeq_lower]

theorem headerLineFields_text {f : HttpHeader} (h : CleanField f) :
    headerLineFields (fieldText f ++ [13]) =
      (if carriedField (fieldOf f) then [((fieldOf f).name, (fieldOf f).value)]
        else [], svIeq f.key (ascii "date")) := by
  have hKey := takeWhile_key h.ok.colon []
  have hValue := drop_key f []
  rw [List.append_nil] at hKey hValue
  rw [List.append_nil] at hValue
  have hLength : 2 ≤ (fieldText f ++ [13]).length := by
    rw [fieldText, List.length_append, List.length_append, List.length_append]
    have hSep : (ascii ": ").length = 2 := by decide
    omega
  have hName : ¬ (f.key = [] ∨ f.key.length = (fieldText f).length) := by
    rintro (hNil | hAll)
    · exact h.some hNil
    · rw [fieldText, List.length_append, List.length_append] at hAll
      have hSep : (ascii ": ").length = 2 := by decide
      omega
  have hLine : (if 2 ≤ (fieldText f ++ [13]).length ∧ (fieldText f ++ [13]).getLast? = some 13 then
      (fieldText f ++ [13]).dropLast else fieldText f ++ [13]) = fieldText f := by
    rw [if_pos ⟨hLength, List.getLast?_concat⟩, List.dropLast_concat]
  rw [headerLineFields, hLine, hKey, if_neg hName, hValue, svTrim_blank, List.take_of_length_le h.long,
    carriedField_fieldOf, ← Bool.not_or]
  cases connSpecName f.key || svIeq f.key (ascii "content-length") with
  | true => rfl
  | false => rfl

/-! ## The head over HTTP/1.1 -/

variable {fields : List HttpHeader} {res : HttpResponse} {date : Bytes}

theorem svSplit_fieldsText (hFields : ∀ f ∈ fields, FieldOk f) :
    svSplit 10 (fieldsText fields) = fields.map fun f => fieldText f ++ [13] := by
  rw [svSplit, fieldsText, svPieces_linesText _ _ (Nat.le_refl _), List.map_map]
  · rfl
  · intro text hText
    obtain ⟨f, hf, rfl⟩ := List.mem_map.mp hText
    exact (hFields f hf).line.2.2

theorem ownDate_fieldsText (hFields : ∀ f ∈ fields, CleanField f) (hText : res.headers = fieldsText fields) :
    ownDate res = fields.any fun f => svIeq f.key (ascii "date") := by
  rw [ownDate, hasHeader, hText]
  exact any_fieldsText (fun f hf => (hFields f hf).ok) fun f hf => hasHeader_field hf (ascii "date")

theorem http1_head {status : Nat} (hLow : 200 ≤ status) (hHigh : status ≤ 599)
    (hFields : ∀ f ∈ fields, FieldOk f)
    (streamed : Bool) {payload body : Bytes}
    (hBody : (if streamed then dechunk (payload.length + 1) payload else some payload) = some body) :
    http1Message streamed (headText (statusText status :: fields.map fieldText) ++ payload) =
      some ⟨status, fields.map fieldOf, body⟩ := by
  have hLines : ∀ text ∈ statusText status :: fields.map fieldText, LineOk text := by
    intro text hText
    obtain rfl | hText := List.mem_cons.mp hText
    · exact (statusReads hLow hHigh).1
    · obtain ⟨f, hf, rfl⟩ := List.mem_map.mp hText
      exact (hFields f hf).line
  have hSep := findHeadSep_head hLines (List.cons_ne_nil _ _) (List.prefix_refl (headText _ ++ payload))
  rw [if_pos (by rw [List.length_append]; omega)] at hSep
  have hCrlf : crlf.length = 2 := rfl
  have hStatus : 0 < (statusText status).length := List.length_pos_iff.mpr (statusReads hLow hHigh).1.1
  have hLength : (headText (statusText status :: fields.map fieldText)).length =
      (linesText (statusText status :: fields.map fieldText)).length + 2 := by
    rw [headText, List.length_append, hCrlf]
  have hLong : 2 ≤ (linesText (statusText status :: fields.map fieldText)).length := by
    rw [linesText, List.flatMap_cons, List.length_append, List.length_append, hCrlf]
    omega
  have hHead : (headText (statusText status :: fields.map fieldText) ++ payload).take
      ((headText (statusText status :: fields.map fieldText)).length - 4 + 2) =
        linesText (statusText status :: fields.map fieldText) := by
    rw [hLength, headText, List.append_assoc,
      show (linesText (statusText status :: fields.map fieldText)).length + 2 - 4 + 2 =
      (linesText (statusText status :: fields.map fieldText)).length by omega, List.take_left]
  have hRest : (headText (statusText status :: fields.map fieldText) ++ payload).drop
      ((headText (statusText status :: fields.map fieldText)).length - 4 + 4) = payload := by
    rw [show (headText (statusText status :: fields.map fieldText)).length - 4 + 4 =
      (headText (statusText status :: fields.map fieldText)).length by omega, List.drop_left]
  have hPieces : svSplit 10 (linesText (statusText status :: fields.map fieldText)) =
      (statusText status :: fields.map fieldText).map (· ++ [13]) :=
    svPieces_linesText _ _ (Nat.le_refl _) fun text hText => (hLines text hText).2.2
  have hRead : ((statusText status :: fields.map fieldText).map (· ++ [13])).drop 1 = fields.map
    fun f => fieldText f ++ [13] := by
    rw [List.map_cons, List.drop_one, List.tail_cons, List.map_map]
    rfl
  have hNamed : (fields.map fun f => fieldText f ++ [13]).map lineField = fields.map fieldOf := by
    rw [List.map_map]
    refine List.map_congr_left ?_
    intro f hf
    exact lineField_text (hFields f hf).colon
  rw [http1Message, hSep]
  dsimp only
  rw [hHead, hRest, parseStatusLine_lines hLow hHigh, hBody, hPieces, hRead, hNamed]

theorem compared_head (hText : res.headers = fieldsText fields) (hFields : ∀ f ∈ fields, CleanField f) :
    ((fields ++ framingFields res ++ closingFields res date).map fieldOf).filter
      (comparedField (ownDate res)) =
      ((fields.map fieldOf).filter carriedField) := by
  have hFraming : ((framingFields res).map fieldOf).filter (comparedField (ownDate res)) = [] := by
    refine List.filter_eq_nil_iff.mpr ?_
    intro e he
    obtain ⟨f, hf, rfl⟩ := List.mem_map.mp he
    have hNot : carriedField (fieldOf f) = false := by
      rw [carriedField_fieldOf]
      rw [framingFields] at hf
      split at hf
      · exact absurd hf List.not_mem_nil
      · split at hf
        · rw [List.mem_singleton.mp hf]
          change (!connSpecName (ascii "Transfer-Encoding") &&
            !svIeq (ascii "Transfer-Encoding") (ascii "content-length")) = false
          decide
        · rw [List.mem_singleton.mp hf]
          change (!connSpecName (ascii "Content-Length") &&
            !svIeq (ascii "Content-Length") (ascii "content-length")) = false
          decide
    rw [comparedField, hNot, Bool.false_and]
    exact Bool.false_ne_true
  have hClosing : ((closingFields res date).map fieldOf).filter (comparedField (ownDate res)) = [] := by
    refine List.filter_eq_nil_iff.mpr ?_
    intro e he
    obtain ⟨f, hf, rfl⟩ := List.mem_map.mp he
    rw [closingFields] at hf
    obtain hf | hf := List.mem_append.mp hf
    · split at hf
      · exact absurd hf List.not_mem_nil
      · rename_i hNone
        have hOwn : ownDate res = false := Bool.not_eq_true _ ▸ hNone
        have hDate : svIeq (ascii "Date") (ascii "date") = true := by decide
        rw [List.mem_singleton.mp hf, comparedField, hOwn, fieldOf, svIeq_lower, hDate, Bool.not_true,
          Bool.or_false, Bool.and_false]
        exact Bool.false_ne_true
    · have hConnection : connSpecName (ascii "Connection") = true := by decide
      rw [List.mem_singleton.mp hf, comparedField, carriedField_fieldOf, hConnection, Bool.not_true,
        Bool.false_and,
        Bool.false_and]
      exact Bool.false_ne_true
  have hUser : (fields.map fieldOf).filter (comparedField (ownDate res)) =
    (fields.map fieldOf).filter carriedField := by
    refine List.filter_congr ?_
    intro e he
    obtain ⟨f, hf, rfl⟩ := List.mem_map.mp he
    rw [comparedField]
    cases hOwn : ownDate res with
    | true => rw [Bool.true_or, Bool.and_true]
    | false =>
      rw [ownDate_fieldsText hFields hText, List.any_eq_false] at hOwn
      have hNot := hOwn f hf
      rw [Bool.not_eq_true] at hNot
      rw [fieldOf, svIeq_lower, hNot, Bool.not_false, Bool.or_true, Bool.and_true]
  rw [List.map_append, List.map_append, List.filter_append, List.filter_append, hUser, hFraming,
    hClosing, List.append_nil,
    List.append_nil]

/-! ## The block over HTTP/2 -/

/-- The fields of a response's header block behind the status. -/
def blockFields (fields : List HttpHeader) (own : Bool) (date : Bytes) : List Field :=
  (fields.map fieldOf).filter carriedField ++ if own then [] else [⟨ascii "date", date⟩]

theorem responseBlock_eq (hText : res.headers = fieldsText fields) (hFields : ∀ f ∈ fields, CleanField f)
    (hStatus : res.status < 2 ^ 16) :
    responseBlock res date = hpackEncodeStatus res.status ++
      encodeFields (blockFields fields (ownDate res) date) := by
  have hLines : (svSplit 10 res.headers).map headerLineFields = fields.map fun f =>
      (if carriedField (fieldOf f) then [((fieldOf f).name, (fieldOf f).value)]
        else [], svIeq f.key (ascii "date")) := by
    rw [hText, svSplit_fieldsText fun f hf => (hFields f hf).ok, List.map_map]
    refine List.map_congr_left ?_
    intro f hf
    exact headerLineFields_text (hFields f hf)
  have hEncoded : (fields.map fun f =>
      ((if carriedField (fieldOf f) then [((fieldOf f).name, (fieldOf f).value)]
        else [] : List (Bytes × Bytes)),
        svIeq f.key (ascii "date"))).flatMap (fun l => l.1.flatMap fun e => hpackEncodeField e.1 e.2) =
      encodeFields ((fields.map fieldOf).filter carriedField) := by
    clear hLines hText hFields
    induction fields with
    | nil => rfl
    | cons f fields ih =>
      rw [List.map_cons, List.flatMap_cons, ih, List.map_cons, List.filter_cons]
      cases hCarried : carriedField (fieldOf f) with
      | true =>
        rw [if_pos rfl, if_pos rfl, encodeFields_cons]
        simp
      | false => simp
  have hDate : (fields.map fun f =>
      ((if carriedField (fieldOf f) then [((fieldOf f).name, (fieldOf f).value)]
        else [] : List (Bytes × Bytes)),
        svIeq f.key (ascii "date"))).any Prod.snd = ownDate res := by
    rw [ownDate_fieldsText hFields hText, List.any_map]
    rfl
  rw [responseBlock, Nat.mod_eq_of_lt hStatus, hLines, hEncoded, hDate, blockFields, List.append_assoc]
  congr 1
  cases ownDate res with
  | true =>
    rw [if_pos rfl, if_pos rfl, List.append_nil, List.append_nil]
  | false =>
    rw [if_neg Bool.false_ne_true, if_neg Bool.false_ne_true, encodeFields, encodeFields, List.flatMap_append]
    simp

/-! ## Agreement of the heads -/

theorem split_at_first {α : Type} {P : α → Prop} (l : List α) (h : ¬ ∀ a ∈ l, P a) :
    ∃ front a behind, l = front ++ a :: behind ∧ (∀ b ∈ front, P b) ∧ ¬ P a := by
  induction l with
  | nil => exact absurd (fun a ha => absurd ha List.not_mem_nil) h
  | cons a l ih =>
    by_cases ha : P a
    · have hRest : ¬ ∀ b ∈ l, P b := by
        intro hAll
        refine h fun b hb => ?_
        obtain rfl | hb := List.mem_cons.mp hb
        · exact ha
        · exact hAll b hb
      obtain ⟨front, b, behind, rfl, hFront, hb⟩ := ih hRest
      refine ⟨a :: front, b, behind, rfl, fun k hk => ?_, hb⟩
      obtain rfl | hk := List.mem_cons.mp hk
      · exact ha
      · exact hFront k hk
    · exact ⟨[], a, l, rfl, fun b hb => absurd hb List.not_mem_nil, ha⟩

theorem http2_status {hp : Hpack} {status : Nat} {block body : Bytes} {l : List Field} (hHigh : status ≤ 599)
    (h : readBlock (2 ^ 32) hp block = some (statusField status :: l)) :
    http2Message hp block body = some ⟨status, l.map trimmed, body⟩ := by
  have hMax : ((status : Nat) : Int) ≤ llongMax := by
    rw [llongMax]
    omega
  have hValue : svToI64 (statusField status).value = some (status : Int) := svToI64_decimal hMax
  rw [http2Message, h]
  dsimp only
  rw [if_pos (show (statusField status).name = ascii ":status" from rfl), hValue, Option.map_some,
    Int.toNat_natCast]

theorem compared_block (hText : res.headers = fieldsText fields) (hFields : ∀ f ∈ fields, CleanField f)
    (date' : Bytes) :
    ((blockFields fields (ownDate res) date').map trimmed).filter (comparedField (ownDate res)) =
      (fields.map fieldOf).filter carriedField := by
  have hSame : ((fields.map fieldOf).filter carriedField).map trimmed =
    (fields.map fieldOf).filter carriedField := by
    conv_rhs => rw [← List.map_id ((fields.map fieldOf).filter carriedField)]
    refine List.map_congr_left ?_
    intro e he
    obtain ⟨f, _, rfl⟩ := List.mem_map.mp (List.mem_of_mem_filter he)
    exact trimmed_fieldOf f
  have hKept : ((fields.map fieldOf).filter carriedField).filter (comparedField (ownDate res)) =
      (fields.map fieldOf).filter carriedField := by
    have hHead := @compared_head fields res date' hText hFields
    rw [← hHead, List.filter_filter]
    simp only [Bool.and_self]
  have hDate : ((if ownDate res then [] else [⟨ascii "date", date'⟩] : List Field).map trimmed).filter
      (comparedField (ownDate res)) = [] := by
    cases ownDate res with
    | true => rfl
    | false =>
      have hNot : comparedField false (trimmed ⟨ascii "date", date'⟩) = false := by
        have hIs : svIeq (ascii "date") (ascii "date") = true := by decide
        rw [comparedField, trimmed, svIeq_lower, hIs, Bool.not_true, Bool.or_false, Bool.and_false]
      rw [if_neg Bool.false_ne_true, List.map_singleton, List.filter_cons, hNot,
        if_neg Bool.false_ne_true, List.filter_nil]
  rw [blockFields, List.map_append, List.filter_append, hSame, hKept, hDate, List.append_nil]

theorem valuesFit_iff (hText : res.headers = fieldsText fields) (hFields : ∀ f ∈ fields, CleanField f) :
    ValuesFit res ↔ ∀ e ∈ (fields.map fieldOf).filter carriedField, ShortField e := by
  have hSplit : svSplit 10 res.headers = fields.map fun f => fieldText f ++ [13] := by
    rw [hText]
    exact svSplit_fieldsText fun f hf => (hFields f hf).ok
  rw [ValuesFit, hSplit]
  constructor
  · intro h e he
    obtain ⟨hMem, hCarried⟩ := List.mem_filter.mp he
    obtain ⟨f, hf, rfl⟩ := List.mem_map.mp hMem
    have hLine := lineField_text (hFields f hf).ok.colon
    have hValue := h _ (List.mem_map_of_mem hf)
    rw [hLine] at hValue
    have hLong := (hFields f hf).long
    refine ⟨?_, hValue hCarried⟩
    rw [fieldOf, List.length_map]
    omega
  · intro h line hLine hCarried
    obtain ⟨f, hf, rfl⟩ := List.mem_map.mp hLine
    rw [lineField_text (hFields f hf).ok.colon] at hCarried ⊢
    exact (h _ (List.mem_filter.mpr ⟨List.mem_map_of_mem hf, hCarried⟩)).2

/-- What is kept of the front is kept of the block, so a field that was cut meets the whole one. -/
theorem kept_cut_ne {own : Bool} {front behind tail : List Field} {e cut : Field}
    (hAll : ∀ k ∈ front ++ e :: behind, comparedField own k = true ∧ trimmed k = k)
    (hName : cut.name = e.name)
    (hShort : cut.value.length < e.value.length) :
    front ++ e :: behind ≠ ((front ++ [cut] ++ tail).map trimmed).filter (comparedField own) := by
  have hFrontKept : (front.map trimmed).filter (comparedField own) = front := by
    have hMap : front.map trimmed = front := by
      conv_rhs => rw [← List.map_id front]
      refine List.map_congr_left ?_
      intro k hk
      exact (hAll k (List.mem_append_left _ hk)).2
    rw [hMap, List.filter_eq_self]
    intro k hk
    exact (hAll k (List.mem_append_left _ hk)).1
  have hCutKept : comparedField own (trimmed cut) = true := by
    have hWhole := (hAll e (List.mem_append_right _ List.mem_cons_self)).1
    rw [comparedField, carriedField, trimmed, connSpecName_lower, svIeq_lower, svIeq_lower, hName]
    exact hWhole
  intro hSame
  rw [List.map_append, List.map_append, List.filter_append, List.filter_append, hFrontKept,
    List.map_singleton,
    List.filter_cons, hCutKept, if_pos rfl, List.append_assoc] at hSame
  have hHeads := (List.cons.inj (List.append_cancel_left hSame)).1
  have hLength := congrArg (fun e : Field => e.value.length) hHeads
  have hTrim := svTrim_length_le cut.value
  change e.value.length = (svTrim cut.value).length at hLength
  omega

theorem same_iff (hText : res.headers = fieldsText fields) (hFields : ∀ f ∈ fields, CleanField f)
    (hLow : 200 ≤ res.status)
    (hHigh : res.status ≤ 599) {date' : Bytes} (hDate' : date'.length < 64) (hp : Hpack) {wire body : Bytes}
    (hWire : http1Message res.streaming wire =
      some ⟨res.status, (fields ++ framingFields res ++ closingFields res date).map fieldOf, body⟩) :
    SameMessage res hp wire (responseBlock res date') body ↔ ValuesFit res := by
  have hBlock := @responseBlock_eq fields res date' hText hFields (by omega)
  have hStatus : (decimal res.status).length < 2 ^ 32 := by
    have hThree := @length_decimal_le res.status (by omega)
    omega
  have hKept := @compared_head fields res date hText hFields
  rw [valuesFit_iff hText hFields]
  constructor
  · rintro ⟨m₁, m₂, hFirst, hSecond, hSame⟩
    by_contra hLong
    obtain ⟨front, e, behind, hSplit, hFront, he⟩ := split_at_first _ hLong
    obtain rfl := Option.some.inj (hWire.symm.trans hFirst)
    have hMem : e ∈ (fields.map fieldOf).filter carriedField := by
      rw [hSplit]
      exact List.mem_append_right _ List.mem_cons_self
    obtain ⟨f, hf, rfl⟩ := List.mem_map.mp (List.mem_of_mem_filter hMem)
    have hName : (fieldOf f).name.length < 2 ^ 32 := by
      have hKey := (hFields f hf).long
      rw [fieldOf, List.length_map]
      omega
    have hValue : 2 ^ 32 ≤ (fieldOf f).value.length := not_lt.mp fun hShort => he ⟨hName, hShort⟩
    cases hRead : readBlock (2 ^ 32) hp (responseBlock res date') with
    | none =>
      rw [http2Message, hRead] at hSecond
      cases hSecond
    | some out =>
      have hCut := hRead
      rw [hBlock, blockFields, hSplit, List.append_assoc, List.cons_append] at hCut
      obtain ⟨tail, hOut⟩ := readBlock_cut (Nat.le_refl _) hp hStatus hFront hName hCut
      rw [← hOut] at hRead
      have hRead : readBlock (2 ^ 32) hp (responseBlock res date') = some (statusField res.status ::
          (front ++ [⟨(fieldOf f).name, (fieldOf f).value.take (lengthSent (fieldOf f).value)⟩] ++
          tail)) := hRead
      have hGot := @http2_status hp res.status _ body _ hHigh hRead
      obtain rfl := Option.some.inj (hGot.symm.trans hSecond)
      have hAll : ∀ k ∈ front ++ fieldOf f :: behind, comparedField (ownDate res) k = true ∧
        trimmed k = k := by
        intro k hk
        rw [← hSplit, ← hKept] at hk
        obtain ⟨hIn, hCompared⟩ := List.mem_filter.mp hk
        obtain ⟨g, _, rfl⟩ := List.mem_map.mp hIn
        exact ⟨hCompared, trimmed_fieldOf g⟩
      have hLists := congrArg Delivered.fields hSame
      rw [Delivered.compared, Delivered.compared] at hLists
      dsimp only at hLists
      rw [hKept, hSplit] at hLists
      refine absurd hLists (kept_cut_ne hAll rfl ?_)
      have hSentLength : lengthSent (fieldOf f).value < 2 ^ 32 := Nat.mod_lt _ (by decide)
      rw [List.length_take]
      omega
  · intro hShort
    have hAll : ∀ e ∈ blockFields fields (ownDate res) date', ShortField e := by
      intro e he
      obtain he | he := List.mem_append.mp he
      · exact hShort e he
      · split at he
        · exact absurd he List.not_mem_nil
        · rw [List.mem_singleton.mp he]
          refine ⟨show (ascii "date").length < 2 ^ 32 by decide, ?_⟩
          change date'.length < 2 ^ 32
          omega
    have hRead := readBlock_encoded (Nat.le_refl (2 ^ 32)) hp hStatus hAll
    rw [← hBlock] at hRead
    refine ⟨_, _, hWire, @http2_status hp res.status _ body _ hHigh hRead, ?_⟩
    rw [Delivered.compared, Delivered.compared]
    dsimp only
    rw [hKept, compared_block hText hFields]

/-! ## Bodies -/

theorem chunkLength_digit {d : Nat} (hd : d < 16) (n : Nat) (rest : Bytes) :
    chunkLength n (hexDigitChar d :: rest) = chunkLength (n * 16 + d) rest := by
  obtain ⟨hDigit, hCr, _, _⟩ := hexDigitChar_facts hd
  rw [chunkLength, if_neg hCr, hDigit]

theorem chunkLength_hexFuel (fuel : Nat) : ∀ {n : Nat} (acc : Nat) (rest : Bytes), n ≤ fuel →
    chunkLength acc (hexFuel fuel n ++ rest) = chunkLength (acc * 16 ^ (hexFuel fuel n).length + n) rest := by
  induction fuel with
  | zero =>
    intro n acc rest hn
    obtain rfl : n = 0 := by omega
    rw [hexFuel, List.length_singleton, Nat.pow_one, List.singleton_append, chunkLength_digit (by omega)]
  | succ fuel ih =>
    intro n acc rest hn
    rw [hexFuel]
    split
    · rename_i hSmall
      rw [List.length_singleton, Nat.pow_one, List.singleton_append, chunkLength_digit hSmall]
    · have hPow : acc * (16 ^ (hexFuel fuel (n / 16)).length * 16) = acc * 16 ^
        (hexFuel fuel (n / 16)).length * 16 :=
        (Nat.mul_assoc _ _ _).symm
      rw [List.length_append, List.length_singleton, Nat.pow_succ, List.append_assoc, List.singleton_append,
        ih acc _ (by omega), chunkLength_digit (Nat.mod_lt _ (by decide)), hPow]
      congr 1
      omega

theorem chunkLength_hex (n : Nat) (rest : Bytes) :
    chunkLength 0 (hex n ++ (crlf ++ rest)) = some (n, rest) := by
  rw [hex, chunkLength_hexFuel n 0 _ (Nat.le_refl n), Nat.zero_mul, Nat.zero_add]
  rfl

theorem dechunk_chunksText (chunks : List Bytes) (hSome : ∀ ch ∈ chunks, ch ≠ []) :
    ∀ fuel, chunks.length < fuel → dechunk fuel (chunksText chunks) = some chunks.flatten := by
  induction chunks with
  | nil =>
    intro fuel hFuel
    obtain ⟨fuel, rfl⟩ : ∃ k, fuel = k + 1 := ⟨fuel - 1, by omega⟩
    rfl
  | cons ch chunks ih =>
    intro fuel hFuel
    obtain ⟨fuel, rfl⟩ : ∃ k, fuel = k + 1 := ⟨fuel - 1, by omega⟩
    have hText : chunksText (ch :: chunks) = hex ch.length ++
      (crlf ++ (ch ++ (crlf ++ chunksText chunks))) := by
      rw [chunksText, List.flatMap_cons, chunkFrame]
      simp only [chunksText, List.append_assoc]
    have hPos := List.length_pos_iff.mpr (hSome ch List.mem_cons_self)
    have hCrlf : crlf.length = 2 := rfl
    rw [List.length_cons] at hFuel
    rw [hText, dechunk, chunkLength_hex]
    dsimp only
    rw [if_neg (by omega), if_neg (by rw [List.length_append, List.length_append]; omega),
      List.take_left, ← List.drop_drop,
      List.drop_left, ← hCrlf, List.drop_left, ih (fun c hc => hSome c (List.mem_cons_of_mem _ hc)) fuel
        (by omega)]
    rfl

theorem length_le_chunksText (chunks : List Bytes) : chunks.length ≤ (chunksText chunks).length := by
  induction chunks with
  | nil => exact Nat.zero_le _
  | cons ch chunks ih =>
    have hText : chunksText (ch :: chunks) = chunkFrame ch ++ chunksText chunks := by
      rw [chunksText, List.flatMap_cons, List.append_assoc]
      rfl
    have hFrame : 0 < (chunkFrame ch).length := by
      rw [chunkFrame, List.length_append]
      have hCrlf : crlf.length = 2 := rfl
      omega
    rw [hText, List.length_append, List.length_cons]
    omega

theorem flatten_filter_some (chunks : List Bytes) : (chunks.filter (· ≠ [])).flatten = chunks.flatten := by
  induction chunks with
  | nil => rfl
  | cons ch chunks ih =>
    rw [List.filter_cons]
    split
    · rw [List.flatten_cons, List.flatten_cons, ih]
    · rename_i hNil
      rw [decide_eq_true_eq, not_not] at hNil
      rw [ih, List.flatten_cons, hNil, List.nil_append]

theorem streamedChunks_steady (hSteady : ∀ fn, res.streamFn = some fn → ∃ body, Steady fn body) :
    (∃ calls chunks, streamedChunks res calls = some chunks) ∧
      ∀ calls chunks, streamedChunks res calls = some chunks → (∀ ch ∈ chunks, ch ≠ []) ∧
        (res.streamFn = none → chunks.flatten = res.streamChunks.flatten) ∧
        ∀ fn body, res.streamFn = some fn → Steady fn body →
          chunks.flatten = res.streamChunks.flatten ++ body := by
  constructor
  · cases hFn : res.streamFn with
    | none => exact ⟨0, _, by rw [streamedChunks, hFn]⟩
    | some fn =>
      obtain ⟨body, hBody⟩ := hSteady fn hFn
      obtain ⟨made, hMade⟩ :=
        hBody.producedChunks_some (body.length + 1) .start (by rw [List.length_nil]; omega)
      exact ⟨body.length + 1, _, by rw [streamedChunks, hFn]; dsimp only; rw [hMade]; rfl⟩
  · intro calls chunks hChunks
    refine ⟨streamed_ok hChunks, ?_, ?_⟩
    · intro hFn
      rw [streamedChunks, hFn] at hChunks
      rw [← Option.some.inj hChunks]
      exact flatten_filter_some _
    · intro fn body hFn hBody
      rw [streamedChunks, hFn] at hChunks
      obtain ⟨made, hMade, rfl⟩ := Option.map_eq_some_iff.mp hChunks
      rw [List.flatten_append, flatten_filter_some, ← (hBody.producedChunks_eq calls .start hMade).1,
        List.nil_append]

theorem ended_body {env : H2Env} {s : H2Stream} {frames : List H2Frame} {block : Bytes}
    (hDelivery : Delivery s frames)
    (hResponding : Responding env s block) (hEnded : s.localEnded = true) (hMethod : s.req.method ≠ .head)
    (hKept : s.res.suppressBody = false) :
    bodyOf frames = (if statusHasNoBody s.res.status then [] else fullBody s) ∧
      (s.res.streaming = true → statusHasNoBody s.res.status = false → ∀ fn body, s.res.streamFn = some fn →
        Steady fn body → produced s = body) := by
  obtain ⟨hBody, hExhausted, _⟩ := hDelivery.ended hEnded
  have hHead : (s.req.method == HttpMethod.head) = false := beq_eq_false_iff_ne.mpr hMethod
  constructor
  · rw [hBody, entityBody, noBody, hKept, hHead, Bool.or_false, Bool.or_false]
    rfl
  · intro hStreaming hAdmits fn body hFn hSteady
    have hWants : bodyless s = false := by
      rw [statusHasNoBody] at hAdmits
      rw [bodyless, hKept, hHead, hStreaming]
      simp only [hAdmits]
      rfl
    have hEof := hResponding.ended hEnded hWants (by rw [hFn]; exact Option.some_ne_none _)
    obtain ⟨caps, cap, hCaps, hPos, hMax, hOffered⟩ := hResponding.asked.stopped fn hFn hEof
    have hFits := hSteady.fits hOffered hPos
    obtain hNil | hLarge := hExhausted hWants fn hFn
    · rw [hCaps] at hNil
      exact hSteady.ends hOffered hPos hNil
    · rw [hCaps] at hLarge
      omega

/-! ## Both wires -/

theorem head_fieldOk (hFields : ∀ f ∈ fields, CleanField f) (hDate : DateText date) :
    ∀ f ∈ fields ++ framingFields res ++ closingFields res date, FieldOk f := by
  intro f hf
  obtain hf | hf := List.mem_append.mp hf
  · obtain hf | hf := List.mem_append.mp hf
    · exact (hFields f hf).ok
    · exact framingFields_ok _ f hf
  · exact closingFields_ok _ hDate.2 f hf

theorem http1_plain (hText : res.headers = fieldsText fields) (hFields : ∀ f ∈ fields, CleanField f)
    (hLow : 200 ≤ res.status)
    (hHigh : res.status ≤ 599) (hDate : DateText date) (hKept : res.suppressBody = false)
    (hUpgrade : res.upgrade = false)
    (hPlain : res.streaming = false) {calls : Nat} {wire : Bytes}
    (hWire : writeResponse res date calls false = some wire) :
    http1Message res.streaming wire =
      some ⟨res.status, (fields ++ framingFields res ++ closingFields res date).map fieldOf,
        if statusHasNoBody res.status then [] else res.body⟩ := by
  have hChunks : streamedChunks res 0 = some [] := by
    rw [HttpResponse.streaming, Bool.or_eq_false_iff, Bool.not_eq_false'] at hPlain
    rw [streamedChunks, Option.isNone_iff_eq_none.mp (Option.isSome_eq_false_iff.mp hPlain.1),
      List.isEmpty_iff.mp hPlain.2]
    rfl
  have hZero : writeResponse res date 0 false = some wire := by
    rw [writeResponse, hUpgrade, if_neg Bool.false_ne_true, hPlain, if_neg Bool.false_ne_true] at hWire ⊢
    exact hWire
  have hEq := writeResponse_eq hKept hUpgrade hChunks hZero
  rw [payloadText, hPlain, if_neg Bool.false_ne_true, serializeHead_eq hLow hText date] at hEq
  rw [hEq, hPlain]
  exact http1_head hLow hHigh (head_fieldOk hFields hDate) false rfl

theorem http1_streamed (hText : res.headers = fieldsText fields) (hFields : ∀ f ∈ fields, CleanField f)
    (hLow : 200 ≤ res.status)
    (hHigh : res.status ≤ 599) (hDate : DateText date) (hKept : res.suppressBody = false)
    (hUpgrade : res.upgrade = false)
    (hStreaming : res.streaming = true) {calls : Nat} {wire : Bytes}
    (hWire : writeResponse res date calls false = some wire) :
    ∃ chunks, streamedChunks res calls = some chunks ∧
      http1Message res.streaming wire =
        some ⟨res.status, (fields ++ framingFields res ++ closingFields res date).map fieldOf,
          chunks.flatten⟩ := by
  cases hChunks : streamedChunks res calls with
  | none =>
    rw [writeResponse, hUpgrade, if_neg Bool.false_ne_true, hStreaming, if_pos rfl, sendStream,
      if_neg (by decide), hChunks] at hWire
    cases hWire
  | some chunks =>
    have hEq := writeResponse_eq hKept hUpgrade hChunks hWire
    have hCount := length_le_chunksText chunks
    rw [payloadText, if_pos hStreaming, serializeHead_eq hLow hText date] at hEq
    refine ⟨chunks, rfl, ?_⟩
    rw [hEq, hStreaming]
    refine http1_head hLow hHigh (head_fieldOk hFields hDate) true ?_
    rw [if_pos rfl, dechunk_chunksText chunks (streamed_ok hChunks) _ (by omega)]

theorem writeResponse_some (hUpgrade : res.upgrade = false)
    (hSteady : ∀ fn, res.streamFn = some fn → ∃ body, Steady fn body) :
    ∃ calls wire, writeResponse res date calls false = some wire := by
  obtain ⟨⟨calls, chunks, hChunks⟩, _⟩ := streamedChunks_steady hSteady
  refine ⟨calls, ?_⟩
  rw [writeResponse, hUpgrade, if_neg Bool.false_ne_true]
  split
  · rw [sendStream, if_neg (by decide), hChunks]
    exact ⟨_, rfl⟩
  · exact ⟨_, rfl⟩

theorem ended_stream {env : H2Env} (hWrites : ∀ n, env.writeOk n = true) {upgrade : Option HttpRequest}
    {c₀ p : H2Conn}
    (hStart : h2Start env upgrade = some c₀) (hPoint : SettlePoint env c₀ p) {s : H2Stream}
    (hs : s ∈ (pumped env p).streams)
    (hEnded : s.localEnded = true) :
    Delivery s (carried s.id (pumped env p).trace) ∧ Responding env s (blockOf s.id (pumped env p).trace) ∧
      ∃ n, blockOf s.id (pumped env p).trace = responseBlock s.res (env.date n) := by
  obtain ⟨hDelivering, hDistinct⟩ :=
    hPoint.delivering hWrites ⟨delivering_start hStart, distinct_start hStart⟩
  have hDelivery := (pumped_delivering hWrites hDelivering hDistinct).streams s hs
  have hResponding := pumped_responding hWrites hStart hPoint hs
  refine ⟨hDelivery, hResponding, hResponding.head ?_⟩
  by_contra hNot
  obtain ⟨_, _, _, _, _, hOpen⟩ := hDelivery.waiting (Bool.not_eq_true _ ▸ hNot)
  rw [hEnded] at hOpen
  cases hOpen

/-- A response built by the calls and streamed, if at all, by a steady producer
is delivered alike over both protocols exactly when the values of its fields fit
the lengths of HPACK. -/
theorem wires_agree_iff {env : H2Env} (hWrites : ∀ n, env.writeOk n = true)
    (hDates : ∀ n, DateText (env.date n))
    {upgrade : Option HttpRequest} {c₀ p : H2Conn} (hStart : h2Start env upgrade = some c₀)
    (hPoint : SettlePoint env c₀ p)
    {s : H2Stream} (hs : s ∈ (pumped env p).streams) (hEnded : s.localEnded = true)
    (hMethod : s.req.method ≠ .head)
    {ops : List ResponseOp} (hOps : ∀ op ∈ ops, ∀ f, opField op = some f → TokenField f)
    (hRes : s.res = buildResponse ops)
    (hLow : 200 ≤ s.res.status) (hHigh : s.res.status ≤ 599)
    (hAdmits : s.res.streaming = true → statusHasNoBody s.res.status = false)
    (hSteady : ∀ fn, s.res.streamFn = some fn → ∃ body, Steady fn body) (keepAlive : Bool)
    {date : Bytes} (hDate : DateText date)
    (hp : Hpack) :
    ((∃ calls wire, writeResponse { s.res with keepAlive := keepAlive } date calls false = some wire) ∧
      ∀ calls wire, writeResponse { s.res with keepAlive := keepAlive } date calls false = some wire →
        SameMessage s.res hp wire (blockOf s.id (pumped env p).trace)
          (bodyOf (carried s.id (pumped env p).trace))) ↔
      ValuesFit s.res := by
  obtain ⟨⟨fields, hFields, hText⟩, hKept, hUpgrade⟩ :=
    cleanField_caseFree.build ops fun op hOp f hf => (hOps op hOp f hf).clean
  rw [← hRes] at hText hKept hUpgrade
  obtain ⟨hDelivery, hResponding, n, hBlock⟩ := ended_stream hWrites hStart hPoint hs hEnded
  obtain ⟨hBody, hProduced⟩ := ended_body hDelivery hResponding hEnded hMethod hKept
  rw [hBlock, hBody]
  have hRead : ∀ calls wire, writeResponse { s.res with keepAlive := keepAlive } date calls false =
    some wire →
      http1Message s.res.streaming wire = some ⟨s.res.status,
        (fields ++ framingFields { s.res with keepAlive := keepAlive } ++
          closingFields { s.res with keepAlive := keepAlive } date).map fieldOf,
        if statusHasNoBody s.res.status then [] else fullBody s⟩ := by
    intro calls wire hWire
    cases hStreaming : s.res.streaming with
    | true =>
      obtain ⟨chunks, hChunks, hMessage⟩ :=
        @http1_streamed fields { s.res with keepAlive := keepAlive } date hText hFields hLow
        hHigh hDate hKept hUpgrade hStreaming calls wire hWire
      obtain ⟨_, hQueued, hMade⟩ := (streamedChunks_steady hSteady).2 calls chunks hChunks
      have hFlat : chunks.flatten = if statusHasNoBody s.res.status then [] else fullBody s := by
        rw [hAdmits hStreaming, if_neg Bool.false_ne_true, fullBody, if_pos hStreaming, queued]
        cases hFn : s.res.streamFn with
        | none => rw [hQueued hFn, produced_of_none hFn, List.append_nil]
        | some fn =>
          obtain ⟨body, hSteadyFn⟩ := hSteady fn hFn
          rw [hMade fn body hFn hSteadyFn, hProduced hStreaming (hAdmits hStreaming) fn body hFn hSteadyFn]
      rw [← hFlat, ← hStreaming]
      exact hMessage
    | false =>
      have hMessage :=
        @http1_plain fields { s.res with keepAlive := keepAlive } date hText hFields hLow hHigh hDate hKept
        hUpgrade hStreaming calls wire hWire
      rw [fullBody, hStreaming, if_neg Bool.false_ne_true, ← hStreaming]
      exact hMessage
  have hSame : ∀ calls wire, writeResponse { s.res with keepAlive := keepAlive } date calls false =
    some wire →
      (SameMessage s.res hp wire (responseBlock s.res (env.date n))
        (if statusHasNoBody s.res.status then [] else fullBody s) ↔ ValuesFit s.res) :=
        fun calls wire hWire =>
    @same_iff fields { s.res with keepAlive := keepAlive } date hText hFields hLow hHigh _
      (hDates n).1 hp wire _
      (hRead calls wire hWire)
  constructor
  · rintro ⟨⟨calls, wire, hWire⟩, hAgree⟩
    exact (hSame calls wire hWire).mp (hAgree calls wire hWire)
  · intro hFit
    exact ⟨@writeResponse_some { s.res with keepAlive := keepAlive } date hUpgrade hSteady,
      fun calls wire hWire => (hSame calls wire hWire).mpr hFit⟩

/-! ## A request after an upgrade -/

def epoch : Bytes := ascii "Thu, 01 Jan 1970 00:00:00 GMT"

def rootRequest : HttpRequest :=
  { emptyRequest with method := .get, target := ascii "/", path := ascii "/", version := ascii "HTTP/1.1" }

def pushOps : List ResponseOp :=
  [.setHeader (ascii "X-Kind") (ascii " a b"), .streamWrite (ascii "hi"),
    .setStream (textProducer (ascii " ho"))]

/-- Every request is answered with one field, one pushed chunk and a callback. -/
def pushEnv : H2Env := { plainEnv with handler := fun _ => buildResponse pushOps, date := fun _ => epoch }

def pushStart : H2Conn := (h2Start pushEnv (some rootRequest)).getD h2Init

theorem setHeader_token {name value : Bytes} (h : TokenField ⟨name, value⟩) {more : List ResponseOp}
    (hMore : ∀ op ∈ more, opField op = none) : ∀ op ∈ .setHeader name value :: more, ∀ f,
      opField op = some f → TokenField f := by
  intro op hOp f hf
  obtain rfl | hOp := List.mem_cons.mp hOp
  · exact Option.some.inj hf ▸ h
  · rw [hMore op hOp] at hf
    cases hf

theorem wires_agree_push :
    ∃ s ∈ (pumped pushEnv pushStart).streams,
      bodyOf (carried s.id (pumped pushEnv pushStart).trace) = ascii "hi ho" ∧
        ∀ calls wire, writeResponse { s.res with keepAlive := true } epoch calls false = some wire →
          SameMessage s.res hpackInit wire (blockOf s.id (pumped pushEnv pushStart).trace)
            (bodyOf (carried s.id (pumped pushEnv pushStart).trace)) := by
  have hStart : h2Start pushEnv (some rootRequest) = some pushStart := rfl
  have hOne : (pumped pushEnv pushStart).streams.length = 1 := by decide +kernel
  have hFacts : (pumped pushEnv pushStart).streams.all (fun s => s.localEnded && s.req.method == .get &&
      decide (bodyOf (carried s.id (pumped pushEnv pushStart).trace) = ascii "hi ho")) = true := by
        decide +kernel
  have hList : (pumped pushEnv pushStart).streams.map H2Stream.res = [buildResponse pushOps] := rfl
  obtain ⟨s, hStreams⟩ := List.length_eq_one_iff.mp hOne
  have hs : s ∈ (pumped pushEnv pushStart).streams := by
    rw [hStreams]
    exact List.mem_singleton_self s
  have hHolds := List.all_eq_true.mp hFacts s hs
  simp only [Bool.and_eq_true, decide_eq_true_eq, beq_iff_eq] at hHolds
  obtain ⟨⟨hEnded, hMethod⟩, hBody⟩ := hHolds
  have hRes : s.res = buildResponse pushOps := by
    rw [hStreams] at hList
    exact (List.cons.inj hList).1
  have hToken : TokenField ⟨ascii "X-Kind", ascii " a b"⟩ :=
    ⟨by decide, by decide +kernel, by decide, by decide, by decide⟩
  have hSteady : ∀ fn, s.res.streamFn = some fn → ∃ body, Steady fn body := by
    intro fn hFn
    rw [hRes] at hFn
    exact ⟨ascii " ho", Option.some.inj hFn ▸ textProducer_steady (ascii " ho")⟩
  refine ⟨s, hs, hBody, ?_⟩
  apply ((@wires_agree_iff pushEnv (fun _ => rfl)
      (fun _ => by change DateText epoch; rw [DateText]; decide) _ _ _ hStart .start
    s hs hEnded (by rw [hMethod]; decide) pushOps (setHeader_token hToken (by simp [opField])) hRes
      (by rw [hRes]; decide)
    (by rw [hRes]; decide) (fun _ => by rw [hRes]; decide) hSteady true epoch (by rw [DateText]; decide)
    hpackInit).mpr ?_).2
  rw [hRes, ValuesFit]
  decide +kernel

/-! ## A value of 4 GiB -/

/-- Every request is answered with one field. -/
def valueEnv (value : Bytes) : H2Env :=
  { plainEnv with handler := fun _ => buildResponse [.setHeader (ascii "x") value, .addBody []], date :=
    fun _ => epoch }

def valueStart (value : Bytes) : H2Conn := (h2Start (valueEnv value) (some rootRequest)).getD h2Init

theorem pumpStream_bodyless {env : H2Env} (hWrites : ∀ n, env.writeOk n = true) {c : H2Conn} {i : Nat}
    {s : H2Stream}
    (hDelivering : Delivering c) (hDistinct : Distinct c) (hAt : c.streams[i]? = some s)
    (hSent : s.headersSent = false)
    (hReady : s.responseReady = true) (hReset : s.reset = false) (hOpen : s.localEnded = false)
    (hOk : c.error = none)
    (hNone : bodyless s = true) : (pumpStream env c i).1.streams = c.streams.modify i (headOut true) := by
  obtain ⟨_, hStreams⟩ := pumpHead_delivering hWrites hDelivering hDistinct hAt hSent hReady hOk
  rw [hNone] at hStreams
  have hEnded : (pumpHead env c i s).1.streams[i]? = some (headOut true s) := by
    rw [hStreams, List.getElem?_modify_eq, hAt]
    rfl
  rw [pumpStream, hAt]
  dsimp only
  rw [if_neg (by rw [hReset, hOpen, hReady]; decide), hSent, if_neg Bool.false_ne_true]
  split
  · rw [pumpBody, hEnded]
    dsimp only
    rw [if_pos (.inl rfl)]
    exact hStreams
  · exact hStreams

theorem valueStart_pumped (value : Bytes) :
    ∃ s, (pumped (valueEnv value) (valueStart value)).streams = [s] ∧ s.localEnded = true ∧
      s.req.method = .get ∧
      s.res = buildResponse [.setHeader (ascii "x") value, .addBody []] := by
  have hStart : h2Start (valueEnv value) (some rootRequest) = some (valueStart value) := rfl
  obtain ⟨s, hStreams, hRes, hSent, hReady, hReset, hOpen, hMethod, hNone⟩ :
      ∃ s, (h2DispatchReady (valueEnv value) (valueStart value)).streams = [s] ∧
        s.res = buildResponse [.setHeader (ascii "x") value, .addBody []] ∧ s.headersSent = false ∧
        s.responseReady = true ∧
        s.reset = false ∧ s.localEnded = false ∧ s.req.method = .get ∧ bodyless s = true :=
    ⟨_, rfl, rfl, rfl, rfl, rfl, rfl, rfl, rfl⟩
  have hOk : (h2DispatchReady (valueEnv value) (valueStart value)).error = none := rfl
  have hDelivering := @h2DispatchReady_delivering (valueEnv value) _ (delivering_start hStart)
  have hDistinct :=
    (@h2DispatchReady_steps (valueEnv value) (valueStart value)).distinct (distinct_start hStart)
  have hStream := @pumpStream_bodyless (valueEnv value) (fun _ => rfl) _ 0 s hDelivering hDistinct
    (by rw [hStreams]; rfl) hSent
    hReady hReset hOpen hOk hNone
  rw [hStreams] at hStream
  refine ⟨headOut true s, ?_, rfl, hMethod, hRes⟩
  rw [pumped, h2Pump, if_pos hOk, hStreams, List.length_singleton, pumpFrom]
  rcases hResult : pumpStream (valueEnv value)
    (h2DispatchReady (valueEnv value) (valueStart value)) 0 with ⟨c', _ | _⟩
  · rw [hResult] at hStream
    exact hStream
  · rw [hResult] at hStream
    exact hStream

def longValue : Bytes := List.replicate (2 ^ 32) 97

theorem longValue_byte {b : UInt8} (h : b ∈ longValue) : b = 97 := List.eq_of_mem_replicate h

theorem longValue_token : TokenField ⟨ascii "x", longValue⟩ where
  some := List.cons_ne_nil _ _
  token := by decide +kernel
  long := by decide
  valueCr h := absurd (longValue_byte h) (by decide)
  valueLf h := absurd (longValue_byte h) (by decide)

theorem longValue_fieldOf : fieldOf ⟨ascii "x", longValue⟩ = ⟨ascii "x", longValue⟩ := by
  have hValue : svTrim longValue = longValue := by
    refine svTrim_solid fun b hb => ?_
    rw [longValue_byte hb]
    decide
  rw [fieldOf, hValue]
  rfl

/-- Its length goes out as zero. -/
theorem wires_differ_long :
    ∃ s ∈ (pumped (valueEnv longValue) (valueStart longValue)).streams,
      h2Start (valueEnv longValue) (some rootRequest) = some (valueStart longValue) ∧
      s.localEnded = true ∧ s.req.method = .get ∧
        s.res = buildResponse [.setHeader (ascii "x") longValue, .addBody []] ∧
      (∀ op ∈ [.setHeader (ascii "x") longValue, .addBody []], ∀ f, opField op = some f → TokenField f) ∧
      s.res.status = 200 ∧ s.res.streaming = false ∧
      ∃ calls wire, writeResponse { s.res with keepAlive := true } epoch calls false = some wire ∧
        ¬ SameMessage s.res hpackInit wire
          (blockOf s.id (pumped (valueEnv longValue) (valueStart longValue)).trace)
            (bodyOf (carried s.id (pumped (valueEnv longValue) (valueStart longValue)).trace)) := by
  obtain ⟨s, hStreams, hEnded, hMethod, hRes⟩ := valueStart_pumped longValue
  have hs : s ∈ (pumped (valueEnv longValue) (valueStart longValue)).streams := by
    rw [hStreams]
    exact List.mem_singleton_self s
  have hStart : h2Start (valueEnv longValue) (some rootRequest) = some (valueStart longValue) := rfl
  have hText : s.res.headers = fieldsText [⟨ascii "x", longValue⟩] := by
    rw [hRes, fieldsText_singleton]
    rfl
  have hFields : ∀ f ∈ [(⟨ascii "x", longValue⟩ : HttpHeader)], CleanField f := by
    intro f hf
    rw [List.mem_singleton.mp hf]
    exact longValue_token.clean
  have hFacts : s.res.status = 200 ∧ s.res.streaming = false ∧ s.res.suppressBody = false ∧
    s.res.upgrade = false ∧
      s.res.streamFn = none := by
    rw [hRes]
    exact ⟨rfl, rfl, rfl, rfl, rfl⟩
  obtain ⟨hStatus, hPlain, hKept, hUpgrade, hNone⟩ := hFacts
  obtain ⟨hDelivery, hResponding, n, hBlock⟩ := ended_stream (fun _ => rfl) hStart .start hs hEnded
  have hBody := (ended_body hDelivery hResponding hEnded (by rw [hMethod]; decide) hKept).1
  obtain ⟨calls, wire, hWire⟩ := @writeResponse_some { s.res with keepAlive := true } epoch hUpgrade
    fun fn hFn => absurd ((show s.res.streamFn = some fn from hFn).symm.trans hNone) (Option.some_ne_none fn)
  refine ⟨s, hs, hStart, hEnded, hMethod, hRes, setHeader_token longValue_token (by simp [opField]),
    hStatus, hPlain, calls, wire, hWire, ?_⟩
  have hDate : DateText epoch := by
    rw [DateText]
    decide
  have hMessage := @http1_plain [⟨ascii "x", longValue⟩] { s.res with keepAlive := true } epoch hText hFields
    (Nat.le_of_eq hStatus.symm) (by rw [hStatus]; decide) hDate hKept hUpgrade hPlain calls wire hWire
  have hSame : bodyOf (carried s.id (pumped (valueEnv longValue) (valueStart longValue)).trace) =
      if statusHasNoBody s.res.status then [] else s.res.body := by
    rw [hBody, fullBody, hPlain, if_neg Bool.false_ne_true]
  rw [hBlock, hSame]
  intro hAgree
  have hFit := (@same_iff [⟨ascii "x", longValue⟩] { s.res with keepAlive := true } epoch hText hFields
    (Nat.le_of_eq hStatus.symm) (by rw [hStatus]; decide) epoch hDate.1 hpackInit wire _ hMessage).mp hAgree
  have hShort := ((valuesFit_iff hText hFields).mp hFit ⟨ascii "x", longValue⟩ ?_).2
  · rw [longValue, List.length_replicate] at hShort
    exact absurd hShort (Nat.lt_irrefl _)
  · rw [List.map_singleton, longValue_fieldOf, List.filter_cons, if_pos]
    · exact List.mem_cons_self
    · rw [carriedField]
      decide

end Cweb.Wires
