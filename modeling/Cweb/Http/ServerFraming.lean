import Cweb.Http.ServerReject

/-!
# Where a request ends

How long a body is, is told by the first `Content-Length` line of a head, or by
the presence of a `Transfer-Encoding` line. Other lines of these names, and the
value of the latter, are not looked at. A head is unambiguous when it leaves
nothing to choose.
-/

namespace Cweb

open Sv H2 Loop

variable {env : ServerEnv}

/-! ## The fields of a head -/

def fieldLine (text : Bytes) : Option HttpHeader :=
  match text.dropWhile (· ≠ 58) with
  | [] => none
  | _ :: value =>
    let key := svTrim (text.takeWhile (· ≠ 58))
    if key = [] then none else some ⟨key, svTrim value⟩

def headLines (head : Bytes) : List Bytes := (svSplit 10 (svTrim head)).map dropCr

/-- The fields of a head, as the parser reads them. -/
def fieldsOf (head : Bytes) : List HttpHeader := ((headLines head).drop 1).filterMap fieldLine

def isBlank (b : UInt8) : Bool := b == 32 || b == 9

def trimBlanks (value : Bytes) : Bytes := (value.dropWhile isBlank).rdropWhile isBlank

/-- A line that begins with a blank goes on with the one before it. -/
def joinFolds (text : Bytes) : List Bytes → List Bytes
  | [] => [text]
  | next :: rest => if next.head?.any isBlank then joinFolds (text ++ next) rest
    else text :: joinFolds next rest

def sentLine (text : Bytes) : Option HttpHeader :=
  match text.dropWhile (· ≠ 58) with
  | [] => none
  | _ :: value => some ⟨text.takeWhile (· ≠ 58), trimBlanks value⟩

/-- The fields of a head as they were sent. They stand behind the request line, up to
the first empty line, and only spaces and tabs around a value do not belong to it. -/
def sentFields (head : Bytes) : List HttpHeader :=
  match (((svSplit 10 head).map dropCr).dropWhile (· = [])).takeWhile (· ≠ []) with
  | [] => []
  | first :: rest => ((joinFolds first rest).drop 1).filterMap sentLine

/-- The values under a name, up to the case of letters. -/
def named (name : Bytes) (fields : List HttpHeader) : List Bytes :=
  (fields.filter fun h => h.key.map toupper == name.map toupper).map HttpHeader.value

def contentLengths (fields : List HttpHeader) : List Bytes := named (ascii "content-length") fields

def transferEncodings (fields : List HttpHeader) : List Bytes := named (ascii "transfer-encoding") fields

structure Unambiguous (fields : List HttpHeader) : Prop where
  digits : ∀ v ∈ contentLengths fields, v ≠ [] ∧ ∀ b ∈ v, isdigit b = true
  same : ∀ v ∈ contentLengths fields, ∀ w ∈ contentLengths fields, v = w
  coding : transferEncodings fields = [] ∨
    ∃ v, transferEncodings fields = [v] ∧ svIeq v (ascii "chunked") = true
  either : contentLengths fields = [] ∨ transferEncodings fields = []

/-- The check of the parser: the first length is a number that is not negative. -/
def LengthOk (fields : List HttpHeader) : Prop :=
  ∀ v, (contentLengths fields).head? = some v → ∃ n, svToI64 v = some n ∧ 0 ≤ n

/-- None of the lines is there that the parser takes no notice of. -/
structure Plainly (fields : List HttpHeader) : Prop where
  repeated : ∀ v ∈ contentLengths fields, ∀ w ∈ contentLengths fields, v = w
  signed : ∀ v ∈ contentLengths fields, v.head? = some 45 → svToI64 v ≠ some 0
  coding : transferEncodings fields = [] ∨
    ∃ v, transferEncodings fields = [v] ∧ svIeq v (ascii "chunked") = true
  either : contentLengths fields = [] ∨ transferEncodings fields = []

/-- The parser reads the lines on framing as they were sent. -/
structure ReadAsSent (head : Bytes) : Prop where
  lengths : contentLengths (sentFields head) = contentLengths (fieldsOf head)
  codings : transferEncodings (sentFields head) = transferEncodings (fieldsOf head)

theorem ReadAsSent.unambiguous {head : Bytes} (h : ReadAsSent head) (hFields : Unambiguous (fieldsOf head)) :
    Unambiguous (sentFields head) := by
  constructor
  · rw [h.lengths]
    exact hFields.digits
  · rw [h.lengths]
    exact hFields.same
  · rw [h.codings]
    exact hFields.coding
  · rw [h.lengths, h.codings]
    exact hFields.either

theorem svToI64_digits {v : Bytes} {n : Int} (h : svToI64 v = some n) (hn : 0 ≤ n)
    (hSigned : v.head? = some 45 → svToI64 v ≠ some 0) : v ≠ [] ∧ ∀ b ∈ v, isdigit b = true := by
  unfold svToI64 at h
  split at h
  · cases h
  · cases h
  · rename_i digits hSome
    obtain ⟨m, hDigits, hEq⟩ := Option.map_eq_some_iff.mp h
    have hm := svDigits_nonneg hDigits (le_refl 0)
    obtain rfl : m = 0 := by omega
    refine absurd ?_ (hSigned rfl)
    cases digits with
    | nil => exact absurd rfl hSome
    | cons d digits =>
      rw [svToI64, hDigits]
      · rfl
      · exact hSome
  · exact ⟨by assumption, svDigits_isdigit h⟩

theorem Plainly.unambiguous {fields : List HttpHeader} (h : Plainly fields) (hOk : LengthOk fields) :
    Unambiguous fields := by
  refine ⟨?_, h.repeated, h.coding, h.either⟩
  intro v hv
  obtain ⟨w, hHead⟩ : ∃ w, (contentLengths fields).head? = some w := by
    cases hList : contentLengths fields with
    | nil =>
      rw [hList] at hv
      cases hv
    | cons w rest => exact ⟨w, rfl⟩
  obtain rfl := h.repeated v hv w (List.mem_of_head? hHead)
  obtain ⟨n, hNumber, hn⟩ := hOk v hHead
  exact svToI64_digits hNumber hn (h.signed v hv)

/-! ## What the parser makes of a head -/

theorem parseHeaderLine_headers (req : HttpRequest) (text : Bytes) :
    (parseHeaderLine req text).headers = req.headers ++ (fieldLine text).toList := by
  rw [parseHeaderLine, fieldLine]
  cases hColon : text.dropWhile (· ≠ 58) with
  | nil => exact (List.append_nil _).symm
  | cons colon value =>
    by_cases hKey : svTrim (text.takeWhile (· ≠ 58)) = []
    · simp only [hKey, if_true]
      exact (List.append_nil _).symm
    · simp only [hKey, if_false]
      rfl

theorem foldl_parseHeaderLine_headers (lines : List Bytes) (req : HttpRequest) :
    (lines.foldl parseHeaderLine req).headers = req.headers ++ lines.filterMap fieldLine := by
  induction lines generalizing req with
  | nil => exact (List.append_nil _).symm
  | cons text lines ih =>
    rw [List.foldl_cons, ih, parseHeaderLine_headers, List.append_assoc, List.filterMap_cons]
    cases fieldLine text <;> rfl

theorem parseRequestLine_headers {req req' : HttpRequest} {text : Bytes}
    (h : parseRequestLine req text = some req') :
    req'.headers = req.headers := by
  rw [parseRequestLine] at h
  dsimp only at h
  split at h
  · cases h
  · cases h
    rfl

theorem httpRequestGetHeader_eq_head (req : HttpRequest) (name : Bytes) :
    httpRequestGetHeader req name = (named name req.headers).head? := by
  rw [httpRequestGetHeader, named, List.head?_map, List.head?_filter]

theorem httpRequestParseAdv_cases {raw behind : Bytes} {stop : Nat}
    (hEnd : findHeaderEnd raw behind = some stop) :
    httpRequestParseAdv raw behind = .error ∨
      ∃ req, req.headers = fieldsOf ((raw ++ behind).take stop) ∧
        httpRequestParseAdv raw behind = parseBody req raw stop := by
  rw [httpRequestParseAdv, hEnd, fieldsOf, headLines]
  dsimp only
  cases (svSplit 10 (svTrim ((raw ++ behind).take stop))).map dropCr with
  | nil => exact .inr ⟨emptyRequest, rfl, rfl⟩
  | cons first fields =>
    cases hLine : parseRequestLine emptyRequest first with
    | none => exact .inl (by dsimp only; rw [hLine])
    | some req =>
      refine .inr ⟨fields.foldl parseHeaderLine req, ?_, by dsimp only; rw [hLine]⟩
      rw [foldl_parseHeaderLine_headers, parseRequestLine_headers hLine]
      rfl

theorem parseBody_cases (req : HttpRequest) (raw : Bytes) (stop : Nat) :
    parseBody req raw stop = .overread ∧ raw.length < stop ∨
      parseBody req raw stop = .error ∧ ¬ LengthOk req.headers ∨
      LengthOk req.headers ∧
        ((∃ req' consumed, parseBody req raw stop = .ok req' consumed) ∨
          ∃ req', parseBody req raw stop = .incomplete req' ∧ req'.bodyOffset = stop) := by
  have hFirst : ∀ body offset, httpRequestGetHeader { req with body := body, bodyOffset := offset }
    (ascii "content-length") =
      (contentLengths req.headers).head? := fun body offset => httpRequestGetHeader_eq_head _ _
  rw [parseBody]
  split
  · exact .inl ⟨rfl, by assumption⟩
  · right
    dsimp only
    rw [hFirst]
    cases hHead : (contentLengths req.headers).head? with
    | none =>
      refine .inr ⟨?_, .inl ⟨_, _, rfl⟩⟩
      intro v hv
      rw [hHead] at hv
      cases hv
    | some value =>
      dsimp only
      cases hNumber : svToI64 value with
      | none =>
        refine .inl ⟨rfl, ?_⟩
        intro hOk
        obtain ⟨n, hn, _⟩ := hOk value hHead
        rw [hNumber] at hn
        cases hn
      | some len =>
        dsimp only
        by_cases hNeg : len < 0
        · rw [if_pos hNeg]
          refine .inl ⟨rfl, ?_⟩
          intro hOk
          obtain ⟨n, hn, hPos⟩ := hOk value hHead
          rw [hNumber] at hn
          cases hn
          omega
        · rw [if_neg hNeg]
          have hOk : LengthOk req.headers := by
            intro v hv
            rw [hHead] at hv
            cases hv
            exact ⟨len, hNumber, by omega⟩
          refine .inr ⟨hOk, ?_⟩
          split
          · exact .inl ⟨_, _, rfl⟩
          · exact .inr ⟨_, rfl, rfl⟩

theorem parseAdv_overread {raw behind : Bytes} (h : httpRequestParseAdv raw behind = .overread) :
    ∃ stop, findHeaderEnd raw behind = some stop ∧ raw.length < stop := by
  cases hEnd : findHeaderEnd raw behind with
  | none =>
    rw [httpRequestParseAdv, hEnd] at h
    cases h
  | some stop =>
    refine ⟨stop, rfl, ?_⟩
    obtain hError | ⟨req, _, hBody⟩ := httpRequestParseAdv_cases hEnd
    · rw [hError] at h
      cases h
    · rw [hBody] at h
      obtain ⟨_, hLt⟩ | ⟨hError, _⟩ | ⟨_, ⟨req', n, hOk⟩ | ⟨req', hIncomplete, _⟩⟩ :=
        parseBody_cases req raw stop
      · exact hLt
      · rw [hError] at h
        cases h
      · rw [hOk] at h
        cases h
      · rw [hIncomplete] at h
        cases h

/-! ## States of the loop -/

/-- The head the loop is at. While a body goes to a file the buffer holds the
head and nothing else. -/
def headOf (m : Conn) : Option Bytes :=
  match m.spill with
  | some _ => some m.rb.view
  | none => (findHeaderEnd m.rb.view m.rb.behind).map fun stop => (m.rb.view ++ m.rb.behind).take stop

/-- The head at hand ends within what was read, and when its first length is
fine there is no line in it that the parser takes no notice of or reads otherwise than
it was sent. -/
structure PlainlyFramed (m : Conn) : Prop where
  inside : m.spill = none → ∀ stop, findHeaderEnd m.rb.view m.rb.behind = some stop → stop ≤ m.rb.view.length
  plainly : m.spill = none → ∀ head, headOf m = some head → LengthOk (fieldsOf head) → Plainly (fieldsOf head)
  asSent : m.spill = none → ∀ head, headOf m = some head → LengthOk (fieldsOf head) → ReadAsSent head

/-- The handler is called for an unambiguous head only. Any other head is
answered with an error, and the connection closed. -/
structure SafelyFramed (env : ServerEnv) (m : Conn) : Prop where
  called : (serveTurn env m).state.calls ≠ m.calls → ∃ head, headOf m = some head ∧
    Unambiguous (sentFields head)
  handedOver : ∀ m' req consumed, servePass env m = .staged m' req consumed →
    ∃ head, headOf m = some head ∧ Unambiguous (sentFields head)
  refused : m.phase = .serve → ∀ head, headOf m = some head → ¬ Unambiguous (sentFields head) →
    ∃ status, serveTurn env m = .leave (sendError env m status)

theorem stalled_calls (m : Conn) : (stalled env m).calls = m.calls := by
  rw [stalled]
  split <;> rfl

theorem fillMore_calls (m : Conn) : (fillMore env m).state.calls = m.calls := by
  rw [fillMore]
  split
  · exact stalled_calls _
  · rfl
  · rfl

theorem spillStart_calls (m : Conn) (req : HttpRequest) : (spillStart env m req).state.calls = m.calls := by
  rw [spillStart]
  split <;> rfl

theorem readOn_calls (m : Conn) (req : HttpRequest) : (readOn env m req).state.calls = m.calls := by
  rw [readOn]
  split
  · split
    · rfl
    · split
      · exact spillStart_calls m req
      · rfl
  · exact fillMore_calls m

theorem incompleteTurn_calls (m : Conn) (req : HttpRequest) :
    (incompleteTurn env m req).state.calls = m.calls := by
  rw [incompleteTurn]
  split
  · dsimp only
    split
    · rfl
    · split
      · split
        · rfl
        · split
          · rfl
          · exact readOn_calls _ req
      · exact readOn_calls m req
  · exact readOn_calls m req

theorem sniffTurn_calls (m : Conn) : (sniffTurn env m).state.calls = m.calls := by
  rw [sniffTurn]
  split
  · exact fillMore_calls m
  · split
    · exact fillMore_calls m
    · split <;> rfl

theorem unfoldedPass_calls {m : Conn} {req : HttpRequest} {consumed : Nat} {moved : Bytes → ReadBuffer}
    {held : ReadBuffer → Bytes} {unfolded : Unfolded} {t : Turn Conn}
    (h : unfoldedPass env m req consumed moved held unfolded = .next t) : t.state.calls = m.calls := by
  cases unfolded with
  | complete payload left overread => cases h
  | incomplete payload =>
    cases h
    dsimp only
    split
    · rfl
    · exact fillMore_calls _
  | malformed payload => cases h
  | wild =>
    cases h
    rfl

theorem next_calls {m : Conn} {t : Turn Conn} (h : servePass env m = .next t) : t.state.calls = m.calls := by
  rw [servePass] at h
  split at h
  · cases h
    exact sniffTurn_calls m
  · rename_i sp _ _
    rw [drainPass] at h
    dsimp only at h
    split at h
    · cases h
      exact stalled_calls _
    · cases h
      rfl
    · split at h
      · cases h
        rfl
      · split at h
        · rw [spillDone] at h
          dsimp only at h
          split at h
          · cases h
          · cases h
            rfl
        · cases h
          rfl
  · rw [parsePass] at h
    split at h
    · cases h
      exact incompleteTurn_calls m _
    · cases h
      rfl
    · rw [overreadPass] at h
      split at h
      · cases h
        rfl
      · split at h
        · have hSame := unfoldedPass_calls h
          exact hSame
        · cases h
    · split at h
      · exact unfoldedPass_calls h
      · cases h

/-! ## Heads whose body goes to a file -/

/-- A body goes to a file for an unambiguous head only. -/
structure SpillFramed (m : Conn) : Prop where
  sniffing : m.phase = .sniff → m.spill = none
  spilling : m.spill ≠ none → Unambiguous (sentFields m.rb.view)

theorem SpillFramed.of_none {m : Conn} (h : m.spill = none) : SpillFramed m :=
  ⟨fun _ => h, fun hSome => absurd h hSome⟩

theorem fillMore_spill (m : Conn) : (fillMore env m).state.spill = m.spill := by
  rw [fillMore]
  split
  · rw [stalled]
    split <;> rfl
  · rfl
  · rfl

theorem callHandler_spill (m : Conn) (req : HttpRequest) (consumed : Nat) :
    (callHandler env m req consumed).state.spill = m.spill := by
  rw [callHandler]
  dsimp only
  split
  · split <;> rfl
  · split
    · rfl
    · split <;> rfl

theorem dispatch_spill (m : Conn) (req : HttpRequest) (consumed : Nat) :
    (dispatch env m req consumed).state.spill = m.spill := by
  rw [dispatch]
  split
  · rfl
  · split
    · split
      · rfl
      · rfl
      · exact callHandler_spill m _ consumed
    · exact callHandler_spill m req consumed

theorem parseHeaderBlock_bodyOffset (req : HttpRequest) (head : Bytes) :
    (httpRequestParseHeaderBlock req head).bodyOffset = req.bodyOffset := by
  have hFold : ∀ (lines : List Bytes) (req : HttpRequest),
      (lines.foldl parseHeaderLine req).bodyOffset = req.bodyOffset := by
    intro lines
    induction lines with
    | nil => exact fun _ => rfl
    | cons text lines ih =>
      intro req
      rw [List.foldl_cons, ih]
      exact (parseHeaderLine_body req text).2
  exact hFold _ req

theorem spillStart_framed {m : Conn} {req : HttpRequest} (hPhase : m.phase = .serve) (hSpill : m.spill = none)
    (hHead : Unambiguous (sentFields (m.rb.view.take req.bodyOffset))) :
    SpillFramed (spillStart env m req).state := by
  rw [spillStart]
  by_cases hFails : env.canOpen = false ∨ env.canWrite 0 = false
  · rw [if_pos hFails]
    exact .of_none hSpill
  · rw [if_neg hFails]
    constructor
    · intro hSniff
      change m.phase = .sniff at hSniff
      rw [hPhase] at hSniff
      cases hSniff
    · intro _
      have hView :
        (rbTruncate m.rb (httpRequestParseHeaderBlock req (m.rb.view.take req.bodyOffset)).bodyOffset).view =
          m.rb.view.take req.bodyOffset := by
        rw [parseHeaderBlock_bodyOffset]
        rfl
      dsimp only [Turn.state]
      rw [hView]
      exact hHead

theorem readOn_framed {m : Conn} {req : HttpRequest} (hPhase : m.phase = .serve) (hSpill : m.spill = none)
    (hHead : 0 < req.bodyOffset → Unambiguous (sentFields (m.rb.view.take req.bodyOffset))) :
    SpillFramed (readOn env m req).state := by
  rw [readOn]
  split
  · split
    · exact .of_none hSpill
    · split
      · rename_i hLong
        exact spillStart_framed hPhase hSpill (hHead hLong.2.2.1)
      · exact .of_none hSpill
  · exact .of_none ((fillMore_spill m).trans hSpill)

theorem incompleteTurn_framed {m : Conn} {req : HttpRequest} (hPhase : m.phase = .serve)
    (hSpill : m.spill = none)
    (hHead : 0 < req.bodyOffset → Unambiguous (sentFields (m.rb.view.take req.bodyOffset))) :
    SpillFramed (incompleteTurn env m req).state := by
  rw [incompleteTurn]
  split
  · dsimp only
    split
    · exact .of_none hSpill
    · split
      · split
        · exact .of_none hSpill
        · split
          · exact .of_none hSpill
          · exact readOn_framed hPhase hSpill hHead
      · exact readOn_framed hPhase hSpill hHead
  · exact readOn_framed hPhase hSpill hHead

/-- The head of a request that was parsed, or is waiting for its body, is
unambiguous. -/
theorem head_of_parsed {m : Conn} (hFramed : PlainlyFramed m) (hSpill : m.spill = none) {stop : Nat}
    (hEnd : findHeaderEnd m.rb.view m.rb.behind = some stop)
    (hParsed : httpRequestParseAdv m.rb.view m.rb.behind ≠ .error) :
    headOf m = some (m.rb.view.take stop) ∧ Unambiguous (sentFields (m.rb.view.take stop)) := by
  have hInside := hFramed.inside hSpill stop hEnd
  have hTake : (m.rb.view ++ m.rb.behind).take stop = m.rb.view.take stop :=
    List.take_append_of_le_length hInside
  have hHead : headOf m = some (m.rb.view.take stop) := by
    rw [headOf, hSpill, hEnd, ← hTake]
    rfl
  refine ⟨hHead, ?_⟩
  obtain hError | ⟨req, hFields, hBody⟩ := httpRequestParseAdv_cases hEnd
  · exact absurd hError hParsed
  · rw [hTake] at hFields
    obtain ⟨_, hShort⟩ | ⟨hError, _⟩ | ⟨hOk, _⟩ := parseBody_cases req m.rb.view stop
    · omega
    · exact absurd (hBody.trans hError) hParsed
    · rw [hFields] at hOk
      exact (hFramed.asSent hSpill _ hHead hOk).unambiguous
        ((hFramed.plainly hSpill _ hHead hOk).unambiguous hOk)

theorem exists_end_of_offset {raw behind : Bytes} {req : HttpRequest}
    (h : httpRequestParseAdv raw behind = .incomplete req) (hOffset : 0 < req.bodyOffset) :
    findHeaderEnd raw behind = some req.bodyOffset := by
  cases hEnd : findHeaderEnd raw behind with
  | none =>
    rw [httpRequestParseAdv, hEnd] at h
    cases h
    exact absurd hOffset (by decide)
  | some stop =>
    obtain hError | ⟨req', _, hBody⟩ := httpRequestParseAdv_cases hEnd
    · rw [hError] at h
      cases h
    · rw [hBody] at h
      obtain ⟨hOver, _⟩ | ⟨hError, _⟩ | ⟨_, ⟨_, _, hDone⟩ | ⟨_, hWaits, hStop⟩⟩ :=
        parseBody_cases req' raw stop
      · rw [hOver] at h
        cases h
      · rw [hError] at h
        cases h
      · rw [hDone] at h
        cases h
      · rw [hWaits] at h
        cases h
        rw [hStop]

theorem exists_end_of_ok {raw behind : Bytes} {req : HttpRequest} {consumed : Nat}
    (h : httpRequestParseAdv raw behind = .ok req consumed) :
    ∃ stop, findHeaderEnd raw behind = some stop := by
  cases hEnd : findHeaderEnd raw behind with
  | none =>
    rw [httpRequestParseAdv, hEnd] at h
    cases h
  | some stop => exact ⟨stop, rfl⟩

/-- What a staged request was staged from, and what the next round starts with. -/
def FramedPass (m : Conn) : Pass → Prop
  | .next t => SpillFramed t.state
  | .staged m' _ _ => m'.spill = none ∧ ∃ head, headOf m = some head ∧ Unambiguous (sentFields head)

theorem chunkedPass_framed {m : Conn} (hSpill : m.spill = none)
    (hHead : ∃ head, headOf m = some head ∧ Unambiguous (sentFields head)) (req : HttpRequest)
    (consumed : Nat) :
    FramedPass m (chunkedPass env m req consumed) := by
  rw [chunkedPass, unfoldedPass.eq_def]
  split
  · exact ⟨hSpill, hHead⟩
  · dsimp only [FramedPass]
    split
    · exact .of_none hSpill
    · exact .of_none ((fillMore_spill _).trans hSpill)
  · exact ⟨hSpill, hHead⟩
  · exact .of_none hSpill

theorem drainPass_framed {m : Conn} {sp : Spill} (hSpill : m.spill = some sp) (hPhase : m.phase = .serve)
    (h : SpillFramed m) : FramedPass m (drainPass env m sp) := by
  have hFields : Unambiguous (sentFields m.rb.view) := h.spilling (by rw [hSpill]; nofun)
  have hServes : m.phase ≠ .sniff := by
    rw [hPhase]
    nofun
  rw [drainPass]
  dsimp only
  split
  · refine ⟨fun hSniff => ?_, fun _ => ?_⟩
    · rw [Turn.state, stalled] at hSniff
      split at hSniff
      · exact absurd hSniff hServes
      · exact absurd hSniff hServes
    · rw [Turn.state, stalled]
      split
      · exact hFields
      · exact hFields
  · exact ⟨fun hSniff => absurd hSniff hServes, fun _ => hFields⟩
  · split
    · exact ⟨fun hSniff => absurd hSniff hServes, fun _ => hFields⟩
    · split
      · rw [spillDone]
        dsimp only
        split
        · refine ⟨rfl, m.rb.view, ?_, hFields⟩
          rw [headOf, hSpill]
        · exact .of_none rfl
      · exact ⟨fun hSniff => absurd hSniff hServes, fun _ => hFields⟩

theorem servePass_framed {m : Conn} (hFramed : PlainlyFramed m) (h : SpillFramed m) :
    FramedPass m (servePass env m) := by
  rw [servePass]
  split
  · rename_i hSniff
    rw [sniffTurn]
    have hNone := h.sniffing hSniff
    split
    · exact .of_none ((fillMore_spill m).trans hNone)
    · split
      · exact .of_none ((fillMore_spill m).trans hNone)
      · split
        · exact .of_none hNone
        · exact .of_none hNone
  · rename_i sp hServe hSpill
    exact drainPass_framed hSpill hServe h
  · rename_i hServe hSpill
    rw [parsePass]
    split
    · rename_i req hParse
      refine incompleteTurn_framed hServe hSpill fun hOffset => ?_
      exact (head_of_parsed hFramed hSpill (exists_end_of_offset hParse hOffset)
        (by rw [hParse]; rintro ⟨⟩)).2
    · exact .of_none hSpill
    · rename_i hOver
      obtain ⟨stop, hEnd, hLt⟩ := parseAdv_overread hOver
      exact absurd (hFramed.inside hSpill stop hEnd) (not_le.mpr hLt)
    · rename_i req consumed hParse
      obtain ⟨stop, hEnd⟩ := exists_end_of_ok hParse
      obtain ⟨hHead, hFields⟩ := head_of_parsed hFramed hSpill hEnd (by rw [hParse]; rintro ⟨⟩)
      split
      · exact chunkedPass_framed hSpill ⟨_, hHead, hFields⟩ req consumed
      · exact ⟨hSpill, _, hHead, hFields⟩

theorem serveTurn_framed {m : Conn} (hFramed : PlainlyFramed m) (h : SpillFramed m) :
    SpillFramed (serveTurn env m).state := by
  have hPass := @servePass_framed env m hFramed h
  rw [serveTurn]
  split
  · rename_i t hNext
    rw [hNext] at hPass
    exact hPass
  · rename_i m' req consumed hStaged
    rw [hStaged] at hPass
    exact .of_none ((dispatch_spill m' req consumed).trans hPass.1)

theorem serves_framed {arrivals : List Arrival} (hFramed : ∀ m, Serves env arrivals m → PlainlyFramed m)
    {m : Conn}
    (h : Serves env arrivals m) : SpillFramed m := by
  refine Visits.invariant (P := SpillFramed) h (.of_none rfl) ?_
  intro m₁ m₂ hServes hBefore hTurn
  have hAfter := @serveTurn_framed env m₁ (hFramed m₁ hServes) hBefore
  rw [hTurn] at hAfter
  exact hAfter

/-! ## Runs -/

/-- Where no head has a line that the parser takes no notice of, requests are
passed on with unambiguous heads, and all others are refused. -/
theorem safelyFramed_of_framed {arrivals : List Arrival}
    (hFramed : ∀ m, Serves env arrivals m → PlainlyFramed m) {m : Conn}
    (h : Serves env arrivals m) : SafelyFramed env m := by
  have hSpillFramed := serves_framed hFramed h
  have hPass := @servePass_framed env m (hFramed m h) hSpillFramed
  constructor
  · intro hCalls
    cases hServe : servePass env m with
    | next t =>
      have hSame := next_calls hServe
      rw [serveTurn, hServe] at hCalls
      exact absurd hSame hCalls
    | staged m' req consumed =>
      rw [hServe] at hPass
      exact hPass.2
  · intro m' req consumed hStaged
    rw [hStaged] at hPass
    exact hPass.2
  · intro hPhase head hHead hNot
    cases hSpill : m.spill with
    | some sp =>
      rw [headOf, hSpill] at hHead
      cases hHead
      exact absurd (hSpillFramed.spilling (by rw [hSpill]; exact Option.some_ne_none _)) hNot
    | none =>
      have hFound := hHead
      rw [headOf, hSpill] at hFound
      obtain ⟨stop, hEnd, _⟩ := Option.map_eq_some_iff.mp hFound
      have hError : httpRequestParseAdv m.rb.view m.rb.behind = .error := by
        by_contra hParsed
        obtain ⟨hHead', hFields⟩ := head_of_parsed (hFramed m h) hSpill hEnd hParsed
        rw [hHead] at hHead'
        cases hHead'
        exact hNot hFields
      refine ⟨400, ?_⟩
      rw [serveTurn, servePass, hPhase, hSpill]
      dsimp only
      rw [parsePass, hError]

def plainRequest : Bytes := ascii "POST / HTTP/1.1\r\nContent-Length: 3\r\n\r\nabc"

/-- A test for heads with one length and no coding. -/
def oneLength (m : Conn) : Bool :=
  m.spill.isNone &&
    match findHeaderEnd m.rb.view m.rb.behind with
    | none => true
    | some stop =>
      decide (stop ≤ m.rb.view.length) &&
        contentLengths (fieldsOf ((m.rb.view ++ m.rb.behind).take stop)) == [ascii "3"] &&
        transferEncodings (fieldsOf ((m.rb.view ++ m.rb.behind).take stop)) == [] &&
        contentLengths (sentFields ((m.rb.view ++ m.rb.behind).take stop)) == [ascii "3"] &&
        transferEncodings (sentFields ((m.rb.view ++ m.rb.behind).take stop)) == []

theorem framed_of_oneLength {m : Conn} (h : oneLength m = true) : PlainlyFramed m := by
  rw [oneLength, Bool.and_eq_true] at h
  obtain ⟨_, hHead⟩ := h
  constructor
  · intro _ stop hEnd
    rw [hEnd] at hHead
    simp only [Bool.and_eq_true, decide_eq_true_eq] at hHead
    exact hHead.1.1.1.1
  · intro hSpill head hAt _
    rw [headOf, hSpill] at hAt
    obtain ⟨stop, hEnd, rfl⟩ := Option.map_eq_some_iff.mp hAt
    rw [hEnd] at hHead
    simp only [Bool.and_eq_true, beq_iff_eq] at hHead
    obtain ⟨⟨⟨⟨_, hLengths⟩, hCodings⟩, _⟩, _⟩ := hHead
    constructor
    · rw [hLengths]
      intro v hv w hw
      rw [List.mem_singleton] at hv hw
      rw [hv, hw]
    · rw [hLengths]
      intro v hv hSigned
      rw [List.mem_singleton] at hv
      subst hv
      exact absurd hSigned (by decide)
    · exact .inl hCodings
    · exact .inr hCodings
  · intro hSpill head hAt _
    rw [headOf, hSpill] at hAt
    obtain ⟨stop, hEnd, rfl⟩ := Option.map_eq_some_iff.mp hAt
    rw [hEnd] at hHead
    simp only [Bool.and_eq_true, beq_iff_eq] at hHead
    obtain ⟨⟨⟨⟨_, hLengths⟩, hCodings⟩, hSentLengths⟩, hSentCodings⟩ := hHead
    exact ⟨hSentLengths.trans hLengths.symm, hSentCodings.trans hCodings.symm⟩

/-- The state at which the handler is called. -/
def plainState : Conn := steps (serveTurn pageEnv) 2 (serveStart pageEnv [.data plainRequest])

theorem plainState_safelyFramed : SafelyFramed pageEnv plainState := by
  have hChecked : checked oneLength (serveTurn pageEnv) 4 (serveStart pageEnv [.data plainRequest]) =
    true := by
    decide +kernel
  refine @safelyFramed_of_framed pageEnv [.data plainRequest] ?_ plainState
    (visits_steps 2 (by decide +kernel))
  intro m hServes
  exact framed_of_oneLength (Visits.of_checked 4 hServes hChecked)

/-! ## Two lengths -/

def twoLengths : Bytes := ascii "POST / HTTP/1.1\r\nContent-Length: 3\r\nContent-Length: 5\r\n\r\nabc"

def twoLengthsState : Conn := steps (serveTurn pageEnv) 2 (serveStart pageEnv [.data twoLengths])

/-- The second length is not looked at, and the handler is called. -/
theorem two_lengths_called :
    Serves pageEnv [.data twoLengths] twoLengthsState ∧ ¬ SafelyFramed pageEnv twoLengthsState := by
  refine ⟨visits_steps 2 (by decide +kernel), ?_⟩
  intro hSafe
  obtain ⟨head, hHead, hFields⟩ := hSafe.called (by decide +kernel)
  have hLengths : (headOf twoLengthsState).map (fun head => contentLengths (sentFields head)) =
      some [ascii "3", ascii "5"] := by decide +kernel
  rw [hHead] at hLengths
  have hEq : contentLengths (sentFields head) = [ascii "3", ascii "5"] := Option.some.inj hLengths
  have hSame := hFields.same
  rw [hEq] at hSame
  exact absurd (hSame (ascii "3") (by simp) (ascii "5") (by simp)) (by decide)

end Cweb
