import Cweb.Http.RequestHead
import Cweb.Http.ServerSplits
import Mathlib.Data.FinEnum

/-!
# Bodies in a file

A connection whose large bodies go to files shows what its stream shows as well, so it
does the same as one with room for them in memory. That takes a head which both
parsers of fields read alike: the one for whole requests trims the head and reads all
of its lines, and the one for spilled requests stops at the first empty line.
-/

namespace Cweb

open Sv H2 Loop

/-! ## The fields of a head, read again -/

/-- The fields that the second parser finds. -/
def blockFields (head : Bytes) : List HttpHeader :=
  ((((svSplit 10 head).map dropCr).drop 1).takeWhile (· ≠ [])).filterMap fieldLine

theorem httpRequestParseHeaderBlock_eq (req : HttpRequest) (head : Bytes) :
    httpRequestParseHeaderBlock req head = { req with headers := req.headers ++ blockFields head } := by
  rw [httpRequestParseHeaderBlock, foldl_parseHeaderLine_eq, blockFields]

/-- The head begins with its first line, and has no empty line in between. -/
structure PlainHead (head : Bytes) : Prop where
  starts : ∀ b ∈ head.head?, isspace b = false
  lines : [] ∉ headLines head

theorem takeWhile_fields {lines more : List Bytes} (hSome : [] ∉ lines)
    (hMore : more.filterMap fieldLine = []) :
    ((lines ++ more).takeWhile (· ≠ [])).filterMap fieldLine = lines.filterMap fieldLine := by
  have hPass : ∀ line ∈ lines, decide (line ≠ []) = true := by
    intro line hLine
    refine decide_eq_true ?_
    rintro rfl
    exact hSome hLine
  rw [List.takeWhile_append_of_pos hPass, List.filterMap_append]
  have hNone : (more.takeWhile (· ≠ [])).filterMap fieldLine = [] := by
    rw [List.filterMap_eq_nil_iff] at hMore ⊢
    exact fun line hLine => hMore line ((List.takeWhile_prefix _).subset hLine)
  rw [hNone, List.append_nil]

theorem blockFields_eq {head : Bytes} (h : PlainHead head) (hEnd : head.getLast? = some 10) :
    blockFields head = fieldsOf head := by
  obtain ⟨first, hHead⟩ : ∃ first, head.head? = some first := by
    cases head with
    | nil => cases hEnd
    | cons first tail => exact ⟨first, rfl⟩
  obtain ⟨init, last, w, more, _, hLastSome, hShort, hLong, hField, hMore⟩ :=
    plainHead_lines ⟨first, hHead, h.starts first hHead⟩ hEnd
  have hNot := h.lines
  rw [hShort] at hNot
  rw [blockFields, fieldsOf, hLong, hShort]
  cases init with
  | nil => exact takeWhile_fields List.not_mem_nil hMore
  | cons line init =>
    have hLines : [] ∉ init ++ [last ++ w] := by
      intro hMem
      obtain hMem | hMem := List.mem_append.mp hMem
      · exact hNot (List.mem_append_left _ (List.mem_cons_of_mem _ hMem))
      · exact hLastSome (List.append_eq_nil_iff.mp (List.mem_singleton.mp hMem).symm).1
    have hSame := takeWhile_fields hLines hMore
    rw [List.append_assoc, List.singleton_append, List.filterMap_append, List.filterMap_cons, hField,
      ← List.filterMap_cons,
      ← List.filterMap_append] at hSame
    exact hSame

/-! ## Requests that go to a file -/

theorem parseBody_short {base : HttpRequest} {raw value : Bytes} {stop len : Nat} (hStop : stop ≤ raw.length)
    (hSome : httpRequestGetHeader base (ascii "content-length") = some value)
    (hNumber : svToI64 value = some (Int.ofNat len))
    (hShort : raw.length - stop < len) :
    parseBody base raw stop =
      .incomplete
        { base with body := raw.drop stop, bodyOffset := stop, contentLength := len, headers := [] } := by
  have hName : httpRequestGetHeader { base with body := raw.drop stop, bodyOffset := stop }
      (ascii "content-length") =
      some value := hSome
  have hFew : ¬ (Int.ofNat len).toNat ≤ (raw.drop stop).length := by
    rw [List.length_drop]
    change ¬ len ≤ _
    omega
  have hPos : ¬ Int.ofNat len < 0 := not_lt.mpr (Int.natCast_nonneg len)
  rw [parseBody, if_neg (not_lt.mpr hStop)]
  dsimp only
  rw [hName]
  dsimp only
  rw [hNumber]
  dsimp only
  rw [if_neg hPos, if_neg hFew]
  rfl

theorem parseBody_incomplete {base req : HttpRequest} {raw : Bytes} {stop : Nat}
    (h : parseBody base raw stop = .incomplete req) :
    stop ≤ raw.length ∧ ∃ value len, httpRequestGetHeader base (ascii "content-length") = some value ∧
      svToI64 value = some (Int.ofNat len) ∧ raw.length - stop < len ∧
        req =
          { base with body := raw.drop stop, bodyOffset := stop, contentLength := len, headers := [] } := by
  by_cases hStop : raw.length < stop
  · rw [parseBody, if_pos hStop] at h
    cases h
  · cases hName : httpRequestGetHeader base (ascii "content-length") with
    | none =>
      rw [parseBody_unmeasured (not_lt.mp hStop) hName] at h
      cases h
    | some value =>
      obtain ⟨_, hOver⟩ | ⟨hError, _⟩ | ⟨hOk, _⟩ := parseBody_cases base raw stop
      · exact absurd hOver hStop
      · rw [hError] at h
        cases h
      · rw [httpRequestGetHeader_eq_head] at hName
        obtain ⟨n, hNumber, hPos⟩ := hOk value hName
        obtain ⟨len, rfl⟩ := Int.eq_ofNat_of_zero_le hPos
        rw [← httpRequestGetHeader_eq_head] at hName
        by_cases hShort : raw.length - stop < len
        · rw [parseBody_short (not_lt.mp hStop) hName hNumber hShort] at h
          exact ⟨not_lt.mp hStop, value, len, rfl, hNumber, hShort, (RequestParse.incomplete.inj h).symm⟩
        · rw [parseBody_measured (by omega) hName hNumber] at h
          cases h

/-- Files for bodies can be had. -/
structure Usable (env : ServerEnv) : Prop where
  config : env.config = some true
  opens : env.canOpen = true
  writes : ∀ n, env.canWrite n = true
  maps : env.canMap = true

/-- The buffer is full, and the head in it tells of a body that is too large for it. Both
parsers of fields read the head alike, and it ends for good. -/
structure Spillable (env : ServerEnv) (m : Conn) (req : HttpRequest) : Prop where
  parse : httpRequestParseAdv m.rb.view m.rb.behind = .incomplete req
  inside : ¬ EndsBehind m.rb.view m.rb.behind
  last : [13, 10, 13, 10] <:+: m.rb.view ∨ ¬ [13, 10, 13, 10] <:+: m.rb.view ++ ahead m.arrivals
  full : m.rb.capacity ≤ m.rb.count
  large : (env.maxBody : Int) < req.contentLength
  head : 0 < req.bodyOffset ∧ req.bodyOffset < m.rb.count
  plain : PlainHead (m.rb.view.take req.bodyOffset)
  chunked : transferEncodings (fieldsOf (m.rb.view.take req.bodyOffset)) = []
  expect : m.continueSent = false ∧ 0 < req.bodyOffset → MayWait env m req

/-- The head is in the buffer, and the part of the body that has come in the file. The
stream goes on with this request once its body has come. -/
structure Spilling (sp : Spill) (m : Conn) (s : Stream) : Prop where
  base : Agrees { m with spill := none } s
  phase : m.phase = .serve
  spill : m.spill = some sp
  rest : m.rb.view ++ (sp.written ++ ahead m.arrivals) = s.rest
  head : m.rb.view.length = sp.req.bodyOffset
  short : sp.written.length < sp.req.contentLength.toNat
  plain : httpRequestGetHeader sp.req (ascii "transfer-encoding") = none
  measured : httpRequestGetHeader sp.req (ascii "content-length") ≠ none
  whole : sp.req.contentLength.toNat ≤ (s.rest.drop sp.req.bodyOffset).length →
    httpRequestParseAdv s.rest [] =
    .ok { sp.req with body := (s.rest.drop sp.req.bodyOffset).take sp.req.contentLength.toNat }
      (sp.req.bodyOffset + sp.req.contentLength.toNat)
  waits : (s.rest.drop sp.req.bodyOffset).length < sp.req.contentLength.toNat →
    ∃ req, httpRequestParseAdv s.rest [] = .incomplete req

/-- What the connection shows, also while a body goes to a file. -/
def Files (m : Conn) (s : Stream) : Prop := Shows m s ∨ ∃ sp, Spilling sp m s

section Turns

variable {env : ServerEnv} {m : Conn} {s : Stream}

theorem Keeps.files {n : Nat} {t : Turn Conn} (h : Keeps Shows env n s t) : Keeps Files env n s t := by
  cases h with
  | read h hLess => exact .read (.inl h) hLess
  | step hStream h hLess => exact .step hStream (.inl h) hLess
  | done hStream h => exact .done hStream h

theorem findHeaderEnd_stream {raw behind ext : Bytes} {stop : Nat} (hInside : ¬ EndsBehind raw behind)
    (hLast : [13, 10, 13, 10] <:+: raw ∨ ¬ [13, 10, 13, 10] <:+: raw ++ ext)
    (h : findHeaderEnd raw behind = some stop) :
    findHeaderEnd (raw ++ ext) [] = some stop := by
  rw [findHeaderEnd_clean hInside] at h
  by_cases hInfix : [13, 10, 13, 10] <:+: raw
  · obtain ⟨stop', _, hEnds⟩ := findHeaderEnd_infix hInfix
    have hEnd := hEnds [] []
    rw [List.append_nil, h] at hEnd
    rw [hEnds, ← hEnd]
  · have hNone := hLast.resolve_left hInfix
    rw [findHeaderEnd_feeds (by rw [List.take_nil, List.append_nil]; exact hInfix)] at h
    rw [findHeaderEnd_feeds (by rw [List.take_nil, List.append_nil]; exact hNone)]
    exact (lfEnd_append 0 h ext).1

theorem spillStart_files (hUsable : Usable env) (h : Shows m s)
    (hPhase : m.phase = .serve) {req : HttpRequest}
    (hSpill : Spillable env m req) : Keeps Files env (load m) s (spillStart env m req) := by
  have hParse := hSpill.parse
  obtain ⟨hPos, hInside⟩ := hSpill.head
  rw [← parseKept_all, parseKept] at hParse
  cases hEnd : findHeaderEnd m.rb.view m.rb.behind with
  | none =>
    rw [hEnd] at hParse
    obtain rfl := RequestParse.incomplete.inj hParse
    exact absurd hPos (Nat.lt_irrefl 0)
  | some stop =>
    have hStop := findHeaderEnd_inside hSpill.inside hEnd
    rw [hEnd] at hParse
    dsimp only at hParse
    rw [List.take_append_of_le_length hStop] at hParse
    cases hHead : parseHead (fun _ => true) (m.rb.view.take stop) with
    | none =>
      rw [hHead] at hParse
      cases hParse
    | some base =>
      rw [hHead] at hParse
      obtain ⟨_, value, len, hName, hNumber, hShort, hReq⟩ := parseBody_incomplete hParse
      have hOffset : req.bodyOffset = stop := by rw [hReq]
      have hPlain := hSpill.plain
      have hChunked := hSpill.chunked
      rw [hOffset] at hInside hPlain hChunked
      have hFeed : (m.rb.view.take stop).getLast? = some 10 := by
        rw [← List.take_append_of_le_length hStop]
        exact findHeaderEnd_feed hEnd
      have hFields : base.headers = fieldsOf (m.rb.view.take stop) := (parseHead_some hHead).1
      have hStaged : httpRequestParseHeaderBlock req (m.rb.view.take stop) =
          { base with body := m.rb.view.drop stop, bodyOffset := stop, contentLength := len } := by
        rw [httpRequestParseHeaderBlock_eq, blockFields_eq hPlain hFeed, ← hFields, hReq]
        rfl
      have hStream : httpRequestParseAdv s.rest [] = parseBody base s.rest stop := by
        rw [← parseKept_all, parseKept, ← h.rest, findHeaderEnd_stream hSpill.inside hSpill.last hEnd]
        dsimp only
        rw [take_of_le hStop, hHead]
      have hLonger : stop ≤ s.rest.length := by
        rw [← h.rest, List.length_append]
        omega
      have hCount : stop < m.rb.view.length := hInside
      have hTruncated : (rbTruncate m.rb stop).view = m.rb.view.take stop := rfl
      have hSpilling : Spilling ⟨httpRequestParseHeaderBlock req (m.rb.view.take stop), m.rb.view.drop stop⟩
          { m with
            spill := some ⟨httpRequestParseHeaderBlock req (m.rb.view.take stop), m.rb.view.drop stop⟩
            rb := rbTruncate m.rb stop } s := by
        rw [hStaged]
        refine ⟨⟨h.reads, h.phase, rfl, h.calls, h.trace⟩, hPhase, rfl, ?_, ?_, ?_, ?_, ?_, ?_, ?_⟩
        · rw [← h.rest, ← List.append_assoc]
          exact congrArg (· ++ ahead m.arrivals) (List.take_append_drop stop m.rb.view)
        · exact List.length_take_of_le hStop
        · change (m.rb.view.drop stop).length < len
          rw [List.length_drop]
          exact hShort
        · rw [httpRequestGetHeader_eq_head]
          change (named _ base.headers).head? = none
          rw [hFields, ← transferEncodings, hChunked]
          rfl
        · change httpRequestGetHeader base (ascii "content-length") ≠ none
          rw [hName]
          exact Option.some_ne_none _
        · intro hWhole
          rw [List.length_drop] at hWhole
          change len ≤ s.rest.length - stop at hWhole
          rw [hStream, parseBody_measured (by omega) hName hNumber]
          rfl
        · intro hFew
          rw [List.length_drop] at hFew
          exact ⟨_, hStream.trans (parseBody_short hLonger hName hNumber hFew)⟩
      have hBlock : (httpRequestParseHeaderBlock req (m.rb.view.take stop)).bodyOffset = stop := by
        rw [hStaged]
      rw [spillStart, hOffset, if_neg (by rw [hUsable.opens, hUsable.writes]; simp), hBlock]
      refine .read (.inr ⟨_, hSpilling⟩) ?_
      rw [load, load, hTruncated, List.length_take]
      dsimp only
      omega

theorem incompleteTurn_files (hUsable : Usable env) (h : Shows m s) (hPhase : m.phase = .serve)
    {req : HttpRequest}
    (hSpill : Spillable env m req) : Keeps Files env (load m) s (incompleteTurn env m req) := by
  have hReads : ∀ m' : Conn, m'.rb = m.rb → readOn env m' req = spillStart env m' req := by
    intro m' hRb
    rw [readOn, hRb, if_pos hSpill.full, hUsable.config]
    exact if_pos ⟨rfl, hSpill.large, hSpill.head⟩
  obtain hOn | hOn := incompleteTurn_waits hSpill.expect
  · rw [hOn, hReads m rfl]
    exact spillStart_files hUsable h hPhase hSpill
  · rw [hOn, hReads { m.log [.wrote continueText] with continueSent := true } rfl]
    refine spillStart_files hUsable h.continues hPhase ?_
    exact ⟨hSpill.parse, hSpill.inside, hSpill.last, hSpill.full, hSpill.large, hSpill.head,
      hSpill.plain, hSpill.chunked,
      fun hWaits => absurd hWaits.1 Bool.noConfusion⟩

theorem Spilling.behind {sp : Spill} (h : Spilling sp m s) :
    s.rest.drop sp.req.bodyOffset = sp.written ++ ahead m.arrivals := by
  rw [← h.rest, ← h.head, List.drop_left]

theorem spillDone_files (hBlind : Blind env) (hUsable : Usable env) {sp : Spill} (h : Spilling sp m s)
    {piece surplus : Bytes}
    {later : List Arrival} (hLater : ∀ a ∈ later, ∃ bytes, a = .data bytes ∧ bytes ≠ [])
    (hAhead : piece ++ (surplus ++ ahead later) = ahead m.arrivals)
    (hLength : (sp.written ++ piece).length = sp.req.contentLength.toNat) :
    Keeps Files env (load m) s
      (match spillDone env { m with arrivals := later } { sp with written :=
        sp.written ++ piece } surplus with
      | .next t => t
      | .staged m req consumed => dispatch env m req consumed) := by
  have hBehind := h.behind
  have hWhole := h.whole
  rw [← hAhead, ← List.append_assoc] at hBehind
  rw [hBehind, List.take_left' hLength] at hWhole
  have hParse := hWhole (by rw [List.length_append, hLength]; omega)
  have hLeft : s.rest.drop (sp.req.bodyOffset + sp.req.contentLength.toNat) = surplus ++ ahead later := by
    rw [← List.drop_drop, hBehind, List.drop_left' hLength]
  have hStream : streamTurn env s = streamDispatch env s { sp.req with body := sp.written ++ piece }.blind
      (surplus ++ ahead later) := by
    rw [streamTurn, ← h.base.phase]
    dsimp only
    rw [h.phase, hParse]
    dsimp only
    rw [hLeft]
    exact if_pos h.plain
  obtain ⟨rb, hRb, hView⟩ : ∃ rb, (if surplus = [] then m.rb else rbPark m.rb surplus) = rb ∧
    rb.view = m.rb.view ++ surplus := by
    refine ⟨_, rfl, ?_⟩
    split
    · rename_i hNone
      rw [hNone, List.append_nil]
    · rfl
  have hDrop : rb.view.drop sp.req.bodyOffset = surplus := by rw [hView, ← h.head, List.drop_left]
  have hMeasured : measured { sp.req with body := sp.written ++ piece } = true := by
    rw [measured, Bool.or_eq_true]
    exact .inl (Option.isSome_iff_ne_none.mpr h.measured)
  have hSame := @dispatch_same env { m with arrivals := later, rb := rb, spill := none } s
    { sp.req with body := sp.written ++ piece } sp.req.bodyOffset hBlind
    ⟨hLater, h.base.phase, rfl, h.base.calls, h.base.trace⟩ h.phase fun hNot =>
      absurd hMeasured (ne_true_of_eq_false hNot)
  dsimp only at hSame
  rw [hDrop] at hSame
  rw [spillDone, hUsable.maps]
  dsimp only
  rw [hRb, if_pos rfl]
  refine (keeps_of_same hSame hStream ?_).files
  have hFew := h.short
  rw [← hLength, List.length_append] at hFew
  rw [load, ← hAhead, List.length_append, List.length_append]
  omega

theorem drainPass_files (hBlind : Blind env) (hUsable : Usable env) {sp : Spill} (h : Spilling sp m s) :
    Keeps Files env (load m) s (match drainPass env m sp with
      | .next t => t
      | .staged m req consumed => dispatch env m req consumed) := by
  obtain hNil | ⟨bytes, later, hRecv, hSome, _, hAhead, hLater⟩ :=
    @ioRecv_reads stageSize m.arrivals (by decide) h.base.reads
  · -- the peer is gone in the middle of the body
    have hShort : (s.rest.drop sp.req.bodyOffset).length < sp.req.contentLength.toNat := by
      rw [h.behind, hNil, List.length_append]
      exact h.short
    obtain ⟨req, hParse⟩ := h.waits hShort
    rw [drainPass, hNil]
    refine .done ?_ ⟨h.base.calls, h.base.trace _⟩
    rw [streamTurn, ← h.base.phase]
    dsimp only
    rw [h.phase, hParse]
  · have hPiece := List.length_pos_of_ne_nil hSome
    have hFew := h.short
    generalize hTake : min bytes.length (sp.req.contentLength.toNat - sp.written.length) = take
    have hWritten : (sp.written ++ bytes.take take).length = sp.written.length + take := by
      rw [List.length_append, List.length_take, Nat.min_eq_left (by omega)]
    rw [drainPass, hRecv]
    dsimp only
    rw [hTake, hUsable.writes, if_neg (by rintro ⟨_, hFalse⟩; cases hFalse)]
    by_cases hDone : sp.req.contentLength.toNat ≤ (sp.written ++ bytes.take take).length
    · rw [if_pos hDone]
      refine spillDone_files hBlind hUsable h hLater ?_ (by omega)
      rw [← List.append_assoc, List.take_append_drop, hAhead]
    · rw [if_neg hDone]
      refine .read
        (.inr ⟨_, ⟨⟨hLater, h.base.phase, rfl, h.base.calls, h.base.trace⟩, h.phase, rfl, ?_,
          h.head, not_le.mp hDone,
        h.plain, h.measured, h.whole, h.waits⟩⟩) ?_
      · have hAll : take = bytes.length := by omega
        dsimp only
        rw [hAll, List.take_length, List.append_assoc, hAhead, h.rest]
      · rw [load, load, ← hAhead, List.length_append]
        dsimp only
        omega

end Turns

/-! ## Runs -/

/-- The connection is calm, or a body is about to go to a file or on its way to it, and what
comes behind the body fits the buffer. -/
structure SpillCalm (env : ServerEnv) (m : Conn) : Prop where
  whole : m.spill = none → Calm env m ∨ m.phase = .serve ∧ ∃ req, Spillable env m req
  surplus : ∀ sp bytes, m.spill = some sp → (ioRecv stageSize m.arrivals).1 = .data bytes →
    m.rb.count + (bytes.length - (sp.req.contentLength.toNat - sp.written.length)) ≤ m.rb.capacity

theorem serveTurn_files {env : ServerEnv} {m : Conn} {s : Stream} (hBlind : Blind env) (hUsable : Usable env)
    (hCalm : SpillCalm env m) (h : Files m s) : Keeps Files env (load m) s (serveTurn env m) := by
  obtain h | ⟨sp, h⟩ := h
  · obtain hCalm | ⟨hPhase, req, hSpill⟩ := hCalm.whole h.spill
    · exact (serveTurn_keeps hBlind hCalm h).files
    · rw [serveTurn, servePass, hPhase, h.spill]
      dsimp only
      rw [parsePass, hSpill.parse]
      exact incompleteTurn_files hUsable h hPhase hSpill
  · rw [serveTurn, servePass, h.phase, h.spill]
    exact drainPass_files hBlind hUsable h

/-- The server with another limit for bodies. -/
def inMemory (env : ServerEnv) (large : Nat) : ServerEnv := { env with maxBody := large }

theorem streamTurn_inMemory (env : ServerEnv) (large : Nat) :
    streamTurn (inMemory env large) = streamTurn env := rfl

/-- A server that puts large bodies in files does what one does that has room for them in
memory. -/
theorem spill_agrees {env : ServerEnv} (hBlind : Blind env) (hUsable : Usable env) (large : Nat)
    {reads reads' : List Bytes}
    (hReads : ∀ bytes ∈ reads, bytes ≠ []) (hReads' : ∀ bytes ∈ reads', bytes ≠ [])
    (hSame : reads.flatten = reads'.flatten)
    (hCalm : ∀ m, Serves env (reads.map .data) m → SpillCalm env m)
    (hCalm' : ∀ m, Serves (inMemory env large) (reads'.map .data) m → Calm (inMemory env large) m) :
    ∃ m m', Finishes env reads m ∧ Finishes (inMemory env large) reads' m' ∧ SameService m m' := by
  obtain ⟨m, s, hEnds, hStream, h⟩ := ends_of_keeps (.inl (start_shows env hReads))
    fun _ hVisits _ h => serveTurn_files hBlind hUsable (hCalm _ hVisits) h
  obtain ⟨m', s', hEnds', hStream', h'⟩ := @serve_ends (inMemory env large) hBlind _ hReads' hCalm'
  rw [streamTurn_inMemory, ← hSame] at hStream'
  obtain rfl := hStream.unique hStream'
  exact ⟨m, m', hEnds, hEnds', h.sameService h'⟩

/-! ## A body in a file -/

def spillableTest (env : ServerEnv) (m : Conn) : Bool :=
  match httpRequestParseAdv m.rb.view m.rb.behind with
  | .incomplete req =>
    decide (¬ OpenBlank m.rb.view) && decide ([13, 10, 13, 10] <:+: m.rb.view) &&
      decide (m.rb.capacity ≤ m.rb.count) &&
      decide ((env.maxBody : Int) < req.contentLength) &&
        decide (0 < req.bodyOffset ∧ req.bodyOffset < m.rb.count) &&
      decide (∀ b ∈ (m.rb.view.take req.bodyOffset).head?, isspace b = false) &&
      decide ([] ∉ headLines (m.rb.view.take req.bodyOffset)) &&
      decide (transferEncodings (fieldsOf (m.rb.view.take req.bodyOffset)) = []) &&
      expectInterest (m.rb.view.take req.bodyOffset) == 0
  | _ => false

theorem spillable_of_test {env : ServerEnv} {m : Conn} (h : spillableTest env m = true) :
    ∃ req, Spillable env m req := by
  rw [spillableTest] at h
  split at h
  · rename_i req hParse
    simp only [Bool.and_eq_true, decide_eq_true_iff, beq_iff_eq] at h
    obtain ⟨⟨⟨⟨⟨⟨⟨⟨hOpen, hLast⟩, hFull⟩, hLarge⟩, hHead⟩, hStarts⟩, hLines⟩, hChunked⟩, hExpect⟩ := h
    exact ⟨req, hParse, fun hEnds => hOpen hEnds.1, .inl hLast, hFull, hLarge, hHead, ⟨hStarts, hLines⟩,
      hChunked,
      fun _ => ⟨hExpect.symm.le, fun hPos => absurd hPos hExpect.le.not_gt⟩⟩
  · cases h

def spillTest (env : ServerEnv) (m : Conn) : Bool :=
  match m.spill with
  | none => calmTest m || (m.phase == .serve && spillableTest env m)
  | some sp =>
    match (ioRecv stageSize m.arrivals).1 with
    | .data bytes =>
      decide (m.rb.count + (bytes.length - (sp.req.contentLength.toNat - sp.written.length)) ≤ m.rb.capacity)
    | _ => true

theorem spillCalm_of_test {env : ServerEnv} {m : Conn} (h : spillTest env m = true) : SpillCalm env m := by
  rw [spillTest] at h
  constructor
  · intro hNone
    rw [hNone] at h
    dsimp only at h
    rw [Bool.or_eq_true, Bool.and_eq_true, beq_iff_eq] at h
    obtain hCalm | ⟨hPhase, hSpill⟩ := h
    · exact .inl (calm_of_test env hCalm)
    · exact .inr ⟨hPhase, spillable_of_test hSpill⟩
  · intro sp bytes hSome hRecv
    rw [hSome] at h
    dsimp only at h
    rw [hRecv] at h
    exact of_decide_eq_true h

def largeRequest : Bytes := ascii "POST /a HTTP/1.1\r\nContent-Length: 70\r\n\r\n" ++ List.replicate 70 120

def fileEnv : ServerEnv := { pageEnv with config := some true, maxBody := 60 }

/-- The body of the first request goes to a file, and the second one is parked. -/
theorem spill_agrees_large : ∃ m m', Finishes fileEnv [largeRequest ++ getRequest] m ∧
    Finishes (inMemory fileEnv 65536) [largeRequest.take 20, largeRequest.drop 20 ++ getRequest] m' ∧
      SameService m m' := by
  refine spill_agrees (fun _ => rfl) ⟨rfl, rfl, fun _ => rfl, rfl⟩ 65536 (by decide +kernel)
    (by decide +kernel)
    (by decide +kernel) ?_ ?_
  · exact fun m hServes => spillCalm_of_test (hServes.of_checked 12 (by decide +kernel))
  · exact fun m hServes => calm_of_test _ (hServes.of_checked 12 (by decide +kernel))

/-! ## Requests behind a body -/

/-- A request that does not fit the buffer is to go to a file, and its head fits. -/
def HeadsFit (env : ServerEnv) (reads : List Bytes) : Prop :=
  ∀ m, Serves env (reads.map .data) m → m.spill = none → wantsMore m = true → m.rb.count < m.rb.capacity ∨
    ∃ req, httpRequestParseAdv m.rb.view m.rb.behind = .incomplete req ∧
    (env.maxBody : Int) < req.contentLength ∧
      0 < req.bodyOffset ∧ req.bodyOffset < m.rb.count

/-- Whether large bodies go to files or stay in memory, the same requests are handled. -/
def SpillFree (env : ServerEnv) (large : Nat) : Prop :=
  ∀ reads : List Bytes, (∀ bytes ∈ reads, bytes ≠ []) → HeadsFit env reads →
    RequestsFit (inMemory env large) reads →
    ∀ m m', Finishes env reads m → Finishes (inMemory env large) reads m' → m.calls = m'.calls

def headTest (env : ServerEnv) (m : Conn) : Bool :=
  m.spill.isSome || roomTest m ||
    match httpRequestParseAdv m.rb.view m.rb.behind with
    | .incomplete req => decide ((env.maxBody : Int) < req.contentLength) &&
      decide (0 < req.bodyOffset ∧ req.bodyOffset < m.rb.count)
    | _ => false

theorem headsFit_of_checked {env : ServerEnv} {reads : List Bytes} (fuel : Nat)
    (h : checked (headTest env) (serveTurn env) fuel (serveStart env (reads.map .data)) = true) :
    HeadsFit env reads := by
  intro m hServes hNone hWants
  have hTest := hServes.of_checked fuel h
  rw [headTest, hNone, Option.isSome_none, Bool.false_or, Bool.or_eq_true, roomTest, hWants,
    Bool.not_true, Bool.false_or,
    decide_eq_true_iff] at hTest
  refine hTest.imp_right fun hHead => ?_
  split at hHead
  · rename_i req hParse
    rw [Bool.and_eq_true, decide_eq_true_iff, decide_eq_true_iff] at hHead
    exact ⟨req, hParse, hHead⟩
  · cases hHead

/-- Four requests without a length, more than fits the buffer at once. -/
def getRequests : Bytes := getRequest ++ (getRequest ++ (getRequest ++ getRequest))

/-- The first of the requests behind a body in a file has a shorter body than it has
in memory. -/
theorem spill_differs : ¬ SpillFree fileEnv 65536 := by
  intro hFree
  have hFile : Finishes fileEnv [largeRequest, getRequests]
    (leftAfter fileEnv [largeRequest, getRequests] 10) :=
    .of_steps 10 (by decide +kernel) (by decide +kernel)
  have hMemory : Finishes (inMemory fileEnv 65536) [largeRequest, getRequests]
      (leftAfter (inMemory fileEnv 65536) [largeRequest, getRequests] 8) :=
      .of_steps 8 (by decide +kernel) (by decide +kernel)
  have hSame :=
    hFree [largeRequest, getRequests] (by decide +kernel) (headsFit_of_checked 16 (by decide +kernel))
    (requestsFit_of_checked 16 (by decide +kernel)) _ _ hFile hMemory
  exact absurd hSame (by decide +kernel)

end Cweb
