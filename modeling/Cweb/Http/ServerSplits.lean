import Cweb.Http.ServerReject
import Cweb.Http.ServerStream

/-!
# Reads cut in other places

A connection on which nothing depends on where the reads are cut shows what its
stream shows. A round that has too little reads more, and any other does what the
stream does next. Two ways to cut the same bytes then come to the same calls and
the same answers.
-/

namespace Cweb

open Sv H2 Loop

/-! ## States that do not depend on the reads -/

def wantsMore (m : Conn) : Bool :=
  match m.phase with
  | .sniff => m.rb.count < 3 || (m.rb.view.take 3 == ascii "PRI" && m.rb.count < h2Magic.length)
  | .serve =>
    match httpRequestParseAdv m.rb.view m.rb.behind with
    | .incomplete _ => true
    | .ok req _ =>
      (httpRequestGetHeader req (ascii "transfer-encoding")).isSome &&
        match httpRequestDecodeChunked req m.rb.behind with
        | .incomplete _ => true
        | _ => false
    | _ => false

/-- A client that waits is told to go on, and no other expectation is in the head. -/
structure MayWait (env : ServerEnv) (m : Conn) (req : HttpRequest) : Prop where
  known : 0 ≤ expectInterest (m.rb.view.take req.bodyOffset)
  answered : 0 < expectInterest (m.rb.view.take req.bodyOffset) →
    env.config = some true ∨ env.config = some false ∧ req.contentLength ≤ env.maxBody

/-- A request that has not all come fits the buffer, and its head has no expectation but
the one that is answered. What is left over behind the view completes no blank line,
and two line feeds end no head that a CRLF CRLF would end later. Chunks have all come,
or have been left as they were. Without a length nothing is inflated. -/
structure Calm (env : ServerEnv) (m : Conn) : Prop where
  room : wantsMore m = true → m.rb.count < m.rb.capacity
  inside : m.phase = .serve → ¬ EndsBehind m.rb.view m.rb.behind
  feeds : m.phase = .serve → FeedsLast m.rb.view (ahead m.arrivals)
  expect : ∀ req, m.phase = .serve → httpRequestParseAdv m.rb.view m.rb.behind = .incomplete req →
    m.continueSent = false ∧ 0 < req.bodyOffset → MayWait env m req
  chunked : ∀ req consumed, m.phase = .serve → httpRequestParseAdv m.rb.view m.rb.behind = .ok req consumed →
    httpRequestGetHeader req (ascii "transfer-encoding") ≠ none →
      httpRequestGetHeader req (ascii "content-length") = none ∧
      (Pauses req.body ∨ ∃ left, Whole req.body left)
  gzip : ∀ req consumed, m.phase = .serve → httpRequestParseAdv m.rb.view m.rb.behind = .ok req consumed →
    measured req = false → isGzip req = false

/-! ## Reading more -/

theorem ioRecv_reads {room : Nat} {arrivals : List Arrival} (hRoom : 0 < room)
    (hReads : ∀ a ∈ arrivals, ∃ bytes, a = .data bytes ∧ bytes ≠ []) :
    arrivals = [] ∨ ∃ bytes later, ioRecv room arrivals = (.data bytes, later) ∧ bytes ≠ [] ∧
      bytes.length ≤ room ∧
      bytes ++ ahead later = ahead arrivals ∧ ∀ a ∈ later, ∃ bytes, a = .data bytes ∧ bytes ≠ [] := by
  cases arrivals with
  | nil => exact .inl rfl
  | cons a rest =>
    right
    obtain ⟨bytes, rfl, hSome⟩ := hReads a List.mem_cons_self
    have hRest := fun a ha => hReads a (List.mem_cons_of_mem _ ha)
    have hTake : bytes.take room ≠ [] := by
      rw [Ne, List.take_eq_nil_iff]
      rintro (hZero | hNil)
      · omega
      · exact hSome hNil
    rw [ioRecv, if_neg hTake]
    by_cases hLong : room < bytes.length
    · rw [if_pos hLong]
      refine ⟨_, _, rfl, hTake, List.length_take_le _ _, ?_, ?_⟩
      · change bytes.take room ++ (bytes.drop room ++ ahead rest) = bytes ++ ahead rest
        rw [← List.append_assoc, List.take_append_drop]
      · intro a ha
        obtain rfl | ha := List.mem_cons.mp ha
        · refine ⟨_, rfl, fun hNil => ?_⟩
          have hLe := List.drop_eq_nil_iff.mp hNil
          omega
        · exact hRest a ha
    · rw [if_neg hLong, List.take_of_length_le (not_lt.mp hLong)]
      exact ⟨_, _, rfl, hSome, not_lt.mp hLong, rfl, hRest⟩

/-- Bytes that are to come count twice, so that reading them makes the load less. -/
def load (m : Conn) : Nat := 2 * (m.rb.view.length + 2 * (ahead m.arrivals).length) +
    if m.phase = .sniff then 1 else 0

/-- A turn reads more, or does what the stream does next. `R` is the relation to the
stream, and the load gets less than `n`. -/
inductive Keeps (R : Conn → Stream → Prop) (env : ServerEnv) (n : Nat) (s : Stream) : Turn Conn → Prop where
  | read {m' : Conn} (h : R m' s) (hLess : load m' < n) : Keeps R env n s (.again m')
  | step {m' : Conn} {s' : Stream} (hTurn : streamTurn env s = .again s') (h : R m' s')
    (hLess : load m' < n) :
      Keeps R env n s (.again m')
  | done {m' : Conn} {s' : Stream} (hTurn : streamTurn env s = .leave s')
    (h : Ended m' s') : Keeps R env n s (.leave m')

section Turns

variable {env : ServerEnv} {m : Conn} {s : Stream}

theorem fillMore_keeps (h : Shows m s) (hRoom : m.rb.count < m.rb.capacity)
    (hDry : m.arrivals = [] → streamTurn env s = .leave s) : Keeps Shows env (load m) s (fillMore env m) := by
  have hPos : 0 < rbRoom m.rb := by
    rw [rbRoom]
    omega
  obtain hNil | ⟨bytes, later, hRecv, hSome, hLength, hAhead, hLater⟩ := ioRecv_reads hPos h.reads
  · rw [fillMore, hNil]
    exact .done (hDry hNil) ⟨h.calls, h.trace _⟩
  · rw [fillMore, hRecv]
    have hView : (rbCommit m.rb bytes).view = m.rb.view ++ bytes := by
      rw [rbCommit, rbPark, List.take_of_length_le hLength]
    refine .read ⟨⟨hLater, h.phase, h.spill, h.calls, h.trace⟩, ?_⟩ ?_
    · change (rbCommit m.rb bytes).view ++ ahead later = s.rest
      rw [hView, List.append_assoc, hAhead, h.rest]
    · have hPiece := List.length_pos_of_ne_nil hSome
      rw [load, load, ← hAhead, hView, List.length_append, List.length_append]
      dsimp only
      omega

theorem Shows.dry (h : Shows m s) (hNil : m.arrivals = []) : s.rest = m.rb.view := by
  rw [← h.rest, hNil]
  exact List.append_nil _

theorem keeps_of_same {left : Bytes} {arrivals : List Arrival} {n : Nat} {t : Turn Conn} {t' : Turn Stream}
    (hSame : SameTurn left arrivals t t') (hTurn : streamTurn env s = t')
    (hLess : 2 * (left.length + 2 * (ahead arrivals).length) < n) : Keeps Shows env n s t := by
  cases hSame with
  | again h hServe hView hArrivals =>
    refine .step hTurn h ?_
    rw [load, hView, hArrivals, hServe]
    exact hLess
  | leave h => exact .done hTurn h

theorem load_lt {left : Bytes} (hLess : left.length < m.rb.view.length) :
    2 * (left.length + 2 * (ahead m.arrivals).length) < load m := by
  rw [load]
  omega

/-! ## The first bytes -/

theorem sniffTurn_keeps (hRoom : wantsMore m = true → m.rb.count < m.rb.capacity) (h : Shows m s)
    (hPhase : m.phase = .sniff) :
    Keeps Shows env (load m) s (sniffTurn env m) := by
  have hStream : streamTurn env s =
      if s.rest.length < 3 ∨ s.rest.take 3 = ascii "PRI" ∧ s.rest.length < h2Magic.length then .leave s
      else if h2Magic.isPrefixOf s.rest then .leave (s.log [.handover none (s.rest.drop h2Magic.length)])
      else .again { s with phase := .serve } := by
    rw [streamTurn, ← h.phase, hPhase]
  have hFill : m.rb.count < 3 ∨ m.rb.view.take 3 = ascii "PRI" ∧ m.rb.count < h2Magic.length →
      Keeps Shows env (load m) s (fillMore env m) := by
    intro hShort
    refine fillMore_keeps h (hRoom ?_) fun hNil => ?_
    · rw [wantsMore, hPhase]
      dsimp only
      rw [Bool.or_eq_true, Bool.and_eq_true, decide_eq_true_iff, decide_eq_true_iff, beq_iff_eq]
      exact hShort
    · rw [hStream, h.dry hNil]
      exact if_pos hShort
  rw [sniffTurn]
  by_cases hFew : m.rb.count < 3
  · rw [if_pos hFew]
    exact hFill (.inl hFew)
  · rw [if_neg hFew]
    by_cases hPri : m.rb.view.take 3 = ascii "PRI" ∧ m.rb.count < h2Magic.length
    · rw [if_pos hPri]
      exact hFill (.inr hPri)
    · rw [if_neg hPri]
      rw [ReadBuffer.count] at hFew hPri
      have hTake : s.rest.take 3 = m.rb.view.take 3 := by
        rw [← h.rest, List.take_append_of_le_length (by omega)]
      have hLe : m.rb.view.length ≤ s.rest.length := by
        rw [← h.rest, List.length_append]
        omega
      have hEnough : ¬ (s.rest.length < 3 ∨ s.rest.take 3 = ascii "PRI" ∧
        s.rest.length < h2Magic.length) := by
        rw [hTake]
        rintro (hShort | ⟨hIs, hShort⟩)
        · omega
        · exact hPri ⟨hIs, by omega⟩
      have hMagic : h2Magic.isPrefixOf s.rest = h2Magic.isPrefixOf m.rb.view := by
        rw [Bool.eq_iff_iff, List.isPrefixOf_iff_prefix, List.isPrefixOf_iff_prefix]
        constructor
        · intro hPrefix
          have hIs : m.rb.view.take 3 = ascii "PRI" := by
            obtain ⟨rest, hRest⟩ := hPrefix
            rw [← hTake, ← hRest]
            rfl
          have hLong : h2Magic.length ≤ m.rb.view.length := by
            by_contra hShort
            exact hPri ⟨hIs, by omega⟩
          rw [← h.rest] at hPrefix
          exact List.prefix_of_prefix_length_le hPrefix (List.prefix_append _ _) hLong
        · intro hPrefix
          rw [← h.rest]
          exact hPrefix.trans (List.prefix_append _ _)
      rw [if_neg hEnough, hMagic] at hStream
      split
      · rename_i hIs
        rw [if_pos hIs] at hStream
        refine .done hStream (h.ended_log ?_)
        have hLong := (List.isPrefixOf_iff_prefix.mp hIs).length_le
        rw [← h.rest, List.drop_append_of_le_length hLong]
        rfl
      · rename_i hNot
        rw [if_neg hNot] at hStream
        refine .step hStream ⟨⟨h.reads, rfl, h.spill, h.calls, h.trace⟩, h.rest⟩ ?_
        rw [load, load, hPhase]
        dsimp only
        rw [if_neg (by rintro ⟨⟩), if_pos rfl]
        omega

/-! ## Requests -/

theorem parse_consumes {raw behind : Bytes} {req : HttpRequest} {consumed : Nat}
    (h : httpRequestParseAdv raw behind = .ok req consumed) :
    0 < req.bodyOffset ∧ req.bodyOffset ≤ consumed ∧ consumed ≤ raw.length := by
  have hParsed := httpRequestParseAdv_parsed h
  have hOffset : 0 < req.bodyOffset := by
    rw [← parseKept_all, parseKept] at h
    split at h
    · cases h
    · rename_i stop hEnd
      have hStop : 0 < stop := by
        rw [findHeaderEnd] at hEnd
        split at hEnd
        · rename_i hCrlf
          obtain rfl := Option.some.inj hEnd
          have hGe := crlfEnd_ge hCrlf
          omega
        · have hGe := lfEnd_ge hEnd
          omega
      split at h
      · cases h
      · obtain ⟨_, ⟨_, rfl, _⟩ | ⟨_, _, _, _, _, _, rfl⟩⟩ := parseBody_ok_cases h <;> exact hStop
  by_cases hNone : httpRequestGetHeader req (ascii "content-length") = none
  · obtain ⟨_, hConsumed, _⟩ := hParsed.unmeasured hNone
    have hInside := hParsed.inside
    omega
  · obtain ⟨_, hConsumed, hLe⟩ := hParsed.measured hNone
    omega

theorem incompleteTurn_waits {req : HttpRequest}
    (hExpect : m.continueSent = false ∧ 0 < req.bodyOffset → MayWait env m req) :
    incompleteTurn env m req = readOn env m req ∨
      incompleteTurn env m req =
        readOn env { m.log [.wrote continueText] with continueSent := true } req := by
  rw [incompleteTurn]
  split
  · rename_i hFirst
    obtain ⟨hKnown, hAnswered⟩ := hExpect hFirst
    dsimp only
    rw [if_neg (not_lt.mpr hKnown)]
    split
    · rename_i hWaits
      right
      obtain hDir | ⟨hNoDir, hFits⟩ := hAnswered hWaits
      · rw [hDir]
        dsimp only
        rw [if_neg (by rintro ⟨hFalse, _⟩; cases hFalse)]
      · rw [hNoDir]
        dsimp only
        rw [if_neg (by rintro ⟨_, hLarge⟩; omega)]
    · exact .inl rfl
  · exact .inl rfl

theorem incompleteTurn_keeps {req : HttpRequest} (h : Shows m s) (hRoom : m.rb.count < m.rb.capacity)
    (hExpect : m.continueSent = false ∧ 0 < req.bodyOffset → MayWait env m req)
    (hDry : m.arrivals = [] → streamTurn env s = .leave s) :
    Keeps Shows env (load m) s (incompleteTurn env m req) := by
  have hReads : ∀ m' : Conn, m'.rb = m.rb → readOn env m' req = fillMore env m' := by
    intro m' hRb
    rw [readOn, hRb, if_neg (not_le.mpr hRoom)]
  obtain hOn | hOn := incompleteTurn_waits hExpect
  · rw [hOn, hReads m rfl]
    exact fillMore_keeps h hRoom hDry
  · rw [hOn, hReads { m.log [.wrote continueText] with continueSent := true } rfl]
    exact fillMore_keeps h.continues hRoom hDry

theorem slide_pauses {rb : ReadBuffer} {req : HttpRequest} {payload : Bytes}
    (hBody : req.body = rb.view.drop req.bodyOffset)
    (hSame : payload ++ req.body.drop payload.length = req.body) : slide rb req payload = rb := by
  rw [slide, List.append_assoc, ← hBody, hSame, hBody, List.take_append_drop]

theorem slide_left {rb : ReadBuffer} {req : HttpRequest} {payload left : Bytes}
    (hBody : req.body = rb.view.drop req.bodyOffset)
    (hOffset : req.bodyOffset ≤ rb.view.length) (hLeft : left <:+ req.body)
    (hLength : payload.length + left.length ≤ req.body.length) :
    (slide rb req payload).view.drop (req.bodyOffset + (req.body.length - left.length)) = left := by
  have hTake : (rb.view.take req.bodyOffset).length = req.bodyOffset := by
    rw [List.length_take, Nat.min_eq_left hOffset]
  have hBehind : req.body.length - left.length = payload.length +
    (req.body.length - left.length - payload.length) := by omega
  calc
    (slide rb req payload).view.drop (req.bodyOffset + (req.body.length - left.length)) =
        (payload ++ req.body.drop payload.length).drop (req.body.length - left.length) := by
      rw [slide]
      dsimp only
      rw [List.append_assoc, ← hBody, ← List.drop_drop, List.drop_left' hTake]
    _ = (req.body.drop payload.length).drop (req.body.length - left.length - payload.length) := by
      rw [hBehind, ← List.drop_drop, List.drop_left, ← hBehind]
    _ = req.body.drop (req.body.length - left.length) := by
      rw [List.drop_drop, ← hBehind]
    _ = left := (List.suffix_iff_eq_drop.mp hLeft).symm

theorem streamTurn_chunked {s : Stream} {req : HttpRequest} {consumed : Nat} (hPhase : s.phase = .serve)
    (hParse : httpRequestParseAdv s.rest [] = .ok req consumed)
    (hChunked : httpRequestGetHeader req (ascii "transfer-encoding") ≠ none) :
    streamTurn env s = match httpRequestDecodeChunked req [] with
      | .complete payload left _ => streamDispatch env s { req with body := payload } left
      | _ => .leave s := by
  rw [streamTurn, hPhase]
  dsimp only
  rw [hParse]
  exact if_neg hChunked

theorem chunkedPass_keeps (hBlind : Blind env) (hCalm : Calm env m) (h : Shows m s)
    (hPhase : m.phase = .serve) {req : HttpRequest}
    {consumed : Nat} (hParse : httpRequestParseAdv m.rb.view m.rb.behind = .ok req consumed)
    (hChunked : httpRequestGetHeader req (ascii "transfer-encoding") ≠ none) :
    Keeps Shows env (load m) s (match chunkedPass env m req consumed with
      | .next t => t
      | .staged m req consumed => dispatch env m req consumed) := by
  obtain ⟨hNone, hBody⟩ := hCalm.chunked req consumed hPhase hParse hChunked
  have hParsed := httpRequestParseAdv_parsed hParse
  obtain ⟨_, _, hAll⟩ := hParsed.unmeasured hNone
  have hMore := parseAdv_ok_more (hCalm.inside hPhase) (hCalm.feeds hPhase) hParse
  rw [if_pos hNone, h.rest] at hMore
  have hStream := @streamTurn_chunked env _ _ _ (h.phase.symm.trans hPhase) hMore hChunked
  obtain hPauses | ⟨left, hWhole⟩ := hBody
  · obtain ⟨_, payload, hWaits, hSame⟩ := (pausesCleanly_iff req m.rb.behind).mpr ⟨hNone, hPauses⟩
    have hWants : wantsMore m = true := by
      rw [wantsMore, hPhase]
      dsimp only
      rw [hParse]
      dsimp only
      rw [hWaits, Option.isSome_iff_ne_none.mpr hChunked]
      rfl
    have hRoom := hCalm.room hWants
    have hStays : chunkedPass env m req consumed = .next (fillMore env m) := by
      rw [chunkedPass, hWaits, unfoldedPass]
      dsimp only
      rw [slide_pauses hAll hSame, if_neg (not_le.mpr hRoom)]
    rw [hStays]
    refine fillMore_keeps h hRoom fun hNil => ?_
    obtain ⟨_, payload', hWaits', _⟩ := (pausesCleanly_iff req []).mpr ⟨hNone, hPauses⟩
    have hDry : ({ req with body := req.body ++ ahead m.arrivals } : HttpRequest) = req := by
      rw [hNil]
      exact congrArg (fun body => ({ req with body := body } : HttpRequest)) (List.append_nil _)
    rw [hStream, hDry, hWaits']
  · obtain ⟨payload, hLeft, hLength, hDecode⟩ := decode_whole hNone hWhole
    have hNow : httpRequestDecodeChunked req m.rb.behind = .complete payload left false := by
      have hSame := hDecode [] m.rb.behind
      rw [List.append_nil, List.append_nil] at hSame
      exact hSame
    have hStaged : chunkedPass env m req consumed =
      .staged { m with rb := slide m.rb req payload } { req with body := payload }
        (req.bodyOffset + (req.body.length - left.length)) := by
      rw [chunkedPass, hNow]
      rfl
    have hMeasured : measured { req with body := payload } = true := by
      rw [measured, Bool.or_eq_true]
      exact .inr (Option.isSome_iff_ne_none.mpr hChunked)
    have hSame := @dispatch_same env { m with rb := slide m.rb req payload } s { req with body := payload }
      (req.bodyOffset + (req.body.length - left.length)) hBlind (h.toAgrees.of_rb _) hPhase
      fun hNot => absurd hMeasured (ne_true_of_eq_false hNot)
    rw [blind_of_measured hMeasured] at hSame
    dsimp only at hSame
    rw [slide_left hAll hParsed.inside hLeft hLength] at hSame
    rw [hStaged]
    refine keeps_of_same hSame ?_ (load_lt ?_)
    · rw [hStream, hDecode]
    · obtain ⟨hPos, _, _⟩ := parse_consumes hParse
      have hInside := hParsed.inside
      have hLe := hLeft.length_le
      rw [hAll, List.length_drop] at hLe
      omega

theorem parsePass_keeps (hBlind : Blind env) (hCalm : Calm env m) (h : Shows m s)
    (hPhase : m.phase = .serve) :
    Keeps Shows env (load m) s (match parsePass env m with
      | .next t => t
      | .staged m req consumed => dispatch env m req consumed) := by
  have hInside := hCalm.inside hPhase
  have hFeeds := hCalm.feeds hPhase
  rw [parsePass]
  cases hParse : httpRequestParseAdv m.rb.view m.rb.behind with
  | incomplete req =>
    have hRoom : m.rb.count < m.rb.capacity := hCalm.room (by rw [wantsMore, hPhase]; dsimp only; rw [hParse])
    dsimp only
    refine incompleteTurn_keeps h hRoom (hCalm.expect req hPhase hParse) fun hNil => ?_
    rw [streamTurn, ← h.phase, hPhase]
    dsimp only
    rw [h.dry hNil, ← parseAdv_clean hInside, hParse]
  | error =>
    have hMore := parseAdv_error_more hInside hFeeds hParse
    rw [h.rest] at hMore
    refine .done ?_ (h.sendError env 400)
    rw [streamTurn, ← h.phase, hPhase]
    dsimp only
    rw [hMore]
  | overread => exact absurd hParse (parseAdv_inside hInside)
  | ok req consumed =>
    dsimp only
    by_cases hPlain : httpRequestGetHeader req (ascii "transfer-encoding") = none
    · rw [if_neg (not_not.mpr hPlain)]
      obtain ⟨hPos, hOffset, hLe⟩ := parse_consumes hParse
      have hMore := parseAdv_ok_more hInside hFeeds hParse
      rw [h.rest] at hMore
      refine keeps_of_same
        (dispatch_same hBlind h.toAgrees hPhase (hCalm.gzip req consumed hPhase hParse)) ?_ (load_lt ?_)
      · rw [streamTurn, ← h.phase, hPhase]
        dsimp only
        rw [hMore, ← List.drop_append_of_le_length hLe, h.rest]
        by_cases hNone : httpRequestGetHeader req (ascii "content-length") = none
        · have hUnmeasured : measured req = false := by
            rw [measured, hNone, hPlain]
            rfl
          rw [if_pos hNone]
          dsimp only
          rw [blind_body hUnmeasured]
          exact if_pos hPlain
        · rw [if_neg hNone]
          exact if_pos hPlain
      · rw [List.length_drop]
        omega
    · rw [if_pos hPlain]
      exact chunkedPass_keeps hBlind hCalm h hPhase hParse hPlain

theorem serveTurn_keeps (hBlind : Blind env) (hCalm : Calm env m) (h : Shows m s) :
    Keeps Shows env (load m) s (serveTurn env m) := by
  rw [serveTurn, servePass]
  cases hPhase : m.phase with
  | sniff => exact sniffTurn_keeps hCalm.room h hPhase
  | serve =>
    rw [h.spill]
    exact parsePass_keeps hBlind hCalm h hPhase

end Turns

/-! ## Runs -/

/-- The state a connection ends in whose bytes arrive in these reads. -/
def Finishes (env : ServerEnv) (reads : List Bytes) (m : Conn) : Prop :=
  Ends (serveTurn env) (serveStart env (reads.map .data)) m

theorem ahead_reads (reads : List Bytes) : ahead (reads.map .data) = reads.flatten := by
  induction reads with
  | nil => rfl
  | cons bytes reads ih =>
    rw [List.flatten_cons, ← ih]
    rfl

theorem start_shows (env : ServerEnv) {reads : List Bytes} (hReads : ∀ bytes ∈ reads, bytes ≠ []) :
    Shows (serveStart env (reads.map .data)) (streamStart env reads.flatten) := by
  refine ⟨⟨?_, rfl, rfl, rfl, fun _ => .nil⟩, ahead_reads reads⟩
  intro a ha
  obtain ⟨bytes, hBytes, rfl⟩ := List.mem_map.mp ha
  exact ⟨bytes, rfl, hReads bytes hBytes⟩

section Runs

variable {env : ServerEnv}

theorem Keeps.again {R : Conn → Stream → Prop} {n : Nat} {s : Stream} {m : Conn}
    (h : Keeps R env n s (.again m)) :
    load m < n ∧ (R m s ∨ ∃ s', streamTurn env s = .again s' ∧ R m s') := by
  cases h with
  | read h hLess => exact ⟨hLess, .inl h⟩
  | step hStream h hLess => exact ⟨hLess, .inr ⟨_, hStream, h⟩⟩

/-- A connection whose turns all keep to the stream ends, and the stream ends with it. -/
theorem ends_of_keeps {R : Conn → Stream → Prop} {m : Conn} {s : Stream} (h : R m s)
    (hKeeps : ∀ m', Visits (serveTurn env) m m' → ∀ s', R m' s' →
      Keeps R env (load m') s' (serveTurn env m')) :
    ∃ m' s', Ends (serveTurn env) m m' ∧ Ends (streamTurn env) s s' ∧ Ended m' s' := by
  have hRelated : ∀ m', Visits (serveTurn env) m m' → ∃ s', R m' s' := by
    intro m' hVisits
    apply hVisits.invariant (P := fun m' => ∃ s', R m' s') ⟨s, h⟩
    rintro c₁ c₂ hVisits ⟨s', h'⟩ hTurn
    have hTurns := hKeeps c₁ hVisits s' h'
    rw [hTurn] at hTurns
    obtain ⟨_, h'' | ⟨s'', _, h''⟩⟩ := hTurns.again
    · exact ⟨s', h''⟩
    · exact ⟨s'', h''⟩
  have hFollows : Follows (serveTurn env) (streamTurn env) R Ended m := by
    constructor
    · intro c₁ c₂ s' hVisits h' hTurn
      have hTurns := hKeeps c₁ hVisits s' h'
      rw [hTurn] at hTurns
      exact hTurns.again.2
    · intro c₁ c₂ s' hVisits h' hTurn
      have hTurns := hKeeps c₁ hVisits s' h'
      rw [hTurn] at hTurns
      cases hTurns with
      | done hStream hEnded => exact ⟨_, hStream, hEnded⟩
  refine hFollows.ends load _ _ _ ?_ (Nat.lt_succ_self _) h
  intro c₁ c₂ hVisits hTurn
  obtain ⟨s', h'⟩ := hRelated c₁ hVisits
  have hTurns := hKeeps c₁ hVisits s' h'
  rw [hTurn] at hTurns
  exact hTurns.again.1

theorem serve_ends (hBlind : Blind env) {reads : List Bytes} (hReads : ∀ bytes ∈ reads, bytes ≠ [])
    (hCalm : ∀ m, Serves env (reads.map .data) m → Calm env m) :
    ∃ m s, Finishes env reads m ∧ Ends (streamTurn env) (streamStart env reads.flatten) s ∧ Ended m s :=
  ends_of_keeps (start_shows env hReads) fun _ hVisits _ h => serveTurn_keeps hBlind (hCalm _ hVisits) h

end Runs

/-! ## The same bytes in other reads -/

def wireBytes (trace : List Event) : Bytes :=
  trace.flatMap fun e =>
    match e with
    | .wrote bytes => bytes
    | _ => []

/-- The connections have made the same calls, but for bodies that are not measured, and
have written the same, but for 100 Continue. Another protocol takes over from both with
the same request and the same bytes to read. -/
structure SameService (m m' : Conn) : Prop where
  calls : m.calls.map HttpRequest.blind = m'.calls.map HttpRequest.blind
  trace : ∃ trace, Continued (m.trace.map (Event.shown (ahead m.arrivals))) trace ∧
    Continued (m'.trace.map (Event.shown (ahead m'.arrivals))) trace

theorem Ended.sameService {m m' : Conn} {s : Stream} (h : Ended m s) (h' : Ended m' s) : SameService m m' :=
  ⟨h.calls.trans h'.calls.symm, s.trace, h.trace, h'.trace⟩

/-- Where the reads are cut makes no difference to connections that stay calm. -/
theorem splits_agree {env : ServerEnv} (hBlind : Blind env) {reads reads' : List Bytes}
    (hReads : ∀ bytes ∈ reads, bytes ≠ [])
    (hReads' : ∀ bytes ∈ reads', bytes ≠ []) (hSame : reads.flatten = reads'.flatten)
    (hCalm : ∀ m, Serves env (reads.map .data) m → Calm env m)
    (hCalm' : ∀ m, Serves env (reads'.map .data) m → Calm env m) :
    ∃ m m', Finishes env reads m ∧ Finishes env reads' m' ∧ SameService m m' := by
  obtain ⟨m, s, hEnds, hStream, h⟩ := serve_ends hBlind hReads hCalm
  obtain ⟨m', s', hEnds', hStream', h'⟩ := serve_ends hBlind hReads' hCalm'
  rw [hSame] at hStream
  obtain rfl := hStream.unique hStream'
  exact ⟨m, m', hEnds, hEnds', h.sameService h'⟩

/-! ## Connections that stay calm -/

/-- Enough for a state to be calm, and to be tested. -/
def calmTest (m : Conn) : Bool :=
  (!wantsMore m || decide (m.rb.count < m.rb.capacity)) &&
    match m.phase with
    | .sniff => true
    | .serve =>
      decide (¬ OpenBlank m.rb.view) && (lfEnd 0 m.rb.view).isNone &&
        match httpRequestParseAdv m.rb.view m.rb.behind with
        | .incomplete req => expectInterest (m.rb.view.take req.bodyOffset) == 0
        | .ok req _ => (httpRequestGetHeader req (ascii "transfer-encoding")).isNone && !isGzip req
        | _ => true

theorem calm_of_test (env : ServerEnv) {m : Conn} (h : calmTest m = true) : Calm env m := by
  rw [calmTest, Bool.and_eq_true, Bool.or_eq_true, Bool.not_eq_true', decide_eq_true_iff] at h
  obtain ⟨hRoom, hServe⟩ := h
  have hParts : m.phase = .serve → ¬ OpenBlank m.rb.view ∧ lfEnd 0 m.rb.view = none ∧
      (match httpRequestParseAdv m.rb.view m.rb.behind with
        | .incomplete req => expectInterest (m.rb.view.take req.bodyOffset) == 0
        | .ok req _ => (httpRequestGetHeader req (ascii "transfer-encoding")).isNone && !isGzip req
        | _ => true) = true := by
    intro hPhase
    rw [hPhase] at hServe
    dsimp only at hServe
    rw [Bool.and_eq_true, Bool.and_eq_true, decide_eq_true_iff, Option.isNone_iff_eq_none] at hServe
    exact ⟨hServe.1.1, hServe.1.2, hServe.2⟩
  have hOk : ∀ req consumed, m.phase = .serve → httpRequestParseAdv m.rb.view m.rb.behind = .ok req consumed →
      httpRequestGetHeader req (ascii "transfer-encoding") = none ∧ isGzip req = false := by
    intro req consumed hPhase hParse
    obtain ⟨_, _, hTest⟩ := hParts hPhase
    rw [hParse] at hTest
    dsimp only at hTest
    rw [Bool.and_eq_true, Option.isNone_iff_eq_none, Bool.not_eq_true'] at hTest
    exact hTest
  constructor
  · intro hWants
    obtain hNot | hFits := hRoom
    · rw [hWants] at hNot
      cases hNot
    · exact hFits
  · exact fun hPhase hEnds => (hParts hPhase).1 hEnds.1
  · intro hPhase _ stop hStop _
    rw [(hParts hPhase).2.1] at hStop
    cases hStop
  · intro req hPhase hParse _
    obtain ⟨_, _, hTest⟩ := hParts hPhase
    rw [hParse] at hTest
    have hZero : expectInterest (m.rb.view.take req.bodyOffset) = 0 := beq_iff_eq.mp hTest
    exact ⟨hZero.symm.le, fun hPos => absurd hPos hZero.le.not_gt⟩
  · exact fun req consumed hPhase hParse hChunked => absurd (hOk req consumed hPhase hParse).1 hChunked
  · exact fun req consumed hPhase hParse _ => (hOk req consumed hPhase hParse).2

def postRequest : Bytes := ascii "POST /a HTTP/1.1\r\nContent-Length: 3\r\n\r\nabc"

def getRequest : Bytes := ascii "GET /b HTTP/1.1\r\n\r\n"

/-- One read, and a read that ends within a head. -/
theorem splits_agree_pair : ∃ m m', Finishes pageEnv [postRequest ++ getRequest] m ∧
    Finishes pageEnv [postRequest.take 20, postRequest.drop 20 ++ getRequest] m' ∧ SameService m m' := by
  refine splits_agree (fun _ => rfl) (by decide +kernel) (by decide +kernel) (by decide +kernel) ?_ ?_
  · exact fun m hServes => calm_of_test _ (hServes.of_checked 8 (by decide +kernel))
  · exact fun m hServes => calm_of_test _ (hServes.of_checked 8 (by decide +kernel))

/-! ## Requests without a length -/

/-- Every request fits the buffer while more of it is to come. -/
def RequestsFit (env : ServerEnv) (reads : List Bytes) : Prop :=
  ∀ m, Serves env (reads.map .data) m → wantsMore m = true → m.rb.count < m.rb.capacity

/-- However the same bytes are cut, the same requests are handled and the same bytes
written. -/
def SplitFree (env : ServerEnv) : Prop :=
  ∀ reads reads' : List Bytes, (∀ bytes ∈ reads, bytes ≠ []) → (∀ bytes ∈ reads', bytes ≠ []) →
    reads.flatten = reads'.flatten →
    RequestsFit env reads → RequestsFit env reads' → ∀ m m', Finishes env reads m → Finishes env reads' m' →
      m.calls = m'.calls ∧ wireBytes m.trace = wireBytes m'.trace

def roomTest (m : Conn) : Bool := !wantsMore m || decide (m.rb.count < m.rb.capacity)

theorem requestsFit_of_checked {env : ServerEnv} {reads : List Bytes} (fuel : Nat)
    (h : checked roomTest (serveTurn env) fuel (serveStart env (reads.map .data)) = true) :
    RequestsFit env reads := by
  intro m hServes hWants
  have hTest := hServes.of_checked fuel h
  rw [roomTest, hWants, Bool.not_true, Bool.false_or, decide_eq_true_iff] at hTest
  exact hTest

/-- The state in which the connection is left after so many turns. -/
def leftAfter (env : ServerEnv) (reads : List Bytes) (turns : Nat) : Conn :=
  (serveTurn env (steps (serveTurn env) turns (serveStart env (reads.map .data)))).state

def waitRequest : Bytes := ascii "POST /a HTTP/1.1\r\nContent-Length: 3\r\nExpect: 100-continue\r\n\r\n"

def waitEnv : ServerEnv := { pageEnv with config := some false }

/-- A request without a length has for its body what is buffered behind it, and a
client is told to go on when its body has not come yet. -/
theorem splits_differ : ¬ SplitFree pageEnv ∧ ∃ m m', Finishes waitEnv [waitRequest ++ ascii "abc"] m ∧
    Finishes waitEnv [waitRequest, ascii "abc"] m' ∧ m.calls = m'.calls ∧
      wireBytes m.trace ≠ wireBytes m'.trace := by
  refine ⟨?_, leftAfter waitEnv [waitRequest ++ ascii "abc"] 3,
    leftAfter waitEnv [waitRequest, ascii "abc"] 4,
    .of_steps 3 (by decide +kernel) (by decide +kernel), .of_steps 4 (by decide +kernel) (by decide +kernel),
    by decide +kernel, by decide +kernel⟩
  intro hFree
  have hOne : Finishes pageEnv [getRequest ++ getRequest] (leftAfter pageEnv [getRequest ++ getRequest] 4) :=
    .of_steps 4 (by decide +kernel) (by decide +kernel)
  have hTwo : Finishes pageEnv [getRequest, getRequest] (leftAfter pageEnv [getRequest, getRequest] 5) :=
    .of_steps 5 (by decide +kernel) (by decide +kernel)
  have hSame := hFree [getRequest ++ getRequest] [getRequest, getRequest] (by decide +kernel)
    (by decide +kernel)
    (by decide +kernel) (requestsFit_of_checked 8 (by decide +kernel))
      (requestsFit_of_checked 8 (by decide +kernel)) _ _ hOne hTwo
  exact absurd hSame.1 (by decide +kernel)

end Cweb
