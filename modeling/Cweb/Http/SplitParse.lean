import Cweb.Http.ChunkText
import Cweb.Http.ParseStable

/-!
# Requests with more behind them

What the parser and the decoder make of a view they make of a longer one as well,
with the bytes that were added behind it. A request without a length takes them
into its body, and a chunked body that is complete leaves them.
-/

namespace Cweb

open Sv

/-! ## Heads -/

/-- No CRLF CRLF comes behind a head that two line feeds have ended, unless the
request is refused or waits for its body. -/
def FeedsLast (raw ext : Bytes) : Prop :=
  ¬ [13, 10, 13, 10] <:+: raw → ∀ stop, lfEnd 0 raw = some stop → [13, 10, 13, 10] <:+: raw ++ ext →
    ¬ Taken (raw.take stop) (raw.length - stop)

section Heads

variable {raw behind : Bytes}

theorem not_endsBehind_nil (raw : Bytes) : ¬ EndsBehind raw [] := fun h => nomatch h.2

theorem findHeaderEnd_clean (h : ¬ EndsBehind raw behind) :
    findHeaderEnd raw behind = findHeaderEnd raw [] := by
  by_cases hInfix : [13, 10, 13, 10] <:+: raw
  · obtain ⟨stop, _, hEnds⟩ := findHeaderEnd_infix hInfix
    have hEnd := hEnds []
    rw [List.append_nil] at hEnd
    rw [hEnd, hEnd]
  · have hFeeds : ∀ {m : Bytes}, ¬ EndsBehind raw m → findHeaderEnd raw m = lfEnd 0 raw :=
      fun hInside => findHeaderEnd_feeds fun hLater => hInside ((endsBehind_iff hInfix).mp hLater)
    rw [hFeeds h, hFeeds (not_endsBehind_nil raw)]

theorem findHeaderEnd_inside (h : ¬ EndsBehind raw behind) {stop : Nat}
    (hEnd : findHeaderEnd raw behind = some stop) :
    stop ≤ raw.length := by
  obtain hLe | ⟨_, hOpen, hHead⟩ := findHeaderEnd_le hEnd
  · exact hLe
  · exact absurd ⟨hOpen, hHead⟩ h

theorem parseAdv_clean (h : ¬ EndsBehind raw behind) :
    httpRequestParseAdv raw behind = httpRequestParseAdv raw [] := by
  rw [← parseKept_all, ← parseKept_all, parseKept, parseKept, ← findHeaderEnd_clean h]
  cases hEnd : findHeaderEnd raw behind with
  | none => rfl
  | some stop =>
    have hLe := findHeaderEnd_inside h hEnd
    dsimp only
    rw [List.take_append_of_le_length hLe, List.take_append_of_le_length hLe]

theorem parseAdv_inside (h : ¬ EndsBehind raw behind) : httpRequestParseAdv raw behind ≠ .overread := by
  intro hOver
  obtain ⟨stop, hEnd, hLt⟩ := parseAdv_overread hOver
  exact absurd (findHeaderEnd_inside h hEnd) (not_le.mpr hLt)

theorem parse_stable (h : ¬ EndsBehind raw behind) {ext : Bytes} (hFeeds : FeedsLast raw ext) :
    ParseStable raw behind ext [] := by
  rw [parseStable_iff]
  refine ⟨fun hNone _ stop hStop hLater => ?_, fun hOpen => absurd hOpen h, fun hOpen => absurd hOpen h⟩
  rw [List.take_nil, List.append_nil] at hLater
  exact hFeeds hNone stop hStop hLater

theorem parseAdv_error_more (h : ¬ EndsBehind raw behind) {ext : Bytes} (hFeeds : FeedsLast raw ext)
    (hError : httpRequestParseAdv raw behind = .error) : httpRequestParseAdv (raw ++ ext) [] = .error := by
  have hFirst := parseOutcome_reported (parseAdv_inside h)
  rw [hError] at hFirst
  have hSecond := parseOutcome_reported (parseAdv_inside (not_endsBehind_nil (raw ++ ext)))
  rw [(parse_stable h hFeeds).error (Option.some.inj hFirst).symm] at hSecond
  cases hParse : httpRequestParseAdv (raw ++ ext) [] with
  | error => rfl
  | incomplete req =>
    rw [hParse] at hSecond
    cases hSecond
  | ok req consumed =>
    rw [hParse] at hSecond
    cases hSecond
  | overread =>
    rw [hParse] at hSecond
    cases hSecond

/-- What is accepted is accepted with more behind it, which is part of the body if
that is not measured. -/
theorem parseAdv_ok_more (h : ¬ EndsBehind raw behind) {ext : Bytes} (hFeeds : FeedsLast raw ext)
    {req : HttpRequest}
    {consumed : Nat} (hOk : httpRequestParseAdv raw behind = .ok req consumed) :
    httpRequestParseAdv (raw ++ ext) [] =
      .ok (if httpRequestGetHeader req (ascii "content-length") = none then
        { req with body := req.body ++ ext } else req)
        consumed := by
  have hReported := parseOutcome_reported (parseAdv_inside h)
  rw [hOk] at hReported
  have hOutcome := (Option.some.inj hReported).symm
  rw [← parseKept_all, parseKept] at hOk ⊢
  cases hEnd : findHeaderEnd raw behind with
  | none =>
    rw [hEnd] at hOk
    cases hOk
  | some stop =>
    have hLe := findHeaderEnd_inside h hEnd
    have hTaken : Taken ((raw ++ behind).take stop) (bodyCount raw stop) := by
      obtain ⟨hError, _⟩ | ⟨hTaken, _⟩ | ⟨_, _, hWaits⟩ := parseOutcome_cases hEnd rfl
      · rw [hError] at hOutcome
        cases hOutcome
      · exact hTaken
      · rw [hWaits] at hOutcome
        cases hOutcome
    rw [hEnd] at hOk
    rw [end_of_stable hEnd rfl hTaken (parse_stable h hFeeds)]
    dsimp only at hOk ⊢
    rw [take_of_le hLe ext []]
    rw [List.take_append_of_le_length hLe] at hOk
    cases hHead : parseHead (fun _ => true) (raw.take stop) with
    | none =>
      rw [hHead] at hOk
      cases hOk
    | some base =>
      rw [hHead] at hOk
      dsimp only at hOk ⊢
      have hLonger : stop ≤ (raw ++ ext).length := by
        rw [List.length_append]
        omega
      obtain ⟨_, ⟨hNone, rfl, rfl⟩ | ⟨value, len, hSome, hNumber, hFits, rfl, rfl⟩⟩ := parseBody_ok_cases hOk
      · have hName : httpRequestGetHeader { base with body := raw.drop consumed, bodyOffset := consumed }
            (ascii "content-length") = none := hNone
        rw [if_pos hName, parseBody_unmeasured hLonger hNone, List.drop_append_of_le_length hLe]
      · have hName : httpRequestGetHeader { base with
            body := (raw.drop stop).take len, bodyOffset := stop, contentLength := len }
              (ascii "content-length") ≠ none := by
          change httpRequestGetHeader base (ascii "content-length") ≠ none
          rw [hSome]
          exact Option.some_ne_none _
        have hRoom : len ≤ (raw.drop stop).length := by
          rw [List.length_drop]
          exact hFits
        rw [if_neg hName, parseBody_measured (by rw [List.length_append]; omega) hSome hNumber,
          List.drop_append_of_le_length hLe, List.take_append_of_le_length hRoom]

end Heads

/-! ## Chunked bodies -/

/-- All chunks of the body have come, and the line behind them with its end. -/
def Whole (body left : Bytes) : Prop :=
  ∃ (cs : List LooseChunk) (m : SizeMark) (text feed : Bytes), body = chunksBytes cs ++
    (m.text ++ (text ++ (feed ++ left))) ∧
    m.word = 0 ∧ (∀ b ∈ text, isCrLf b = false) ∧ (feed = [13, 10] ∨ feed = [10])

theorem unfoldTrailer_whole {text feed : Bytes} (hText : ∀ b ∈ text, isCrLf b = false)
    (hFeed : feed = [13, 10] ∨ feed = [10])
    (payload left behind : Bytes) :
    unfoldTrailer payload (text ++ (feed ++ left)) behind = .complete payload left false := by
  have hPass : ∀ b ∈ text, (!isCrLf b) = true := by
    intro b hb
    rw [hText b hb]
    rfl
  obtain rfl | rfl := hFeed
  · cases text with
    | nil => rfl
    | cons b text =>
      have hHead : (b :: text ++ ([13, 10] ++ left)).head? ≠ some 13 := by
        intro hCr
        obtain rfl := Option.some.inj hCr
        exact absurd (hText 13 List.mem_cons_self) (by decide)
      rw [unfoldTrailer_line hHead (List.cons_ne_nil _ _), List.dropWhile_append_of_pos hPass]
      rfl
  · have hHead : (text ++ ([10] ++ left)).head? ≠ some 13 := by
      cases text with
      | nil => exact fun hCr => absurd (Option.some.inj hCr) (by decide)
      | cons b text =>
        intro hCr
        obtain rfl := Option.some.inj hCr
        exact absurd (hText 13 List.mem_cons_self) (by decide)
    rw [unfoldTrailer_line hHead (by simp), List.dropWhile_append_of_pos hPass]
    rfl

theorem chunksData_length_le (cs : List LooseChunk) : (chunksData cs).length ≤ (chunksBytes cs).length := by
  induction cs with
  | nil => exact Nat.le_refl 0
  | cons c cs ih =>
    have hOne : c.bytes.length = c.text.length + (c.data.length + 2) := by
      rw [LooseChunk.bytes, List.length_append, List.length_append]
      rfl
    rw [chunksData, chunksBytes, List.flatMap_cons, List.flatMap_cons, List.length_append, List.length_append,
      ← chunksData, ← chunksBytes]
    omega

/-- A whole body is unfolded whatever stands behind it. -/
theorem decode_whole {req : HttpRequest}
    (hNone : httpRequestGetHeader req (ascii "content-length") = none) {left : Bytes}
    (h : Whole req.body left) : ∃ payload, left <:+ req.body ∧
      payload.length + left.length ≤ req.body.length ∧ ∀ ext behind,
      httpRequestDecodeChunked { req with body := req.body ++ ext } behind = .complete payload
        (left ++ ext) false := by
  obtain ⟨cs, m, text, feed, hBody, hZero, hText, hFeed⟩ := h
  have hDecode : ∀ ext behind, httpRequestDecodeChunked { req with body := req.body ++ ext } behind =
      .complete (chunksData cs) (left ++ ext) false := by
    intro ext behind
    have hLonger : ({ req with body := req.body ++ ext } : HttpRequest).body =
        chunksBytes cs ++ (m.text ++ (text ++ (feed ++ (left ++ ext)))) := by
      change req.body ++ ext = _
      rw [hBody]
      simp only [List.append_assoc]
    obtain ⟨fuel, hRounds, _⟩ := @decode_chunks { req with body := req.body ++ ext } hNone cs _ hLonger
    rw [hRounds, m.unfoldLoop, if_pos hZero, unfoldTrailer_whole hText hFeed]
  refine ⟨chunksData cs, ?_, ?_, hDecode⟩
  · exact ⟨chunksBytes cs ++ (m.text ++ (text ++ feed)), by rw [hBody]; simp only [List.append_assoc]⟩
  · have hPayload := chunksData_length_le cs
    rw [hBody]
    simp only [List.length_append]
    omega

end Cweb
