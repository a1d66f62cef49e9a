import Cweb.Http.HeadScan

/-!
# Accepted requests

What the parser reports of a request besides its body. A count that wraps around
is an ordinary number to it, so a head that ends behind the view is accepted like
any other. The first line of a head, without the blank space around the head,
should be a request line, and the lines behind it are its fields.
-/

namespace Cweb

open Sv

/-! ## What the parser reports -/

/-- What is reported where the body is within the view. -/
def RequestParse.reported : RequestParse → Option Outcome
  | .incomplete _ => some .incomplete
  | .error => some .error
  | .ok req consumed => some (.ok { req with body := [], bodyOffset := 0 } consumed)
  | .overread => none

theorem parseOutcome_eq (raw behind : Bytes) : parseOutcome raw behind =
    match findHeaderEnd raw behind with
    | none => .incomplete
    | some stop =>
      match parseHead (fun _ => true) ((raw ++ behind).take stop) with
      | none => .error
      | some req => measureBody req raw stop := by
  rw [parseOutcome]
  cases findHeaderEnd raw behind with
  | none => rfl
  | some stop =>
    dsimp only
    rw [parseHead, headLines]
    cases (svSplit 10 (svTrim ((raw ++ behind).take stop))).map dropCr with
    | nil => rfl
    | cons first fields =>
      dsimp only
      have hAll : (fields.filter fun text => (fieldLine text).all fun _ => true) = fields := by
        rw [List.filter_eq_self]
        intro text _
        cases fieldLine text <;> rfl
      rw [hAll]
      cases parseRequestLine emptyRequest first <;> rfl

theorem parseHead_bodyless {keep : Bytes → Bool} {head : Bytes} {req : HttpRequest}
    (h : parseHead keep head = some req) :
    req.body = [] ∧ req.bodyOffset = 0 := by
  rw [parseHead] at h
  split at h
  · obtain rfl := Option.some.inj h
    exact ⟨rfl, rfl⟩
  · obtain ⟨base, hLine, rfl⟩ := Option.map_eq_some_iff.mp h
    rw [foldl_parseHeaderLine_eq]
    rw [parseRequestLine] at hLine
    dsimp only at hLine
    split at hLine
    · cases hLine
    · cases hLine
      exact ⟨rfl, rfl⟩

theorem parseBody_reported {req : HttpRequest} {raw : Bytes} {stop : Nat} (hStop : stop ≤ raw.length)
    (hBody : req.body = [])
    (hOffset : req.bodyOffset = 0) : (parseBody req raw stop).reported = some (measureBody req raw stop) := by
  have hName : httpRequestGetHeader { req with body := raw.drop stop, bodyOffset := stop }
    (ascii "content-length") =
      httpRequestGetHeader req (ascii "content-length") := rfl
  have hSame : ∀ n, ({ req with body := [], bodyOffset := 0, contentLength := n } : HttpRequest) =
      { req with contentLength := n } := by
    intro n
    rw [← hBody, ← hOffset]
  rw [parseBody, if_neg (not_lt.mpr hStop)]
  dsimp only
  rw [hName, measureBody]
  cases httpRequestGetHeader req (ascii "content-length") with
  | none => exact congrArg (fun r => some (Outcome.ok r stop)) (hSame req.contentLength)
  | some value =>
    dsimp only
    cases svToI64 value with
    | none => rfl
    | some len =>
      dsimp only
      rw [bodyCount, if_neg (not_lt.mpr hStop), List.length_drop]
      split
      · rfl
      · split
        · exact congrArg (fun r => some (Outcome.ok r (stop + len.toNat))) (hSame len)
        · rfl

theorem parseOutcome_reported {raw behind : Bytes} (h : httpRequestParseAdv raw behind ≠ .overread) :
    (httpRequestParseAdv raw behind).reported = some (parseOutcome raw behind) := by
  rw [← parseKept_all, parseKept] at h ⊢
  rw [parseOutcome_eq]
  cases hEnd : findHeaderEnd raw behind with
  | none => rfl
  | some stop =>
    rw [hEnd] at h
    dsimp only at h ⊢
    cases hHead : parseHead (fun _ => true) ((raw ++ behind).take stop) with
    | none => rfl
    | some req =>
      rw [hHead] at h
      dsimp only at h ⊢
      have hStop : stop ≤ raw.length := by
        by_contra hOver
        exact h (by rw [parseBody, if_pos (not_le.mp hOver)])
      obtain ⟨hBody, hOffset⟩ := parseHead_bodyless hHead
      exact parseBody_reported hStop hBody hOffset

/-! ## Request lines -/

/-- Three tokens with single spaces between them. -/
structure IsRequestLine (line method target version : Bytes) : Prop where
  split : line = method ++ 32 :: (target ++ 32 :: version)
  tokens : ∀ token ∈ [method, target, version], token ≠ [] ∧ 32 ∉ token
  http : ascii "HTTP/" <+: version

theorem parseRequestLine_some {req req' : HttpRequest} {text : Bytes}
    (h : parseRequestLine req text = some req') :
    ∃ method, req'.method = httpMethodFromSv method ∧
      (IsRequestLine text method req'.target req'.version ∨
        ∃ line, text = line ++ [32] ∧ IsRequestLine line method req'.target req'.version) := by
  rw [parseRequestLine] at h
  obtain ⟨_, hFirst⟩ | ⟨method, text₁, hText, hMethod, hFirst⟩ := svChopByDelim_cases 32 text
  · rw [hFirst] at h
    dsimp only at h
    rw [svChopByDelim_nil, if_pos (.inr (.inl rfl))] at h
    cases h
  · rw [hFirst] at h
    dsimp only at h
    obtain ⟨_, hSecond⟩ | ⟨target, text₂, hText₁, hTarget, hSecond⟩ := svChopByDelim_cases 32 text₁
    · rw [hSecond] at h
      dsimp only at h
      rw [svChopByDelim_nil, if_pos (.inr (.inr (.inl rfl)))] at h
      cases h
    · rw [hSecond] at h
      dsimp only at h
      split at h
      · cases h
      · rename_i hOk
        rw [not_or, not_or, not_or, not_or, not_not] at hOk
        obtain ⟨hMethodSome, hTargetSome, hVersionSome, hHttp, hRest⟩ := hOk
        obtain rfl := Option.some.inj h
        have hLine : ∀ version, version = (svChopByDelim 32 text₂).1 → 32 ∉ version →
            IsRequestLine (method ++ 32 :: (target ++ 32 :: version)) method target version := by
          intro version hVersion hSpace
          refine ⟨rfl, ?_, ?_⟩
          · intro token hToken
            simp only [List.mem_cons, List.not_mem_nil, or_false] at hToken
            obtain rfl | rfl | rfl := hToken
            · exact ⟨hMethodSome, hMethod⟩
            · exact ⟨hTargetSome, hTarget⟩
            · exact ⟨hVersion ▸ hVersionSome, hSpace⟩
          · rw [hVersion]
            rw [Bool.not_eq_false, svStartsWith] at hHttp
            exact List.isPrefixOf_iff_prefix.mp hHttp
        refine ⟨method, rfl, ?_⟩
        obtain ⟨hNone, hThird⟩ | ⟨version, rest, hText₂, hNone, hThird⟩ := svChopByDelim_cases 32 text₂
        · rw [hThird] at hLine ⊢
          left
          rw [hText, hText₁]
          exact hLine text₂ rfl hNone
        · rw [hThird] at hLine hRest ⊢
          obtain rfl : rest = [] := hRest
          right
          refine ⟨_, ?_, hLine version rfl hNone⟩
          rw [hText, hText₁, hText₂, List.append_assoc, List.cons_append, List.append_assoc]
          rfl

theorem IsRequestLine.last {line method target version : Bytes}
    (h : IsRequestLine line method target version) :
    line.getLast? ≠ some 32 := by
  obtain ⟨hSome, hSpace⟩ := h.tokens version (by simp)
  obtain ⟨last, hLast⟩ : ∃ last, version.getLast? = some last := ⟨_, List.getLast?_eq_some_getLast hSome⟩
  rw [h.split, List.getLast?_append, List.getLast?_cons, List.getLast?_append, List.getLast?_cons, hLast]
  intro hEq
  obtain rfl : last = 32 := Option.some.inj hEq
  exact hSpace (List.mem_of_getLast? hLast)

theorem measureBody_ok {base req : HttpRequest} {raw : Bytes} {stop consumed : Nat}
    (h : measureBody base raw stop = .ok req consumed) : ∃ len, req = { base with contentLength := len } := by
  rw [measureBody] at h
  split at h
  · obtain ⟨rfl, _⟩ := Outcome.ok.inj h
    exact ⟨base.contentLength, rfl⟩
  · split at h
    · cases h
    · split at h
      · cases h
      · split at h
        · obtain ⟨rfl, _⟩ := Outcome.ok.inj h
          exact ⟨_, rfl⟩
        · cases h

end Cweb
