import Cweb.Http.Message

/-!
# Parsing requests

The parser works on a view of the read buffer. Two of its tests look at the byte
behind the view, so what memory holds there is an argument. Chunked bodies are
unfolded in place: the payload slides to the front of the body, over the framing
it was read from.
-/

namespace Cweb

open Sv

/-! ## Lines -/

/-- The first CRLF CRLF from `i` on. Its last byte may be behind the view. -/
def crlfEnd (behind : Bytes) : Nat → Bytes → Option Nat
  | i, a :: b :: c :: rest =>
    if a = 13 ∧ b = 10 ∧ c = 13 ∧ (rest ++ behind).head? = some 10 then some (i + 4)
    else crlfEnd behind (i + 1) (b :: c :: rest)
  | _, _ => none

def lfEnd : Nat → Bytes → Option Nat
  | i, a :: b :: rest => if a = 10 ∧ b = 10 then some (i + 2) else lfEnd (i + 1) (b :: rest)
  | _, _ => none

def findHeaderEnd (raw behind : Bytes) : Option Nat :=
  match crlfEnd behind 0 raw with
  | some stop => some stop
  | none => lfEnd 0 raw

def parseRequestLine (req : HttpRequest) (text : Bytes) : Option HttpRequest :=
  let (method, text) := svChopByDelim 32 text
  let (target, text) := svChopByDelim 32 text
  let (version, text) := svChopByDelim 32 text
  if method = [] ∨ target = [] ∨ version = [] ∨ svStartsWith version (ascii "HTTP/") = false ∨ text ≠ [] then
    none
  else
    some { req with
      method := httpMethodFromSv method
      target := target
      version := version
      path := (splitQuery target).1
      query := (splitQuery target).2 }

/-- A line without a colon or a name is passed over. -/
def parseHeaderLine (req : HttpRequest) (text : Bytes) : HttpRequest :=
  match text.dropWhile (· ≠ 58) with
  | [] => req
  | _ :: value =>
    let key := svTrim (text.takeWhile (· ≠ 58))
    if key = [] then req else { req with headers := req.headers ++ [⟨key, svTrim value⟩] }

def dropCr (text : Bytes) : Bytes := if text.getLast? = some 13 then text.dropLast else text

/-! ## A request -/

/-- `overread` is the case of a blank line that ends behind the view: the length
of the body wraps around, and the body is a view of all of memory. -/
inductive RequestParse where
  | incomplete (req : HttpRequest)
  | error
  | ok (req : HttpRequest) (consumed : Nat)
  | overread
deriving DecidableEq, Repr

/-- The body of a request whose head ends at `stop`. An incomplete request is
without its headers, and keeps what was found out about its body. -/
def parseBody (req : HttpRequest) (raw : Bytes) (stop : Nat) : RequestParse :=
  if raw.length < stop then .overread
  else
    let req := { req with body := raw.drop stop, bodyOffset := stop }
    match httpRequestGetHeader req (ascii "content-length") with
    | none => .ok req stop
    | some value =>
      match svToI64 value with
      | none => .error
      | some len =>
        if len < 0 then .error
        else
          let req := { req with contentLength := len }
          if len.toNat ≤ req.body.length then
            .ok { req with body := req.body.take len.toNat } (stop + len.toNat)
          else .incomplete { req with headers := [] }

def httpRequestParseAdv (raw behind : Bytes) : RequestParse :=
  match findHeaderEnd raw behind with
  | none => .incomplete emptyRequest
  | some stop =>
    match (svSplit 10 (svTrim ((raw ++ behind).take stop))).map dropCr with
    | [] => parseBody emptyRequest raw stop
    | first :: fields =>
      match parseRequestLine emptyRequest first with
      | none => .error
      | some req => parseBody (fields.foldl parseHeaderLine req) raw stop

/-- The header lines up to a blank one, behind the request line. -/
def httpRequestParseHeaderBlock (req : HttpRequest) (head : Bytes) : HttpRequest :=
  ((((svSplit 10 head).map dropCr).drop 1).takeWhile (· ≠ [])).foldl parseHeaderLine req

/-! ## What the parser reports -/

/-- The request is without its body and where that begins. -/
inductive Outcome where
  | incomplete
  | error
  | ok (req : HttpRequest) (consumed : Nat)
deriving DecidableEq, Repr

/-- The count of the body, in words of 64 bits. -/
def bodyCount (raw : Bytes) (stop : Nat) : Nat := if raw.length < stop then 2 ^ 64 - (stop - raw.length)
    else raw.length - stop

def measureBody (req : HttpRequest) (raw : Bytes) (stop : Nat) : Outcome :=
  match httpRequestGetHeader req (ascii "content-length") with
  | none => .ok req stop
  | some value =>
    match svToI64 value with
    | none => .error
    | some len =>
      if len < 0 then .error
      else if len.toNat ≤ bodyCount raw stop then .ok { req with contentLength := len } (stop + len.toNat)
      else .incomplete

def parseOutcome (raw behind : Bytes) : Outcome :=
  match findHeaderEnd raw behind with
  | none => .incomplete
  | some stop =>
    match (svSplit 10 (svTrim ((raw ++ behind).take stop))).map dropCr with
    | [] => measureBody emptyRequest raw stop
    | first :: fields =>
      match parseRequestLine emptyRequest first with
      | none => .error
      | some req => measureBody (fields.foldl parseHeaderLine req) raw stop

/-! ## Chunked bodies -/

def hexValue (c : UInt8) : Option Nat :=
  if 48 ≤ c ∧ c ≤ 57 then some (c.toNat - 48)
  else if 97 ≤ c ∧ c ≤ 102 then some (c.toNat - 97 + 10)
  else if 65 ≤ c ∧ c ≤ 70 then some (c.toNat - 65 + 10)
  else none

def isCrLf (b : UInt8) : Bool := b == 13 || b == 10

/-- The digits of a chunk's size, modulo the width of a word, whether there was
one, and what follows them and an extension. -/
def sizeDigits : Nat → Bool → Bytes → Nat × Bool × Bytes
  | size, seen, [] => (size, seen, [])
  | size, seen, c :: rest =>
    match hexValue c with
    | some v => sizeDigits ((size * 16 + v) % 2 ^ 64) true rest
    | none => if c = 59 ∨ c = 32 then (size, seen, rest.dropWhile fun b => !isCrLf b)
      else (size, seen, c :: rest)

/-- What unfolding comes to: the payload so far, and what is left of the body
when it is complete. `overread` tells that the last byte was behind the view.
In `wild` the sum of the cursor and a size wraps around, and memory is
overwritten. -/
inductive Unfolded where
  | complete (payload left : Bytes) (overread : Bool)
  | incomplete (payload : Bytes)
  | malformed (payload : Bytes)
  | wild
deriving DecidableEq, Repr

/-- Behind the last chunk: the empty line, or one line of trailers. -/
def unfoldTrailer (payload rest behind : Bytes) : Unfolded :=
  match rest with
  | [] => .complete payload [] false
  | 13 :: [] => if behind.head? = some 10 then .complete payload [] true else .incomplete payload
  | 13 :: 10 :: left => .complete payload left false
  | _ =>
    match rest.dropWhile fun b => !isCrLf b with
    | 13 :: 10 :: left => .complete payload left false
    | 10 :: left => .complete payload left false
    | _ => .incomplete payload

/-- The loop over the chunks of a body of `len` bytes. Every round reads one. -/
def unfoldLoop (len : Nat) (behind : Bytes) : Nat → Bytes → Bytes → Unfolded
  | 0, payload, _ => .malformed payload
  | fuel + 1, payload, rest =>
    match rest.dropWhile isCrLf with
    | [] => .incomplete payload
    | c :: rest =>
      match sizeDigits 0 false (c :: rest) with
      | (size, true, 13 :: 10 :: rest) =>
        if size = 0 then unfoldTrailer payload rest behind
        else if rest.length < size then
          if (len - rest.length) + size < 2 ^ 64 then .incomplete payload else .wild
        else
          match rest.drop size with
          | 13 :: 10 :: left => unfoldLoop len behind fuel (payload ++ rest.take size) left
          | _ => .malformed (payload ++ rest.take size)
      | _ => .malformed payload

def httpRequestDecodeChunked (req : HttpRequest) (behind : Bytes) : Unfolded :=
  if httpRequestGetHeader req (ascii "content-length") ≠ none then .malformed []
  else unfoldLoop req.body.length behind req.body.length.succ [] req.body

/-! ## A head that ends behind the view -/

/-- No length is too long for the count that has wrapped around. The body is what
memory holds behind the head, as far as it is known. -/
def parseBehind (raw behind : Bytes) : Option (HttpRequest × Nat) :=
  match parseOutcome raw behind with
  | .ok req consumed =>
    let memory := behind.drop 1
    some ({ req with
      body := if req.contentLength < 0 then memory else memory.take req.contentLength.toNat
      bodyOffset := raw.length + 1 }, consumed)
  | _ => none

def trailerBehind (payload rest : Bytes) : Unfolded :=
  match rest.dropWhile fun b => !isCrLf b with
  | [] => .wild
  | [13] => .wild
  | 13 :: 10 :: left => .complete payload left false
  | 10 :: left => .complete payload left false
  | _ => .incomplete payload

/-- The loop over what memory holds. It meets no end, and is `wild` once it is past
what is known of memory. -/
def unfoldBehind : Nat → Bytes → Bytes → Unfolded
  | 0, _, _ => .wild
  | fuel + 1, payload, rest =>
    match rest.dropWhile isCrLf with
    | [] => .wild
    | c :: rest =>
      match sizeDigits 0 false (c :: rest) with
      | (_, _, []) => .wild
      | (_, true, [13]) => .wild
      | (size, true, 13 :: 10 :: rest) =>
        if size = 0 then trailerBehind payload rest
        else
          match rest.drop size with
          | [] => .wild
          | [13] => .wild
          | 13 :: 10 :: left => unfoldBehind fuel (payload ++ rest.take size) left
          | _ => .malformed (payload ++ rest.take size)
      | _ => .malformed payload

def decodeBehind (req : HttpRequest) : Unfolded :=
  if httpRequestGetHeader req (ascii "content-length") ≠ none then .malformed []
  else unfoldBehind req.body.length.succ [] req.body

/-! ## Sizes -/

theorem parseHeaderLine_body (req : HttpRequest) (text : Bytes) :
    (parseHeaderLine req text).body = req.body ∧ (parseHeaderLine req text).bodyOffset = req.bodyOffset := by
  rw [parseHeaderLine]
  split
  · exact ⟨rfl, rfl⟩
  · dsimp only
    split
    · exact ⟨rfl, rfl⟩
    · exact ⟨rfl, rfl⟩

theorem parseBody_ok {req req' : HttpRequest} {raw : Bytes} {stop consumed : Nat}
    (h : parseBody req raw stop = .ok req' consumed) :
    stop ≤ raw.length ∧ req'.bodyOffset = stop ∧ req'.body <+: raw.drop stop := by
  rw [parseBody] at h
  split at h
  · cases h
  · rename_i hStop
    dsimp only at h
    split at h
    · obtain ⟨rfl, _⟩ := RequestParse.ok.inj h
      exact ⟨by omega, rfl, List.prefix_refl _⟩
    · split at h
      · cases h
      · split at h
        · cases h
        · split at h
          · obtain ⟨rfl, _⟩ := RequestParse.ok.inj h
            exact ⟨by omega, rfl, List.take_prefix _ _⟩
          · cases h

theorem httpRequestParseAdv_ok {raw behind : Bytes} {req : HttpRequest} {consumed : Nat}
    (h : httpRequestParseAdv raw behind = .ok req consumed) :
    req.bodyOffset ≤ raw.length ∧ req.body <+: raw.drop req.bodyOffset := by
  rw [httpRequestParseAdv] at h
  split at h
  · cases h
  · split at h
    · obtain ⟨hStop, hOffset, hBody⟩ := parseBody_ok h
      rw [hOffset]
      exact ⟨hStop, hBody⟩
    · split at h
      · cases h
      · obtain ⟨hStop, hOffset, hBody⟩ := parseBody_ok h
        rw [hOffset]
        exact ⟨hStop, hBody⟩

theorem sizeDigits_length (rest : Bytes) :
    ∀ size seen, (sizeDigits size seen rest).2.2.length ≤ rest.length := by
  induction rest with
  | nil => exact fun _ _ => Nat.le_refl _
  | cons c rest ih =>
    intro size seen
    rw [sizeDigits]
    split
    · exact (ih _ _).trans (Nat.le_succ _)
    · split
      · exact (List.dropWhile_suffix _).length_le.trans (Nat.le_succ _)
      · exact Nat.le_refl _

def Unfolded.payload : Unfolded → Bytes
  | .complete payload _ _ => payload
  | .incomplete payload => payload
  | .malformed payload => payload
  | .wild => []

theorem unfoldTrailer_payload (payload rest behind : Bytes) :
    (unfoldTrailer payload rest behind).payload = payload := by
  unfold unfoldTrailer
  split
  · rfl
  · split
    · rfl
    · rfl
  · rfl
  · split
    · rfl
    · rfl
    · rfl

theorem unfoldLoop_payload (len : Nat) (behind : Bytes) (fuel : Nat) : ∀ payload rest,
    (unfoldLoop len behind fuel payload rest).payload.length ≤ payload.length + rest.length := by
  induction fuel with
  | zero => exact fun payload rest => Nat.le_add_right _ _
  | succ fuel ih =>
    intro payload rest
    rw [unfoldLoop]
    split
    · exact Nat.le_add_right _ _
    · rename_i c tail hSkip
      have hSkipped := (List.dropWhile_suffix (l := rest) isCrLf).length_le
      rw [hSkip] at hSkipped
      have hDigits := sizeDigits_length (c :: tail) 0 false
      split
      · rename_i size left hSize
        rw [hSize] at hDigits
        rw [List.length_cons, List.length_cons] at hDigits
        split
        · rw [unfoldTrailer_payload]
          exact Nat.le_add_right _ _
        · split
          · split
            · exact Nat.le_add_right _ _
            · exact Nat.zero_le _
          · rename_i hEnough
            split
            · rename_i after hAfter
              have hMore := ih (payload ++ left.take size) after
              have hDrop := congrArg List.length hAfter
              rw [List.length_drop, List.length_cons, List.length_cons] at hDrop
              rw [List.length_append, List.length_take] at hMore
              omega
            · rw [Unfolded.payload, List.length_append, List.length_take]
              omega
      · exact Nat.le_add_right _ _

theorem decodeChunked_payload (req : HttpRequest) (behind : Bytes) :
    (httpRequestDecodeChunked req behind).payload.length ≤ req.body.length := by
  rw [httpRequestDecodeChunked]
  split
  · exact Nat.zero_le _
  · have h := unfoldLoop_payload req.body.length behind req.body.length.succ [] req.body
    rw [List.length_nil, Nat.zero_add] at h
    exact h

end Cweb
