import Cweb.Http.Http

/-!
# Reading a response

The client keeps the bytes it has read and not consumed in a read-ahead buffer
and reads a response from its front: the head up to the blank line, then a
chunked, counted or close-delimited body. Each byte in the buffer carries the
connection it was received on and the number of the request it was received
after. What the socket delivers is an input, one outcome for each call.
-/

namespace Cweb.HttpClient

open Sv

def clientMaxBody : Nat := 32 * 1024 * 1024

def clientHeadCap : Nat := 64 * 1024

def hexDigit (c : UInt8) : Option Nat :=
  if 48 ≤ c ∧ c ≤ 57 then some (c.toNat - 48)
  else if 97 ≤ c ∧ c ≤ 102 then some (c.toNat - 97 + 10)
  else if 65 ≤ c ∧ c ≤ 70 then some (c.toNat - 65 + 10)
  else none

/-! ## The head -/

def headerIs (text name : Bytes) : Bool :=
  decide (name.length + 2 ≤ text.length) && text[name.length]? == some 58 &&
    (text.take name.length).map tolower == name.map tolower

def valueHasToken (value token : Bytes) : Bool :=
  (svSplit 44 value).any fun part => (svTrim part).map tolower == token.map tolower

def headLines (head : Bytes) : List Bytes :=
  ((svSplit 10 head).map svTrimRight).takeWhile (· ≠ [])

def headHasToken (head name token : Bytes) : Bool :=
  (headLines head).any fun line =>
    headerIs line name && valueHasToken (svTrim (line.drop (name.length + 1))) token

def headGetValue (head name : Bytes) : Option Bytes :=
  ((headLines head).find? fun line => headerIs line name).map fun line =>
    svTrim (line.drop (name.length + 1))

def headContentLength (head : Bytes) : Option Nat :=
  match headGetValue head (ascii "content-length") with
  | none => none
  | some value =>
    match svToI64 value with
    | some n => if 0 ≤ n then some n.toNat else none
    | none => none

def parseStatusLine (head : Bytes) : Option Nat :=
  let line := svTrimRight (svChopByDelim 10 head).1
  match line.dropWhile (· ≠ 32) with
  | _ :: a :: b :: c :: _ =>
    if isdigit a ∧ isdigit b ∧ isdigit c then
      let code := (a.toNat - 48) * 100 + (b.toNat - 48) * 10 + (c.toNat - 48)
      if code < 100 ∨ 599 < code then none else some code
    else none
  | _ => none

def headIsHttp10 (head : Bytes) : Bool :=
  svStartsWith (svTrimRight (svChopByDelim 10 head).1) (ascii "HTTP/1.0 ")

/-! ## The chunked decoder -/

inductive ChunkPhase where
  | size
  | payload
  | terminator
  | trailers
deriving DecidableEq, Repr

structure ChunkReader where
  phase : ChunkPhase
  pending : Nat
  crlfSeen : Nat
  line : Bytes
deriving DecidableEq, Repr

def chunkStart : ChunkReader := ⟨.size, 0, 0, []⟩

inductive FeedOutcome where
  | more
  | done
  | bad (why : Bytes)
deriving DecidableEq, Repr

/-- Collect a line up to its newline, `none` when it outgrows the 266 bytes
kept for it. -/
def chunkLine : Bytes → Bytes → Option (Bytes × Bytes)
  | line, [] => some (line, [])
  | line, b :: rest =>
    if b = 10 then some (line, b :: rest)
    else if 266 ≤ line.length then none
    else chunkLine (line ++ [b]) rest

def chunkSize (n digits : Nat) : Bytes → Except Bytes Nat
  | [] => if digits = 0 then .error (ascii "missing chunk size") else .ok n
  | c :: line =>
    if c = 13 ∨ c = 59 then
      if digits = 0 then .error (ascii "missing chunk size") else .ok n
    else
      match hexDigit c with
      | none => .error (ascii "malformed chunk size")
      | some d =>
        if clientMaxBody < n * 16 + d then .error (ascii "chunk claims more than the cap")
        else chunkSize (n * 16 + d) (digits + 1) line

/-- The two bytes behind a payload: how many were seen, what is left, and
whether each was the wanted one. -/
def chunkCrlf (seen : Nat) : Bytes → Nat × Bytes × Bool
  | [] => (seen, [], true)
  | b :: rest =>
    if 2 ≤ seen then (seen, b :: rest, true)
    else if b = (if seen = 0 then 13 else 10) then chunkCrlf (seen + 1) rest
    else (seen, rest, false)

/-- One round of the decoder's loop over a buffer that is not empty. `none`
goes round again. -/
def chunkStep (cr : ChunkReader) (rest body : Bytes) : ChunkReader × Bytes × Bytes × Option FeedOutcome :=
  match cr.phase with
  | .size =>
    match chunkLine cr.line rest with
    | none => (cr, rest, body, some (.bad (ascii "chunk size line too long")))
    | some (line, []) => ({ cr with line := line }, [], body, some .more)
    | some (line, _ :: rest) =>
      match chunkSize 0 0 line with
      | .error why => ({ cr with line := line }, rest, body, some (.bad why))
      | .ok 0 => ({ cr with phase := .trailers, line := [] }, rest, body, none)
      | .ok n => ({ cr with phase := .payload, pending := n, line := [] }, rest, body, none)
  | .payload =>
    let take := min rest.length cr.pending
    if clientMaxBody < body.length + take then (cr, rest, body, some (.bad (ascii "body too large")))
    else
      let pending := cr.pending - take
      let cr := if pending = 0 then { cr with phase := .terminator, pending := 0, crlfSeen := 0 }
        else { cr with pending := pending }
      (cr, rest.drop take, body ++ rest.take take, none)
  | .terminator =>
    match chunkCrlf cr.crlfSeen rest with
    | (seen, rest, false) =>
      ({ cr with crlfSeen := seen }, rest, body, some (.bad (ascii "chunk payload not CRLF terminated")))
    | (seen, rest, true) =>
      ({ cr with crlfSeen := seen, phase := if seen = 2 then .size else .terminator }, rest, body, none)
  | .trailers =>
    match chunkLine cr.line rest with
    | none => (cr, rest, body, some (.bad (ascii "trailer line too long")))
    | some (line, []) => ({ cr with line := line }, [], body, some .more)
    | some (line, _ :: rest) =>
      if line = [] ∨ line = [13] then ({ cr with line := line }, rest, body, some .done)
      else ({ cr with line := [] }, rest, body, none)

/-- Every round consumes a byte, so the length of the buffer is fuel enough. -/
def chunkFeed : Nat → ChunkReader → Bytes → Bytes → ChunkReader × Bytes × Bytes × FeedOutcome
  | _, cr, [], body => (cr, [], body, .more)
  | 0, cr, rest, body => (cr, rest, body, .more)
  | fuel + 1, cr, rest, body =>
    match chunkStep cr rest body with
    | (cr, rest, body, some outcome) => (cr, rest, body, outcome)
    | (cr, rest, body, none) => chunkFeed fuel cr rest body

/-! ## The socket and the read-ahead buffer -/

/-- The connection a byte was received on and the number of requests that had
been sent by then. -/
structure Stamp where
  conn : Nat
  sent : Nat
deriving DecidableEq, Repr

structure Rcvd where
  byte : UInt8
  stamp : Stamp
deriving DecidableEq, Repr

/-- What one read of the socket gives. -/
inductive Recv where
  | data (bytes : Bytes)
  | timeout
  | error (reason : Bytes)
  | closed
deriving DecidableEq, Repr

/-- The read-ahead buffer and the outcomes of the reads to come. -/
structure Wire where
  rbuf : List Rcvd
  recvs : List Recv
deriving DecidableEq, Repr

def Wire.text (w : Wire) : Bytes := w.rbuf.map Rcvd.byte

theorem Wire.text_length (w : Wire) : w.text.length = w.rbuf.length := List.length_map _

inductive Refill where
  | arrived
  | closed
  | failed (err : Bytes)
deriving DecidableEq, Repr

/-- One read of at most 8192 bytes. Nothing more comes when the outcomes are
used up. -/
def refill (stamp : Stamp) (w : Wire) : Wire × Refill :=
  match w.recvs with
  | [] => (w, .failed (ascii "timed out waiting for the response"))
  | .timeout :: recvs => (⟨w.rbuf, recvs⟩, .failed (ascii "timed out waiting for the response"))
  | .error reason :: recvs => (⟨w.rbuf, recvs⟩, .failed (ascii "read failed: " ++ reason))
  | .closed :: recvs => (⟨w.rbuf, recvs⟩, .closed)
  | .data bytes :: recvs =>
    if bytes = [] then (⟨w.rbuf, recvs⟩, .closed)
    else (⟨w.rbuf ++ (bytes.take 8192).map fun b => ⟨b, stamp⟩, recvs⟩, .arrived)

def findHeadSep (data : Bytes) : Option Nat :=
  data.tails.findIdx? fun t => (ascii "\r\n\r\n").isPrefixOf t

def tooBig (w : Wire) : Bool := decide (clientMaxBody + clientHeadCap < w.rbuf.length)

structure HttpClientResult where
  status : Nat
  headers : Bytes
  body : Bytes
  error : Option Bytes
  redirects : Nat
deriving DecidableEq, Repr

def emptyResult : HttpClientResult := ⟨0, [], [], none, 0⟩

def idempotent (m : HttpMethod) : Bool := m == .get || m == .head || m == .options

/-- Read until the head is complete: where its blank line is, or the error. -/
def readHead (stamp : Stamp) : Nat → Wire → Bool → Wire × Bool × Except Bytes Nat
  | 0, w, touched => (w, touched, .error (ascii "timed out waiting for the response"))
  | fuel + 1, w, touched =>
    match findHeadSep w.text with
    | some sep => (w, touched, .ok sep)
    | none =>
      if clientHeadCap < w.rbuf.length then
        (w, touched, .error (ascii "response head larger than 65536 bytes"))
      else
        match refill stamp w with
        | (w, .arrived) => readHead stamp fuel w true
        | (w, .failed err) => (w, touched, .error err)
        | (w, .closed) =>
          (w, touched, .error (if w.rbuf = [] then ascii "server closed the connection without a response"
            else ascii "server closed mid-head"))

/-- Why a read in the middle of a body failed. -/
def midBody : Refill → Bytes
  | .failed err => err
  | _ => ascii "connection dropped mid-body"

def bodyCapError : Bytes := ascii "response body exceeds the 33554432 cap"

/-- The chunked arm: `pos` is how far the buffer has been decoded. -/
def readChunked (stamp : Stamp) : Nat → Wire → ChunkReader → Nat → Bytes → Wire × Bytes × Except Bytes Nat
  | 0, w, _, _, body => (w, body, .error (ascii "timed out waiting for the response"))
  | fuel + 1, w, cr, pos, body =>
    let rest := w.text.drop pos
    match chunkFeed rest.length cr rest body with
    | (_, left, body, .done) => (w, body, .ok (w.rbuf.length - left.length))
    | (_, _, body, .bad why) => (w, body, .error why)
    | (cr, left, body, .more) =>
      if tooBig w then (w, body, .error bodyCapError)
      else
        let pos := w.rbuf.length - left.length
        match refill stamp w with
        | (w, .arrived) => readChunked stamp fuel w cr pos body
        | (w, r) => (w, body, .error (midBody r))

/-- The counted arm: read until the buffer holds `upTo` bytes. -/
def readCounted (stamp : Stamp) : Nat → Wire → Nat → Wire × Except Bytes Unit
  | 0, w, _ => (w, .error (ascii "timed out waiting for the response"))
  | fuel + 1, w, upTo =>
    if upTo ≤ w.rbuf.length then (w, .ok ())
    else
      match refill stamp w with
      | (w, .arrived) => if tooBig w then (w, .error bodyCapError) else readCounted stamp fuel w upTo
      | (w, r) => (w, .error (midBody r))

def readToClose (stamp : Stamp) : Nat → Wire → Wire × Except Bytes Unit
  | 0, w => (w, .error (ascii "timed out waiting for the response"))
  | fuel + 1, w =>
    match refill stamp w with
    | (w, .closed) => (w, .ok ())
    | (w, .failed err) => (w, .error err)
    | (w, .arrived) => if tooBig w then (w, .error bodyCapError) else readToClose stamp fuel w

/-- The body behind a head that ends at `base`: the payload, and where the
response ends with whether the connection ended with it, or the error. -/
def readBody (stamp : Stamp) (method : HttpMethod) (status : Nat) (head : Bytes) (base : Nat) (w : Wire) :
    Wire × Bytes × Except Bytes (Nat × Bool) :=
  if method = .head ∨ status = 204 ∨ status = 304 then (w, [], .ok (base, false))
  else if headHasToken head (ascii "transfer-encoding") (ascii "chunked") then
    match readChunked stamp (w.recvs.length + 1) w chunkStart base [] with
    | (w, body, .ok stop) => (w, body, .ok (stop, false))
    | (w, body, .error err) => (w, body, .error err)
  else
    match headContentLength head with
    | some cl =>
      if clientMaxBody < cl then (w, [], .error bodyCapError)
      else
        match readCounted stamp (w.recvs.length + 1) w (base + cl) with
        | (w, .ok ()) => (w, (w.text.drop base).take cl, .ok (base + cl, false))
        | (w, .error err) => (w, [], .error err)
    | none =>
      match readToClose stamp (w.recvs.length + 1) w with
      | (w, .ok ()) => (w, w.text.drop base, .ok (w.rbuf.length, true))
      | (w, .error err) => (w, [], .error err)

/-- What a call of `read_response` leaves. `parsed` is the part of the buffer
that the status, the headers and the body were read from. -/
structure Reading where
  wire : Wire
  out : HttpClientResult
  ok : Bool
  connDead : Bool
  touched : Bool
  parsed : List Rcvd
deriving DecidableEq, Repr

def failWith (out : HttpClientResult) (err : Bytes) : HttpClientResult := { out with error := some err }

def readResponse (stamp : Stamp) (method : HttpMethod) (w : Wire) : Reading :=
  match readHead stamp (w.recvs.length + 1) w false with
  | (w, touched, .error err) => ⟨w, failWith emptyResult err, false, false, touched, []⟩
  | (w, touched, .ok sep) =>
    let head := w.text.take (sep + 2)
    match parseStatusLine head with
    | none => ⟨w, failWith emptyResult (ascii "unparseable status line"), false, false, touched, []⟩
    | some status =>
      match readBody stamp method status head (sep + 4) w with
      | (w, body, .error err) =>
        ⟨w, failWith ⟨status, head, body, none, 0⟩ err, false, false, touched, w.rbuf⟩
      | (w, body, .ok (stop, closed)) =>
        let connDead := closed || headHasToken head (ascii "connection") (ascii "close") ||
          (headIsHttp10 head && !headHasToken head (ascii "connection") (ascii "keep-alive"))
        ⟨⟨w.rbuf.drop stop, w.recvs⟩, ⟨status, head, body, none, 0⟩, true, connDead, touched,
          w.rbuf.take stop⟩

end Cweb.HttpClient
