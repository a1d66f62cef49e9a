import Cweb.Http.Message

/-!
# Building and writing responses

A handler builds its response with a few calls. What goes over an HTTP/1.1
connection is the head with the framing fields and then the body, assembled or
in chunks. The text of the date is an input.
-/

namespace Cweb

open Sv

def crlf : Bytes := [13, 10]

/-! ## Building -/

/-- The lines of a header text with their newlines. -/
def headerLinesOf : Bytes → List Bytes
  | [] => []
  | b :: text =>
    if b = 10 then [b] :: headerLinesOf text
    else
      match headerLinesOf text with
      | [] => [[b]]
      | line :: lines => (b :: line) :: lines

def lineNamed (name text : Bytes) : Bool :=
  text[name.length]? == some 58 && (text.take name.length).map tolower == name.map tolower

def headerLine (name value : Bytes) : Bytes := name ++ ascii ": " ++ value ++ crlf

/-- A line that replaces others takes over how the first of them spelled the
name. -/
def responseEmitHeader (headers name value : Bytes) (replace : Bool) : Bytes :=
  if ¬ replace then headers ++ headerLine name value
  else
    let lines := headerLinesOf headers
    let spelled := ((lines.find? (lineNamed name)).map (List.take name.length)).getD name
    (lines.filter fun line => !lineNamed name line).flatten ++ headerLine spelled value

/-- The calls that build a response; the others are made of these. -/
inductive ResponseOp where
  | setStatus (status : Nat)
  | setHeader (name value : Bytes)
  | appendHeader (name value : Bytes)
  | addBody (data : Bytes)
  | setStream (fn : List Nat → Bytes)
  | streamWrite (data : Bytes)

def HttpResponse.apply (res : HttpResponse) : ResponseOp → HttpResponse
  | .setStatus status => { res with status := status }
  | .setHeader name value => { res with headers := responseEmitHeader res.headers name value true }
  | .appendHeader name value => { res with headers := responseEmitHeader res.headers name value false }
  | .addBody data => { res with body := res.body ++ data }
  | .setStream fn => { res with streamFn := some fn, body := [], suppressBody := false }
  | .streamWrite data =>
    if res.streaming then { res with streamChunks := res.streamChunks ++ [data] }
    else { res with streamChunks := [data], body := [], suppressBody := false }

def buildResponse (ops : List ResponseOp) : HttpResponse := ops.foldl HttpResponse.apply httpResponseInit

/-! ## The head -/

def statusHasNoBody (status : Nat) : Bool := decide (status < 200) || status == 204 || status == 304

/-- Whether a line has exactly this name in front of its colon. -/
def hasHeader (headers name : Bytes) : Bool :=
  (headerLinesOf headers).any fun line =>
    (line.takeWhile fun b => b ≠ 58 && b ≠ 10).map toupper == name.map toupper

def statusLine (status : Nat) : Bytes := ascii "HTTP/1.1 " ++ decimal status ++ ascii " " ++
    httpStatusReason status ++ crlf

def framingLine (res : HttpResponse) : Bytes :=
  if statusHasNoBody res.status then []
  else if res.streaming then ascii "Transfer-Encoding: chunked\r\n"
  else ascii "Content-Length: " ++ decimal res.body.length ++ crlf

def httpResponseSerializeHead (res : HttpResponse) (date : Bytes) : Bytes :=
  let informational := decide (100 ≤ res.status) && decide (res.status < 200)
  statusLine res.status ++ res.headers ++ framingLine res ++
    (if informational || hasHeader res.headers (ascii "date") then [] else headerLine (ascii "Date") date) ++
    (if informational then []
      else ascii (if res.keepAlive then "Connection: keep-alive\r\n" else "Connection: close\r\n")) ++
    crlf

def httpResponseSerialize (res : HttpResponse) (date : Bytes) : Bytes :=
  httpResponseSerializeHead res date ++
    (if res.streaming || statusHasNoBody res.status || res.suppressBody then [] else res.body)

/-! ## Chunks -/

def hexFuel : Nat → Nat → Bytes
  | 0, n => [hexDigitChar (n % 16)]
  | fuel + 1, n => if n < 16 then [hexDigitChar n] else hexFuel fuel (n / 16) ++ [hexDigitChar (n % 16)]

def hex (n : Nat) : Bytes := hexFuel n n

def chunkFrame (data : Bytes) : Bytes := hex data.length ++ crlf ++ data ++ crlf

def lastChunk : Bytes := ascii "0\r\n\r\n"

def streamBufferSize : Nat := 8192

/-- What the producer gives until it ends, `none` while it has not ended after
that many calls. -/
def producedChunks (fn : List Nat → Bytes) : Nat → List Nat → Option (List Bytes)
  | 0, _ => none
  | calls + 1, caps =>
    let caps := caps ++ [streamBufferSize]
    if fn caps = [] ∨ streamBufferSize < (fn caps).length then some []
    else (producedChunks fn calls caps).map (fn caps :: ·)

/-- The chunks of a streamed body that go over the wire. -/
def streamedChunks (res : HttpResponse) (calls : Nat) : Option (List Bytes) :=
  let queued := res.streamChunks.filter (· ≠ [])
  match res.streamFn with
  | none => some queued
  | some fn => (producedChunks fn calls []).map (queued ++ ·)

def sendStream (res : HttpResponse) (date : Bytes) (calls : Nat) (sendBody : Bool) : Option Bytes :=
  if ¬ sendBody then some (httpResponseSerialize res date)
  else
    (streamedChunks res calls).map fun chunks =>
      httpResponseSerialize res date ++ chunks.flatMap chunkFrame ++ lastChunk

/-- What goes over the connection for a response, `none` when its producer has
not ended after that many calls. After an upgrade the head is all. -/
def writeResponse (res : HttpResponse) (date : Bytes) (calls : Nat) (isHead : Bool) : Option Bytes :=
  if res.upgrade then some (httpResponseSerialize res date)
  else if res.streaming then sendStream res date calls (!isHead)
  else some (httpResponseSerialize res date)

end Cweb
