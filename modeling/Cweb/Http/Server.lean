import Cweb.Utils.Buffer
import Cweb.Lib.Loop
import Cweb.Http.Request
import Cweb.Http.Response
import Cweb.Http.H2Serve

/-!
# Serving a connection over HTTP/1.1

The loop stages a request in the read buffer, dispatches it, discards it and
begins again. A turn is a round of the inner loop, which parses what is there and
reads more, with the dispatch behind it when a request is staged. A body that is
too large for the buffer goes to a file. What the socket delivers is an input, one
outcome for each call.
-/

namespace Cweb

open Sv H2 Loop

/-- What one call of `recv` has to give. Nothing comes when the peer is gone. -/
inductive Arrival where
  | data (bytes : Bytes)
  | timeout
  | broken
deriving DecidableEq, Repr

inductive Got where
  | data (bytes : Bytes)
  | timeout
  | closed
deriving DecidableEq, Repr

/-- One read of at most `room` bytes, and the arrivals to come. -/
def ioRecv (room : Nat) : List Arrival → Got × List Arrival
  | [] => (.closed, [])
  | .timeout :: arrivals => (.timeout, arrivals)
  | .broken :: arrivals => (.closed, arrivals)
  | .data bytes :: arrivals =>
    (if bytes.take room = [] then .closed else .data (bytes.take room),
      if room < bytes.length then .data (bytes.drop room) :: arrivals else arrivals)

/-- The settings and what stands outside of the loop. `config` tells whether a
configuration was given and whether it names a directory for bodies. The last
three are the outcomes of opening, writing and mapping a spill file. -/
structure ServerEnv extends H2Env where
  config : Option Bool
  tls : Bool
  routeTimeout : List HttpRequest → Bool
  producerCalls : Nat
  fresh : Bytes
  canOpen : Bool
  canWrite : Nat → Bool
  canMap : Bool

/-- What happens on the connection. `overread` marks a head that ends behind the view,
and `fault` is a wild or null pointer. -/
inductive Event where
  | wrote (bytes : Bytes)
  | overread
  | badChunks
  | called (req : HttpRequest)
  | upgraded (leftover : Bytes)
  | handover (req : Option HttpRequest) (leftover : Bytes)
  | endless
  | fault
deriving DecidableEq, Repr

inductive Phase where
  | sniff
  | serve
deriving DecidableEq, Repr

/-- A request whose body is on its way to a file. -/
structure Spill where
  req : HttpRequest
  written : Bytes
deriving DecidableEq, Repr

structure Conn where
  phase : Phase
  rb : ReadBuffer
  arrivals : List Arrival
  routeTimeoutActive : Bool
  continueSent : Bool
  spill : Option Spill
  calls : List HttpRequest
  trace : List Event

def Conn.log (m : Conn) (events : List Event) : Conn := { m with trace := m.trace ++ events }

/-! ## Answers of the server itself -/

def errorBody : Bytes := ascii "cweb error page (it hurts us too)\r\n"

def errorResponse (status : Nat) : HttpResponse :=
  buildResponse [.setStatus status,
    .setHeader (ascii "Content-Type") (ascii "text/plain; charset=utf-8"), .addBody errorBody]

def sendError (env : ServerEnv) (m : Conn) (status : Nat) : Conn :=
  m.log [.wrote (httpResponseSerialize (errorResponse status) (env.date m.calls.length))]

def continueText : Bytes := ascii "HTTP/1.1 100 Continue\r\n\r\n"

def stallStatus (m : Conn) : Nat := if m.routeTimeoutActive then 504 else 408

def stalled (env : ServerEnv) (m : Conn) : Conn :=
  if m.rb.count > 0 then sendError env m (stallStatus m) else m

def fillMore (env : ServerEnv) (m : Conn) : Turn Conn :=
  let got := ioRecv (rbRoom m.rb) m.arrivals
  let m := { m with arrivals := got.2 }
  match got.1 with
  | .timeout => .leave (stalled env m)
  | .closed => .leave m
  | .data bytes => .again { m with rb := rbCommit m.rb bytes }

/-! ## Tests on a request -/

def connKeepAlive (req : HttpRequest) : Bool :=
  !headerHasToken req (ascii "connection") (ascii "close") &&
    (req.version == ascii "HTTP/1.1" || headerHasToken req (ascii "connection") (ascii "keep-alive"))

/-- What a head says about `Expect`: 1 for a client that waits, -1 for an
expectation that is not known. -/
def expectLines : List Bytes → Int
  | [] => 0
  | text :: texts =>
    let text := if 2 ≤ text.length ∧ text[text.length - 2]? = some 13 then text.take (text.length - 2)
      else text
    if svTrim text = [] then expectLines texts
    else if text.length < 7 ∨ svIeq (text.take 7) (ascii "Expect:") = false then expectLines texts
    else if svIeq (svTrim (text.drop 7)) (ascii "100-continue") then 1 else -1

def expectInterest (head : Bytes) : Int := expectLines (svSplit 10 (svChopByDelim 10 head).2)

def h2IsUpgradeRequest (req : HttpRequest) : Bool :=
  headerHasToken req (ascii "connection") (ascii "upgrade") &&
    headerHasToken req (ascii "connection") (ascii "http2-settings") &&
    (match httpRequestGetHeader req (ascii "upgrade") with
      | none => false
      | some up => tokIn up (ascii "h2c")) &&
    req.headers.countP (fun h => svIeq h.key (ascii "http2-settings")) == 1

def isGzip (req : HttpRequest) : Bool :=
  headerHasToken req (ascii "content-encoding") (ascii "gzip") ||
    headerHasToken req (ascii "content-encoding") (ascii "x-gzip")

/-! ## Dispatch -/

def handOver (m : Conn) (req : Option HttpRequest) (consumed : Nat) : Turn Conn :=
  .leave (m.log [.handover req (m.rb.view.drop consumed)])

/-- The call of the handler and what follows it. -/
def callHandler (env : ServerEnv) (m : Conn) (req : HttpRequest) (consumed : Nat) : Turn Conn :=
  let keep := connKeepAlive req
  let req := { req with remote := env.remote }
  let calls := m.calls ++ [req]
  let res := { env.handler calls with keepAlive := keep }
  let date := env.date m.calls.length
  let m := { m.log [.called req] with calls := calls }
  if res.upgrade then
    let m := m.log [.wrote (httpResponseSerialize res date)]
    .leave (if env.tls then m else m.log [.upgraded (m.rb.view.drop consumed)])
  else
    match writeResponse res date env.producerCalls (req.method == .head) with
    | none => .leave (m.log [.endless])
    | some wire =>
      let m := { m.log [.wrote wire] with
        routeTimeoutActive := env.routeTimeout calls
        rb := rbDiscard m.rb consumed
        continueSent := false }
      if keep then .again m else .leave m

def dispatch (env : ServerEnv) (m : Conn) (req : HttpRequest) (consumed : Nat) : Turn Conn :=
  if env.tls = false ∧ h2IsUpgradeRequest req then handOver m (some req) consumed
  else if isGzip req then
    match env.inflate req.body env.maxInflated with
    | .bad => .leave (sendError env m 400)
    | .tooBig => .leave (sendError env m 413)
    | .ok bytes => callHandler env m { req with body := bytes } consumed
  else callHandler env m req consumed

/-- What a round of the inner loop comes to: another round, the end of the
connection, or a request staged for the dispatch. -/
inductive Pass where
  | next (t : Turn Conn)
  | staged (m : Conn) (req : HttpRequest) (consumed : Nat)

/-! ## Bodies in a file -/

def stageSize : Nat := 65536

/-- The body is complete. What came behind it is parked behind the head. -/
def spillDone (env : ServerEnv) (m : Conn) (sp : Spill) (surplus : Bytes) : Pass :=
  let m := { m with rb := if surplus = [] then m.rb else rbPark m.rb surplus, spill := none }
  if env.canMap then .staged m { sp.req with body := sp.written } sp.req.bodyOffset
  else .next (.leave (sendError env m 500))

def drainPass (env : ServerEnv) (m : Conn) (sp : Spill) : Pass :=
  let got := ioRecv stageSize m.arrivals
  let m := { m with arrivals := got.2 }
  match got.1 with
  | .timeout => .next (.leave (stalled env m))
  | .closed => .next (.leave m)
  | .data bytes =>
    let take := min bytes.length (sp.req.contentLength.toNat - sp.written.length)
    if 0 < take ∧ env.canWrite sp.written.length = false then .next (.leave (sendError env m 500))
    else
      let sp := { sp with written := sp.written ++ bytes.take take }
      if sp.req.contentLength.toNat ≤ sp.written.length then spillDone env m sp (bytes.drop take)
      else .next (.again { m with spill := some sp })

def spillStart (env : ServerEnv) (m : Conn) (req : HttpRequest) : Turn Conn :=
  let req := httpRequestParseHeaderBlock req (m.rb.view.take req.bodyOffset)
  if env.canOpen = false ∨ env.canWrite 0 = false then .leave (sendError env m 500)
  else
    .again { m with
      spill := some ⟨req, m.rb.view.drop req.bodyOffset⟩
      rb := rbTruncate m.rb req.bodyOffset }

/-! ## The loop -/

/-- More is to be read, unless the buffer is full. -/
def readOn (env : ServerEnv) (m : Conn) (req : HttpRequest) : Turn Conn :=
  if m.rb.capacity ≤ m.rb.count then
    match env.config with
    | none => .leave (m.log [.fault])
    | some bodyDir =>
      if bodyDir ∧ (env.maxBody : Int) < req.contentLength ∧ 0 < req.bodyOffset ∧
        req.bodyOffset < m.rb.count then
        spillStart env m req
      else .leave (sendError env m 413)
  else fillMore env m

def incompleteTurn (env : ServerEnv) (m : Conn) (req : HttpRequest) : Turn Conn :=
  if m.continueSent = false ∧ 0 < req.bodyOffset then
    let want := expectInterest (m.rb.view.take req.bodyOffset)
    if want < 0 then .leave (sendError env m 417)
    else if 0 < want then
      match env.config with
      | none => .leave (m.log [.fault])
      | some bodyDir =>
        if bodyDir = false ∧ (env.maxBody : Int) < req.contentLength then .leave (sendError env m 413)
        else readOn env { m.log [.wrote continueText] with continueSent := true } req
    else readOn env m req
  else readOn env m req

/-- Unfolding has moved the payload to the front of the body. -/
def slide (rb : ReadBuffer) (req : HttpRequest) (payload : Bytes) : ReadBuffer :=
  { rb with view :=
    rb.view.take req.bodyOffset ++ payload ++ (rb.view.drop req.bodyOffset).drop payload.length }

/-- What follows from unfolding. `moved` is the buffer once a payload has moved to the
front of the body, and `held` what the body is a view of then. -/
def unfoldedPass (env : ServerEnv) (m : Conn) (req : HttpRequest) (consumed : Nat)
    (moved : Bytes → ReadBuffer)
    (held : ReadBuffer → Bytes) (unfolded : Unfolded) : Pass :=
  match unfolded with
  | .complete payload left overread =>
    .staged { m with rb := moved payload } { req with body := payload }
      (req.bodyOffset + (req.body.length - left.length) + if overread then 1 else 0)
  | .incomplete payload =>
    let m := { m with rb := moved payload }
    .next (if m.rb.capacity ≤ m.rb.count then .leave (sendError env m 413) else fillMore env m)
  | .malformed payload =>
    -- the request is released and answered, and the loop left as with a staged one
    let rb := moved payload
    .staged (sendError env { m.log [.badChunks] with rb := rb } 400)
      { req with headers := [], body := (held rb).take req.body.length } consumed
  | .wild => .next (.leave (m.log [.fault]))

def chunkedPass (env : ServerEnv) (m : Conn) (req : HttpRequest) (consumed : Nat) : Pass :=
  unfoldedPass env m req consumed (slide m.rb req) (fun rb => rb.view.drop req.bodyOffset)
    (httpRequestDecodeChunked req m.rb.behind)

/-- The payload has moved to the front of a body behind the view. -/
def slideBehind (rb : ReadBuffer) (payload : Bytes) : ReadBuffer :=
  { rb with behind := rb.behind.take 1 ++ payload ++ (rb.behind.drop 1).drop payload.length }

/-- The head ends behind the view, and what memory holds there is taken for its body. -/
def overreadPass (env : ServerEnv) (m : Conn) : Pass :=
  let m := m.log [.overread]
  match parseBehind m.rb.view m.rb.behind with
  | none => .next (.leave (sendError env m 400))
  | some (req, consumed) =>
    if httpRequestGetHeader req (ascii "transfer-encoding") ≠ none then
      unfoldedPass env m req consumed (slideBehind m.rb) (fun rb => rb.behind.drop 1) (decodeBehind req)
    else .staged m req consumed

def parsePass (env : ServerEnv) (m : Conn) : Pass :=
  match httpRequestParseAdv m.rb.view m.rb.behind with
  | .incomplete req => .next (incompleteTurn env m req)
  | .error => .next (.leave (sendError env m 400))
  | .overread => overreadPass env m
  | .ok req consumed =>
    if httpRequestGetHeader req (ascii "transfer-encoding") ≠ none then chunkedPass env m req consumed
    else .staged m req consumed

/-- The first bytes tell whether the connection is HTTP/2 from the start. -/
def sniffTurn (env : ServerEnv) (m : Conn) : Turn Conn :=
  if m.rb.count < 3 then fillMore env m
  else if m.rb.view.take 3 = ascii "PRI" ∧ m.rb.count < h2Magic.length then fillMore env m
  else if h2Magic.isPrefixOf m.rb.view then handOver m none h2Magic.length
  else .again { m with phase := .serve }

def servePass (env : ServerEnv) (m : Conn) : Pass :=
  match m.phase, m.spill with
  | .sniff, _ => .next (sniffTurn env m)
  | .serve, some sp => drainPass env m sp
  | .serve, none => parsePass env m

def serveTurn (env : ServerEnv) (m : Conn) : Turn Conn :=
  match servePass env m with
  | .next t => t
  | .staged m req consumed => dispatch env m req consumed

def serveStart (env : ServerEnv) (arrivals : List Arrival) : Conn :=
  ⟨if env.tls then .serve else .sniff, rbInit env.fresh env.maxBody, arrivals, false, false, none, [], []⟩

def Serves (env : ServerEnv) (arrivals : List Arrival) : Conn → Prop :=
  Visits (serveTurn env) (serveStart env arrivals)

/-- The states of a run, the one it ends in among them. -/
def Runs (env : ServerEnv) (arrivals : List Arrival) (m : Conn) : Prop :=
  Serves env arrivals m ∨ ∃ m', Serves env arrivals m' ∧ serveTurn env m' = .leave m

end Cweb
