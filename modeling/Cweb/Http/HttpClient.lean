import Cweb.Http.ClientRead
import Cweb.Utils.Uri

/-!
# The persistent client

One connection at a time is kept open across requests. A request resolves its
target, connects when no connection is open, sends, reads the response, and on
a dead connection is sent once more. Redirects are followed by further
requests. The read-ahead buffer belongs to the client and not to the
connection. Outcomes of the socket calls are inputs; deadlines only decide
which of them occur.
-/

namespace Cweb.HttpClient

open Sv Uri

/-- `sock` is the number of the open connection. `sent` counts the requests
sent so far; only the stamps use it. -/
structure HttpClient where
  sock : Option Nat
  host : Bytes
  port : Int
  opens : Nat
  redirects : Nat
  rbuf : List Rcvd
  sent : Nat
deriving DecidableEq, Repr

/-- The outcomes to come: of connecting and of sending, `none` for success or
the reason, and of reading. -/
structure Net where
  connects : List (Option Bytes)
  sends : List (Option Bytes)
  recvs : List Recv
deriving DecidableEq, Repr

def Net.connect (net : Net) : Net × Option Bytes :=
  match net.connects with
  | [] => (net, some [])
  | r :: connects => ({ net with connects := connects }, r)

def Net.sendAll (net : Net) : Net × Option Bytes :=
  match net.sends with
  | [] => (net, some [])
  | r :: sends => ({ net with sends := sends }, r)

def uriPort (u : Uri) : Option Int :=
  if u.port = [] then some (uriDefaultPort u.scheme)
  else
    match svToI64 u.port with
    | none => none
    | some pn => if pn ≤ 0 ∨ 65535 < pn then none else some pn

def httpClientOpen (baseUrl : Option Bytes) : Option HttpClient :=
  match baseUrl with
  | none => some ⟨none, [], 0, 0, 5, [], 0⟩
  | some url =>
    match uriParse (svFromCstr url) with
    | none => none
    | some u =>
      if uriSchemeIs u (ascii "http") ∧ u.host ≠ [] ∧ u.host.length < 256 then
        (uriPort u).map fun port => ⟨none, u.host, port, 0, 5, [], 0⟩
      else none

def httpClientSetRedirects (c : HttpClient) (n : Int) : HttpClient := { c with redirects := n.toNat }

/-- Where the first scheme mark of a text is. -/
def schemeMark (s : Bytes) : Option Nat := s.tails.findIdx? fun t => (ascii "://").isPrefixOf t

def looksAbsolute (s : Bytes) : Bool :=
  match schemeMark s with
  | none => false
  | some i => decide (0 < i)

/-- The client with the target's authority, and the request target. -/
def resolveTarget (c : HttpClient) (raw : Bytes) : HttpClient × Except Bytes Bytes :=
  if looksAbsolute raw then
    match uriParse raw with
    | none => (c, .error (ascii "bad URL"))
    | some u =>
      if u.host = [] then (c, .error (ascii "bad URL"))
      else if ¬ uriSchemeIs u (ascii "http") then
        (c, .error (if uriSchemeIs u (ascii "https") then ascii "https is not supported yet"
          else ascii "URL needs an http:// scheme"))
      else
        match uriPort u with
        | none => (c, .error (ascii "bad port in URL"))
        | some port =>
          if 256 ≤ u.host.length then (c, .error (ascii "host name too long"))
          else
            let same := c.host = [] ∨ (c.host = u.host ∧ c.port = port)
            ({ c with sock := if same then c.sock else none, host := u.host, port := port },
              .ok (if u.query = [] then u.path else u.path ++ 63 :: u.query))
  else if raw.head? ≠ some 47 then (c, .error (ascii "target must be absolute or start with '/'"))
  else if c.host = [] then
    (c, .error (ascii "no base URL: pass an absolute target or set one with http_client_open"))
  else (c, .ok raw)

/-- A resolved request. -/
structure Request where
  method : HttpMethod
  methodName : Bytes
  target : Bytes
  extraHeaders : Bytes
  body : Bytes
deriving DecidableEq, Repr

def requestHead (c : HttpClient) (r : Request) : Bytes :=
  r.methodName ++ ascii " " ++ r.target ++ ascii " HTTP/1.1\r\nHost: " ++ c.host ++
    (if c.port ≠ 80 ∧ c.port ≠ 443 then ascii ":" ++ decimalInt c.port else []) ++
    ascii "\r\nConnection: keep-alive\r\n" ++ r.extraHeaders ++
    (if r.body = [] then [] else ascii "Content-Length: " ++ decimal r.body.length ++ ascii "\r\n") ++
    ascii "\r\n"

/-- A request that was sent and what was read for it. `leftover` is what the
read-ahead buffer held when it was sent. -/
structure Exchange where
  stamp : Stamp
  host : Bytes
  request : Bytes
  leftover : List Rcvd
  parsed : List Rcvd
  out : HttpClientResult
deriving DecidableEq, Repr

/-- One round of the loop of `do_request`: the exchange if the request went
out, and the result unless it is to be tried again. -/
structure Attempt where
  client : HttpClient
  net : Net
  log : List Exchange
  result : Option (HttpClientResult × Bool)
deriving DecidableEq, Repr

def connectStep (c : HttpClient) (net : Net) : HttpClient × Net × Except Bytes Nat :=
  match c.sock with
  | some conn => (c, net, .ok conn)
  | none =>
    let c := { c with opens := c.opens + 1 }
    match net.connect with
    | (net, none) => ({ c with sock := some c.opens }, net, .ok c.opens)
    | (net, some reason) =>
      (c, net, .error (ascii "connect to " ++ c.host ++ ascii ":" ++ decimalInt c.port ++
        ascii " failed: " ++ reason))

def sendStep (net : Net) (r : Request) : Net × Option Bytes :=
  match net.sendAll with
  | (net, some reason) => (net, some reason)
  | (net, none) => if r.body = [] then (net, none) else net.sendAll

/-- The exchange of a request that went out on connection `conn`. -/
def sentAttempt (c : HttpClient) (net : Net) (r : Request) (conn : Nat) (reused : Bool) : Attempt :=
  let stamp : Stamp := ⟨conn, c.sent + 1⟩
  let got := readResponse stamp r.method ⟨c.rbuf, net.recvs⟩
  ⟨{ c with
      sock := if got.ok && !got.connDead then c.sock else none
      rbuf := got.wire.rbuf
      sent := c.sent + 1 },
    { net with recvs := got.wire.recvs },
    [⟨stamp, c.host, requestHead c r ++ r.body, c.rbuf, got.parsed, got.out⟩],
    if !got.ok && (reused && idempotent r.method && !got.touched) then none else some (got.out, got.ok)⟩

def attempt (c : HttpClient) (net : Net) (r : Request) : Attempt :=
  let reused := c.sock.isSome
  match connectStep c net with
  | (c, net, .error err) => ⟨c, net, [], some (failWith emptyResult err, false)⟩
  | (c, net, .ok conn) =>
    match sendStep net r with
    | (net, some reason) =>
      ⟨{ c with sock := none }, net, [],
        if reused && idempotent r.method then none
        else some (failWith emptyResult (ascii "send failed: " ++ reason), false)⟩
    | (net, none) => sentAttempt c net r conn reused

/-- Only a reused connection is tried again, and the second round opens its
own. -/
def attempts : Nat → HttpClient → Net → Request → HttpClient × Net × List Exchange × HttpClientResult × Bool
  | 0, c, net, _ => (c, net, [], emptyResult, false)
  | rounds + 1, c, net, r =>
    match attempt c net r with
    | ⟨c, net, log, some (out, ok)⟩ => (c, net, log, out, ok)
    | ⟨c, net, log, none⟩ =>
      let rest := attempts rounds c net r
      (rest.1, rest.2.1, log ++ rest.2.2.1, rest.2.2.2)

def doRequest (c : HttpClient) (net : Net) (raw : Bytes) (method : HttpMethod) (extraHeaders body : Bytes) :
    HttpClient × Net × List Exchange × HttpClientResult × Bool :=
  match httpMethodName method with
  | none => (c, net, [], failWith emptyResult (ascii "unsupported method"), false)
  | some methodName =>
    match resolveTarget c raw with
    | (c, .error err) => (c, net, [], failWith emptyResult err, false)
    | (c, .ok target) => attempts 2 c net ⟨method, methodName, target, extraHeaders, body⟩

def redirectCode (s : Nat) : Bool := s == 301 || s == 302 || s == 303 || s == 307 || s == 308

def resolveLocation (location : Bytes) : Bytes :=
  svFromCstr (if schemeMark location ≠ none ∨ location.head? = some 47 then location else 47 :: location)

/-- The redirect loop; `left` is how many hops may still be taken. -/
def followRedirects (extraHeaders : Bytes) : Nat → Nat → HttpClient → Net → Bytes → HttpMethod → Bytes →
    HttpClient × Net × List Exchange × HttpClientResult × Bool
  | left, hops, c, net, raw, method, body =>
    match doRequest c net raw method extraHeaders body with
    | (c, net, log, out, false) => (c, net, log, out, false)
    | (c, net, log, out, true) =>
      let final := (c, net, log, { out with redirects := hops }, true)
      if redirectCode out.status then
        match left, headGetValue out.headers (ascii "location") with
        | left + 1, some location =>
          if location = [] then final
          else
            let toGet := out.status = 303 ∨ (out.status ≠ 307 ∧ out.status ≠ 308 ∧ method = .post)
            let rest := followRedirects extraHeaders left (hops + 1) c net (resolveLocation location)
              (if toGet then .get else method) (if toGet then [] else body)
            (rest.1, rest.2.1, log ++ rest.2.2.1, rest.2.2.2)
        | _, _ => final
      else final

def httpClientReq (c : HttpClient) (net : Net) (url : Bytes) (method : HttpMethod)
    (extraHeaders body : Bytes) :
    HttpClient × Net × List Exchange × HttpClientResult × Bool :=
  followRedirects (svFromCstr extraHeaders) c.redirects 0 c net (svFromCstr url) method body

inductive Call where
  | req (url : Bytes) (method : HttpMethod) (extraHeaders body : Bytes)
  | setRedirects (n : Int)
deriving DecidableEq, Repr

/-- The exchanges of a sequence of calls on one client. -/
def runCalls : HttpClient → Net → List Call → HttpClient × Net × List Exchange
  | c, net, [] => (c, net, [])
  | c, net, .setRedirects n :: calls => runCalls (httpClientSetRedirects c n) net calls
  | c, net, .req url method extraHeaders body :: calls =>
    let first := httpClientReq c net url method extraHeaders body
    let rest := runCalls first.1 first.2.1 calls
    (rest.1, rest.2.1, first.2.2.1 ++ rest.2.2)

theorem attempt_cases (c : HttpClient) (net : Net) (r : Request) :
    (∃ c' net' err, connectStep c net = (c', net', .error err) ∧
      attempt c net r = ⟨c', net', [], some (failWith emptyResult err, false)⟩) ∨
    (∃ c' net' conn reason result, connectStep c net = (c', net', .ok conn) ∧
      attempt c net r = ⟨{ c' with sock := none }, (sendStep net' r).1, [], result⟩ ∧
      (result = none → c.sock ≠ none) ∧ (sendStep net' r).2 = some reason) ∨
    (∃ c' net' conn, connectStep c net = (c', net', .ok conn) ∧ (sendStep net' r).2 = none ∧
      attempt c net r = sentAttempt c' (sendStep net' r).1 r conn c.sock.isSome) := by
  rw [attempt]
  rcases hConnect : connectStep c net with ⟨c', net', err | conn⟩
  · exact .inl ⟨c', net', err, rfl, rfl⟩
  · dsimp only
    rcases hSend : sendStep net' r with ⟨net'', reason | reason⟩
    · exact .inr (.inr ⟨c', net', conn, rfl, by rw [hSend], by rw [hSend]⟩)
    · refine .inr (.inl ⟨c', net', conn, reason, _, rfl, by rw [hSend], ?_, by rw [hSend]⟩)
      intro hRetry hClosed
      rw [hClosed] at hRetry
      cases hRetry

/-- A client whose connection is closed does not try again, and a retry closes
the connection, so two rounds are always enough. -/
theorem sock_of_retry {c : HttpClient} {net : Net} {r : Request} (h : (attempt c net r).result = none) :
    c.sock ≠ none ∧ (attempt c net r).client.sock = none := by
  obtain ⟨c', net', err, _, hEq⟩ | ⟨c', net', conn, reason, result, _, hEq, hRetry, _⟩ |
    ⟨c', net', conn, _, _, hEq⟩ := attempt_cases c net r
  · rw [hEq] at h
    cases h
  · rw [hEq] at h ⊢
    exact ⟨hRetry h, rfl⟩
  · rw [hEq] at h ⊢
    simp only [sentAttempt] at h ⊢
    split at h
    · rename_i hCond
      simp only [Bool.and_eq_true, Bool.not_eq_true'] at hCond
      obtain ⟨hFailed, ⟨hReused, _⟩, _⟩ := hCond
      refine ⟨Option.isSome_iff_ne_none.mp hReused, ?_⟩
      simp [hFailed]
    · cases h

end Cweb.HttpClient
