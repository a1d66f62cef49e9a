import Cweb.Http.HttpClient
import Cweb.Http.Request
import Cweb.Routing.Router

/-!
# The reverse proxy

A request is sent on to a fixed upstream by a client of its own that follows no
redirects, and the answer is passed back. Fields about one connection stay
behind in both directions.
-/

namespace Cweb

open Sv

namespace HttpClient

/-- The hosts and ports the rounds of a request connect to. -/
def attemptsDials : Nat → HttpClient → Net → Request → List (Bytes × Int)
  | 0, _, _, _ => []
  | rounds + 1, c, net, r =>
    (if c.sock = none then [(c.host, c.port)] else []) ++
      match attempt c net r with
      | ⟨_, _, _, some _⟩ => []
      | ⟨c, net, _, none⟩ => attemptsDials rounds c net r

def requestDials (c : HttpClient) (net : Net) (raw : Bytes) (method : HttpMethod)
    (extraHeaders body : Bytes) :
    List (Bytes × Int) :=
  match httpMethodName method, resolveTarget c raw with
  | some methodName, (c, .ok target) => attemptsDials 2 c net ⟨method, methodName, target, extraHeaders, body⟩
  | _, _ => []

end HttpClient

namespace Proxy

open HttpClient

def nameIs (name want : Bytes) : Bool := name.map toupper == want.map toupper

def reqMayForward (name : Bytes) : Bool :=
  [ascii "connection", ascii "keep-alive", ascii "proxy-connection", ascii "transfer-encoding", ascii "te",
    ascii "trailer", ascii "upgrade", ascii "expect", ascii "content-length", ascii "host"].all
    fun want => !nameIs name want

def resMayForward (name : Bytes) : Bool :=
  [ascii "connection", ascii "keep-alive", ascii "proxy-connection", ascii "proxy-authenticate",
    ascii "proxy-authorization", ascii "transfer-encoding", ascii "te", ascii "trailer", ascii "upgrade",
    ascii "content-length"].all fun want => !nameIs name want

def forwarded (headers : List HttpHeader) : List HttpHeader :=
  headers.filter fun h => reqMayForward h.key && !h.value.isEmpty

def forwardedText (headers : List HttpHeader) : Bytes :=
  (forwarded headers).flatMap fun h => headerLine h.key h.value

/-- The lines of an upstream head that are passed back, without its first. -/
def relayedText (head : Bytes) : Bytes :=
  (((svSplit 10 head).drop 1).filter fun text =>
    resMayForward (svTrim (text.takeWhile (· ≠ 58)))).flatMap (· ++ [10])

def badGateway (res : HttpResponse) : HttpResponse :=
  (plainAnswer res 502).apply (.addBody (ascii "502 bad gateway"))

def proxyMethod (method : HttpMethod) : HttpMethod := if method = .head then .get else method

/-- The response, the connections that were tried and the requests that went
out. -/
structure Proxied where
  res : HttpResponse
  dials : List (Bytes × Int)
  log : List Exchange

def relay (res : HttpResponse) (got : HttpClientResult) : HttpResponse :=
  let res := res.apply (.setStatus got.status)
  let res := { res with headers := res.headers ++ relayedText got.headers }
  if got.body = [] then res else res.apply (.addBody got.body)

def httpReverseProxy (upstreamBase : Bytes) (req : HttpRequest) (net : Net) (res : HttpResponse) : Proxied :=
  match httpClientOpen (some upstreamBase) with
  | none => ⟨badGateway res, [], []⟩
  | some up =>
    let up := httpClientSetRedirects up 0
    let fwd := forwardedText req.headers
    let got := httpClientReq up net req.target (proxyMethod req.method) fwd req.body
    ⟨if got.2.2.2.2 then relay res got.2.2.2.1 else badGateway res,
      requestDials up net (svFromCstr req.target) (proxyMethod req.method) (svFromCstr fwd) req.body,
      got.2.2.1⟩

end Proxy

end Cweb
