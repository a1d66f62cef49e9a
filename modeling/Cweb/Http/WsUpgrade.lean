import Cweb.Http.HeaderAlgebra
import Cweb.Http.ListFields
import Cweb.Http.WsHandshake
import Cweb.Utils.Base64

/-!
# The answer to a WebSocket's handshake

A request that asks for a WebSocket with a key of sixteen bytes gets the digest of that
key. The fields of the answer are the ones that were there, apart from those of the
handshake, and its three.
-/

namespace Cweb.Ws

open Sv Base64

def wsGuid : Bytes := ascii "258EAFA5-E914-47DA-95CA-C5AB0DC85B11"

/-- The key and the constant are joined in an array that has room for so much of the key. -/
def wsKeyRoom : Nat := 196 - (wsGuid.length + 1) - 1

/-- What is digested, and the digest as text. -/
def wsAccept (key : Bytes) : Bytes := base64EncodeInto (httpWsSha1 (key.take wsKeyRoom ++ wsGuid))

def setField (res : HttpResponse) (name value : Bytes) : HttpResponse :=
  { res with headers := responseEmitHeader res.headers name value true }

/-- Nothing stands for the result -1, with which the response stays as it is. -/
def httpWsUpgrade (req : HttpRequest) (res : HttpResponse) : Option HttpResponse :=
  if req.method ≠ .get then none
  else if req.version ≠ ascii "HTTP/1.1" then none
  else if wsHeaderHasToken req (ascii "upgrade") (ascii "websocket") = false then none
  else if wsHeaderHasToken req (ascii "connection") (ascii "upgrade") = false then none
  else
    match httpRequestGetHeader req (ascii "sec-websocket-key") with
    | none => none
    | some key =>
      match httpRequestGetHeader req (ascii "sec-websocket-version") with
      | none => none
      | some vers =>
        if svTrim vers ≠ ascii "13" then none
        else if (base64DecodeInto key).map List.length ≠ some 16 then none
        else
          let res := { res with status := 101 }
          let res := setField res (ascii "Upgrade") (ascii "websocket")
          let res := setField res (ascii "Connection") (ascii "Upgrade")
          let res := setField res (ascii "Sec-WebSocket-Accept") (wsAccept key)
          some { res with upgrade := true }

/-- A handshake with this key, which stands for these sixteen bytes. -/
structure Asks (req : HttpRequest) (key nonce : Bytes) : Prop where
  method : req.method = .get
  version : req.version = ascii "HTTP/1.1"
  upgrade : wsHeaderHasToken req (ascii "upgrade") (ascii "websocket") = true
  connection : wsHeaderHasToken req (ascii "connection") (ascii "upgrade") = true
  sent : httpRequestGetHeader req (ascii "sec-websocket-key") = some key
  thirteen : ∃ vers, httpRequestGetHeader req (ascii "sec-websocket-version") = some vers ∧
    svTrim vers = ascii "13"
  length : nonce.length = 16
  text : key.rdropWhile (· == 61) = (base64EncodeInto nonce).rdropWhile (· == 61)

theorem Asks.decode {req : HttpRequest} {key nonce : Bytes} (h : Asks req key nonce) :
    base64DecodeInto key = some nonce := by
  rw [base64DecodeInto_iff, h.text, rdropWhile_encode]

theorem Asks.answer {req : HttpRequest} {key nonce : Bytes} (h : Asks req key nonce) (res : HttpResponse) :
    httpWsUpgrade req res =
      some { setField (setField (setField { res with status := 101 } (ascii "Upgrade") (ascii "websocket"))
      (ascii "Connection") (ascii "Upgrade")) (ascii "Sec-WebSocket-Accept")
        (wsAccept key) with upgrade := true } := by
  obtain ⟨vers, hVers, hThirteen⟩ := h.thirteen
  rw [httpWsUpgrade, h.sent, hVers, if_neg (not_not.mpr h.method), if_neg (not_not.mpr h.version),
    h.upgrade, h.connection,
    if_neg (by decide), if_neg (by decide)]
  dsimp only
  rw [if_neg (not_not.mpr hThirteen), h.decode, Option.map_some, h.length, if_neg (not_not.mpr rfl)]

variable {fields : List HttpHeader}

def sampleNonce : Bytes := ascii "the sample nonce"

def sampleRequest : HttpRequest :=
  { emptyRequest with
    method := .get
    version := ascii "HTTP/1.1"
    headers := [⟨ascii "Upgrade", ascii "websocket"⟩, ⟨ascii "Connection", ascii "keep-alive, Upgrade"⟩,
      ⟨ascii "Sec-WebSocket-Key", base64EncodeInto sampleNonce⟩,
      ⟨ascii "Sec-WebSocket-Version", ascii "13"⟩] }

end Cweb.Ws
