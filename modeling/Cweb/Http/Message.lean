import Cweb.Http.Http

/-!
# Requests and responses

What the two protocol front ends hand to a handler and take back from it. A
streamed body comes from queued chunks and then from a producer, a function of
the capacities it has been offered so far. Fields that only middleware reads
are left out.
-/

namespace Cweb

open Sv

structure HttpHeader where
  key : Bytes
  value : Bytes
deriving DecidableEq, Repr

/-- `contentLength` is -1 when the header is absent. -/
structure HttpRequest where
  method : HttpMethod
  target : Bytes
  path : Bytes
  query : Bytes
  version : Bytes
  body : Bytes
  contentLength : Int
  bodyOffset : Nat
  remote : Bytes
  headers : List HttpHeader
deriving DecidableEq, Repr

def emptyRequest : HttpRequest := ⟨.unknown, [], [], [], [], [], -1, 0, [], []⟩

/-- `streamFn` is given the capacities offered so far, the current one last.
`upgrade` tells whether the handler asked for the raw connection. -/
structure HttpResponse where
  status : Nat
  headers : Bytes
  body : Bytes
  suppressBody : Bool
  keepAlive : Bool
  streamFn : Option (List Nat → Bytes)
  streamChunks : List Bytes
  upgrade : Bool

def httpResponseInit : HttpResponse := ⟨200, [], [], false, false, none, [], false⟩

def HttpResponse.streaming (res : HttpResponse) : Bool := res.streamFn.isSome || !res.streamChunks.isEmpty

/-- Equal up to the case of letters. -/
def svIeq (a b : Bytes) : Bool := a.map tolower == b.map tolower

def httpRequestGetHeader (req : HttpRequest) (name : Bytes) : Option Bytes :=
  (req.headers.find? fun h => h.key.map toupper == name.map toupper).map HttpHeader.value

def tokIn (sv token : Bytes) : Bool := (svSplit 44 sv).any fun part => svIeq (svTrim part) token

def headerHasToken (req : HttpRequest) (name token : Bytes) : Bool :=
  match httpRequestGetHeader req name with
  | none => false
  | some v => tokIn v token

/-- What stands in front of the question mark of a target and what behind it. -/
def splitQuery (target : Bytes) : Bytes × Bytes :=
  (target.takeWhile (· ≠ 63), (target.dropWhile (· ≠ 63)).drop 1)

end Cweb
