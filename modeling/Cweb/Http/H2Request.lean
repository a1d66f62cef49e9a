import Cweb.Http.H2Send

/-!
# Requests from header blocks

A decoded block is checked field by field and becomes a request. Names and
values are staged one behind the other in a storage buffer and the headers are
slices of it; several cookie fields are merged into one.
-/

namespace Cweb.H2

open Sv HpackTable

def tokenChar (c : UInt8) : Bool :=
  (97 ≤ c && c ≤ 122) || (48 ≤ c && c ≤ 57) || (ascii "!#$%&'*+.^_`|~-").contains c

def nameValid (name : Bytes) : Bool :=
  !name.isEmpty && name.all fun c => tokenChar c && !(65 ≤ c && c ≤ 90)

/-- The loop over the decoded fields. -/
structure FieldScan where
  method : Bytes
  scheme : Bytes
  path : Bytes
  authority : Bytes
  pseudoDone : Bool
  listBytes : Nat
  contentLength : Option Int
  fields : List Field
deriving DecidableEq, Repr

def scanStart : FieldScan := ⟨[], [], [], [], false, 0, none, []⟩

def scanPseudo (st : FieldScan) (e : Field) : Option FieldScan :=
  if st.pseudoDone ∨ e.name.length < 2 then none
  else if ¬ (e.name.drop 1).all (fun c => tokenChar c && !(65 ≤ c && c ≤ 90)) then none
  else if svIeq e.name (ascii ":method") ∧ st.method = [] then some { st with method := e.value }
  else if svIeq e.name (ascii ":scheme") ∧ st.scheme = [] then some { st with scheme := e.value }
  else if svIeq e.name (ascii ":path") ∧ st.path = [] then some { st with path := e.value }
  else if svIeq e.name (ascii ":authority") ∧ st.authority = [] then some { st with authority := e.value }
  else none

def scanRegular (st : FieldScan) (e : Field) : Option FieldScan :=
  let st := { st with pseudoDone := true }
  if ¬ nameValid e.name ∨ connSpecName e.name then none
  else if svIeq e.name (ascii "te") then
    if svTrim e.value = ascii "trailers" then some st else none
  else if svIeq e.name (ascii "content-length") then
    if st.contentLength ≠ none then none
    else
      match svToI64 e.value with
      | none => none
      | some n => if n < 0 then none else some { st with contentLength := some n, fields := st.fields ++ [e] }
  else some { st with fields := st.fields ++ [e] }

/-- `none` is a malformed request. -/
def scanField (st : FieldScan) (e : Field) : Option FieldScan :=
  let st := { st with listBytes := st.listBytes + e.size }
  if h2MaxHeaderList < st.listBytes then none
  else if e.name.head? = some 58 then scanPseudo st e
  else scanRegular st e

def pseudoOk (st : FieldScan) : Bool :=
  if svIeq st.method (ascii "CONNECT") then !st.authority.isEmpty && st.scheme.isEmpty && st.path.isEmpty
  else
    !st.method.isEmpty && !st.scheme.isEmpty && !st.path.isEmpty &&
      (st.path.head? != some 42 || svIeq st.method (ascii "OPTIONS"))

structure Slot where
  nameOff : Nat
  nameLen : Nat
  valueOff : Nat
  valueLen : Nat
deriving DecidableEq, Repr

def isCookie (e : Field) : Bool := svIeq e.name (ascii "cookie")

/-- The merged value of the cookie fields, that of field `first` in front. -/
def mergedCookies (fields : List Field) (first : Nat) (e : Field) : Bytes :=
  e.value ++ (fields.zipIdx.filter fun k => k.2 != first && isCookie k.1).flatMap fun k => ascii "; " ++
    k.1.value

/-- Stage one field. The slot of merged cookies takes its name from the bytes
of the merged value, since the name itself is not stored. -/
def stageField (fields : List Field) (st : Bytes × List Slot) (e : Field × Nat) : Bytes × List Slot :=
  let merge := decide (1 < fields.countP isCookie)
  let first := fields.findIdx isCookie
  if merge && isCookie e.1 && e.2 != first then st
  else if merge && e.2 == first then
    let merged := mergedCookies fields first e.1
    (st.1 ++ merged, st.2 ++ [⟨st.1.length, e.1.name.length, st.1.length, merged.length⟩])
  else
    (st.1 ++ e.1.name ++ e.1.value,
      st.2 ++ [⟨st.1.length, e.1.name.length, st.1.length + e.1.name.length, e.1.value.length⟩])

def slice (mem : Bytes) (off len : Nat) : Bytes := (mem.drop off).take len

def requestOfScan (remote : Bytes) (st : FieldScan) : HttpRequest :=
  let staged := st.fields.zipIdx.foldl (stageField st.fields) (st.path, [])
  let addHost := !st.authority.isEmpty && !(st.fields.any fun e => svIeq e.name (ascii "host"))
  let mem := if addHost then staged.1 ++ ascii "host" ++ st.authority else staged.1
  { method := httpMethodFromSv st.method
    target := st.path
    path := (splitQuery st.path).1
    query := (splitQuery st.path).2
    version := ascii "HTTP/2.0"
    body := []
    contentLength := st.contentLength.getD (-1)
    bodyOffset := 0
    remote := remote
    headers :=
      (staged.2.map fun sl => ⟨slice mem sl.nameOff sl.nameLen, slice mem sl.valueOff sl.valueLen⟩) ++
      (if addHost then [⟨ascii "host", st.authority⟩] else []) }

/-- The request of a decoded field list, `none` when it is malformed. -/
def requestOfFields (remote : Bytes) (fields : List Field) : Option HttpRequest :=
  match fields.foldlM scanField scanStart with
  | none => none
  | some st => if pseudoOk st then some (requestOfScan remote st) else none

inductive BlockResult where
  | compression
  | malformed
  | request (req : HttpRequest)
deriving DecidableEq, Repr

/-- The block is decoded before anything about it is checked. -/
def h2RequestFromBlock (env : H2Env) (c : H2Conn) (blk : Bytes) : H2Conn × BlockResult :=
  match Hpack.hpackDecodeBlock c.hpack blk with
  | (hp, none) => (h2ConnError { c with hpack := hp } .compression, .compression)
  | (hp, some fields) =>
    ({ c with hpack := hp },
      match requestOfFields env.remote fields with
      | none => .malformed
      | some req => .request req)

def emptyResponse : HttpResponse := ⟨0, [], [], false, false, none, [], false⟩

def newStream (id : Nat) (remoteEnded : Bool) (req : HttpRequest) (sendWindow : Nat) : H2Stream :=
  ⟨id, remoteEnded, false, false, false, false, false, false, req, emptyResponse, [], 0, 0, 0, 0, 0,
    false, [],
    h2InitialWindow, sendWindow⟩

end Cweb.H2
