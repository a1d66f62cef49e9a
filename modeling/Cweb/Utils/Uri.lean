import Cweb.Utils.Sv

/-!
# Uri decomposition

`scheme://authority/path?query#fragment`, with the authority split into a host
and a port. Nothing is decoded.
-/

namespace Cweb

open Sv

structure Uri where
  scheme : Bytes
  host : Bytes
  port : Bytes
  path : Bytes
  query : Bytes
  fragment : Bytes
deriving DecidableEq, Repr

namespace Uri

def isalpha (b : UInt8) : Bool := (65 ≤ b && b ≤ 90) || (97 ≤ b && b ≤ 122)

def svIndex (sv : Bytes) (c : UInt8) : Option Nat := sv.findIdx? (· == c)

def schemeOk : Bytes → Bool
  | [] => false
  | c :: cs => isalpha c && cs.all fun c => isalpha c || isdigit c || c == 43 || c == 45 || c == 46

/-- The host and the port. Brackets around an address keep its colons out of
the search for the port. -/
def splitAuthority (auth : Bytes) : Option (Bytes × Bytes) :=
  let checked (host port : Bytes) : Option (Bytes × Bytes) :=
    if port = [] ∨ 5 < port.length then none
    else
      match svToI64 port with
      | none => none
      | some pn => if pn < 0 ∨ 65535 < pn then none else some (host, port)
  match auth with
  | [] => none
  | 91 :: inner =>
    match svIndex inner 93 with
    | none => none
    | some close =>
      match inner.drop (close + 1) with
      | [] => some (inner.take close, [])
      | 58 :: port => checked (inner.take close) port
      | _ => none
  | _ =>
    match svIndex auth 58 with
    | none => some (auth, [])
    | some colon => if colon = 0 then none else checked (auth.take colon) (auth.drop (colon + 1))

/-- What is in front of the first `c`, and what is behind it. -/
def splitAt (sv : Bytes) (c : UInt8) : Bytes × Bytes :=
  match svIndex sv c with
  | none => (sv, [])
  | some i => (sv.take i, sv.drop (i + 1))

def uriParse (text : Bytes) : Option Uri :=
  let (rest, fragment) := splitAt text 35
  let (rest, query) := splitAt rest 63
  let noScheme : Option Uri := some ⟨[], [], [], if rest = [] then ascii "/" else rest, query, fragment⟩
  match svIndex rest 58 with
  | none => noScheme
  | some colon =>
    if colon + 2 < rest.length ∧ rest[colon + 1]? = some 47 ∧ rest[colon + 2]? = some 47 then
      let scheme := rest.take colon
      if schemeOk scheme then
        let authority := rest.drop (colon + 3)
        let (auth, path) :=
          match svIndex authority 47 with
          | none => (authority, ascii "/")
          | some slash => (authority.take slash, authority.drop slash)
        (splitAuthority auth).map fun hp => ⟨scheme, hp.1, hp.2, path, query, fragment⟩
      else none
    else noScheme

def schemeEq (scheme name : Bytes) : Bool := scheme.map tolower == name.map tolower

def uriSchemeIs (u : Uri) (name : Bytes) : Bool := schemeEq u.scheme name

def uriDefaultPort (scheme : Bytes) : Int :=
  if schemeEq scheme (ascii "http") then 80
  else if schemeEq scheme (ascii "https") then 443
  else -1

end Uri

end Cweb
