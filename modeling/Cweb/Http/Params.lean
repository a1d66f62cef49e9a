import Cweb.Http.Message
import Cweb.Utils.StrMap

/-!
# Request parameters

The parameters of a request come from its query and from the fields of a form
body, percent-decoded or cut out of a multipart body. Later sources win.
-/

namespace Cweb

open Sv

/-! ## Percent encoding -/

def hexval (c : UInt8) : Option Nat :=
  if 48 ≤ c ∧ c ≤ 57 then some (c.toNat - 48)
  else if 97 ≤ c ∧ c ≤ 102 then some (c.toNat - 97 + 10)
  else if 65 ≤ c ∧ c ≤ 70 then some (c.toNat - 65 + 10)
  else none

def urlDecode : Bytes → Option Bytes
  | [] => some []
  | 37 :: rest =>
    match rest with
    | a :: b :: rest =>
      match hexval a, hexval b with
      | some hi, some lo => (urlDecode rest).map fun out => UInt8.ofNat (hi * 16 + lo) :: out
      | _, _ => none
    | _ => none
  | c :: rest => (urlDecode rest).map fun out => (if c = 43 then 32 else c) :: out

/-- One pair, stored by `set`. -/
def paramsPairWith (set : StrMap → Bytes → Bytes → Option StrMap) (m : StrMap) (pair : Bytes) :
    Option StrMap :=
  if pair = [] then some m
  else
    match urlDecode (pair.takeWhile (· ≠ 61)), urlDecode ((pair.dropWhile (· ≠ 61)).drop 1) with
    | some key, some value => set m (svFromCstr key) (svFromCstr value)
    | _, _ => none

def paramsPair : StrMap → Bytes → Option StrMap :=
  paramsPairWith fun m key value => some (strmapSet m key value)

def paramsParseInto (m : StrMap) (s : Bytes) : Option StrMap := (svSplit 38 s).foldlM paramsPair m

/-! ## Multipart bodies -/

def multipartMaxBoundary : Nat := 200

def unquoteValue (value : Bytes) : Bytes :=
  if 2 ≤ value.length ∧ value.head? = some 34 ∧ value.getLast? = some 34 then (value.drop 1).dropLast
  else value

/-- The first parameter called `boundary` decides. -/
def boundaryParam : List Bytes → Option Bytes
  | [] => none
  | param :: params =>
    let param := svTrim param
    if svTrim (svChopByDelim 61 param).1 = ascii "boundary" then
      let value := unquoteValue (svTrim (svChopByDelim 61 param).2)
      if value = [] ∨ multipartMaxBoundary ≤ value.length then none else some (svFromCstr value)
    else boundaryParam params

def multipartBoundary (header : Bytes) : Option Bytes :=
  let value := svTrim header
  if svTrim (svChopByDelim 59 value).1 = ascii "multipart/form-data" then
    boundaryParam (svSplit 59 (svChopByDelim 59 value).2)
  else none

/-- Where the `--` of the next delimiter behind `start` is. -/
def findDelimiter (body : Bytes) (start : Nat) (boundary : Bytes) : Option Nat :=
  let mark := ascii "\r\n--" ++ boundary
  ((List.range (body.length + 1)).find? fun i =>
    decide (start ≤ i) && decide (i + boundary.length + 6 ≤ body.length) && mark.isPrefixOf (body.drop i) &&
      ((ascii "\r\n").isPrefixOf (body.drop (i + mark.length)) ||
        (ascii "--").isPrefixOf (body.drop (i + mark.length)))).map (· + 2)

/-- The quotes are taken for granted at the far end. -/
def unquote (value : Bytes) : Bytes :=
  if 2 ≤ value.length ∧ value.head? = some 34 then (value.drop 1).dropLast else value

structure MultipartPart where
  name : Bytes
  filename : Bytes
  content : Bytes
deriving DecidableEq, Repr

def parseDisposition (value : Bytes) : Bytes × Bytes :=
  ((svSplit 59 value).drop 1).foldl (fun names param =>
    let param := svTrim param
    let key := svTrim (svChopByDelim 61 param).1
    let val := unquote (svTrim (svChopByDelim 61 param).2)
    if key = ascii "name" then (val, names.2)
    else if key = ascii "filename" then (names.1, val) else names) ([], [])

/-- Name and filename of a part, from its last Content-Disposition line. -/
def parsePartHeaders (block : Bytes) : Bytes × Bytes :=
  (svSplit 10 block).foldl (fun names line =>
    let line := svTrim line
    let key := svTrimRight (line.takeWhile (· ≠ 58))
    if 58 ∈ line ∧ svFromCstr ((key.take 255).map tolower) = ascii "content-disposition" then
      parseDisposition (svTrim ((line.dropWhile (· ≠ 58)).drop 1))
    else names) ([], [])

def findBlankLine (body : Bytes) (start : Nat) : Option Nat :=
  (List.range body.length).find? fun i => decide (start ≤ i) && (ascii "\r\n\r\n").isPrefixOf (body.drop i)

/-- Each part moves `pos` on, so the length of the body is fuel enough. -/
def multipartLoop (body boundary : Bytes) : Nat → Nat → Option (List MultipartPart)
  | 0, _ => none
  | fuel + 1, pos =>
    if (ascii "--").isPrefixOf (body.drop pos) then some []
    else if ¬ (ascii "\r\n").isPrefixOf (body.drop pos) then none
    else
      match findBlankLine body (pos + 2) with
      | none => none
      | some hEnd =>
        let names := parsePartHeaders ((body.drop (pos + 2)).take (hEnd - (pos + 2)))
        match findDelimiter body (hEnd + 4) boundary with
        | none => none
        | some delim =>
          (multipartLoop body boundary fuel (delim + 2 + boundary.length)).map fun parts =>
            ⟨names.1, names.2, (body.drop (hEnd + 4)).take (delim - 2 - (hEnd + 4))⟩ :: parts

def multipartParse (body boundary : Bytes) : Option (List MultipartPart) :=
  if boundary = [] ∨ multipartMaxBoundary < boundary.length then none
  else if ¬ (ascii "--" ++ boundary).isPrefixOf body then none
  else multipartLoop body boundary (body.length + 1) (2 + boundary.length)

/-! ## Merging -/

def paramsOfParts (m : StrMap) (parts : List MultipartPart) : StrMap :=
  parts.foldl (fun m part => if part.filename = [] then strmapSet m part.name part.content else m) m

def requestMergeParams (req : HttpRequest) (m : StrMap) : Option StrMap :=
  match if req.query = [] then some m else paramsParseInto m req.query with
  | none => none
  | some m =>
    match httpRequestGetHeader req (ascii "content-type") with
    | none => some m
    | some contentType =>
      if svStartsWith contentType (ascii "application/x-www-form-urlencoded") then paramsParseInto m req.body
      else if svStartsWith contentType (ascii "multipart/form-data") then
        match multipartBoundary contentType with
        | none => none
        | some boundary => (multipartParse req.body boundary).map (paramsOfParts m)
      else some m

end Cweb
