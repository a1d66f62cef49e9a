import Cweb.Lib.JsonText
import Cweb.Utils.Sv

/-!
# JSON

The parser walks down a text and builds the tree as it goes. What it builds with
is a record: reading numbers is left to `strtod`, strings are owned copies that
read back as C strings, and members are set one after the other. Levels are
counted down from the deepest one, and loops have the rest of the text as fuel.
-/

namespace Cweb.Json

open Sv JsonText

abbrev JsonValue := JsonText.Value

variable {ν : Type}

def jsonMaxDepth : Nat := 512

/-- What was parsed and the rest of the text, or the reason. -/
abbrev Parsed (α : Type) := Except Bytes (α × Bytes)

def skipWs (s : Bytes) : Bytes := s.dropWhile fun c => c = 32 ∨ c = 9 ∨ c = 10 ∨ c = 13

/-! ## Strings -/

def hexVal (c : UInt8) : Option Nat :=
  if 48 ≤ c ∧ c ≤ 57 then some (c.toNat - 48)
  else if 97 ≤ c ∧ c ≤ 102 then some (c.toNat - 97 + 10)
  else if 65 ≤ c ∧ c ≤ 70 then some (c.toNat - 65 + 10)
  else none

def parseHex4 : Bytes → Parsed Nat
  | a :: b :: c :: d :: s =>
    match hexVal a, hexVal b, hexVal c, hexVal d with
    | some x, some y, some z, some w => .ok ((((x <<< 4 ||| y) <<< 4 ||| z) <<< 4) ||| w, s)
    | _, _, _, _ => .error (ascii "bad \\u escape")
  | _ => .error (ascii "truncated \\u escape")

def utf8Append (cp : Nat) : Bytes :=
  if cp < 0x80 then [UInt8.ofNat cp]
  else if cp < 0x800 then [UInt8.ofNat (0xC0 ||| cp >>> 6), UInt8.ofNat (0x80 ||| cp &&& 0x3F)]
  else if cp < 0x10000 then
    [UInt8.ofNat (0xE0 ||| cp >>> 12), UInt8.ofNat (0x80 ||| cp >>> 6 &&& 0x3F),
      UInt8.ofNat (0x80 ||| cp &&& 0x3F)]
  else
    [UInt8.ofNat (0xF0 ||| cp >>> 18), UInt8.ofNat (0x80 ||| cp >>> 12 &&& 0x3F),
      UInt8.ofNat (0x80 ||| cp >>> 6 &&& 0x3F),
      UInt8.ofNat (0x80 ||| cp &&& 0x3F)]

/-- A high surrogate must be followed by a low one. -/
def parseLow (cp : Nat) : Bytes → Parsed Bytes
  | 92 :: 117 :: s =>
    match parseHex4 s with
    | .error why => .error why
    | .ok (lo, s) =>
      if 0xDC00 ≤ lo ∧ lo ≤ 0xDFFF then .ok (utf8Append (0x10000 + (cp - 0xD800) <<< 10 + (lo - 0xDC00)), s)
      else .error (ascii "lone high surrogate")
  | _ => .error (ascii "lone high surrogate")

/-- What follows `\u`. -/
def parseUnicode (s : Bytes) : Parsed Bytes :=
  match parseHex4 s with
  | .error why => .error why
  | .ok (cp, s) =>
    if 0xD800 ≤ cp ∧ cp ≤ 0xDBFF then parseLow cp s
    else if 0xDC00 ≤ cp ∧ cp ≤ 0xDFFF then .error (ascii "lone low surrogate")
    else .ok (utf8Append cp, s)

def parseEscape : Bytes → Parsed Bytes
  | [] => .error (ascii "truncated escape")
  | e :: s =>
    if e = 34 ∨ e = 92 ∨ e = 47 then .ok ([e], s)
    else if e = 98 then .ok ([8], s)
    else if e = 102 then .ok ([12], s)
    else if e = 110 then .ok ([10], s)
    else if e = 114 then .ok ([13], s)
    else if e = 116 then .ok ([9], s)
    else if e = 117 then parseUnicode s
    else .error (ascii "unknown escape")

def stringLoop : Nat → Bytes → Bytes → Parsed Bytes
  | 0, _, _ => .error []
  | _ + 1, _, [] => .error (ascii "unterminated string")
  | fuel + 1, out, c :: s =>
    if c = 34 then .ok (out, s)
    else if c = 92 then
      match parseEscape s with
      | .error why => .error why
      | .ok (bytes, s) => stringLoop fuel (out ++ bytes) s
    else if c < 0x20 then .error (ascii "control character in string")
    else stringLoop fuel (out ++ [c]) s

def parseStringRaw : Bytes → Parsed Bytes
  | 34 :: s => stringLoop (s.length + 1) [] s
  | _ => .error (ascii "expected a string")

/-! ## Numbers -/

/-- At least one digit has to come, and all that come are taken. -/
def skipDigits (why p : Bytes) : Except Bytes Bytes :=
  match p with
  | [] => .error why
  | c :: _ => if isdigit c then .ok (p.dropWhile isdigit) else .error why

def dropSign (signs : List UInt8) (s : Bytes) : Bytes :=
  match s with
  | [] => []
  | c :: rest => if c ∈ signs then rest else s

def scanFraction (p : Bytes) : Except Bytes Bytes :=
  match p with
  | 46 :: q => skipDigits (ascii "malformed number") q
  | _ => .ok p

def scanExponent (p : Bytes) : Except Bytes Bytes :=
  match p with
  | [] => .ok p
  | e :: q =>
    if e = 101 ∨ e = 69 then skipDigits (ascii "malformed exponent") (dropSign [43, 45] q) else .ok p

def scanNumber (s : Bytes) : Except Bytes Bytes :=
  match skipDigits (ascii "malformed number") (dropSign [45] s) with
  | .error why => .error why
  | .ok p =>
    match scanFraction p with
    | .error why => .error why
    | .ok p => scanExponent p

def parseNumber (number : Bytes → ν) (s : Bytes) : Parsed (JsonValue ν) :=
  match scanNumber s with
  | .error why => .error why
  | .ok p =>
    let len := s.length - p.length
    if 64 ≤ len then .error (ascii "number too long") else .ok (.number (number (s.take len)), p)

/-! ## Containers -/

def setMember (key : Bytes) (child : JsonValue ν) : List (Bytes × JsonValue ν) → List (Bytes × JsonValue ν)
  | [] => [(key, child)]
  | (k, v) :: members => if k = key then (k, child) :: members else (k, v) :: setMember key child members

def jsonObjectSet (members : List (Bytes × JsonValue ν)) (key : Bytes) (child : JsonValue ν) :
    List (Bytes × JsonValue ν) :=
  setMember (svFromCstr key) child members

/-- What the parser builds with. -/
structure Builder (ν : Type) where
  number : Bytes → ν
  text : Bytes → Bytes
  set : List (Bytes × JsonValue ν) → Bytes → JsonValue ν → List (Bytes × JsonValue ν)

/-- Nodes own C strings. -/
def owned (strtod : Bytes → ν) : Builder ν := ⟨strtod, svFromCstr, jsonObjectSet⟩

/-- Elements between commas, up to the closing bracket. -/
def elementsLoop {α σ : Type} (element : Bytes → Parsed α) (add : σ → α → σ) (close : UInt8)
    (unterminated expected : Bytes) :
    Nat → σ → Bytes → Parsed σ
  | 0, _, _ => .error []
  | fuel + 1, done, s =>
    match element s with
    | .error why => .error why
    | .ok (x, s) =>
      match skipWs s with
      | [] => .error unterminated
      | c :: s =>
        if c = 44 then elementsLoop element add close unterminated expected fuel (add done x) s
        else if c = close then .ok (add done x, s)
        else .error expected

/-- Behind the opening bracket; there may be no elements at all. -/
def parseElements {α σ : Type} (element : Bytes → Parsed α) (add : σ → α → σ) (close : UInt8)
    (unterminated expected : Bytes)
    (empty : σ) (s : Bytes) : Parsed σ :=
  match skipWs s with
  | [] => elementsLoop element add close unterminated expected (s.length + 1) empty []
  | c :: rest =>
    if c = close then .ok (empty, rest)
    else elementsLoop element add close unterminated expected (s.length + 1) empty (c :: rest)

def parseArray (value : Bytes → Parsed (JsonValue ν)) (s : Bytes) : Parsed (JsonValue ν) :=
  (parseElements value (fun items item => items ++ [item]) 93 (ascii "unterminated array")
    (ascii "expected , or ] in array")
    [] s).map fun r => (.array r.1, r.2)

def parseKey (s : Bytes) : Parsed Bytes :=
  if (skipWs s).head? ≠ some 34 then .error (ascii "object keys must be strings")
  else
    match parseStringRaw (skipWs s) with
    | .error why => .error why
    | .ok (key, s) =>
      match skipWs s with
      | [] => .error (ascii "expected : after object key")
      | c :: s => if c = 58 then .ok (key, s) else .error (ascii "expected : after object key")

def parseMember (value : Bytes → Parsed (JsonValue ν)) (s : Bytes) : Parsed (Bytes × JsonValue ν) :=
  match parseKey s with
  | .error why => .error why
  | .ok (key, s) => (value s).map fun r => ((key, r.1), r.2)

def parseObject (b : Builder ν) (value : Bytes → Parsed (JsonValue ν)) (s : Bytes) : Parsed (JsonValue ν) :=
  (parseElements (parseMember value) (fun members m => b.set members m.1 m.2) 125
    (ascii "unterminated object")
    (ascii "expected , or \x7d in object") [] s).map fun r => (.object r.1, r.2)

def parseWord (word : Bytes) (v : JsonValue ν) (s : Bytes) : Parsed (JsonValue ν) :=
  if word.isPrefixOf s then .ok (v, s.drop word.length) else .error (ascii "expected a JSON value")

/-- With the number of levels that are left. -/
def parseValue (b : Builder ν) : Nat → Bytes → Parsed (JsonValue ν)
  | 0, _ => .error (ascii "nesting too deep")
  | levels + 1, s =>
    match skipWs s with
    | [] => .error (ascii "unexpected end of input")
    | c :: rest =>
      if c = 123 then parseObject b (parseValue b levels) rest
      else if c = 91 then parseArray (parseValue b levels) rest
      else if c = 34 then (parseStringRaw (c :: rest)).map fun r => (.string (b.text r.1), r.2)
      else if c = 110 then parseWord (ascii "null") .null (c :: rest)
      else if c = 116 then parseWord (ascii "true") (.bool true) (c :: rest)
      else if c = 102 then parseWord (ascii "false") (.bool false) (c :: rest)
      else if c = 45 ∨ isdigit c then parseNumber b.number (c :: rest)
      else .error (ascii "expected a JSON value")

def parseWhole (b : Builder ν) (src : Bytes) : Except Bytes (JsonValue ν) :=
  match parseValue b (jsonMaxDepth + 1) (skipWs src) with
  | .error why => .error why
  | .ok (root, s) => if skipWs s = [] then .ok root else .error (ascii "trailing characters after value")

def jsonParse (strtod : Bytes → ν) (src : Bytes) : Except Bytes (JsonValue ν) := parseWhole (owned strtod) src

/-! ## Serialization -/

def serChar (c : UInt8) : Bytes :=
  if c = 34 then [92, 34]
  else if c = 92 then [92, 92]
  else if c = 8 then [92, 98]
  else if c = 12 then [92, 102]
  else if c = 10 then [92, 110]
  else if c = 13 then [92, 114]
  else if c = 9 then [92, 116]
  else if c < 0x20 then [92, 117, 48, 48, hexDigitChar (c.toNat / 16), hexDigitChar (c.toNat % 16)]
  else [c]

def serString (s : Bytes) : Bytes := 34 :: ((svFromCstr s).flatMap serChar ++ [34])

/-- The product is one of C ints. -/
def indent (depth : Nat) (spaces : Int) : Bytes :=
  10 :: List.replicate ((depth * spaces).bmod (2 ^ 32)).toNat 32

section Ser

variable (print : ν → Bytes) (spaces : Int)

def lead (depth : Nat) : Bytes := if 0 < spaces then indent depth spaces else []

mutual

def ser (depth : Nat) : JsonValue ν → Bytes
  | .null => ascii "null"
  | .bool b => if b then ascii "true" else ascii "false"
  | .number n => svFromCstr ((print n).take 63)
  | .string s => serString s
  | .array items =>
    91 :: (commas (serItems (depth + 1) items) ++ ((if items = [] then [] else lead spaces depth) ++ [93]))
  | .object members =>
    123 :: (commas (serMembers (depth + 1) members) ++
      ((if members = [] then [] else lead spaces depth) ++ [125]))

def serItems (depth : Nat) : List (JsonValue ν) → List Bytes
  | [] => []
  | v :: items => (lead spaces depth ++ ser depth v) :: serItems depth items

def serMembers (depth : Nat) : List (Bytes × JsonValue ν) → List Bytes
  | [] => []
  | (key, v) :: members =>
    (lead spaces depth ++
      (serString key ++ ((if 0 < spaces then ascii ": " else ascii ":") ++ ser depth v))) ::
      serMembers depth members

end

end Ser

def jsonSerialize (print : ν → Bytes) (v : JsonValue ν) : Bytes := ser print 0 0 v

def jsonSerializePretty (print : ν → Bytes) (spaces : Int) (v : JsonValue ν) : Bytes :=
  ser print (if spaces < 1 then 1 else spaces) 0 v

end Cweb.Json
