import Mathlib.Data.List.Infix
import Mathlib.Data.List.TakeWhile

/-!
# The grammar of chunked bodies

Section 7.1 of RFC 9112: chunks of a size in hexadecimal digits, a last chunk of
size zero, a section of trailers and an empty line. What may stand in front of a
size and what may follow it are parameters, so that a decoder which is more
liberal in either place has a grammar as well. Sizes are numbers without a bound.
-/

namespace ChunkGrammar

/-! ## Sizes -/

def digitValue (c : UInt8) : Option Nat :=
  if 48 ≤ c ∧ c ≤ 57 then some (c.toNat - 48)
  else if 65 ≤ c ∧ c ≤ 70 then some (c.toNat - 55)
  else if 97 ≤ c ∧ c ≤ 102 then some (c.toNat - 87)
  else none

/-- The digits as a number, behind the digits of `n`. -/
def numberFrom (n : Nat) (digits : List UInt8) : Nat :=
  digits.foldl (fun n c => n * 16 + (digitValue c).getD 0) n

def number (digits : List UInt8) : Nat := numberFrom 0 digits

structure IsSize (digits : List UInt8) : Prop where
  some : digits ≠ []
  hex : ∀ c ∈ digits, (digitValue c).isSome = true

/-! ## Tokens, extensions and trailers -/

def isAlnum (b : UInt8) : Bool := (48 ≤ b && b ≤ 57) || (65 ≤ b && b ≤ 90) || (97 ≤ b && b ≤ 122)

/-- Letters, digits and the marks that a token may have. -/
def isTchar (b : UInt8) : Bool :=
  isAlnum b || [33, 35, 36, 37, 38, 39, 42, 43, 45, 46, 94, 95, 96, 124, 126].contains b

def IsToken (text : List UInt8) : Prop := text ≠ [] ∧ ∀ b ∈ text, isTchar b = true

def IsWhitespace (text : List UInt8) : Prop := ∀ b ∈ text, b = 9 ∨ b = 32

/-- What may stand in a field's value. -/
def isText (b : UInt8) : Bool := b == 9 || (32 ≤ b && b != 127)

/-- The inside of a quoted string, with the closing quotation mark. -/
inductive Quoted : List UInt8 → Prop where
  | close : Quoted [34]
  | char {b : UInt8} {text : List UInt8} : isText b = true → b ≠ 34 → b ≠ 92 → Quoted text →
    Quoted (b :: text)
  | pair {b : UInt8} {text : List UInt8} : isText b = true → Quoted text → Quoted (92 :: b :: text)

def IsExtensionValue (text : List UInt8) : Prop := IsToken text ∨ ∃ rest, text = 34 :: rest ∧ Quoted rest

/-- Any number of extensions, each with a semicolon, a name and perhaps a value. -/
inductive Extensions : List UInt8 → Prop where
  | nil : Extensions []
  | name {before after name rest : List UInt8} : IsWhitespace before → IsWhitespace after →
    IsToken name → Extensions rest →
      Extensions (before ++ (59 :: (after ++ (name ++ rest))))
  | value {before after name left right value rest : List UInt8} : IsWhitespace before →
    IsWhitespace after → IsToken name →
      IsWhitespace left → IsWhitespace right → IsExtensionValue value → Extensions rest →
      Extensions (before ++ (59 :: (after ++ (name ++ (left ++ (61 :: (right ++ (value ++ rest))))))))

/-- A name, a colon and a value with whitespace around it. -/
def IsFieldLine (text : List UInt8) : Prop :=
  ∃ name value, text = name ++ 58 :: value ∧ IsToken name ∧ ∀ b ∈ value, isText b = true

inductive Trailers : List UInt8 → Prop where
  | nil : Trailers []
  | cons {line rest : List UInt8} : IsFieldLine line → Trailers rest → Trailers (line ++ (13 :: 10 :: rest))

/-! ## Bodies -/

/-- The text of a body and its payload. `Lead` is what may stand in front of a size
and `Ext` what may follow it. -/
inductive Body (Lead Ext : List UInt8 → Prop) : List UInt8 → List UInt8 → Prop where
  | last {lead digits ext trailers : List UInt8} : Lead lead → IsSize digits → Ext ext →
    number digits = 0 → Trailers trailers →
      Body Lead Ext (lead ++ (digits ++ (ext ++ (13 :: 10 :: (trailers ++ [13, 10]))))) []
  | chunk {lead digits ext data text payload : List UInt8} : Lead lead → IsSize digits → Ext ext →
    number digits = data.length →
      data ≠ [] → Body Lead Ext text payload →
      Body Lead Ext (lead ++ (digits ++ (ext ++ (13 :: 10 :: (data ++ (13 :: 10 :: text))))))
        (data ++ payload)

def Rfc : List UInt8 → List UInt8 → Prop := Body (· = []) Extensions

theorem Rfc.head {text payload : List UInt8} (h : Rfc text payload) : ∃ c rest, text = c :: rest ∧
    (digitValue c).isSome = true := by
  have hDigit : ∀ {digits more : List UInt8}, IsSize digits → ∃ c rest, digits ++ more = c :: rest ∧
    (digitValue c).isSome = true := by
    intro digits more hSize
    cases digits with
    | nil => exact absurd rfl hSize.some
    | cons c digits => exact ⟨c, digits ++ more, rfl, hSize.hex c List.mem_cons_self⟩
  cases h with
  | last hLead hSize =>
    rw [hLead, List.nil_append]
    exact hDigit hSize
  | chunk hLead hSize =>
    rw [hLead, List.nil_append]
    exact hDigit hSize

end ChunkGrammar
