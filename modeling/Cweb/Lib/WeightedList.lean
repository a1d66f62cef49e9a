import Cweb.Lib.ChunkGrammar
import Mathlib.Algebra.Order.Field.Rat

/-!
# Lists with weights

Sections 5.6.1 and 12.4.2 of RFC 9110: tokens between commas, each perhaps with
a weight from 0 to 1. Members of the list may be empty.
-/

namespace WeightedList

open ChunkGrammar (IsToken IsWhitespace isTchar)

def isDigit (b : UInt8) : Bool := 48 ≤ b && b ≤ 57

/-- A zero or a one, and up to three digits, zeros behind a one. -/
structure QValue where
  one : Bool
  fraction : Option (List UInt8)
  short : ∀ ds ∈ fraction, ds.length ≤ 3
  digits : ∀ ds ∈ fraction, ∀ b ∈ ds, isDigit b = true
  zeros : one = true → ∀ ds ∈ fraction, ∀ b ∈ ds, b = 48

def QValue.text (q : QValue) : List UInt8 := (if q.one then 49 else 48) :: q.fraction.elim [] fun ds =>
    46 :: ds

def QValue.value (q : QValue) : ℚ :=
  (if q.one then 1 else 0) + q.fraction.elim 0 fun ds =>
    ((ds.foldl (fun n c => n * 10 + (c.toNat - 48)) 0 : Nat) : ℚ) / 10 ^ ds.length

/-- The letter in front of the weight may be in upper case. -/
structure Weight where
  left : List UInt8
  right : List UInt8
  upper : Bool
  q : QValue
  left_blank : IsWhitespace left
  right_blank : IsWhitespace right

def Weight.key (w : Weight) : List UInt8 := w.left ++ 59 :: (w.right ++ [if w.upper then 81 else 113])

def Weight.text (w : Weight) : List UInt8 := w.key ++ 61 :: w.q.text

structure Element where
  name : List UInt8
  weight : Option Weight
  token : IsToken name

def Element.text (e : Element) : List UInt8 := e.name ++ e.weight.elim [] Weight.text

/-- What stands between two commas. -/
structure Piece where
  before : List UInt8
  element : Option Element
  after : List UInt8
  before_blank : IsWhitespace before
  after_blank : IsWhitespace after

def Piece.text (p : Piece) : List UInt8 := p.before ++ p.element.elim [] Element.text ++ p.after

/-- The elements of a list, the empty ones left out. -/
def elements (pieces : List Piece) : List Element := pieces.filterMap Piece.element

/-! ## Characters -/

/-- Neither in blanks nor in a token. -/
def IsMark (c : UInt8) : Prop := c ≠ 9 ∧ c ≠ 32 ∧ isTchar c = false

theorem IsMark.not_mem_blank {c : UInt8} (h : IsMark c) {s : List UInt8} (hs : IsWhitespace s) : c ∉ s := by
  intro hc
  rcases hs c hc with rfl | rfl
  · exact h.1 rfl
  · exact h.2.1 rfl

theorem IsMark.not_mem_token {c : UInt8} (h : IsMark c) {s : List UInt8} (hs : IsToken s) : c ∉ s := by
  intro hc
  exact Bool.false_ne_true (h.2.2.symm.trans (hs.2 c hc))

theorem isTchar_of_isDigit {b : UInt8} (h : isDigit b = true) : isTchar b = true := by
  simp only [isDigit, Bool.and_eq_true] at h
  simp [isTchar, ChunkGrammar.isAlnum, h]

theorem QValue.isTchar_text (q : QValue) : ∀ c ∈ q.text, isTchar c = true := by
  have hZero : isTchar 48 = true := by decide
  have hOne : isTchar 49 = true := by decide
  have hPoint : isTchar 46 = true := by decide
  intro c hc
  rw [QValue.text] at hc
  rcases List.mem_cons.mp hc with rfl | hc
  · split <;> assumption
  · cases hFraction : q.fraction with
    | none =>
      rw [hFraction] at hc
      cases hc
    | some ds =>
      rw [hFraction] at hc
      rcases List.mem_cons.mp hc with rfl | hc
      · exact hPoint
      · exact isTchar_of_isDigit (q.digits ds hFraction c hc)

theorem IsMark.not_mem_qvalue {c : UInt8} (h : IsMark c) (q : QValue) : c ∉ q.text :=
  fun hc => Bool.false_ne_true (h.2.2.symm.trans (q.isTchar_text c hc))

theorem IsMark.not_mem_key {c : UInt8} (h : IsMark c) (hSemi : c ≠ 59) (w : Weight) : c ∉ w.key := by
  have hUpper : isTchar 81 = true := by decide
  have hLower : isTchar 113 = true := by decide
  rw [Weight.key, List.mem_append, List.mem_cons, List.mem_append, List.mem_singleton]
  rintro (hc | hc | hc | rfl)
  · exact h.not_mem_blank w.left_blank hc
  · exact hSemi hc
  · exact h.not_mem_blank w.right_blank hc
  · have hIs := h.2.2
    split at hIs
    · exact Bool.false_ne_true (hIs.symm.trans hUpper)
    · exact Bool.false_ne_true (hIs.symm.trans hLower)

theorem isMark_comma : IsMark 44 := ⟨by decide, by decide, by decide⟩

theorem isMark_equals : IsMark 61 := ⟨by decide, by decide, by decide⟩

theorem comma_not_mem (p : Piece) : 44 ∉ p.text := by
  rw [Piece.text, List.mem_append, List.mem_append]
  rintro ((hc | hc) | hc)
  · exact isMark_comma.not_mem_blank p.before_blank hc
  · cases hElement : p.element with
    | none =>
      rw [hElement] at hc
      cases hc
    | some e =>
      rw [hElement, Option.elim_some, Element.text, List.mem_append] at hc
      rcases hc with hc | hc
      · exact isMark_comma.not_mem_token e.token hc
      · cases hWeight : e.weight with
        | none =>
          rw [hWeight] at hc
          cases hc
        | some w =>
          rw [hWeight, Option.elim_some, Weight.text, List.mem_append, List.mem_cons] at hc
          rcases hc with hc | hc | hc
          · exact isMark_comma.not_mem_key (by decide) w hc
          · exact absurd hc (by decide)
          · exact isMark_comma.not_mem_qvalue w.q hc
  · exact isMark_comma.not_mem_blank p.after_blank hc

end WeightedList
