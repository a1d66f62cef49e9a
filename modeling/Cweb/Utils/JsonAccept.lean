import Cweb.Utils.JsonParse

/-!
# What is accepted

The parser takes zeros in front of a number, which RFC 8259 does not have. Apart
from texts with such numbers it accepts the texts of the RFC that are not nested
too deep and whose numbers are not too long.
-/

namespace Cweb.Json

open Sv JsonText

/-- A number of the RFC that is not too long. -/
def Standard (s : Bytes) : Prop := IsNumber JsonText.Whole s ∧ s.length ≤ 63

def StandardText (s : Bytes) : Prop := ∃ tree, IsText Standard s tree ∧ tree.Within jsonMaxDepth

/-- No number has a zero in front of another digit. -/
def NoZeroLed (tree : JsonValue Bytes) : Prop :=
  tree.Every (fun n => ¬ ZeroLed n) (fun _ => True) (fun _ => True)

theorem isText_standard_iff (s : Bytes) (tree : JsonValue Bytes) : IsText Standard s tree ↔
    IsText Accepted s tree ∧ NoZeroLed tree := by
  have hNumber : Standard = fun n => Accepted n ∧ ¬ ZeroLed n := by
    funext n
    rw [Standard, whole_iff, Accepted, and_right_comm]
  rw [hNumber]
  constructor
  · rintro ⟨before, text, after, rfl, hBefore, hAfter, hIs⟩
    obtain ⟨hAccepted, hEvery⟩ := isValue_and_iff.mp hIs
    exact ⟨⟨before, text, after, rfl, hBefore, hAfter, hAccepted⟩, hEvery⟩
  · rintro ⟨⟨before, text, after, rfl, hBefore, hAfter, hAccepted⟩, hEvery⟩
    exact ⟨before, text, after, rfl, hBefore, hAfter, isValue_and_iff.mpr ⟨hAccepted, hEvery⟩⟩

theorem standardText_iff (s : Bytes) : StandardText s ↔ ∃ tree, Reads s tree ∧ NoZeroLed tree := by
  constructor
  · rintro ⟨tree, hText, hWithin⟩
    obtain ⟨hAccepted, hEvery⟩ := (isText_standard_iff s tree).mp hText
    exact ⟨tree, ⟨hAccepted, hWithin⟩, hEvery⟩
  · rintro ⟨tree, ⟨hAccepted, hWithin⟩, hEvery⟩
    exact ⟨tree, (isText_standard_iff s tree).mpr ⟨hAccepted, hEvery⟩, hWithin⟩

theorem jsonParse_accepts_iff (strtod : Bytes → ν) (s : Bytes) : (∃ v, jsonParse strtod s = .ok v) ↔
    ∃ tree, Reads s tree := by
  constructor
  · rintro ⟨v, h⟩
    obtain ⟨tree, hReads, _⟩ := (parseWhole_ok_iff _ _ _).mp h
    exact ⟨tree, hReads⟩
  · rintro ⟨tree, hReads⟩
    exact ⟨_, (parseWhole_ok_iff _ _ _).mpr ⟨tree, hReads, rfl⟩⟩

/-- The parser accepts a text when it is one of the RFC, and only then, exactly when
the text cannot be read with a number that has leading zeros. -/
theorem json_accepts_standard_iff (strtod : Bytes → ν) (s : Bytes) :
    ((∃ v, jsonParse strtod s = .ok v) ↔ StandardText s) ↔ ∀ tree, Reads s tree → NoZeroLed tree := by
  rw [jsonParse_accepts_iff, standardText_iff]
  constructor
  · intro hSame tree hReads
    obtain ⟨tree', hReads', hEvery⟩ := hSame.mp ⟨tree, hReads⟩
    rwa [hReads.unique hReads']
  · intro hAll
    constructor
    · rintro ⟨tree, hReads⟩
      exact ⟨tree, hReads, hAll tree hReads⟩
    · rintro ⟨tree, hReads, _⟩
      exact ⟨tree, hReads⟩

/-- What `strtod` makes of digits. -/
def readDecimal (s : Bytes) : Nat := s.foldl (fun n c => n * 10 + (c.toNat - 48)) 0

theorem json_accepts_leading_zero : jsonParse readDecimal (ascii "[01]") = .ok (.array [.number 1]) ∧
    ¬ StandardText (ascii "[01]") := by
  refine ⟨rfl, ?_⟩
  rw [standardText_iff]
  rintro ⟨tree, hReads, hEvery⟩
  have hTree := (parseWhole_ok_iff plain (ascii "[01]") (plain.build tree)).mpr ⟨tree, hReads, rfl⟩
  rw [build_plain] at hTree
  obtain rfl : (.array [.number (ascii "01")] : JsonValue Bytes) = tree := Except.ok.inj hTree
  cases hEvery with
  | array hItems =>
    cases hItems _ List.mem_cons_self with
    | number hNot => exact hNot ⟨[], 49, [], rfl, .inl rfl, rfl⟩

end Cweb.Json
