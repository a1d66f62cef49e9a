import Cweb.Lib.ChunkGrammar

/-!
# Quoted strings

Section 5.6.4 of RFC 9110: text between quotation marks, where a quotation mark or
a backslash has a backslash in front of it, and any other character may have one.
-/

namespace QuotedString

open ChunkGrammar (isText)

def isSpecial (b : UInt8) : Bool := b == 34 || b == 92

/-- What is between the marks, with the text that it stands for. -/
inductive Inner : List UInt8 → List UInt8 → Prop where
  | nil : Inner [] []
  | char {b : UInt8} {content text : List UInt8} : isText b = true → isSpecial b = false →
    Inner content text → Inner (b :: content) (b :: text)
  | pair {b : UInt8} {content text : List UInt8} : isText b = true → Inner content text →
    Inner (b :: content) (92 :: b :: text)

def IsQuoted (content text : List UInt8) : Prop := ∃ inner, text = 34 :: (inner ++ [34]) ∧ Inner content inner

def escapeChar (b : UInt8) : List UInt8 := if isSpecial b then [92, b] else [b]

def escape (s : List UInt8) : List UInt8 := s.flatMap escapeChar

theorem escape_cons (b : UInt8) (s : List UInt8) : escape (b :: s) = escapeChar b ++ escape s := rfl

/-- The characters, and those that need one more in front. -/
def escapedLength (s : List UInt8) : Nat := s.length + s.countP isSpecial

theorem length_escapeChar (b : UInt8) : (escapeChar b).length = 1 + if isSpecial b then 1 else 0 := by
  rw [escapeChar]
  split <;> rfl

theorem escapedLength_cons (b : UInt8) (s : List UInt8) :
    escapedLength (b :: s) = (escapeChar b).length + escapedLength s := by
  rw [escapedLength, escapedLength, List.length_cons, List.countP_cons, length_escapeChar]
  omega

theorem inner_escape {s : List UInt8} (h : ∀ b ∈ s, isText b = true) : Inner s (escape s) := by
  induction s with
  | nil => exact .nil
  | cons b s ih =>
    obtain ⟨hText, hRest⟩ := List.forall_mem_cons.mp h
    rw [escape_cons, escapeChar]
    split
    · exact .pair hText (ih hRest)
    · next hPlain => exact .char hText (Bool.eq_false_iff.mpr hPlain) (ih hRest)

theorem Inner.isText {content text : List UInt8} (h : Inner content text) : ∀ b ∈ text, isText b = true := by
  induction h with
  | nil => exact fun b hb => absurd hb List.not_mem_nil
  | char hText _ _ ih => exact List.forall_mem_cons.mpr ⟨hText, ih⟩
  | pair hText _ ih => exact List.forall_mem_cons.mpr ⟨rfl, List.forall_mem_cons.mpr ⟨hText, ih⟩⟩

theorem not_mem_escape {b : UInt8} {s : List UInt8} (h : b ∉ s) (hMark : b ≠ 92) : b ∉ escape s := by
  intro hMem
  obtain ⟨c, hc, hChar⟩ := List.mem_flatMap.mp hMem
  rw [escapeChar] at hChar
  split at hChar
  · rcases List.mem_pair.mp hChar with rfl | rfl
    · exact hMark rfl
    · exact h hc
  · exact h (List.mem_singleton.mp hChar ▸ hc)

theorem mem_escape {b : UInt8} {s : List UInt8} (h : b ∈ s) : b ∈ escape s := by
  refine List.mem_flatMap.mpr ⟨b, h, ?_⟩
  rw [escapeChar]
  split <;> simp

theorem Inner.unique {content content' text : List UInt8} (h : Inner content text)
    (h' : Inner content' text) : content = content' := by
  induction h generalizing content' with
  | nil =>
    cases h'
    rfl
  | char _ hPlain _ ih =>
    cases h' with
    | char _ _ hRest => rw [ih hRest]
    | pair => cases hPlain
  | pair _ _ ih =>
    cases h' with
    | char _ hPlain => cases hPlain
    | pair _ hRest => rw [ih hRest]

end QuotedString
