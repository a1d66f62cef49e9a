import Mathlib.Data.List.Basic
import Mathlib.Order.Basic

/-!
# Segments of a text

The segments of a text are its non-empty pieces between separators. A list of
segments is written with one separator between two of them, and what was
written last is found again by a scan back to the last separator.
-/

namespace Segments

variable {α : Type*} {sep : α}

/-! ## Texts -/

def text (sep : α) (segs : List (List α)) : List α := [sep].intercalate segs

theorem text_nil : text sep [] = [] := rfl

theorem text_singleton (seg : List α) : text sep [seg] = seg := List.intercalate_singleton

theorem text_cons {seg : List α} {segs : List (List α)} (h : segs ≠ []) :
    text sep (seg :: segs) = seg ++ sep :: text sep segs := by
  rw [text, List.intercalate_cons_of_ne_nil h, List.append_assoc]
  rfl

theorem text_concat {segs : List (List α)} (h : segs ≠ []) (seg : List α) :
    text sep (segs ++ [seg]) = text sep segs ++ sep :: seg := by
  induction segs with
  | nil => exact absurd rfl h
  | cons first segs ih =>
    cases segs with
    | nil =>
      rw [List.cons_append, List.nil_append, text_cons (List.cons_ne_nil _ _), text_singleton, text_singleton]
    | cons second segs =>
      rw [List.cons_append, text_cons (List.append_ne_nil_of_right_ne_nil _ (List.cons_ne_nil _ _)),
        ih (List.cons_ne_nil _ _), text_cons (List.cons_ne_nil _ _), List.append_assoc, List.cons_append]

theorem mem_text_iff {x : α} (hx : x ≠ sep) (segs : List (List α)) : x ∈ text sep segs ↔
    ∃ seg ∈ segs, x ∈ seg := by
  induction segs with
  | nil => simp [text_nil]
  | cons seg segs ih =>
    rcases List.eq_nil_or_concat' segs with rfl | ⟨below, top, rfl⟩
    · simp [text_singleton]
    · rw [text_cons (List.append_ne_nil_of_right_ne_nil _ (List.cons_ne_nil _ _)), List.mem_append,
        List.mem_cons, ih]
      simp [hx]

theorem cut_cases {a b s t : List α} (h : a ++ sep :: s = b ++ sep :: t) :
    a = b ∧ s = t ∨ (∃ rest, b = a ++ sep :: rest ∧ s = rest ++ sep :: t) ∨
      ∃ rest, a = b ++ sep :: rest ∧ t = rest ++ sep :: s := by
  rcases List.append_eq_append_iff.mp h with ⟨mid, rfl, hMid⟩ | ⟨mid, rfl, hMid⟩
  · cases mid with
    | nil => exact .inl ⟨(List.append_nil _).symm, (List.cons.inj hMid).2⟩
    | cons x rest =>
      obtain ⟨rfl, hRest⟩ := List.cons.inj hMid
      exact .inr (.inl ⟨rest, rfl, hRest⟩)
  · cases mid with
    | nil => exact .inl ⟨List.append_nil _, (List.cons.inj hMid).2.symm⟩
    | cons x rest =>
      obtain ⟨rfl, hRest⟩ := List.cons.inj hMid
      exact .inr (.inr ⟨rest, rfl, hRest⟩)

theorem cut_inj {a b s t : List α} (ha : sep ∉ a) (hb : sep ∉ b) (h : a ++ sep :: s = b ++ sep :: t) :
    a = b ∧ s = t := by
  rcases cut_cases h with hSame | ⟨rest, rfl, -⟩ | ⟨rest, rfl, -⟩
  · exact hSame
  · exact absurd (List.mem_append_right _ List.mem_cons_self) hb
  · exact absurd (List.mem_append_right _ List.mem_cons_self) ha

/-! ## Segments -/

variable [DecidableEq α]

def segments (sep : α) (s : List α) : List (List α) := (s.splitOn sep).filter (· ≠ [])

theorem segments_nil : segments sep [] = [] := by
  rw [segments, List.splitOn_nil]
  rfl

theorem segments_append (s t : List α) : segments sep (s ++ sep :: t) = segments sep s ++ segments sep t := by
  rw [segments, List.splitOn_append_cons_self, List.filter_append]
  rfl

theorem segments_cons_sep (s : List α) : segments sep (sep :: s) = segments sep s := by
  have hAppend := @segments_append α sep _ [] s
  rwa [segments_nil] at hAppend

theorem segments_piece {piece : List α} (h : sep ∉ piece) :
    segments sep piece = if piece = [] then [] else [piece] := by
  rw [segments, List.splitOn_eq_singleton h, List.filter_singleton]
  split
  · rename_i hNil
    simp [hNil]
  · rename_i hSome
    simp [hSome]

theorem segments_of_not_mem {piece : List α} (h : sep ∉ piece) (hSome : piece ≠ []) :
    segments sep piece = [piece] := by
  rw [segments_piece h, if_neg hSome]

theorem length_segments_le (s : List α) : (segments sep s).length ≤ s.length := by
  induction hLength : s.length using Nat.strongRecOn generalizing s with
  | _ n ih =>
  rcases em (sep ∈ s) with hIn | hOut
  · obtain ⟨a, b, rfl⟩ := List.append_of_mem hIn
    rw [List.length_append, List.length_cons] at hLength
    have hFirst := ih a.length (by omega) a rfl
    have hSecond := ih b.length (by omega) b rfl
    rw [segments_append, List.length_append]
    omega
  · rw [segments_piece hOut]
    split
    · exact Nat.zero_le _
    · rename_i hSome
      rw [← hLength]
      exact List.length_pos_iff.mpr hSome

/-- Neither empty nor with a separator in it. -/
def Proper (sep : α) (seg : List α) : Prop := seg ≠ [] ∧ sep ∉ seg

theorem not_mem_of_mem_splitOn (s : List α) : ∀ piece ∈ s.splitOn sep, sep ∉ piece := by
  induction s with
  | nil =>
    intro piece hPiece
    rw [List.splitOn_nil, List.mem_singleton] at hPiece
    rw [hPiece]
    exact List.not_mem_nil
  | cons c s ih =>
    intro piece hPiece
    rw [List.splitOn_cons_eq_if_modifyHead] at hPiece
    split at hPiece
    · rcases List.mem_cons.mp hPiece with rfl | hRest
      · exact List.not_mem_nil
      · exact ih piece hRest
    · rename_i hOther
      obtain ⟨first, rest, hSplit⟩ := List.exists_cons_of_ne_nil (List.splitOn_ne_nil sep s)
      rw [hSplit] at ih hPiece
      rcases List.mem_cons.mp hPiece with rfl | hRest
      · intro hMem
        rcases List.mem_cons.mp hMem with rfl | hFirst
        · exact hOther (beq_self_eq_true _)
        · exact ih first List.mem_cons_self hFirst
      · exact ih piece (List.mem_cons_of_mem _ hRest)

theorem mem_segments {s seg : List α} (h : seg ∈ segments sep s) : Proper sep seg := by
  obtain ⟨hMem, hSome⟩ := List.mem_filter.mp h
  exact ⟨of_decide_eq_true hSome, not_mem_of_mem_splitOn s seg hMem⟩

theorem mem_of_mem_segments {s seg : List α} {x : α} (h : seg ∈ segments sep s) (hx : x ∈ seg) : x ∈ s := by
  obtain ⟨hMem, _⟩ := List.mem_filter.mp h
  rcases eq_or_ne x sep with rfl | hNe
  · exact absurd hx (not_mem_of_mem_splitOn s seg hMem)
  · have hText := (mem_text_iff hNe (s.splitOn sep)).mpr ⟨seg, hMem, hx⟩
    rwa [text, List.intercalate_splitOn] at hText

theorem segments_text {segs : List (List α)} (h : ∀ seg ∈ segs, Proper sep seg) :
    segments sep (text sep segs) = segs := by
  induction segs with
  | nil => exact segments_nil
  | cons seg segs ih =>
    obtain ⟨hSome, hFree⟩ := h seg List.mem_cons_self
    have hRest := ih fun s hs => h s (List.mem_cons_of_mem _ hs)
    rcases eq_or_ne segs [] with rfl | hNe
    · rw [text_singleton, segments_of_not_mem hFree hSome]
    · rw [text_cons hNe, segments_append, segments_of_not_mem hFree hSome, hRest]
      rfl

theorem text_eq_nil_iff {segs : List (List α)} (h : ∀ seg ∈ segs, Proper sep seg) : text sep segs = [] ↔
    segs = [] := by
  constructor
  · intro hText
    rw [← segments_text h, hText, segments_nil]
  · rintro rfl
    rfl

omit [DecidableEq α] in
theorem text_head_ne {segs : List (List α)} (h : ∀ seg ∈ segs, Proper sep seg) :
    (text sep segs).head? ≠ some sep := by
  cases segs with
  | nil => nofun
  | cons seg segs =>
    obtain ⟨hSome, hFree⟩ := h seg List.mem_cons_self
    obtain ⟨c, cs, rfl⟩ := List.exists_cons_of_ne_nil hSome
    rcases eq_or_ne segs [] with rfl | hNe
    · rw [text_singleton]
      rintro hHead
      cases hHead
      exact hFree List.mem_cons_self
    · rw [text_cons hNe]
      rintro hHead
      cases hHead
      exact hFree List.mem_cons_self

omit [DecidableEq α] in
theorem text_getLast_ne {segs : List (List α)} (h : ∀ seg ∈ segs, Proper sep seg) :
    (text sep segs).getLast? ≠ some sep := by
  rcases List.eq_nil_or_concat' segs with rfl | ⟨below, top, rfl⟩
  · nofun
  · obtain ⟨hSome, hFree⟩ := h top (List.mem_append_right _ (List.mem_singleton.mpr rfl))
    obtain ⟨init, last, rfl⟩ := (List.eq_nil_or_concat' top).resolve_left hSome
    have hLast : last ≠ sep := fun hEq => hFree (List.mem_append_right _ (List.mem_singleton.mpr hEq.symm))
    rcases eq_or_ne below [] with rfl | hNe
    · rw [List.nil_append, text_singleton, List.getLast?_concat]
      exact fun hSep => hLast (Option.some.inj hSep)
    · rw [text_concat hNe, ← List.cons_append, ← List.append_assoc, List.getLast?_concat]
      exact fun hSep => hLast (Option.some.inj hSep)

/-! ## Cutting a text -/

/-- The cut between two parts of a text is inside a segment. -/
def Inside (sep : α) (a b : List α) : Prop := (∃ x, a.getLast? = some x ∧ x ≠ sep) ∧
    ∃ y, b.head? = some y ∧ y ≠ sep

theorem segments_append_of_not_inside {a b : List α} (h : ¬ Inside sep a b) :
    segments sep (a ++ b) = segments sep a ++ segments sep b := by
  rcases List.eq_nil_or_concat' a with rfl | ⟨init, x, rfl⟩
  · rw [segments_nil]
    rfl
  · rcases eq_or_ne x sep with rfl | hLast
    · rw [List.append_assoc, List.singleton_append, segments_append, segments_append, segments_nil,
        List.append_nil]
    · cases b with
      | nil => rw [segments_nil, List.append_nil, List.append_nil]
      | cons y rest =>
        rcases eq_or_ne y sep with rfl | hFirst
        · rw [segments_append, segments_cons_sep]
        · exact absurd ⟨⟨x, List.getLast?_concat, hLast⟩, y, rfl, hFirst⟩ h

theorem segments_head {b : List α} (h : ∃ y, b.head? = some y ∧ y ≠ sep) :
    ∃ y after, segments sep b = y :: after ∧ ∀ x, sep ∉ x → segments sep (x ++ b) = (x ++ y) :: after := by
  obtain ⟨c, hHead, hNe⟩ := h
  obtain ⟨t, rfl⟩ := List.head?_eq_some_iff.mp hHead
  rcases em (sep ∈ c :: t) with hIn | hOut
  · obtain ⟨y, rest, hSplit, hFree⟩ := List.eq_append_cons_of_mem hIn
    have hSome : y ≠ [] := by
      rintro rfl
      exact hNe (List.cons.inj hSplit).1
    refine ⟨y, segments sep rest, ?_, ?_⟩
    · rw [hSplit, segments_append, segments_of_not_mem hFree hSome]
      rfl
    · intro x hx
      have hBoth : sep ∉ x ++ y := fun hMem => (List.mem_append.mp hMem).elim hx hFree
      rw [hSplit, ← List.append_assoc, segments_append,
        segments_of_not_mem hBoth (List.append_ne_nil_of_right_ne_nil _ hSome)]
      rfl
  · refine ⟨c :: t, [], segments_of_not_mem hOut (List.cons_ne_nil c t), ?_⟩
    intro x hx
    exact segments_of_not_mem (fun hMem => (List.mem_append.mp hMem).elim hx hOut)
      (List.append_ne_nil_of_right_ne_nil _ (List.cons_ne_nil c t))

theorem segments_of_inside {a b : List α} (h : Inside sep a b) : ∃ before x y after, x ≠ [] ∧
    segments sep a = before ++ [x] ∧ segments sep b = y :: after ∧ segments sep (a ++ b) = before ++
      (x ++ y) :: after := by
  induction hLength : a.length using Nat.strongRecOn generalizing a with
  | _ n ih =>
  obtain ⟨⟨c, hLast, hNe⟩, hHead⟩ := h
  rcases em (sep ∈ a) with hIn | hOut
  · obtain ⟨front, rest, rfl⟩ := List.append_of_mem hIn
    have hRest : rest.getLast? = some c := by
      cases rest with
      | nil =>
        rw [List.getLast?_concat] at hLast
        exact absurd (Option.some.inj hLast).symm hNe
      | cons d rest =>
        rwa [List.getLast?_append_of_ne_nil _ (List.cons_ne_nil _ _), List.getLast?_cons_cons] at hLast
    rw [List.length_append, List.length_cons] at hLength
    obtain ⟨before, x, y, after, hSome, hFirst, hSecond, hBoth⟩ :=
      ih rest.length (by omega) ⟨⟨c, hRest, hNe⟩, hHead⟩ rfl
    refine ⟨segments sep front ++ before, x, y, after, hSome, ?_, hSecond, ?_⟩
    · rw [segments_append, hFirst, List.append_assoc]
    · rw [List.append_assoc, List.cons_append, segments_append, hBoth, List.append_assoc]
  · obtain ⟨y, after, hSecond, hBoth⟩ := segments_head hHead
    have hSome : a ≠ [] := by
      rintro rfl
      cases hLast
    exact ⟨[], a, y, after, hSome, segments_of_not_mem hOut hSome, hSecond, hBoth a hOut⟩

/-- What is behind a cut has the segments behind the first `k` exactly when those are
in front of the cut. -/
theorem segments_drop_iff (s : List α) (n : Nat) {k : Nat} (hk : k ≤ (segments sep s).length) :
    segments sep (s.drop n) = (segments sep s).drop k ↔
      (segments sep (s.take n)).length = k ∧ ¬ Inside sep (s.take n) (s.drop n) := by
  rcases em (Inside sep (s.take n) (s.drop n)) with hInside | hNot
  · obtain ⟨before, x, y, after, hSome, hFirst, hSecond, hBoth⟩ := segments_of_inside hInside
    rw [List.take_append_drop] at hBoth
    refine ⟨fun hDrop => absurd ?_ hSome, fun hBehind => absurd hInside hBehind.2⟩
    have hLengths := congrArg List.length hDrop
    rw [List.length_drop, hSecond, hBoth, List.length_append, List.length_cons, List.length_cons] at hLengths
    rw [hBoth, List.length_append, List.length_cons] at hk
    obtain rfl : k = before.length := by omega
    rw [hSecond, hBoth, List.drop_left] at hDrop
    exact List.append_left_eq_self.mp (List.cons.inj hDrop).1.symm
  · have hBoth := segments_append_of_not_inside hNot
    rw [List.take_append_drop] at hBoth
    rw [hBoth] at hk ⊢
    constructor
    · intro hDrop
      have hLengths := congrArg List.length hDrop
      rw [List.length_drop, List.length_append] at hLengths
      rw [List.length_append] at hk
      exact ⟨by omega, hNot⟩
    · rintro ⟨rfl, _⟩
      rw [List.drop_left]

/-! ## Back to the last separator -/

/-- Going back from an index to a separator, or to the start. -/
def back (sep : α) (s : List α) : Nat → Nat
  | 0 => 0
  | i + 1 => if s[i + 1]? = some sep then i + 1 else back sep s i

theorem back_append (s : List α) {seg : List α} (h : sep ∉ seg) (hStart : s ≠ []) (n : Nat) :
    n ≤ seg.length → back sep (s ++ sep :: seg) (s.length + n) = s.length := by
  obtain ⟨m, hm⟩ : ∃ m, s.length = m + 1 := ⟨s.length - 1, by have := List.length_pos_iff.mpr hStart; omega⟩
  induction n with
  | zero =>
    intro _
    rw [Nat.add_zero, hm, back, ← hm, List.getElem?_append_right (Nat.le_refl _), Nat.sub_self]
    exact if_pos rfl
  | succ n ih =>
    intro hLess
    have hSlot : (s ++ sep :: seg)[s.length + n + 1]? ≠ some sep := by
      rw [List.getElem?_append_right (by omega), Nat.add_assoc, Nat.add_sub_cancel_left,
        List.getElem?_cons_succ]
      exact fun hIn => h (List.mem_of_getElem? hIn)
    rw [← Nat.add_assoc, back, if_neg hSlot]
    exact ih (by omega)

theorem back_of_not_mem {seg : List α} (h : sep ∉ seg) (n : Nat) : back sep seg n = 0 := by
  induction n with
  | zero => rfl
  | succ n ih =>
    rw [back, if_neg fun hIn => h (List.mem_of_getElem? hIn), ih]

theorem take_back {segs : List (List α)} {seg : List α} (hSegs : ∀ s ∈ segs, Proper sep s)
    (hSeg : Proper sep seg) :
    (text sep (segs ++ [seg])).take
      (back sep (text sep (segs ++ [seg])) ((text sep (segs ++ [seg])).length - 1)) =
      text sep segs := by
  rcases eq_or_ne segs [] with rfl | hNe
  · rw [List.nil_append, text_singleton, back_of_not_mem hSeg.2]
    rfl
  · have hStart := mt (text_eq_nil_iff hSegs).mp hNe
    have hLast : (text sep segs ++ sep :: seg).length - 1 = (text sep segs).length + seg.length := by
      rw [List.length_append, List.length_cons, ← Nat.add_assoc]
      rfl
    rw [text_concat hNe, hLast, back_append _ hSeg.2 hStart _ (Nat.le_refl _), List.take_left]

end Segments
