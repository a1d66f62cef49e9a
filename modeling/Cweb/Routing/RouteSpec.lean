import Cweb.Lib.Segments
import Cweb.Routing.Router

/-!
# What a pattern matches

A pattern and a path are lists of segments. Matching walks two texts at once
and stores what it captures as it goes; here is the relation of the two lists
that it decides, and the list of what it stores, also when it fails.
-/

namespace Cweb

open Sv Segments

/-- What is between the angle brackets of a capture. -/
def captureName (seg : Bytes) : Option Bytes :=
  if 2 ≤ seg.length ∧ seg.head? = some 60 ∧ seg.getLast? = some 62 then some ((seg.drop 1).dropLast) else none

/-- A literal segment matches itself, a named capture any segment, and a star at
the end whatever is left. -/
inductive Fits : List Bytes → List Bytes → Prop where
  | nil : Fits [] []
  | star (rest : List Bytes) : Fits [[42]] rest
  | capture {seg name q : Bytes} {ps qs : List Bytes} (hName : captureName seg = some name)
    (hSome : name ≠ [])
      (hRest : Fits ps qs) : Fits (seg :: ps) (q :: qs)
  | literal {seg : Bytes} {ps qs : List Bytes} (hStar : seg ≠ [42]) (hLiteral : captureName seg = none)
      (hRest : Fits ps qs) : Fits (seg :: ps) (seg :: qs)

def segMatch : List Bytes → List Bytes → Bool
  | [], path => path.isEmpty
  | seg :: ps, [] => decide (seg = [42]) && ps.isEmpty
  | seg :: ps, q :: qs =>
    if seg = [42] then ps.isEmpty
    else
      match captureName seg with
      | some name => decide (name ≠ []) && segMatch ps qs
      | none => decide (seg = q) && segMatch ps qs

/-- The captures of a match, and those made before it failed. -/
def writes : List Bytes → List Bytes → List (Bytes × Bytes)
  | seg :: ps, q :: qs =>
    if seg = [42] then []
    else
      match captureName seg with
      | some name => if name = [] then [] else (name, q) :: writes ps qs
      | none => if seg = q then writes ps qs else []
  | _, _ => []

theorem captureName_star : captureName [42] = none := by decide

theorem segMatch_star (ps qs : List Bytes) : segMatch ([42] :: ps) qs = ps.isEmpty := by
  cases qs with
  | nil => rfl
  | cons q qs => rfl

theorem segMatch_of_fits {ps qs : List Bytes} (h : Fits ps qs) : segMatch ps qs = true := by
  induction h with
  | nil => rfl
  | star rest => exact segMatch_star [] rest
  | @capture seg name q ps qs hName hSome _ ih =>
    have hStar : seg ≠ [42] := by
      rintro rfl
      rw [captureName_star] at hName
      cases hName
    rw [segMatch, if_neg hStar, hName]
    simp [hSome, ih]
  | literal hStar hLiteral _ ih =>
    rw [segMatch, if_neg hStar, hLiteral]
    simp [ih]

theorem fits_of_segMatch (ps : List Bytes) : ∀ qs, segMatch ps qs = true → Fits ps qs := by
  induction ps with
  | nil =>
    intro qs h
    obtain rfl := List.isEmpty_iff.mp h
    exact .nil
  | cons seg ps ih =>
    intro qs h
    rcases eq_or_ne seg [42] with rfl | hStar
    · rw [segMatch_star] at h
      obtain rfl := List.isEmpty_iff.mp h
      exact .star qs
    · cases qs with
      | nil =>
        rw [segMatch, decide_eq_false hStar] at h
        cases h
      | cons q qs =>
        rw [segMatch, if_neg hStar] at h
        cases hName : captureName seg with
        | some name =>
          rw [hName, Bool.and_eq_true, decide_eq_true_eq] at h
          exact .capture hName h.1 (ih qs h.2)
        | none =>
          rw [hName, Bool.and_eq_true, decide_eq_true_eq] at h
          obtain ⟨rfl, hRest⟩ := h
          exact .literal hStar hName (ih qs hRest)

theorem segMatch_iff (ps qs : List Bytes) : segMatch ps qs = true ↔ Fits ps qs :=
  ⟨fits_of_segMatch ps qs, segMatch_of_fits⟩

/-! ## Segments one at a time -/

theorem segments_dropWhile (s : Bytes) : segments 47 (s.dropWhile (· = 47)) = segments 47 s := by
  induction s with
  | nil => rfl
  | cons c s ih =>
    rw [List.dropWhile_cons]
    split
    · rename_i hSlash
      rw [of_decide_eq_true hSlash, ih, segments_cons_sep]
    · rfl

theorem nextSeg_cases (s : Bytes) : (segments 47 s = [] ∧ nextSeg s = ([], [])) ∨
    ∃ seg rest, seg ≠ [] ∧ nextSeg s = (seg, rest) ∧ segments 47 s = seg :: segments 47 rest := by
  rw [nextSeg, ← segments_dropWhile s]
  cases hRest : s.dropWhile (· = 47) with
  | nil => exact .inl ⟨segments_nil, rfl⟩
  | cons c t =>
    have hHead : c ≠ 47 := by
      have hNot := List.head?_dropWhile_not (fun b : UInt8 => decide (b = 47)) s
      rw [hRest] at hNot
      exact of_decide_eq_false hNot
    rcases svChopByDelim_cases 47 (c :: t) with ⟨hNone, hChop⟩ | ⟨piece, rest, hSplit, hNone, hChop⟩
    · exact .inr ⟨c :: t, [], List.cons_ne_nil c t, hChop, by
        rw [segments_of_not_mem hNone (List.cons_ne_nil c t), segments_nil]⟩
    · have hSome : piece ≠ [] := by
        rintro rfl
        exact hHead (List.cons.inj hSplit).1
      refine .inr ⟨piece, rest, hSome, hChop, ?_⟩
      rw [hSplit, segments_append, segments_of_not_mem hNone hSome]
      rfl

theorem nextSeg_isEmpty (s : Bytes) : decide ((nextSeg s).1 = []) = (segments 47 s).isEmpty := by
  rcases nextSeg_cases s with ⟨hNone, hNext⟩ | ⟨seg, rest, hSome, hNext, hMore⟩
  · rw [hNext, hNone]
    rfl
  · rw [hNext, hMore]
    exact decide_eq_false hSome

/-- Storing captures in order. -/
def setAll (m : StrMap) (ps : List (Bytes × Bytes)) : StrMap := ps.foldl (fun m e => strmapSet m e.1 e.2) m

theorem routePathLoop_eq (fuel : Nat) : ∀ (pattern path : Bytes)
    (m : StrMap), (segments 47 pattern).length < fuel →
    routePathLoop fuel pattern path m = (segMatch (segments 47 pattern) (segments 47 path),
      setAll m (writes (segments 47 pattern) (segments 47 path))) := by
  induction fuel with
  | zero => exact fun _ _ _ h => absurd h (Nat.not_lt_zero _)
  | succ fuel ih =>
    intro pattern path m hFuel
    rw [routePathLoop]
    dsimp only
    rcases nextSeg_cases pattern with ⟨hNil, hNext⟩ | ⟨seg, rest, hSome, hNext, hSegs⟩
    · rw [hNext, hNil, if_neg (by decide), if_pos (.inl rfl)]
      exact Prod.ext (by simp [segMatch, nextSeg_isEmpty]) rfl
    · rw [hSegs, List.length_cons] at hFuel
      rw [hNext, hSegs]
      dsimp only
      rcases eq_or_ne seg [42] with rfl | hStar
      · rw [if_pos rfl, segMatch_star]
        refine Prod.ext (nextSeg_isEmpty rest) ?_
        cases segments 47 path with
        | nil => rfl
        | cons q qs => rfl
      · rw [if_neg hStar]
        rcases nextSeg_cases path with ⟨hNone, hPath⟩ | ⟨q, left, hq, hPath, hPaths⟩
        · rw [hPath, hNone, if_pos (.inr rfl), segMatch, decide_eq_false hStar]
          exact Prod.ext (decide_eq_false fun hBoth => hSome hBoth.1) rfl
        · rw [hPath, hPaths, if_neg (not_or.mpr ⟨hSome, hq⟩), segMatch, writes, if_neg hStar, if_neg hStar]
          dsimp only
          rw [captureName]
          split
          · generalize (seg.drop 1).dropLast = name
            dsimp only
            split
            · rename_i hEmpty
              simp [hEmpty, setAll]
            · rename_i hName
              rw [ih rest left _ (by omega)]
              simp [hName, setAll]
          · dsimp only
            rcases eq_or_ne seg q with rfl | hNe
            · rw [if_neg (not_not.mpr rfl), if_pos rfl, ih rest left _ (by omega)]
              simp
            · rw [if_pos hNe, if_neg hNe, decide_eq_false hNe]
              rfl

theorem routePathMatches_eq (pattern path : Bytes) (m : StrMap) : routePathMatches pattern path m =
    (segMatch (segments 47 pattern) (segments 47 path),
      setAll m (writes (segments 47 pattern) (segments 47 path))) :=
  routePathLoop_eq _ pattern path m (Nat.lt_succ_of_le (length_segments_le pattern))

end Cweb
