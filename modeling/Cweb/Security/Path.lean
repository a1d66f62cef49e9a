import Cweb.Lib.Segments
import Cweb.Utils.Sv

/-!
# Path normalisation

A path is taken apart at its slashes. What is left of it stands in one text
with slashes between the segments, and a dot-dot cuts this text back to its
last slash. Below stands the resolution it comes to, with a stack of segments.
-/

namespace Cweb

open Sv Segments

/-- The text so far and the number of segments in it. -/
structure PathParts where
  parts : Bytes
  segs : Nat
deriving DecidableEq, Repr

def normalizeSeg (p : PathParts) (seg : Bytes) : Option PathParts :=
  if seg = [] ∨ seg = ascii "." then some p
  else if seg = ascii ".." then
    if p.segs = 0 then none else some ⟨p.parts.take (back 47 p.parts (p.parts.length - 1)), p.segs - 1⟩
  else some ⟨(if 0 < p.segs then p.parts ++ [47] else p.parts) ++ seg, p.segs + 1⟩

/-- What is returned, and `out` with the result behind it. -/
def uriPathNormalize (path out : Bytes) : Int × Bytes :=
  match (svSplit 47 path).foldlM normalizeSeg ⟨[], 0⟩ with
  | none => (-1, out)
  | some p => (0, out ++ if p.parts = [] then [47] else if path.head? = some 47 then 47 :: p.parts
    else p.parts)

/-! ## Resolution with a stack -/

/-- The top of the stack is its last element. -/
def resolveSeg (stack : List Bytes) (seg : Bytes) : Option (List Bytes) :=
  if seg = [] ∨ seg = ascii "." then some stack
  else if seg = ascii ".." then if stack = [] then none else some stack.dropLast
  else some (stack ++ [seg])

def resolve (pieces : List Bytes) : Option (List Bytes) := pieces.foldlM resolveSeg []

/-- The path a stack stands for. -/
def pathOf (absolute : Bool) (stack : List Bytes) : Bytes :=
  if stack = [] then [47] else if absolute then 47 :: text 47 stack else text 47 stack

/-- A segment that resolution pushes. -/
structure Plain (seg : Bytes) : Prop where
  proper : Proper 47 seg
  dot : seg ≠ ascii "."
  dotdot : seg ≠ ascii ".."

theorem resolveSeg_plain (stack : List Bytes) {seg : Bytes} (h : Plain seg) :
    resolveSeg stack seg = some (stack ++ [seg]) := by
  rw [resolveSeg, if_neg (not_or.mpr ⟨h.proper.1, h.dot⟩), if_neg h.dotdot]

theorem foldlM_plain (segs : List Bytes) : ∀ stack : List Bytes, (∀ seg ∈ segs, Plain seg) →
    segs.foldlM resolveSeg stack = some (stack ++ segs) := by
  induction segs with
  | nil => exact fun stack _ => congrArg some (List.append_nil stack).symm
  | cons seg segs ih =>
    intro stack h
    rw [List.foldlM_cons, resolveSeg_plain stack (h seg List.mem_cons_self)]
    refine (ih (stack ++ [seg]) fun s hs => h s (List.mem_cons_of_mem _ hs)).trans ?_
    rw [List.append_assoc]
    rfl

theorem foldlM_filter {σ : Type} {f : σ → Bytes → Option σ} (hEmpty : ∀ s, f s [] = some s)
    (pieces : List Bytes) :
    ∀ s, (pieces.filter (· ≠ [])).foldlM f s = pieces.foldlM f s := by
  induction pieces with
  | nil => exact fun _ => rfl
  | cons piece pieces ih =>
    intro s
    rcases eq_or_ne piece [] with rfl | hSome
    · rw [List.filter_cons_of_neg (by simp), List.foldlM_cons, hEmpty]
      exact ih s
    · rw [List.filter_cons_of_pos (by simpa using hSome), List.foldlM_cons, List.foldlM_cons]
      cases f s piece with
      | none => rfl
      | some s' => exact ih s'

theorem svSplit_segments (delim : UInt8) (n : Nat) : ∀ s : Bytes, s.length ≤ n →
    (svSplit delim s).filter (· ≠ []) = segments delim s := by
  induction n with
  | zero =>
    intro s h
    obtain rfl := List.length_eq_zero_iff.mp (Nat.le_zero.mp h)
    exact segments_nil.symm
  | succ n ih =>
    intro s h
    rcases svChopByDelim_cases delim s with ⟨hNone, _⟩ | ⟨piece, rest, rfl, hNone, _⟩
    · rcases eq_or_ne s [] with rfl | hSome
      · exact segments_nil.symm
      · rw [svSplit_last hNone hSome, segments_of_not_mem hNone hSome]
        simp [hSome]
    · rw [List.length_append, List.length_cons] at h
      rw [svSplit_line hNone, segments_append, segments_piece hNone, List.filter_cons, ih rest (by omega)]
      rcases eq_or_ne piece [] with rfl | hSome
      · simp
      · simp [hSome]

theorem foldlM_svSplit {σ : Type} {f : σ → Bytes → Option σ} (hEmpty : ∀ s, f s [] = some s)
    (path : Bytes) (s : σ) :
    (svSplit 47 path).foldlM f s = (segments 47 path).foldlM f s := by
  rw [← svSplit_segments 47 _ path (Nat.le_refl _), foldlM_filter hEmpty]

theorem resolve_splitOn (path : Bytes) : resolve (path.splitOn 47) = resolve (segments 47 path) := by
  rw [resolve, resolve, segments, foldlM_filter fun s => rfl]

/-! ## The text and the stack -/

/-- What the loop holds is the text of the stack. -/
structure Holds (p : PathParts) (stack : List Bytes) : Prop where
  parts : p.parts = text 47 stack
  segs : p.segs = stack.length
  plain : ∀ seg ∈ stack, Plain seg

theorem Holds.proper {p : PathParts} {stack : List Bytes} (h : Holds p stack) :
    ∀ seg ∈ stack, Proper 47 seg :=
  fun seg hSeg => (h.plain seg hSeg).proper

theorem normalizeSeg_step {p : PathParts} {stack : List Bytes} (h : Holds p stack) {seg : Bytes}
    (hSeg : 47 ∉ seg) :
    (normalizeSeg p seg = none ∧ resolveSeg stack seg = none) ∨
      ∃ p' stack', normalizeSeg p seg = some p' ∧ resolveSeg stack seg = some stack' ∧ Holds p' stack' := by
  rw [normalizeSeg, resolveSeg]
  split
  · exact .inr ⟨p, stack, rfl, rfl, h⟩
  · rename_i hSkip
    obtain ⟨hSome, hDot⟩ := not_or.mp hSkip
    split
    · rcases List.eq_nil_or_concat' stack with rfl | ⟨below, top, rfl⟩
      · exact .inl ⟨if_pos h.segs, if_pos rfl⟩
      · have hBelow : ∀ s ∈ below, Plain s := fun s hs => h.plain s (List.mem_append_left _ hs)
        have hTop : Plain top := h.plain top (List.mem_append_right _ (List.mem_singleton.mpr rfl))
        have hCount := h.segs
        rw [List.length_append, List.length_singleton] at hCount
        refine .inr ⟨_, below, if_neg (by omega), ?_, ?_, ?_, hBelow⟩
        · rw [if_neg (List.append_ne_nil_of_right_ne_nil _ (List.cons_ne_nil _ _)), List.dropLast_concat]
        · dsimp only
          rw [h.parts]
          exact take_back (fun s hs => (hBelow s hs).proper) hTop.proper
        · dsimp only
          omega
    · rename_i hDotdot
      refine .inr ⟨_, _, rfl, rfl, ?_, ?_, ?_⟩
      · dsimp only
        rcases eq_or_ne stack [] with rfl | hNe
        · have hZero : p.segs = 0 := h.segs
          rw [if_neg (by omega), h.parts, List.nil_append, text_nil, text_singleton, List.nil_append]
        · have hPos : 0 < p.segs := by
            rw [h.segs]
            exact List.length_pos_iff.mpr hNe
          rw [if_pos hPos, h.parts, text_concat hNe, List.append_assoc]
          rfl
      · rw [List.length_append, h.segs]
        rfl
      · intro s hs
        rcases List.mem_append.mp hs with hOld | hNew
        · exact h.plain s hOld
        · rw [List.mem_singleton.mp hNew]
          exact ⟨⟨hSome, hSeg⟩, hDot, hDotdot⟩

theorem normalize_run (pieces : List Bytes) : ∀ {p : PathParts} {stack : List Bytes}, Holds p stack →
    (∀ seg ∈ pieces, 47 ∉ seg) →
    (pieces.foldlM normalizeSeg p = none ∧ pieces.foldlM resolveSeg stack = none) ∨
      ∃ p' stack', pieces.foldlM normalizeSeg p = some p' ∧ pieces.foldlM resolveSeg stack = some stack' ∧
        Holds p' stack' := by
  induction pieces with
  | nil => exact fun h _ => .inr ⟨_, _, rfl, rfl, h⟩
  | cons seg pieces ih =>
    intro p stack h hPieces
    have hRest : ∀ s ∈ pieces, 47 ∉ s := fun s hs => hPieces s (List.mem_cons_of_mem _ hs)
    rw [List.foldlM_cons, List.foldlM_cons]
    rcases normalizeSeg_step h (hPieces seg List.mem_cons_self) with ⟨hCode, hStack⟩ |
      ⟨p', stack', hCode, hStack, h'⟩
    · rw [hCode, hStack]
      exact .inl ⟨rfl, rfl⟩
    · rw [hCode, hStack]
      exact ih h' hRest

/-! ## Normalisation is resolution -/

theorem holds_start : Holds ⟨[], 0⟩ [] := ⟨rfl, rfl, fun _ h => absurd h List.not_mem_nil⟩

theorem uriPathNormalize_cases (path out : Bytes) :
    (uriPathNormalize path out = (-1, out) ∧ resolve (path.splitOn 47) = none) ∨
      ∃ stack, uriPathNormalize path out = (0, out ++ pathOf (path.head? = some 47) stack) ∧
        resolve (path.splitOn 47) = some stack ∧ ∀ seg ∈ stack, Plain seg := by
  have hCode : (svSplit 47 path).foldlM normalizeSeg ⟨[], 0⟩ = (segments 47 path).foldlM normalizeSeg
    ⟨[], 0⟩ :=
    foldlM_svSplit (fun s => rfl) path _
  rw [uriPathNormalize, hCode, resolve_splitOn, resolve]
  rcases normalize_run (segments 47 path) holds_start fun seg hSeg => (mem_segments hSeg).2 with
    ⟨hRun, hNone⟩ | ⟨p, stack, hRun, hSome, hHolds⟩
  · rw [hRun]
    exact .inl ⟨rfl, hNone⟩
  · rw [hRun]
    refine .inr ⟨stack, ?_, hSome, hHolds.plain⟩
    have hNil : text 47 stack = [] ↔ stack = [] := text_eq_nil_iff hHolds.proper
    simp only [pathOf, hHolds.parts, hNil, decide_eq_true_eq]

theorem resolve_eq_none_iff (pieces : List Bytes) :
    resolve pieces = none ↔ ∃ before after, pieces = before ++ ascii ".." :: after ∧
      resolve before = some [] := by
  have hStep : ∀ stack seg, resolveSeg stack seg = none → seg = ascii ".." ∧ stack = [] := by
    intro stack seg hNone
    rw [resolveSeg] at hNone
    split at hNone
    · cases hNone
    · split at hNone
      · rename_i hDotdot
        split at hNone
        · rename_i hNil
          exact ⟨hDotdot, hNil⟩
        · cases hNone
      · cases hNone
  constructor
  · induction pieces using List.reverseRecOn with
    | nil => nofun
    | append_singleton pieces last ih =>
      intro hNone
      rw [resolve, List.foldlM_append] at hNone
      cases hInit : pieces.foldlM resolveSeg [] with
      | none =>
        obtain ⟨before, after, rfl, hBefore⟩ := ih hInit
        exact ⟨before, after ++ [last], by rw [List.append_assoc]; rfl, hBefore⟩
      | some stack =>
        rw [hInit] at hNone
        have hLast : resolveSeg stack last = none := by
          cases hSeg : resolveSeg stack last with
          | none => rfl
          | some stack' =>
            have hSome : [last].foldlM resolveSeg stack = some stack' := by
              rw [List.foldlM_cons, hSeg]
              rfl
            exact absurd (hSome.symm.trans hNone) (Option.some_ne_none stack')
        obtain ⟨rfl, rfl⟩ := hStep stack last hLast
        exact ⟨pieces, [], rfl, hInit⟩
  · rintro ⟨before, after, rfl, hBefore⟩
    rw [resolve] at hBefore ⊢
    rw [List.foldlM_append, hBefore]
    rfl

theorem segments_pathOf (absolute : Bool) {stack : List Bytes} (h : ∀ seg ∈ stack, Plain seg) :
    segments 47 (pathOf absolute stack) = stack := by
  have hProper : ∀ seg ∈ stack, Proper 47 seg := fun seg hSeg => (h seg hSeg).proper
  rw [pathOf]
  split
  · rename_i hNil
    rw [hNil]
    decide
  · split
    · rw [segments_cons_sep, segments_text hProper]
    · exact segments_text hProper

theorem head_pathOf (absolute : Bool) {stack : List Bytes} (h : ∀ seg ∈ stack, Plain seg) :
    (pathOf absolute stack).head? = some 47 ↔ absolute = true ∨ pathOf absolute stack = [47] := by
  rw [pathOf]
  split
  · simp
  · split
    · rename_i hAbsolute
      simp [hAbsolute]
    · rename_i hNil hRelative
      have hHead : (text 47 stack).head? ≠ some 47 := text_head_ne fun seg hSeg => (h seg hSeg).proper
      constructor
      · exact fun hSlash => absurd hSlash hHead
      · rintro (hAbsolute | hRoot)
        · exact absurd hAbsolute hRelative
        · rw [hRoot]
          rfl

theorem uriPathNormalize_pathOf (absolute : Bool) {stack : List Bytes} (h : ∀ seg ∈ stack, Plain seg) :
    uriPathNormalize (pathOf absolute stack) [] = (0, pathOf absolute stack) := by
  have hResolve : resolve ((pathOf absolute stack).splitOn 47) = some stack := by
    rw [resolve_splitOn, segments_pathOf absolute h]
    exact foldlM_plain stack [] h
  rcases uriPathNormalize_cases (pathOf absolute stack) [] with ⟨_, hNone⟩ | ⟨stack', hEq, hSome, _⟩
  · rw [hResolve] at hNone
    cases hNone
  · obtain rfl : stack = stack' := Option.some.inj (hResolve.symm.trans hSome)
    rw [hEq, List.nil_append]
    rcases eq_or_ne stack [] with rfl | hNe
    · rfl
    · have hRoot : pathOf absolute stack ≠ [47] := by
        intro hRoot
        have hSegments := segments_pathOf absolute h
        rw [hRoot] at hSegments
        exact hNe (hSegments.symm.trans (by decide))
      have hHead : decide ((pathOf absolute stack).head? = some 47) = absolute := by
        rw [Bool.eq_iff_iff, decide_eq_true_eq, head_pathOf absolute h]
        exact or_iff_left hRoot
      rw [hHead]

/-- Normalising is resolving the pieces between the slashes with a stack. -/
theorem uri_path_normalize (path out : Bytes) :
    (uriPathNormalize path out = match resolve (path.splitOn 47) with
      | none => (-1, out)
      | some stack => (0, out ++ pathOf (path.head? = some 47) stack)) ∧
    ((uriPathNormalize path out).1 = -1 ↔
      ∃ before after, path.splitOn 47 = before ++ ascii ".." :: after ∧ resolve before = some []) ∧
    ∀ result, uriPathNormalize path [] = (0, result) →
      (result.head? = some 47 ↔ path.head? = some 47 ∨ result = [47]) ∧
      uriPathNormalize result [] = (0, result) := by
  rw [← resolve_eq_none_iff]
  refine ⟨?_, ?_, ?_⟩
  · rcases uriPathNormalize_cases path out with ⟨hEq, hNone⟩ | ⟨stack, hEq, hSome, _⟩
    · rw [hEq, hNone]
    · rw [hEq, hSome]
  · rcases uriPathNormalize_cases path out with ⟨hEq, hNone⟩ | ⟨stack, hEq, hSome, _⟩
    · rw [hEq]
      exact ⟨fun _ => hNone, fun _ => rfl⟩
    · rw [hEq, hSome]
      exact ⟨nofun, nofun⟩
  · intro result hResult
    rcases uriPathNormalize_cases path [] with ⟨hEq, _⟩ | ⟨stack, hEq, _, hPlain⟩
    · rw [hEq] at hResult
      cases hResult
    · rw [hEq, List.nil_append] at hResult
      cases hResult
      refine ⟨?_, uriPathNormalize_pathOf _ hPlain⟩
      rw [head_pathOf _ hPlain, decide_eq_true_eq]

theorem uri_path_normalize_ad :
    ((ascii "a/d").head? = some 47 ↔ (ascii "a/b//./c/../../d/").head? = some 47 ∨ ascii "a/d" = [47]) ∧
    uriPathNormalize (ascii "a/d") [] = (0, ascii "a/d") :=
  (uri_path_normalize (ascii "a/b//./c/../../d/") []).2.2 (ascii "a/d") (by decide)

end Cweb
