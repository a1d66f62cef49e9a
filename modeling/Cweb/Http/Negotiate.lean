import Cweb.Lib.Leader
import Cweb.Lib.CString
import Cweb.Utils.Sv
import Mathlib.Data.Rat.Lemmas
import Mathlib.Algebra.Order.Ring.Rat
import Mathlib.Tactic.NormNum

/-!
# Content negotiation

For each type that is available the most specific range decides its weight, and
among the types the weight decides. The index of the best type goes through an
`int`.
-/

namespace Cweb.Negotiate

open Sv Leader

/-- A media range with its weight, a rational in place of a double. -/
structure AcceptItem where
  type : Bytes
  q : ℚ
  nonneg : 0 ≤ q
  le_one : q ≤ 1

def svEqualCi (a b : Bytes) : Bool := a.map tolower == b.map tolower

def matchRank (range type : Bytes) : Nat :=
  let (rType, rSub) := svChopByDelim 47 range
  let (tType, tSub) := svChopByDelim 47 type
  if svEqualCi rType (ascii "*") then if svEqualCi rSub (ascii "*") then 1 else 0
  else if svEqualCi rType tType then
    if svEqualCi rSub (ascii "*") then 2 else if svEqualCi rSub tSub then 3 else 0
  else 0

/-- The inner loop: the rank found and its weight. -/
def typeQuality (list : List AcceptItem) (type : Bytes) : Nat × ℚ :=
  list.foldl (fun (rank, q) item =>
    let r := matchRank item.type type
    if rank < r then (r, item.q) else (rank, q)) (0, 0)

def acceptLoop (list : List AcceptItem) : Nat → List Bytes → Int × ℚ → Int × ℚ
  | _, [], st => st
  | i, type :: rest, (best, bestQ) =>
    let (rank, q) := typeQuality list type
    acceptLoop list (i + 1) rest (if 0 < rank ∧ (best < 0 ∨ bestQ < q) then ((i : Int).bmod (2 ^ 32), q)
      else (best, bestQ))

def acceptBest (list : List AcceptItem) (available : List Bytes) : Int :=
  if available.length = 0 then -1
  else if list.length = 0 then 0
  else
    let (best, bestQ) := acceptLoop list 0 available (-1, -1)
    if 0 ≤ best ∧ 0 < bestQ then best else -1

/-! ## What a range matches -/

def mainType (text : Bytes) : Bytes := (svChopByDelim 47 text).1

def subType (text : Bytes) : Bytes := (svChopByDelim 47 text).2

/-- The range matches the type with a specificity, the exact one the highest. -/
inductive Specificity (range type : Bytes) : Nat → Prop where
  | any : mainType range = ascii "*" → subType range = ascii "*" → Specificity range type 1
  | ofType : mainType range ≠ ascii "*" → (mainType range).map tolower = (mainType type).map tolower →
    subType range = ascii "*" →
      Specificity range type 2
  | exact : mainType range ≠ ascii "*" → (mainType range).map tolower = (mainType type).map tolower →
    subType range ≠ ascii "*" →
      (subType range).map tolower = (subType type).map tolower → Specificity range type 3

/-- The weight of a type is that of the first among its most specific ranges. -/
def Effective (list : List AcceptItem) (type : Bytes) (w : ℚ) : Prop :=
  ∃ front item r back, list = front ++ item :: back ∧ item.q = w ∧
    Leads (fun item r => Specificity item.type type r) front item r back

/-- The first type with the greatest weight, and that is positive. -/
def Best (list : List AcceptItem) (available : List Bytes) (k : Nat) : Prop :=
  ∃ front type w back, available = front ++ type :: back ∧ front.length = k ∧ 0 < w ∧
    Leads (Effective list) front type w back

/-- The answer of a negotiation. -/
structure Negotiated (list : List AcceptItem) (available : List Bytes) (result : Int) : Prop where
  nothing : available = [] → result = -1
  unconstrained : list = [] → available ≠ [] → result = 0
  best : list ≠ [] → ∀ k : Nat, result = k ↔ Best list available k
  refused : list ≠ [] → (result = -1 ↔ ¬∃ type ∈ available, ∃ w, Effective list type w ∧ 0 < w)

/-! ## One type -/

theorem svEqualCi_iff (a b : Bytes) : svEqualCi a b = true ↔ a.map tolower = b.map tolower := beq_iff_eq

theorem tolower_star : ∀ b : UInt8, (tolower b == 42) = (b == 42) := CString.forall_byte (by decide +kernel)

theorem svEqualCi_star (s : Bytes) : svEqualCi s (ascii "*") = true ↔ s = ascii "*" := by
  have hAscii : ascii "*" = [42] := by decide
  have hLower : ([42] : Bytes).map tolower = [42] := by decide
  rw [svEqualCi_iff, hAscii, hLower]
  constructor
  · intro h
    obtain ⟨b, rfl, hb⟩ := List.map_eq_singleton_iff.mp h
    have hStar := tolower_star b
    rw [hb, beq_self_eq_true, eq_comm, beq_iff_eq] at hStar
    rw [hStar]
  · rintro rfl
    exact hLower

theorem matchRank_eq (range type : Bytes) : matchRank range type =
    if mainType range = ascii "*" then if subType range = ascii "*" then 1 else 0
    else if (mainType range).map tolower = (mainType type).map tolower then
      if subType range = ascii "*" then 2
        else if (subType range).map tolower = (subType type).map tolower then 3 else 0
    else 0 := by
  simp only [← svEqualCi_star, ← svEqualCi_iff]
  rfl

theorem specificity_iff {range type : Bytes} {r : Nat} : Specificity range type r ↔
    matchRank range type = r ∧ 0 < r := by
  rw [matchRank_eq]
  constructor
  · rintro (⟨hMain, hSub⟩ | ⟨hMain, hSame, hSub⟩ | ⟨hMain, hSame, hSub, hSame'⟩)
    · simp [hMain, hSub]
    · simp [hMain, hSame, hSub]
    · simp [hMain, hSame, hSub, hSame']
  · rintro ⟨hRank, hPos⟩
    split at hRank
    · rename_i hMain
      split at hRank
      · rename_i hSub
        exact hRank ▸ .any hMain hSub
      · omega
    · rename_i hMain
      split at hRank
      · rename_i hSame
        split at hRank
        · rename_i hSub
          exact hRank ▸ .ofType hMain hSame hSub
        · rename_i hSub
          split at hRank
          · rename_i hSame'
            exact hRank ▸ .exact hMain hSame hSub hSame'
          · omega
      · omega

theorem specificity_unique {range type : Bytes} {r r' : Nat} (h : Specificity range type r)
    (h' : Specificity range type r') : r = r' :=
  (specificity_iff.mp h).1.symm.trans (specificity_iff.mp h').1

theorem specificity_matchRank {range type : Bytes} (h : 0 < matchRank range type) :
    Specificity range type (matchRank range type) :=
  specificity_iff.mpr ⟨rfl, h⟩

theorem typeQuality_spec (list : List AcceptItem) (type : Bytes) :
    (typeQuality list type = (0, 0) ∧ ∀ item ∈ list, ∀ r, ¬Specificity item.type type r) ∨
      ∃ front item r back, list = front ++ item :: back ∧ typeQuality list type = (r, item.q) ∧ 0 < r ∧
        Leads (fun item r => Specificity item.type type r) front item r back := by
  induction list using List.reverseRecOn with
  | nil => exact .inl ⟨rfl, nofun⟩
  | append_singleton list x ih =>
    have hStep : typeQuality (list ++ [x]) type =
        if (typeQuality list type).1 < matchRank x.type type then (matchRank x.type type, x.q)
        else typeQuality list type := by
      rw [typeQuality, List.foldl_append]
      rfl
    rw [hStep]
    rcases ih with ⟨hZero, hNone⟩ | ⟨front, item, r, back, rfl, hEq, hPos, hLeads⟩
    · rw [hZero]
      by_cases hMatch : 0 < matchRank x.type type
      · rw [if_pos hMatch]
        exact .inr ⟨list, x, _, [], rfl, rfl, hMatch, .overtake (specificity_matchRank hMatch)
          fun y hy v hv => absurd hv (hNone y hy v)⟩
      · rw [if_neg hMatch]
        refine .inl ⟨rfl, List.forall_mem_append.mpr ⟨hNone, List.forall_mem_singleton.mpr fun r hr => ?_⟩⟩
        obtain ⟨hRank, hSome⟩ := specificity_iff.mp hr
        omega
    · rw [hEq]
      by_cases hMore : r < matchRank x.type type
      · rw [if_pos hMore]
        refine .inr ⟨front ++ item :: back, x, _, [], rfl, rfl, by
          omega, .overtake (specificity_matchRank (by omega)) fun y hy v hv => ?_⟩
        exact (hLeads.le (fun v hv => specificity_unique hv hLeads.weighs) hy hv).trans_lt hMore
      · rw [if_neg hMore]
        refine .inr ⟨front, item, r, back ++ [x], by simp, rfl, hPos, hLeads.keep fun v hv => ?_⟩
        exact (specificity_iff.mp hv).1 ▸ not_lt.mp hMore

theorem effective_unique {list : List AcceptItem} {type : Bytes} {w w' : ℚ} (h : Effective list type w)
    (h' : Effective list type w') :
    w = w' := by
  obtain ⟨front, item, r, back, rfl, rfl, hLeads⟩ := h
  obtain ⟨front', item', r', back', hEq, rfl, hLeads'⟩ := h'
  rw [(hLeads.unique hLeads' hEq).2.1]

theorem effective_iff {list : List AcceptItem} {type : Bytes} {w : ℚ} :
    Effective list type w ↔ 0 < (typeQuality list type).1 ∧ (typeQuality list type).2 = w := by
  rcases typeQuality_spec list type with ⟨hZero, hNone⟩ | ⟨front, item, r, back, hList, hEq, hPos, hLeads⟩
  · rw [hZero]
    refine iff_of_false ?_ (fun h => Nat.lt_irrefl 0 h.1)
    rintro ⟨front, item, r, back, rfl, -, hLeads⟩
    exact hNone item (by simp) r hLeads.weighs
  · rw [hEq]
    have hIs : Effective list type item.q := ⟨front, item, r, back, hList, rfl, hLeads⟩
    constructor
    · exact fun h => ⟨hPos, effective_unique hIs h⟩
    · rintro ⟨-, rfl⟩
      exact hIs

/-! ## All types -/

variable {list : List AcceptItem} {available : List Bytes}

theorem acceptLoop_cons (i : Nat) (type : Bytes) (rest : List Bytes) (best : Int) (bestQ : ℚ) :
    acceptLoop list i (type :: rest) (best, bestQ) =
      acceptLoop list (i + 1) rest (if 0 < (typeQuality list type).1 ∧
        (best < 0 ∨ bestQ < (typeQuality list type).2) then
        ((i : Int).bmod (2 ^ 32), (typeQuality list type).2) else (best, bestQ)) := rfl

theorem acceptLoop_append (front back : List Bytes) : ∀ (i : Nat) (st : Int × ℚ),
    acceptLoop list i (front ++ back) st = acceptLoop list (i + front.length) back
      (acceptLoop list i front st) := by
  induction front with
  | nil => exact fun _ _ => rfl
  | cons type front ih =>
    rintro i ⟨best, bestQ⟩
    rw [List.cons_append, acceptLoop_cons, acceptLoop_cons, ih, List.length_cons, Nat.add_right_comm,
      Nat.add_assoc]

theorem acceptLoop_weight {P : ℚ → Prop} (types : List Bytes) : ∀ (i : Nat) (st : Int × ℚ),
    P st.2 → (∀ type ∈ types, ∀ v, Effective list type v → P v) → P (acceptLoop list i types st).2 := by
  induction types with
  | nil => exact fun _ _ h _ => h
  | cons type types ih =>
    rintro i ⟨best, bestQ⟩ hStart hTypes
    rw [acceptLoop_cons]
    refine ih _ _ ?_ fun t ht => hTypes t (List.mem_cons_of_mem _ ht)
    split
    · rename_i hTurn
      exact hTypes type List.mem_cons_self _ (effective_iff.mpr ⟨hTurn.1, rfl⟩)
    · exact hStart

theorem acceptLoop_keep {best : Int} {w : ℚ} (hBest : 0 ≤ best) (types : List Bytes) : ∀ i : Nat,
    (∀ type ∈ types, ∀ v, Effective list type v → v ≤ w) → acceptLoop list i types (best, w) = (best, w) := by
  induction types with
  | nil => exact fun _ _ => rfl
  | cons type types ih =>
    intro i hTypes
    rw [acceptLoop_cons, if_neg]
    · exact ih _ fun t ht => hTypes t (List.mem_cons_of_mem _ ht)
    · rintro ⟨hSome, hNo | hMore⟩
      · omega
      · exact absurd (hTypes type List.mem_cons_self _ (effective_iff.mpr ⟨hSome, rfl⟩)) (not_le.mpr hMore)

theorem exists_best_iff : (∃ k, Best list available k) ↔ ∃ type ∈ available, ∃ w,
    Effective list type w ∧ 0 < w := by
  constructor
  · rintro ⟨k, front, type, w, back, rfl, -, hPos, hLeads⟩
    exact ⟨type, by simp, w, hLeads.weighs, hPos⟩
  · rintro ⟨type, hType, w, hw, hPos⟩
    rcases @exists_leads _ _ _ (Effective list) (fun _ _ _ => effective_unique) available with hNone |
      ⟨front, t, v, back, rfl, hLeads⟩
    · exact absurd hw (hNone type hType w)
    · exact ⟨front.length, front, t, v, back, rfl, rfl,
        hPos.trans_le (hLeads.le (fun u hu => effective_unique hu hLeads.weighs) hType hw), hLeads⟩

theorem acceptBest_eq (hList : list ≠ []) (hSome : available ≠ []) : acceptBest list available =
    if 0 ≤ (acceptLoop list 0 available (-1, -1)).1 ∧ 0 < (acceptLoop list 0 available (-1, -1)).2 then
      (acceptLoop list 0 available (-1, -1)).1 else -1 := by
  rw [acceptBest, if_neg (mt List.length_eq_zero_iff.mp hSome), if_neg (mt List.length_eq_zero_iff.mp hList)]

theorem acceptBest_refused (hList : list ≠ []) (h : ¬∃ k, Best list available k) :
    acceptBest list available = -1 := by
  by_cases hSome : available = []
  · rw [hSome]
    rfl
  · have hZero : (acceptLoop list 0 available (-1, -1)).2 ≤ 0 := by
      refine @acceptLoop_weight list (· ≤ 0) available 0 (-1, -1) (by norm_num) fun type hType v hv => ?_
      by_contra hPos
      exact h (exists_best_iff.mpr ⟨type, hType, v, hv, not_le.mp hPos⟩)
    rw [acceptBest_eq hList hSome, if_neg fun hBoth => absurd hBoth.2 (not_lt.mpr hZero)]

theorem acceptBest_found (hList : list ≠ []) {k : Nat} (h : Best list available k)
    (hFits : k < 2 ^ 31) : acceptBest list available = k := by
  obtain ⟨front, type, w, back, rfl, rfl, hPos, hLeads⟩ := h
  have hFront : (acceptLoop list 0 front (-1, -1)).2 < w :=
    @acceptLoop_weight list (· < w) front 0 (-1, -1) (lt_trans (by norm_num) hPos) hLeads.front_lt
  obtain ⟨hSome, hWeight⟩ := effective_iff.mp hLeads.weighs
  have hIndex : (front.length : Int).bmod (2 ^ 32) = front.length := Int.bmod_eq_of_le (by omega) (by omega)
  have hLoop : acceptLoop list 0 (front ++ type :: back) (-1, -1) = (↑front.length, w) := by
    rw [acceptLoop_append, Nat.zero_add, acceptLoop_cons, hWeight, if_pos ⟨hSome, .inr hFront⟩, hIndex]
    exact acceptLoop_keep (Int.natCast_nonneg _) back _ hLeads.back_le
  rw [acceptBest_eq hList (by simp), hLoop, if_pos ⟨Int.natCast_nonneg _, hPos⟩]

theorem acceptLoop_int (types : List Bytes) : ∀ (i : Nat) (st : Int × ℚ), st.1 < 2 ^ 31 →
    (acceptLoop list i types st).1 < 2 ^ 31 := by
  induction types with
  | nil => exact fun _ _ h => h
  | cons type types ih =>
    rintro i ⟨best, bestQ⟩ hStart
    rw [acceptLoop_cons]
    apply ih
    split
    · have hBound := @Int.bmod_lt (i : Int) (2 ^ 32) (by decide)
      simp only at hBound ⊢
      omega
    · exact hStart

theorem acceptBest_lt (list : List AcceptItem) (available : List Bytes) :
    acceptBest list available < 2 ^ 31 := by
  rw [acceptBest]
  split
  · decide
  · split
    · decide
    · dsimp only
      split
      · exact acceptLoop_int available 0 (-1, -1) (by decide)
      · decide

/-- The best type is answered with whenever its index is an `int`. -/
theorem negotiated_iff (list : List AcceptItem) (available : List Bytes) :
    Negotiated list available (acceptBest list available) ↔ list = [] ∨ ∀ k, Best list available k →
      k < 2 ^ 31 := by
  constructor
  · intro h
    by_cases hList : list = []
    · exact .inl hList
    · refine .inr fun k hk => ?_
      have hEq := (h.best hList k).mpr hk
      have hLess := acceptBest_lt list available
      omega
  · intro h
    refine ⟨?_, ?_, fun hList k => ?_, fun hList => ?_⟩
    · rintro rfl
      rfl
    · rintro rfl hSome
      rw [acceptBest, if_neg (mt List.length_eq_zero_iff.mp hSome)]
      rfl
    · have hFits := h.resolve_left hList
      constructor
      · intro hEq
        by_contra hNot
        by_cases hSome : ∃ k', Best list available k'
        · obtain ⟨k', hk'⟩ := hSome
          have hFound := acceptBest_found hList hk' (hFits k' hk')
          rw [hEq] at hFound
          exact hNot (Int.ofNat_inj.mp hFound ▸ hk')
        · rw [acceptBest_refused hList hSome] at hEq
          omega
      · exact fun hk => acceptBest_found hList hk (hFits k hk)
    · have hFits := h.resolve_left hList
      rw [← exists_best_iff]
      constructor
      · rintro hEq ⟨k, hk⟩
        rw [acceptBest_found hList hk (hFits k hk)] at hEq
        omega
      · exact acceptBest_refused hList

/-- One range with no wildcard. -/
def onlyB : List AcceptItem := [⟨ascii "b/b", 1, by norm_num, le_refl 1⟩]

/-- What is wanted stands behind 2^31 types that are not. -/
def farTypes : List Bytes := List.replicate (2 ^ 31) (ascii "a/a") ++ [ascii "b/b"]

theorem best_far : Best onlyB farTypes (2 ^ 31) := by
  have hWanted : Effective onlyB (ascii "b/b") 1 := effective_iff.mpr ⟨by decide, rfl⟩
  refine ⟨_, _, 1, [], rfl, List.length_replicate, one_pos, .overtake hWanted fun x hx v hv => ?_⟩
  rw [List.eq_of_mem_replicate hx] at hv
  exact absurd (effective_iff.mp hv).1 (by decide)

theorem negotiated_far : Best onlyB farTypes (2 ^ 31) ∧
    ¬Negotiated onlyB farTypes (acceptBest onlyB farTypes) := by
  refine ⟨best_far, fun h => ?_⟩
  have hEq := (h.best (List.cons_ne_nil _ _) (2 ^ 31)).mpr best_far
  have hLess := acceptBest_lt onlyB farTypes
  rw [hEq] at hLess
  exact absurd hLess (by decide)

end Cweb.Negotiate
