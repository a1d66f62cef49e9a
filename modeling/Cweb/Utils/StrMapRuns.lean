import Mathlib.Data.Set.Card
import Cweb.Lib.Machine
import Cweb.Utils.StrMap

/-!
# Runs of the string map

The loops of `strmap_grow` and `strmap_delete` have no bound of their own: they
go on until they meet an empty slot. Here they are taken turn by turn, and an
operation is `none` when one of its loops is not over within the fuel. From the
empty map they always end, and the operations are those of a map.
-/

namespace Cweb

open LinearProbe Machine

def strmapGrowWithin (fuel : Nat) (m : StrMap) : Option StrMap :=
  let newCap := if m.capacity = 0 then 16 else m.capacity * 2
  (placeAllWithin hashIndex fuel (List.replicate newCap none) m.entries).map fun entries =>
    { m with entries := entries }

/-- The map and what `strmap_set` returns, which is -1 for a full table. -/
def strmapSetWithin (fuel : Nat) (m : StrMap) (key value : Bytes) : Option (StrMap × Int) :=
  (if m.capacity = 0 ∨ m.capacity ≤ m.count * 2 then strmapGrowWithin fuel m else some m).map fun m =>
    (strmapPut m key value, if probe m.entries (hashIndex key) key = none then -1 else 0)

/-- The entries from slot `k` up to the next empty slot are taken out. -/
def pullCluster : Nat → StrMap → Nat → List (Bytes × Bytes) → Option (StrMap × List (Bytes × Bytes))
  | 0, _, _, _ => none
  | fuel + 1, m, k, held =>
    match m.entries[k]?.join with
    | none => some (m, held)
    | some e => pullCluster fuel ⟨m.entries.set k none, m.count - 1⟩ ((k + 1) % m.capacity) (held ++ [e])

def strmapDeleteWithin (fuel : Nat) (m : StrMap) (key : Bytes) : Option StrMap :=
  if m.capacity = 0 then some m
  else
    (walk (stops m.entries key) m.capacity fuel (hashIndex key % m.capacity)).bind fun idx =>
      if (m.entries[idx]?.join).isNone then some m
      else
        (pullCluster fuel ⟨m.entries.set idx none, m.count - 1⟩ ((idx + 1) % m.capacity) []).bind
          fun pulled =>
          pulled.2.foldlM (fun m e => (strmapSetWithin fuel m e.1 e.2).map Prod.fst) pulled.1

inductive MapCall where
  | set (key value : Bytes)
  | get (key : Bytes)
  | delete (key : Bytes)

inductive MapAnswer where
  | status (r : Int)
  | value (v : Option Bytes)
  | done
deriving DecidableEq, Repr

def mapCall (fuel : Nat) (m : StrMap) : MapCall → Option (StrMap × MapAnswer)
  | .set key value => (strmapSetWithin fuel m key value).map fun r => (r.1, .status r.2)
  | .get key => some (m, .value (strmapGet m key))
  | .delete key => (strmapDeleteWithin fuel m key).map fun m => (m, .done)

def MapCall.NulFree : MapCall → Prop
  | .set key value => 0 ∉ key ∧ 0 ∉ value
  | .get key => 0 ∉ key
  | .delete key => 0 ∉ key

instance (c : MapCall) : Decidable c.NulFree :=
  match c with
  | .set key value => inferInstanceAs (Decidable (0 ∉ key ∧ 0 ∉ value))
  | .get key => inferInstanceAs (Decidable (0 ∉ key))
  | .delete key => inferInstanceAs (Decidable (0 ∉ key))

/-! ## What the map is for -/

/-- What a key is bound to after some calls: the value of the last set of the key,
unless it was deleted since. -/
def bound : List MapCall → Bytes → Option Bytes
  | [], _ => none
  | .set key value :: earlier, k => if k = key then some value else bound earlier k
  | .get _ :: earlier, k => bound earlier k
  | .delete key :: earlier, k => if k = key then none else bound earlier k

/-- The answers to some calls, those made before given newest first. -/
def expected : List MapCall → List MapCall → List MapAnswer
  | _, [] => []
  | earlier, c :: calls =>
    (match c with
      | .set _ _ => .status 0
      | .get key => .value (bound earlier key)
      | .delete _ => .done) :: expected (c :: earlier) calls

/-! ## The loops end -/

theorem strmapGrowWithin_eq {m : StrMap} (h : m.WF) {fuel : Nat} (hFuel : 2 * m.capacity + 16 ≤ fuel) :
    strmapGrowWithin fuel m = some (strmapGrow m) := by
  have hCount := h.count_eq
  have hLoad := h.load
  have hFresh : occupied
    (List.replicate (if m.capacity = 0 then 16 else m.capacity * 2) none : Slots Bytes Bytes) = 0 := by
    simp [occupied, List.countP_replicate]
  rw [strmapGrowWithin, placeAllWithin_eq]
  · rfl
  · rw [hFresh, List.length_replicate]
    split <;> omega
  · rw [List.length_replicate]
    split <;> omega

theorem exists_probe_of_room {m : StrMap} (h : m.WF) (hCap : m.capacity ≠ 0) (key : Bytes) :
    ∃ j, probe m.entries (hashIndex key) key = some j := by
  have hCount := h.count_eq
  have hLoad := h.load
  have hLess : occupied m.entries < m.entries.length := by
    change m.count * 2 ≤ m.entries.length at hLoad
    change m.entries.length ≠ 0 at hCap
    omega
  obtain ⟨free, hFree⟩ := exists_empty hLess
  exact exists_probe hFree (hashIndex key) key

theorem strmapSetWithin_eq {m : StrMap} (h : m.WF) {fuel : Nat} (hFuel : 2 * m.capacity + 16 ≤ fuel)
    (key value : Bytes) :
    strmapSetWithin fuel m key value = some (strmapSet m key value, 0) := by
  rw [strmapSetWithin, strmapSet]
  split
  · obtain ⟨hWf, hLess, _⟩ := strmapGrow_spec h
    obtain ⟨j, hj⟩ := exists_probe_of_room hWf (by omega) key
    rw [strmapGrowWithin_eq h hFuel, Option.map_some, hj, if_neg (Option.some_ne_none j)]
  · obtain ⟨j, hj⟩ := exists_probe_of_room h (by omega) key
    rw [Option.map_some, hj, if_neg (Option.some_ne_none j)]

theorem strmapPut_capacity (m : StrMap) (key value : Bytes) :
    (strmapPut m key value).capacity = m.capacity := by
  rw [strmapPut]
  split
  · rfl
  · exact List.length_set

theorem strmapPut_count_le (m : StrMap) (key value : Bytes) :
    (strmapPut m key value).count ≤ m.count + 1 := by
  rw [strmapPut]
  split
  · exact Nat.le_succ _
  · dsimp only
    split
    · exact le_rfl
    · exact Nat.le_succ _

theorem foldlM_strmapSetWithin {fuel : Nat} (held : List (Bytes × Bytes)) : ∀ m : StrMap,
    (m.count + held.length) * 2 ≤ m.capacity →
      held.foldlM (fun m e => (strmapSetWithin fuel m e.1 e.2).map Prod.fst) m =
        some (held.foldl (fun m e => strmapSet m e.1 e.2) m) := by
  induction held with
  | nil => exact fun _ _ => rfl
  | cons e held ih =>
    intro m hRoom
    rw [List.length_cons] at hRoom
    have hNoGrow : ¬ (m.capacity = 0 ∨ m.capacity ≤ m.count * 2) := by omega
    have hSet : strmapSet m e.1 e.2 = strmapPut m e.1 e.2 := by rw [strmapSet, if_neg hNoGrow]
    have hCount := strmapPut_count_le m e.1 e.2
    have hCapacity := strmapPut_capacity m e.1 e.2
    rw [List.foldlM_cons, List.foldl_cons, strmapSetWithin, if_neg hNoGrow, hSet]
    exact ih (strmapPut m e.1 e.2) (by omega)

/-- The slots from `k` on, so many of them. -/
def slotsFrom (n k t : Nat) : List Nat := (List.range t).map fun i => (k + i) % n

theorem slotsFrom_succ (n k t : Nat) : slotsFrom n k (t + 1) = k % n :: slotsFrom n (k + 1) t := by
  rw [slotsFrom, List.range_succ_eq_map, List.map_cons, List.map_map, Nat.add_zero]
  congr 1
  apply List.map_congr_left
  intro i _
  rw [Function.comp_apply, Nat.succ_eq_add_one]
  congr 1
  omega

theorem round_ne {n k i : Nat} (hPos : 0 < i) (hLess : i < n) : (k + i) % n ≠ k % n := by
  intro hSame
  have hZero : i % n = 0 % n := Nat.ModEq.add_left_cancel' k (show (k + i) % n = (k + 0) % n from hSame)
  rw [Nat.mod_eq_of_lt hLess, Nat.zero_mod] at hZero
  omega

theorem not_mem_slotsFrom {n k t : Nat} (h : t < n) : k % n ∉ slotsFrom n (k + 1) t := by
  intro hMem
  obtain ⟨i, hi, hSame⟩ := List.mem_map.mp hMem
  have hBelow := List.mem_range.mp hi
  rw [Nat.add_assoc] at hSame
  exact round_ne (by omega) (by omega) hSame

theorem getElem?_set_round {slots : Slots Bytes Bytes} {k i : Nat} (hLess : i + 1 < slots.length)
    (e : Option (Bytes × Bytes)) :
    (slots.set (k % slots.length) e)[(k + 1 + i) % slots.length]? = slots[(k + 1 + i) % slots.length]? := by
  have hSame : k + 1 + i = k + (i + 1) := by omega
  rw [store_getElem? (Nat.mod_lt _ (by omega)), hSame, if_neg (round_ne (Nat.succ_pos i) hLess)]

theorem pullCluster_eq (t : Nat) : ∀ {m : StrMap} {k fuel : Nat} (held : List (Bytes × Bytes)), t < fuel →
    t < m.entries.length → (∀ i < t, (m.entries[(k + i) % m.entries.length]?.join).isNone = false) →
    m.entries[(k + t) % m.entries.length]?.join = none →
    pullCluster fuel m (k % m.entries.length) held =
      some (⟨clearAll m.entries (slotsFrom m.entries.length k t),
          m.count - (heldIn m.entries (slotsFrom m.entries.length k t)).length⟩,
        held ++ heldIn m.entries (slotsFrom m.entries.length k t)) := by
  induction t with
  | zero =>
    intro m k fuel held hFuel _ _ hStop
    obtain ⟨fuel, rfl⟩ : ∃ fuel', fuel = fuel' + 1 := ⟨fuel - 1, by omega⟩
    rw [Nat.add_zero] at hStop
    rw [pullCluster, hStop]
    simp [slotsFrom, clearAll, heldIn]
  | succ t ih =>
    intro m k fuel held hFuel hLess hFull hStop
    obtain ⟨fuel, rfl⟩ : ∃ fuel', fuel = fuel' + 1 := ⟨fuel - 1, by omega⟩
    have hFirst := hFull 0 (Nat.zero_lt_succ t)
    rw [Nat.add_zero] at hFirst
    obtain ⟨e, he⟩ :=
      Option.ne_none_iff_exists'.mp (mt Option.isNone_iff_eq_none.mpr (ne_true_of_eq_false hFirst))
    have hOther : ∀ i ≤ t, (m.entries.set (k % m.entries.length) none)[(k + 1 + i) % m.entries.length]? =
        m.entries[(k + (i + 1)) % m.entries.length]? := by
      intro i hi
      rw [getElem?_set_round (by omega), Nat.add_assoc, Nat.add_comm 1]
    have hRest := @ih ⟨m.entries.set (k % m.entries.length) none, m.count - 1⟩ (k + 1) fuel (held ++ [e])
      (Nat.lt_of_succ_lt_succ hFuel) (by rw [List.length_set]; omega)
    rw [List.length_set] at hRest
    have hPull := hRest (fun i hi => by rw [hOther i hi.le]; exact hFull (i + 1) (Nat.succ_lt_succ hi))
      (by rw [hOther t le_rfl]; exact hStop)
    rw [pullCluster, he]
    dsimp only
    rw [StrMap.capacity, Nat.mod_add_mod, hPull, heldIn_set (not_mem_slotsFrom (by omega)),
      slotsFrom_succ, heldIn_cons, he,
      Option.toList_some, List.append_assoc, List.singleton_append, List.length_cons, Nat.sub_sub,
      Nat.add_comm 1]
    rfl

theorem pullCluster_removed {m : StrMap} {idx fuel : Nat} (hLess : idx < m.entries.length)
    (hFuel : m.entries.length ≤ fuel) :
    pullCluster fuel ⟨m.entries.set idx none, m.count - 1⟩ ((idx + 1) % m.entries.length) [] =
      some (⟨clearAll m.entries (idx :: clusterFrom m.entries idx),
          m.count - 1 - (heldIn m.entries (clusterFrom m.entries idx)).length⟩,
        heldIn m.entries (clusterFrom m.entries idx)) := by
  have hLe := clusterLength_le m.entries idx
  have hElse : ∀ i < m.entries.length - 1, (m.entries.set idx none)[(idx + 1 + i) % m.entries.length]? =
      m.entries[(idx + 1 + i) % m.entries.length]? := by
    intro i hi
    have hSet := @getElem?_set_round m.entries idx i (by omega) none
    rwa [Nat.mod_eq_of_lt hLess] at hSet
  have hFull : ∀ i < clusterLength m.entries idx,
      ((m.entries.set idx none)[(idx + 1 + i) % m.entries.length]?.join).isNone = false := by
    intro i hi
    have hBefore := List.not_of_lt_findIdx hi
    rw [List.getElem_range] at hBefore
    rw [hElse i (hi.trans_le hLe)]
    exact hBefore
  have hStop :
    (m.entries.set idx none)[(idx + 1 + clusterLength m.entries idx) % m.entries.length]?.join = none := by
    rcases hLe.lt_or_eq with hShort | hRound
    · have hIn : clusterLength m.entries idx < (List.range (m.entries.length - 1)).length := by
        rwa [List.length_range]
      obtain ⟨hFound, _⟩ := (List.findIdx_eq hIn).mp (rfl : clusterLength m.entries idx = _)
      rw [List.getElem_range] at hFound
      rw [hElse _ hShort]
      exact Option.isNone_iff_eq_none.mp hFound
    · have hWhole : idx + 1 + clusterLength m.entries idx = idx + m.entries.length := by omega
      rw [hWhole, Nat.add_mod_right, Nat.mod_eq_of_lt hLess, store_getElem? hLess, if_pos rfl]
      rfl
  have hNot : idx ∉ clusterFrom m.entries idx := by
    have hNotRound := @not_mem_slotsFrom m.entries.length idx (clusterLength m.entries idx) (by omega)
    rwa [Nat.mod_eq_of_lt hLess] at hNotRound
  have hPull := @pullCluster_eq (clusterLength m.entries idx) ⟨m.entries.set idx none, m.count - 1⟩
    (idx + 1) fuel []
    (by omega) (by rw [List.length_set]; omega)
  have hSlots : slotsFrom m.entries.length (idx + 1) (clusterLength m.entries idx) =
    clusterFrom m.entries idx := rfl
  rw [List.length_set, hSlots, heldIn_set hNot] at hPull
  exact hPull hFull hStop

theorem length_heldIn_clusterFrom {m : StrMap} (h : m.WF) {idx : Nat} {e : Bytes × Bytes}
    (hSlot : m.entries[idx]? = some (some e)) :
    (heldIn m.entries (clusterFrom m.entries idx)).length < m.count := by
  obtain ⟨hLess, _⟩ := List.getElem?_eq_some_iff.mp hSlot
  have hIn : ∀ j ∈ idx :: clusterFrom m.entries idx, j < m.entries.length := by
    intro j hj
    obtain ⟨t, _, rfl⟩ := (mem_clusterFrom_cons hLess j).mp hj
    exact Nat.mod_lt _ (by omega)
  have hAll : heldIn m.entries (idx :: clusterFrom m.entries idx) = e :: heldIn m.entries
    (clusterFrom m.entries idx) := by
    rw [heldIn_cons, hSlot]
    rfl
  have hCount := occupied_clearAll _ m.entries hIn (clusterFrom_cons_nodup hLess)
  rw [hAll, List.length_cons, ← h.count_eq] at hCount
  omega

theorem strmapDeleteWithin_eq {m : StrMap} (h : m.WF) {fuel : Nat} (hFuel : m.capacity ≤ fuel) (key : Bytes) :
    strmapDeleteWithin fuel m key = some (strmapDelete m key) := by
  rw [strmapDeleteWithin, strmapDelete]
  split
  · rename_i hZero
    have hNil : m.entries = [] := List.length_eq_zero_iff.mp hZero
    rw [hNil]
    rfl
  · rename_i hCap
    obtain ⟨idx, hIdx⟩ := exists_probe_of_room h hCap key
    have hWalk : walk (stops m.entries key) m.capacity fuel (hashIndex key % m.capacity) = some idx :=
      walk_of_find hFuel hIdx
    rw [hWalk, Option.bind_some, hIdx]
    dsimp only
    split
    · rfl
    · rename_i hFull
      obtain ⟨e, he⟩ := Option.ne_none_iff_exists'.mp (mt Option.isNone_iff_eq_none.mpr hFull)
      have hSlot := Option.join_eq_some_iff.mp he
      have hHeld := length_heldIn_clusterFrom h hSlot
      have hLoad := h.load
      rw [StrMap.capacity, pullCluster_removed (probe_lt hIdx) hFuel, Option.bind_some,
        foldlM_strmapSetWithin]
      · rfl
      · rw [StrMap.capacity, clearAll_length]
        change m.count * 2 ≤ m.entries.length at hLoad
        dsimp only
        omega

/-! ## Runs -/

theorem foldl_strmapSet_capacity (held : List (Bytes × Bytes)) : ∀ m : StrMap,
    (m.count + held.length) * 2 ≤ m.capacity →
      (held.foldl (fun m e => strmapSet m e.1 e.2) m).capacity = m.capacity := by
  induction held with
  | nil => exact fun _ _ => rfl
  | cons e held ih =>
    intro m hRoom
    rw [List.length_cons] at hRoom
    have hCount := strmapPut_count_le m e.1 e.2
    have hCapacity := strmapPut_capacity m e.1 e.2
    rw [List.foldl_cons, strmapSet, if_neg (by omega), ih _ (by omega), hCapacity]

theorem strmapDelete_capacity {m : StrMap} (h : m.WF) (key : Bytes) :
    (strmapDelete m key).capacity = m.capacity := by
  have hLoad := h.load
  rw [strmapDelete]
  split
  · rfl
  · rename_i idx hIdx
    split
    · rfl
    · rename_i hFull
      obtain ⟨e, he⟩ := Option.ne_none_iff_exists'.mp (mt Option.isNone_iff_eq_none.mpr hFull)
      have hHeld := length_heldIn_clusterFrom h (Option.join_eq_some_iff.mp he)
      have hCleared : StrMap.capacity ⟨clearAll m.entries (idx :: clusterFrom m.entries idx),
          m.count - 1 - (heldIn m.entries (clusterFrom m.entries idx)).length⟩ = m.capacity :=
          clearAll_length _ _
      have hKeeps := foldl_strmapSet_capacity (heldIn m.entries (clusterFrom m.entries idx))
        ⟨clearAll m.entries (idx :: clusterFrom m.entries idx),
          m.count - 1 - (heldIn m.entries (clusterFrom m.entries idx)).length⟩
            (by rw [hCleared]; dsimp only; omega)
      exact hKeeps.trans hCleared

theorem strmapSet_capacity (m : StrMap) (key value : Bytes) : (strmapSet m key value).capacity = m.capacity ∨
    (strmapSet m key value).capacity = if m.capacity = 0 then 16 else m.capacity * 2 := by
  rw [strmapSet]
  split
  · right
    rw [strmapPut_capacity]
    exact (placeAll_length hashIndex m.entries _).trans List.length_replicate
  · exact .inl (strmapPut_capacity m key value)

/-- A map that has come about by the calls given, newest first. -/
structure StrMap.Holds (m : StrMap) (earlier : List MapCall) : Prop where
  wf : m.WF
  get_eq : strmapGet m = bound earlier
  pow : m.capacity = 0 ∨ ∃ n, m.capacity = 2 ^ n

theorem strmapInit_holds : strmapInit.Holds [] where
  wf := strmapInit_wf
  get_eq := rfl
  pow := .inl rfl

theorem StrMap.Holds.set {m : StrMap} {earlier : List MapCall} (h : m.Holds earlier) {key value : Bytes}
    (hNul : (MapCall.set key value).NulFree) : (strmapSet m key value).Holds (.set key value :: earlier) where
  wf := (strmapSet_spec h.wf hNul.1 value).1
  get_eq := by
    rw [strmapGet_strmapSet h.wf hNul.1, dupOwn_of_not_mem hNul.2, h.get_eq]
    funext k
    rw [Function.update_apply]
    rfl
  pow := by
    rcases strmapSet_capacity m key value with hSame | hMore
    · rw [hSame]
      exact h.pow
    · right
      rw [hMore]
      rcases h.pow with hZero | ⟨n, hn⟩
      · exact ⟨4, if_pos hZero⟩
      · refine ⟨n + 1, ?_⟩
        rw [if_neg (by rw [hn]; exact (Nat.two_pow_pos n).ne'), hn, Nat.pow_succ]

theorem StrMap.Holds.get {m : StrMap} {earlier : List MapCall} (h : m.Holds earlier) (key : Bytes) :
    m.Holds (.get key :: earlier) :=
  ⟨h.wf, h.get_eq, h.pow⟩

theorem StrMap.Holds.delete {m : StrMap} {earlier : List MapCall} (h : m.Holds earlier) (key : Bytes) :
    (strmapDelete m key).Holds (.delete key :: earlier) where
  wf := (strmapDelete_spec h.wf key).1
  get_eq := by
    rw [strmapGet_strmapDelete h.wf, h.get_eq]
    funext k
    rw [Function.update_apply]
    rfl
  pow := by
    rw [strmapDelete_capacity h.wf]
    exact h.pow

/-- A call at most doubles the table, so fuel for the largest one is enough. -/
theorem run_mapCall (calls : List MapCall) : ∀ {m : StrMap} {earlier : List MapCall}, m.Holds earlier →
    (∀ c ∈ calls, c.NulFree) → ∃ m', m'.Holds (calls.reverse ++ earlier) ∧
      ∀ fuel ≥ (m.capacity + 16) * 2 ^ calls.length,
      run (mapCall fuel) m calls = some (m', expected earlier calls) := by
  induction calls with
  | nil => exact fun h _ => ⟨_, h, fun _ _ => rfl⟩
  | cons c calls ih =>
    intro m earlier h hNul
    have hRest : ∀ c' ∈ calls, c'.NulFree := fun c' hc' => hNul c' (List.mem_cons_of_mem _ hc')
    have hNow := hNul c List.mem_cons_self
    have hPos : 0 < 2 ^ calls.length := Nat.two_pow_pos _
    have hFuel : ∀ {cap fuel : Nat}, cap ≤ 2 * m.capacity + 16 →
      fuel ≥ (m.capacity + 16) * 2 ^ (c :: calls).length →
        fuel ≥ (cap + 16) * 2 ^ calls.length ∧ 2 * m.capacity + 16 ≤ fuel := by
      intro cap fuel hCap hFuel
      rw [List.length_cons, Nat.pow_succ', ← Nat.mul_assoc] at hFuel
      have hMul := Nat.mul_le_mul_right (2 ^ calls.length) (show cap + 16 ≤ (m.capacity + 16) * 2 by omega)
      have hOne := Nat.le_mul_of_pos_right ((m.capacity + 16) * 2) hPos
      exact ⟨hMul.trans hFuel, by omega⟩
    rw [List.reverse_cons, List.append_assoc]
    cases c with
    | set key value =>
      obtain ⟨m', hHolds, hRun⟩ := ih (h.set hNow) hRest
      have hCap : (strmapSet m key value).capacity ≤ 2 * m.capacity + 16 := by
        rcases strmapSet_capacity m key value with hSame | hMore
        · omega
        · rw [hMore]
          split <;> omega
      refine ⟨m', hHolds, fun fuel hEnough => ?_⟩
      obtain ⟨hAfter, hHere⟩ := hFuel hCap hEnough
      rw [run, mapCall, strmapSetWithin_eq h.wf hHere, Option.map_some, Option.bind_some, hRun fuel hAfter]
      rfl
    | get key =>
      obtain ⟨m', hHolds, hRun⟩ := ih (h.get key) hRest
      refine ⟨m', hHolds, fun fuel hEnough => ?_⟩
      obtain ⟨hAfter, _⟩ := @hFuel m.capacity fuel (by omega) hEnough
      rw [run, mapCall, Option.bind_some, hRun fuel hAfter, h.get_eq]
      rfl
    | delete key =>
      obtain ⟨m', hHolds, hRun⟩ := ih (h.delete key) hRest
      refine ⟨m', hHolds, fun fuel hEnough => ?_⟩
      obtain ⟨hAfter, hHere⟩ :=
        @hFuel (strmapDelete m key).capacity fuel (by rw [strmapDelete_capacity h.wf]; omega) hEnough
      rw [run, mapCall, strmapDeleteWithin_eq h.wf (by omega), Option.map_some, Option.bind_some,
        hRun fuel hAfter]
      rfl

/-- From the hash of its key, probing comes to an entry over entries of other keys. -/
def StrMap.Reachable (m : StrMap) : Prop :=
  ∀ (j : Nat) (k v : Bytes), m.entries[j]? = some (some (k, v)) → ∃ i < m.capacity,
    (hashIndex k + i) % m.capacity = j ∧
    ∀ i' < i, ∃ k' v', m.entries[(hashIndex k + i') % m.capacity]? = some (some (k', v')) ∧ k' ≠ k

theorem StrMap.WF.reachable {m : StrMap} (h : m.WF) : m.Reachable := by
  intro j k v hj
  obtain ⟨i, hi, hij, _, hBefore⟩ := (probe_eq_some_iff _ _ _ _).mp (h.inv j k v hj)
  exact ⟨i, hi, hij, fun i' hi' => (stops_false_iff _ _ _).mp (hBefore i' hi')⟩

theorem StrMap.WF.encard_keys {m : StrMap} (h : m.WF) : {k | strmapGet m k ≠ none}.encard = m.count := by
  have hKeys : {k | strmapGet m k ≠ none} = ((keys m.entries).toFinset : Set Bytes) := by
    ext k
    rw [Set.mem_ofPred_eq, Option.ne_none_iff_exists', List.coe_toFinset, Set.mem_ofPred_eq, mem_keys_iff]
    simp only [strmapGet_eq_some_iff h]
    rfl
  rw [hKeys, Set.encard_coe_eq_coe_finsetCard, List.toFinset_card_of_nodup h.inv.keys_nodup,
    length_keys, h.count_eq]

theorem strmapDelete_count {m : StrMap} (h : m.WF) {key value : Bytes} (hMaps : m.Maps key value) :
    (strmapDelete m key).count + 1 = m.count := by
  have hOut : {k | strmapGet (strmapDelete m key) k ≠ none} = {k | strmapGet m k ≠ none} \ {key} := by
    ext k
    rw [Set.mem_sdiff, Set.mem_singleton_iff, Set.mem_ofPred_eq, Set.mem_ofPred_eq, strmapGet_strmapDelete h]
    rcases eq_or_ne k key with rfl | hNe
    · simp
    · simp [hNe]
  have hIn : key ∈ {k | strmapGet m k ≠ none} := by
    rw [Set.mem_ofPred_eq, (strmapGet_eq_some_iff h key value).mpr hMaps]
    exact Option.some_ne_none value
  have hCard := Set.encard_sdiff_singleton_add_one hIn
  rw [← hOut, (strmapDelete_spec h key).1.encard_keys, h.encard_keys] at hCard
  exact_mod_cast hCard

/-- In every run every loop ends, the answers are those of a map, the count is the
number of keys, half of the slots are free, and every entry is reached by probing
without crossing an empty slot. -/
theorem strmap_refines_map (calls : List MapCall) (hNul : ∀ c ∈ calls, c.NulFree) :
    ∃ m, (∃ enough, ∀ fuel ≥ enough, run (mapCall fuel) strmapInit calls = some (m, expected [] calls)) ∧
      strmapGet m = bound calls.reverse ∧ {k | bound calls.reverse k ≠ none}.encard = m.count ∧
      m.count ≤ m.capacity / 2 ∧ (m.capacity = 0 ∨ ∃ n, m.capacity = 2 ^ n) ∧ m.Reachable := by
  obtain ⟨m, hHolds, hRun⟩ := run_mapCall calls strmapInit_holds hNul
  rw [List.append_nil] at hHolds
  have hLoad := hHolds.wf.load
  refine ⟨m, ⟨_, hRun⟩, hHolds.get_eq, ?_, by omega, hHolds.pow, hHolds.wf.reachable⟩
  rw [← hHolds.get_eq]
  exact hHolds.wf.encard_keys

def churn : List MapCall :=
  [.set (ascii "a") (ascii "1"), .set (ascii "b") [], .get (ascii "a"), .delete (ascii "a"),
    .get (ascii "a"), .get (ascii "b")]

theorem strmap_refines_map_churn : ∃ fuel m, run (mapCall fuel) strmapInit churn =
    some (m, [.status 0, .status 0, .value (some (ascii "1")), .done, .value none, .value (some [])]) ∧
    strmapGet m (ascii "b") = some [] := by
  obtain ⟨m, ⟨fuel, hRun⟩, hGet, _⟩ := strmap_refines_map churn (by decide)
  have hAnswers : expected [] churn =
      [.status 0, .status 0, .value (some (ascii "1")), .done, .value none, .value (some [])] := by decide
  refine ⟨fuel, m, ?_, ?_⟩
  · rw [hRun fuel le_rfl, hAnswers]
  · rw [hGet]
    decide

end Cweb
