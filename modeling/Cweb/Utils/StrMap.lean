import Mathlib.Data.List.Nodup
import Mathlib.Data.Nat.ModEq
import Cweb.Lib.LinearProbe
import Cweb.Lib.Lookup
import Cweb.Utils.Sv

/-!
# The string map

`Str_Map` is an open-addressing table from owned C strings to owned C strings
under the FNV-1a hash. Keys and values enter as views and are copied; a copy
is only ever read back as a C string, so what the map holds is the copy up to
its first NUL. The capacity is a power of two and the mask of the source is
the remainder here.
-/

namespace Cweb

open LinearProbe Sv

def fnv1a (s : Bytes) : UInt64 :=
  s.foldl (fun h c => (h ^^^ c.toUInt64) * 1099511628211) 14695981039346656037

def hashIndex (s : Bytes) : Nat := (fnv1a s).toNat

structure StrMap where
  entries : Slots Bytes Bytes
  count : Nat
deriving DecidableEq, Repr

def StrMap.capacity (m : StrMap) : Nat := m.entries.length

def strmapInit : StrMap := ⟨[], 0⟩

/-- An owned copy, as the C string it reads back as. -/
def dupOwn (data : Bytes) : Bytes := svFromCstr data

def strmapGet (m : StrMap) (key : Bytes) : Option Bytes :=
  if m.capacity = 0 then none else lookup hashIndex m.entries key

def strmapGrow (m : StrMap) : StrMap :=
  let newCap := if m.capacity = 0 then 16 else m.capacity * 2
  { m with entries := placeAll hashIndex (List.replicate newCap none) m.entries }

/-- The probing loop of `strmap_set`, which returns without effect when the
table is full. -/
def strmapPut (m : StrMap) (key value : Bytes) : StrMap :=
  match probe m.entries (hashIndex key) key with
  | none => m
  | some j =>
    { entries := m.entries.set j (some (dupOwn key, dupOwn value))
      count := if (m.entries[j]?.join).isNone then m.count + 1 else m.count }

def strmapSet (m : StrMap) (key value : Bytes) : StrMap :=
  if m.capacity = 0 ∨ m.capacity ≤ m.count * 2 then strmapPut (strmapGrow m) key value
  else strmapPut m key value

/-- How many occupied slots follow slot `idx` without a gap. -/
def clusterLength (entries : Slots Bytes Bytes) (idx : Nat) : Nat :=
  (List.range (entries.length - 1)).findIdx fun i =>
    (entries[(idx + 1 + i) % entries.length]?.join).isNone

/-- The entry is removed, the cluster behind it pulled out and set again. -/
def strmapDelete (m : StrMap) (key : Bytes) : StrMap :=
  match probe m.entries (hashIndex key) key with
  | none => m
  | some idx =>
    if (m.entries[idx]?.join).isNone then m
    else
      let cluster := (List.range (clusterLength m.entries idx)).map fun i =>
        (idx + 1 + i) % m.capacity
      let held := cluster.filterMap fun j => m.entries[j]?.join
      let cleared := (idx :: cluster).foldl (fun entries j => entries.set j none) m.entries
      held.foldl (fun m e => strmapSet m e.1 e.2) ⟨cleared, m.count - 1 - held.length⟩

/-- What every map built by the operations satisfies. -/
structure StrMap.WF (m : StrMap) : Prop where
  inv : Inv hashIndex m.entries
  count_eq : m.count = occupied m.entries
  load : m.count * 2 ≤ m.capacity
  even : 2 ∣ m.capacity
  cstr : ∀ k v, Stored m.entries k v → 0 ∉ k ∧ 0 ∉ v

def StrMap.Maps (m : StrMap) (k v : Bytes) : Prop := Stored m.entries k v

theorem strmapInit_wf : strmapInit.WF where
  inv := by
    intro j k v hj
    cases hj
  count_eq := rfl
  load := le_rfl
  even := ⟨0, rfl⟩
  cstr := by
    rintro k v ⟨j, hj⟩
    cases hj

theorem dupOwn_of_not_mem {s : Bytes} (h : 0 ∉ s) : dupOwn s = s := svFromCstr_of_not_mem h

theorem not_mem_dupOwn (s : Bytes) : 0 ∉ dupOwn s := not_mem_svFromCstr s

theorem strmapGet_eq_some_iff {m : StrMap} (h : m.WF) (k v : Bytes) :
    strmapGet m k = some v ↔ m.Maps k v := by
  rw [strmapGet]
  split
  · rename_i hZero
    have hNil : m.entries = [] := List.length_eq_zero_iff.mp hZero
    constructor
    · intro hNone
      cases hNone
    · rintro ⟨j, hj⟩
      rw [hNil] at hj
      cases hj
  · exact lookup_eq_some_iff h.inv k v

theorem strmapGrow_spec {m : StrMap} (h : m.WF) :
    (strmapGrow m).WF ∧ m.count < (strmapGrow m).capacity ∧
      (strmapGrow m).count * 2 < (strmapGrow m).capacity ∧
      ∀ k v, (strmapGrow m).Maps k v ↔ m.Maps k v := by
  have hLoad := h.load
  have hCount := h.count_eq
  set newCap := if m.capacity = 0 then 16 else m.capacity * 2 with hCap
  have hLarge : m.count * 2 < newCap := by
    rw [hCap]
    split <;> omega
  have hFresh : occupied (List.replicate newCap none : Slots Bytes Bytes) = 0 := by
    simp [occupied, List.countP_replicate]
  have hAbsent : ∀ k v, ¬ Stored (List.replicate newCap none : Slots Bytes Bytes) k v := by
    rintro k v ⟨j, hj⟩
    rw [List.getElem?_replicate] at hj
    split at hj <;> cases hj
  have hSpec := placeAll_spec hashIndex m.entries (List.replicate newCap none)
    (inv_replicate hashIndex newCap) (by rw [hFresh, List.length_replicate]; omega)
    (fun k _ v' _ => hAbsent k v') h.inv.pairwise
  have hMaps : ∀ k v, (strmapGrow m).Maps k v ↔ m.Maps k v := by
    intro k v
    have hStored := hSpec.stored k v
    constructor
    · intro hNew
      rcases hStored.mp hNew with hOld | hMem
      · exact absurd hOld (hAbsent k v)
      · exact List.getElem?_of_mem hMem
    · rintro ⟨j, hj⟩
      exact hStored.mpr (.inr (List.mem_of_getElem? hj))
  have hLength : (strmapGrow m).capacity = newCap := by
    have hLen := hSpec.length
    rw [List.length_replicate] at hLen
    exact hLen
  refine ⟨⟨hSpec.inv, ?_, ?_, ?_, ?_⟩, ?_, ?_, hMaps⟩
  · have hOcc := hSpec.occupied
    rw [hFresh, Nat.zero_add] at hOcc
    exact hCount.trans hOcc.symm
  · rw [hLength]
    exact hLarge.le
  · rw [hLength, hCap]
    split <;> omega
  · intro k v hStored
    exact h.cstr k v ((hMaps k v).mp hStored)
  · rw [hLength]
    omega
  · rw [hLength]
    exact hLarge

theorem strmapPut_spec {m : StrMap} (h : m.WF) (hRoom : m.count * 2 < m.capacity) {key : Bytes}
    (hKey : 0 ∉ key) (value : Bytes) :
    (strmapPut m key value).WF ∧ ∀ k v, (strmapPut m key value).Maps k v ↔
      (k = key ∧ v = dupOwn value) ∨ (k ≠ key ∧ m.Maps k v) := by
  have hOcc := h.count_eq
  have hLess : occupied m.entries < m.entries.length := by
    change m.count * 2 < m.entries.length at hRoom
    omega
  obtain ⟨free, hFree⟩ := exists_empty hLess
  obtain ⟨j, hj⟩ := exists_probe hFree (hashIndex key) key
  have hStore : store hashIndex m.entries key (dupOwn value) =
      some (m.entries.set j (some (key, dupOwn value))) := by
    rw [store, hj]
    rfl
  have hMaps : ∀ k v, (strmapPut m key value).Maps k v ↔
      (k = key ∧ v = dupOwn value) ∨ (k ≠ key ∧ m.Maps k v) := by
    intro k v
    simp only [strmapPut, hj, dupOwn_of_not_mem hKey]
    exact stored_store h.inv hStore k v
  have hEven := h.even
  refine ⟨⟨?_, ?_, ?_, ?_, ?_⟩, hMaps⟩
  · simp only [strmapPut, hj, dupOwn_of_not_mem hKey]
    exact store_inv h.inv hStore
  · have hjLess := probe_lt hj
    simp only [strmapPut, hj]
    cases hSlot : m.entries[j] with
    | none =>
      have hEmpty : m.entries[j]? = some none := by rw [List.getElem?_eq_getElem hjLess, hSlot]
      rw [occupied_set_of_empty hEmpty, hEmpty]
      simp [hOcc]
    | some e =>
      have hFull : m.entries[j]? = some (some e) := by rw [List.getElem?_eq_getElem hjLess, hSlot]
      rw [occupied_set_of_stored hFull, hFull]
      simp [hOcc]
  · simp only [strmapPut, hj, StrMap.capacity, List.length_set] at hRoom hEven ⊢
    split <;> omega
  · simpa only [strmapPut, hj, StrMap.capacity, List.length_set] using hEven
  · intro k v hStored
    rcases (hMaps k v).mp hStored with ⟨rfl, rfl⟩ | ⟨_, hOld⟩
    · exact ⟨hKey, not_mem_dupOwn value⟩
    · exact h.cstr k v hOld

theorem strmapSet_spec {m : StrMap} (h : m.WF) {key : Bytes} (hKey : 0 ∉ key) (value : Bytes) :
    (strmapSet m key value).WF ∧ ∀ k v, (strmapSet m key value).Maps k v ↔
      (k = key ∧ v = dupOwn value) ∨ (k ≠ key ∧ m.Maps k v) := by
  rw [strmapSet]
  split
  · obtain ⟨hWf, _, hRoom, hMaps⟩ := strmapGrow_spec h
    obtain ⟨hPut, hPutMaps⟩ := strmapPut_spec hWf hRoom hKey value
    refine ⟨hPut, ?_⟩
    intro k v
    rw [hPutMaps, hMaps]
  · exact strmapPut_spec h (by omega) hKey value

theorem foldl_strmapSet_spec (ps : List (Bytes × Bytes)) :
    ∀ m : StrMap, m.WF → (∀ e ∈ ps, 0 ∉ e.1) → (ps.map Prod.fst).Nodup →
      (ps.foldl (fun data e => strmapSet data e.1 e.2) m).WF ∧
      ∀ k v, (ps.foldl (fun data e => strmapSet data e.1 e.2) m).Maps k v ↔
        (∃ v', (k, v') ∈ ps ∧ v = dupOwn v') ∨ (k ∉ ps.map Prod.fst ∧ m.Maps k v) := by
  induction ps with
  | nil =>
    intro m h _ _
    refine ⟨h, ?_⟩
    simp
  | cons e ps ih =>
    intro m h hKeys hNodup
    obtain ⟨key, value⟩ := e
    rw [List.map_cons, List.nodup_cons] at hNodup
    obtain ⟨hSet, hMaps⟩ := strmapSet_spec h (hKeys _ List.mem_cons_self) value
    obtain ⟨hWf, hRest⟩ := ih _ hSet (fun e he => hKeys e (List.mem_cons_of_mem _ he)) hNodup.2
    refine ⟨hWf, ?_⟩
    intro k v
    rw [List.foldl_cons, hRest, hMaps, List.map_cons, List.mem_cons]
    constructor
    · rintro (⟨v', hMem, rfl⟩ | ⟨hOut, ⟨rfl, rfl⟩ | ⟨hne, hOld⟩⟩)
      · exact .inl ⟨v', List.mem_cons_of_mem _ hMem, rfl⟩
      · exact .inl ⟨value, List.mem_cons_self, rfl⟩
      · exact .inr ⟨by simp [hne, hOut], hOld⟩
    · rintro (⟨v', hMem, rfl⟩ | ⟨hOut, hOld⟩)
      · rcases List.mem_cons.mp hMem with hEq | hMem
        · cases hEq
          exact .inr ⟨hNodup.1, .inl ⟨rfl, rfl⟩⟩
        · exact .inl ⟨v', hMem, rfl⟩
      · rw [not_or] at hOut
        exact .inr ⟨hOut.2, .inr ⟨hOut.1, hOld⟩⟩

/-- The emptied slots of a deletion, in the order of the walk. -/
def clusterFrom (entries : Slots Bytes Bytes) (idx : Nat) : List Nat :=
  (List.range (clusterLength entries idx)).map fun i => (idx + 1 + i) % entries.length

theorem clusterFrom_cons {entries : Slots Bytes Bytes} {idx : Nat} (hIdx : idx < entries.length) :
    idx :: clusterFrom entries idx =
      (List.range (clusterLength entries idx + 1)).map fun t => (idx + t) % entries.length := by
  rw [List.range_succ_eq_map, List.map_cons, List.map_map, Nat.add_zero, Nat.mod_eq_of_lt hIdx, clusterFrom]
  congr 1
  apply List.map_congr_left
  intro i _
  rw [Function.comp_apply, Nat.succ_eq_add_one]
  congr 1
  omega

theorem clusterLength_le (entries : Slots Bytes Bytes) (idx : Nat) :
    clusterLength entries idx ≤ entries.length - 1 :=
  List.findIdx_le_length.trans_eq List.length_range

theorem mem_clusterFrom_cons {entries : Slots Bytes Bytes} {idx : Nat} (hIdx : idx < entries.length)
    (j : Nat) :
    j ∈ idx :: clusterFrom entries idx ↔ ∃ t ≤ clusterLength entries idx, (idx + t) % entries.length = j := by
  simp only [clusterFrom_cons hIdx, List.mem_map, List.mem_range, Nat.lt_succ_iff]

theorem clusterFrom_cons_nodup {entries : Slots Bytes Bytes} {idx : Nat} (hIdx : idx < entries.length) :
    (idx :: clusterFrom entries idx).Nodup := by
  have hLe := clusterLength_le entries idx
  rw [clusterFrom_cons hIdx]
  refine List.Nodup.map_on ?_ List.nodup_range
  intro a ha b hb hEq
  rw [List.mem_range] at ha hb
  have hMod : a % entries.length = b % entries.length := Nat.ModEq.add_left_cancel' idx hEq
  rwa [Nat.mod_eq_of_lt (by omega), Nat.mod_eq_of_lt (by omega)] at hMod

theorem clusterFrom_downstream {entries : Slots Bytes Bytes} {idx : Nat} (hIdx : idx < entries.length) :
    Downstream entries (idx :: clusterFrom entries idx) := by
  intro j hj
  obtain ⟨t, ht, rfl⟩ := (mem_clusterFrom_cons hIdx j).mp hj
  have hLe := clusterLength_le entries idx
  have hNext : ((idx + t) % entries.length + 1) % entries.length = (idx + (t + 1)) % entries.length := by
    rw [Nat.mod_add_mod]
    congr 1
  rw [hNext, mem_clusterFrom_cons hIdx]
  rcases Nat.lt_or_ge t (clusterLength entries idx) with hLt | hGe
  · exact .inl ⟨t + 1, hLt, rfl⟩
  · obtain rfl : t = clusterLength entries idx := by omega
    rcases hLe.lt_or_eq with hShort | hRound
    · right
      have hIn : clusterLength entries idx < (List.range (entries.length - 1)).length := by
        rwa [List.length_range]
      have hIs : clusterLength entries idx = clusterLength entries idx := rfl
      obtain ⟨hFound, _⟩ := (List.findIdx_eq hIn).mp hIs
      rw [List.getElem_range] at hFound
      have hSlot : (entries[(idx + (clusterLength entries idx + 1)) % entries.length]?.join) = none := by
        rw [Nat.add_comm (clusterLength entries idx), ← Nat.add_assoc]
        exact Option.isNone_iff_eq_none.mp hFound
      rw [List.getElem?_eq_getElem (Nat.mod_lt _ (by omega))] at hSlot ⊢
      exact congrArg some hSlot
    · left
      refine ⟨0, Nat.zero_le _, ?_⟩
      have hWhole : idx + (clusterLength entries idx + 1) = idx + entries.length := by omega
      rw [hWhole, Nat.add_mod_right, Nat.add_zero]

theorem clearAll_wf {m : StrMap} (h : m.WF) {js : List Nat} (hLess : ∀ j ∈ js, j < m.entries.length)
    (hNodup : js.Nodup)
    (hDown : Downstream m.entries js) :
    StrMap.WF ⟨clearAll m.entries js, m.count - (heldIn m.entries js).length⟩ := by
  have hCount := h.count_eq
  have hLoad := h.load
  have hEven := h.even
  have hOccupied := occupied_clearAll js m.entries hLess hNodup
  refine ⟨clearAll_inv h.inv hLess hDown, ?_, ?_, ?_, ?_⟩
  · change m.count - _ = occupied (clearAll m.entries js)
    omega
  · simp only [StrMap.capacity, clearAll_length] at hLoad ⊢
    omega
  · simpa only [StrMap.capacity, clearAll_length] using hEven
  · intro k v hStored
    obtain ⟨j, _, hj⟩ := (stored_clearAll_iff hLess k v).mp hStored
    exact h.cstr k v ⟨j, hj⟩

/-- A removed entry and the cluster behind it are taken out, and the cluster is set
again. -/
theorem reinsert_spec {m : StrMap} (h : m.WF) {idx : Nat} {key value : Bytes}
    (hSlot : m.entries[idx]? = some (some (key, value))) {held : List (Bytes × Bytes)}
    (hHeld : held = heldIn m.entries (clusterFrom m.entries idx)) {result : StrMap}
    (hResult : result = held.foldl (fun m e => strmapSet m e.1 e.2)
      ⟨clearAll m.entries (idx :: clusterFrom m.entries idx), m.count - 1 - held.length⟩) :
    result.WF ∧ ∀ k v, result.Maps k v ↔ k ≠ key ∧ m.Maps k v := by
  obtain ⟨hIdx, _⟩ := List.getElem?_eq_some_iff.mp hSlot
  have hLess : ∀ j ∈ idx :: clusterFrom m.entries idx, j < m.entries.length := by
    intro j hj
    obtain ⟨t, _, rfl⟩ := (mem_clusterFrom_cons hIdx j).mp hj
    exact Nat.mod_lt _ (by omega)
  have hNodup := clusterFrom_cons_nodup hIdx
  have hAll : heldIn m.entries (idx :: clusterFrom m.entries idx) = (key, value) :: held := by
    rw [hHeld, heldIn_cons, hSlot]
    rfl
  have hKeys := heldIn_keys_nodup h.inv hNodup
  rw [hAll, List.map_cons, List.nodup_cons] at hKeys
  have hStored := stored_iff_clearAll hLess
  have hGone := fun {k v} => @not_mem_heldIn_of_stored _ _ _ _ _ h.inv _ hLess k v
  rw [hAll] at hStored hGone
  have hCstr : ∀ e ∈ held, 0 ∉ e.1 ∧ 0 ∉ e.2 :=
    fun e he => h.cstr e.1 e.2 ((hStored e.1 e.2).mpr (.inl (List.mem_cons_of_mem _ he)))
  have hWf := clearAll_wf h hLess hNodup (clusterFrom_downstream hIdx)
  rw [hAll, List.length_cons, Nat.add_comm, ← Nat.sub_sub] at hWf
  obtain ⟨hWf', hMaps⟩ := foldl_strmapSet_spec held _ hWf (fun e he => (hCstr e he).1) hKeys.2
  rw [hResult]
  refine ⟨hWf', ?_⟩
  intro k v
  rw [hMaps]
  constructor
  · rintro (⟨v', hIn, rfl⟩ | ⟨_, hLeft⟩)
    · rw [dupOwn_of_not_mem (hCstr _ hIn).2]
      refine ⟨?_, (hStored k v').mpr (.inl (List.mem_cons_of_mem _ hIn))⟩
      rintro rfl
      exact hKeys.1 (List.mem_map.mpr ⟨_, hIn, rfl⟩)
    · refine ⟨?_, (hStored k v).mpr (.inr hLeft)⟩
      rintro rfl
      exact hGone hLeft List.mem_cons_self
  · rintro ⟨hNe, hOld⟩
    rcases (hStored k v).mp hOld with hIn | hLeft
    · rcases List.mem_cons.mp hIn with hEq | hIn
      · exact absurd (congrArg Prod.fst hEq) hNe
      · exact .inl ⟨v, hIn, (dupOwn_of_not_mem (hCstr _ hIn).2).symm⟩
    · exact .inr ⟨fun hKey => hGone hLeft (List.mem_cons_of_mem _ hKey), hLeft⟩

theorem strmapDelete_spec {m : StrMap} (h : m.WF) (key : Bytes) :
    (strmapDelete m key).WF ∧ ∀ k v, (strmapDelete m key).Maps k v ↔ k ≠ key ∧ m.Maps k v := by
  have hAbsent : (∀ v, ¬ m.Maps key v) → m.WF ∧ ∀ k v, m.Maps k v ↔ k ≠ key ∧ m.Maps k v := by
    intro hNone
    refine ⟨h, ?_⟩
    intro k v
    refine ⟨?_, And.right⟩
    intro hMaps
    refine ⟨?_, hMaps⟩
    rintro rfl
    exact hNone v hMaps
  rw [strmapDelete]
  cases hProbe : probe m.entries (hashIndex key) key with
  | none =>
    apply hAbsent
    rintro v ⟨j, hj⟩
    rw [h.inv j key v hj] at hProbe
    cases hProbe
  | some idx =>
    dsimp only
    split
    · rename_i hEmpty
      apply hAbsent
      rintro v ⟨j, hj⟩
      obtain rfl : j = idx := Option.some.inj ((h.inv j key v hj).symm.trans hProbe)
      rw [hj] at hEmpty
      cases hEmpty
    · rename_i hFull
      obtain ⟨⟨key', value⟩, hSlot⟩ := Option.ne_none_iff_exists'.mp (mt Option.isNone_iff_eq_none.mpr hFull)
      have hSlot := Option.join_eq_some_iff.mp hSlot
      obtain ⟨_, _, _, hStops, _⟩ := (probe_eq_some_iff _ _ _ _).mp hProbe
      rw [stops, hSlot] at hStops
      obtain rfl : key' = key := by simpa using hStops
      exact reinsert_spec h hSlot rfl rfl

theorem strmapGet_strmapSet {m : StrMap} (h : m.WF) {key : Bytes} (hKey : 0 ∉ key) (value : Bytes) :
    strmapGet (strmapSet m key value) = Function.update (strmapGet m) key (some (dupOwn value)) := by
  obtain ⟨hWf, hMaps⟩ := strmapSet_spec h hKey value
  apply Lookup.eq_update_some
  intro k v
  rw [strmapGet_eq_some_iff hWf, hMaps, strmapGet_eq_some_iff h]

theorem strmapGet_strmapDelete {m : StrMap} (h : m.WF) (key : Bytes) :
    strmapGet (strmapDelete m key) = Function.update (strmapGet m) key none := by
  obtain ⟨hWf, hMaps⟩ := strmapDelete_spec h key
  apply Lookup.eq_update_none
  intro k v
  rw [strmapGet_eq_some_iff hWf, hMaps, strmapGet_eq_some_iff h]

end Cweb
