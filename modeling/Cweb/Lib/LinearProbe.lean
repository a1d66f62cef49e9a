import Mathlib.Data.List.Basic
import Mathlib.Order.Basic
import Mathlib.Tactic.Ring

/-!
# Open addressing with linear probing

A table is a list of slots. Probing for a key starts at its hash and walks the
slots cyclically until it meets an empty one or one that holds the key. The
invariant says in one line what lookups need: probing for a stored key ends in
the slot where it is stored. That keys are stored once, and that no empty slot
separates an entry from its hash, both follow.
-/

namespace LinearProbe

variable {κ ν : Type*} [DecidableEq κ]

abbrev Slots (κ ν : Type*) := List (Option (κ × ν))

def stops (slots : Slots κ ν) (k : κ) (j : Nat) : Bool :=
  match slots[j]? with
  | some (some e) => e.1 == k
  | _ => true

/-- The slot where the probe for `k` from hash `h` ends. -/
def probe (slots : Slots κ ν) (h : Nat) (k : κ) : Option Nat :=
  ((List.range slots.length).find? fun i => stops slots k ((h + i) % slots.length)).map
    fun i => (h + i) % slots.length

theorem probe_eq_some_iff (slots : Slots κ ν) (h : Nat) (k : κ) (j : Nat) :
    probe slots h k = some j ↔ ∃ i, i < slots.length ∧ (h + i) % slots.length = j ∧
      stops slots k j = true ∧
      ∀ i' < i, stops slots k ((h + i') % slots.length) = false := by
  rw [probe, Option.map_eq_some_iff]
  simp only [List.find?_range_eq_some, Bool.not_eq_true', List.mem_range]
  constructor
  · rintro ⟨i, ⟨hStops, hLess, hBefore⟩, hj⟩
    exact ⟨i, hLess, hj, hj ▸ hStops, hBefore⟩
  · rintro ⟨i, hLess, hj, hStops, hBefore⟩
    exact ⟨i, ⟨hj.symm ▸ hStops, hLess, hBefore⟩, hj⟩

theorem probe_lt {slots : Slots κ ν} {h : Nat} {k : κ} {j : Nat} (hProbe : probe slots h k = some j) :
    j < slots.length := by
  obtain ⟨i, hLess, rfl, _, _⟩ := (probe_eq_some_iff slots h k j).mp hProbe
  exact Nat.mod_lt _ (by omega)

theorem exists_step (n h j : Nat) (hj : j < n) : ∃ i < n, (h + i) % n = j := by
  refine ⟨(j + (n - h % n)) % n, Nat.mod_lt _ (by omega), ?_⟩
  have hmod : h % n < n := Nat.mod_lt _ (by omega)
  rw [Nat.add_mod_mod, ← Nat.mod_add_mod]
  have hSum : h % n + (j + (n - h % n)) = j + n := by omega
  rw [hSum, Nat.add_mod_right, Nat.mod_eq_of_lt hj]

theorem exists_probe {slots : Slots κ ν} {j : Nat} (hEmpty : slots[j]? = some none) (h : Nat) (k : κ) :
    ∃ j', probe slots h k = some j' := by
  obtain ⟨hj, _⟩ := List.getElem?_eq_some_iff.mp hEmpty
  obtain ⟨i, hi, hij⟩ := exists_step slots.length h j hj
  have hFound : ((List.range slots.length).find? fun i =>
      stops slots k ((h + i) % slots.length)).isSome := by
    rw [List.find?_isSome]
    refine ⟨i, List.mem_range.mpr hi, ?_⟩
    rw [hij, stops, hEmpty]
  obtain ⟨i', hi'⟩ := Option.isSome_iff_exists.mp hFound
  exact ⟨(h + i') % slots.length, by rw [probe, hi']; rfl⟩

def Stored (slots : Slots κ ν) (k : κ) (v : ν) : Prop :=
  ∃ j : Nat, slots[j]? = some (some (k, v))

/-- Probing for a stored key ends in its slot. -/
def Inv (hash : κ → Nat) (slots : Slots κ ν) : Prop :=
  ∀ (j : Nat) (k : κ) (v : ν), slots[j]? = some (some (k, v)) → probe slots (hash k) k = some j

theorem inv_replicate (hash : κ → Nat) (n : Nat) : Inv hash (List.replicate n none : Slots κ ν) := by
  intro j k v hj
  rw [List.getElem?_replicate] at hj
  split at hj <;> cases hj

def lookup (hash : κ → Nat) (slots : Slots κ ν) (k : κ) : Option ν :=
  (probe slots (hash k) k).bind fun j => (slots[j]?.join).map Prod.snd

theorem stored_of_lookup {hash : κ → Nat} {slots : Slots κ ν} {k : κ} {v : ν}
    (h : lookup hash slots k = some v) :
    Stored slots k v := by
  obtain ⟨j, hProbe, hValue⟩ := Option.bind_eq_some_iff.mp h
  obtain ⟨i, _, _, hStops, _⟩ := (probe_eq_some_iff slots (hash k) k j).mp hProbe
  obtain ⟨⟨k', v'⟩, hSlot, rfl⟩ := Option.map_eq_some_iff.mp hValue
  have hSlot := Option.join_eq_some_iff.mp hSlot
  rw [stops, hSlot] at hStops
  obtain rfl : k' = k := by simpa using hStops
  exact ⟨j, hSlot⟩

theorem lookup_eq_some_iff {hash : κ → Nat} {slots : Slots κ ν} (hInv : Inv hash slots) (k : κ) (v : ν) :
    lookup hash slots k = some v ↔ Stored slots k v := by
  refine ⟨stored_of_lookup, ?_⟩
  · rintro ⟨j, hj⟩
    rw [lookup, hInv j k v hj]
    simp [hj]

/-- Writing an entry where the probe for its key ended. -/
def store (hash : κ → Nat) (slots : Slots κ ν) (k : κ) (v : ν) : Option (Slots κ ν) :=
  (probe slots (hash k) k).map fun j => slots.set j (some (k, v))

theorem stops_false_iff (slots : Slots κ ν) (k : κ) (j : Nat) :
    stops slots k j = false ↔ ∃ k' v', slots[j]? = some (some (k', v')) ∧ k' ≠ k := by
  rw [stops]
  split
  · rename_i e hSlot
    constructor
    · intro h
      exact ⟨e.1, e.2, hSlot, by simpa using h⟩
    · rintro ⟨k', v', h, hne⟩
      rw [hSlot] at h
      cases h
      simpa using hne
  · rename_i hSlot
    constructor
    · intro h
      cases h
    · rintro ⟨k', v', h, _⟩
      exact absurd h (hSlot (k', v'))

omit [DecidableEq κ] in
theorem store_getElem? {slots : Slots κ ν} {j : Nat} (hj : j < slots.length) (e : Option (κ × ν)) (i : Nat) :
    (slots.set j e)[i]? = if i = j then some e else slots[i]? := by
  rw [List.getElem?_set]
  by_cases h : i = j
  · subst h
    simp [hj]
  · rw [if_neg (Ne.symm h), if_neg h]

/-- Another key's entry is never overwritten: the probed slot is empty or holds
the key itself. -/
theorem Inv.other_key {hash : κ → Nat} {slots : Slots κ ν} (hInv : Inv hash slots) {k : κ} {j : Nat}
    (hProbe : probe slots (hash k) k = some j) {i : Nat} {k' : κ} {v' : ν} (hij : i ≠ j)
    (hi : slots[i]? = some (some (k', v'))) : k' ≠ k := by
  rintro rfl
  exact hij (Option.some.inj ((hInv i k' v' hi).symm.trans hProbe))

theorem store_inv {hash : κ → Nat} {slots slots' : Slots κ ν} (hInv : Inv hash slots) {k : κ} {v : ν}
    (hStore : store hash slots k v = some slots') : Inv hash slots' := by
  obtain ⟨j, hProbe, rfl⟩ := Option.map_eq_some_iff.mp hStore
  have hj := probe_lt hProbe
  obtain ⟨i, hi, hij, hStops, hBefore⟩ := (probe_eq_some_iff slots (hash k) k j).mp hProbe
  intro j' k' v' hj'
  rw [store_getElem? hj] at hj'
  rw [probe_eq_some_iff, List.length_set]
  split at hj'
  · rename_i hEq
    cases hj'
    subst hEq
    refine ⟨i, hi, hij, by simp [stops, hj], ?_⟩
    intro i' hi'
    obtain ⟨k₁, v₁, hSlot, hne⟩ := (stops_false_iff _ _ _).mp (hBefore i' hi')
    refine (stops_false_iff _ _ _).mpr ⟨k₁, v₁, ?_, hne⟩
    rw [store_getElem? hj, if_neg ?_, hSlot]
    intro hEq
    rw [hEq] at hSlot
    rw [stops, hSlot] at hStops
    exact hne (by simpa using hStops)
  · rename_i hne
    have hKey := hInv.other_key hProbe hne hj'
    obtain ⟨i₁, hi₁, hij₁, _, hBefore₁⟩ := (probe_eq_some_iff slots (hash k') k' j').mp (hInv j' k' v' hj')
    refine ⟨i₁, hi₁, hij₁, by simp [stops, store_getElem? hj, hne, hj'], ?_⟩
    intro i' hi'
    obtain ⟨k₁, v₁, hSlot, hne₁⟩ := (stops_false_iff _ _ _).mp (hBefore₁ i' hi')
    rw [stops_false_iff, store_getElem? hj]
    split
    · exact ⟨k, v, rfl, hKey.symm⟩
    · exact ⟨k₁, v₁, hSlot, hne₁⟩

theorem stored_store {hash : κ → Nat} {slots slots' : Slots κ ν} (hInv : Inv hash slots) {k : κ} {v : ν}
    (hStore : store hash slots k v = some slots') (k' : κ) (v' : ν) :
    Stored slots' k' v' ↔ (k' = k ∧ v' = v) ∨ (k' ≠ k ∧ Stored slots k' v') := by
  obtain ⟨j, hProbe, rfl⟩ := Option.map_eq_some_iff.mp hStore
  have hj := probe_lt hProbe
  simp only [Stored, store_getElem? hj]
  constructor
  · rintro ⟨i, hi⟩
    split at hi
    · cases hi
      exact .inl ⟨rfl, rfl⟩
    · rename_i hij
      exact .inr ⟨hInv.other_key hProbe hij hi, i, hi⟩
  · rintro (⟨rfl, rfl⟩ | ⟨hne, i, hi⟩)
    · exact ⟨j, by simp⟩
    · refine ⟨i, ?_⟩
      rw [if_neg ?_, hi]
      rintro rfl
      obtain ⟨_, _, _, hStops, _⟩ := (probe_eq_some_iff slots (hash k) k i).mp hProbe
      rw [stops, hi] at hStops
      exact hne (by simpa using hStops)

def occupied (slots : Slots κ ν) : Nat := slots.countP Option.isSome

omit [DecidableEq κ] in
theorem occupied_set_of_empty {slots : Slots κ ν} {j : Nat} (hEmpty : slots[j]? = some none) (e : κ × ν) :
    occupied (slots.set j (some e)) = occupied slots + 1 := by
  obtain ⟨hj, hSlot⟩ := List.getElem?_eq_some_iff.mp hEmpty
  rw [occupied, List.countP_set hj, hSlot]
  simp [occupied]

omit [DecidableEq κ] in
theorem occupied_set_of_stored {slots : Slots κ ν} {j : Nat} {e : κ × ν} (hFull : slots[j]? = some (some e))
    (e' : κ × ν) : occupied (slots.set j (some e')) = occupied slots := by
  obtain ⟨hj, hSlot⟩ := List.getElem?_eq_some_iff.mp hFull
  have hPos : 0 < occupied slots :=
    List.countP_pos_iff.mpr ⟨some e, List.mem_of_getElem? hFull, rfl⟩
  rw [occupied, List.countP_set hj, hSlot]
  simp only [Option.isSome_some, if_true]
  change occupied slots - 1 + 1 = occupied slots
  omega

omit [DecidableEq κ] in
theorem exists_empty {slots : Slots κ ν} (h : occupied slots < slots.length) :
    ∃ j : Nat, slots[j]? = some none := by
  by_contra hNone
  have hAll : ∀ e ∈ slots, e.isSome = true := by
    intro e he
    obtain ⟨j, hj⟩ := List.getElem?_of_mem he
    cases e with
    | none => exact absurd ⟨j, hj⟩ hNone
    | some e => rfl
  have hFull : occupied slots = slots.length := List.countP_eq_length.mpr hAll
  omega

/-- The first empty slot from hash `h` on, whatever the keys. -/
def freeSlot (slots : Slots κ ν) (h : Nat) : Option Nat :=
  ((List.range slots.length).find? fun i => (slots[(h + i) % slots.length]?.join).isNone).map
    fun i => (h + i) % slots.length

theorem freeSlot_eq_probe {slots : Slots κ ν} (h : Nat) {k : κ} (hNew : ∀ v, ¬ Stored slots k v) :
    freeSlot slots h = probe slots h k := by
  have hStops : ∀ j, stops slots k j = (slots[j]?.join).isNone := by
    intro j
    rw [stops]
    split
    · rename_i e hSlot
      have hne : e.1 ≠ k := fun hEq => hNew e.2 ⟨j, by rw [hSlot, ← hEq]⟩
      simp [hSlot, hne]
    · rename_i hSlot
      cases hOpt : slots[j]? with
      | none => rfl
      | some e =>
        cases e with
        | none => rfl
        | some e => exact absurd hOpt (hSlot e)
  rw [freeSlot, probe]
  simp only [hStops]

def place (hash : κ → Nat) (slots : Slots κ ν) (k : κ) (v : ν) : Option (Slots κ ν) :=
  (freeSlot slots (hash k)).map fun j => slots.set j (some (k, v))

/-- Entries of one table placed one by one into another, empty slots skipped. -/
def placeAll (hash : κ → Nat) (slots : Slots κ ν) (source : Slots κ ν) : Slots κ ν :=
  source.foldl (fun slots e =>
    match e with
    | none => slots
    | some (k, v) => (place hash slots k v).getD slots) slots

omit [DecidableEq κ] in
theorem placeAll_length (hash : κ → Nat) (source : Slots κ ν) : ∀ slots : Slots κ ν,
    (placeAll hash slots source).length = slots.length := by
  induction source with
  | nil => exact fun _ => rfl
  | cons e source ih =>
    intro slots
    refine (ih _).trans ?_
    cases e with
    | none => rfl
    | some e =>
      dsimp only
      rw [place]
      cases freeSlot slots (hash e.1) with
      | none => rfl
      | some j => exact List.length_set

omit [DecidableEq κ] in
theorem stored_set {slots : Slots κ ν} {j : Nat} {e : κ × ν} {k : κ} {v : ν}
    (h : Stored (slots.set j (some e)) k v) :
    (k, v) = e ∨ Stored slots k v := by
  obtain ⟨i, hi⟩ := h
  rw [List.getElem?_set] at hi
  split at hi
  · split at hi
    · exact .inl (Option.some.inj (Option.some.inj hi)).symm
    · cases hi
  · exact .inr ⟨i, hi⟩

omit [DecidableEq κ] in
/-- Nothing is stored but what was placed or there before, whatever the slots. -/
theorem stored_placeAll {hash : κ → Nat} {k : κ} {v : ν} (source : Slots κ ν) : ∀ slots : Slots κ ν,
    Stored (placeAll hash slots source) k v → Stored slots k v ∨ some (k, v) ∈ source := by
  induction source with
  | nil => exact fun _ h => .inl h
  | cons e source ih =>
    intro slots h
    rcases ih _ h with hHere | hLater
    · cases e with
      | none => exact .inl hHere
      | some e =>
        dsimp only at hHere
        rw [place] at hHere
        cases hFree : freeSlot slots (hash e.1) with
        | none =>
          rw [hFree] at hHere
          exact .inl hHere
        | some j =>
          rw [hFree] at hHere
          rcases stored_set hHere with hNew | hOld
          · exact .inr (hNew ▸ List.mem_cons_self)
          · exact .inl hOld
    · exact .inr (List.mem_cons_of_mem _ hLater)

theorem exists_place (hash : κ → Nat) {slots : Slots κ ν} {k : κ} (hRoom : occupied slots < slots.length)
    (hAbsent : ∀ v, ¬ Stored slots k v) (v : ν) : ∃ j, slots[j]? = some none ∧
      store hash slots k v = some (slots.set j (some (k, v))) ∧
        place hash slots k v = some (slots.set j (some (k, v))) := by
  obtain ⟨free, hFree⟩ := exists_empty hRoom
  obtain ⟨j, hj⟩ := exists_probe hFree (hash k) k
  refine ⟨j, ?_, by rw [store, hj]; rfl, by rw [place, freeSlot_eq_probe (hash k) hAbsent, hj]; rfl⟩
  obtain ⟨i, _, _, hStops, _⟩ := (probe_eq_some_iff _ _ _ _).mp hj
  have hjLess := probe_lt hj
  rw [stops, List.getElem?_eq_getElem hjLess] at hStops
  rw [List.getElem?_eq_getElem hjLess]
  cases hSlot : slots[j] with
  | none => rfl
  | some e =>
    rw [hSlot] at hStops
    have hKey : e.1 = k := by simpa using hStops
    exact absurd ⟨j, by rw [List.getElem?_eq_getElem hjLess, hSlot, ← hKey]⟩ (hAbsent e.2)

structure PlaceAllSpec (hash : κ → Nat) (slots source result : Slots κ ν) : Prop where
  inv : Inv hash result
  length : result.length = slots.length
  occupied : occupied result = occupied slots + LinearProbe.occupied source
  stored : ∀ k v, Stored result k v ↔ Stored slots k v ∨ some (k, v) ∈ source

theorem placeAll_spec (hash : κ → Nat) (source : Slots κ ν) :
    ∀ slots : Slots κ ν, Inv hash slots → occupied slots + occupied source < slots.length →
      (∀ k v v', some (k, v) ∈ source → ¬ Stored slots k v') →
      source.Pairwise (fun e e' => ∀ k v v', e = some (k, v) → e' ≠ some (k, v')) →
      PlaceAllSpec hash slots source (placeAll hash slots source) := by
  induction source with
  | nil =>
    intro slots hInv _ _ _
    exact ⟨hInv, rfl, rfl, by simp [placeAll]⟩
  | cons e source ih =>
    intro slots hInv hRoom hNew hDistinct
    obtain ⟨hHead, hTail⟩ := List.pairwise_cons.mp hDistinct
    cases e with
    | none =>
      have hRest : occupied (none :: source) = occupied source := by simp [occupied]
      rw [hRest] at hRoom
      have hSpec := ih slots hInv hRoom
        (fun k v v' hMem => hNew k v v' (List.mem_cons_of_mem _ hMem)) hTail
      refine ⟨hSpec.inv, hSpec.length, by rw [hRest]; exact hSpec.occupied, ?_⟩
      intro k v
      have hStep : placeAll hash slots (none :: source) = placeAll hash slots source := rfl
      rw [hStep, hSpec.stored k v]
      simp
    | some e =>
      obtain ⟨k, v⟩ := e
      have hRest : occupied (some (k, v) :: source) = occupied source + 1 := by simp [occupied]
      rw [hRest] at hRoom
      have hAbsent : ∀ v', ¬ Stored slots k v' := fun v' => hNew k v v' List.mem_cons_self
      obtain ⟨j, hEmpty, hStore, hPlace⟩ :=
        exists_place hash (show occupied slots < slots.length by omega) hAbsent v
      have hStored := stored_store hInv hStore
      have hSpec := ih (slots.set j (some (k, v))) (store_inv hInv hStore)
        (by rw [occupied_set_of_empty hEmpty, List.length_set]; omega)
        (by
          intro k' v₁ v₂ hMem hIn
          rcases (hStored k' v₂).mp hIn with ⟨rfl, rfl⟩ | ⟨_, hOld⟩
          · exact hHead _ hMem k' v₂ v₁ rfl rfl
          · exact hNew k' v₁ v₂ (List.mem_cons_of_mem _ hMem) hOld) hTail
      have hStep : placeAll hash slots (some (k, v) :: source) =
          placeAll hash (slots.set j (some (k, v))) source := by
        rw [placeAll, List.foldl_cons]
        simp only [hPlace, Option.getD_some]
        rfl
      rw [hStep]
      refine ⟨hSpec.inv, by rw [hSpec.length, List.length_set], ?_, ?_⟩
      · rw [hSpec.occupied, occupied_set_of_empty hEmpty, hRest]
        omega
      · intro k' v'
        rw [hSpec.stored, hStored, List.mem_cons]
        constructor
        · rintro ((⟨rfl, rfl⟩ | ⟨_, hOld⟩) | hMem)
          · exact .inr (.inl rfl)
          · exact .inl hOld
          · exact .inr (.inr hMem)
        · rintro (hOld | hEq | hMem)
          · by_cases hKey : k' = k
            · exact absurd (hKey ▸ hOld) (hAbsent v')
            · exact .inl (.inr ⟨hKey, hOld⟩)
          · cases hEq
            exact .inl (.inl ⟨rfl, rfl⟩)
          · exact .inr hMem

theorem Inv.pairwise {hash : κ → Nat} {slots : Slots κ ν} (hInv : Inv hash slots) :
    slots.Pairwise (fun e e' => ∀ k v v', e = some (k, v) → e' ≠ some (k, v')) := by
  rw [List.pairwise_iff_getElem]
  intro i j hi hj hij k v v' hFirst hSecond
  have hI := hInv i k v (by rw [List.getElem?_eq_getElem hi, hFirst])
  have hJ := hInv j k v' (by rw [List.getElem?_eq_getElem hj, hSecond])
  rw [hI] at hJ
  cases hJ
  exact lt_irrefl _ hij

/-! ## Keys -/

def keys (slots : Slots κ ν) : List κ := slots.filterMap (Option.map Prod.fst)

omit [DecidableEq κ] in
theorem mem_keys_iff (slots : Slots κ ν) (k : κ) : k ∈ keys slots ↔ ∃ v, Stored slots k v := by
  rw [keys, List.mem_filterMap]
  constructor
  · rintro ⟨e, he, hKey⟩
    obtain ⟨⟨k', v⟩, rfl, rfl⟩ := Option.map_eq_some_iff.mp hKey
    exact ⟨v, List.getElem?_of_mem he⟩
  · rintro ⟨v, j, hj⟩
    exact ⟨some (k, v), List.mem_of_getElem? hj, rfl⟩

omit [DecidableEq κ] in
theorem length_keys (slots : Slots κ ν) : (keys slots).length = occupied slots := by
  rw [keys, List.length_filterMap_eq_countP, occupied]
  apply List.countP_congr
  intro e _
  rw [Option.isSome_map]

theorem Inv.keys_nodup {hash : κ → Nat} {slots : Slots κ ν} (hInv : Inv hash slots) : (keys slots).Nodup := by
  rw [List.nodup_iff_pairwise_ne, keys, List.pairwise_filterMap]
  refine hInv.pairwise.imp ?_
  intro e e' hDistinct k hk k' hk' hEq
  obtain ⟨⟨_, v⟩, rfl, rfl⟩ := Option.map_eq_some_iff.mp hk
  obtain ⟨⟨_, v'⟩, rfl, rfl⟩ := Option.map_eq_some_iff.mp hk'
  obtain rfl := hEq
  exact hDistinct _ v v' rfl rfl

/-! ## Emptying slots -/

def clearAll (slots : Slots κ ν) (js : List Nat) : Slots κ ν :=
  js.foldl (fun slots j => slots.set j none) slots

omit [DecidableEq κ] in
@[simp]
theorem clearAll_length (js : List Nat) : ∀ slots : Slots κ ν, (clearAll slots js).length = slots.length := by
  induction js with
  | nil => exact fun slots => rfl
  | cons j js ih =>
    intro slots
    exact (ih (slots.set j none)).trans List.length_set

omit [DecidableEq κ] in
theorem clearAll_getElem? (js : List Nat) : ∀ (slots : Slots κ ν), (∀ j ∈ js, j < slots.length) → ∀ i : Nat,
    (clearAll slots js)[i]? = if i ∈ js then some none else slots[i]? := by
  induction js with
  | nil =>
    intro slots _ i
    rw [if_neg List.not_mem_nil]
    rfl
  | cons j js ih =>
    intro slots hLess i
    have hStep := ih (slots.set j none) (by
      intro j' hj'
      rw [List.length_set]
      exact hLess j' (List.mem_cons_of_mem _ hj')) i
    rw [clearAll, List.foldl_cons]
    rw [store_getElem? (hLess j List.mem_cons_self)] at hStep
    refine hStep.trans ?_
    split
    · rename_i hMem
      rw [if_pos (List.mem_cons_of_mem _ hMem)]
    · rename_i hOut
      simp only [List.mem_cons, hOut, or_false]

omit [DecidableEq κ] in
theorem stored_clearAll_iff {slots : Slots κ ν} {js : List Nat} (hLess : ∀ j ∈ js, j < slots.length)
    (k : κ) (v : ν) :
    Stored (clearAll slots js) k v ↔ ∃ j, j ∉ js ∧ slots[j]? = some (some (k, v)) := by
  simp only [Stored, clearAll_getElem? js slots hLess]
  apply exists_congr
  intro j
  split
  · rename_i hMem
    simp [hMem]
  · rename_i hOut
    simp [hOut]

/-- The slots are emptied up to the next empty one. -/
def Downstream (slots : Slots κ ν) (js : List Nat) : Prop :=
  ∀ j ∈ js, (j + 1) % slots.length ∈ js ∨ slots[(j + 1) % slots.length]? = some none

/-- A probe that meets an emptied slot would have ended in one, so no other
stored key loses its way. -/
theorem clearAll_inv {hash : κ → Nat} {slots : Slots κ ν} (hInv : Inv hash slots) {js : List Nat}
    (hLess : ∀ j ∈ js, j < slots.length) (hDown : Downstream slots js) : Inv hash (clearAll slots js) := by
  intro j k v hj
  rw [clearAll_getElem? js slots hLess] at hj
  split at hj
  · cases hj
  · rename_i hOut
    obtain ⟨i, hi, hij, hStops, hBefore⟩ := (probe_eq_some_iff slots (hash k) k j).mp (hInv j k v hj)
    rw [probe_eq_some_iff, clearAll_length]
    refine ⟨i, hi, hij, ?_, ?_⟩
    · rw [stops, clearAll_getElem? js slots hLess, if_neg hOut]
      exact hStops
    · intro i' hi'
      rw [stops, clearAll_getElem? js slots hLess, if_neg, ← stops]
      · exact hBefore i' hi'
      · intro hMem
        -- every later slot of the probe is full, so it was emptied as well, the last one too
        have hAll : ∀ d, i' + d ≤ i → (hash k + (i' + d)) % slots.length ∈ js := by
          intro d
          induction d with
          | zero => exact fun _ => hMem
          | succ d ih =>
            intro hd
            have hNext : ((hash k + (i' + d)) % slots.length + 1) % slots.length =
                (hash k + (i' + (d + 1))) % slots.length := by
              rw [Nat.mod_add_mod]
              congr 1
            rcases hDown _ (ih (by omega)) with hIn | hEmpty
            · rwa [hNext] at hIn
            · rw [hNext] at hEmpty
              rcases Nat.lt_or_ge (i' + (d + 1)) i with hLt | hGe
              · obtain ⟨_, _, hFull, _⟩ := (stops_false_iff _ _ _).mp (hBefore _ hLt)
                rw [hFull] at hEmpty
                cases hEmpty
              · obtain rfl : i' + (d + 1) = i := by omega
                rw [hij, hj] at hEmpty
                cases hEmpty
        have hLast := hAll (i - i') (by omega)
        rw [Nat.add_sub_cancel' hi'.le, hij] at hLast
        exact hOut hLast

def heldIn (slots : Slots κ ν) (js : List Nat) : List (κ × ν) := js.filterMap fun j => slots[j]?.join

omit [DecidableEq κ] in
theorem mem_heldIn_iff (slots : Slots κ ν) (js : List Nat) (e : κ × ν) :
    e ∈ heldIn slots js ↔ ∃ j ∈ js, slots[j]? = some (some e) := by
  simp only [heldIn, List.mem_filterMap, Option.join_eq_some_iff]

omit [DecidableEq κ] in
theorem heldIn_cons (slots : Slots κ ν) (j : Nat) (js : List Nat) :
    heldIn slots (j :: js) = (slots[j]?.join).toList ++ heldIn slots js := by
  rw [heldIn, List.filterMap_cons]
  cases slots[j]?.join <;> rfl

omit [DecidableEq κ] in
theorem heldIn_set {j : Nat} {js : List Nat} (hNot : j ∉ js) (slots : Slots κ ν) (e : Option (κ × ν)) :
    heldIn (slots.set j e) js = heldIn slots js := by
  apply List.filterMap_congr
  intro j' hj'
  rw [List.getElem?_set_ne]
  rintro rfl
  exact hNot hj'

omit [DecidableEq κ] in
theorem occupied_set_none {slots : Slots κ ν} {j : Nat} (hj : j < slots.length) :
    occupied (slots.set j none) + (slots[j]?.join).toList.length = occupied slots := by
  have hSlot := List.getElem?_eq_getElem hj
  rw [occupied, occupied, List.countP_set hj, hSlot]
  cases hCell : slots[j] with
  | none => simp
  | some e =>
    have hPos : 0 < slots.countP Option.isSome :=
      List.countP_pos_iff.mpr ⟨some e, List.mem_of_getElem? (hSlot.trans (congrArg some hCell)), rfl⟩
    simp only [Option.isSome_some, Option.isSome_none, Option.join_some, Option.toList_some,
      List.length_singleton, if_true, Bool.false_eq_true, if_false]
    omega

omit [DecidableEq κ] in
theorem occupied_clearAll (js : List Nat) : ∀ slots : Slots κ ν, (∀ j ∈ js, j < slots.length) → js.Nodup →
    occupied (clearAll slots js) + (heldIn slots js).length = occupied slots := by
  induction js with
  | nil => exact fun slots _ _ => rfl
  | cons j js ih =>
    intro slots hLess hNodup
    obtain ⟨hNew, hNodup⟩ := List.nodup_cons.mp hNodup
    have hj := hLess j List.mem_cons_self
    have hRest := ih (slots.set j none) (by
      intro j' hj'
      rw [List.length_set]
      exact hLess j' (List.mem_cons_of_mem _ hj')) hNodup
    have hFirst := occupied_set_none hj
    rw [heldIn_set hNew] at hRest
    rw [heldIn_cons, List.length_append]
    change occupied (clearAll (slots.set j none) js) + _ = _
    omega

theorem heldIn_keys_nodup {hash : κ → Nat} {slots : Slots κ ν} (hInv : Inv hash slots) {js : List Nat}
    (hNodup : js.Nodup) :
    ((heldIn slots js).map Prod.fst).Nodup := by
  rw [List.nodup_iff_pairwise_ne, List.pairwise_map, heldIn, List.pairwise_filterMap]
  refine hNodup.imp ?_
  rintro j j' hNe ⟨k, v⟩ he ⟨k', v'⟩ he' hKey
  obtain rfl : k = k' := hKey
  have hFirst := hInv j k v (Option.join_eq_some_iff.mp he)
  have hSecond := hInv j' k v' (Option.join_eq_some_iff.mp he')
  exact hNe (Option.some.inj (hFirst.symm.trans hSecond))

omit [DecidableEq κ] in
theorem stored_iff_clearAll {slots : Slots κ ν} {js : List Nat} (hLess : ∀ j ∈ js, j < slots.length)
    (k : κ) (v : ν) :
    Stored slots k v ↔ (k, v) ∈ heldIn slots js ∨ Stored (clearAll slots js) k v := by
  rw [mem_heldIn_iff, stored_clearAll_iff hLess]
  constructor
  · rintro ⟨j, hj⟩
    rcases em (j ∈ js) with hIn | hOut
    · exact .inl ⟨j, hIn, hj⟩
    · exact .inr ⟨j, hOut, hj⟩
  · rintro (⟨j, _, hj⟩ | ⟨j, _, hj⟩)
    · exact ⟨j, hj⟩
    · exact ⟨j, hj⟩

theorem not_mem_heldIn_of_stored {hash : κ → Nat} {slots : Slots κ ν} (hInv : Inv hash slots) {js : List Nat}
    (hLess : ∀ j ∈ js, j < slots.length) {k : κ} {v : ν} (h : Stored (clearAll slots js) k v) :
    k ∉ (heldIn slots js).map Prod.fst := by
  obtain ⟨j, hOut, hj⟩ := (stored_clearAll_iff hLess k v).mp h
  intro hKey
  obtain ⟨⟨k', v'⟩, hMem, rfl⟩ := List.mem_map.mp hKey
  obtain ⟨j', hIn, hj'⟩ := (mem_heldIn_iff _ _ _).mp hMem
  obtain rfl : j = j' := Option.some.inj ((hInv j _ v hj).symm.trans (hInv j' _ v' hj'))
  exact hOut hIn

/-! ## Walks without a bound -/

/-- From slot to slot until a test holds. -/
def walk (p : Nat → Bool) (n : Nat) : Nat → Nat → Option Nat
  | 0, _ => none
  | fuel + 1, j => if p j then some j else walk p n fuel ((j + 1) % n)

theorem walk_eq_some {p : Nat → Bool} {n : Nat} (t : Nat) : ∀ {h fuel : Nat}, t < fuel →
    p ((h + t) % n) = true →
    (∀ i < t, p ((h + i) % n) = false) → walk p n fuel (h % n) = some ((h + t) % n) := by
  induction t with
  | zero =>
    intro h fuel hFuel hStop _
    obtain ⟨fuel, rfl⟩ := Nat.exists_eq_add_of_lt hFuel
    rw [Nat.zero_add, walk]
    rw [Nat.add_zero h] at hStop ⊢
    rw [if_pos hStop]
  | succ t ih =>
    intro h fuel hFuel hStop hBefore
    obtain ⟨fuel, rfl⟩ : ∃ fuel', fuel = fuel' + 1 := ⟨fuel - 1, by omega⟩
    have hFirst := hBefore 0 (Nat.zero_lt_succ t)
    have hAssoc : ∀ i, h + (i + 1) = h + 1 + i := by omega
    rw [Nat.add_zero] at hFirst
    rw [hAssoc] at hStop ⊢
    rw [walk, hFirst, if_neg Bool.false_ne_true, Nat.mod_add_mod]
    apply ih (Nat.lt_of_succ_lt_succ hFuel) hStop
    intro i hi
    rw [← hAssoc]
    exact hBefore (i + 1) (Nat.succ_lt_succ hi)

theorem walk_of_find {p : Nat → Bool} {n h fuel j : Nat} (hFuel : n ≤ fuel)
    (hFind : ((List.range n).find? fun i => p ((h + i) % n)).map (fun i => (h + i) % n) = some j) :
    walk p n fuel (h % n) = some j := by
  obtain ⟨t, hFound, rfl⟩ := Option.map_eq_some_iff.mp hFind
  simp only [List.find?_range_eq_some, Bool.not_eq_true', List.mem_range] at hFound
  exact walk_eq_some t (hFound.2.1.trans_le hFuel) hFound.1 hFound.2.2

/-- Every entry placed by a walk to an empty slot, `none` when a walk does not end. -/
def placeAllWithin (hash : κ → Nat) (fuel : Nat) (slots source : Slots κ ν) : Option (Slots κ ν) :=
  source.foldlM (fun slots e =>
    match e with
    | none => some slots
    | some (k, v) =>
      (walk (fun j => (slots[j]?.join).isNone) slots.length fuel (hash k % slots.length)).map fun j =>
      slots.set j (some (k, v))) slots

omit [DecidableEq κ] in
theorem placeAllWithin_eq (hash : κ → Nat) {fuel : Nat} (source : Slots κ ν) : ∀ slots : Slots κ ν,
    occupied slots + occupied source < slots.length → slots.length ≤ fuel →
      placeAllWithin hash fuel slots source = some (placeAll hash slots source) := by
  induction source with
  | nil => exact fun _ _ _ => rfl
  | cons e source ih =>
    intro slots hRoom hFuel
    cases e with
    | none =>
      have hRest : occupied (none :: source) = occupied source := by simp [occupied]
      exact ih slots (hRest ▸ hRoom) hFuel
    | some e =>
      obtain ⟨k, v⟩ := e
      have hRest : occupied (some (k, v) :: source) = occupied source + 1 := by simp [occupied]
      rw [hRest] at hRoom
      obtain ⟨free, hFree⟩ := exists_empty (show occupied slots < slots.length by omega)
      obtain ⟨hLess, _⟩ := List.getElem?_eq_some_iff.mp hFree
      obtain ⟨i, hi, hij⟩ := exists_step slots.length (hash k) free hLess
      obtain ⟨j, hj⟩ : ∃ j, freeSlot slots (hash k) = some j := by
        rw [freeSlot, ← Option.isSome_iff_exists, Option.isSome_map, List.find?_isSome]
        refine ⟨i, List.mem_range.mpr hi, ?_⟩
        rw [hij, hFree]
        rfl
      have hWalk := @walk_of_find (fun j => (slots[j]?.join).isNone) _ _ _ _ hFuel hj
      have hEmpty : slots[j]? = some none := by
        obtain ⟨t, hFound, rfl⟩ := Option.map_eq_some_iff.mp hj
        have hStop := List.find?_some hFound
        have hIn : (hash k + t) % slots.length < slots.length := Nat.mod_lt _ (by omega)
        rw [List.getElem?_eq_getElem hIn] at hStop ⊢
        exact congrArg some (Option.isNone_iff_eq_none.mp hStop)
      have hNext := ih (slots.set j (some (k, v)))
        (by rw [occupied_set_of_empty hEmpty, List.length_set]; omega) (by rwa [List.length_set])
      rw [placeAllWithin, List.foldlM_cons]
      simp only [hWalk, Option.map_some]
      rw [placeAll, List.foldl_cons]
      simp only [place, hj, Option.map_some, Option.getD_some]
      exact hNext

end LinearProbe
