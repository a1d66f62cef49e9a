import Mathlib.Data.List.Perm.Basic

/-!
# Removal from a dense array

The last element moves into the freed place, so the array stays dense and the
order of the survivors may change.
-/

namespace SwapRemove

variable {α : Type*}

def swapRemove (l : List α) (i : Nat) : List α :=
  match l.getLast? with
  | none => []
  | some last => (l.set i last).dropLast

theorem swapRemove_perm (l : List α) (i : Nat) (h : i < l.length) :
    (swapRemove l i).Perm (l.eraseIdx i) := by
  have hne : l ≠ [] := List.ne_nil_of_length_pos (by omega)
  obtain ⟨front, last, rfl⟩ : ∃ front last, l = front ++ [last] :=
    ⟨l.dropLast, l.getLast hne, (List.dropLast_append_getLast hne).symm⟩
  rw [swapRemove, List.getLast?_concat]
  simp only
  by_cases hi : i < front.length
  · rw [List.set_append_left _ _ hi, List.dropLast_concat, List.eraseIdx_append_of_lt_length hi]
    exact (List.set_perm_cons_eraseIdx hi last).trans (List.perm_append_singleton last _).symm
  · obtain rfl : i = front.length := by
      rw [List.length_append, List.length_singleton] at h
      omega
    rw [List.set_append_right _ _ (Nat.le_refl _), List.eraseIdx_append_of_length_le (Nat.le_refl _)]
    simp

theorem map_swapRemove_perm {β : Type*} [BEq β] [LawfulBEq β] (f : α → β) {l : List α} {i : Nat} {a : α}
    (h : l[i]? = some a) :
    ((swapRemove l i).map f).Perm ((l.map f).erase (f a)) := by
  obtain ⟨hi, hAt⟩ := List.getElem?_eq_some_iff.mp h
  have hiMap : i < (l.map f).length := by rwa [List.length_map]
  have hImage : (l.map f)[i] = f a := by rw [List.getElem_map, hAt]
  have hPerm := (swapRemove_perm l i hi).map f
  rw [← List.eraseIdx_map] at hPerm
  exact hPerm.trans (hImage ▸ (List.erase_getElem hiMap).symm)

theorem mem_of_mem_swapRemove {l : List α} {i : Nat} (h : i < l.length) {a : α} (ha : a ∈ swapRemove l i) :
    a ∈ l :=
  List.mem_of_mem_eraseIdx ((swapRemove_perm l i h).mem_iff.mp ha)

theorem swapRemove_getElem?_of_le {l : List α} {i j : Nat} (h : i ≤ j) {a : α}
    (ha : (swapRemove l i)[j]? = some a) :
    ∃ k, i < k ∧ l[k]? = some a := by
  rw [swapRemove] at ha
  split at ha
  · simp at ha
  · rename_i last hLast
    rw [List.getElem?_dropLast] at ha
    split at ha
    · rename_i hLen
      rw [List.length_set] at hLen
      rw [List.getElem?_set] at ha
      split at ha
      · rename_i hEq
        rw [if_pos (by omega)] at ha
        rw [List.getLast?_eq_getElem?] at hLast
        exact ⟨l.length - 1, by omega, hLast.trans ha⟩
      · rename_i hNe
        exact ⟨j, by omega, ha⟩
    · cases ha

def comesFrom (n i j : Nat) : Nat := if j = i then n - 1 else j

theorem swapRemove_getElem? {l : List α} {i : Nat} (h : i < l.length) (j : Nat) :
    (swapRemove l i)[j]? = if j < l.length - 1 then l[comesFrom l.length i j]? else none := by
  have hLast : l.getLast? = some l[l.length - 1] := by
    rw [List.getLast?_eq_getElem?, List.getElem?_eq_getElem (by omega)]
  rw [swapRemove, hLast]
  simp only [List.getElem?_dropLast, List.length_set, List.getElem?_set, comesFrom]
  split
  · rcases eq_or_ne j i with rfl | hNe
    · rw [if_pos rfl, if_pos rfl]
      exact (List.getElem?_eq_getElem _).symm
    · rw [if_neg (Ne.symm hNe), if_neg hNe]
  · rfl

theorem swapRemove_getElem?_of_lt {l : List α} {i j : Nat} (h : i < l.length) (hj : j < i) :
    (swapRemove l i)[j]? = l[j]? := by
  rw [swapRemove_getElem? h, if_pos (by omega), comesFrom, if_neg (by omega)]

theorem swapRemove_length {l : List α} {i : Nat} (h : i < l.length) :
    (swapRemove l i).length = l.length - 1 := by
  rw [(swapRemove_perm l i h).length_eq, List.length_eraseIdx_of_lt h]

theorem swapRemove_zip {β : Type*} {as : List α} {bs : List β} (hLen : as.length = bs.length) {i : Nat}
    (h : i < as.length) :
    swapRemove (as.zip bs) i = (swapRemove as i).zip (swapRemove bs i) := by
  have hZip : (as.zip bs).length = as.length := by rw [List.length_zip, ← hLen, Nat.min_self]
  apply List.ext_getElem?
  intro j
  apply Option.ext
  rintro ⟨a, b⟩
  rw [List.getElem?_zip_eq_some, swapRemove_getElem? (by omega), swapRemove_getElem? h,
    swapRemove_getElem? (by omega),
    hZip, ← hLen]
  split
  · rw [List.getElem?_zip_eq_some]
  · simp

theorem nodup_swapRemove {l : List α} (hNodup : l.Nodup) {i : Nat} (h : i < l.length) :
    (swapRemove l i).Nodup :=
  (swapRemove_perm l i h).nodup_iff.mpr (hNodup.eraseIdx i)

theorem mem_swapRemove_iff {l : List α} (hNodup : l.Nodup) {i : Nat} (h : i < l.length) (a : α) :
    a ∈ swapRemove l i ↔ a ∈ l ∧ a ≠ l[i] := by
  classical
  rw [(swapRemove_perm l i h).mem_iff, ← (List.erase_getElem h).mem_iff, hNodup.mem_erase_iff, and_comm]

end SwapRemove
