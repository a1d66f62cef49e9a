import Mathlib.Algebra.BigOperators.Group.List.Basic
import Cweb.Lib.SwapRemove
import Cweb.Utils.Sv

/-!
# The key-value store

The store is an array of entries in memory and a file that a sync rewrites
through a temporary file and a rename. The outcome of each file call is an
input. Loading a file checks its framing and keeps the entries in file order,
so a synced store whose lengths fit the 32-bit framing is read back exactly.
-/

namespace Cweb.Db

open SwapRemove

structure CwebDb where
  path : Bytes
  entries : List (Bytes × Bytes)
  total : Nat
  dirty : Bool
deriving DecidableEq, Repr

def putU32 (v : Nat) : Bytes :=
  [UInt8.ofNat v, UInt8.ofNat (v / 2 ^ 8), UInt8.ofNat (v / 2 ^ 16), UInt8.ofNat (v / 2 ^ 24)]

def getU32 (p : Bytes) : Nat :=
  match p with
  | a :: b :: c :: d :: _ => a.toNat + b.toNat * 2 ^ 8 + c.toNat * 2 ^ 16 + d.toNat * 2 ^ 24
  | _ => 0

def entrySize (e : Bytes × Bytes) : Nat := 8 + e.1.length + e.2.length

/-- The frame loop of `cweb_db_open` over what is left of the file. `none` is
a frame that overruns the file or garbage behind the last one. -/
def dbFrames : Nat → Bytes → Option (List (Bytes × Bytes))
  | 0, rest => if rest = [] then some [] else none
  | fuel + 1, rest =>
    if rest.length < 8 then if rest = [] then some [] else none
    else
      let klen := getU32 rest
      let rest := rest.drop 4
      if rest.length < klen then none
      else
        let key := rest.take klen
        let rest := rest.drop klen
        if rest.length < 4 then none
        else
          let vlen := getU32 rest
          let rest := rest.drop 4
          if rest.length < vlen then none
          else (dbFrames fuel (rest.drop vlen)).map fun entries => (key, rest.take vlen) :: entries

/-- `none` when the file is not a store this code framed. -/
def cwebDbOpen (path : Bytes) (file : Option Bytes) : Option CwebDb :=
  match file with
  | none => some ⟨path, [], 0, false⟩
  | some [] => none
  | some (version :: frames) =>
    if version = 1 then
      (dbFrames frames.length frames).map fun entries =>
        ⟨path, entries, (entries.map entrySize).sum, false⟩
    else none

def dbFind (db : CwebDb) (key : Bytes) : Option Nat :=
  db.entries.findIdx? fun e => e.1 == key

def cwebDbGet (db : CwebDb) (key : Bytes) : Option Bytes :=
  (db.entries.find? fun e => e.1 == key).map Prod.snd

def cwebDbPut (db : CwebDb) (key value : Bytes) : CwebDb :=
  match dbFind db key with
  | some i =>
    { db with
      entries := db.entries.set i (key, value)
      total := db.total + entrySize (key, value) - entrySize (db.entries.getD i ([], []))
      dirty := true }
  | none =>
    { db with
      entries := db.entries ++ [(key, value)]
      total := db.total + entrySize (key, value)
      dirty := true }

/-- The last entry is moved into the freed place. -/
def cwebDbDelete (db : CwebDb) (key : Bytes) : CwebDb :=
  match dbFind db key with
  | none => db
  | some i =>
    { db with
      entries := swapRemove db.entries i
      total := db.total - entrySize (db.entries.getD i ([], []))
      dirty := true }

/-- Which of the file calls of a sync succeed. -/
structure FileOutcome where
  write : Bool
  rename : Bool
  remove : Bool
deriving DecidableEq, Repr

def frame (e : Bytes × Bytes) : Bytes :=
  putU32 e.1.length ++ (e.1 ++ (putU32 e.2.length ++ e.2))

def serialize (entries : List (Bytes × Bytes)) : Bytes := 1 :: entries.flatMap frame

/-- The store, the file and whether the call returned 0. -/
def cwebDbSync (db : CwebDb) (file : Option Bytes) (io : FileOutcome) : CwebDb × Option Bytes × Bool :=
  if db.entries = [] then
    ({ db with dirty := false }, if io.remove then none else file, true)
  else if (serialize db.entries).length = db.total + 1 ∧ db.path.length + 4 < 1024 ∧ io.write ∧ io.rename then
    ({ db with dirty := false }, some (serialize db.entries), true)
  else (db, file, false)

theorem getU32_putU32 {v : Nat} (h : v < 2 ^ 32) (rest : Bytes) : getU32 (putU32 v ++ rest) = v := by
  simp only [putU32, List.cons_append, List.nil_append, getU32, UInt8.toNat_ofNat']
  omega

@[simp]
theorem putU32_length (v : Nat) : (putU32 v).length = 4 := rfl

/-- Lengths the framing can hold. -/
def Fits (entries : List (Bytes × Bytes)) : Prop :=
  ∀ e ∈ entries, e.1.length < 2 ^ 32 ∧ e.2.length < 2 ^ 32

theorem dbFrames_frame (e : Bytes × Bytes) (hKey : e.1.length < 2 ^ 32) (hValue : e.2.length < 2 ^ 32)
    (fuel : Nat) (tail : Bytes) :
    dbFrames (fuel + 1) (frame e ++ tail) = (dbFrames fuel tail).map fun entries => e :: entries := by
  have hDropKey : ∀ xs : Bytes, (putU32 e.1.length ++ xs).drop 4 = xs := fun xs => rfl
  have hDropValue : ∀ xs : Bytes, (putU32 e.2.length ++ xs).drop 4 = xs := fun xs => rfl
  simp only [frame, List.append_assoc]
  rw [dbFrames, if_neg (by simp only [List.length_append, putU32_length]; omega)]
  simp only [getU32_putU32 hKey, hDropKey]
  rw [if_neg (by simp only [List.length_append]; omega)]
  simp only [List.take_left, List.drop_left, hDropValue, getU32_putU32 hValue]
  rw [if_neg (by simp only [List.length_append, putU32_length]; omega),
    if_neg (by simp only [List.length_append]; omega)]

theorem dbFrames_flatMap (entries : List (Bytes × Bytes)) (hFits : Fits entries) :
    ∀ fuel, entries.length ≤ fuel → dbFrames fuel (entries.flatMap frame) = some entries := by
  induction entries with
  | nil =>
    intro fuel _
    cases fuel <;> rfl
  | cons e entries ih =>
    intro fuel hFuel
    obtain ⟨hKey, hValue⟩ := hFits e List.mem_cons_self
    cases fuel with
    | zero => simp at hFuel
    | succ fuel =>
      rw [List.flatMap_cons, dbFrames_frame e hKey hValue,
        ih (fun e he => hFits e (List.mem_cons_of_mem _ he)) fuel (by simpa using hFuel)]
      rfl

theorem length_le_flatMap_frame (entries : List (Bytes × Bytes)) :
    entries.length ≤ (entries.flatMap frame).length := by
  induction entries with
  | nil => simp
  | cons e entries ih =>
    simp only [List.flatMap_cons, List.length_append, List.length_cons, frame, putU32_length]
    omega

theorem cwebDbOpen_serialize (path : Bytes) {entries : List (Bytes × Bytes)} (hFits : Fits entries) :
    cwebDbOpen path (some (serialize entries)) =
      some ⟨path, entries, (entries.map entrySize).sum, false⟩ := by
  have hFrames := dbFrames_flatMap entries hFits _ (length_le_flatMap_frame entries)
  simp only [cwebDbOpen, serialize, if_true, hFrames, Option.map_some]

/-! ## Lookups -/

/-- Keys are stored once. -/
def DistinctKeys (entries : List (Bytes × Bytes)) : Prop := (entries.map Prod.fst).Nodup

theorem cwebDbGet_eq_none_iff (db : CwebDb) (key : Bytes) :
    cwebDbGet db key = none ↔ key ∉ db.entries.map Prod.fst := by
  simp only [cwebDbGet, Option.map_eq_none_iff, List.find?_eq_none, List.mem_map, beq_iff_eq]
  constructor
  · rintro h ⟨e, he, rfl⟩
    exact h e he rfl
  · intro h e he hEq
    exact h ⟨e, he, hEq⟩

theorem dbFind_eq_none_iff (db : CwebDb) (key : Bytes) :
    dbFind db key = none ↔ key ∉ db.entries.map Prod.fst := by
  simp only [dbFind, List.findIdx?_eq_none_iff, List.mem_map, beq_eq_false_iff_ne]
  constructor
  · rintro h ⟨e, he, rfl⟩
    exact h e he rfl
  · intro h e he hEq
    exact h ⟨e, he, hEq⟩

theorem dbFind_getElem {db : CwebDb} {key : Bytes} {i : Nat} (h : dbFind db key = some i) :
    ∃ value, db.entries[i]? = some (key, value) := by
  obtain ⟨hi, hKey, _⟩ := List.findIdx?_eq_some_iff_getElem.mp h
  refine ⟨db.entries[i].2, ?_⟩
  rw [List.getElem?_eq_getElem hi]
  have hEq : db.entries[i].1 = key := by simpa using hKey
  rw [← hEq]

theorem keys_cwebDbPut (db : CwebDb) (key value : Bytes) :
    (cwebDbPut db key value).entries.map Prod.fst =
      if key ∈ db.entries.map Prod.fst then db.entries.map Prod.fst
      else db.entries.map Prod.fst ++ [key] := by
  rw [cwebDbPut]
  cases hFind : dbFind db key with
  | none =>
    rw [if_neg ((dbFind_eq_none_iff db key).mp hFind)]
    simp
  | some i =>
    have hIn : key ∈ db.entries.map Prod.fst := by
      by_contra hOut
      rw [(dbFind_eq_none_iff db key).mpr hOut] at hFind
      cases hFind
    obtain ⟨old, hOld⟩ := dbFind_getElem hFind
    rw [if_pos hIn, List.map_set]
    apply List.ext_getElem?
    intro j
    rw [List.getElem?_set]
    split
    · rename_i hEq
      subst hEq
      obtain ⟨hi, _⟩ := List.getElem?_eq_some_iff.mp hOld
      simp [hi, (List.getElem?_eq_some_iff.mp hOld).2]
    · rfl

theorem cwebDbGet_cwebDbPut_self (db : CwebDb) (key value : Bytes) :
    cwebDbGet (cwebDbPut db key value) key = some value := by
  rw [cwebDbPut]
  cases hFind : dbFind db key with
  | none =>
    have hNew : ∀ e ∈ db.entries, (e.1 == key) = false := List.findIdx?_eq_none_iff.mp hFind
    have hPrefix : db.entries.find? (fun e => e.1 == key) = none := by
      rw [List.find?_eq_none]
      intro e he
      simp [hNew e he]
    simp [cwebDbGet, List.find?_append, hPrefix]
  | some i =>
    obtain ⟨hi, _, hBefore⟩ := List.findIdx?_eq_some_iff_getElem.mp hFind
    have hFound : (db.entries.set i (key, value)).find? (fun e => e.1 == key) = some (key, value) := by
      rw [List.find?_eq_some_iff_getElem]
      refine ⟨by simp, i, by simpa using hi, by simp, ?_⟩
      intro j hj
      rw [List.getElem_set_ne (by omega)]
      simpa using hBefore j hj
    simp [cwebDbGet, hFound]

theorem keys_cwebDbDelete (db : CwebDb) (key : Bytes) :
    ((cwebDbDelete db key).entries.map Prod.fst).Perm ((db.entries.map Prod.fst).erase key) := by
  rw [cwebDbDelete]
  cases hFind : dbFind db key with
  | none => rw [List.erase_of_not_mem ((dbFind_eq_none_iff db key).mp hFind)]
  | some i =>
    obtain ⟨old, hOld⟩ := dbFind_getElem hFind
    exact map_swapRemove_perm Prod.fst hOld

@[simp]
theorem cwebDbPut_path (db : CwebDb) (key value : Bytes) : (cwebDbPut db key value).path = db.path := by
  rw [cwebDbPut]
  split <;> rfl

@[simp]
theorem cwebDbDelete_path (db : CwebDb) (key : Bytes) : (cwebDbDelete db key).path = db.path := by
  rw [cwebDbDelete]
  split <;> rfl

/-! ## The byte count and syncing -/

/-- The running count is what a sync would write, without the version byte. -/
def Accounted (db : CwebDb) : Prop := db.total = (db.entries.map entrySize).sum

theorem sum_eq_getElem_add_eraseIdx {entries : List (Bytes × Bytes)} {i : Nat} (hi : i < entries.length) :
    (entries.map entrySize).sum = entrySize entries[i] + ((entries.eraseIdx i).map entrySize).sum := by
  rw [← ((List.getElem_cons_eraseIdx_perm hi).map entrySize).sum_eq]
  simp

theorem cwebDbPut_accounted {db : CwebDb} (h : Accounted db) (key value : Bytes) :
    Accounted (cwebDbPut db key value) := by
  rw [cwebDbPut]
  cases hFind : dbFind db key with
  | none =>
    have hTotal : db.total = (db.entries.map entrySize).sum := h
    simp [Accounted, hTotal]
  | some i =>
    obtain ⟨old, hOld⟩ := dbFind_getElem hFind
    obtain ⟨hi, hEntry⟩ := List.getElem?_eq_some_iff.mp hOld
    have hSum := sum_eq_getElem_add_eraseIdx hi
    have hNew := ((List.set_perm_cons_eraseIdx hi (key, value)).map entrySize).sum_eq
    simp only [List.map_cons, List.sum_cons] at hNew
    simp only [Accounted] at h ⊢
    rw [List.getD_eq_getElem?_getD, hOld, hNew, h, hSum, hEntry, Option.getD_some]
    omega

theorem cwebDbDelete_accounted {db : CwebDb} (h : Accounted db) (key : Bytes) :
    Accounted (cwebDbDelete db key) := by
  rw [cwebDbDelete]
  cases hFind : dbFind db key with
  | none => exact h
  | some i =>
    obtain ⟨old, hOld⟩ := dbFind_getElem hFind
    obtain ⟨hi, hEntry⟩ := List.getElem?_eq_some_iff.mp hOld
    have hSum := sum_eq_getElem_add_eraseIdx hi
    have hNew := ((swapRemove_perm db.entries i hi).map entrySize).sum_eq
    simp only [Accounted] at h ⊢
    rw [List.getD_eq_getElem?_getD, hOld, hNew, h, hSum, hEntry, Option.getD_some]
    omega

theorem serialize_length (entries : List (Bytes × Bytes)) :
    (serialize entries).length = (entries.map entrySize).sum + 1 := by
  rw [serialize, List.length_cons, List.length_flatMap]
  congr 2
  apply List.map_congr_left
  intro e _
  simp only [frame, List.length_append, putU32_length, entrySize]
  omega

/-- The file a sync leaves behind when its calls succeed. -/
def fileOf (entries : List (Bytes × Bytes)) : Option Bytes :=
  if entries = [] then none else some (serialize entries)

theorem cwebDbOpen_fileOf (path : Bytes) {entries : List (Bytes × Bytes)} (hFits : Fits entries) :
    cwebDbOpen path (fileOf entries) = some ⟨path, entries, (entries.map entrySize).sum, false⟩ := by
  rw [fileOf]
  split
  · rename_i hNil
    rw [hNil]
    rfl
  · exact cwebDbOpen_serialize path hFits

def FileOutcome.ok (io : FileOutcome) : Bool := io.write && io.rename && io.remove

theorem cwebDbSync_of_ok {db : CwebDb} (h : Accounted db) (hPath : db.path.length + 4 < 1024)
    (file : Option Bytes) {io : FileOutcome} (hIo : io.ok = true) :
    cwebDbSync db file io = ({ db with dirty := false }, fileOf db.entries, true) := by
  simp only [FileOutcome.ok, Bool.and_eq_true] at hIo
  obtain ⟨⟨hWrite, hRename⟩, hRemove⟩ := hIo
  rw [cwebDbSync, fileOf]
  by_cases hNil : db.entries = []
  · rw [if_pos hNil, if_pos hNil, if_pos hRemove]
  · rw [if_neg hNil, if_neg hNil, if_pos ⟨by rw [serialize_length, h], hPath, hWrite, hRename⟩]

/-- Whatever the file calls do, a sync keeps the entries and leaves the file
as it was or as the entries say. -/
theorem cwebDbSync_cases (db : CwebDb) (file : Option Bytes) (io : FileOutcome) :
    (∃ dirty, (cwebDbSync db file io).1 = { db with dirty := dirty }) ∧
      ((cwebDbSync db file io).2.1 = file ∨ (cwebDbSync db file io).2.1 = fileOf db.entries) := by
  rw [cwebDbSync, fileOf]
  split
  · refine ⟨⟨false, rfl⟩, ?_⟩
    cases io.remove
    · exact .inl rfl
    · exact .inr rfl
  · split
    · exact ⟨⟨false, rfl⟩, .inr rfl⟩
    · exact ⟨⟨db.dirty, rfl⟩, .inl rfl⟩

end Cweb.Db
