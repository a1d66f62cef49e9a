import Mathlib.Data.List.Nodup
import Cweb.Db.Db

/-!
# What a sync leaves behind

A sync answers 0 or -1. The caller takes 0 to mean that the file now holds the
store and -1 to mean that nothing has changed. The answer is compared here with
the store that the next open reads back, for every outcome of the file calls.
An emptied store is synced by a `remove` whose result nobody looks at.
-/

namespace Cweb.Db

/-- `rename` replaces an existing file on posix. The other build removes the
file first. -/
inductive Platform where
  | posix
  | win32
deriving DecidableEq, Repr

def cwebDbSyncOn (platform : Platform) (db : CwebDb) (file : Option Bytes) (io : FileOutcome) :
    CwebDb × Option Bytes × Bool :=
  if db.entries = [] then
    ({ db with dirty := false }, if io.remove then none else file, true)
  else if (serialize db.entries).length = db.total + 1 ∧ db.path.length + 4 < 1024 ∧ io.write then
    let old := if platform = .win32 ∧ io.remove then none else file
    if io.rename then ({ db with dirty := false }, some (serialize db.entries), true)
    else (db, old, false)
  else (db, file, false)

theorem cwebDbSyncOn_posix (db : CwebDb) (file : Option Bytes) (io : FileOutcome) :
    cwebDbSyncOn .posix db file io = cwebDbSync db file io := by
  rw [cwebDbSyncOn, cwebDbSync]
  by_cases hNil : db.entries = []
  · rw [if_pos hNil, if_pos hNil]
  · rw [if_neg hNil, if_neg hNil]
    by_cases hWrite : (serialize db.entries).length = db.total + 1 ∧ db.path.length + 4 < 1024 ∧ io.write
    · obtain ⟨hLength, hPath, hWritten⟩ := hWrite
      cases hRename : io.rename <;> simp [hLength, hPath, hWritten]
    · rw [if_neg hWrite, if_neg]
      rintro ⟨hLength, hPath, hWritten, _⟩
      exact hWrite ⟨hLength, hPath, hWritten⟩

/-! ## What an open can read -/

theorem getU32_lt (p : Bytes) : getU32 p < 2 ^ 32 := by
  rw [getU32.eq_def]
  split
  · rename_i a b c d _
    have ha := a.toNat_lt
    have hb := b.toNat_lt
    have hc := c.toNat_lt
    have hd := d.toNat_lt
    omega
  · omega

theorem dbFrames_fits {fuel : Nat} {rest : Bytes} {entries : List (Bytes × Bytes)}
    (h : dbFrames fuel rest = some entries) : Fits entries := by
  induction fuel generalizing rest entries with
  | zero =>
    rw [dbFrames] at h
    split at h
    · cases h
      intro e he
      cases he
    · cases h
  | succ fuel ih =>
    rw [dbFrames] at h
    dsimp only at h
    split at h
    · split at h
      · cases h
        intro e he
        cases he
      · cases h
    · split at h
      · cases h
      · split at h
        · cases h
        · split at h
          · cases h
          · obtain ⟨tail, hTail, rfl⟩ := Option.map_eq_some_iff.mp h
            intro e he
            obtain rfl | he := List.mem_cons.mp he
            · constructor
              · exact lt_of_le_of_lt (List.length_take_le _ _) (getU32_lt _)
              · exact lt_of_le_of_lt (List.length_take_le _ _) (getU32_lt _)
            · exact ih hTail e he

theorem dbFrames_eq_nil_iff {fuel : Nat} {rest : Bytes} : dbFrames fuel rest = some [] ↔ rest = [] := by
  constructor
  · intro h
    cases fuel with
    | zero =>
      rw [dbFrames] at h
      by_contra hRest
      rw [if_neg hRest] at h
      cases h
    | succ fuel =>
      rw [dbFrames] at h
      dsimp only at h
      by_contra hRest
      rw [if_neg hRest] at h
      split at h
      · cases h
      · split at h
        · cases h
        · split at h
          · cases h
          · split at h
            · cases h
            · obtain ⟨tail, _, hCons⟩ := Option.map_eq_some_iff.mp h
              cases hCons
  · rintro rfl
    cases fuel <;> rfl

theorem cwebDbOpen_entries_fits {path : Bytes} {file : Option Bytes} {opened : CwebDb}
    (h : cwebDbOpen path file = some opened) : Fits opened.entries := by
  rw [cwebDbOpen.eq_def] at h
  split at h
  · cases h
    intro e he
    cases he
  · cases h
  · split at h
    · obtain ⟨entries, hFrames, rfl⟩ := Option.map_eq_some_iff.mp h
      exact dbFrames_fits hFrames
    · cases h

theorem cwebDbOpen_nil_iff (path : Bytes) (file : Option Bytes) :
    (∃ opened, cwebDbOpen path file = some opened ∧ opened.entries = []) ↔
      file = none ∨ file = some [1] := by
  constructor
  · rintro ⟨opened, hOpen, hNil⟩
    rw [cwebDbOpen.eq_def] at hOpen
    split at hOpen
    · exact .inl rfl
    · cases hOpen
    · split at hOpen
      · rename_i hVersion
        obtain ⟨entries, hFrames, rfl⟩ := Option.map_eq_some_iff.mp hOpen
        have hEntries : entries = [] := hNil
        subst hEntries
        rw [dbFrames_eq_nil_iff.mp hFrames, hVersion]
        exact .inr rfl
      · cases hOpen
  · rintro (rfl | rfl)
    · exact ⟨_, rfl, rfl⟩
    · exact ⟨_, rfl, rfl⟩

/-! ## The map a store stands for -/

theorem cwebDbGet_mem {db : CwebDb} {key value : Bytes} (h : cwebDbGet db key = some value) :
    (key, value) ∈ db.entries := by
  obtain ⟨e, hFind, rfl⟩ := Option.map_eq_some_iff.mp h
  have hKey : e.1 = key := by simpa using List.find?_some hFind
  subst hKey
  exact List.mem_of_find?_eq_some hFind

theorem cwebDbGet_of_mem {db : CwebDb} (hKeys : DistinctKeys db.entries) {e : Bytes × Bytes}
    (he : e ∈ db.entries) : cwebDbGet db e.1 = some e.2 := by
  cases hGet : cwebDbGet db e.1 with
  | none => exact absurd (List.mem_map_of_mem he) ((cwebDbGet_eq_none_iff db e.1).mp hGet)
  | some value =>
    have hMem := cwebDbGet_mem hGet
    have hEq : (e.1, value) = e := List.inj_on_of_nodup_map hKeys hMem he rfl
    rw [← hEq]

theorem distinctKeys_cwebDbPut {db : CwebDb} (h : DistinctKeys db.entries) (key value : Bytes) :
    DistinctKeys (cwebDbPut db key value).entries := by
  rw [DistinctKeys, keys_cwebDbPut]
  split
  · exact h
  · rename_i hNew
    refine List.Nodup.append h (List.nodup_singleton key) ?_
    intro k hk hKey
    rw [List.mem_singleton] at hKey
    exact hNew (hKey ▸ hk)

theorem distinctKeys_cwebDbDelete {db : CwebDb} (h : DistinctKeys db.entries) (key : Bytes) :
    DistinctKeys (cwebDbDelete db key).entries :=
  (keys_cwebDbDelete db key).nodup_iff.mpr (List.Nodup.erase key h)

/-- The file opens as a store with the same keys and values. -/
def ReadsBack (db : CwebDb) (file : Option Bytes) : Prop :=
  ∃ opened, cwebDbOpen db.path file = some opened ∧ ∀ key, cwebDbGet opened key = cwebDbGet db key

theorem readsBack_nil_iff {db : CwebDb} (hNil : db.entries = []) (file : Option Bytes) :
    ReadsBack db file ↔ file = none ∨ file = some [1] := by
  have hNone : ∀ key, cwebDbGet db key = none := by
    intro key
    rw [cwebDbGet_eq_none_iff, hNil]
    exact List.not_mem_nil
  rw [← cwebDbOpen_nil_iff db.path]
  constructor
  · rintro ⟨opened, hOpen, hSame⟩
    refine ⟨opened, hOpen, List.eq_nil_iff_forall_not_mem.mpr ?_⟩
    intro e he
    have hGet := hSame e.1
    rw [hNone, cwebDbGet_eq_none_iff] at hGet
    exact hGet (List.mem_map_of_mem he)
  · rintro ⟨opened, hOpen, hEntries⟩
    refine ⟨opened, hOpen, ?_⟩
    intro key
    rw [hNone, cwebDbGet_eq_none_iff, hEntries]
    exact List.not_mem_nil

theorem readsBack_serialize {db : CwebDb} (hFits : Fits db.entries) :
    ReadsBack db (some (serialize db.entries)) :=
  ⟨_, cwebDbOpen_serialize db.path hFits, fun _ => rfl⟩

theorem fits_of_readsBack {db : CwebDb} (hKeys : DistinctKeys db.entries) {file : Option Bytes}
    (h : ReadsBack db file) : Fits db.entries := by
  obtain ⟨opened, hOpen, hSame⟩ := h
  intro e he
  have hGet := hSame e.1
  rw [cwebDbGet_of_mem hKeys he] at hGet
  exact cwebDbOpen_entries_fits hOpen e (cwebDbGet_mem hGet)

/-! ## The answer of a sync -/

/-- The answer 0 means that the file holds the store, the answer -1 that
nothing has changed. -/
def AllOrNothing (platform : Platform) (db : CwebDb) (file : Option Bytes) (io : FileOutcome) : Prop :=
  let synced := cwebDbSyncOn platform db file io
  (synced.2.2 = true → ReadsBack db synced.2.1 ∧ synced.1.dirty = false) ∧
    (synced.2.2 = false → synced.2.1 = file ∧ synced.1.dirty = db.dirty)

def Written (db : CwebDb) (io : FileOutcome) : Prop :=
  Accounted db ∧ db.path.length + 4 < 1024 ∧ io.write = true

structure SyncSafe (platform : Platform) (db : CwebDb) (file : Option Bytes) (io : FileOutcome) : Prop where
  emptied : db.entries = [] → io.remove = true ∨ file = none ∨ file = some [1]
  renamed : db.entries ≠ [] → Written db io → io.rename = true → Fits db.entries
  kept : db.entries ≠ [] → Written db io → io.rename = false → platform = .win32 →
    io.remove = true → file = none

theorem cwebDbSyncOn_nil {db : CwebDb} (hNil : db.entries = []) (platform : Platform)
    (file : Option Bytes) (io : FileOutcome) :
    cwebDbSyncOn platform db file io =
      ({ db with dirty := false }, if io.remove then none else file, true) := by
  rw [cwebDbSyncOn, if_pos hNil]

theorem written_iff (db : CwebDb) (io : FileOutcome) :
    Written db io ↔
      (serialize db.entries).length = db.total + 1 ∧ db.path.length + 4 < 1024 ∧ io.write := by
  have hLength : Accounted db ↔ (serialize db.entries).length = db.total + 1 := by
    rw [serialize_length, Accounted]
    omega
  rw [Written, hLength]

theorem cwebDbSyncOn_renamed {db : CwebDb} {io : FileOutcome} (hSome : db.entries ≠ [])
    (hWritten : Written db io) (hRename : io.rename = true) (platform : Platform) (file : Option Bytes) :
    cwebDbSyncOn platform db file io = ({ db with dirty := false }, some (serialize db.entries), true) := by
  rw [cwebDbSyncOn, if_neg hSome, if_pos ((written_iff db io).mp hWritten), if_pos hRename]

theorem cwebDbSyncOn_notRenamed {db : CwebDb} {io : FileOutcome} (hSome : db.entries ≠ [])
    (hWritten : Written db io) (hRename : io.rename = false) (platform : Platform) (file : Option Bytes) :
    cwebDbSyncOn platform db file io =
      (db, if platform = .win32 ∧ io.remove then none else file, false) := by
  rw [cwebDbSyncOn, if_neg hSome, if_pos ((written_iff db io).mp hWritten), if_neg (by simp [hRename])]

theorem cwebDbSyncOn_notWritten {db : CwebDb} {io : FileOutcome} (hSome : db.entries ≠ [])
    (hWritten : ¬ Written db io) (platform : Platform) (file : Option Bytes) :
    cwebDbSyncOn platform db file io = (db, file, false) := by
  rw [cwebDbSyncOn, if_neg hSome, if_neg (fun h => hWritten ((written_iff db io).mpr h))]

theorem allOrNothing_of_syncSafe {platform : Platform} {db : CwebDb} {file : Option Bytes}
    {io : FileOutcome} (h : SyncSafe platform db file io) : AllOrNothing platform db file io := by
  rw [AllOrNothing]
  by_cases hNil : db.entries = []
  · rw [cwebDbSyncOn_nil hNil]
    refine ⟨fun _ => ⟨?_, rfl⟩, nofun⟩
    rw [readsBack_nil_iff hNil]
    cases hRemove : io.remove with
    | true => exact .inl rfl
    | false =>
      obtain hTrue | hFile := h.emptied hNil
      · rw [hRemove] at hTrue
        cases hTrue
      · exact hFile
  · by_cases hWritten : Written db io
    · cases hRename : io.rename with
      | true =>
        rw [cwebDbSyncOn_renamed hNil hWritten hRename]
        exact ⟨fun _ => ⟨readsBack_serialize (h.renamed hNil hWritten hRename), rfl⟩, nofun⟩
      | false =>
        rw [cwebDbSyncOn_notRenamed hNil hWritten hRename]
        refine ⟨nofun, fun _ => ⟨?_, rfl⟩⟩
        dsimp only
        split
        · rename_i hWin
          exact (h.kept hNil hWritten hRename hWin.1 hWin.2).symm
        · rfl
    · rw [cwebDbSyncOn_notWritten hNil hWritten]
      exact ⟨nofun, fun _ => ⟨rfl, rfl⟩⟩

theorem syncSafe_of_allOrNothing {platform : Platform} {db : CwebDb} {file : Option Bytes}
    {io : FileOutcome} (hKeys : DistinctKeys db.entries) (h : AllOrNothing platform db file io) :
    SyncSafe platform db file io := by
  rw [AllOrNothing] at h
  constructor
  · intro hNil
    rw [cwebDbSyncOn_nil hNil] at h
    obtain ⟨hBack, _⟩ := h.1 rfl
    rw [readsBack_nil_iff hNil] at hBack
    cases hRemove : io.remove with
    | true => exact .inl rfl
    | false =>
      rw [hRemove] at hBack
      exact .inr hBack
  · intro hSome hWritten hRename
    rw [cwebDbSyncOn_renamed hSome hWritten hRename] at h
    exact fits_of_readsBack hKeys (h.1 rfl).1
  · intro hSome hWritten hRename hWin hRemove
    rw [cwebDbSyncOn_notRenamed hSome hWritten hRename, if_pos ⟨hWin, hRemove⟩] at h
    exact (h.2 rfl).1.symm

/-- A sync keeps its word when an emptied store gets its file removed, no
length is too long for the framing, and no removed file is left without its
successor. With keys stored once there is no other case. -/
theorem allOrNothing_iff (platform : Platform) (db : CwebDb) (file : Option Bytes) (io : FileOutcome) :
    (SyncSafe platform db file io → AllOrNothing platform db file io) ∧
      (DistinctKeys db.entries → AllOrNothing platform db file io → SyncSafe platform db file io) :=
  ⟨allOrNothing_of_syncSafe, syncSafe_of_allOrNothing⟩

/-- One entry, saved under `s`. -/
def savedStore : CwebDb := cwebDbPut ⟨ascii "s", [], 0, false⟩ (ascii "k") (ascii "v")

def emptiedStore : CwebDb := cwebDbDelete savedStore (ascii "k")

/-- The removal fails, the sync answers 0 and the deleted entry comes back. -/
theorem emptied_store_comes_back :
    ¬ AllOrNothing .posix emptiedStore (fileOf savedStore.entries) ⟨true, true, false⟩ := by
  intro h
  have hNew : DistinctKeys (CwebDb.mk (ascii "s") [] 0 false).entries := List.nodup_nil
  have hKeys : DistinctKeys emptiedStore.entries :=
    distinctKeys_cwebDbDelete (distinctKeys_cwebDbPut hNew _ _) _
  have hSafe := syncSafe_of_allOrNothing hKeys h
  obtain hRemove | hNone | hOne := hSafe.emptied (by decide)
  · cases hRemove
  · exact absurd hNone (by decide)
  · exact absurd hOne (by decide)

end Cweb.Db
