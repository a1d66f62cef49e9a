import Cweb.Lib.Lookup
import Cweb.Lib.Machine
import Cweb.Db.DbSync

/-!
# The store as a map

A run of puts, gets, deletes, syncs and reopens answers as a map from keys to
values does. The byte count is kept twice, as a number and as the 64-bit word of
the code, which a replacement moves by an unsigned difference; a sync compares it
with the buffer it is about to write. The file calls of a run succeed.
-/

namespace Cweb.Db

open SwapRemove Machine

/-- `entry_size` in 64 bits. -/
def entryWord (e : Bytes × Bytes) : UInt64 := 8 + UInt64.ofNat e.1.length + UInt64.ofNat e.2.length

/-- A store, its byte count as the code keeps it, and its file. -/
structure Opened where
  db : CwebDb
  total : UInt64
  file : Option Bytes
deriving DecidableEq, Repr

def totalAfterPut (o : Opened) (key value : Bytes) : UInt64 :=
  match dbFind o.db key with
  | some i => o.total + (entryWord (key, value) - entryWord (o.db.entries.getD i ([], [])))
  | none => o.total + entryWord (key, value)

def totalAfterDelete (o : Opened) (key : Bytes) : UInt64 :=
  match dbFind o.db key with
  | some i => o.total - entryWord (o.db.entries.getD i ([], []))
  | none => o.total

/-- The count of a store that was read from its file. -/
def totalAfterOpen (entries : List (Bytes × Bytes)) : UInt64 :=
  entries.foldl (fun total e => total + entryWord e) 0

def fileCallsOk : FileOutcome := ⟨true, true, true⟩

/-- `cweb_db_close` syncs a store with pending changes, and the open that follows
reads the file. -/
def reopen (o : Opened) : Option Opened :=
  let file := if o.db.dirty then (cwebDbSync o.db o.file fileCallsOk).2.1 else o.file
  (cwebDbOpen o.db.path file).map fun db => ⟨db, totalAfterOpen db.entries, file⟩

inductive DbCall where
  | put (key value : Bytes)
  | get (key : Bytes)
  | delete (key : Bytes)
  | sync
  | reopen

inductive DbAnswer where
  | value (v : Option Bytes)
  | ok (b : Bool)
deriving DecidableEq, Repr

def dbCall (o : Opened) : DbCall → Option (Opened × DbAnswer)
  | .put key value => some (⟨cwebDbPut o.db key value, totalAfterPut o key value, o.file⟩, .ok true)
  | .get key => some (o, .value (cwebDbGet o.db key))
  | .delete key =>
    some (⟨cwebDbDelete o.db key, totalAfterDelete o key, o.file⟩, .ok (dbFind o.db key).isSome)
  | .sync =>
    let synced := cwebDbSync o.db o.file fileCallsOk
    some (⟨synced.1, o.total, synced.2.1⟩, .ok synced.2.2)
  | .reopen => (reopen o).map fun o => (o, .ok true)

/-- A store whose file does not exist. -/
def emptyStore (path : Bytes) : Opened := ⟨⟨path, [], 0, false⟩, 0, none⟩

/-! ## What the store is for -/

abbrev KeyMap := Bytes → Option Bytes

def KeyMap.call (m : KeyMap) : DbCall → Option (KeyMap × DbAnswer)
  | .put key value => some (Function.update m key (some value), .ok true)
  | .get key => some (m, .value (m key))
  | .delete key => some (Function.update m key none, .ok (m key).isSome)
  | .sync => some (m, .ok true)
  | .reopen => some (m, .ok true)

/-- The framing holds the lengths, and the name of the temporary file its buffer. -/
def DbCall.Possible (path : Bytes) : DbCall → Prop
  | .put key value => key.length < 2 ^ 32 ∧ value.length < 2 ^ 32
  | .get _ => True
  | .delete _ => True
  | .sync => path.length + 4 < 1024
  | .reopen => path.length + 4 < 1024

instance (path : Bytes) (c : DbCall) : Decidable (c.Possible path) :=
  match c with
  | .put key value => inferInstanceAs (Decidable (key.length < 2 ^ 32 ∧ value.length < 2 ^ 32))
  | .get _ => isTrue trivial
  | .delete _ => isTrue trivial
  | .sync => inferInstanceAs (Decidable (path.length + 4 < 1024))
  | .reopen => inferInstanceAs (Decidable (path.length + 4 < 1024))

/-! ## Entries and keys -/

theorem cwebDbGet_eq_some_iff {db : CwebDb} (hKeys : DistinctKeys db.entries) (key value : Bytes) :
    cwebDbGet db key = some value ↔ (key, value) ∈ db.entries :=
  ⟨cwebDbGet_mem, fun hMem => cwebDbGet_of_mem hKeys hMem⟩

theorem distinctKeys_nodup {entries : List (Bytes × Bytes)} (h : DistinctKeys entries) : entries.Nodup :=
  List.Nodup.of_map Prod.fst h

theorem ne_slot_iff {entries : List (Bytes × Bytes)} (h : DistinctKeys entries) {slot e : Bytes × Bytes}
    (hSlot : slot ∈ entries) (he : e ∈ entries) : e ≠ slot ↔ e.1 ≠ slot.1 := by
  constructor
  · intro hNe hKey
    exact hNe (List.inj_on_of_nodup_map h he hSlot hKey)
  · rintro hKey rfl
    exact hKey rfl

theorem mem_cwebDbPut_iff {db : CwebDb} (h : DistinctKeys db.entries) (key value : Bytes)
    (e : Bytes × Bytes) :
    e ∈ (cwebDbPut db key value).entries ↔ e = (key, value) ∨ (e.1 ≠ key ∧ e ∈ db.entries) := by
  rw [cwebDbPut]
  cases hFind : dbFind db key with
  | none =>
    have hNew := (dbFind_eq_none_iff db key).mp hFind
    simp only [List.mem_append, List.mem_singleton]
    constructor
    · rintro (hOld | rfl)
      · refine .inr ⟨?_, hOld⟩
        rintro rfl
        exact hNew (List.mem_map_of_mem hOld)
      · exact .inl rfl
    · rintro (rfl | ⟨_, hOld⟩)
      · exact .inr rfl
      · exact .inl hOld
  | some i =>
    obtain ⟨old, hOld⟩ := dbFind_getElem hFind
    obtain ⟨hi, hEntry⟩ := List.getElem?_eq_some_iff.mp hOld
    have hIn : (key, old) ∈ db.entries := List.mem_of_getElem? hOld
    have hRest : e ∈ db.entries.eraseIdx i ↔ e ≠ (key, old) ∧ e ∈ db.entries := by
      rw [← (List.erase_getElem hi).mem_iff, (distinctKeys_nodup h).mem_erase_iff, hEntry]
    simp only [(List.set_perm_cons_eraseIdx hi (key, value)).mem_iff, List.mem_cons, hRest]
    apply or_congr_right
    apply and_congr_left
    intro he
    exact ne_slot_iff h hIn he

theorem mem_cwebDbDelete_iff {db : CwebDb} (h : DistinctKeys db.entries) (key : Bytes) (e : Bytes × Bytes) :
    e ∈ (cwebDbDelete db key).entries ↔ e.1 ≠ key ∧ e ∈ db.entries := by
  rw [cwebDbDelete]
  cases hFind : dbFind db key with
  | none =>
    have hNew := (dbFind_eq_none_iff db key).mp hFind
    refine ⟨?_, And.right⟩
    intro hOld
    refine ⟨?_, hOld⟩
    rintro rfl
    exact hNew (List.mem_map_of_mem hOld)
  | some i =>
    obtain ⟨old, hOld⟩ := dbFind_getElem hFind
    obtain ⟨hi, hEntry⟩ := List.getElem?_eq_some_iff.mp hOld
    have hIn : (key, old) ∈ db.entries := List.mem_of_getElem? hOld
    rw [mem_swapRemove_iff (distinctKeys_nodup h) hi, hEntry, and_comm]
    apply and_congr_left
    intro he
    exact ne_slot_iff h hIn he

theorem cwebDbGet_cwebDbPut {db : CwebDb} (h : DistinctKeys db.entries) (key value : Bytes) :
    cwebDbGet (cwebDbPut db key value) = Function.update (cwebDbGet db) key (some value) := by
  apply Lookup.eq_update_some
  intro k v
  rw [cwebDbGet_eq_some_iff (distinctKeys_cwebDbPut h key value), mem_cwebDbPut_iff h,
    cwebDbGet_eq_some_iff h,
    Prod.mk.injEq]

theorem cwebDbGet_cwebDbDelete {db : CwebDb} (h : DistinctKeys db.entries) (key : Bytes) :
    cwebDbGet (cwebDbDelete db key) = Function.update (cwebDbGet db) key none := by
  apply Lookup.eq_update_none
  intro k v
  rw [cwebDbGet_eq_some_iff (distinctKeys_cwebDbDelete h key), mem_cwebDbDelete_iff h,
    cwebDbGet_eq_some_iff h]

theorem dbFind_isSome (db : CwebDb) (key : Bytes) : (dbFind db key).isSome = (cwebDbGet db key).isSome := by
  cases hFind : dbFind db key with
  | none =>
    rw [(cwebDbGet_eq_none_iff db key).mpr ((dbFind_eq_none_iff db key).mp hFind)]
    rfl
  | some i =>
    cases hGet : cwebDbGet db key with
    | some value => rfl
    | none =>
      rw [(dbFind_eq_none_iff db key).mpr ((cwebDbGet_eq_none_iff db key).mp hGet)] at hFind
      cases hFind

/-! ## The byte count in 64 bits -/

theorem entryWord_eq (e : Bytes × Bytes) : entryWord e = UInt64.ofNat (entrySize e) := by
  rw [entryWord, entrySize, UInt64.ofNat_add, UInt64.ofNat_add]
  rfl

theorem entrySize_le_total {db : CwebDb} (h : Accounted db) {i : Nat} {e : Bytes × Bytes}
    (he : db.entries[i]? = some e) :
    entrySize e ≤ db.total := by
  obtain ⟨hi, hEntry⟩ := List.getElem?_eq_some_iff.mp he
  rw [h, sum_eq_getElem_add_eraseIdx hi, hEntry]
  exact Nat.le_add_right _ _

theorem totalAfterPut_eq {o : Opened} (h : Accounted o.db) (hTotal : o.total = UInt64.ofNat o.db.total)
    (key value : Bytes) : totalAfterPut o key value = UInt64.ofNat (cwebDbPut o.db key value).total := by
  rw [totalAfterPut, cwebDbPut, hTotal]
  cases hFind : dbFind o.db key with
  | none => rw [entryWord_eq, UInt64.ofNat_add]
  | some i =>
    obtain ⟨old, hOld⟩ := dbFind_getElem hFind
    obtain ⟨rest, hRest⟩ := Nat.exists_eq_add_of_le (entrySize_le_total h hOld)
    have hSub : o.db.total + entrySize (key, value) - entrySize (key, old) = rest +
      entrySize (key, value) := by omega
    dsimp only
    rw [List.getD_eq_getElem?_getD, hOld, Option.getD_some, hSub, hRest, entryWord_eq, entryWord_eq,
      UInt64.ofNat_add,
      UInt64.ofNat_add]
    grind

theorem totalAfterDelete_eq {o : Opened} (h : Accounted o.db) (hTotal : o.total = UInt64.ofNat o.db.total)
    (key : Bytes) : totalAfterDelete o key = UInt64.ofNat (cwebDbDelete o.db key).total := by
  rw [totalAfterDelete, cwebDbDelete, hTotal]
  cases hFind : dbFind o.db key with
  | none => rfl
  | some i =>
    obtain ⟨old, hOld⟩ := dbFind_getElem hFind
    obtain ⟨rest, hRest⟩ := Nat.exists_eq_add_of_le (entrySize_le_total h hOld)
    dsimp only
    rw [List.getD_eq_getElem?_getD, hOld, Option.getD_some, hRest, Nat.add_sub_cancel_left, entryWord_eq,
      UInt64.ofNat_add]
    grind

theorem totalAfterOpen_eq (entries : List (Bytes × Bytes)) :
    totalAfterOpen entries = UInt64.ofNat (entries.map entrySize).sum := by
  have hFold : ∀ n, entries.foldl (fun total e => total + entryWord e) (UInt64.ofNat n) =
      UInt64.ofNat (n + (entries.map entrySize).sum) := by
    induction entries with
    | nil => exact fun n => rfl
    | cons e entries ih =>
      intro n
      rw [List.foldl_cons, entryWord_eq, ← UInt64.ofNat_add, ih, List.map_cons, List.sum_cons, Nat.add_assoc]
  have hZero := hFold 0
  rw [Nat.zero_add] at hZero
  exact hZero

/-! ## What a run keeps -/

/-- The store shows a map, its count is right, and what is not pending stands in
its file. -/
structure Keeps (path : Bytes) (o : Opened) (m : KeyMap) : Prop where
  path_eq : o.db.path = path
  distinct : DistinctKeys o.db.entries
  fits : Fits o.db.entries
  accounted : Accounted o.db
  total : o.total = UInt64.ofNat o.db.total
  map : cwebDbGet o.db = m
  saved : o.db.dirty = false → o.file = fileOf o.db.entries

theorem keeps_empty (path : Bytes) : Keeps path (emptyStore path) fun _ => none where
  path_eq := rfl
  distinct := List.nodup_nil
  fits _ he := absurd he List.not_mem_nil
  accounted := rfl
  total := rfl
  map := rfl
  saved _ := rfl

theorem cwebDbPut_dirty (db : CwebDb) (key value : Bytes) : (cwebDbPut db key value).dirty = true := by
  rw [cwebDbPut]
  split <;> rfl

section Calls

variable {path : Bytes} {o : Opened} {m : KeyMap}

theorem Keeps.put (h : Keeps path o m) {key value : Bytes} (hKey : key.length < 2 ^ 32)
    (hValue : value.length < 2 ^ 32) :
    Keeps path ⟨cwebDbPut o.db key value, totalAfterPut o key value, o.file⟩
      (Function.update m key (some value)) where
  path_eq := (cwebDbPut_path o.db key value).trans h.path_eq
  distinct := distinctKeys_cwebDbPut h.distinct key value
  fits := by
    intro e he
    rcases (mem_cwebDbPut_iff h.distinct key value e).mp he with rfl | ⟨_, hOld⟩
    · exact ⟨hKey, hValue⟩
    · exact h.fits e hOld
  accounted := cwebDbPut_accounted h.accounted key value
  total := totalAfterPut_eq h.accounted h.total key value
  map := by rw [cwebDbGet_cwebDbPut h.distinct, h.map]
  saved hClean := absurd ((cwebDbPut_dirty o.db key value).symm.trans hClean) Bool.noConfusion

theorem Keeps.delete (h : Keeps path o m) (key : Bytes) :
    Keeps path ⟨cwebDbDelete o.db key, totalAfterDelete o key, o.file⟩ (Function.update m key none) where
  path_eq := (cwebDbDelete_path o.db key).trans h.path_eq
  distinct := distinctKeys_cwebDbDelete h.distinct key
  fits e he := h.fits e ((mem_cwebDbDelete_iff h.distinct key e).mp he).2
  accounted := cwebDbDelete_accounted h.accounted key
  total := totalAfterDelete_eq h.accounted h.total key
  map := by rw [cwebDbGet_cwebDbDelete h.distinct, h.map]
  saved := by
    -- a key that is not there leaves the store as it was
    rw [cwebDbDelete]
    cases dbFind o.db key with
    | none => exact h.saved
    | some i => exact fun hClean => absurd hClean Bool.noConfusion

theorem Keeps.sync (h : Keeps path o m) (hPath : path.length + 4 < 1024) :
    cwebDbSync o.db o.file fileCallsOk = ({ o.db with dirty := false }, fileOf o.db.entries, true) :=
  cwebDbSync_of_ok h.accounted (h.path_eq ▸ hPath) o.file rfl

theorem Keeps.synced (h : Keeps path o m) :
    Keeps path ⟨{ o.db with dirty := false }, o.total, fileOf o.db.entries⟩ m where
  path_eq := h.path_eq
  distinct := h.distinct
  fits := h.fits
  accounted := h.accounted
  total := h.total
  map := h.map
  saved _ := rfl

theorem Keeps.closed (h : Keeps path o m) (hPath : path.length + 4 < 1024) :
    (if o.db.dirty then (cwebDbSync o.db o.file fileCallsOk).2.1 else o.file) = fileOf o.db.entries := by
  rw [h.sync hPath]
  cases hDirty : o.db.dirty with
  | true => rfl
  | false => exact h.saved hDirty

theorem Keeps.reopen (h : Keeps path o m) (hPath : path.length + 4 < 1024) :
    ∃ o', reopen o = some o' ∧ Keeps path o' m := by
  refine ⟨⟨⟨o.db.path, o.db.entries, (o.db.entries.map entrySize).sum, false⟩, totalAfterOpen o.db.entries,
    fileOf o.db.entries⟩, ?_, ?_⟩
  · rw [Db.reopen, h.closed hPath, cwebDbOpen_fileOf o.db.path h.fits]
    rfl
  · exact ⟨h.path_eq, h.distinct, h.fits, rfl, totalAfterOpen_eq o.db.entries, h.map, fun _ => rfl⟩

theorem dbCall_agree (c : DbCall) (calls : List DbCall)
    (h : Keeps path o m ∧ ∀ c' ∈ c :: calls, c'.Possible path) :
    Agree (fun o' m' => Keeps path o' m' ∧ ∀ c' ∈ calls, c'.Possible path) (dbCall o c) (m.call c) := by
  obtain ⟨hKeeps, hPossible⟩ := h
  have hFirst := hPossible c List.mem_cons_self
  have hRest : ∀ c' ∈ calls, c'.Possible path := fun c' hMem => hPossible c' (List.mem_cons_of_mem _ hMem)
  cases c with
  | put key value => exact .of_eq rfl rfl ⟨hKeeps.put hFirst.1 hFirst.2, hRest⟩
  | get key => exact .of_eq rfl (by rw [KeyMap.call, hKeeps.map]) ⟨hKeeps, hRest⟩
  | delete key =>
    have hFound : (dbFind o.db key).isSome = (m key).isSome := by rw [dbFind_isSome, hKeeps.map]
    exact .of_eq rfl (by rw [KeyMap.call, hFound]) ⟨hKeeps.delete key, hRest⟩
  | sync =>
    refine .of_eq ?_ rfl ⟨hKeeps.synced, hRest⟩
    rw [dbCall, hKeeps.sync hFirst]
  | reopen =>
    obtain ⟨o', hReopen, hKeeps'⟩ := hKeeps.reopen hFirst
    exact .of_eq (by rw [dbCall, hReopen]; rfl) rfl ⟨hKeeps', hRest⟩

end Calls

theorem KeyMap.run_ne_none (calls : List DbCall) : ∀ m : KeyMap, run KeyMap.call m calls ≠ none := by
  induction calls with
  | nil => exact fun m => Option.some_ne_none _
  | cons c calls ih =>
    intro m hNone
    obtain ⟨⟨m', a⟩, hStep⟩ : ∃ r, m.call c = some r := by cases c <;> exact ⟨_, rfl⟩
    rw [run, hStep, Option.bind_some, Option.map_eq_none_iff] at hNone
    exact ih m' hNone

/-- In every run the store answers as the map does, and in the end its gets are the
map, its keys are distinct and its count is that of its entries, in 64 bits as well,
so that the size check of a sync passes. -/
theorem store_refines_map (path : Bytes) (calls : List DbCall) (hPossible : ∀ c ∈ calls, c.Possible path) :
    ∃ o answers, run dbCall (emptyStore path) calls = some (o, answers) ∧
      run KeyMap.call (fun _ => none) calls = some (cwebDbGet o.db, answers) ∧
      DistinctKeys o.db.entries ∧ o.db.total = (o.db.entries.map entrySize).sum ∧
        o.total = UInt64.ofNat o.db.total ∧
      (serialize o.db.entries).length = o.db.total + 1 ∧
        UInt64.ofNat (serialize o.db.entries).length = o.total + 1 := by
  rcases run_agree (fun c calls o m h => dbCall_agree c calls h) calls (emptyStore path) (fun _ => none)
    ⟨keeps_empty path, hPossible⟩ with ⟨_, hStuck⟩ | ⟨o, m, answers, hStore, hMap, hKeeps, _⟩
  · exact absurd hStuck (KeyMap.run_ne_none calls _)
  · have hLength : (serialize o.db.entries).length = o.db.total + 1 := by
      rw [serialize_length, hKeeps.accounted]
    refine ⟨o, answers, hStore, hKeeps.map ▸ hMap, hKeeps.distinct, hKeeps.accounted, hKeeps.total,
      hLength, ?_⟩
    rw [hLength, UInt64.ofNat_add, hKeeps.total]
    rfl

/-- A replacement by a shorter value, an empty key, a deletion of the last slot, a
reopen between them. -/
def mixedCalls : List DbCall :=
  [.put (ascii "k") [0, 1, 2], .put [] [0], .put (ascii "k") [], .sync, .delete (ascii "k"), .reopen, .get [],
    .delete [], .get (ascii "k"), .sync]

theorem store_refines_map_mixed :
    (run dbCall (emptyStore (ascii "app.db")) mixedCalls).map Prod.snd =
      some [.ok true, .ok true, .ok true, .ok true, .ok true, .ok true, .value (some [0]), .ok true,
        .value none,
        .ok true] := by
  obtain ⟨o, answers, hStore, hMap, _⟩ := store_refines_map (ascii "app.db") mixedCalls (by decide)
  have hAnswers := congrArg (Option.map Prod.snd) hMap
  rw [hStore]
  exact hAnswers.symm.trans (by decide)

end Cweb.Db
