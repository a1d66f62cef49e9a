import Cweb.Http.SessionStore

/-!
# Logout across restarts

A destroyed session comes back in two ways: it was not in the slot table when
it was destroyed, or a restart reads a file that no write-through has synced
since. The ledger of a run keeps the destroyed tokens and those of them whose
removal has not reached the file, and a run that avoids the two cases never
opens a destroyed session again.
-/

namespace Cweb.SessionStore

open Sv Db Session

/-- `gone` lists the destroyed tokens and `pending` those of them destroyed
since the file was last written. -/
structure Ledger where
  world : World
  gone : List Bytes
  pending : List Bytes

/-- The operation writes a record through and its file calls succeed. -/
def syncs (w : World) : Op → Bool
  | .create rnd _ _ io => rnd.isSome && io.ok && decide (w.path.length + 4 < 1024)
  | .set token _ _ io =>
    (findToken w.store (svFromCstr token)).isSome && io.ok && decide (w.path.length + 4 < 1024)
  | .del token key io =>
    ((findToken w.store (svFromCstr token)).bind fun i =>
      (w.store.slots[i]?).bind fun slot => strmapGet slot.2.data (svFromCstr key)).isSome &&
      io.ok && decide (w.path.length + 4 < 1024)
  | _ => false

def Ledger.step (l : Ledger) (op : Op) : Ledger :=
  match op with
  | .destroy token =>
    ⟨SessionStore.step l.world op, svFromCstr token :: l.gone, svFromCstr token :: l.pending⟩
  | _ => ⟨SessionStore.step l.world op, l.gone, if syncs l.world op then [] else l.pending⟩

/-- Every record in memory is short enough for the 32-bit framing. -/
def SmallRecords (w : World) : Prop := ∀ db ∈ w.store.db, Fits db.entries

instance (w : World) : Decidable (SmallRecords w) :=
  inferInstanceAs (Decidable (∀ db ∈ w.store.db, ∀ e ∈ db.entries, e.1.length < 2 ^ 32 ∧ e.2.length < 2 ^ 32))

/-- A step that cannot bring a destroyed session back: a new token is neither
a live nor a destroyed one, a destroyed session is cached or has no record,
and every removal has reached the file at a restart. -/
def Good (l : Ledger) (op : Op) : Prop :=
  SmallRecords l.world ∧
  match op with
  | .create (some rnd) _ _ _ =>
    newToken rnd.toList ∉ l.gone ∧ findToken l.world.store (newToken rnd.toList) = none
  | .destroy token =>
    findToken l.world.store (svFromCstr token) ≠ none ∨
      ∀ db ∈ l.world.store.db, cwebDbGet db (sessionKey (svFromCstr token)) = none
  | .restart => l.pending = []
  | _ => True

instance (l : Ledger) (op : Op) : Decidable (Good l op) :=
  match op with
  | .create none _ _ _ => inferInstanceAs (Decidable (_ ∧ True))
  | .create (some rnd) _ _ _ => inferInstanceAs (Decidable (SmallRecords l.world ∧
      newToken rnd.toList ∉ l.gone ∧ findToken l.world.store (newToken rnd.toList) = none))
  | .destroy token => inferInstanceAs (Decidable (SmallRecords l.world ∧
      (findToken l.world.store (svFromCstr token) ≠ none ∨
        ∀ db ∈ l.world.store.db, cwebDbGet db (sessionKey (svFromCstr token)) = none)))
  | .restart => inferInstanceAs (Decidable (SmallRecords l.world ∧ l.pending = []))
  | .open _ _ => inferInstanceAs (Decidable (_ ∧ True))
  | .set _ _ _ _ => inferInstanceAs (Decidable (_ ∧ True))
  | .del _ _ _ => inferInstanceAs (Decidable (_ ∧ True))
  | .reap _ => inferInstanceAs (Decidable (_ ∧ True))

def GoodRun : Ledger → List Op → Prop
  | _, [] => True
  | l, op :: ops => Good l op ∧ GoodRun (l.step op) ops

def Ledger.run (l : Ledger) (ops : List Op) : Ledger := ops.foldl Ledger.step l

instance decidableGoodRun : (l : Ledger) → (ops : List Op) → Decidable (GoodRun l ops)
  | _, [] => inferInstanceAs (Decidable True)
  | l, op :: ops =>
    have := decidableGoodRun (l.step op) ops
    inferInstanceAs (Decidable (Good l op ∧ GoodRun (l.step op) ops))

/-! ## The invariant of a run -/

def kept (gone pending : List Bytes) : List Bytes := gone.filter fun t => !pending.contains t

/-- The file was synced from entries without a record of the tokens in
`gone`. They were checked to fit, or are still the ones in memory. -/
def Filed (gone : List Bytes) (w : World) : Prop :=
  ∃ entries, w.file = fileOf entries ∧ RecordKeys gone entries ∧
    (Fits entries ∨ ∃ db, w.store.db = some db ∧ db.entries = entries)

structure Ledger.Holds (l : Ledger) : Prop where
  store : StoreHolds l.gone l.world.path l.world.store
  filed : Filed (kept l.gone l.pending) l.world

theorem Filed.fits {gone : List Bytes} {w : World} (h : Filed gone w) (hSmall : SmallRecords w) :
    ∃ entries, w.file = fileOf entries ∧ RecordKeys gone entries ∧ Fits entries := by
  obtain ⟨entries, hFile, hKeys, hFits | ⟨db, hDb, rfl⟩⟩ := h
  · exact ⟨entries, hFile, hKeys, hFits⟩
  · exact ⟨db.entries, hFile, hKeys, hSmall db hDb⟩

theorem kept_nil (gone : List Bytes) : kept gone [] = gone := by
  simp [kept]

theorem Filed.of_file_eq {gone : List Bytes} {w w' : World} (h : Filed gone w) (hSmall : SmallRecords w)
    (hFile : w'.file = w.file) : Filed gone w' := by
  obtain ⟨entries, hEq, hKeys, hFits⟩ := h.fits hSmall
  exact ⟨entries, hFile.trans hEq, hKeys, .inl hFits⟩

theorem writeThrough_holds {gone pending : List Bytes} {w : World} (hStore : StoreHolds gone w.path w.store)
    (hFile : ∃ entries, w.file = fileOf entries ∧ RecordKeys (kept gone pending) entries ∧ Fits entries)
    {i : Nat} {slot : Bytes × HttpSession} (hSlot : w.store.slots[i]? = some slot) (io : FileOutcome) :
    StoreHolds gone (writeThrough w i io).path (writeThrough w i io).store ∧
      Filed (kept gone (if io.ok && decide (w.path.length + 4 < 1024) then [] else pending))
        (writeThrough w i io) := by
  obtain ⟨db, hDb, hPath, hAccounted, hKeys⟩ := hStore.db
  have hIn : slot.1 ∈ w.store.slots.map Prod.fst := List.mem_map_of_mem (List.mem_of_getElem? hSlot)
  have hLive : slot.1 ∉ gone := fun ht => hStore.slotsAbsent _ ht hIn
  have hPut : RecordKeys gone (sessionToDb db slot).entries :=
    hKeys.put hStore.text (hStore.slotsTokens _ hIn) hLive _
  have hAccounted' : Accounted (sessionToDb db slot) := cwebDbPut_accounted hAccounted _ _
  have hPath' : (sessionToDb db slot).path = w.path := (cwebDbPut_path db _ _).trans hPath
  obtain ⟨⟨dirty, hDirty⟩, hCases⟩ := cwebDbSync_cases (sessionToDb db slot) w.file io
  simp only [writeThrough, hDb, hSlot]
  refine ⟨⟨hStore.text, hStore.slotsDistinct, hStore.slotsTokens, hStore.slotsAbsent, _, rfl, ?_, ?_, ?_⟩, ?_⟩
  · rw [hDirty]
    exact hPath'
  · rw [hDirty]
    exact hAccounted'
  · rw [hDirty]
    exact hPut
  · split
    · rename_i hOk
      rw [Bool.and_eq_true, decide_eq_true_eq] at hOk
      rw [cwebDbSync_of_ok hAccounted' (by rw [hPath']; exact hOk.2) w.file hOk.1, kept_nil]
      exact ⟨_, rfl, hPut, .inr ⟨_, rfl, rfl⟩⟩
    · rcases hCases with hEq | hEq
      · obtain ⟨entries, hOld, hOldKeys, hFits⟩ := hFile
        exact ⟨entries, hEq.trans hOld, hOldKeys, .inl hFits⟩
      · refine ⟨_, hEq, hPut.mono fun t ht => (List.mem_filter.mp ht).1, .inr ⟨_, rfl, ?_⟩⟩
        rw [hDirty]

theorem updateSlot_holds {gone pending : List Bytes} {w : World} (hStore : StoreHolds gone w.path w.store)
    (hFile : ∃ entries, w.file = fileOf entries ∧ RecordKeys (kept gone pending) entries ∧ Fits entries)
    {token : Bytes} {i : Nat} (hFind : findToken w.store (svFromCstr token) = some i)
    (f : HttpSession → HttpSession) (io : FileOutcome) :
    StoreHolds gone (updateSlot w token f io).path (updateSlot w token f io).store ∧
      Filed (kept gone (if io.ok && decide (w.path.length + 4 < 1024) then [] else pending))
        (updateSlot w token f io) := by
  obtain ⟨sesh, hSlot⟩ := findToken_getElem hFind
  have hModified : (w.store.slots.modify i fun slot => (slot.1, f slot.2))[i]? =
      some (svFromCstr token, f sesh) := by
    rw [List.getElem?_modify, hSlot]
    simp
  simp only [updateSlot, hFind]
  exact writeThrough_holds
    (w := { w with store := { w.store with slots := w.store.slots.modify i fun slot => (slot.1, f slot.2) } })
    (hStore.modify i f) hFile hModified io

/-! ## What each operation keeps -/

section Operations

variable {l : Ledger} (h : l.Holds)

include h

theorem Ledger.create_holds {rnd : Option (Vector UInt8 20)} {ttl now : Int} {io : FileOutcome}
    (hGood : Good l (.create rnd ttl now io)) : (l.step (.create rnd ttl now io)).Holds := by
  cases rnd with
  | none => exact ⟨h.store, h.filed⟩
  | some rnd =>
    obtain ⟨hSmall, hLive, hNew⟩ := hGood
    let t := if ttl < 0 then l.world.store.defaultTtl else ttl
    let sesh : HttpSession := ⟨strmapInit, expiryOf t now⟩
    let slots := l.world.store.slots ++ [(newToken rnd.toList, sesh)]
    have hSlot : slots[slots.length - 1]? = some (newToken rnd.toList, sesh) := by
      simp [slots]
    obtain ⟨hStore, hFiled⟩ := writeThrough_holds
      (w := { l.world with store := { l.world.store with slots := slots } })
      (h.store.addSlot (newToken_isToken rnd) hLive hNew sesh) (h.filed.fits hSmall) hSlot io
    exact ⟨hStore, hFiled⟩

theorem Ledger.open_holds (hSmall : SmallRecords l.world) (token : Bytes) (now : Int) :
    (l.step (.open token now)).Holds := by
  have hLoad := h.store.loadSlot (not_mem_svFromCstr token)
  refine ⟨?_, h.filed.of_file_eq hSmall ?_⟩
  · simp only [Ledger.step, SessionStore.step, httpSessionOpen]
    split
    · rename_i hEq
      rw [hEq] at hLoad
      exact hLoad
    · rename_i hEq
      rw [hEq] at hLoad
      split
      · exact hLoad
      · rename_i hSlot
        split
        · exact (hLoad.removeAt hSlot).mono fun t ht => List.mem_cons_of_mem _ ht
        · exact hLoad
  · simp only [Ledger.step, SessionStore.step, httpSessionOpen]
    split
    · rfl
    · split
      · rfl
      · split <;> rfl

theorem Ledger.set_holds (hSmall : SmallRecords l.world) (token key value : Bytes) (io : FileOutcome) :
    (l.step (.set token key value io)).Holds := by
  cases hFind : findToken l.world.store (svFromCstr token) with
  | none =>
    simp only [Ledger.step, SessionStore.step, httpSessionSet, updateSlot, syncs, hFind]
    exact h
  | some i =>
    obtain ⟨hStore, hFiled⟩ := updateSlot_holds h.store (h.filed.fits hSmall) hFind
      (fun sesh => { sesh with data := strmapSet sesh.data (svFromCstr key) (svFromCstr value) }) io
    simp only [Ledger.step, SessionStore.step, httpSessionSet, syncs, hFind, Option.isSome_some,
      Bool.true_and]
    exact ⟨hStore, hFiled⟩

theorem Ledger.del_holds (hSmall : SmallRecords l.world) (token key : Bytes) (io : FileOutcome) :
    (l.step (.del token key io)).Holds := by
  cases hFind : findToken l.world.store (svFromCstr token) with
  | none =>
    simp only [Ledger.step, SessionStore.step, httpSessionDel, syncs, hFind]
    exact h
  | some i =>
    simp only [Ledger.step, SessionStore.step, httpSessionDel, syncs, hFind, Option.bind_some]
    split
    · rename_i hAbsent
      rw [hAbsent]
      exact h
    · rename_i hPresent
      obtain ⟨hStore, hFiled⟩ := updateSlot_holds h.store (h.filed.fits hSmall) hFind
        (fun sesh => { sesh with data := strmapDelete sesh.data (svFromCstr key) }) io
      rw [Option.isSome_iff_ne_none.mpr hPresent, Bool.true_and]
      exact ⟨hStore, hFiled⟩

theorem Ledger.destroy_filed (hSmall : SmallRecords l.world) (token : Bytes) :
    Filed (kept (svFromCstr token :: l.gone) (svFromCstr token :: l.pending))
      (SessionStore.step l.world (.destroy token)) := by
  have hSame : (SessionStore.step l.world (.destroy token)).file = l.world.file := by
    simp only [SessionStore.step, httpSessionDestroy]
    split <;> rfl
  obtain ⟨entries, hEq, hKeys, hFits⟩ := h.filed.of_file_eq hSmall hSame
  refine ⟨entries, hEq, hKeys.mono ?_, hFits⟩
  intro t ht
  simp only [kept, List.mem_filter, List.mem_cons, List.contains_cons, Bool.not_eq_true',
    Bool.or_eq_false_iff, beq_eq_false_iff_ne] at ht ⊢
  exact ⟨ht.1.resolve_left ht.2.1, ht.2.2⟩

theorem Ledger.destroy_holds {token : Bytes} (hGood : Good l (.destroy token)) :
    (l.step (.destroy token)).Holds := by
  obtain ⟨hSmall, hGone⟩ := hGood
  refine ⟨?_, Ledger.destroy_filed h hSmall token⟩
  simp only [Ledger.step, SessionStore.step, httpSessionDestroy]
  cases hFind : findToken l.world.store (svFromCstr token) with
  | some i =>
    obtain ⟨sesh, hSlot⟩ := findToken_getElem hFind
    exact h.store.removeAt hSlot
  | none =>
    obtain ⟨db, hDb, hPath, hAccounted, hKeys⟩ := h.store.db
    have hNoSlot := (findToken_eq_none_iff _ h.store.slotsTokens).mp hFind
    have hNoRecord := (hGone.resolve_left fun hNe => hNe hFind) db hDb
    rw [cwebDbGet_eq_none_iff] at hNoRecord
    refine ⟨?_, h.store.slotsDistinct, h.store.slotsTokens, ?_, db, hDb, hPath, hAccounted,
      hKeys.distinct, hKeys.tokens, ?_⟩
    · exact List.forall_mem_cons.mpr ⟨not_mem_svFromCstr token, h.store.text⟩
    · exact List.forall_mem_cons.mpr ⟨hNoSlot, h.store.slotsAbsent⟩
    · exact List.forall_mem_cons.mpr ⟨hNoRecord, hKeys.absent⟩

theorem Ledger.restart_holds (hGood : Good l .restart) : (l.step .restart).Holds := by
  obtain ⟨hSmall, hPending⟩ := hGood
  obtain ⟨entries, hEq, hKeys, hFits⟩ := h.filed.fits hSmall
  rw [show l.pending = [] from hPending, kept_nil] at hKeys
  have hOpen := cwebDbOpen_fileOf l.world.path hFits
  rw [← hEq] at hOpen
  refine ⟨⟨h.store.text, ?_, ?_, ?_, _, hOpen, rfl, rfl, hKeys⟩, h.filed.of_file_eq hSmall rfl⟩
  · exact List.nodup_nil
  · exact fun t ht => absurd ht List.not_mem_nil
  · exact fun t _ ht => absurd ht List.not_mem_nil

/-- What one operation keeps, when it cannot bring a destroyed session back. -/
theorem Ledger.step_holds {op : Op} (hGood : Good l op) : (l.step op).Holds := by
  cases op with
  | create rnd ttl now io => exact Ledger.create_holds h hGood
  | «open» token now => exact Ledger.open_holds h hGood.1 token now
  | set token key value io => exact Ledger.set_holds h hGood.1 token key value io
  | del token key io => exact Ledger.del_holds h hGood.1 token key io
  | destroy token => exact Ledger.destroy_holds h hGood
  | reap now => exact ⟨StoreHolds.reapLoop now _ _ _ h.store, h.filed.of_file_eq hGood.1 rfl⟩
  | restart => exact Ledger.restart_holds h hGood

end Operations

theorem Ledger.run_holds (ops : List Op) : ∀ {l : Ledger}, l.Holds → GoodRun l ops → (l.run ops).Holds := by
  induction ops with
  | nil => exact fun h _ => h
  | cons op ops ih => exact fun h hGood => ih (Ledger.step_holds h hGood.1) hGood.2

theorem Ledger.run_world (ops : List Op) : ∀ l :
    Ledger, (l.run ops).world = SessionStore.run l.world ops := by
  induction ops with
  | nil => exact fun l => rfl
  | cons op ops ih =>
    intro l
    have hStep : (l.step op).world = SessionStore.step l.world op := by
      cases op <;> rfl
    exact (ih (l.step op)).trans (by rw [hStep]; rfl)

theorem Ledger.mem_gone_run {t : Bytes} (ops : List Op) : ∀ {l : Ledger}, t ∈ l.gone →
    t ∈ (l.run ops).gone := by
  induction ops with
  | nil => exact fun h => h
  | cons op ops ih =>
    intro l h
    refine ih ?_
    cases op with
    | destroy token => exact List.mem_cons_of_mem _ h
    | _ => exact h

theorem fresh_holds (path : Bytes) (defaultTtl : Int) : Ledger.Holds ⟨fresh path defaultTtl, [], []⟩ := by
  have hKeys : RecordKeys [] [] :=
    ⟨List.nodup_nil, fun key hKey => absurd hKey List.not_mem_nil, fun t ht => absurd ht List.not_mem_nil⟩
  refine ⟨⟨?_, List.nodup_nil, ?_, ?_, _, rfl, rfl, rfl, hKeys⟩, [], rfl, hKeys, .inr ⟨_, rfl, rfl⟩⟩
  · exact fun t ht => absurd ht List.not_mem_nil
  · exact fun t ht => absurd ht List.not_mem_nil
  · exact fun t ht => absurd ht List.not_mem_nil

theorem StoreHolds.open_none {gone : List Bytes} {path : Bytes} {w : World}
    (h : StoreHolds gone path w.store) {token : Bytes} (hGone : svFromCstr token ∈ gone) (now : Int) :
    (httpSessionOpen w token now).2 = none := by
  obtain ⟨db, hDb, _, _, hKeys⟩ := h.db
  have hFind := (findToken_eq_none_iff w.store h.slotsTokens).mpr (h.slotsAbsent _ hGone)
  have hGet := (cwebDbGet_eq_none_iff db _).mpr (hKeys.absent _ hGone)
  simp only [httpSessionOpen, SessionStore.loadSlot, hFind, hDb, hGet, if_true]

/-- Once destroyed, a session is not opened again, as long as every step of
the run is a good one. -/
theorem destroyed_not_opened (path : Bytes) (defaultTtl : Int) (before after : List Op) (token : Bytes)
    (hGood : GoodRun ⟨fresh path defaultTtl, [], []⟩ (before ++ .destroy token :: after)) (now : Int) :
    (httpSessionOpen (run (fresh path defaultTtl) (before ++ .destroy token :: after)) token now).2 =
      none := by
  have hHolds := Ledger.run_holds _ (fresh_holds path defaultTtl) hGood
  have hGone : svFromCstr token ∈
      (Ledger.run ⟨fresh path defaultTtl, [], []⟩ (before ++ .destroy token :: after)).gone := by
    rw [Ledger.run, List.foldl_append, List.foldl_cons]
    exact Ledger.mem_gone_run after List.mem_cons_self
  have hOpen := hHolds.store.open_none hGone now
  rw [Ledger.run_world] at hOpen
  exact hOpen

def exampleToken : Vector UInt8 20 := Vector.replicate 20 0xab

def written : FileOutcome := ⟨true, true, true⟩

/-- A login that is cached when it is destroyed, and another login written
before the restart. -/
theorem destroyed_not_opened_synced :
    (httpSessionOpen (run (fresh (ascii "db") 3600)
      ([.create (some exampleToken) (-1) 0 written] ++ .destroy (newToken exampleToken.toList) ::
        [.create (some (Vector.replicate 20 0)) (-1) 0 written, .restart]))
      (newToken exampleToken.toList) 1).2 = none := by
  apply destroyed_not_opened (ascii "db") 3600
  decide +kernel

/-- A restart right after a logout brings the session back, since the removal
was never synced, and a logout of a session that is only persisted does not
remove it at all. -/
theorem destroyed_opened_again :
    ((httpSessionOpen (run (fresh (ascii "db") 3600)
      ([.create (some exampleToken) (-1) 0 written] ++ .destroy (newToken exampleToken.toList) :: [.restart]))
      (newToken exampleToken.toList) 1).2).isSome = true ∧
    ((httpSessionOpen (run (fresh (ascii "db") 3600)
      ([.create (some exampleToken) (-1) 0 written, .restart] ++
        .destroy (newToken exampleToken.toList) :: []))
      (newToken exampleToken.toList) 1).2).isSome = true := by
  decide +kernel

end Cweb.SessionStore
