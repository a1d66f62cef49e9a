import Cweb.Db.DbSync

/-!
# The store file

A store file is a version byte and complete entries, each a key and a value
behind its length in four bytes. `cweb_db_open` walks the file with a cursor and
gives up on a frame that overruns it; the caller's store is only written when
the last frame ends with the file. The files it accepts are compared with the
format, and with what a sync writes.
-/

namespace Cweb.Db

/-! ## The cursor -/

structure OpenLoop where
  pos : Nat
  bad : Bool
  entries : List (Bytes × Bytes)
  total : Nat
deriving DecidableEq, Repr

/-- The frame loop. Where the cursor stands behind a bad frame does not matter. -/
def openLoop (data : Bytes) : Nat → OpenLoop → OpenLoop
  | 0, l => l
  | fuel + 1, l =>
    if l.pos + 8 ≤ data.length then
      let klen := getU32 (data.drop l.pos)
      let pos := l.pos + 4
      if data.length - pos < klen then { l with bad := true }
      else
        let key := (data.drop pos).take klen
        let pos := pos + klen
        if data.length < pos + 4 then { l with bad := true }
        else
          let vlen := getU32 (data.drop pos)
          let pos := pos + 4
          if data.length - pos < vlen then { l with bad := true }
          else
            let value := (data.drop pos).take vlen
            openLoop data fuel ⟨pos + vlen, false, l.entries ++ [(key, value)], l.total + (8 + klen + vlen)⟩
    else l

/-- The caller's store afterwards, and whether the call returned 0. -/
def cwebDbOpenInto (db : CwebDb) (path : Bytes) (file : Option Bytes) : CwebDb × Bool :=
  match file with
  | none => (⟨path, [], 0, false⟩, true)
  | some data =>
    if data.head? ≠ some 1 then (db, false)
    else
      let l := openLoop data data.length ⟨1, false, [], 0⟩
      if l.bad ∨ l.pos ≠ data.length then (db, false) else (⟨path, l.entries, l.total, false⟩, true)

/-- What the loop leaves, when it does not fail. -/
def OpenLoop.result (data : Bytes) (l : OpenLoop) : Option (List (Bytes × Bytes) × Nat) :=
  if l.bad ∨ l.pos ≠ data.length then none else some (l.entries, l.total)

theorem result_of_bad (data : Bytes) (pos : Nat) (entries : List (Bytes × Bytes)) (total : Nat) :
    OpenLoop.result data ⟨pos, true, entries, total⟩ = none := by
  rw [OpenLoop.result, if_pos (.inl rfl)]

theorem result_at (data : Bytes) {pos : Nat} (hPos : pos ≤ data.length) (entries : List (Bytes × Bytes))
    (total : Nat) :
    OpenLoop.result data ⟨pos, false, entries, total⟩ =
      if data.drop pos = [] then some (entries, total) else none := by
  have hEnd : data.drop pos = [] ↔ pos = data.length := by
    rw [List.drop_eq_nil_iff]
    omega
  rw [OpenLoop.result]
  rcases eq_or_ne pos data.length with hEq | hNe
  · rw [if_neg (by simp [hEq]), if_pos (hEnd.mpr hEq)]
  · rw [if_pos (.inr hNe), if_neg (mt hEnd.mp hNe)]

theorem openLoop_result (data : Bytes) (fuel : Nat) : ∀ (pos : Nat) (entries : List (Bytes × Bytes))
    (total : Nat),
    pos ≤ data.length → (openLoop data fuel ⟨pos, false, entries, total⟩).result data =
      (dbFrames fuel (data.drop pos)).map fun rest =>
        (entries ++ rest, total + (rest.map entrySize).sum) := by
  induction fuel with
  | zero =>
    intro pos entries total hPos
    rw [openLoop, result_at data hPos, dbFrames]
    split <;> simp
  | succ fuel ih =>
    intro pos entries total hPos
    rw [openLoop, dbFrames]
    simp only [List.drop_drop, List.length_drop]
    rcases Nat.lt_or_ge data.length (pos + 8) with hShort | hLong
    · rw [if_neg (by omega), if_pos (by omega), result_at data hPos]
      split <;> simp
    · have hHead : ¬ data.length - pos < 8 := by omega
      rw [if_pos hLong, if_neg hHead]
      rcases Nat.lt_or_ge (data.length - (pos + 4)) (getU32 (data.drop pos)) with hBad | hKey
      · rw [if_pos hBad, if_pos hBad, result_of_bad]
        rfl
      · rw [if_neg (Nat.not_lt.mpr hKey), if_neg (Nat.not_lt.mpr hKey)]
        set next := pos + 4 + getU32 (data.drop pos) with hNext
        rcases Nat.lt_or_ge data.length (next + 4) with hBad | hTail
        · have hBad' : data.length - next < 4 := by omega
          rw [if_pos hBad, if_pos hBad', result_of_bad]
          rfl
        · have hTail' : ¬ data.length - next < 4 := by omega
          rw [if_neg (Nat.not_lt.mpr hTail), if_neg hTail']
          rcases Nat.lt_or_ge (data.length - (next + 4)) (getU32 (data.drop next)) with hBad | hValue
          · rw [if_pos hBad, if_pos hBad, result_of_bad]
            rfl
          · rw [if_neg (Nat.not_lt.mpr hValue), if_neg (Nat.not_lt.mpr hValue), ih _ _ _ (by omega),
              Option.map_map]
            congr 1
            funext rest
            simp only [Function.comp_apply, List.append_assoc, List.cons_append, List.nil_append,
              List.map_cons,
              List.sum_cons, entrySize, List.length_take, List.length_drop]
            congr 1
            omega

/-! ## The format -/

/-- The number that the bytes write, the least significant one first. -/
def littleEndian : Bytes → Nat
  | [] => 0
  | b :: bs => b.toNat + 256 * littleEndian bs

/-- Complete entries one behind the other, and what they hold. -/
inductive Framed : Bytes → List (Bytes × Bytes) → Prop
  | nil : Framed [] []
  | cons {klen key vlen value rest : Bytes} {entries : List (Bytes × Bytes)}
      (hKeyLen : klen.length = 4) (hKey : littleEndian klen = key.length)
      (hValueLen : vlen.length = 4) (hValue : littleEndian vlen = value.length)
        (hRest : Framed rest entries) :
      Framed (klen ++ (key ++ (vlen ++ (value ++ rest)))) ((key, value) :: entries)

def StoreFile (content : Bytes) (entries : List (Bytes × Bytes)) : Prop :=
  ∃ frames, content = 1 :: frames ∧ Framed frames entries

theorem littleEndian_putU32 {v : Nat} (h : v < 2 ^ 32) : littleEndian (putU32 v) = v := by
  simp only [putU32, littleEndian, UInt8.toNat_ofNat']
  omega

theorem eq_putU32 {bytes : Bytes} (hLen : bytes.length = 4) :
    bytes = putU32 (littleEndian bytes) ∧ littleEndian bytes < 2 ^ 32 := by
  obtain ⟨a, b, c, d, rfl⟩ : ∃ a b c d, bytes = [a, b, c, d] := by
    match bytes, hLen with
    | [a, b, c, d], _ => exact ⟨a, b, c, d, rfl⟩
  have ha := a.toNat_lt
  have hb := b.toNat_lt
  have hc := c.toNat_lt
  have hd := d.toNat_lt
  have hByte : ∀ (x : UInt8) (n : Nat), n % 2 ^ 8 = x.toNat → x = UInt8.ofNat n := by
    intro x n hMod
    apply UInt8.toNat_inj.mp
    rw [UInt8.toNat_ofNat', hMod]
  simp only [littleEndian, putU32, List.cons.injEq, and_true]
  exact ⟨⟨hByte a _ (by omega), hByte b _ (by omega), hByte c _ (by omega), hByte d _ (by omega)⟩, by omega⟩

theorem framed_flatMap (entries : List (Bytes × Bytes)) (hFits : Fits entries) :
    Framed (entries.flatMap frame) entries := by
  induction entries with
  | nil => exact .nil
  | cons e entries ih =>
    obtain ⟨hKey, hValue⟩ := hFits e List.mem_cons_self
    have hRest := ih fun e he => hFits e (List.mem_cons_of_mem _ he)
    have hFrame := Framed.cons (putU32_length _) (littleEndian_putU32 hKey) (putU32_length _)
      (littleEndian_putU32 hValue) hRest
    simpa only [List.flatMap_cons, frame, List.append_assoc] using hFrame

theorem framed_iff (frames : Bytes) (entries : List (Bytes × Bytes)) :
    Framed frames entries ↔ Fits entries ∧ frames = entries.flatMap frame := by
  constructor
  · intro h
    induction h with
    | nil =>
      refine ⟨?_, rfl⟩
      intro e he
      cases he
    | @cons klen key vlen value rest entries hKeyLen hKey hValueLen hValue _ ih =>
      obtain ⟨hFits, rfl⟩ := ih
      obtain ⟨hKlen, hKeyLt⟩ := eq_putU32 hKeyLen
      obtain ⟨hVlen, hValueLt⟩ := eq_putU32 hValueLen
      rw [hKey] at hKlen hKeyLt
      rw [hValue] at hVlen hValueLt
      constructor
      · intro e he
        obtain rfl | he := List.mem_cons.mp he
        · exact ⟨hKeyLt, hValueLt⟩
        · exact hFits e he
      · rw [hKlen, hVlen, List.flatMap_cons, frame]
        simp only [List.append_assoc]
  · rintro ⟨hFits, rfl⟩
    exact framed_flatMap entries hFits

theorem putU32_getU32 {p : Bytes} (h : 4 ≤ p.length) : putU32 (getU32 p) ++ p.drop 4 = p := by
  match p, h with
  | a :: b :: c :: d :: rest, _ =>
    have hRead : getU32 (a :: b :: c :: d :: rest) = littleEndian [a, b, c, d] := by
      simp only [getU32, littleEndian]
      omega
    have hFour : [a, b, c, d].length = 4 := rfl
    obtain ⟨hBytes, _⟩ := eq_putU32 hFour
    rw [hRead, ← hBytes]
    rfl

theorem dbFrames_inverse (fuel : Nat) : ∀ {rest : Bytes} {entries : List (Bytes × Bytes)},
    dbFrames fuel rest = some entries → rest = entries.flatMap frame := by
  induction fuel with
  | zero =>
    intro rest entries h
    rw [dbFrames] at h
    split at h
    · rename_i hNil
      cases h
      exact hNil
    · cases h
  | succ fuel ih =>
    intro rest entries h
    rw [dbFrames] at h
    dsimp only at h
    split at h
    · split at h
      · rename_i hNil
        cases h
        exact hNil
      · cases h
    · rename_i hHead
      split at h
      · cases h
      · rename_i hKey
        split at h
        · cases h
        · rename_i hTail
          split at h
          · cases h
          · rename_i hValue
            obtain ⟨entries, hEntries, rfl⟩ := Option.map_eq_some_iff.mp h
            rw [List.flatMap_cons, ← ih hEntries, frame]
            simp only [List.length_take, Nat.min_eq_left (Nat.not_lt.mp hKey),
              Nat.min_eq_left (Nat.not_lt.mp hValue),
              List.append_assoc, List.take_append_drop, putU32_getU32 (Nat.not_lt.mp hTail)]
            exact (putU32_getU32 (by omega)).symm

theorem dbFrames_eq_some_iff {fuel : Nat} {rest : Bytes} (hFuel : rest.length ≤ fuel)
    (entries : List (Bytes × Bytes)) :
    dbFrames fuel rest = some entries ↔ Framed rest entries := by
  rw [framed_iff]
  constructor
  · intro h
    exact ⟨dbFrames_fits h, dbFrames_inverse fuel h⟩
  · rintro ⟨hFits, rfl⟩
    exact dbFrames_flatMap entries hFits fuel ((length_le_flatMap_frame entries).trans hFuel)

theorem storeFile_cons_iff (version : UInt8) (frames : Bytes) (entries : List (Bytes × Bytes)) :
    StoreFile (version :: frames) entries ↔ version = 1 ∧ Framed frames entries := by
  constructor
  · rintro ⟨frames', hContent, hFramed⟩
    obtain ⟨hVersion, rfl⟩ := List.cons.inj hContent
    exact ⟨hVersion, hFramed⟩
  · rintro ⟨rfl, hFramed⟩
    exact ⟨frames, rfl, hFramed⟩

/-- An open with a cursor ends as the one on what is left of the file, and leaves the
caller's store alone when it fails. -/
theorem cwebDbOpenInto_eq (db : CwebDb) (path : Bytes) (file : Option Bytes) :
    cwebDbOpenInto db path file =
      match cwebDbOpen path file with
      | none => (db, false)
      | some opened => (opened, true) := by
  match file with
  | none => rfl
  | some [] => rfl
  | some (version :: frames) =>
    rw [cwebDbOpenInto, cwebDbOpen, List.head?_cons]
    rcases eq_or_ne version 1 with rfl | hVersion
    · have hRead := openLoop_result (1 :: frames) (1 :: frames).length 1 [] 0 (by simp)
      have hFrames : dbFrames (1 :: frames).length ((1 :: frames).drop 1) =
        dbFrames frames.length frames := by
        apply Option.ext
        intro entries
        exact (dbFrames_eq_some_iff (Nat.le_succ _) entries).trans (dbFrames_eq_some_iff le_rfl entries).symm
      rw [hFrames, OpenLoop.result] at hRead
      simp only [ne_eq, not_true_eq_false, if_false, if_true]
      split at hRead
      · rename_i hFail
        rw [if_pos hFail, Option.map_eq_none_iff.mp hRead.symm]
        rfl
      · rename_i hDone
        obtain ⟨entries, hEntries, hPair⟩ := Option.map_eq_some_iff.mp hRead.symm
        obtain ⟨hList, hTotal⟩ := Prod.mk.inj hPair
        rw [if_neg hDone, hEntries, ← hList, ← hTotal]
        simp
    · rw [if_pos (by simpa using hVersion), if_neg hVersion]

theorem cwebDbOpen_eq_some_iff (path content : Bytes) (opened : CwebDb) :
    cwebDbOpen path (some content) = some opened ↔
      ∃ entries, StoreFile content entries ∧
        opened = ⟨path, entries, (entries.map entrySize).sum, false⟩ := by
  cases content with
  | nil =>
    constructor
    · intro h
      cases h
    · rintro ⟨_, ⟨_, hContent, _⟩, _⟩
      cases hContent
  | cons version frames =>
    simp only [cwebDbOpen, storeFile_cons_iff]
    split
    · rename_i hVersion
      rw [Option.map_eq_some_iff]
      simp only [dbFrames_eq_some_iff (le_refl frames.length), hVersion, true_and, eq_comm]
    · rename_i hVersion
      simp [hVersion]

/-- An existing file opens exactly when it is a store file, and then as what it holds;
a failed open leaves the caller's store as it was; and what a sync of a store with
entries has written opens as the same entries. -/
theorem open_store_file (db : CwebDb) (path content : Bytes) :
    ((cwebDbOpenInto db path (some content)).2 = true ↔ ∃ entries, StoreFile content entries) ∧
      (∀ entries, StoreFile content entries →
        cwebDbOpenInto db path (some content) = (⟨path, entries, (entries.map entrySize).sum, false⟩, true)) ∧
      ((cwebDbOpenInto db path (some content)).2 = false → (cwebDbOpenInto db path (some content)).1 = db) ∧
      ∀ (stored : CwebDb) (file : Option Bytes) (io : FileOutcome), stored.entries ≠ [] →
        Fits stored.entries →
        (cwebDbSync stored file io).2.2 = true → ∃ written, (cwebDbSync stored file io).2.1 = some written ∧
          cwebDbOpenInto db path (some written) =
            (⟨path, stored.entries, (stored.entries.map entrySize).sum, false⟩, true) := by
  have hOpens : ∀ content entries, StoreFile content entries →
      cwebDbOpenInto db path (some content) = (⟨path, entries, (entries.map entrySize).sum, false⟩,
      true) := by
    intro content entries hStore
    rw [cwebDbOpenInto_eq, (cwebDbOpen_eq_some_iff path content _).mpr ⟨entries, hStore, rfl⟩]
  refine ⟨⟨?_, ?_⟩, hOpens content, ?_, ?_⟩
  · intro hTrue
    rw [cwebDbOpenInto_eq] at hTrue
    cases hOpen : cwebDbOpen path (some content) with
    | none =>
      rw [hOpen] at hTrue
      cases hTrue
    | some opened =>
      obtain ⟨entries, hStore, _⟩ := (cwebDbOpen_eq_some_iff path content opened).mp hOpen
      exact ⟨entries, hStore⟩
  · rintro ⟨entries, hStore⟩
    rw [hOpens content entries hStore]
  · intro hFalse
    rw [cwebDbOpenInto_eq] at hFalse ⊢
    cases hOpen : cwebDbOpen path (some content) with
    | none => rfl
    | some opened =>
      rw [hOpen] at hFalse
      cases hFalse
  · intro stored file io hSome hFits hSynced
    rw [← cwebDbSyncOn_posix] at hSynced ⊢
    by_cases hWritten : Written stored io
    · cases hRename : io.rename with
      | true =>
        rw [cwebDbSyncOn_renamed hSome hWritten hRename]
        exact ⟨_, rfl, hOpens _ _ ⟨_, rfl, framed_flatMap stored.entries hFits⟩⟩
      | false =>
        rw [cwebDbSyncOn_notRenamed hSome hWritten hRename] at hSynced
        cases hSynced
    · rw [cwebDbSyncOn_notWritten hSome hWritten] at hSynced
      cases hSynced

/-- An empty key and a value that begins with a NUL. -/
def nulStore : CwebDb := ⟨ascii "s", [([], [0, 7])], 10, true⟩

theorem open_store_file_nul :
    ∃ written, (cwebDbSync nulStore none ⟨true, true, true⟩).2.1 = some written ∧
      cwebDbOpenInto ⟨[], [], 0, false⟩ (ascii "s") (some written) =
        (⟨ascii "s", [([], [0, 7])], 10, false⟩, true) := by
  obtain ⟨_, _, _, hWritten⟩ := open_store_file ⟨[], [], 0, false⟩ (ascii "s") []
  apply hWritten nulStore none ⟨true, true, true⟩ (by decide) _ (by decide)
  intro e he
  obtain rfl := List.mem_singleton.mp he
  decide

/-- The same file is refused when it is torn inside its last value. -/
example : (cwebDbOpenInto nulStore (ascii "s") (some [1, 0, 0, 0, 0, 2, 0, 0, 0, 0])).2 = false := by decide

end Cweb.Db
