import Cweb.Db.Db
import Cweb.Utils.StrMap

/-!
# Session records

A session is a string map with an expiry. It is mirrored into the key-value
store as a flat text record: the expiry, then each key and each value on a
line of its own, unescaped. Loading a record is compared with what was
written.
-/

namespace Cweb.Session

open Sv Db

structure HttpSession where
  data : StrMap
  expires : Int
deriving DecidableEq, Repr

/-- `snprintf` into a buffer of 64 bytes keeps 63 characters. -/
def sessionKey (token : Bytes) : Bytes := svFromCstr ((ascii "session-" ++ token).take 63)

def pairs (m : StrMap) : List (Bytes × Bytes) := m.entries.filterMap id

def record (sesh : HttpSession) : Bytes :=
  decimalInt sesh.expires ++ 10 :: (pairs sesh.data).flatMap fun e => e.1 ++ 10 :: (e.2 ++ [10])

def sessionToDb (db : CwebDb) (slot : Bytes × HttpSession) : CwebDb :=
  cwebDbPut db (sessionKey slot.1) (svFromCstr (record slot.2))

/-- The line loop of `session_from_db`: a key line and a value line at a time;
a last key line with nothing behind it is dropped. -/
def loadPairs : Nat → Bytes → StrMap → StrMap
  | 0, _, data => data
  | fuel + 1, rest, data =>
    if rest = [] then data
    else
      let k := svChopByDelim 10 rest
      if k.2 = [] then data
      else
        let v := svChopByDelim 10 k.2
        loadPairs fuel v.2 (strmapSet data k.1 v.1)

def sessionFromDb (db : CwebDb) (sesh : HttpSession) (token : Bytes) : HttpSession :=
  match cwebDbGet db (sessionKey token) with
  | none => sesh
  | some blob =>
    if blob = [] then sesh
    else
      let line := svChopByDelim 10 blob
      { data := loadPairs line.2.length line.2 sesh.data
        expires := (svToI64 line.1).getD 0 }

def freshSession : HttpSession := ⟨strmapInit, 0⟩

/-! ## The record is read back -/

theorem mem_pairs_iff (m : StrMap) (k v : Bytes) : (k, v) ∈ pairs m ↔ m.Maps k v := by
  rw [pairs, List.mem_filterMap]
  constructor
  · rintro ⟨e, he, hEq⟩
    obtain rfl : e = some (k, v) := hEq
    exact List.getElem?_of_mem he
  · rintro ⟨j, hj⟩
    exact ⟨_, List.mem_of_getElem? hj, rfl⟩

theorem pairs_keys_nodup {m : StrMap} (h : m.WF) : ((pairs m).map Prod.fst).Nodup := by
  rw [List.nodup_iff_pairwise_ne, List.pairwise_map, pairs, List.pairwise_filterMap]
  refine h.inv.pairwise.imp ?_
  intro e e' hDistinct b hb b' hb' hEq
  obtain ⟨k, v⟩ := b
  obtain ⟨k', v'⟩ := b'
  obtain rfl : k = k' := hEq
  exact hDistinct k v v' hb hb'

/-- No line break in a key or a value. -/
def LineFree (ps : List (Bytes × Bytes)) : Prop := ∀ e ∈ ps, 10 ∉ e.1 ∧ 10 ∉ e.2

theorem loadPairs_flatMap (ps : List (Bytes × Bytes)) (h : LineFree ps) :
    ∀ fuel data, ps.length ≤ fuel →
      loadPairs fuel (ps.flatMap fun e => e.1 ++ 10 :: (e.2 ++ [10])) data =
        ps.foldl (fun data e => strmapSet data e.1 e.2) data := by
  induction ps with
  | nil =>
    intro fuel data _
    cases fuel <;> simp [loadPairs]
  | cons e ps ih =>
    intro fuel data hFuel
    obtain ⟨hKey, hValue⟩ := h e List.mem_cons_self
    cases fuel with
    | zero => simp at hFuel
    | succ fuel =>
      have hText : ((e :: ps).flatMap fun e => e.1 ++ 10 :: (e.2 ++ [10])) =
          e.1 ++ 10 :: (e.2 ++ 10 :: ps.flatMap fun e => e.1 ++ 10 :: (e.2 ++ [10])) := by
        simp
      rw [hText, loadPairs, if_neg (by simp)]
      simp only [svChopByDelim_append 10 _ _ hKey, svChopByDelim_append 10 _ _ hValue]
      rw [if_neg (by simp), ih (fun e he => h e (List.mem_cons_of_mem _ he)) fuel _ (by simpa using hFuel)]
      rfl

theorem record_ne_nil (sesh : HttpSession) : record sesh ≠ [] := by simp [record]

theorem svChopByDelim_record (sesh : HttpSession) : svChopByDelim 10 (record sesh) =
    (decimalInt sesh.expires, (pairs sesh.data).flatMap fun e => e.1 ++ 10 :: (e.2 ++ [10])) :=
  svChopByDelim_append 10 _ _ (not_mem_decimalInt (by decide) (by decide) _)

theorem length_le_pairs_text (ps : List (Bytes × Bytes)) :
    ps.length ≤ (ps.flatMap fun e => e.1 ++ 10 :: (e.2 ++ [10])).length := by
  induction ps with
  | nil => simp
  | cons e ps ih =>
    simp only [List.flatMap_cons, List.length_append, List.length_cons]
    omega

/-- Every key and value a load stores is a line, so it holds no line break. -/
theorem loadPairs_lineFree (fuel : Nat) :
    ∀ rest (m : StrMap), m.WF → 0 ∉ rest → (∀ k v, m.Maps k v → 10 ∉ k ∧ 10 ∉ v) →
      (loadPairs fuel rest m).WF ∧ ∀ k v, (loadPairs fuel rest m).Maps k v → 10 ∉ k ∧ 10 ∉ v := by
  induction fuel with
  | zero =>
    intro rest m hWf _ hLines
    exact ⟨hWf, hLines⟩
  | succ fuel ih =>
    intro rest m hWf hNul hLines
    simp only [loadPairs]
    split
    · exact ⟨hWf, hLines⟩
    · split
      · exact ⟨hWf, hLines⟩
      · have hSub := svChopByDelim_subset 10 rest
        have hSub' := svChopByDelim_subset 10 (svChopByDelim 10 rest).2
        have hKeyNul : 0 ∉ (svChopByDelim 10 rest).1 := fun h => hNul (hSub.1 0 h)
        obtain ⟨hSet, hMaps⟩ := strmapSet_spec hWf hKeyNul (svChopByDelim 10 (svChopByDelim 10 rest).2).1
        apply ih _ _ hSet (fun h => hNul (hSub.2 0 (hSub'.2 0 h)))
        intro k v hkv
        rcases (hMaps k v).mp hkv with ⟨rfl, rfl⟩ | ⟨_, hOld⟩
        · refine ⟨svChopByDelim_not_mem 10 rest, ?_⟩
          rw [dupOwn_of_not_mem (fun h => hNul (hSub.2 0 (hSub'.1 0 h)))]
          exact svChopByDelim_not_mem 10 _
        · exact hLines k v hOld

theorem record_nul_free {sesh : HttpSession} (h : sesh.data.WF) : 0 ∉ record sesh := by
  rw [record, List.mem_append, List.mem_cons, List.mem_flatMap]
  rintro (hExp | hBreak | ⟨⟨k, v⟩, hMem, hText⟩)
  · exact not_mem_decimalInt (by decide) (by decide) _ hExp
  · exact absurd hBreak (by decide)
  · obtain ⟨hKey, hValue⟩ := h.cstr k v ((mem_pairs_iff _ k v).mp hMem)
    simp only [List.mem_append, List.mem_cons, List.not_mem_nil, or_false] at hText
    rcases hText with hText | hText | hText | hText
    · exact hKey hText
    · exact absurd hText (by decide)
    · exact hValue hText
    · exact absurd hText (by decide)

theorem sessionFromDb_sessionToDb (db : CwebDb) (token : Bytes) {sesh : HttpSession} (h : sesh.data.WF) :
    sessionFromDb (sessionToDb db (token, sesh)) freshSession token =
      { data := loadPairs ((pairs sesh.data).flatMap fun e => e.1 ++ 10 :: (e.2 ++ [10])).length
          ((pairs sesh.data).flatMap fun e => e.1 ++ 10 :: (e.2 ++ [10])) strmapInit
        expires := (svToI64 (decimalInt sesh.expires)).getD 0 } := by
  simp only [sessionFromDb, sessionToDb, cwebDbGet_cwebDbPut_self,
    svFromCstr_of_not_mem (record_nul_free h), if_neg (record_ne_nil sesh), svChopByDelim_record]
  rfl

theorem strmapInit_maps_false {k v : Bytes} : ¬ strmapInit.Maps k v := by
  rintro ⟨j, hj⟩
  cases hj

theorem sessionFromDb_lineFree (db : CwebDb) (token : Bytes) {sesh : HttpSession} (h : sesh.data.WF) :
    (sessionFromDb (sessionToDb db (token, sesh)) freshSession token).data.WF ∧
      ∀ k v, (sessionFromDb (sessionToDb db (token, sesh)) freshSession token).data.Maps k v →
        10 ∉ k ∧ 10 ∉ v := by
  rw [sessionFromDb_sessionToDb db token h]
  have hNul : 0 ∉ ((pairs sesh.data).flatMap fun e => e.1 ++ 10 :: (e.2 ++ [10])) :=
    fun hMem => record_nul_free h (List.mem_append_right _ (List.mem_cons_of_mem _ hMem))
  exact loadPairs_lineFree _ _ strmapInit strmapInit_wf hNul
    (fun k v hMaps => absurd hMaps strmapInit_maps_false)

/-- The same expiry and the same key/value map. -/
def Same (a b : HttpSession) : Prop :=
  a.expires = b.expires ∧ ∀ k v, a.data.Maps k v ↔ b.data.Maps k v

/-- A session survives a write and a load exactly when no key and no value
holds a line break and its expiry is not the least 64-bit integer. -/
theorem session_roundtrip_iff (db : CwebDb) (token : Bytes) (sesh : HttpSession) (hWf : sesh.data.WF)
    (hMin : -2 ^ 63 ≤ sesh.expires) (hMax : sesh.expires ≤ llongMax) :
    Same (sessionFromDb (sessionToDb db (token, sesh)) freshSession token) sesh ↔
      sesh.expires ≠ -2 ^ 63 ∧ ∀ k v, sesh.data.Maps k v → 10 ∉ k ∧ 10 ∉ v := by
  have hExpires := svToI64_decimalInt sesh.expires hMin hMax
  constructor
  · rintro ⟨hExp, hMaps⟩
    constructor
    · intro hLeast
      rw [if_pos hLeast] at hExpires
      rw [sessionFromDb_sessionToDb db token hWf] at hExp
      have hZero : (svToI64 (decimalInt sesh.expires)).getD 0 = sesh.expires := hExp
      rw [hExpires, hLeast] at hZero
      exact absurd hZero (by decide)
    · intro k v hkv
      exact (sessionFromDb_lineFree db token hWf).2 k v ((hMaps k v).mpr hkv)
  · rintro ⟨hLeast, hLines⟩
    rw [if_neg hLeast] at hExpires
    rw [sessionFromDb_sessionToDb db token hWf]
    refine ⟨by simp only [hExpires, Option.getD_some], ?_⟩
    intro k v
    have hFree : LineFree (pairs sesh.data) := fun e he => hLines e.1 e.2 ((mem_pairs_iff _ _ _).mp he)
    have hCstr : ∀ e ∈ pairs sesh.data, 0 ∉ e.1 ∧ 0 ∉ e.2 :=
      fun e he => hWf.cstr e.1 e.2 ((mem_pairs_iff _ _ _).mp he)
    obtain ⟨_, hFold⟩ := foldl_strmapSet_spec (pairs sesh.data) strmapInit strmapInit_wf
      (fun e he => (hCstr e he).1) (pairs_keys_nodup hWf)
    simp only
    rw [loadPairs_flatMap _ hFree _ _ (length_le_pairs_text _), hFold, ← mem_pairs_iff sesh.data k v]
    constructor
    · rintro (⟨v', hMem, rfl⟩ | ⟨_, j, hj⟩)
      · rwa [dupOwn_of_not_mem (hCstr _ hMem).2]
      · exact absurd ⟨j, hj⟩ strmapInit_maps_false
    · intro hMem
      exact .inl ⟨v, hMem, (dupOwn_of_not_mem (hCstr _ hMem).2).symm⟩

/-- A session after one `http_session_set`. -/
def sessionWith (key value : Bytes) : HttpSession := ⟨strmapSet strmapInit key value, 0⟩

theorem sessionWith_maps_iff {key : Bytes} (hKey : 0 ∉ key) (value k v : Bytes) :
    (sessionWith key value).data.Maps k v ↔ k = key ∧ v = dupOwn value := by
  rw [sessionWith, (strmapSet_spec strmapInit_wf hKey value).2]
  simp [strmapInit_maps_false]

theorem session_roundtrip_user :
    Same (sessionFromDb (sessionToDb ⟨ascii "app.db", [], 0, false⟩
      (ascii "t", sessionWith (ascii "user") (ascii "ada"))) freshSession (ascii "t"))
      (sessionWith (ascii "user") (ascii "ada")) := by
  have hWf := (strmapSet_spec strmapInit_wf (by decide : 0 ∉ ascii "user") (ascii "ada")).1
  refine (session_roundtrip_iff _ _ _ hWf (by decide) (by decide)).mpr ⟨by decide, ?_⟩
  intro k v h
  obtain ⟨rfl, rfl⟩ := (sessionWith_maps_iff (by decide) _ k v).mp h
  decide

/-- A value with line breaks comes back as a key that was never set. -/
theorem session_forged_role :
    strmapGet (sessionFromDb (sessionToDb ⟨ascii "app.db", [], 0, false⟩
        (ascii "t", sessionWith (ascii "name") (ascii "x\nrole\nadmin"))) freshSession
        (ascii "t")).data (ascii "role") = some (ascii "admin") ∧
      strmapGet (sessionWith (ascii "name") (ascii "x\nrole\nadmin")).data (ascii "role") = none ∧
      ¬ Same (sessionFromDb (sessionToDb ⟨ascii "app.db", [], 0, false⟩
        (ascii "t", sessionWith (ascii "name") (ascii "x\nrole\nadmin"))) freshSession (ascii "t"))
        (sessionWith (ascii "name") (ascii "x\nrole\nadmin")) := by
  have hRole : strmapGet (sessionFromDb (sessionToDb ⟨ascii "app.db", [], 0, false⟩
      (ascii "t", sessionWith (ascii "name") (ascii "x\nrole\nadmin"))) freshSession
      (ascii "t")).data (ascii "role") = some (ascii "admin") := by decide +kernel
  refine ⟨hRole, by decide +kernel, ?_⟩
  intro hSame
  have hWf := (strmapSet_spec strmapInit_wf (by decide : 0 ∉ ascii "name") (ascii "x\nrole\nadmin")).1
  have hLoaded := (strmapGet_eq_some_iff (sessionFromDb_lineFree _ _ hWf).1 _ _).mp hRole
  obtain ⟨hName, _⟩ := (sessionWith_maps_iff (by decide) _ _ _).mp ((hSame.2 _ _).mp hLoaded)
  exact absurd hName (by decide)

end Cweb.Session
