import Cweb.Http.Session

/-!
# The session store across restarts

Three copies of a session can exist: the slot table, the key-value store in
memory and its file. Destroying a session drops it from the slot table and
from the store in memory, but only when it is in the slot table, and nothing
is synced. A restart loses the first two copies and re-reads the third. The
clock, the random bytes of a token and the outcomes of the file calls are
inputs of the operations.
-/

namespace Cweb.SessionStore

open Sv Db Session SwapRemove

structure HttpSessionStore where
  slots : List (Bytes × HttpSession)
  defaultTtl : Int
  db : Option CwebDb
deriving DecidableEq, Repr

/-- The store and the file behind its key-value store. -/
structure World where
  store : HttpSessionStore
  path : Bytes
  file : Option Bytes
deriving DecidableEq, Repr

/-- The hexadecimal text of the random bytes. -/
def newToken (rnd : Bytes) : Bytes :=
  rnd.flatMap fun b => [hexDigitChar (b.toNat / 16), hexDigitChar (b.toNat % 16)]

def tokenSecretEq (a b : Bytes) : Bool := a.length == 40 && b.length == 40 && a == b

def findToken (s : HttpSessionStore) (token : Bytes) : Option Nat :=
  s.slots.findIdx? fun slot => tokenSecretEq slot.1 token

def removeAt (s : HttpSessionStore) (i : Nat) : HttpSessionStore :=
  match s.slots[i]? with
  | none => s
  | some slot =>
    { s with
      slots := swapRemove s.slots i
      db := s.db.map fun db => cwebDbDelete db (sessionKey slot.1) }

/-- Write the record of slot `i` through to the file. -/
def writeThrough (w : World) (i : Nat) (io : FileOutcome) : World :=
  match w.store.db, w.store.slots[i]? with
  | some db, some slot =>
    let synced := cwebDbSync (sessionToDb db slot) w.file io
    { w with store := { w.store with db := some synced.1 }, file := synced.2.1 }
  | _, _ => w

/-- When a session that is made now expires, never without a positive time to
live. `time_t` has 64 bits. -/
def expiryOf (t now : Int) : Int := if 0 < t then (now + t).bmod (2 ^ 64) else 0

/-- `rnd` is what the random source gave, `none` when it failed. -/
def httpSessionCreate (w : World) (rnd : Option (Vector UInt8 20)) (ttl now : Int) (io : FileOutcome) :
    World × Option Bytes :=
  match rnd with
  | none => (w, none)
  | some rnd =>
    let token := newToken rnd.toList
    let t := if ttl < 0 then w.store.defaultTtl else ttl
    let sesh : HttpSession := ⟨strmapInit, expiryOf t now⟩
    let w := { w with store := { w.store with slots := w.store.slots ++ [(token, sesh)] } }
    (writeThrough w (w.store.slots.length - 1) io, some token)

def expired (sesh : HttpSession) (now : Int) : Bool := sesh.expires != 0 && sesh.expires ≤ now

/-- The slot of a token, after a persisted session has been loaded into one. -/
def loadSlot (s : HttpSessionStore) (token : Bytes) : HttpSessionStore × Option Nat :=
  match findToken s token with
  | some i => (s, some i)
  | none =>
    match s.db with
    | none => (s, none)
    | some db =>
      if cwebDbGet db (sessionKey token) = none then (s, none)
      else
        ({ s with slots := s.slots ++ [(token, sessionFromDb db freshSession token)] },
          some s.slots.length)

def httpSessionOpen (w : World) (tokenText : Bytes) (now : Int) : World × Option HttpSession :=
  let token := svFromCstr tokenText
  match loadSlot w.store token with
  | (s, none) => ({ w with store := s }, none)
  | (s, some i) =>
    match s.slots[i]? with
    | none => ({ w with store := s }, none)
    | some slot =>
      if expired slot.2 now then ({ w with store := removeAt s i }, none)
      else ({ w with store := s }, some slot.2)

/-- The session behind a handle is the live one with the handle's token. -/
def updateSlot (w : World) (token : Bytes) (f : HttpSession → HttpSession) (io : FileOutcome) : World :=
  match findToken w.store (svFromCstr token) with
  | none => w
  | some i =>
    let slots := w.store.slots.modify i fun slot => (slot.1, f slot.2)
    writeThrough { w with store := { w.store with slots := slots } } i io

def httpSessionSet (w : World) (token key value : Bytes) (io : FileOutcome) : World :=
  updateSlot w token (fun sesh =>
    { sesh with data := strmapSet sesh.data (svFromCstr key) (svFromCstr value) }) io

def httpSessionDel (w : World) (token key : Bytes) (io : FileOutcome) : World :=
  match findToken w.store (svFromCstr token) with
  | none => w
  | some i =>
    if ((w.store.slots[i]?).bind fun slot => strmapGet slot.2.data (svFromCstr key)) = none then w
    else updateSlot w token (fun sesh =>
      { sesh with data := strmapDelete sesh.data (svFromCstr key) }) io

def httpSessionDestroy (w : World) (token : Bytes) : World :=
  match findToken w.store (svFromCstr token) with
  | none => w
  | some i => { w with store := removeAt w.store i }

/-- The sweep stays at a slot whose session it removed, since the last one has
moved there. -/
def reapLoop (now : Int) : Nat → HttpSessionStore → Nat → HttpSessionStore
  | 0, s, _ => s
  | fuel + 1, s, i =>
    match s.slots[i]? with
    | none => s
    | some slot =>
      if expired slot.2 now then reapLoop now fuel (removeAt s i) i
      else reapLoop now fuel s (i + 1)

def httpSessionReap (w : World) (now : Int) : World :=
  { w with store := reapLoop now w.store.slots.length w.store 0 }

/-- Memory is lost, the file is read again and an empty store attached. -/
def restart (w : World) : World :=
  { w with store := ⟨[], w.store.defaultTtl, cwebDbOpen w.path w.file⟩ }

inductive Op where
  | create (rnd : Option (Vector UInt8 20)) (ttl now : Int) (io : FileOutcome)
  | open (token : Bytes) (now : Int)
  | set (token key value : Bytes) (io : FileOutcome)
  | del (token key : Bytes) (io : FileOutcome)
  | destroy (token : Bytes)
  | reap (now : Int)
  | restart

def step (w : World) : Op → World
  | .create rnd ttl now io => (httpSessionCreate w rnd ttl now io).1
  | .open token now => (httpSessionOpen w token now).1
  | .set token key value io => httpSessionSet w token key value io
  | .del token key io => httpSessionDel w token key io
  | .destroy token => httpSessionDestroy w token
  | .reap now => httpSessionReap w now
  | .restart => restart w

def run (w : World) (ops : List Op) : World := ops.foldl step w

/-- A store attached to a file that does not exist yet. -/
def fresh (path : Bytes) (defaultTtl : Int) : World :=
  ⟨⟨[], defaultTtl, some ⟨path, [], 0, false⟩⟩, path, none⟩

/-! ## Tokens and record keys -/

theorem newToken_length (rnd : Bytes) : (newToken rnd).length = 2 * rnd.length := by
  induction rnd with
  | nil => rfl
  | cons b rnd ih =>
    rw [newToken, List.flatMap_cons, List.length_append]
    change 2 + (newToken rnd).length = 2 * (rnd.length + 1)
    omega

theorem newToken_nul_free (rnd : Bytes) : 0 ∉ newToken rnd := by
  rw [newToken, List.mem_flatMap]
  rintro ⟨b, _, hMem⟩
  have hb := b.toNat_lt
  rcases List.mem_cons.mp hMem with hEq | hMem
  · exact hexDigitChar_ne_zero (by omega) hEq.symm
  · exact hexDigitChar_ne_zero (Nat.mod_lt _ (by decide)) (List.mem_singleton.mp hMem).symm

def IsToken (token : Bytes) : Prop := token.length = 40 ∧ 0 ∉ token

theorem newToken_isToken (rnd : Vector UInt8 20) : IsToken (newToken rnd.toList) :=
  ⟨by rw [newToken_length]; simp, newToken_nul_free _⟩

theorem sessionKey_of_nul_free {token : Bytes} (h : 0 ∉ token) :
    sessionKey token = (ascii "session-" ++ token).take 63 := by
  apply svFromCstr_of_not_mem
  intro hMem
  rcases List.mem_append.mp (List.mem_of_mem_take hMem) with hMem | hMem
  · exact absurd hMem (by decide)
  · exact h hMem

theorem eq_of_sessionKey_eq {token text : Bytes} (hToken : IsToken token) (hText : 0 ∉ text)
    (h : sessionKey text = sessionKey token) : text = token := by
  rw [sessionKey_of_nul_free hText, sessionKey_of_nul_free hToken.2] at h
  have hPrefix : (ascii "session-").length = 8 := by decide
  have hLen := congrArg List.length h
  simp only [List.length_take, List.length_append, hPrefix, hToken.1] at hLen
  rw [List.take_of_length_le (by simp only [List.length_append, hPrefix]; omega),
    List.take_of_length_le (by simp only [List.length_append, hPrefix, hToken.1]; omega)] at h
  exact List.append_cancel_left h

theorem findToken_eq_none_iff (s : HttpSessionStore) {token : Bytes}
    (hTokens : ∀ t ∈ s.slots.map Prod.fst, IsToken t) :
    findToken s token = none ↔ token ∉ s.slots.map Prod.fst := by
  simp only [findToken, List.findIdx?_eq_none_iff, tokenSecretEq, List.mem_map]
  constructor
  · rintro h ⟨slot, hSlot, rfl⟩
    have hLen := (hTokens slot.1 (List.mem_map_of_mem hSlot)).1
    simpa [hLen] using h slot hSlot
  · intro h slot hSlot
    have hne : slot.1 ≠ token := fun hEq => h ⟨slot, hSlot, hEq⟩
    simp [hne]

theorem findToken_getElem {s : HttpSessionStore} {token : Bytes} {i : Nat} (h : findToken s token = some i) :
    ∃ sesh, s.slots[i]? = some (token, sesh) := by
  obtain ⟨hi, hEq, _⟩ := List.findIdx?_eq_some_iff_getElem.mp h
  simp only [tokenSecretEq, Bool.and_eq_true, beq_iff_eq] at hEq
  refine ⟨s.slots[i].2, ?_⟩
  rw [List.getElem?_eq_getElem hi, ← hEq.2]

/-! ## What a run keeps -/

/-- Record keys are distinct, each the key of a token, none of a token in
`gone`. -/
structure RecordKeys (gone : List Bytes) (entries : List (Bytes × Bytes)) : Prop where
  distinct : DistinctKeys entries
  tokens : ∀ key ∈ entries.map Prod.fst, ∃ token, IsToken token ∧ key = sessionKey token
  absent : ∀ t ∈ gone, sessionKey t ∉ entries.map Prod.fst

/-- What the store keeps about the tokens in `gone`: no slot and no record of
them in memory. -/
structure StoreHolds (gone : List Bytes) (path : Bytes) (s : HttpSessionStore) : Prop where
  text : ∀ t ∈ gone, 0 ∉ t
  slotsDistinct : (s.slots.map Prod.fst).Nodup
  slotsTokens : ∀ t ∈ s.slots.map Prod.fst, IsToken t
  slotsAbsent : ∀ t ∈ gone, t ∉ s.slots.map Prod.fst
  db : ∃ db, s.db = some db ∧ db.path = path ∧ Accounted db ∧ RecordKeys gone db.entries

theorem RecordKeys.mono {gone gone' : List Bytes} {entries : List (Bytes × Bytes)}
    (h : RecordKeys gone entries) (hSub : ∀ t ∈ gone', t ∈ gone) : RecordKeys gone' entries :=
  ⟨h.distinct, h.tokens, fun t ht => h.absent t (hSub t ht)⟩

theorem RecordKeys.put {gone : List Bytes} {db : CwebDb} (h : RecordKeys gone db.entries)
    (hText : ∀ t ∈ gone, 0 ∉ t) {token : Bytes} (hToken : IsToken token) (hLive : token ∉ gone)
    (value : Bytes) : RecordKeys gone (cwebDbPut db (sessionKey token) value).entries := by
  have hKeys := keys_cwebDbPut db (sessionKey token) value
  split at hKeys
  · refine ⟨?_, ?_, ?_⟩
    · rw [DistinctKeys, hKeys]
      exact h.distinct
    · rw [hKeys]
      exact h.tokens
    · rw [hKeys]
      exact h.absent
  · rename_i hNew
    refine ⟨?_, ?_, ?_⟩
    · rw [DistinctKeys, hKeys, List.nodup_append]
      refine ⟨h.distinct, by simp, ?_⟩
      intro a ha b hb hEq
      rw [List.mem_singleton] at hb
      exact hNew (hb ▸ hEq ▸ ha)
    · rw [hKeys]
      intro key hKey
      rcases List.mem_append.mp hKey with hKey | hKey
      · exact h.tokens key hKey
      · exact ⟨token, hToken, List.mem_singleton.mp hKey⟩
    · rw [hKeys]
      intro t ht hMem
      rcases List.mem_append.mp hMem with hMem | hMem
      · exact h.absent t ht hMem
      · have hEq := eq_of_sessionKey_eq hToken (hText t ht) (List.mem_singleton.mp hMem)
        exact hLive (hEq ▸ ht)

theorem RecordKeys.delete {gone : List Bytes} {db : CwebDb} (h : RecordKeys gone db.entries) (token : Bytes) :
    RecordKeys (token :: gone) (cwebDbDelete db (sessionKey token)).entries := by
  have hPerm := keys_cwebDbDelete db (sessionKey token)
  refine ⟨?_, ?_, ?_⟩
  · rw [DistinctKeys, hPerm.nodup_iff]
    exact h.distinct.erase _
  · intro key hKey
    exact h.tokens key (List.mem_of_mem_erase (hPerm.mem_iff.mp hKey))
  · intro t ht hMem
    have hMem := hPerm.mem_iff.mp hMem
    rcases List.mem_cons.mp ht with rfl | ht
    · exact h.distinct.not_mem_erase hMem
    · exact h.absent t ht (List.mem_of_mem_erase hMem)

theorem StoreHolds.mono {gone gone' : List Bytes} {path : Bytes} {s : HttpSessionStore}
    (h : StoreHolds gone path s) (hSub : ∀ t ∈ gone', t ∈ gone) : StoreHolds gone' path s := by
  obtain ⟨db, hDb, hPath, hAccounted, hKeys⟩ := h.db
  exact ⟨fun t ht => h.text t (hSub t ht), h.slotsDistinct, h.slotsTokens,
    fun t ht => h.slotsAbsent t (hSub t ht), db, hDb, hPath, hAccounted, hKeys.mono hSub⟩

theorem StoreHolds.removeAt {gone : List Bytes} {path : Bytes} {s : HttpSessionStore}
    (h : StoreHolds gone path s) {i : Nat} {slot : Bytes × HttpSession} (hSlot : s.slots[i]? = some slot) :
    StoreHolds (slot.1 :: gone) path (removeAt s i) := by
  obtain ⟨db, hDb, hPath, hAccounted, hKeys⟩ := h.db
  have hIn : slot.1 ∈ s.slots.map Prod.fst := List.mem_map_of_mem (List.mem_of_getElem? hSlot)
  have hPerm := map_swapRemove_perm Prod.fst hSlot
  have hMem : ∀ t ∈ (swapRemove s.slots i).map Prod.fst, t ∈ s.slots.map Prod.fst := fun t ht =>
    List.mem_of_mem_erase (hPerm.mem_iff.mp ht)
  simp only [SessionStore.removeAt, hSlot]
  refine ⟨?_, ?_, ?_, ?_, ?_⟩
  · intro t ht
    rcases List.mem_cons.mp ht with rfl | ht
    · exact (h.slotsTokens _ hIn).2
    · exact h.text t ht
  · rw [hPerm.nodup_iff]
    exact h.slotsDistinct.erase _
  · exact fun t ht => h.slotsTokens t (hMem t ht)
  · intro t ht hAt
    rcases List.mem_cons.mp ht with rfl | ht
    · exact h.slotsDistinct.not_mem_erase (hPerm.mem_iff.mp hAt)
    · exact h.slotsAbsent t ht (hMem t hAt)
  · refine ⟨cwebDbDelete db (sessionKey slot.1), by rw [hDb]; rfl, ?_,
      cwebDbDelete_accounted hAccounted _, hKeys.delete slot.1⟩
    rw [cwebDbDelete_path, hPath]

theorem StoreHolds.reapLoop {gone : List Bytes} {path : Bytes} (now : Int) :
    ∀ fuel (s : HttpSessionStore) i, StoreHolds gone path s →
      StoreHolds gone path (reapLoop now fuel s i) := by
  intro fuel
  induction fuel with
  | zero => exact fun s i h => h
  | succ fuel ih =>
    intro s i h
    rw [SessionStore.reapLoop]
    cases hSlot : s.slots[i]? with
    | none => exact h
    | some slot =>
      dsimp only
      split
      · exact ih _ _ ((h.removeAt hSlot).mono fun t ht => List.mem_cons_of_mem _ ht)
      · exact ih _ _ h

theorem StoreHolds.addSlot {gone : List Bytes} {path : Bytes} {s : HttpSessionStore}
    (h : StoreHolds gone path s) {token : Bytes} (hToken : IsToken token) (hLive : token ∉ gone)
    (hNew : findToken s token = none) (sesh : HttpSession) :
    StoreHolds gone path { s with slots := s.slots ++ [(token, sesh)] } := by
  rw [findToken_eq_none_iff s h.slotsTokens] at hNew
  refine ⟨h.text, ?_, ?_, ?_, h.db⟩
  · rw [List.map_append, List.nodup_append]
    refine ⟨h.slotsDistinct, by simp, ?_⟩
    intro a ha b hb hEq
    obtain rfl : b = token := by simpa using hb
    exact hNew (hEq ▸ ha)
  · intro t ht
    rcases List.mem_append.mp (List.map_append ▸ ht) with ht | ht
    · exact h.slotsTokens t ht
    · obtain rfl : t = token := by simpa using ht
      exact hToken
  · intro t ht hAt
    rcases List.mem_append.mp (List.map_append ▸ hAt) with hAt | hAt
    · exact h.slotsAbsent t ht hAt
    · obtain rfl : t = token := by simpa using hAt
      exact hLive ht

theorem StoreHolds.loadSlot {gone : List Bytes} {path : Bytes} {s : HttpSessionStore}
    (h : StoreHolds gone path s) {token : Bytes} (hText : 0 ∉ token) :
    StoreHolds gone path (loadSlot s token).1 := by
  obtain ⟨db, hDb, hPath, hAccounted, hKeys⟩ := h.db
  rw [SessionStore.loadSlot]
  cases hFind : findToken s token with
  | some i => exact h
  | none =>
    simp only [hDb]
    split
    · exact h
    · rename_i hRecord
      rw [cwebDbGet_eq_none_iff, not_not] at hRecord
      obtain ⟨owner, hOwner, hKey⟩ := hKeys.tokens _ hRecord
      obtain rfl := eq_of_sessionKey_eq hOwner hText hKey
      have hLive : token ∉ gone := fun ht => hKeys.absent token ht hRecord
      have hAdded := h.addSlot hOwner hLive hFind (sessionFromDb db freshSession token)
      rw [hDb] at hAdded
      exact hAdded

theorem StoreHolds.modify {gone : List Bytes} {path : Bytes} {s : HttpSessionStore}
    (h : StoreHolds gone path s) (i : Nat) (f : HttpSession → HttpSession) :
    StoreHolds gone path { s with slots := s.slots.modify i fun slot => (slot.1, f slot.2) } := by
  have hTokens : (s.slots.modify i fun slot => (slot.1, f slot.2)).map Prod.fst = s.slots.map Prod.fst := by
    apply List.ext_getElem?
    intro j
    rw [List.getElem?_map, List.getElem?_map, List.getElem?_modify]
    cases s.slots[j]? with
    | none => rfl
    | some slot =>
      simp only [Option.map_some]
      split <;> rfl
  refine ⟨h.text, ?_, ?_, ?_, h.db⟩
  · rw [hTokens]
    exact h.slotsDistinct
  · rw [hTokens]
    exact h.slotsTokens
  · rw [hTokens]
    exact h.slotsAbsent

end Cweb.SessionStore
