import Cweb.Lib.Allocations
import Cweb.Lib.Machine
import Cweb.Http.SessionStore

/-!
# The session store in memory

Without a backing store the live sessions are two arrays of the same length,
one of tokens and one of pointers to sessions. Removal frees the session and
moves the last slot of each array into the gap, from `http_session_destroy`,
from `http_session_open` and from inside the sweep over the arrays. A token
stands for its text, and `none` is a use of a freed session. What the store is
for stands below it as a map from tokens to an expiry and a key/value map.
-/

namespace Cweb.SessionSlots

open Sv Session SwapRemove Allocations Machine SessionStore

structure HttpSessionStore where
  heap : Heap HttpSession
  sessions : List Nat
  tokens : List Bytes
  defaultTtl : Int
deriving DecidableEq, Repr

def httpSessionStoreInit (defaultTtl : Int) : HttpSessionStore := ⟨Heap.empty, [], [], defaultTtl⟩

def findToken (s : HttpSessionStore) (token : Bytes) : Option Nat :=
  s.tokens.findIdx? fun t => tokenSecretEq t token

def removeAt (s : HttpSessionStore) (i : Nat) : Option HttpSessionStore :=
  match s.sessions[i]? with
  | none => none
  | some p => (s.heap.free p).map fun heap =>
    { s with heap := heap, tokens := swapRemove s.tokens i, sessions := swapRemove s.sessions i }

/-- `rnd` is what the random source gave, `none` when it failed. -/
def httpSessionCreate (s : HttpSessionStore) (rnd : Option (Vector UInt8 20)) (ttl now : Int) :
    HttpSessionStore × Option Bytes :=
  match rnd with
  | none => (s, none)
  | some rnd =>
    let tok := newToken rnd.toList
    let t := if ttl < 0 then s.defaultTtl else ttl
    let sesh := s.heap.alloc ⟨strmapInit, expiryOf t now⟩
    ({ s with heap := sesh.1, tokens := s.tokens ++ [tok], sessions := s.sessions ++ [sesh.2] }, some tok)

def sessionAt (s : HttpSessionStore) (i : Nat) : Option (Nat × HttpSession) :=
  s.sessions[i]?.bind fun p => (s.heap.read p).map fun sesh => (p, sesh)

def httpSessionOpen (s : HttpSessionStore) (token : Bytes) (now : Int) :
    Option (HttpSessionStore × Option Nat) :=
  match findToken s (svFromCstr token) with
  | none => some (s, none)
  | some i =>
    match sessionAt s i with
    | none => none
    | some (p, sesh) => if expired sesh now then (removeAt s i).map fun s => (s, none) else some (s, some p)

def httpSessionSet (s : HttpSessionStore) (sesh : Nat) (key value : Bytes) : Option HttpSessionStore :=
  (s.heap.read sesh).bind fun s₀ =>
    (s.heap.write sesh { s₀ with data := strmapSet s₀.data (svFromCstr key) (svFromCstr value) }).map
      fun heap =>
      { s with heap := heap }

def httpSessionValue (s : HttpSessionStore) (sesh : Nat) (key : Bytes) : Option (Option Bytes) :=
  (s.heap.read sesh).map fun s₀ => strmapGet s₀.data (svFromCstr key)

def httpSessionDel (s : HttpSessionStore) (sesh : Nat) (key : Bytes) : Option (HttpSessionStore × Bool) :=
  (s.heap.read sesh).bind fun s₀ =>
    if strmapGet s₀.data (svFromCstr key) = none then some (s, false)
    else (s.heap.write sesh { s₀ with data := strmapDelete s₀.data (svFromCstr key) }).map fun heap =>
      ({ s with heap := heap }, true)

def httpSessionDestroy (s : HttpSessionStore) (token : Bytes) : Option HttpSessionStore :=
  match findToken s (svFromCstr token) with
  | none => some s
  | some i => removeAt s i

/-- The sweep stays at a slot whose session it removed, since the last one has
moved there. -/
def reapLoop (now : Int) : Nat → HttpSessionStore → Nat → Option HttpSessionStore
  | 0, s, _ => some s
  | fuel + 1, s, i =>
    if s.sessions.length ≤ i then some s
    else
      match sessionAt s i with
      | none => none
      | some (_, sesh) =>
        if expired sesh now then (removeAt s i).bind fun s => reapLoop now fuel s i
        else reapLoop now fuel s (i + 1)

def httpSessionReap (s : HttpSessionStore) (now : Int) : Option HttpSessionStore :=
  reapLoop now s.sessions.length s 0

/-- A session is handed to `set`, `value` and `del` as the pointer that an `open`
gave. -/
inductive Call where
  | create (rnd : Option (Vector UInt8 20)) (ttl now : Int)
  | open (token : Bytes) (now : Int)
  | set (sesh : Nat) (key value : Bytes)
  | value (sesh : Nat) (key : Bytes)
  | del (sesh : Nat) (key : Bytes)
  | destroy (token : Bytes)
  | reap (now : Int)

inductive Answer where
  | token (t : Option Bytes)
  | session (p : Option Nat)
  | value (v : Option Bytes)
  | present (b : Bool)
  | done
deriving DecidableEq, Repr

def call (s : HttpSessionStore) : Call → Option (HttpSessionStore × Answer)
  | .create rnd ttl now =>
    let made := httpSessionCreate s rnd ttl now
    some (made.1, .token made.2)
  | .open token now => (httpSessionOpen s token now).map fun r => (r.1, .session r.2)
  | .set sesh key value => (httpSessionSet s sesh key value).map fun s => (s, .done)
  | .value sesh key => (httpSessionValue s sesh key).map fun v => (s, .value v)
  | .del sesh key => (httpSessionDel s sesh key).map fun r => (r.1, .present r.2)
  | .destroy token => (httpSessionDestroy s token).map fun s => (s, .done)
  | .reap now => (httpSessionReap s now).map fun s => (s, .done)

/-! ## What the store is for -/

/-- A session as its user knows it. -/
structure Entry where
  expires : Int
  data : Bytes → Option Bytes

def Entry.Expired (e : Entry) (now : Int) : Prop := e.expires ≠ 0 ∧ e.expires ≤ now

instance (e : Entry) (now : Int) : Decidable (e.Expired now) := inferInstanceAs (Decidable (_ ∧ _))

/-- The live sessions by token. The session created n-th goes by the number n,
and `created` tells the token it was created with. -/
structure SessionMap where
  live : Bytes → Option Entry
  created : List Bytes
  defaultTtl : Int

namespace SessionMap

def empty (defaultTtl : Int) : SessionMap := ⟨fun _ => none, [], defaultTtl⟩

def create (m : SessionMap) (token : Bytes) (ttl now : Int) : SessionMap :=
  let t := if ttl < 0 then m.defaultTtl else ttl
  { m with
    live := Function.update m.live token (some ⟨expiryOf t now, fun _ => none⟩)
    created := m.created ++ [token] }

def remove (m : SessionMap) (token : Bytes) : SessionMap :=
  { m with live := Function.update m.live token none }

@[simp]
theorem remove_live (m : SessionMap) (token : Bytes) :
    (m.remove token).live = Function.update m.live token none := rfl

theorem live_remove_iff (m : SessionMap) (token t : Bytes) (e : Entry) :
    (m.remove token).live t = some e ↔ t ≠ token ∧ m.live t = some e := by
  rw [remove_live]
  rcases eq_or_ne t token with rfl | hNe
  · simp
  · simp [hNe]

def reap (m : SessionMap) (now : Int) : SessionMap :=
  { m with live := fun token => (m.live token).filter fun e => ¬ e.Expired now }

/-- The live session with a number, and its token. -/
def session (m : SessionMap) (n : Nat) : Option (Bytes × Entry) :=
  m.created[n]?.bind fun token => (m.live token).map fun e => (token, e)

/-- A key of a session is bound, or unbound. -/
def bind (m : SessionMap) (token : Bytes) (e : Entry) (key : Bytes) (value : Option Bytes) : SessionMap :=
  { m with live := Function.update m.live token (some { e with data := Function.update e.data key value }) }

def call (m : SessionMap) : Call → Option (SessionMap × Answer)
  | .create none _ _ => some (m, .token none)
  | .create (some rnd) ttl now =>
    some (m.create (newToken rnd.toList) ttl now, .token (some (newToken rnd.toList)))
  | .open text now =>
    let token := svFromCstr text
    match m.live token with
    | none => some (m, .session none)
    | some e =>
      if e.Expired now then some (m.remove token, .session none)
      else some (m, .session (some (m.created.idxOf token)))
  | .set n key value =>
    (m.session n).map fun s => (m.bind s.1 s.2 (svFromCstr key) (some (svFromCstr value)), .done)
  | .value n key => (m.session n).map fun s => (m, .value (s.2.data (svFromCstr key)))
  | .del n key =>
    (m.session n).map fun s =>
      (m.bind s.1 s.2 (svFromCstr key) none, .present (s.2.data (svFromCstr key)).isSome)
  | .destroy text => some (m.remove (svFromCstr text), .done)
  | .reap now => some (m.reap now, .done)

end SessionMap

/-! ## The arrays show the map -/

def entryOf (sesh : HttpSession) : Entry := ⟨sesh.expires, strmapGet sesh.data⟩

def slots (s : HttpSessionStore) : List (Bytes × Nat) := s.tokens.zip s.sessions

/-- The live session number `p` with its token. -/
structure Live (s : HttpSessionStore) (m : SessionMap) (t : Bytes) (p : Nat) (sesh : HttpSession) : Prop where
  slot : (t, p) ∈ slots s
  created : m.created[p]? = some t
  read : s.heap.read p = some sesh
  wf : sesh.data.WF
  live : m.live t = some (entryOf sesh)

structure Shows (s : HttpSessionStore) (m : SessionMap) : Prop where
  parallel : s.tokens.length = s.sessions.length
  nodup : s.tokens.Nodup
  slot : ∀ t p, (t, p) ∈ slots s → ∃ sesh, Live s m t p sesh
  live : ∀ t e, m.live t = some e → ∃ p, (t, p) ∈ slots s
  held : ∀ p sesh, s.heap.read p = some sesh → ∃ t, (t, p) ∈ slots s
  numbered : m.created.length = s.heap.cells.length
  distinct : m.created.Nodup
  tokens : ∀ t ∈ m.created, IsToken t
  ttl : s.defaultTtl = m.defaultTtl

theorem shows_init (defaultTtl : Int) :
    Shows (httpSessionStoreInit defaultTtl) (SessionMap.empty defaultTtl) where
  parallel := rfl
  nodup := List.nodup_nil
  slot _ _ h := absurd h List.not_mem_nil
  live _ _ h := nomatch h
  held _ _ h := nomatch h
  numbered := rfl
  distinct := List.nodup_nil
  tokens _ h := absurd h List.not_mem_nil
  ttl := rfl

section Slots

variable {s : HttpSessionStore} {m : SessionMap}

theorem Shows.slots_fst (h : Shows s m) : (slots s).map Prod.fst = s.tokens := List.map_fst_zip h.parallel.le

theorem Shows.slots_nodup (h : Shows s m) : (slots s).Nodup :=
  List.Nodup.of_map Prod.fst (h.slots_fst ▸ h.nodup)

theorem Shows.pointer_inj (h : Shows s m) {t : Bytes} {p p' : Nat} (hp : m.created[p]? = some t)
    (hp' : m.created[p']? = some t) : p = p' := by
  obtain ⟨hLt, _⟩ := List.getElem?_eq_some_iff.mp hp
  exact (List.getElem?_inj hLt h.distinct).mp (hp.trans hp'.symm)

theorem Shows.slot_cases (h : Shows s m) (i : Nat) :
    (s.tokens.length ≤ i) ∨ ∃ t p sesh, s.tokens[i]? = some t ∧ s.sessions[i]? = some p ∧
      Live s m t p sesh := by
  rcases Nat.lt_or_ge i s.tokens.length with hLt | hGe
  · right
    obtain ⟨t, hToken⟩ : ∃ t, s.tokens[i]? = some t := ⟨_, List.getElem?_eq_getElem hLt⟩
    obtain ⟨p, hSession⟩ : ∃ p, s.sessions[i]? = some p := ⟨_, List.getElem?_eq_getElem (h.parallel ▸ hLt)⟩
    have hSlot : (t, p) ∈ slots s := List.mem_of_getElem? (List.getElem?_zip_eq_some.mpr ⟨hToken, hSession⟩)
    obtain ⟨sesh, hLive⟩ := h.slot t p hSlot
    exact ⟨t, p, sesh, hToken, hSession, hLive⟩
  · exact .inl hGe

theorem Live.isToken (h : Shows s m) {t : Bytes} {p : Nat} {sesh : HttpSession}
    (hLive : Live s m t p sesh) : IsToken t :=
  h.tokens t (List.mem_of_getElem? hLive.created)

theorem findToken_cases (h : Shows s m) (token : Bytes) :
    (findToken s token = none ∧ m.live token = none) ∨ ∃ i p sesh, findToken s token = some i ∧
      s.tokens[i]? = some token ∧ s.sessions[i]? = some p ∧ Live s m token p sesh := by
  cases hFind : findToken s token with
  | none =>
    refine .inl ⟨rfl, ?_⟩
    cases hLive : m.live token with
    | none => rfl
    | some e =>
      obtain ⟨p, hSlot⟩ := h.live token e hLive
      obtain ⟨sesh, hSesh⟩ := h.slot token p hSlot
      have hMiss := List.findIdx?_eq_none_iff.mp hFind token (List.of_mem_zip hSlot).1
      simp [tokenSecretEq, (hSesh.isToken h).1] at hMiss
  | some i =>
    right
    obtain ⟨hi, hEq, _⟩ := List.findIdx?_eq_some_iff_getElem.mp hFind
    simp only [tokenSecretEq, Bool.and_eq_true, beq_iff_eq] at hEq
    rcases h.slot_cases i with hOut | ⟨t, p, sesh, hToken, hSession, hLive⟩
    · omega
    · rw [List.getElem?_eq_getElem hi, hEq.2] at hToken
      obtain rfl := Option.some.inj hToken
      exact ⟨i, p, sesh, rfl, by rw [List.getElem?_eq_getElem hi, hEq.2], hSession, hLive⟩

/-- A removal frees the session of the slot and takes its token out of the map,
and the slots in front stay where they are. -/
theorem removeAt_shows (h : Shows s m) {i : Nat} {t : Bytes} {p : Nat} {sesh : HttpSession}
    (hToken : s.tokens[i]? = some t) (hSession : s.sessions[i]? = some p) (hLive : Live s m t p sesh) :
    ∃ s', removeAt s i = some s' ∧ Shows s' (m.remove t) ∧ s'.tokens = swapRemove s.tokens i := by
  obtain ⟨heap, hFree, hDead, hSame⟩ := Heap.free_of_read hLive.read
  obtain ⟨hi, _⟩ := List.getElem?_eq_some_iff.mp hToken
  have hi' : i < s.sessions.length := h.parallel ▸ hi
  have hSlots : i < (slots s).length := by rw [slots, List.length_zip, ← h.parallel, Nat.min_self]; exact hi
  have hAt : (slots s)[i] = (t, p) :=
    Option.some.inj
      ((List.getElem?_eq_getElem hSlots).symm.trans (List.getElem?_zip_eq_some.mpr ⟨hToken, hSession⟩))
  refine ⟨_, by rw [removeAt, hSession]; dsimp only; rw [hFree]; rfl, ?_, rfl⟩
  have hMem : ∀ x, x ∈ (swapRemove s.tokens i).zip (swapRemove s.sessions i) ↔ x ∈ slots s ∧ x ≠ (t, p) := by
    intro x
    rw [← swapRemove_zip h.parallel hi, ← hAt]
    exact mem_swapRemove_iff h.slots_nodup hSlots x
  refine ⟨?_, nodup_swapRemove h.nodup hi, ?_, ?_, ?_, ?_, h.distinct, h.tokens, h.ttl⟩
  · rw [swapRemove_length hi, swapRemove_length hi', h.parallel]
  · intro t' p' hSlot
    obtain ⟨hOld, hOther⟩ := (hMem _).mp hSlot
    obtain ⟨sesh', hLive'⟩ := h.slot t' p' hOld
    have hToken' : t' ≠ t := by
      rintro rfl
      exact hOther (congrArg _ (h.pointer_inj hLive'.created hLive.created))
    have hPointer : p' ≠ p := by
      rintro rfl
      exact hToken' (Option.some.inj (hLive'.created.symm.trans hLive.created))
    refine ⟨sesh', hSlot, hLive'.created, (hSame p' hPointer).trans hLive'.read, hLive'.wf, ?_⟩
    exact (Function.update_of_ne hToken' _ _).trans hLive'.live
  · intro t' e hNow
    obtain ⟨hNe, hOld⟩ := (m.live_remove_iff t t' e).mp hNow
    obtain ⟨p', hSlot⟩ := h.live t' e hOld
    refine ⟨p', (hMem _).mpr ⟨hSlot, ?_⟩⟩
    intro hEq
    exact hNe (congrArg Prod.fst hEq)
  · intro p' sesh' hRead
    rcases eq_or_ne p' p with rfl | hNe
    · exact nomatch hDead.symm.trans hRead
    · obtain ⟨t', hSlot⟩ := h.held p' sesh' ((hSame p' hNe).symm.trans hRead)
      refine ⟨t', (hMem _).mpr ⟨hSlot, ?_⟩⟩
      intro hEq
      exact hNe (congrArg Prod.snd hEq)
  · exact h.numbered.trans (Heap.length_of_free hFree).symm

theorem session_cases (h : Shows s m) (p : Nat) :
    (s.heap.read p = none ∧ m.session p = none) ∨
      ∃ t sesh, Live s m t p sesh ∧ m.session p = some (t, entryOf sesh) := by
  cases hRead : s.heap.read p with
  | none =>
    refine .inl ⟨rfl, ?_⟩
    rw [SessionMap.session]
    cases hCreated : m.created[p]? with
    | none => rfl
    | some t =>
      cases hNow : m.live t with
      | none => rw [Option.bind_some, hNow]; rfl
      | some e =>
        obtain ⟨p', hSlot⟩ := h.live t e hNow
        obtain ⟨sesh, hLive⟩ := h.slot t p' hSlot
        obtain rfl := h.pointer_inj hCreated hLive.created
        exact nomatch hRead.symm.trans hLive.read
  | some sesh =>
    obtain ⟨t, hSlot⟩ := h.held p sesh hRead
    obtain ⟨sesh', hLive⟩ := h.slot t p hSlot
    exact .inr ⟨t, sesh', hLive, by rw [SessionMap.session, hLive.created, Option.bind_some, hLive.live]; rfl⟩

theorem write_shows (h : Shows s m) {t : Bytes} {p : Nat} {sesh : HttpSession} (hLive : Live s m t p sesh)
    (sesh' : HttpSession) (hWf : sesh'.data.WF) : ∃ heap, s.heap.write p sesh' = some heap ∧
      Shows { s with heap := heap } { m with live := Function.update m.live t (some (entryOf sesh')) } := by
  obtain ⟨heap, hWrite, hNew, hSame⟩ := Heap.write_of_read hLive.read sesh'
  refine ⟨heap, hWrite, h.parallel, h.nodup, ?_, ?_, ?_, ?_, h.distinct, h.tokens, h.ttl⟩
  · intro t' p' hSlot
    obtain ⟨sesh₁, hLive'⟩ := h.slot t' p' hSlot
    rcases eq_or_ne p' p with rfl | hNe
    · obtain rfl := Option.some.inj (hLive'.created.symm.trans hLive.created)
      exact ⟨sesh', hSlot, hLive.created, hNew, hWf, Function.update_self _ _ _⟩
    · refine ⟨sesh₁, hSlot, hLive'.created, (hSame p' hNe).trans hLive'.read, hLive'.wf, ?_⟩
      refine (Function.update_of_ne ?_ _ _).trans hLive'.live
      rintro rfl
      exact hNe (h.pointer_inj hLive'.created hLive.created)
  · intro t' e hNow
    rcases eq_or_ne t' t with rfl | hNe
    · exact ⟨p, hLive.slot⟩
    · dsimp only at hNow
      rw [Function.update_of_ne hNe] at hNow
      exact h.live t' e hNow
  · intro p' sesh₁ hRead
    rcases eq_or_ne p' p with rfl | hNe
    · exact ⟨t, hLive.slot⟩
    · exact h.held p' sesh₁ ((hSame p' hNe).symm.trans hRead)
  · exact h.numbered.trans (Heap.length_of_write hWrite).symm

theorem expired_iff (sesh : HttpSession) (now : Int) : expired sesh now = true ↔
    (entryOf sesh).Expired now := by
  simp [expired, Entry.Expired, entryOf]

theorem sessionAt_eq {t : Bytes} {i p : Nat} {sesh : HttpSession} (hSession : s.sessions[i]? = some p)
    (hLive : Live s m t p sesh) : sessionAt s i = some (p, sesh) := by
  rw [sessionAt, hSession, Option.bind_some, hLive.read]
  rfl

theorem SessionMap.reap_eq_self {m : SessionMap} {now : Int}
    (h : ∀ t e, m.live t = some e → ¬ e.Expired now) :
    m.reap now = m := by
  rw [SessionMap.reap]
  congr 1
  funext t
  cases hNow : m.live t with
  | none => rfl
  | some e => rw [Option.filter_some, if_pos (decide_eq_true (h t e hNow))]

theorem SessionMap.reap_remove {m : SessionMap} {now : Int} {t : Bytes} {e : Entry} (hNow : m.live t = some e)
    (hExpired : e.Expired now) : (m.remove t).reap now = m.reap now := by
  rw [SessionMap.reap, SessionMap.reap, SessionMap.remove_live]
  congr 1
  funext t'
  rcases eq_or_ne t' t with rfl | hNe
  · rw [Function.update_self, hNow, Option.filter_some, if_neg (by simpa using hExpired)]
    rfl
  · rw [Function.update_of_ne hNe]

/-- The sessions of the slots in front of `i` are not expired. -/
def Swept (s : HttpSessionStore) (m : SessionMap) (now : Int) (i : Nat) : Prop :=
  ∀ j < i, ∀ t, s.tokens[j]? = some t → ∀ e, m.live t = some e → ¬ e.Expired now

theorem Swept.reap_eq_self {now : Int} {i : Nat} (hSwept : Swept s m now i) (h : Shows s m)
    (hAll : s.tokens.length ≤ i) :
    m.reap now = m := by
  apply SessionMap.reap_eq_self
  intro t e hNow
  obtain ⟨p, hSlot⟩ := h.live t e hNow
  obtain ⟨j, hToken⟩ := List.getElem?_of_mem (List.of_mem_zip hSlot).1
  obtain ⟨hj, _⟩ := List.getElem?_eq_some_iff.mp hToken
  exact hSwept j (by omega) t hToken e hNow

theorem reapLoop_shows (now : Int) (fuel : Nat) : ∀ (s : HttpSessionStore) (m : SessionMap)
    (i : Nat), Shows s m →
    s.tokens.length ≤ fuel + i → Swept s m now i → ∃ s', reapLoop now fuel s i = some s' ∧
      Shows s' (m.reap now) := by
  induction fuel with
  | zero =>
    intro s m i h hFuel hSwept
    refine ⟨s, rfl, ?_⟩
    rw [hSwept.reap_eq_self h (by omega)]
    exact h
  | succ fuel ih =>
    intro s m i h hFuel hSwept
    rw [reapLoop]
    rcases h.slot_cases i with hOut | ⟨t, p, sesh, hToken, hSession, hLive⟩
    · rw [if_pos (h.parallel ▸ hOut), hSwept.reap_eq_self h hOut]
      exact ⟨s, rfl, h⟩
    · obtain ⟨hi, _⟩ := List.getElem?_eq_some_iff.mp hToken
      rw [if_neg (by rw [← h.parallel]; omega), sessionAt_eq hSession hLive]
      dsimp only
      split
      · rename_i hExpired
        obtain ⟨s', hRemove, hShows, hTokens⟩ := removeAt_shows h hToken hSession hLive
        rw [hRemove, Option.bind_some,
          ← SessionMap.reap_remove hLive.live ((expired_iff sesh now).mp hExpired)]
        apply ih s' (m.remove t) i hShows
        · rw [hTokens, swapRemove_length hi]
          omega
        · intro j hj t' hToken' e hNow
          rw [hTokens, swapRemove_getElem?_of_lt hi hj] at hToken'
          exact hSwept j hj t' hToken' e ((m.live_remove_iff t t' e).mp hNow).2
      · rename_i hFresh
        apply ih s m (i + 1) h (by omega)
        intro j hj t' hToken' e hNow
        rcases Nat.lt_succ_iff_lt_or_eq.mp hj with hLt | rfl
        · exact hSwept j hLt t' hToken' e hNow
        · obtain rfl := Option.some.inj (hToken.symm.trans hToken')
          obtain rfl := Option.some.inj (hLive.live.symm.trans hNow)
          exact mt (expired_iff sesh now).mpr hFresh

theorem create_shows (h : Shows s m) (rnd : Vector UInt8 20) (ttl now : Int)
    (hNew : newToken rnd.toList ∉ m.created) :
    Shows (httpSessionCreate s (some rnd) ttl now).1 (m.create (newToken rnd.toList) ttl now) := by
  set token := newToken rnd.toList with hToken
  set sesh : HttpSession := ⟨strmapInit, expiryOf (if ttl < 0 then s.defaultTtl else ttl) now⟩ with hSesh
  have hSlots : slots (httpSessionCreate s (some rnd) ttl now).1 = slots s ++
    [(token, (s.heap.alloc sesh).2)] :=
    List.zip_append h.parallel
  have hLiveNew : (m.create token ttl now).live = Function.update m.live token (some (entryOf sesh)) := by
    rw [SessionMap.create, hSesh, h.ttl]
    rfl
  have hFresh : ∀ p, (token, p) ∉ slots s := by
    intro p hSlot
    obtain ⟨_, hLive⟩ := h.slot token p hSlot
    exact hNew (List.mem_of_getElem? hLive.created)
  have hAddress : (m.created ++ [token])[(s.heap.alloc sesh).2]? = some token := by
    change (m.created ++ [token])[s.heap.cells.length]? = some token
    rw [← h.numbered]
    exact List.getElem?_concat_length
  refine ⟨?_, ?_, ?_, ?_, ?_, ?_, ?_, ?_, h.ttl⟩
  · change (s.tokens ++ [token]).length = (s.sessions ++ [_]).length
    rw [List.length_append, List.length_append, h.parallel]
    rfl
  · change (s.tokens ++ [token]).Nodup
    rw [← List.concat_eq_append, List.nodup_concat]
    refine ⟨?_, h.nodup⟩
    intro hOld
    rw [← h.slots_fst] at hOld
    obtain ⟨⟨_, p⟩, hSlot, rfl⟩ := List.mem_map.mp hOld
    exact hFresh p hSlot
  · intro t p hSlot
    have hIn := hSlot
    rw [hSlots, List.mem_append, List.mem_singleton] at hIn
    rcases hIn with hOld | hEq
    · obtain ⟨sesh', hLive⟩ := h.slot t p hOld
      have hNe : t ≠ token := by
        rintro rfl
        exact hFresh p hOld
      refine ⟨sesh', hSlot, ?_, Heap.read_alloc hLive.read sesh, hLive.wf, ?_⟩
      · obtain ⟨hLt, _⟩ := List.getElem?_eq_some_iff.mp hLive.created
        exact (List.getElem?_append_left hLt).trans hLive.created
      · rw [hLiveNew, Function.update_of_ne hNe]
        exact hLive.live
    · cases hEq
      refine ⟨sesh, hSlot, hAddress, Heap.read_alloc_self s.heap sesh, strmapInit_wf, ?_⟩
      rw [hLiveNew, Function.update_self]
  · intro t e hNow
    rw [hSlots]
    rcases eq_or_ne t token with rfl | hNe
    · exact ⟨_, List.mem_append_right _ (List.mem_singleton_self _)⟩
    · rw [hLiveNew, Function.update_of_ne hNe] at hNow
      obtain ⟨p, hSlot⟩ := h.live t e hNow
      exact ⟨p, List.mem_append_left _ hSlot⟩
  · intro p sesh' hRead
    rw [hSlots]
    rcases eq_or_ne p (s.heap.alloc sesh).2 with rfl | hNe
    · exact ⟨token, List.mem_append_right _ (List.mem_singleton_self _)⟩
    · obtain ⟨t, hSlot⟩ := h.held p sesh' ((Heap.read_alloc_of_ne s.heap sesh hNe).symm.trans hRead)
      exact ⟨t, List.mem_append_left _ hSlot⟩
  · change (m.created ++ [token]).length = (s.heap.cells ++ [_]).length
    rw [List.length_append, List.length_append, h.numbered]
    rfl
  · change (m.created ++ [token]).Nodup
    rw [← List.concat_eq_append, List.nodup_concat]
    exact ⟨hNew, h.distinct⟩
  · intro t hMem
    rcases List.mem_append.mp hMem with hOld | hEq
    · exact h.tokens t hOld
    · rw [List.mem_singleton.mp hEq]
      exact newToken_isToken rnd

/-! ## Call by call -/

def generated (calls : List Call) : List Bytes :=
  calls.filterMap fun
    | .create (some rnd) _ _ => some (newToken rnd.toList)
    | _ => none

/-- A store and a map in front of the calls to come. -/
def Before (calls : List Call) (s : HttpSessionStore) (m : SessionMap) : Prop :=
  Shows s m ∧ (m.created ++ generated calls).Nodup

/-- The call has created no session. -/
def StillShows (created : List Bytes) (s : HttpSessionStore) (m : SessionMap) : Prop :=
  Shows s m ∧ m.created = created

theorem open_agree (h : Shows s m) (text : Bytes) (now : Int) :
    Agree (StillShows m.created) (call s (.open text now)) (m.call (.open text now)) := by
  simp only [call, httpSessionOpen, SessionMap.call]
  rcases findToken_cases h (svFromCstr text) with ⟨hFind, hNow⟩ | ⟨i, p, sesh, hFind, hToken, hSession, hLive⟩
  · rw [hFind, hNow]
    exact .of_eq rfl rfl ⟨h, rfl⟩
  · rw [hFind, hLive.live]
    simp only [sessionAt_eq hSession hLive]
    rcases em ((entryOf sesh).Expired now) with hExpired | hFresh
    · obtain ⟨s', hRemove, hShows, _⟩ := removeAt_shows h hToken hSession hLive
      rw [if_pos ((expired_iff sesh now).mpr hExpired), if_pos hExpired, hRemove]
      exact .of_eq rfl rfl ⟨hShows, rfl⟩
    · rw [if_neg (mt (expired_iff sesh now).mp hFresh), if_neg hFresh]
      obtain ⟨hp, hCreated⟩ := List.getElem?_eq_some_iff.mp hLive.created
      have hNumber : m.created.idxOf (svFromCstr text) = p := by
        rw [← hCreated]
        exact h.distinct.idxOf_getElem p hp
      rw [hNumber]
      exact .of_eq rfl rfl ⟨h, rfl⟩

theorem set_agree (h : Shows s m) (n : Nat) (key value : Bytes) :
    Agree (StillShows m.created) (call s (.set n key value)) (m.call (.set n key value)) := by
  simp only [call, httpSessionSet, SessionMap.call]
  rcases session_cases h n with ⟨hDead, hNone⟩ | ⟨t, sesh, hLive, hSome⟩
  · rw [hDead, hNone]
    exact .stuck rfl rfl
  · have hKey : 0 ∉ svFromCstr key := not_mem_svFromCstr key
    obtain ⟨heap, hWrite, hShows⟩ := write_shows h hLive
      { sesh with data := strmapSet sesh.data (svFromCstr key) (svFromCstr value) }
        (strmapSet_spec hLive.wf hKey _).1
    rw [hLive.read, hSome, Option.bind_some, hWrite]
    refine .of_eq rfl rfl ⟨?_, rfl⟩
    rw [entryOf, strmapGet_strmapSet hLive.wf hKey, dupOwn_of_not_mem (not_mem_svFromCstr value)] at hShows
    exact hShows

theorem value_agree (h : Shows s m) (n : Nat) (key : Bytes) :
    Agree (StillShows m.created) (call s (.value n key)) (m.call (.value n key)) := by
  simp only [call, httpSessionValue, SessionMap.call]
  rcases session_cases h n with ⟨hDead, hNone⟩ | ⟨t, sesh, hLive, hSome⟩
  · rw [hDead, hNone]
    exact .stuck rfl rfl
  · rw [hLive.read, hSome]
    exact .of_eq rfl rfl ⟨h, rfl⟩

theorem del_agree (h : Shows s m) (n : Nat) (key : Bytes) :
    Agree (StillShows m.created) (call s (.del n key)) (m.call (.del n key)) := by
  simp only [call, httpSessionDel, SessionMap.call]
  rcases session_cases h n with ⟨hDead, hNone⟩ | ⟨t, sesh, hLive, hSome⟩
  · rw [hDead, hNone]
    exact .stuck rfl rfl
  · rw [hLive.read, hSome, Option.bind_some]
    cases hValue : strmapGet sesh.data (svFromCstr key) with
    | none =>
      -- an absent key is unbound already
      have hSame : m.bind t (entryOf sesh) (svFromCstr key) none = m := by
        have hData : Function.update (strmapGet sesh.data) (svFromCstr key) none = strmapGet sesh.data :=
          Function.update_eq_self_iff.mpr hValue.symm
        rw [SessionMap.bind, entryOf, hData, Function.update_eq_self_iff.mpr hLive.live.symm]
      have hUnbound : (entryOf sesh).data (svFromCstr key) = none := hValue
      refine .of_eq rfl ?_ ⟨h, rfl⟩
      rw [Option.map_some, hSame, hUnbound]
      rfl
    | some v =>
      obtain ⟨heap, hWrite, hShows⟩ := write_shows h hLive
        { sesh with data := strmapDelete sesh.data (svFromCstr key) } (strmapDelete_spec hLive.wf _).1
      rw [if_neg (Option.some_ne_none v), hWrite]
      rw [entryOf, strmapGet_strmapDelete hLive.wf] at hShows
      refine .of_eq rfl ?_ ⟨hShows, rfl⟩
      simp only [Option.map_some, entryOf, hValue]
      rfl

theorem destroy_agree (h : Shows s m) (text : Bytes) :
    Agree (StillShows m.created) (call s (.destroy text)) (m.call (.destroy text)) := by
  simp only [call, httpSessionDestroy, SessionMap.call]
  rcases findToken_cases h (svFromCstr text) with ⟨hFind, hNow⟩ | ⟨i, p, sesh, hFind, hToken, hSession, hLive⟩
  · have hSame : m.remove (svFromCstr text) = m := by
      rw [SessionMap.remove, Function.update_eq_self_iff.mpr hNow.symm]
    rw [hFind, hSame]
    exact .of_eq rfl rfl ⟨h, rfl⟩
  · obtain ⟨s', hRemove, hShows, _⟩ := removeAt_shows h hToken hSession hLive
    rw [hFind]
    dsimp only
    rw [hRemove]
    exact .of_eq rfl rfl ⟨hShows, rfl⟩

theorem reap_agree (h : Shows s m) (now : Int) :
    Agree (StillShows m.created) (call s (.reap now)) (m.call (.reap now)) := by
  simp only [call, httpSessionReap, SessionMap.call]
  obtain ⟨s', hReap, hShows⟩ := reapLoop_shows now s.sessions.length s m 0 h h.parallel.le
    (fun j hj => absurd hj (Nat.not_lt_zero j))
  rw [hReap]
  exact .of_eq rfl rfl ⟨hShows, rfl⟩

theorem call_agree (c : Call) (calls : List Call) (h : Before (c :: calls) s m) :
    Agree (Before calls) (call s c) (m.call c) := by
  obtain ⟨hShows, hNodup⟩ := h
  have hKept : generated (c :: calls) = generated calls →
      Agree (StillShows m.created) (call s c) (m.call c) →
      Agree (Before calls) (call s c) (m.call c) := by
    intro hSame hAgree
    apply hAgree.imp
    rintro s' m' ⟨hShows', hCreated⟩
    refine ⟨hShows', ?_⟩
    rw [hCreated, ← hSame]
    exact hNodup
  cases c with
  | create rnd ttl now =>
    cases rnd with
    | none => exact .of_eq rfl rfl ⟨hShows, hNodup⟩
    | some rnd =>
      have hMade : generated (.create (some rnd) ttl now :: calls) =
        newToken rnd.toList :: generated calls := rfl
      rw [hMade] at hNodup
      have hNew : newToken rnd.toList ∉ m.created := by
        intro hOld
        exact (List.nodup_append.mp hNodup).2.2 _ hOld _ List.mem_cons_self rfl
      refine .of_eq rfl rfl ⟨create_shows hShows rnd ttl now hNew, ?_⟩
      change ((m.created ++ [newToken rnd.toList]) ++ generated calls).Nodup
      rw [List.append_assoc]
      exact hNodup
  | «open» text now => exact hKept rfl (open_agree hShows text now)
  | set n key value => exact hKept rfl (set_agree hShows n key value)
  | value n key => exact hKept rfl (value_agree hShows n key)
  | del n key => exact hKept rfl (del_agree hShows n key)
  | destroy text => exact hKept rfl (destroy_agree hShows text)
  | reap now => exact hKept rfl (reap_agree hShows now)

end Slots

def shown (s : HttpSessionStore) (token : Bytes) : Option Entry :=
  ((slots s).lookup token).bind fun p => (s.heap.read p).map entryOf

theorem shown_eq {s : HttpSessionStore} {m : SessionMap} (h : Shows s m) : shown s = m.live := by
  funext t
  rw [shown]
  cases hFound : (slots s).lookup t with
  | none =>
    cases hNow : m.live t with
    | none => rfl
    | some e =>
      obtain ⟨p, hSlot⟩ := h.live t e hNow
      have hMiss := List.lookup_eq_none_iff.mp hFound _ hSlot
      simp at hMiss
  | some p =>
    obtain ⟨l₁, l₂, hSplit, _⟩ := List.lookup_eq_some_iff.mp hFound
    obtain ⟨sesh, hLive⟩ := h.slot t p (by rw [hSplit]; simp)
    rw [Option.bind_some, hLive.read, hLive.live]
    rfl

/-- A run of the store answers as the map does and ends in what the map holds, and
it uses freed memory when the map has no such session. -/
theorem sessions_refine_map (defaultTtl : Int) (calls : List Call) (hTokens : (generated calls).Nodup) :
    (run call (httpSessionStoreInit defaultTtl) calls).map (fun r => (shown r.1, r.2)) =
      (run SessionMap.call (SessionMap.empty defaultTtl) calls).map fun r => (r.1.live, r.2) := by
  have hStart : Before calls (httpSessionStoreInit defaultTtl) (SessionMap.empty defaultTtl) :=
    ⟨shows_init defaultTtl, hTokens⟩
  apply (run_agree (fun c calls s m h => call_agree c calls h) calls _ _ hStart).map_eq
  exact fun s m h => shown_eq h.1

/-- Three sessions; the first is destroyed, the last moves into its slot, and the
sweep removes the one in the middle. -/
def removalRun : List Call :=
  [.create (some (Vector.replicate 20 1)) 0 100, .create (some (Vector.replicate 20 2)) 5 100,
    .create (some (Vector.replicate 20 3)) (-1) 100, .open (newToken (List.replicate 20 3)) 101,
    .set 2 (ascii "user") (ascii "ada"), .destroy (newToken (List.replicate 20 1)), .reap 105,
    .open (newToken (List.replicate 20 2)) 105, .open (newToken (List.replicate 20 3)) 105,
      .value 2 (ascii "user")]

theorem sessions_refine_map_removal :
    (run call (httpSessionStoreInit 60) removalRun).map Prod.snd =
      some [.token (some (newToken (List.replicate 20 1))), .token (some (newToken (List.replicate 20 2))),
        .token (some (newToken (List.replicate 20 3))), .session (some 2), .done, .done, .done, .session none,
        .session (some 2), .value (some (ascii "ada"))] := by
  have hSame := congrArg (Option.map Prod.snd) (sessions_refine_map 60 removalRun (by decide +kernel))
  rw [Option.map_map, Option.map_map] at hSame
  exact hSame.trans (by decide +kernel)

end Cweb.SessionSlots
