import Cweb.Http.Flash
import Cweb.Http.SessionSlots

/-!
# One session store, seen three ways

The store on the heap answers as the store whose slots hold the sessions
themselves does without a database. A session goes by a pointer in the one and
by its token in the other, so the second is given the tokens created so far. A
call on one session writes to the heap what it does to the session alone.
-/

namespace Cweb.SessionSlots

open Sv Db Session SwapRemove Allocations Machine

/-! ## The store that holds its sessions -/

/-- The store with its sessions in the slots, and the tokens created so far. -/
structure Valued where
  world : SessionStore.World
  created : List Bytes

/-- The live session that a pointer stands for, with its token. -/
def Valued.session (x : Valued) (p : Nat) : Option (Bytes × HttpSession) :=
  x.created[p]?.bind fun t => (SessionStore.findToken x.world.store t).bind fun i => x.world.store.slots[i]?

/-- The calls, by tokens. No database is there whose files `io` could be about. -/
def valuedCall (io : FileOutcome) (x : Valued) : Call → Option (Valued × Answer)
  | .create rnd ttl now =>
    let made := SessionStore.httpSessionCreate x.world rnd ttl now io
    some (⟨made.1, x.created ++ made.2.toList⟩, .token made.2)
  | .open token now =>
    let opened := SessionStore.httpSessionOpen x.world token now
    some (⟨opened.1, x.created⟩, .session (opened.2.map fun _ => x.created.idxOf (svFromCstr token)))
  | .set p key value =>
    (x.session p).map fun slot =>
      (⟨SessionStore.httpSessionSet x.world slot.1 key value io, x.created⟩, .done)
  | .value p key => (x.session p).map fun slot => (x, .value (Flash.httpSessionValue slot.2 key))
  | .del p key =>
    (x.session p).map fun slot =>
      (⟨SessionStore.httpSessionDel x.world slot.1 key io, x.created⟩,
        .present (Flash.httpSessionValue slot.2 key).isSome)
  | .destroy token => some (⟨SessionStore.httpSessionDestroy x.world token, x.created⟩, .done)
  | .reap now => some (⟨SessionStore.httpSessionReap x.world now, x.created⟩, .done)

/-- The slot with the session that its pointer leads to. -/
def slotAt (s : HttpSessionStore) (i : Nat) : Option (Bytes × HttpSession) :=
  s.tokens[i]?.bind fun t => (sessionAt s i).map fun found => (t, found.2)

/-- The slots hold the sessions that the pointers lead to. -/
structure Holds (s : HttpSessionStore) (w : SessionStore.HttpSessionStore) : Prop where
  slot : ∀ i, w.slots[i]? = slotAt s i
  ttl : w.defaultTtl = s.defaultTtl
  db : w.db = none

section Slots

variable {s : HttpSessionStore} {m : SessionMap} {w : SessionStore.HttpSessionStore}

theorem slotAt_eq {t : Bytes} {i p : Nat} {sesh : HttpSession} (hToken : s.tokens[i]? = some t)
    (hSession : s.sessions[i]? = some p) (hLive : Live s m t p sesh) : slotAt s i = some (t, sesh) := by
  rw [slotAt, hToken, Option.bind_some, sessionAt_eq hSession hLive]
  rfl

theorem Shows.slot_inj (h : Shows s m) {i j p : Nat} (hi : s.sessions[i]? = some p)
    (hj : s.sessions[j]? = some p) : i = j := by
  have hToken : ∀ k : Nat, s.sessions[k]? = some p → ∃ t : Bytes, s.tokens[k]? = some t ∧
    m.created[p]? = some t := by
    intro k hk
    obtain ⟨hLt, _⟩ := List.getElem?_eq_some_iff.mp hk
    rcases h.slot_cases k with hOut | ⟨t, p', sesh, hAt, hSession, hLive⟩
    · rw [h.parallel] at hOut
      omega
    · obtain rfl := Option.some.inj (hk.symm.trans hSession)
      exact ⟨t, hAt, hLive.created⟩
  obtain ⟨t, hAt, hCreated⟩ := hToken i hi
  obtain ⟨t', hAt', hCreated'⟩ := hToken j hj
  obtain rfl := Option.some.inj (hCreated.symm.trans hCreated')
  obtain ⟨hLt, _⟩ := List.getElem?_eq_some_iff.mp hAt
  exact (List.getElem?_inj hLt h.nodup).mp (hAt.trans hAt'.symm)

theorem Holds.tokens_eq (hw : Holds s w) (h : Shows s m) : w.slots.map Prod.fst = s.tokens := by
  apply List.ext_getElem?
  intro i
  rw [List.getElem?_map, hw.slot]
  rcases h.slot_cases i with hOut | ⟨t, p, sesh, hToken, hSession, hLive⟩
  · rw [slotAt, List.getElem?_eq_none hOut]
    rfl
  · rw [slotAt_eq hToken hSession hLive, hToken]
    rfl

theorem Holds.length_eq (hw : Holds s w) (h : Shows s m) : w.slots.length = s.tokens.length := by
  rw [← hw.tokens_eq h, List.length_map]

theorem Holds.findToken_eq (hw : Holds s w) (h : Shows s m) (token : Bytes) :
    SessionStore.findToken w token = findToken s token := by
  rw [findToken, ← hw.tokens_eq h, List.findIdx?_map]
  rfl

theorem Holds.removeAt (hw : Holds s w) (h : Shows s m) {i : Nat} {t : Bytes} {p : Nat} {sesh : HttpSession}
    (hToken : s.tokens[i]? = some t) (hSession : s.sessions[i]? = some p) (hLive : Live s m t p sesh)
    {s' : HttpSessionStore} (hRemove : removeAt s i = some s') : Holds s' (SessionStore.removeAt w i) := by
  obtain ⟨hi, _⟩ := List.getElem?_eq_some_iff.mp hToken
  have hi' : i < s.sessions.length := h.parallel ▸ hi
  obtain ⟨heap, hFree, _, hSame⟩ := Heap.free_of_read hLive.read
  rw [SessionSlots.removeAt, hSession] at hRemove
  dsimp only at hRemove
  rw [hFree] at hRemove
  obtain rfl := Option.some.inj hRemove
  have hSlot : w.slots[i]? = some (t, sesh) := (hw.slot i).trans (slotAt_eq hToken hSession hLive)
  rw [SessionStore.removeAt, hSlot]
  refine ⟨?_, hw.ttl, by rw [hw.db]; rfl⟩
  intro j
  dsimp only
  rw [swapRemove_getElem? (by rw [hw.length_eq h]; exact hi), slotAt, sessionAt]
  dsimp only
  rw [swapRemove_getElem? hi, swapRemove_getElem? hi', ← h.parallel, hw.length_eq h]
  split
  · rename_i hLt
    have hOther : comesFrom s.tokens.length i j ≠ i := by
      rw [comesFrom]
      split <;> omega
    rw [hw.slot, slotAt, sessionAt]
    cases hPointer : s.sessions[comesFrom s.tokens.length i j]? with
    | none => rfl
    | some p' =>
      have hNe : p' ≠ p := by
        rintro rfl
        exact hOther (h.slot_inj hPointer hSession)
      simp only [Option.bind_some, hSame p' hNe]
  · rfl

theorem Holds.write (hw : Holds s w) (h : Shows s m) {i : Nat} {t : Bytes} {p : Nat} {sesh : HttpSession}
    (hToken : s.tokens[i]? = some t) (hSession : s.sessions[i]? = some p) (hLive : Live s m t p sesh)
    (f : HttpSession → HttpSession) {heap : Heap HttpSession} (hWrite : s.heap.write p (f sesh) = some heap) :
    Holds { s with heap := heap } { w with slots := w.slots.modify i fun slot => (slot.1, f slot.2) } := by
  obtain ⟨heap', hWrite', hNew, hSame⟩ := Heap.write_of_read hLive.read (f sesh)
  obtain rfl := Option.some.inj (hWrite'.symm.trans hWrite)
  refine ⟨?_, hw.ttl, hw.db⟩
  intro j
  dsimp only
  rw [List.getElem?_modify, slotAt, sessionAt]
  dsimp only
  rcases eq_or_ne i j with rfl | hNe
  · rw [hw.slot, slotAt_eq hToken hSession hLive, hToken, hSession, Option.bind_some, Option.bind_some, hNew]
    simp
  · rw [hw.slot, slotAt, sessionAt]
    cases hPointer : s.sessions[j]? with
    | none => simp
    | some p' =>
      have hOther : p' ≠ p := by
        rintro rfl
        exact hNe (h.slot_inj hSession hPointer)
      simp [hSame p' hOther, hNe]

theorem Holds.reapLoop (now : Int) (fuel : Nat) : ∀ {s : HttpSessionStore} {m : SessionMap}
    {w : SessionStore.HttpSessionStore}
    {i : Nat}, Holds s w → Shows s m → s.tokens.length ≤ fuel + i →
      ∀ {s'}, reapLoop now fuel s i = some s' → Holds s' (SessionStore.reapLoop now fuel w i) := by
  induction fuel with
  | zero =>
    intro s m w i hw _ _ s' hReap
    obtain rfl := Option.some.inj hReap
    exact hw
  | succ fuel ih =>
    intro s m w i hw h hFuel s' hReap
    rw [SessionSlots.reapLoop] at hReap
    rw [SessionStore.reapLoop, hw.slot]
    rcases h.slot_cases i with hOut | ⟨t, p, sesh, hToken, hSession, hLive⟩
    · rw [if_pos (h.parallel ▸ hOut)] at hReap
      obtain rfl := Option.some.inj hReap
      rw [slotAt, List.getElem?_eq_none hOut]
      exact hw
    · obtain ⟨hi, _⟩ := List.getElem?_eq_some_iff.mp hToken
      rw [if_neg (by rw [← h.parallel]; omega), sessionAt_eq hSession hLive] at hReap
      rw [slotAt_eq hToken hSession hLive]
      dsimp only at hReap ⊢
      split
      · rename_i hExpired
        rw [if_pos hExpired] at hReap
        obtain ⟨s₁, hRemove, hShows, hTokens⟩ := removeAt_shows h hToken hSession hLive
        rw [hRemove, Option.bind_some] at hReap
        refine ih (hw.removeAt h hToken hSession hLive hRemove) hShows ?_ hReap
        rw [hTokens, swapRemove_length hi]
        omega
      · rename_i hFresh
        rw [if_neg hFresh] at hReap
        exact ih hw h (by omega) hReap

theorem Holds.loadSlot_eq (hw : Holds s w) (token : Bytes) :
    SessionStore.loadSlot w token = (w, SessionStore.findToken w token) := by
  rw [SessionStore.loadSlot, hw.db]
  cases SessionStore.findToken w token with
  | none => rfl
  | some i => rfl

theorem writeThrough_memory {x : SessionStore.World} (h : x.store.db = none) (i : Nat) (io : FileOutcome) :
    SessionStore.writeThrough x i io = x := by
  rw [SessionStore.writeThrough, h]

theorem live_slot (h : Shows s m) {t : Bytes} {p : Nat} {sesh : HttpSession} (hLive : Live s m t p sesh) :
    ∃ i, findToken s t = some i ∧ s.tokens[i]? = some t ∧ s.sessions[i]? = some p := by
  rcases findToken_cases h t with ⟨_, hNone⟩ | ⟨i, p', sesh', hFind, hToken, hSession, hLive'⟩
  · exact nomatch hNone.symm.trans hLive.live
  · obtain rfl := h.pointer_inj hLive.created hLive'.created
    exact ⟨i, hFind, hToken, hSession⟩

theorem updateSlot_holds {x : SessionStore.World} (hw : Holds s x.store) (h : Shows s m) {t : Bytes} {p : Nat}
    {sesh : HttpSession} (hLive : Live s m t p sesh) (f : HttpSession → HttpSession) (io : FileOutcome)
    {heap : Heap HttpSession} (hWrite : s.heap.write p (f sesh) = some heap) :
    Holds { s with heap := heap } (SessionStore.updateSlot x t f io).store := by
  obtain ⟨i, hFind, hToken, hSession⟩ := live_slot h hLive
  rw [SessionStore.updateSlot, svFromCstr_of_not_mem (hLive.isToken h).2, hw.findToken_eq h, hFind]
  dsimp only
  rw [writeThrough_memory]
  · exact hw.write h hToken hSession hLive f hWrite
  · exact hw.db

end Slots

/-! ## Call by call -/

/-- The two stores side by side, with the map that both show. -/
structure Alike (m : SessionMap) (s : HttpSessionStore) (x : Valued) : Prop where
  holds : Holds s x.world.store
  created : x.created = m.created

section Calls

variable {s : HttpSessionStore} {m : SessionMap} {x : Valued}

theorem Alike.session_cases (hx : Alike m s x) (h : Shows s m) (p : Nat) :
    (s.heap.read p = none ∧ x.session p = none) ∨ ∃ t sesh, Live s m t p sesh ∧
      x.session p = some (t, sesh) := by
  rcases SessionSlots.session_cases h p with ⟨hDead, hNone⟩ | ⟨t, sesh, hLive, _⟩
  · refine .inl ⟨hDead, ?_⟩
    rw [Valued.session, hx.created]
    cases hCreated : m.created[p]? with
    | none => rfl
    | some t =>
      rw [SessionMap.session, hCreated, Option.bind_some, Option.map_eq_none_iff] at hNone
      rcases findToken_cases h t with ⟨hFind, _⟩ | ⟨_, _, _, _, _, _, hLive⟩
      · rw [Option.bind_some, hx.holds.findToken_eq h, hFind]
        rfl
      · rw [hLive.live] at hNone
        cases hNone
  · obtain ⟨i, hFind, hToken, hSession⟩ := live_slot h hLive
    refine .inr ⟨t, sesh, hLive, ?_⟩
    rw [Valued.session, hx.created, hLive.created, Option.bind_some, hx.holds.findToken_eq h, hFind,
      Option.bind_some,
      hx.holds.slot, slotAt_eq hToken hSession hLive]

theorem open_alike (hx : Alike m s x) (h : Shows s m) (io : FileOutcome) (text : Bytes) (now : Int) :
    Machine.Agree (Alike m) (call s (.open text now)) (valuedCall io x (.open text now)) := by
  simp only [call, httpSessionOpen, valuedCall, SessionStore.httpSessionOpen, hx.holds.loadSlot_eq,
    hx.holds.findToken_eq h]
  rcases findToken_cases h (svFromCstr text) with ⟨hFind, _⟩ | ⟨i, p, sesh, hFind, hToken, hSession, hLive⟩
  · rw [hFind]
    exact .of_eq rfl rfl ⟨hx.holds, hx.created⟩
  · simp only [hFind, hx.holds.slot, slotAt_eq hToken hSession hLive, sessionAt_eq hSession hLive]
    split
    · obtain ⟨s', hRemove, _, _⟩ := removeAt_shows h hToken hSession hLive
      rw [hRemove]
      exact .of_eq rfl rfl ⟨hx.holds.removeAt h hToken hSession hLive hRemove, hx.created⟩
    · have hNumber : x.created.idxOf (svFromCstr text) = p := by
        obtain ⟨hp, hCreated⟩ := List.getElem?_eq_some_iff.mp hLive.created
        rw [hx.created, ← hCreated]
        exact h.distinct.idxOf_getElem p hp
      rw [Option.map_some, Option.map_some, hNumber]
      exact .of_eq rfl rfl ⟨hx.holds, hx.created⟩

theorem set_alike (hx : Alike m s x) (h : Shows s m) (io : FileOutcome) (p : Nat) (key value : Bytes) :
    Machine.Agree (Alike m) (call s (.set p key value)) (valuedCall io x (.set p key value)) := by
  simp only [call, httpSessionSet, valuedCall]
  rcases hx.session_cases h p with ⟨hDead, hNone⟩ | ⟨t, sesh, hLive, hSome⟩
  · rw [hDead, hNone]
    exact .stuck rfl rfl
  · obtain ⟨heap, hWrite, _, _⟩ := Heap.write_of_read hLive.read (Flash.httpSessionSet sesh key value)
    have hHolds :=
      updateSlot_holds hx.holds h hLive (fun sesh => Flash.httpSessionSet sesh key value) io hWrite
    rw [Flash.httpSessionSet] at hWrite
    rw [hLive.read, hSome, Option.bind_some, hWrite]
    exact .of_eq rfl rfl ⟨hHolds, hx.created⟩

theorem value_alike (hx : Alike m s x) (h : Shows s m) (io : FileOutcome) (p : Nat) (key : Bytes) :
    Machine.Agree (Alike m) (call s (.value p key)) (valuedCall io x (.value p key)) := by
  simp only [call, httpSessionValue, valuedCall]
  rcases hx.session_cases h p with ⟨hDead, hNone⟩ | ⟨t, sesh, hLive, hSome⟩
  · rw [hDead, hNone]
    exact .stuck rfl rfl
  · rw [hLive.read, hSome]
    exact .of_eq rfl rfl hx

theorem del_alike (hx : Alike m s x) (h : Shows s m) (io : FileOutcome) (p : Nat) (key : Bytes) :
    Machine.Agree (Alike m) (call s (.del p key)) (valuedCall io x (.del p key)) := by
  simp only [call, httpSessionDel, valuedCall]
  rcases hx.session_cases h p with ⟨hDead, hNone⟩ | ⟨t, sesh, hLive, hSome⟩
  · rw [hDead, hNone]
    exact .stuck rfl rfl
  · obtain ⟨i, hFind, hToken, hSession⟩ := live_slot h hLive
    rw [hLive.read, hSome, Option.bind_some, Option.map_some, SessionStore.httpSessionDel,
      svFromCstr_of_not_mem (hLive.isToken h).2, hx.holds.findToken_eq h, hFind]
    dsimp only
    rw [hx.holds.slot, slotAt_eq hToken hSession hLive, Option.bind_some, Flash.httpSessionValue]
    cases hValue : strmapGet sesh.data (svFromCstr key) with
    | none => exact .of_eq rfl rfl ⟨hx.holds, hx.created⟩
    | some v =>
      obtain ⟨heap, hWrite, _, _⟩ :=
        Heap.write_of_read hLive.read { sesh with data := strmapDelete sesh.data (svFromCstr key) }
      rw [if_neg (Option.some_ne_none v), if_neg (Option.some_ne_none v), hWrite]
      exact .of_eq rfl rfl ⟨updateSlot_holds hx.holds h hLive _ io hWrite, hx.created⟩

theorem destroy_alike (hx : Alike m s x) (h : Shows s m) (io : FileOutcome) (text : Bytes) :
    Machine.Agree (Alike m) (call s (.destroy text)) (valuedCall io x (.destroy text)) := by
  simp only [call, httpSessionDestroy, valuedCall, SessionStore.httpSessionDestroy, hx.holds.findToken_eq h]
  rcases findToken_cases h (svFromCstr text) with ⟨hFind, _⟩ | ⟨i, p, sesh, hFind, hToken, hSession, hLive⟩
  · rw [hFind]
    exact .of_eq rfl rfl ⟨hx.holds, hx.created⟩
  · obtain ⟨s', hRemove, _, _⟩ := removeAt_shows h hToken hSession hLive
    simp only [hFind, hRemove]
    exact .of_eq rfl rfl ⟨hx.holds.removeAt h hToken hSession hLive hRemove, hx.created⟩

theorem reap_alike (hx : Alike m s x) (h : Shows s m) (io : FileOutcome) (now : Int) :
    Machine.Agree (Alike m) (call s (.reap now)) (valuedCall io x (.reap now)) := by
  simp only [call, httpSessionReap, valuedCall, SessionStore.httpSessionReap, hx.holds.length_eq h,
    h.parallel]
  obtain ⟨s', hReap, _⟩ := reapLoop_shows now s.sessions.length s m 0 h h.parallel.le
    (fun j hj => absurd hj (Nat.not_lt_zero j))
  rw [hReap]
  exact .of_eq rfl rfl ⟨hx.holds.reapLoop now _ h h.parallel.le hReap, hx.created⟩

theorem create_alike (hx : Alike m s x) (h : Shows s m) (io : FileOutcome) (rnd : Vector UInt8 20)
    (ttl now : Int) :
    Machine.Agree (Alike (m.create (SessionStore.newToken rnd.toList) ttl now))
      (call s (.create (some rnd) ttl now))
      (valuedCall io x (.create (some rnd) ttl now)) := by
  simp only [call, httpSessionCreate, valuedCall, SessionStore.httpSessionCreate]
  rw [writeThrough_memory]
  · refine .of_eq rfl rfl ⟨⟨?_, hx.holds.ttl, hx.holds.db⟩, by rw [hx.created]; rfl⟩
    intro i
    dsimp only
    rw [hx.holds.ttl, slotAt, sessionAt]
    dsimp only
    rcases h.slot_cases i with hOut | ⟨t, p, sesh, hToken, hSession, hLive⟩
    · rw [List.getElem?_append_right (by rw [hx.holds.length_eq h]; exact hOut), hx.holds.length_eq h,
        List.getElem?_append_right hOut, List.getElem?_append_right (by rw [← h.parallel]; exact hOut),
        ← h.parallel]
      rcases Nat.eq_zero_or_pos (i - s.tokens.length) with hLast | hBeyond
      · rw [hLast]
        simp only [List.getElem?_cons_zero, Option.bind_some, Heap.read_alloc_self, Option.map_some]
      · rw [List.getElem?_eq_none (by exact hBeyond), List.getElem?_eq_none (by exact hBeyond)]
        rfl
    · obtain ⟨hi, _⟩ := List.getElem?_eq_some_iff.mp hToken
      rw [List.getElem?_append_left (by rw [hx.holds.length_eq h]; exact hi), List.getElem?_append_left hi,
        List.getElem?_append_left (by rw [← h.parallel]; exact hi), hx.holds.slot,
        slotAt_eq hToken hSession hLive, hToken,
        hSession, Option.bind_some, Option.bind_some, Heap.read_alloc hLive.read]
      rfl
  · exact hx.holds.db

/-- The stores in front of the calls to come. -/
def Stand (calls : List Call) (s : HttpSessionStore) (x : Valued) : Prop := ∃ m, Before calls s m ∧
    Alike m s x

theorem call_alike (io : FileOutcome) (c : Call) (calls : List Call) (h : Before (c :: calls) s m)
    (hx : Alike m s x) :
    Machine.Agree (Stand calls) (call s c) (valuedCall io x c) := by
  obtain ⟨hShows, hNodup⟩ := h
  have hKept : generated (c :: calls) = generated calls →
    Machine.Agree (StillShows m.created) (call s c) (m.call c) →
      Machine.Agree (Alike m) (call s c) (valuedCall io x c) →
      Machine.Agree (Stand calls) (call s c) (valuedCall io x c) := by
    intro hSame hShown hAlike
    apply (hShown.join hAlike).imp
    rintro s' x' ⟨m', ⟨hShows', hCreated⟩, hx'⟩
    refine ⟨m', ⟨hShows', ?_⟩, hx'.holds, hx'.created.trans hCreated.symm⟩
    rw [hCreated, ← hSame]
    exact hNodup
  cases c with
  | create rnd ttl now =>
    cases rnd with
    | none => exact .of_eq rfl rfl ⟨m, ⟨hShows, hNodup⟩, hx.holds, (List.append_nil _).trans hx.created⟩
    | some rnd =>
      have hMade : Machine.Agree (fun s' m' => Before calls s' m' ∧
        m' = m.create (SessionStore.newToken rnd.toList) ttl now)
          (call s (.create (some rnd) ttl now)) (m.call (.create (some rnd) ttl now)) := by
        rcases call_agree (.create (some rnd) ttl now) calls ⟨hShows, hNodup⟩ with ⟨hStuck, _⟩ |
          ⟨s', m', a, ha, hb, hBefore⟩
        · cases hStuck
        · cases hb
          exact .of_eq ha rfl ⟨hBefore, rfl⟩
      apply (hMade.join (create_alike hx hShows io rnd ttl now)).imp
      rintro s' x' ⟨_, ⟨hBefore, rfl⟩, hx'⟩
      exact ⟨_, hBefore, hx'⟩
  | «open» text now => exact hKept rfl (open_agree hShows text now) (open_alike hx hShows io text now)
  | set p key value => exact hKept rfl (set_agree hShows p key value) (set_alike hx hShows io p key value)
  | value p key => exact hKept rfl (value_agree hShows p key) (value_alike hx hShows io p key)
  | del p key => exact hKept rfl (del_agree hShows p key) (del_alike hx hShows io p key)
  | destroy text => exact hKept rfl (destroy_agree hShows text) (destroy_alike hx hShows io text)
  | reap now => exact hKept rfl (reap_agree hShows now) (reap_alike hx hShows io now)

end Calls

/-- The store on the heap answers a run as the store that holds its sessions does,
and at the end the slots are the same. -/
theorem stores_agree (defaultTtl : Int) (path : Bytes) (file : Option Bytes) (io : FileOutcome)
    (calls : List Call)
    (hTokens : (generated calls).Nodup) :
    Machine.Agree (fun s x => Holds s x.world.store) (run call (httpSessionStoreInit defaultTtl) calls)
      (run (valuedCall io) ⟨⟨⟨[], defaultTtl, none⟩, path, file⟩, []⟩ calls) := by
  have hStep : ∀ c calls s x, Stand (c :: calls) s x →
    Machine.Agree (Stand calls) (call s c) (valuedCall io x c) := by
    rintro c calls s x ⟨m, hBefore, hx⟩
    exact call_alike io c calls hBefore hx
  have hStart : Alike (SessionMap.empty defaultTtl) (httpSessionStoreInit defaultTtl)
      ⟨⟨⟨[], defaultTtl, none⟩, path, file⟩, []⟩ := ⟨⟨fun _ => rfl, rfl, rfl⟩, rfl⟩
  apply (run_agree hStep calls _ _ ⟨SessionMap.empty defaultTtl, ⟨shows_init defaultTtl, hTokens⟩,
    hStart⟩).imp
  rintro s x ⟨m, _, hx⟩
  exact hx.holds

/-! ## One session -/

/-- The store's `set`, `value` and `del` do to the session behind a pointer what
they do to a session on its own. -/
theorem session_at_store (s : HttpSessionStore) {p : Nat} {sesh : HttpSession}
    (hRead : s.heap.read p = some sesh)
    (hWf : sesh.data.WF) {fuel : Nat} (hFuel : sesh.data.capacity ≤ fuel) (key value : Bytes) :
    (httpSessionSet s p key value =
        (s.heap.write p (Flash.httpSessionSet sesh key value)).map fun heap => { s with heap := heap }) ∧
      httpSessionValue s p key = some (Flash.httpSessionValue sesh key) ∧
      httpSessionDel s p key = (Flash.httpSessionDel true fuel sesh key).bind fun deleted =>
        (s.heap.write p deleted.1).map fun heap => ({ s with heap := heap }, deleted.2) := by
  refine ⟨by rw [httpSessionSet, hRead]; rfl, by rw [httpSessionValue, hRead]; rfl, ?_⟩
  rw [httpSessionDel, hRead, Option.bind_some, Flash.httpSessionDel, strmapDeleteWithin_eq hWf hFuel]
  cases hValue : strmapGet sesh.data (svFromCstr key) with
  | none =>
    rw [if_pos rfl, if_pos (by rfl), Option.bind_some, Heap.write_self hRead]
    rfl
  | some v =>
    rw [if_neg (Option.some_ne_none v), if_neg (by simp)]
    rfl

end Cweb.SessionSlots
