import Cweb.Http.Response
import Cweb.Http.Session
import Cweb.Utils.StrMapRuns

/-!
# Flash messages

A notice is kept in the session under a reserved prefix until a page renders
it. Rendering is one pass over the slots of the session map, after which the
reserved keys are deleted one at a time, each found by a scan from the first
slot. A session pointer may be null, and a session with a store looks whether a
key is there before it deletes it. What the store mirrors is left out.
-/

namespace Cweb.Flash

open Sv Session LinearProbe

def htmlEscapeInto (src : Bytes) : Bytes :=
  src.flatMap fun c =>
    if c = 38 then ascii "&amp;"
    else if c = 60 then ascii "&lt;"
    else if c = 62 then ascii "&gt;"
    else if c = 34 then ascii "&quot;"
    else if c = 39 then ascii "&#39;"
    else [c]

/-! ## Sessions -/

def httpSessionSet (sesh : HttpSession) (key value : Bytes) : HttpSession :=
  { sesh with data := strmapSet sesh.data (svFromCstr key) (svFromCstr value) }

def httpSessionValue (sesh : HttpSession) (key : Bytes) : Option Bytes := strmapGet sesh.data (svFromCstr key)

/-- `stored` tells whether the session belongs to a store. The fuel is that of
the map's loops. -/
def httpSessionDel (stored : Bool) (fuel : Nat) (sesh : HttpSession) (key : Bytes) :
    Option (HttpSession × Bool) :=
  let present := (strmapGet sesh.data (svFromCstr key)).isSome
  if stored && !present then some (sesh, present)
  else (strmapDeleteWithin fuel sesh.data (svFromCstr key)).map fun data =>
    ({ sesh with data := data }, present)

/-! ## Notices -/

def flashPrefix : Bytes := ascii "flash:"

/-- `snprintf` into a buffer of 256 bytes keeps 255 characters. -/
def flashKey (key : Bytes) : Bytes := (flashPrefix ++ svFromCstr key).take 255

def httpFlashSet (sesh : Option HttpSession) (key message : Bytes) : Option HttpSession :=
  sesh.map fun sesh => httpSessionSet sesh (flashKey key) message

/-- The session and the message, `none` altogether when a loop is not over
within the fuel. -/
def httpFlashGet (stored : Bool) (fuel : Nat) (sesh : Option HttpSession) (key : Bytes) :
    Option (Option HttpSession × Option Bytes) :=
  match sesh with
  | none => some (none, none)
  | some sesh =>
    match httpSessionValue sesh (flashKey key) with
    | none => some (some sesh, none)
    | some value => (httpSessionDel stored fuel sesh (flashKey key)).map fun r => (some r.1, some value)

def isFlash (key : Bytes) : Bool := flashPrefix.isPrefixOf key

def httpResponseAddBodyCstr (res : HttpResponse) (text : Bytes) : HttpResponse := res.apply (.addBody text)

/-- One slot of the pass, with the number of messages shown so far. -/
def renderSlot (shown : HttpResponse × Nat) : Option (Bytes × Bytes) → HttpResponse × Nat
  | none => shown
  | some (key, value) =>
    if isFlash key then
      let res := httpResponseAddBodyCstr shown.1 (ascii "<div class=\"flash\">")
      let res := { res with body := res.body ++ htmlEscapeInto value }
      (httpResponseAddBodyCstr res (ascii "</div>\n"), shown.2 + 1)
    else shown

def renderPass (entries : Slots Bytes Bytes) (res : HttpResponse) : HttpResponse × Nat :=
  entries.foldl renderSlot (res, 0)

/-- The first reserved key from the first slot on. -/
def flashHit (entries : Slots Bytes Bytes) : Option Bytes :=
  entries.findSome? fun e => e.bind fun e => if isFlash e.1 then some e.1 else none

def clearOne (stored : Bool) (fuel : Nat) (sesh : HttpSession) (key : Bytes) : Option HttpSession :=
  (httpSessionDel stored fuel sesh key).map Prod.fst

/-- The endless loop that deletes the reserved keys. -/
def drain (stored : Bool) (fuel : Nat) : Nat → HttpSession → Option HttpSession
  | 0, _ => none
  | turns + 1, sesh =>
    match flashHit sesh.data.entries with
    | none => some sesh
    | some hit => (clearOne stored fuel sesh hit).bind (drain stored fuel turns)

def httpFlashRender (stored : Bool) (fuel : Nat) (res : HttpResponse) (sesh : Option HttpSession) :
    Option (HttpResponse × Option HttpSession × Nat) :=
  match sesh with
  | none => some (res, none, 0)
  | some sesh =>
    let shown := renderPass sesh.data.entries res
    if 0 < shown.2 then (drain stored fuel fuel sesh).map fun sesh => (shown.1, some sesh, shown.2)
    else some (shown.1, some sesh, shown.2)

/-! ## What they do -/

def block (message : Bytes) : Bytes := ascii "<div class=\"flash\">" ++ htmlEscapeInto message ++
    ascii "</div>\n"

/-- The notices of a table, in slot order. -/
def notices (entries : Slots Bytes Bytes) : List (Bytes × Bytes) :=
  (entries.filterMap id).filter fun e => isFlash e.1

theorem renderSlot_notice (res : HttpResponse) (n : Nat) {key : Bytes} (value : Bytes)
    (h : isFlash key = true) :
    renderSlot (res, n) (some (key, value)) = ({ res with body := res.body ++ block value }, n + 1) := by
  have hText : res.body ++ block value =
      res.body ++ ascii "<div class=\"flash\">" ++ htmlEscapeInto value ++ ascii "</div>\n" := by
    rw [block]
    simp only [List.append_assoc]
  rw [renderSlot, if_pos h, hText]
  rfl

theorem renderPass_eq (entries : Slots Bytes Bytes) (res : HttpResponse) : renderPass entries res =
    ({ res with body := res.body ++ (notices entries).flatMap fun e => block e.2 },
      (notices entries).length) := by
  have hPass : ∀ (res : HttpResponse) (n : Nat), entries.foldl renderSlot (res, n) =
      ({ res with body := res.body ++ (notices entries).flatMap fun e => block e.2 },
      n + (notices entries).length) := by
    induction entries with
    | nil => simp [notices]
    | cons e entries ih =>
      intro res n
      rw [List.foldl_cons]
      cases e with
      | none => exact ih res n
      | some e =>
        obtain ⟨key, value⟩ := e
        rcases Bool.eq_false_or_eq_true (isFlash key) with hFlash | hOther
        · have hNotices : notices (some (key, value) :: entries) = (key, value) :: notices entries :=
            List.filter_cons_of_pos hFlash
          rw [renderSlot_notice res n value hFlash, ih, hNotices, List.flatMap_cons, List.length_cons]
          dsimp only
          rw [List.append_assoc, Nat.add_assoc, Nat.add_comm 1]
        · have hNotices : notices (some (key, value) :: entries) = notices entries :=
            List.filter_cons_of_neg (Bool.eq_false_iff.mp hOther)
          rw [renderSlot, if_neg (Bool.eq_false_iff.mp hOther), ih, hNotices]
  exact (hPass res 0).trans (by rw [Nat.zero_add])

theorem mem_notices_iff (m : StrMap) (k v : Bytes) : (k, v) ∈ notices m.entries ↔ isFlash k = true ∧
    m.Maps k v := by
  have hPairs : notices m.entries = (pairs m).filter fun e => isFlash e.1 := rfl
  rw [hPairs, List.mem_filter, mem_pairs_iff]
  exact And.comm

theorem notices_keys_nodup {m : StrMap} (h : m.WF) : ((notices m.entries).map Prod.fst).Nodup :=
  (pairs_keys_nodup h).sublist (List.filter_sublist.map Prod.fst)

theorem flashHit_some {m : StrMap} {key : Bytes} (h : flashHit m.entries = some key) :
    isFlash key = true ∧ ∃ value, m.Maps key value := by
  obtain ⟨e, he, hHit⟩ := List.exists_of_findSome?_eq_some h
  obtain ⟨⟨k, v⟩, rfl, hKey⟩ := Option.bind_eq_some_iff.mp hHit
  split at hKey
  · rename_i hFlash
    cases hKey
    exact ⟨hFlash, v, List.getElem?_of_mem he⟩
  · cases hKey

theorem flashHit_none {m : StrMap} (h : flashHit m.entries = none) {k v : Bytes} (hMaps : m.Maps k v) :
    isFlash k = false := by
  obtain ⟨j, hj⟩ := hMaps
  have hSlot := List.findSome?_eq_none_iff.mp h _ (List.mem_of_getElem? hj)
  rw [Option.bind_some] at hSlot
  split at hSlot
  · cases hSlot
  · rename_i hOther
    exact Bool.eq_false_iff.mpr hOther

/-! ## Deleting -/

theorem httpSessionDel_eq (stored : Bool) {fuel : Nat} {sesh : HttpSession} (h : sesh.data.WF)
    (hFuel : sesh.data.capacity ≤ fuel) {key value : Bytes} (hNul : 0 ∉ key)
    (hMaps : sesh.data.Maps key value) :
    httpSessionDel stored fuel sesh key = some ({ sesh with data := strmapDelete sesh.data key }, true) := by
  have hPresent := (strmapGet_eq_some_iff h key value).mpr hMaps
  rw [httpSessionDel, svFromCstr_of_not_mem hNul, hPresent, strmapDeleteWithin_eq h hFuel]
  cases stored <;> rfl

/-- What is left of a session without its notices. -/
structure Drained (sesh sesh' : HttpSession) : Prop where
  expires : sesh'.expires = sesh.expires
  wf : sesh'.data.WF
  get : ∀ k, strmapGet sesh'.data k = if isFlash k then none else strmapGet sesh.data k

theorem drained_self {sesh : HttpSession} (h : sesh.data.WF)
    (hNone : ∀ k v, sesh.data.Maps k v → isFlash k = false) :
    Drained sesh sesh where
  expires := rfl
  wf := h
  get := by
    intro k
    split
    · rename_i hFlash
      apply Option.eq_none_iff_forall_ne_some.mpr
      intro v hv
      rw [hNone k v ((strmapGet_eq_some_iff h k v).mp hv)] at hFlash
      cases hFlash
    · rfl

theorem drain_done (stored : Bool) {sesh : HttpSession} (hHit : flashHit sesh.data.entries = none)
    {turns : Nat}
    (hTurns : 0 < turns) (fuel : Nat) : drain stored fuel turns sesh = some sesh := by
  obtain ⟨turns, rfl⟩ : ∃ t, turns = t + 1 := ⟨turns - 1, by omega⟩
  rw [drain, hHit]

/-- Each turn deletes one reserved key, so the loop ends. -/
theorem drain_spec (stored : Bool) (n : Nat) : ∀ {sesh : HttpSession}, sesh.data.WF → sesh.data.count = n →
    ∃ sesh', Drained sesh sesh' ∧
      ∀ turns fuel, n < turns → sesh.data.capacity ≤ fuel → drain stored fuel turns sesh = some sesh' := by
  induction n with
  | zero =>
    intro sesh h hCount
    have hNone : ∀ k v, ¬ sesh.data.Maps k v := by
      intro k v hMaps
      have hFewer := strmapDelete_count h hMaps
      omega
    have hHit : flashHit sesh.data.entries = none := by
      refine Option.eq_none_iff_forall_ne_some.mpr fun hit hHit => ?_
      obtain ⟨_, value, hMaps⟩ := flashHit_some hHit
      exact hNone hit value hMaps
    exact ⟨sesh, drained_self h fun k v hMaps => absurd hMaps (hNone k v), fun _ fuel hTurns _ =>
      drain_done stored hHit hTurns fuel⟩
  | succ n ih =>
    intro sesh h hCount
    cases hHit : flashHit sesh.data.entries with
    | none =>
      exact ⟨sesh, drained_self h fun k v hMaps => flashHit_none hHit hMaps,
        fun _ fuel hTurns _ => drain_done stored hHit (by omega) fuel⟩
    | some hit =>
      obtain ⟨hFlash, value, hMaps⟩ := flashHit_some hHit
      have hFewer := strmapDelete_count h hMaps
      have hWf := (strmapDelete_spec h hit).1
      have hNul := (h.cstr hit value hMaps).1
      obtain ⟨sesh', hDrained, hRun⟩ := @ih { sesh with data := strmapDelete sesh.data hit } hWf
        (by dsimp only; omega)
      refine ⟨sesh', ⟨hDrained.expires, hDrained.wf, ?_⟩, ?_⟩
      · intro k
        rw [hDrained.get, strmapGet_strmapDelete h]
        rcases eq_or_ne k hit with rfl | hNe
        · rw [if_pos hFlash, if_pos hFlash]
        · rw [Function.update_of_ne hNe]
      · intro turns fuel hTurns hFuel
        obtain ⟨turns, rfl⟩ : ∃ t, turns = t + 1 := ⟨turns - 1, by omega⟩
        rw [drain, hHit]
        dsimp only
        rw [clearOne, httpSessionDel_eq stored h hFuel hNul hMaps, Option.map_some, Option.bind_some]
        apply hRun turns fuel (by omega)
        rwa [strmapDelete_capacity h]

/-- Rendering shows every notice in a block of its own, and leaves the session
without them. -/
theorem httpFlashRender_spec (stored : Bool) (res : HttpResponse) {sesh : HttpSession} (h : sesh.data.WF) :
    ∃ sesh', Drained sesh sesh' ∧ ∃ enough, ∀ fuel ≥ enough, httpFlashRender stored fuel res (some sesh) =
      some ({ res with body := res.body ++ (notices sesh.data.entries).flatMap fun e => block e.2 },
        some sesh',
        (notices sesh.data.entries).length) := by
  rcases Nat.eq_zero_or_pos (notices sesh.data.entries).length with hNone | hSome
  · refine ⟨sesh, drained_self h ?_, 0, ?_⟩
    · intro k v hMaps
      apply Bool.eq_false_iff.mpr
      intro hFlash
      have hMem := (mem_notices_iff sesh.data k v).mpr ⟨hFlash, hMaps⟩
      rw [List.length_eq_zero_iff.mp hNone] at hMem
      cases hMem
    · intro fuel _
      rw [httpFlashRender, renderPass_eq]
      exact if_neg (by dsimp only; omega)
  · obtain ⟨sesh', hDrained, hRun⟩ := drain_spec stored _ h rfl
    refine ⟨sesh', hDrained, max (sesh.data.count + 1) sesh.data.capacity, ?_⟩
    intro fuel hFuel
    obtain ⟨hTurns, hWalks⟩ := max_le_iff.mp hFuel
    rw [httpFlashRender, renderPass_eq]
    dsimp only
    rw [if_pos hSome, hRun fuel fuel hTurns hWalks]
    rfl

/-! ## Reading one -/

theorem flashKey_of_fits {key : Bytes} (hNul : 0 ∉ key) (hFits : flashPrefix.length + key.length < 256) :
    flashKey key = flashPrefix ++ key := by
  rw [flashKey, svFromCstr_of_not_mem hNul]
  apply List.take_of_length_le
  rw [List.length_append]
  omega

theorem not_mem_flashKey {key : Bytes} (hNul : 0 ∉ key) : 0 ∉ flashPrefix ++ key := by
  rw [List.mem_append, not_or]
  exact ⟨by decide, hNul⟩

/-- A key and a message are C strings, and the key fits the buffer behind the prefix. -/
structure Fits (key message : Bytes) : Prop where
  cstr : 0 ∉ key
  messageCstr : 0 ∉ message
  room : flashPrefix.length + key.length < 256

theorem httpFlashSet_spec {sesh : HttpSession} (h : sesh.data.WF) {key message : Bytes}
    (hFits : Fits key message) :
    ∃ sesh', httpFlashSet (some sesh) key message = some sesh' ∧ sesh'.data.WF ∧
      sesh'.expires = sesh.expires ∧
      strmapGet sesh'.data = Function.update (strmapGet sesh.data) (flashPrefix ++ key) (some message) := by
  have hKey := not_mem_flashKey hFits.cstr
  have hSet : httpFlashSet (some sesh) key message =
      some { sesh with data := strmapSet sesh.data (flashPrefix ++ key) message } := by
    rw [httpFlashSet, Option.map_some, flashKey_of_fits hFits.cstr hFits.room, httpSessionSet,
      svFromCstr_of_not_mem hKey, svFromCstr_of_not_mem hFits.messageCstr]
  refine ⟨_, hSet, (strmapSet_spec h hKey message).1, rfl, ?_⟩
  rw [strmapGet_strmapSet h hKey, dupOwn_of_not_mem hFits.messageCstr]

theorem httpFlashGet_spec (stored : Bool) {sesh : HttpSession} (h : sesh.data.WF) {key message : Bytes}
    (hFits : Fits key message) (hGet : strmapGet sesh.data (flashPrefix ++ key) = some message) :
    ∃ sesh',
      (∃ enough, ∀ fuel ≥ enough, httpFlashGet stored fuel (some sesh) key = some
        (some sesh', some message)) ∧
      sesh'.data.WF ∧ sesh'.expires = sesh.expires ∧
      strmapGet sesh'.data = Function.update (strmapGet sesh.data) (flashPrefix ++ key) none := by
  have hKey := not_mem_flashKey hFits.cstr
  have hMaps := (strmapGet_eq_some_iff h _ message).mp hGet
  refine ⟨{ sesh with data := strmapDelete sesh.data (flashPrefix ++ key) }, ⟨sesh.data.capacity, ?_⟩,
    (strmapDelete_spec h _).1, rfl, strmapGet_strmapDelete h _⟩
  intro fuel hFuel
  have hValue : httpSessionValue sesh (flashPrefix ++ key) = some message := by
    rw [httpSessionValue, svFromCstr_of_not_mem hKey, hGet]
  rw [httpFlashGet, flashKey_of_fits hFits.cstr hFits.room, hValue]
  dsimp only
  rw [httpSessionDel_eq stored h hFuel hKey hMaps]
  rfl

/-- A rendering shows each notice of the session once, escaped, and takes the
notices and nothing else from the session; and a notice is read back whatever
other one was queued after it, which stays. -/
theorem flash_read_once (stored : Bool) :
    (∀ (res : HttpResponse) (sesh : HttpSession), sesh.data.WF →
      ∃ (shown : List (Bytes × Bytes)) (sesh' : HttpSession), (shown.map Prod.fst).Nodup ∧
      (∀ k v, (k, v) ∈ shown ↔ isFlash k = true ∧ strmapGet sesh.data k = some v) ∧ Drained sesh sesh' ∧
      ∃ enough, ∀ fuel ≥ enough, httpFlashRender stored fuel res (some sesh) =
        some ({ res with body := res.body ++ shown.flatMap fun e => block e.2 }, some sesh', shown.length)) ∧
    ∀ sesh : HttpSession, sesh.data.WF → ∀ k₁ k₂ m₁ m₂ : Bytes, k₁ ≠ k₂ → Fits k₁ m₁ → Fits k₂ m₂ →
      ∃ sesh' sesh'' enough,
      ∀ fuel ≥ enough, httpFlashGet stored fuel (httpFlashSet (httpFlashSet (some sesh) k₁ m₁) k₂ m₂) k₁ =
          some (some sesh', some m₁) ∧
        httpFlashGet stored fuel (some sesh') k₂ = some (some sesh'', some m₂) := by
  constructor
  · intro res sesh h
    obtain ⟨sesh', hDrained, hRender⟩ := httpFlashRender_spec stored res h
    refine ⟨notices sesh.data.entries, sesh', notices_keys_nodup h, ?_, hDrained, hRender⟩
    intro k v
    rw [mem_notices_iff, strmapGet_eq_some_iff h]
  · intro sesh h k₁ k₂ m₁ m₂ hNe hFits₁ hFits₂
    have hKeys : flashPrefix ++ k₁ ≠ flashPrefix ++ k₂ := fun hEq => hNe (List.append_cancel_left hEq)
    obtain ⟨s₁, hSet₁, hWf₁, _, hGet₁⟩ := httpFlashSet_spec h hFits₁
    obtain ⟨s₂, hSet₂, hWf₂, _, hGet₂⟩ := httpFlashSet_spec hWf₁ hFits₂
    have hFirst : strmapGet s₂.data (flashPrefix ++ k₁) = some m₁ := by
      rw [hGet₂, Function.update_of_ne hKeys, hGet₁, Function.update_self]
    obtain ⟨s₃, ⟨enough₁, hRun₁⟩, hWf₃, _, hGet₃⟩ := httpFlashGet_spec stored hWf₂ hFits₁ hFirst
    have hSecond : strmapGet s₃.data (flashPrefix ++ k₂) = some m₂ := by
      rw [hGet₃, Function.update_of_ne hKeys.symm, hGet₂, Function.update_self]
    obtain ⟨s₄, ⟨enough₂, hRun₂⟩, _⟩ := httpFlashGet_spec stored hWf₃ hFits₂ hSecond
    refine ⟨s₃, s₄, max enough₁ enough₂, ?_⟩
    intro fuel hFuel
    obtain ⟨hFuel₁, hFuel₂⟩ := max_le_iff.mp hFuel
    rw [hSet₁, hSet₂]
    exact ⟨hRun₁ fuel hFuel₁, hRun₂ fuel hFuel₂⟩

theorem fits_ab : Fits (ascii "a") (ascii "<saved>") ∧ Fits (ascii "b") [] := by
  constructor <;> constructor <;> decide

/-- Two notices of a new session: the first is read, the second rendered. -/
theorem flash_read_once_ab : ∃ sesh' sesh'' enough, ∀ fuel ≥ enough,
    httpFlashGet true fuel
      (httpFlashSet (httpFlashSet (some freshSession) (ascii "a") (ascii "<saved>")) (ascii "b") [])
      (ascii "a") = some (some sesh', some (ascii "<saved>")) ∧
    httpFlashGet true fuel (some sesh') (ascii "b") = some (some sesh'', some []) :=
  (flash_read_once true).2 freshSession strmapInit_wf _ _ _ _ (by decide) fits_ab.1 fits_ab.2

end Cweb.Flash
