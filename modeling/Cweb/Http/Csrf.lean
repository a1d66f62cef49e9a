import Cweb.Http.SessionSlots

/-!
# Forms that come from the site itself

A session keeps one secret text. The site's forms carry it, and a form that comes back is
taken for one of them if it has the text. A new text takes the place of the old one.
-/

namespace Cweb.Csrf

open Sv Session Allocations Machine
open SessionStore (newToken newToken_length newToken_nul_free)
open SessionSlots hiding HttpSessionStore call

abbrev Store := SessionSlots.HttpSessionStore

def csrfKey : Bytes := ascii "csrf-token"

def csrfField : Bytes := ascii "csrf_token"

/-! ## The functions -/

/-- `rnd` is what the random source gave, and a NULL is `none`. A use of a session that is
gone has no result. -/
def storeNewToken (s : Store) (sesh : Nat) (rnd : Option (Vector UInt8 20)) : Option (Store × Option Bytes) :=
  match rnd with
  | none => some (s, none)
  | some rnd =>
    (httpSessionSet s sesh csrfKey (newToken rnd.toList)).bind fun s =>
      (httpSessionValue s sesh csrfKey).map fun tok => (s, tok)

def httpCsrfToken (s : Store) (sesh : Option Nat) (rnd : Option (Vector UInt8 20)) :
    Option (Store × Option Bytes) :=
  match sesh with
  | none => some (s, none)
  | some sesh =>
    match httpSessionValue s sesh csrfKey with
    | none => none
    | some none => storeNewToken s sesh rnd
    | some (some kept) => if kept ≠ [] then some (s, some kept) else storeNewToken s sesh rnd

def httpCsrfRotate (s : Store) (sesh : Option Nat) (rnd : Option (Vector UInt8 20)) :
    Option (Store × Option Bytes) :=
  match sesh with
  | none => some (s, none)
  | some sesh => storeNewToken s sesh rnd

/-- What is appended to the page. The text is made in a buffer of 128 bytes. -/
def fieldText (tok : Bytes) : Bytes :=
  (ascii "<input type=\"hidden\" name=\"" ++ csrfField ++ ascii "\" value=\"" ++ tok ++ ascii "\">").take 127

def httpCsrfField (s : Store) (sesh : Option Nat) (rnd : Option (Vector UInt8 20)) : Option (Store × Bytes) :=
  (httpCsrfToken s sesh rnd).map fun r =>
    match r.2 with
    | none => (r.1, [])
    | some tok => (r.1, fieldText tok)

def sentToken (params : Option StrMap) : Option Bytes := params.bind fun params => strmapGet params csrfField

def httpCsrfVerify (s : Store) (params : Option StrMap) (sesh : Option Nat) : Option Bool :=
  match sesh with
  | none => some false
  | some sesh =>
    (httpSessionValue s sesh csrfKey).map fun token =>
      match sentToken params, token with
      | some sent, some token => svFromCstr sent == svFromCstr token
      | _, _ => false

/-! ## Calls of the handlers -/

/-- The calls of this module, and those of the sessions among them. -/
inductive CsrfCall where
  | session (c : Call)
  | token (sesh : Option Nat) (rnd : Option (Vector UInt8 20))
  | rotate (sesh : Option Nat) (rnd : Option (Vector UInt8 20))
  | field (sesh : Option Nat) (rnd : Option (Vector UInt8 20))
  | verify (params : Option StrMap) (sesh : Option Nat)

inductive CsrfAnswer where
  | token (tok : Option Bytes)
  | text (body : Bytes)
  | verified (ok : Bool)
deriving DecidableEq, Repr

/-- A call of the sessions has no answer here. -/
def step (s : Store) : CsrfCall → Option (Store × Option CsrfAnswer)
  | .session c => (SessionSlots.call s c).map fun r => (r.1, none)
  | .token sesh rnd => (httpCsrfToken s sesh rnd).map fun r => (r.1, some (.token r.2))
  | .rotate sesh rnd => (httpCsrfRotate s sesh rnd).map fun r => (r.1, some (.token r.2))
  | .field sesh rnd => (httpCsrfField s sesh rnd).map fun r => (r.1, some (.text r.2))
  | .verify params sesh => (httpCsrfVerify s params sesh).map fun ok => (s, some (.verified ok))

/-! ## What they are for -/

/-- The text that a session's forms have to carry. -/
abbrev Ledger := Nat → Option Bytes

namespace Ledger

/-- A new text, unless there is none to be had. -/
def renew (l : Ledger) (sesh : Nat) : Option (Vector UInt8 20) → Ledger × Option Bytes
  | none => (l, none)
  | some rnd => (Function.update l sesh (some (newToken rnd.toList)), some (newToken rnd.toList))

def token (l : Ledger) (rnd : Option (Vector UInt8 20)) : Option Nat → Ledger × Option Bytes
  | none => (l, none)
  | some sesh =>
    match l sesh with
    | some tok => (l, some tok)
    | none => l.renew sesh rnd

def rotate (l : Ledger) (rnd : Option (Vector UInt8 20)) : Option Nat → Ledger × Option Bytes
  | none => (l, none)
  | some sesh => l.renew sesh rnd

/-- A form is taken if it carries the text of its session. -/
def verify (l : Ledger) (params : Option StrMap) (sesh : Option Nat) : Bool :=
  match sesh.bind l with
  | none => false
  | some tok => (sentToken params).any fun sent => svFromCstr sent == tok

def call (l : Ledger) : CsrfCall → Ledger × Option CsrfAnswer
  | .session _ => (l, none)
  | .token sesh rnd => ((l.token rnd sesh).1, some (.token (l.token rnd sesh).2))
  | .rotate sesh rnd => ((l.rotate rnd sesh).1, some (.token (l.rotate rnd sesh).2))
  | .field sesh rnd => ((l.token rnd sesh).1, some (.text (((l.token rnd sesh).2.map fun tok =>
      ascii "<input type=\"hidden\" name=\"csrf_token\" value=\"" ++ tok ++ ascii "\">").getD [])))
  | .verify params sesh => (l, some (.verified (l.verify params sesh)))

def calls (l : Ledger) : List CsrfCall → Ledger × List (Option CsrfAnswer)
  | [] => (l, [])
  | c :: cs => ((calls (l.call c).1 cs).1, (l.call c).2 :: (calls (l.call c).1 cs).2)

end Ledger

/-! ## One call -/

def Spares : CsrfCall → Prop
  | .session (.set _ key _) => svFromCstr key ≠ csrfKey
  | .session (.del _ key) => svFromCstr key ≠ csrfKey
  | _ => True

instance spares_decidable : DecidablePred Spares
  | .session (.set _ key _) => inferInstanceAs (Decidable (svFromCstr key ≠ csrfKey))
  | .session (.del _ key) => inferInstanceAs (Decidable (svFromCstr key ≠ csrfKey))
  | .session (.create _ _ _) => inferInstanceAs (Decidable True)
  | .session (.open _ _) => inferInstanceAs (Decidable True)
  | .session (.value _ _) => inferInstanceAs (Decidable True)
  | .session (.destroy _) => inferInstanceAs (Decidable True)
  | .session (.reap _) => inferInstanceAs (Decidable True)
  | .token _ _ => inferInstanceAs (Decidable True)
  | .rotate _ _ => inferInstanceAs (Decidable True)
  | .field _ _ => inferInstanceAs (Decidable True)
  | .verify _ _ => inferInstanceAs (Decidable True)

/-- Each session that is there has the text of the ledger. -/
structure Kept (s : Store) (l : Ledger) : Prop where
  wf : ∀ p sesh, s.heap.read p = some sesh → sesh.data.WF
  text : ∀ p sesh, s.heap.read p = some sesh → strmapGet sesh.data csrfKey = l p
  new : ∀ p, s.heap.cells.length ≤ p → l p = none
  minted : ∀ p tok, l p = some tok → tok.length = 40 ∧ 0 ∉ tok

/-- Sessions are gone, and nothing else has happened. -/
structure Fewer (s s' : Store) : Prop where
  read : ∀ p sesh, s'.heap.read p = some sesh → s.heap.read p = some sesh
  length : s'.heap.cells.length = s.heap.cells.length

theorem Kept.fewer {s s' : Store} {l : Ledger} (h : Kept s l) (hFewer : Fewer s s') : Kept s' l := by
  refine ⟨fun p sesh hRead => h.wf p sesh (hFewer.read p sesh hRead), fun p sesh hRead =>
    h.text p sesh (hFewer.read p sesh hRead), ?_, h.minted⟩
  rw [hFewer.length]
  exact h.new

theorem Fewer.trans {s s' s'' : Store} (h : Fewer s s') (h' : Fewer s' s'') : Fewer s s'' :=
  ⟨fun p sesh hRead => h.read p sesh (h'.read p sesh hRead), h'.length.trans h.length⟩

theorem fewer_removeAt {s s' : Store} {i : Nat} (h : removeAt s i = some s') : Fewer s s' := by
  rw [removeAt] at h
  split at h
  · cases h
  · next p hSlot =>
    obtain ⟨heap, hFree, rfl⟩ := Option.map_eq_some_iff.mp h
    refine ⟨fun q sesh hRead => ?_, Heap.length_of_free hFree⟩
    cases hOld : s.heap.read p with
    | none =>
      rw [Heap.free, hOld] at hFree
      cases hFree
    | some old =>
      obtain ⟨heap', hFree', hGone, hSame⟩ := Heap.free_of_read hOld
      rw [hFree] at hFree'
      cases hFree'
      rcases eq_or_ne q p with rfl | hNe
      · rw [hGone] at hRead
        cases hRead
      · rwa [← hSame q hNe]

theorem fewer_reapLoop (now : Int) (fuel : Nat) : ∀ {s s' : Store}
    {i : Nat}, reapLoop now fuel s i = some s' → Fewer s s' := by
  induction fuel with
  | zero =>
    intro s s' i h
    cases h
    exact ⟨fun _ _ => id, rfl⟩
  | succ fuel ih =>
    intro s s' i h
    rw [reapLoop] at h
    split at h
    · cases h
      exact ⟨fun _ _ => id, rfl⟩
    · split at h
      · cases h
      · split at h
        · obtain ⟨s₁, hRemove, hRest⟩ := Option.bind_eq_some_iff.mp h
          exact (fewer_removeAt hRemove).trans (ih hRest)
        · exact ih h

theorem Kept.write {s : Store} {l : Ledger} (h : Kept s l) {p : Nat} {old sesh : HttpSession}
    (hOld : s.heap.read p = some old)
    {heap : Heap HttpSession} (hWrite : s.heap.write p sesh = some heap) (hWf : sesh.data.WF) {l' : Ledger}
    (hText : strmapGet sesh.data csrfKey = l' p) (hSame : ∀ q, q ≠ p → l' q = l q)
    (hMinted : ∀ tok, l' p = some tok → tok.length = 40 ∧ 0 ∉ tok) : Kept { s with heap := heap } l' := by
  obtain ⟨heap', hWrite', hNew, hOthers⟩ := Heap.write_of_read hOld sesh
  rw [hWrite] at hWrite'
  cases hWrite'
  refine ⟨?_, ?_, ?_, ?_⟩
  · intro q sesh' hRead
    rcases eq_or_ne q p with rfl | hNe
    · rw [hNew] at hRead
      cases hRead
      exact hWf
    · exact h.wf q sesh' ((hOthers q hNe).symm.trans hRead)
  · intro q sesh' hRead
    rcases eq_or_ne q p with rfl | hNe
    · rw [hNew] at hRead
      cases hRead
      exact hText
    · rw [hSame q hNe]
      exact h.text q sesh' ((hOthers q hNe).symm.trans hRead)
  · intro q hq
    rw [Heap.length_of_write hWrite] at hq
    rw [hSame q (Nat.ne_of_gt ((Heap.lt_of_read hOld).trans_le hq))]
    exact h.new q hq
  · intro q tok hTok
    rcases eq_or_ne q p with rfl | hNe
    · exact hMinted tok hTok
    · rw [hSame q hNe] at hTok
      exact h.minted q tok hTok

theorem Kept.set {s s' : Store} {l : Ledger} (h : Kept s l) {p : Nat} {key value : Bytes}
    (hKey : svFromCstr key ≠ csrfKey)
    (hSet : httpSessionSet s p key value = some s') : Kept s' l := by
  obtain ⟨old, hOld, hRest⟩ := Option.bind_eq_some_iff.mp hSet
  obtain ⟨heap, hWrite, rfl⟩ := Option.map_eq_some_iff.mp hRest
  have hWf := h.wf p old hOld
  refine h.write hOld hWrite (strmapSet_spec hWf (not_mem_svFromCstr key) _).1 ?_ (fun _ _ => rfl)
    (h.minted p)
  dsimp only
  rw [strmapGet_strmapSet hWf (not_mem_svFromCstr key), Function.update_of_ne hKey.symm]
  exact h.text p old hOld

theorem Kept.del {s s' : Store} {l : Ledger} (h : Kept s l) {p : Nat} {key : Bytes} {present : Bool}
    (hKey : svFromCstr key ≠ csrfKey) (hDel : httpSessionDel s p key = some (s', present)) : Kept s' l := by
  obtain ⟨old, hOld, hRest⟩ := Option.bind_eq_some_iff.mp hDel
  split at hRest
  · cases hRest
    exact h
  · obtain ⟨heap, hWrite, hEq⟩ := Option.map_eq_some_iff.mp hRest
    cases hEq
    have hWf := h.wf p old hOld
    refine h.write hOld hWrite (strmapDelete_spec hWf _).1 ?_ (fun _ _ => rfl) (h.minted p)
    dsimp only
    rw [strmapGet_strmapDelete hWf, Function.update_of_ne hKey.symm]
    exact h.text p old hOld

theorem Kept.create {s : Store} {l : Ledger} (h : Kept s l) (rnd : Option (Vector UInt8 20)) (ttl now : Int) :
    Kept (httpSessionCreate s rnd ttl now).1 l := by
  cases rnd with
  | none => exact h
  | some rnd =>
    rw [httpSessionCreate]
    generalize hSesh : (⟨strmapInit, _⟩ : HttpSession) = sesh
    have hOld : ∀ q sesh', (s.heap.alloc sesh).1.read q = some sesh' →
        (q = s.heap.cells.length ∧ sesh' = sesh) ∨ s.heap.read q = some sesh' := by
      intro q sesh' hRead
      rcases eq_or_ne q (s.heap.alloc sesh).2 with rfl | hNe
      · rw [Heap.read_alloc_self] at hRead
        cases hRead
        exact .inl ⟨rfl, rfl⟩
      · rw [Heap.read_alloc_of_ne s.heap sesh hNe] at hRead
        exact .inr hRead
    refine ⟨?_, ?_, ?_, h.minted⟩
    · intro q sesh' hRead
      rcases hOld q sesh' hRead with ⟨_, rfl⟩ | hRead
      · rw [← hSesh]
        exact strmapInit_wf
      · exact h.wf q sesh' hRead
    · intro q sesh' hRead
      rcases hOld q sesh' hRead with ⟨rfl, rfl⟩ | hRead
      · rw [h.new _ le_rfl, ← hSesh]
        rfl
      · exact h.text q sesh' hRead
    · intro q hq
      have hLength : (s.heap.cells ++ [some sesh]).length ≤ q := hq
      rw [List.length_append] at hLength
      exact h.new q (by omega)

theorem Kept.session {s s' : Store} {l : Ledger} (h : Kept s l) {c : Call} {a : Answer}
    (hSpares : Spares (.session c))
    (hCall : SessionSlots.call s c = some (s', a)) : Kept s' l := by
  cases c with
  | create rnd ttl now =>
    cases hCall
    exact h.create rnd ttl now
  | «open» token now =>
    obtain ⟨⟨s₁, p⟩, hOpen, hEq⟩ := Option.map_eq_some_iff.mp hCall
    cases hEq
    rw [httpSessionOpen] at hOpen
    split at hOpen
    · cases hOpen
      exact h
    · split at hOpen
      · cases hOpen
      · split at hOpen
        · obtain ⟨s₂, hRemove, hEq⟩ := Option.map_eq_some_iff.mp hOpen
          cases hEq
          exact h.fewer (fewer_removeAt hRemove)
        · cases hOpen
          exact h
  | set p key value =>
    obtain ⟨s₁, hSet, hEq⟩ := Option.map_eq_some_iff.mp hCall
    cases hEq
    exact h.set hSpares hSet
  | value p key =>
    obtain ⟨v, _, hEq⟩ := Option.map_eq_some_iff.mp hCall
    cases hEq
    exact h
  | del p key =>
    obtain ⟨⟨s₁, present⟩, hDel, hEq⟩ := Option.map_eq_some_iff.mp hCall
    cases hEq
    exact h.del hSpares hDel
  | destroy token =>
    obtain ⟨s₁, hDestroy, hEq⟩ := Option.map_eq_some_iff.mp hCall
    cases hEq
    rw [httpSessionDestroy] at hDestroy
    split at hDestroy
    · cases hDestroy
      exact h
    · exact h.fewer (fewer_removeAt hDestroy)
  | reap now =>
    obtain ⟨s₁, hReap, hEq⟩ := Option.map_eq_some_iff.mp hCall
    cases hEq
    exact h.fewer (fewer_reapLoop now _ hReap)

theorem svFromCstr_csrfKey : svFromCstr csrfKey = csrfKey := by decide

theorem value_eq {s : Store} {l : Ledger} (h : Kept s l) {p : Nat} {v : Option Bytes}
    (hValue : httpSessionValue s p csrfKey = some v) : v = l p := by
  obtain ⟨sesh, hRead, rfl⟩ := Option.map_eq_some_iff.mp hValue
  rw [svFromCstr_csrfKey]
  exact h.text p sesh hRead

theorem Kept.renew {s : Store} {l : Ledger} (h : Kept s l) {p : Nat} {rnd : Option (Vector UInt8 20)}
    {r : Store × Option Bytes}
    (hNew : storeNewToken s p rnd = some r) : Kept r.1 (l.renew p rnd).1 ∧ r.2 = (l.renew p rnd).2 := by
  cases rnd with
  | none =>
    cases hNew
    exact ⟨h, rfl⟩
  | some rnd =>
    obtain ⟨s₁, hSet, hRest⟩ := Option.bind_eq_some_iff.mp hNew
    obtain ⟨v, hValue, rfl⟩ := Option.map_eq_some_iff.mp hRest
    obtain ⟨old, hOld, hRest⟩ := Option.bind_eq_some_iff.mp hSet
    obtain ⟨heap, hWrite, rfl⟩ := Option.map_eq_some_iff.mp hRest
    have hWf := h.wf p old hOld
    have hFree : 0 ∉ newToken rnd.toList := newToken_nul_free _
    have hKept : Kept { s with heap := heap } (l.renew p (some rnd)).1 := by
      refine h.write hOld hWrite (strmapSet_spec hWf (not_mem_svFromCstr csrfKey) _).1 ?_ ?_ ?_
      · dsimp only [Ledger.renew]
        rw [strmapGet_strmapSet hWf (not_mem_svFromCstr csrfKey), svFromCstr_csrfKey, Function.update_self,
          Function.update_self, svFromCstr_of_not_mem hFree, dupOwn_of_not_mem hFree]
      · intro q hNe
        exact Function.update_of_ne hNe _ _
      · intro tok hTok
        dsimp only [Ledger.renew] at hTok
        rw [Function.update_self] at hTok
        cases hTok
        exact ⟨by rw [newToken_length, Vector.length_toList], hFree⟩
    refine ⟨hKept, ?_⟩
    rw [value_eq hKept hValue]
    exact Function.update_self p (some (newToken rnd.toList)) l

theorem Kept.token {s : Store} {l : Ledger} (h : Kept s l) {sesh : Option Nat}
    {rnd : Option (Vector UInt8 20)}
    {r : Store × Option Bytes} (hToken : httpCsrfToken s sesh rnd = some r) :
    Kept r.1 (l.token rnd sesh).1 ∧ r.2 = (l.token rnd sesh).2 := by
  cases sesh with
  | none =>
    cases hToken
    exact ⟨h, rfl⟩
  | some p =>
    rw [httpCsrfToken] at hToken
    split at hToken
    · cases hToken
    · next hValue =>
      have hNone : l p = none := (value_eq h hValue).symm
      rw [Ledger.token]
      rw [hNone]
      exact h.renew hToken
    · next kept hValue =>
      have hSome : l p = some kept := (value_eq h hValue).symm
      -- a text of the ledger is never empty
      have hFull : kept ≠ [] := by
        rintro rfl
        exact absurd (h.minted p [] hSome).1 (by decide)
      rw [if_pos hFull] at hToken
      cases hToken
      rw [Ledger.token]
      dsimp only
      rw [hSome]
      exact ⟨h, rfl⟩

theorem Kept.rotate {s : Store} {l : Ledger} (h : Kept s l) {sesh : Option Nat}
    {rnd : Option (Vector UInt8 20)}
    {r : Store × Option Bytes} (hRotate : httpCsrfRotate s sesh rnd = some r) :
    Kept r.1 (l.rotate rnd sesh).1 ∧ r.2 = (l.rotate rnd sesh).2 := by
  cases sesh with
  | none =>
    cases hRotate
    exact ⟨h, rfl⟩
  | some p => exact h.renew hRotate

theorem minted_token {s : Store} {l : Ledger} (h : Kept s l) (rnd : Option (Vector UInt8 20))
    (sesh : Option Nat) {tok : Bytes}
    (hTok : (l.token rnd sesh).2 = some tok) : tok.length = 40 := by
  cases sesh with
  | none => cases hTok
  | some p =>
    rw [Ledger.token] at hTok
    split at hTok
    · next kept hSome =>
      cases hTok
      exact (h.minted p tok hSome).1
    · cases rnd with
      | none => cases hTok
      | some rnd =>
        cases hTok
        rw [newToken_length, Vector.length_toList]

theorem fieldText_eq {tok : Bytes} (h : tok.length = 40) :
    fieldText tok = ascii "<input type=\"hidden\" name=\"csrf_token\" value=\"" ++ tok ++ ascii "\">" := by
  have hHead : ascii "<input type=\"hidden\" name=\"" ++ csrfField ++ ascii "\" value=\"" =
      ascii "<input type=\"hidden\" name=\"csrf_token\" value=\"" := by decide
  have hLength : (ascii "<input type=\"hidden\" name=\"csrf_token\" value=\"").length = 46 := by decide
  have hLast : (ascii "\">").length = 2 := by decide
  rw [fieldText, hHead, List.take_of_length_le]
  rw [List.length_append, List.length_append, hLength, hLast, h]
  decide

theorem verify_eq {s : Store} {l : Ledger} (h : Kept s l) {params : Option StrMap} {sesh : Option Nat}
    {ok : Bool}
    (hVerify : httpCsrfVerify s params sesh = some ok) : ok = l.verify params sesh := by
  cases sesh with
  | none =>
    cases hVerify
    rfl
  | some p =>
    obtain ⟨v, hValue, rfl⟩ := Option.map_eq_some_iff.mp hVerify
    rw [value_eq h hValue, Ledger.verify, Option.bind_some]
    cases hText : l p with
    | none =>
      cases sentToken params with
      | none => rfl
      | some sent => rfl
    | some tok =>
      cases sentToken params with
      | none => rfl
      | some sent =>
        dsimp only
        rw [svFromCstr_of_not_mem (h.minted p tok hText).2]
        rfl

theorem Kept.call {s s' : Store} {l : Ledger} (h : Kept s l) {c : CsrfCall} {a : Option CsrfAnswer}
    (hSpares : Spares c)
    (hStep : step s c = some (s', a)) : Kept s' (l.call c).1 ∧ a = (l.call c).2 := by
  cases c with
  | session c =>
    obtain ⟨⟨s₁, b⟩, hCall, hEq⟩ := Option.map_eq_some_iff.mp hStep
    cases hEq
    exact ⟨h.session hSpares hCall, rfl⟩
  | token sesh rnd =>
    obtain ⟨r, hToken, hEq⟩ := Option.map_eq_some_iff.mp hStep
    cases hEq
    obtain ⟨hKept, hSame⟩ := h.token hToken
    exact ⟨hKept, by rw [hSame]; rfl⟩
  | rotate sesh rnd =>
    obtain ⟨r, hRotate, hEq⟩ := Option.map_eq_some_iff.mp hStep
    cases hEq
    obtain ⟨hKept, hSame⟩ := h.rotate hRotate
    exact ⟨hKept, by rw [hSame]; rfl⟩
  | field sesh rnd =>
    obtain ⟨r, hField, hEq⟩ := Option.map_eq_some_iff.mp hStep
    cases hEq
    obtain ⟨r', hToken, rfl⟩ := Option.map_eq_some_iff.mp hField
    obtain ⟨hKept, hSame⟩ := h.token hToken
    rw [Ledger.call]
    dsimp only
    rw [← hSame]
    cases hTok : r'.2 with
    | none => exact ⟨hKept, rfl⟩
    | some tok =>
      refine ⟨hKept, ?_⟩
      dsimp only
      rw [fieldText_eq (minted_token h rnd sesh (hSame.symm.trans hTok))]
      rfl
  | verify params sesh =>
    obtain ⟨ok, hVerify, hEq⟩ := Option.map_eq_some_iff.mp hStep
    cases hEq
    exact ⟨h, by rw [verify_eq h hVerify]; rfl⟩

/-! ## Runs -/

theorem kept_init (defaultTtl : Int) : Kept (httpSessionStoreInit defaultTtl) fun _ => none where
  wf _ _ h := nomatch h
  text _ _ h := nomatch h
  new _ _ := rfl
  minted _ _ h := nomatch h

theorem Kept.run {cs : List CsrfCall} : ∀ {s s' : Store} {l : Ledger}
    {replies : List (Option CsrfAnswer)}, Kept s l →
    (∀ c ∈ cs, Spares c) → run step s cs = some (s', replies) →
    Kept s' (l.calls cs).1 ∧ replies = (l.calls cs).2 := by
  induction cs with
  | nil =>
    intro s s' l replies h _ hRun
    cases hRun
    exact ⟨h, rfl⟩
  | cons c cs ih =>
    intro s s' l replies h hSpares hRun
    obtain ⟨⟨s₁, a⟩, hStep, hRest⟩ := Option.bind_eq_some_iff.mp hRun
    obtain ⟨⟨s₂, as⟩, hTail, hEq⟩ := Option.map_eq_some_iff.mp hRest
    cases hEq
    obtain ⟨hKept, hHead⟩ := h.call (hSpares c List.mem_cons_self) hStep
    obtain ⟨hEnd, hSame⟩ := ih hKept (fun c' hMem => hSpares c' (List.mem_cons_of_mem c hMem)) hTail
    refine ⟨hEnd, ?_⟩
    rw [Ledger.calls, ← hHead, ← hSame]

/-- Whatever the handlers call, and in whatever order, the calls answer as the ledger does. A
session that is gone, and a session that the application has, are all the same to it. -/
theorem csrf_refines_ledger (defaultTtl : Int) {cs : List CsrfCall} (hSpares : ∀ c ∈ cs, Spares c) {s : Store}
    {replies : List (Option CsrfAnswer)}
    (hRun : run step (httpSessionStoreInit defaultTtl) cs = some (s, replies)) :
    replies = (Ledger.calls (fun _ => none) cs).2 :=
  ((kept_init defaultTtl).run hSpares hRun).2

/-! ## A text and its session -/

/-- The text that the random source would give to a call. -/
def drawn : CsrfCall → Option Bytes
  | .token _ rnd => rnd.map fun rnd => newToken rnd.toList
  | .rotate _ rnd => rnd.map fun rnd => newToken rnd.toList
  | .field _ rnd => rnd.map fun rnd => newToken rnd.toList
  | _ => none

theorem drawn_cons (c : CsrfCall) (cs : List CsrfCall) :
    (c :: cs).filterMap drawn = (drawn c).toList ++ cs.filterMap drawn := by
  cases hDrawn : drawn c with
  | none => exact List.filterMap_cons_none hDrawn
  | some tok => exact List.filterMap_cons_some hDrawn

/-- The call gives session `p` a new text. -/
def Rotates (p : Nat) : CsrfCall → Prop
  | .rotate (some q) (some _) => q = p
  | _ => False

/-- No two sessions have the same text, and the texts are among those made so far. -/
structure Told (l : Ledger) (seen : List Bytes) : Prop where
  seen : ∀ p tok, l p = some tok → tok ∈ seen
  apart : ∀ p q tok, l p = some tok → l q = some tok → p = q

theorem Told.renew {l : Ledger} {seen : List Bytes} (h : Told l seen) (p : Nat) {rnd : Vector UInt8 20}
    (hFresh : newToken rnd.toList ∉ seen) :
    Told (l.renew p (some rnd)).1 (seen ++ [newToken rnd.toList]) := by
  have hCases : ∀ q tok, (l.renew p (some rnd)).1 q = some tok →
      (q = p ∧ tok = newToken rnd.toList) ∨ (q ≠ p ∧ l q = some tok) := by
    intro q tok hTok
    dsimp only [Ledger.renew] at hTok
    rcases eq_or_ne q p with rfl | hNe
    · rw [Function.update_self] at hTok
      cases hTok
      exact .inl ⟨rfl, rfl⟩
    · rw [Function.update_of_ne hNe] at hTok
      exact .inr ⟨hNe, hTok⟩
  constructor
  · intro q tok hTok
    rcases hCases q tok hTok with ⟨_, rfl⟩ | ⟨_, hOld⟩
    · exact List.mem_append_right _ (List.mem_singleton_self _)
    · exact List.mem_append_left _ (h.seen q tok hOld)
  · intro q q' tok hTok hTok'
    rcases hCases q tok hTok with ⟨rfl, rfl⟩ | ⟨_, hOld⟩ <;> rcases hCases q' _ hTok' with ⟨rfl, hEq⟩ |
      ⟨_, hOld'⟩
    · rfl
    · exact absurd (h.seen q' _ hOld') hFresh
    · exact absurd (hEq ▸ h.seen q tok hOld) hFresh
    · exact h.apart q q' tok hOld hOld'

theorem Told.mono {l : Ledger} {seen : List Bytes} (h : Told l seen) (more : List Bytes) :
    Told l (seen ++ more) :=
  ⟨fun p tok hTok => List.mem_append_left _ (h.seen p tok hTok), h.apart⟩

theorem Told.token {l : Ledger} {seen : List Bytes} (h : Told l seen) (sesh : Option Nat)
    (rnd : Option (Vector UInt8 20))
    (hFresh : ∀ tok, rnd.map (fun rnd => newToken rnd.toList) = some tok → tok ∉ seen) :
    Told (l.token rnd sesh).1 (seen ++ (rnd.map fun rnd => newToken rnd.toList).toList) := by
  cases sesh with
  | none => exact h.mono _
  | some p =>
    rw [Ledger.token]
    split
    · exact h.mono _
    · cases rnd with
      | none => exact h.mono _
      | some rnd => exact h.renew p (hFresh _ rfl)

theorem Told.call {l : Ledger} {seen : List Bytes} (h : Told l seen) {c : CsrfCall}
    (hFresh : ∀ tok, drawn c = some tok → tok ∉ seen) : Told (l.call c).1 (seen ++ (drawn c).toList) := by
  cases c with
  | session c => exact h.mono _
  | token sesh rnd => exact h.token sesh rnd hFresh
  | rotate sesh rnd =>
    cases sesh with
    | none => exact h.mono _
    | some p =>
      cases rnd with
      | none => exact h.mono _
      | some rnd => exact h.renew p (hFresh _ rfl)
  | field sesh rnd => exact h.token sesh rnd hFresh
  | verify params sesh => exact h.mono _

theorem Told.calls {cs : List CsrfCall} : ∀ {l : Ledger} {seen : List Bytes}, Told l seen →
    (seen ++ cs.filterMap drawn).Nodup →
    Told (l.calls cs).1 (seen ++ cs.filterMap drawn) := by
  induction cs with
  | nil =>
    intro l seen h _
    exact h.mono []
  | cons c cs ih =>
    intro l seen h hNodup
    rw [drawn_cons, ← List.append_assoc] at hNodup ⊢
    refine ih (h.call ?_) hNodup
    intro tok hDrawn hSeen
    rw [hDrawn] at hNodup
    exact (List.nodup_append.mp (List.nodup_append.mp hNodup).1).2.2 tok hSeen tok
      (List.mem_singleton_self tok) rfl

theorem Ledger.call_keeps (l : Ledger) {c : CsrfCall} {tok : Bytes} (hOther : drawn c ≠ some tok) (q : Nat) :
    (l.call c).1 q = some tok ↔ l q = some tok ∧ ¬ Rotates q c := by
  have hRenew : ∀ (p : Nat) (rnd : Vector UInt8 20), newToken rnd.toList ≠ tok →
      ((l.renew p (some rnd)).1 q = some tok ↔ l q = some tok ∧ q ≠ p) := by
    intro p rnd hNe
    dsimp only [Ledger.renew]
    rcases eq_or_ne q p with rfl | hq
    · rw [Function.update_self]
      simp [hNe]
    · rw [Function.update_of_ne hq]
      simp [hq]
  have hToken : ∀ (sesh : Option Nat) (rnd : Option (Vector UInt8 20)),
      rnd.map (fun rnd => newToken rnd.toList) ≠ some tok → ((l.token rnd sesh).1 q = some tok ↔
      l q = some tok) := by
    intro sesh rnd hNe
    cases sesh with
    | none => rfl
    | some p =>
      rw [Ledger.token]
      split
      · rfl
      · next hNone =>
        cases rnd with
        | none => rfl
        | some rnd =>
          rw [hRenew p rnd fun hEq => hNe (congrArg some hEq)]
          refine and_iff_left_of_imp ?_
          rintro hTok rfl
          rw [hNone] at hTok
          cases hTok
  cases c with
  | session c => exact (and_iff_left not_false).symm
  | token sesh rnd => exact (hToken sesh rnd hOther).trans (and_iff_left not_false).symm
  | rotate sesh rnd =>
    cases sesh with
    | none => exact (and_iff_left not_false).symm
    | some p =>
      cases rnd with
      | none => exact (and_iff_left not_false).symm
      | some rnd =>
        exact (hRenew p rnd fun hEq => hOther (congrArg some hEq)).trans (and_congr_right fun _ => ne_comm)
  | field sesh rnd => exact (hToken sesh rnd hOther).trans (and_iff_left not_false).symm
  | verify params sesh => exact (and_iff_left not_false).symm

theorem Ledger.calls_keep {cs : List CsrfCall} {tok : Bytes} (q : Nat) :
    ∀ (l : Ledger), tok ∉ cs.filterMap drawn →
    ((l.calls cs).1 q = some tok ↔ l q = some tok ∧ ∀ c ∈ cs, ¬ Rotates q c) := by
  induction cs with
  | nil =>
    intro l _
    simp [Ledger.calls]
  | cons c cs ih =>
    intro l hOther
    have hMiss : ∀ c' ∈ c :: cs, drawn c' ≠ some tok := fun c' hMem hDrawn =>
      hOther (List.mem_filterMap.mpr ⟨c', hMem, hDrawn⟩)
    have hRest : tok ∉ cs.filterMap drawn := by
      intro hMem
      obtain ⟨c', hIn, hDrawn⟩ := List.mem_filterMap.mp hMem
      exact hMiss c' (List.mem_cons_of_mem c hIn) hDrawn
    rw [Ledger.calls]
    dsimp only
    rw [ih (l.call c).1 hRest, l.call_keeps (hMiss c List.mem_cons_self) q, List.forall_mem_cons, and_assoc]

theorem Ledger.renew_text {l : Ledger} {p : Nat} {rnd : Option (Vector UInt8 20)} {tok : Bytes}
    (hTok : (l.renew p rnd).2 = some tok) : (l.renew p rnd).1 p = some tok := by
  cases rnd with
  | none => cases hTok
  | some rnd =>
    rw [← hTok]
    exact Function.update_self p (some (newToken rnd.toList)) l

theorem Ledger.token_text {l : Ledger} {p : Nat} {rnd : Option (Vector UInt8 20)} {tok : Bytes}
    (hTok : (l.token rnd (some p)).2 = some tok) : (l.token rnd (some p)).1 p = some tok := by
  rw [Ledger.token] at hTok ⊢
  split at hTok
  · next kept hSome =>
    cases hTok
    exact hSome
  · exact Ledger.renew_text hTok

theorem Ledger.verify_iff {l : Ledger} {params : Option StrMap} {sesh : Option Nat} {tok : Bytes}
    (hSent : sentToken params = some tok) (hFree : 0 ∉ tok) : l.verify params sesh = true ↔
      ∃ p, sesh = some p ∧ l p = some tok := by
  cases sesh with
  | none => simp [Ledger.verify]
  | some p =>
    rw [Ledger.verify, Option.bind_some, hSent]
    cases hText : l p with
    | none => simp [hText]
    | some kept =>
      dsimp only
      rw [Option.any_some, svFromCstr_of_not_mem hFree, beq_iff_eq]
      constructor
      · rintro rfl
        exact ⟨p, rfl, hText⟩
      · rintro ⟨q, hq, hHas⟩
        cases hq
        exact Option.some.inj (hHas.symm.trans hText)

/-- The calls that give session `p` the text, with their answers. -/
inductive Gives (p : Nat) (rnd : Option (Vector UInt8 20)) (tok : Bytes) : CsrfCall → CsrfAnswer → Prop where
  | token : Gives p rnd tok (.token (some p) rnd) (.token (some tok))
  | rotate : Gives p rnd tok (.rotate (some p) rnd) (.token (some tok))
  | field : Gives p rnd tok (.field (some p) rnd)
    (.text (ascii "<input type=\"hidden\" name=\"csrf_token\" value=\"" ++ tok ++ ascii "\">"))

theorem Ledger.given {l : Ledger} {p : Nat} {rnd : Option (Vector UInt8 20)} {tok : Bytes}
    {asked : CsrfCall} {answer : CsrfAnswer}
    (hGives : Gives p rnd tok asked answer) (hAnswer : some answer = (l.call asked).2) :
    (l.call asked).1 p = some tok := by
  cases hGives with
  | token => exact Ledger.token_text (CsrfAnswer.token.inj (Option.some.inj hAnswer)).symm
  | rotate => exact Ledger.renew_text (CsrfAnswer.token.inj (Option.some.inj hAnswer)).symm
  | field =>
    refine Ledger.token_text ?_
    have hBody := CsrfAnswer.text.inj (Option.some.inj hAnswer)
    cases hTok : (l.token rnd (some p)).2 with
    | none =>
      rw [hTok] at hBody
      exact absurd (congrArg List.length hBody) (by simp [ascii])
    | some kept =>
      rw [hTok, Option.map_some, Option.getD_some] at hBody
      rw [List.append_cancel_left (List.append_cancel_right hBody)]

/-- A text that session `p` was given, as it is or in a field, opens that session's forms, and
no other session's, until `p` gets another. -/
theorem text_until_rotated (defaultTtl : Int) {before after : List CsrfCall} {asked : CsrfCall}
    {answer : CsrfAnswer} {p : Nat}
    {rnd : Option (Vector UInt8 20)} {tok : Bytes} (hGives : Gives p rnd tok asked answer)
    (hSpares : ∀ c ∈ before ++ asked :: after, Spares c)
    (hFresh : ((before ++ asked :: after).filterMap drawn).Nodup)
    {s s₁ s₂ : Store} {replies replies' : List (Option CsrfAnswer)} {params : Option StrMap}
    {sesh : Option Nat} {ok : Bool}
    (hBefore : run step (httpSessionStoreInit defaultTtl) before = some (s, replies))
    (hGiven : step s asked = some (s₁, some answer)) (hAfter : run step s₁ after = some (s₂, replies'))
    (hSent : sentToken params = some tok) (hVerify : httpCsrfVerify s₂ params sesh = some ok) :
    ok = true ↔ sesh = some p ∧ ∀ c ∈ after, ¬ Rotates p c := by
  obtain ⟨hSparesBefore, hSparesAsked, hSparesAfter⟩ :=
    List.forall_mem_append.mp hSpares |>.imp id List.forall_mem_cons.mp
  obtain ⟨hKept, _⟩ := (kept_init defaultTtl).run hSparesBefore hBefore
  generalize hLedger : (Ledger.calls (fun _ => none) before).1 = l at hKept
  obtain ⟨hKept₁, hSame⟩ := hKept.call hSparesAsked hGiven
  obtain ⟨hKept₂, _⟩ := hKept₁.run hSparesAfter hAfter
  -- the sessions have different texts when `asked` has been answered
  rw [List.filterMap_append, drawn_cons, ← List.append_assoc] at hFresh
  obtain ⟨hSoFar, _, hLater⟩ := List.nodup_append.mp hFresh
  have hTold : Told l (before.filterMap drawn) := by
    have hStart : Told (fun _ => none) [] := ⟨fun _ _ h => (nomatch h), fun _ _ _ h => (nomatch h)⟩
    rw [← hLedger]
    exact hStart.calls (List.nodup_append.mp hSoFar).1
  have hTold₁ : Told (l.call asked).1 (before.filterMap drawn ++ (drawn asked).toList) := by
    refine hTold.call fun new hDrawn hMem => ?_
    refine (List.nodup_append.mp hSoFar).2.2 new hMem new ?_ rfl
    rw [hDrawn]
    exact List.mem_singleton_self new
  have hText : (l.call asked).1 p = some tok := Ledger.given hGives hSame
  have hOther : tok ∉ after.filterMap drawn := fun hMem => hLater tok (hTold₁.seen p tok hText) tok hMem rfl
  rw [verify_eq hKept₂ hVerify, Ledger.verify_iff hSent (hKept₁.minted p tok hText).2]
  constructor
  · rintro ⟨q, rfl, hHas⟩
    obtain ⟨hHad, hNone⟩ := (Ledger.calls_keep q _ hOther).mp hHas
    obtain rfl := hTold₁.apart q p tok hHad hText
    exact ⟨rfl, hNone⟩
  · rintro ⟨rfl, hNone⟩
    exact ⟨p, rfl, (Ledger.calls_keep p _ hOther).mpr ⟨hText, hNone⟩⟩

/-- Two visitors. The second one's text is made first, and made anew at the end. -/
def visits : List CsrfCall :=
  [.session (.create (some (Vector.replicate 20 1)) 0 100),
    .session (.create (some (Vector.replicate 20 2)) 0 100),
    .field (some 1) (some (Vector.replicate 20 3))]

def visited : List CsrfCall :=
  [.token (some 0) (some (Vector.replicate 20 5)), .verify none (some 0),
    .session (.set 0 (ascii "user") (ascii "ada")),
    .rotate (some 1) (some (Vector.replicate 20 6))]

def sentForm : StrMap := strmapSet strmapInit csrfField (newToken (List.replicate 20 4))

/-- The store and the answers after the calls, from a store. -/
def ended (s : Store) (cs : List CsrfCall) : Store × List (Option CsrfAnswer) := (run step s cs).getD (s, [])

def afterVisits : Store := (ended (httpSessionStoreInit 60) visits).1

def afterToken : Store := (ended afterVisits [.token (some 0) (some (Vector.replicate 20 4))]).1

/-- The first one's text is made, sent in, made anew and sent in again, and the session of the
second one is destroyed. -/
def closing : List CsrfCall :=
  [.token (some 0) (some (Vector.replicate 20 4)), .verify (some sentForm) (some 0),
    .session (.set 0 (ascii "user") (ascii "ada")),
    .rotate (some 0) (some (Vector.replicate 20 6)), .verify (some sentForm) (some 0),
    .session (.destroy (newToken (List.replicate 20 2)))]

theorem csrf_refines_ledger_visits :
    [none, none, some (.text (fieldText (newToken (List.replicate 20 3)))),
      some (.token (some (newToken (List.replicate 20 4)))),
      some (.verified true), none, some (.token (some (newToken (List.replicate 20 6)))),
        some (.verified false), none] =
        (Ledger.calls (fun _ => none) (visits ++ closing)).2 :=
  @csrf_refines_ledger 60 (visits ++ closing) (by decide +kernel)
    (ended (httpSessionStoreInit 60) (visits ++ closing)).1 _ (by decide +kernel)

/-- The text is still good, although there was another to be had and the other session has a new one. -/
theorem text_until_rotated_visits : true = true ↔ some 0 = some 0 ∧ ∀ c ∈ visited, ¬ Rotates 0 c :=
  @text_until_rotated 60 visits visited (.token (some 0) (some (Vector.replicate 20 4))) _ 0
    (some (Vector.replicate 20 4))
    (newToken (List.replicate 20 4)) .token (by decide +kernel)
      (by decide +kernel) afterVisits afterToken (ended afterToken visited).1
    (ended (httpSessionStoreInit 60) visits).2 (ended afterToken visited).2 (some sentForm) (some 0) true
    (by decide +kernel) (by decide +kernel) (by decide +kernel) (by decide +kernel) (by decide +kernel)

end Cweb.Csrf
