import Cweb.Http.H2Translate

/-!
# Field lists that become requests

What a field list must be for a request, beside what the scan of its fields asks
for. Whether a pseudo-header field has been seen is told from the length of its
value, the method is compared without regard to case, and values are not looked
at.
-/

namespace Cweb.H2

open Sv HpackTable

inductive Pseudo where
  | method
  | scheme
  | path
  | authority
deriving DecidableEq, Repr

def Pseudo.text : Pseudo → Bytes
  | .method => ascii ":method"
  | .scheme => ascii ":scheme"
  | .path => ascii ":path"
  | .authority => ascii ":authority"

def connectionSpecific : List Bytes :=
  [ascii "connection", ascii "keep-alive", ascii "proxy-connection", ascii "transfer-encoding",
    ascii "upgrade"]

/-- A value that cannot end a line or a C string. -/
def OneLine (value : Bytes) : Prop := 13 ∉ value ∧ 10 ∉ value ∧ 0 ∉ value

def Given (fields : List Field) (p : Pseudo) : Prop := ∃ e ∈ fields, e.name = p.text ∧ e.value ≠ []

def connectField : Field := ⟨ascii ":method", ascii "CONNECT"⟩

/-- The values that a request is logged, signed or forwarded with. -/
def Carries (e : Field) : Prop := isPseudo e = false ∨ e.name = Pseudo.text .path ∨
    e.name = Pseudo.text .authority

instance (value : Bytes) : Decidable (OneLine value) := inferInstanceAs (Decidable (_ ∧ _ ∧ _))

instance (e : Field) : Decidable (Carries e) := inferInstanceAs (Decidable (_ ∨ _ ∨ _))

structure WellFormed (fields : List Field) : Prop where
  once : fields.Pairwise fun e e' => ∀ p : Pseudo, e.name = p.text → e'.name ≠ p.text
  known : ∀ e ∈ fields, isPseudo e = true → ∃ p : Pseudo, e.name = p.text
  first : fields.Pairwise fun e e' => isPseudo e' = true → isPseudo e = true
  connect : connectField ∈ fields →
    (∃ e ∈ fields, e.name = Pseudo.text .authority) ∧
      ∀ e ∈ fields, e.name ≠ Pseudo.text .scheme ∧ e.name ≠ Pseudo.text .path
  given : connectField ∉ fields → Given fields .method ∧ Given fields .scheme ∧ Given fields .path
  names : ∀ e ∈ fields, isPseudo e = false →
    e.name ≠ [] ∧ (∀ b ∈ e.name, tokenChar b = true) ∧ e.name ∉ connectionSpecific
  clean : ∀ e ∈ fields, Carries e → OneLine e.value

/-- What the scan does not ask for: an empty pseudo-header field is not given again,
`CONNECT` is spelt so and comes without the empty fields it may not have, and no
value has a line in it. -/
structure Plain (fields : List Field) : Prop where
  repeats : fields.Pairwise fun e e' => isPseudo e = true → e.value = [] → e'.name ≠ e.name
  method : ∀ e ∈ fields, e.name = Pseudo.text .method → svIeq e.value (ascii "CONNECT") = true →
    e.value = ascii "CONNECT"
  connect : connectField ∈ fields → ∀ e ∈ fields, e.name = Pseudo.text .scheme ∨
    e.name = Pseudo.text .path → e.value ≠ []
  clean : ∀ e ∈ fields, Carries e → OneLine e.value

/-! ## One field -/

def FieldScan.slot (st : FieldScan) : Pseudo → Bytes
  | .method => st.method
  | .scheme => st.scheme
  | .path => st.path
  | .authority => st.authority

theorem Pseudo.text_inj {p q : Pseudo} (h : p.text = q.text) : p = q := by
  cases p <;> cases q <;> first | rfl | exact absurd h (by decide)

theorem Pseudo.isPseudo_text {e : Field} {p : Pseudo} (h : e.name = p.text) : isPseudo e = true := by
  rw [isPseudo, h]
  cases p <;> decide

theorem tolower_of_tokenChar {b : UInt8} (h : (tokenChar b && !(65 ≤ b && b ≤ 90)) = true) :
    tolower b = b := by
  have hLower := (Bool.and_eq_true _ _ ▸ h).2
  rw [Bool.not_eq_true'] at hLower
  rw [tolower, hLower]
  rfl

theorem map_tolower_of_pseudo {e : Field} (hPseudo : isPseudo e = true)
    (hTokens : (e.name.drop 1).all (fun c => tokenChar c && !(65 ≤ c && c ≤ 90)) = true) :
    e.name.map tolower = e.name := by
  obtain ⟨name, value⟩ := e
  cases name with
  | nil => rfl
  | cons b name =>
    have hColon : b = 58 := by
      rw [isPseudo, List.head?_cons, beq_iff_eq] at hPseudo
      exact Option.some.inj hPseudo
    subst hColon
    rw [List.drop_one, List.tail_cons, List.all_eq_true] at hTokens
    rw [List.map_cons]
    congr 1
    exact (List.map_congr_left fun b hb => tolower_of_tokenChar (hTokens b hb)).trans (List.map_id name)

/-- A pseudo-header field takes the place of its name, which was empty. -/
structure Takes (st st' : FieldScan) (e : Field) (p : Pseudo) : Prop where
  name : e.name = p.text
  before : st.pseudoDone = false
  still : st'.pseudoDone = false
  free : st.slot p = []
  slot : ∀ q, st'.slot q = if q = p then e.value else st.slot q

theorem scanPseudo_takes {st st' : FieldScan} {e : Field} (hPseudo : isPseudo e = true)
    (h : scanPseudo st e = some st') :
    ∃ p, Takes st st' e p := by
  rw [scanPseudo] at h
  split at h
  · cases h
  · rename_i hOpen
    have hOpen := Bool.not_eq_true _ ▸ (not_or.mp hOpen).1
    split at h
    · cases h
    · rename_i hTokens
      have hSame := map_tolower_of_pseudo hPseudo (not_not.mp hTokens)
      have hText : ∀ p : Pseudo, svIeq e.name p.text = true → e.name = p.text := by
        intro p hEq
        rw [← hSame, svIeq_eq hEq]
        cases p <;> decide
      split at h
      · rename_i hName
        obtain rfl := Option.some.inj h
        exact ⟨.method, hText .method hName.1, hOpen, hOpen, hName.2, fun q => by cases q <;> rfl⟩
      · split at h
        · rename_i hName
          obtain rfl := Option.some.inj h
          exact ⟨.scheme, hText .scheme hName.1, hOpen, hOpen, hName.2, fun q => by cases q <;> rfl⟩
        · split at h
          · rename_i hName
            obtain rfl := Option.some.inj h
            exact ⟨.path, hText .path hName.1, hOpen, hOpen, hName.2, fun q => by cases q <;> rfl⟩
          · split at h
            · rename_i hName
              obtain rfl := Option.some.inj h
              exact ⟨.authority, hText .authority hName.1, hOpen, hOpen, hName.2, fun q => by cases q <;> rfl⟩
            · cases h

/-- A regular field ends the pseudo-header fields and leaves what they gave. -/
structure Passes (st st' : FieldScan) (e : Field) : Prop where
  some : e.name ≠ []
  token : ∀ b ∈ e.name, tokenChar b = true
  ordinary : e.name ∉ connectionSpecific
  done : st'.pseudoDone = true
  slot : ∀ q, st'.slot q = st.slot q

theorem connSpecName_of_mem {name : Bytes} (h : name ∈ connectionSpecific) : connSpecName name = true := by
  rw [connSpecName, List.any_eq_true]
  exact ⟨name, h, beq_self_eq_true _⟩

theorem scanRegular_passes {st st' : FieldScan} {e : Field} (h : scanRegular st e = some st') :
    Passes st st' e := by
  rw [scanRegular] at h
  dsimp only at h
  split at h
  · cases h
  · rename_i hName
    obtain ⟨hValid, hOrdinary⟩ := not_or.mp hName
    have hValid : nameValid e.name = true := not_not.mp hValid
    rw [nameValid, Bool.and_eq_true, List.all_eq_true] at hValid
    have hSome : e.name ≠ [] := by
      intro hNil
      rw [hNil] at hValid
      exact absurd hValid.1 (by decide)
    have hPasses : ∀ cl l, Passes st { st with pseudoDone := true, contentLength := cl, fields :=
      l } e := fun cl l =>
      ⟨hSome, fun b hb => (Bool.and_eq_true _ _ ▸ hValid.2 b hb).1,
        fun hMem => hOrdinary (connSpecName_of_mem hMem), rfl,
        fun q => by cases q <;> rfl⟩
    split at h
    · split at h
      · obtain rfl := Option.some.inj h
        exact hPasses _ _
      · cases h
    · split at h
      · split at h
        · cases h
        · split at h
          · cases h
          · split at h
            · cases h
            · obtain rfl := Option.some.inj h
              exact hPasses _ _
      · obtain rfl := Option.some.inj h
        exact hPasses _ _

theorem scanField_cases {st st' : FieldScan} {e : Field} (h : scanField st e = some st') :
    (isPseudo e = true ∧ ∃ p, Takes st st' e p) ∨ isPseudo e = false ∧ Passes st st' e := by
  rw [scanField] at h
  dsimp only at h
  split at h
  · cases h
  · split at h
    · rename_i hPseudo
      have hPseudo : isPseudo e = true := beq_iff_eq.mpr hPseudo
      obtain ⟨p, hTakes⟩ := scanPseudo_takes hPseudo h
      exact .inl ⟨hPseudo, p, hTakes.name, hTakes.before, hTakes.still, by
        have hFree := hTakes.free; cases p <;> exact hFree,
        fun q => by rw [hTakes.slot q]; cases q <;> rfl⟩
    · rename_i hRegular
      have hPasses := scanRegular_passes h
      exact .inr ⟨beq_eq_false_iff_ne.mpr hRegular, hPasses.some, hPasses.token, hPasses.ordinary,
        hPasses.done,
        fun q => by rw [hPasses.slot q]; cases q <;> rfl⟩

/-! ## All fields -/

theorem scan_cons {st st' : FieldScan} {e : Field} {fields : List Field}
    (h : (e :: fields).foldlM scanField st = some st') :
    ∃ st₁, scanField st e = some st₁ ∧ fields.foldlM scanField st₁ = some st' := by
  rw [List.foldlM_cons] at h
  exact Option.bind_eq_some_iff.mp h

theorem scan_known (fields : List Field) : ∀ {st st' : FieldScan}, fields.foldlM scanField st = some st' →
    (∀ e ∈ fields, isPseudo e = true → ∃ p : Pseudo, e.name = p.text) ∧
      ∀ e ∈ fields, isPseudo e = false →
        e.name ≠ [] ∧ (∀ b ∈ e.name, tokenChar b = true) ∧ e.name ∉ connectionSpecific := by
  induction fields with
  | nil => exact fun _ => ⟨fun e he => absurd he List.not_mem_nil, fun e he => absurd he List.not_mem_nil⟩
  | cons e fields ih =>
    intro st st' h
    obtain ⟨st₁, hField, hRest⟩ := scan_cons h
    obtain ⟨hKnown, hNames⟩ := ih hRest
    constructor
    · intro k hk hPseudo
      obtain rfl | hk := List.mem_cons.mp hk
      · obtain ⟨_, p, hTakes⟩ | ⟨hRegular, _⟩ := scanField_cases hField
        · exact ⟨p, hTakes.name⟩
        · rw [hPseudo] at hRegular
          cases hRegular
      · exact hKnown k hk hPseudo
    · intro k hk hRegular
      obtain rfl | hk := List.mem_cons.mp hk
      · obtain ⟨hPseudo, _⟩ | ⟨_, hPasses⟩ := scanField_cases hField
        · rw [hRegular] at hPseudo
          cases hPseudo
        · exact ⟨hPasses.some, hPasses.token, hPasses.ordinary⟩
      · exact hNames k hk hRegular

theorem scan_done (fields : List Field) : ∀ {st st' : FieldScan}, st.pseudoDone = true →
    fields.foldlM scanField st = some st' → ∀ e ∈ fields, isPseudo e = false := by
  induction fields with
  | nil => exact fun _ _ e he => absurd he List.not_mem_nil
  | cons e fields ih =>
    intro st st' hDone h k hk
    obtain ⟨st₁, hField, hRest⟩ := scan_cons h
    obtain ⟨_, p, hTakes⟩ | ⟨hRegular, hPasses⟩ := scanField_cases hField
    · rw [hTakes.before] at hDone
      cases hDone
    · obtain rfl | hk := List.mem_cons.mp hk
      · exact hRegular
      · exact ih hPasses.done hRest k hk

theorem scan_first (fields : List Field) : ∀ {st st' : FieldScan}, fields.foldlM scanField st = some st' →
    fields.Pairwise fun e e' => isPseudo e' = true → isPseudo e = true := by
  induction fields with
  | nil => exact fun _ => List.Pairwise.nil
  | cons e fields ih =>
    intro st st' h
    obtain ⟨st₁, hField, hRest⟩ := scan_cons h
    refine List.Pairwise.cons ?_ (ih hRest)
    intro k hk hPseudo
    obtain ⟨hFirst, _⟩ | ⟨_, hPasses⟩ := scanField_cases hField
    · exact hFirst
    · rw [scan_done fields hPasses.done hRest k hk] at hPseudo
      cases hPseudo

/-- Once a place is taken by a value that is not empty, no field of its name may
follow. -/
theorem scan_taken {p : Pseudo} (fields : List Field) : ∀ {st st' : FieldScan}, st.slot p ≠ [] →
    fields.foldlM scanField st = some st' → st'.slot p = st.slot p ∧ ∀ e ∈ fields, e.name ≠ p.text := by
  induction fields with
  | nil =>
    intro st st' _ h
    obtain rfl := Option.some.inj h
    exact ⟨rfl, fun e he => absurd he List.not_mem_nil⟩
  | cons e fields ih =>
    intro st st' hTaken h
    obtain ⟨st₁, hField, hRest⟩ := scan_cons h
    have hOther : e.name ≠ p.text ∧ st₁.slot p = st.slot p := by
      obtain ⟨_, q, hTakes⟩ | ⟨hRegular, hPasses⟩ := scanField_cases hField
      · have hNe : p ≠ q := by
          rintro rfl
          exact hTaken hTakes.free
        refine ⟨?_, ?_⟩
        · intro hName
          exact hNe (Pseudo.text_inj (hName.symm.trans hTakes.name))
        · rw [hTakes.slot p, if_neg hNe]
      · refine ⟨?_, hPasses.slot p⟩
        intro hName
        rw [Pseudo.isPseudo_text hName] at hRegular
        cases hRegular
    rw [← hOther.2] at hTaken
    obtain ⟨hSlot, hRestNames⟩ := ih hTaken hRest
    refine ⟨hSlot.trans hOther.2, ?_⟩
    intro k hk
    obtain rfl | hk := List.mem_cons.mp hk
    · exact hOther.1
    · exact hRestNames k hk

/-- The field that takes a place leaves its value there, for good unless it is
empty. -/
theorem scan_head {st st' : FieldScan} {e : Field} {fields : List Field} {p : Pseudo}
    (h : (e :: fields).foldlM scanField st = some st') (hName : e.name = p.text) (hValue : e.value ≠ []) :
    st'.slot p = e.value ∧ ∀ k ∈ fields, k.name ≠ p.text := by
  obtain ⟨st₁, hField, hRest⟩ := scan_cons h
  obtain ⟨_, q, hTakes⟩ | ⟨hRegular, _⟩ := scanField_cases hField
  · have hSame : p = q := Pseudo.text_inj (hName.symm.trans hTakes.name)
    have hSlot : st₁.slot p = e.value := by
      rw [hTakes.slot p, if_pos hSame]
    rw [← hSlot] at hValue ⊢
    exact scan_taken fields hValue hRest
  · rw [Pseudo.isPseudo_text hName] at hRegular
    cases hRegular

theorem scan_repeats (fields : List Field) : ∀ {st st' : FieldScan}, fields.foldlM scanField st = some st' →
    fields.Pairwise fun e e' => ∀ p : Pseudo, e.name = p.text → e'.name = p.text → e.value = [] := by
  induction fields with
  | nil => exact fun _ => List.Pairwise.nil
  | cons e fields ih =>
    intro st st' h
    obtain ⟨st₁, hField, hRest⟩ := scan_cons h
    refine List.Pairwise.cons ?_ (ih hRest)
    intro k hk p hName hAgain
    by_contra hValue
    exact (scan_head h hName hValue).2 k hk hAgain

theorem scan_value {p : Pseudo} (fields : List Field) :
    ∀ {st st' : FieldScan}, fields.foldlM scanField st = some st' →
    ∀ e ∈ fields, e.name = p.text → e.value ≠ [] → st'.slot p = e.value := by
  induction fields with
  | nil => exact fun _ e he => absurd he List.not_mem_nil
  | cons e fields ih =>
    intro st st' h k hk hName hValue
    obtain rfl | hk := List.mem_cons.mp hk
    · exact (scan_head h hName hValue).1
    · obtain ⟨st₁, _, hRest⟩ := scan_cons h
      exact ih hRest k hk hName hValue

theorem scan_slot {p : Pseudo} (fields : List Field) :
    ∀ {st st' : FieldScan}, fields.foldlM scanField st = some st' →
    st'.slot p = st.slot p ∨ ∃ e ∈ fields, e.name = p.text ∧ e.value = st'.slot p := by
  induction fields with
  | nil =>
    intro st st' h
    obtain rfl := Option.some.inj h
    exact .inl rfl
  | cons e fields ih =>
    intro st st' h
    obtain ⟨st₁, hField, hRest⟩ := scan_cons h
    obtain hSame | ⟨k, hk, hName, hValue⟩ := ih hRest
    · obtain ⟨_, q, hTakes⟩ | ⟨_, hPasses⟩ := scanField_cases hField
      · rw [hTakes.slot p] at hSame
        split at hSame
        · rename_i hEq
          subst hEq
          exact .inr ⟨e, List.mem_cons_self, hTakes.name, hSame.symm⟩
        · exact .inl hSame
      · exact .inl (hSame.trans (hPasses.slot p))
    · exact .inr ⟨k, List.mem_cons_of_mem _ hk, hName, hValue⟩

/-! ## What is accepted -/

/-- A list that the scan lets through, with the pseudo-header fields as they are
told from the lengths of their values. -/
structure Accepted (fields : List Field) (st : FieldScan) : Prop where
  scan : fields.foldlM scanField scanStart = some st
  pseudo : pseudoOk st = true

variable {fields : List Field} {st : FieldScan}

theorem Accepted.given (h : Accepted fields st) {p : Pseudo} (hSlot : st.slot p ≠ []) :
    ∃ e ∈ fields, e.name = p.text ∧ e.value = st.slot p := by
  obtain hStart | hField := scan_slot fields (p := p) h.scan
  · exact absurd (hStart.trans (by cases p <;> rfl)) hSlot
  · exact hField

theorem Accepted.ofConnect (h : Accepted fields st) (hConnect : svIeq st.method (ascii "CONNECT") = true) :
    st.authority ≠ [] ∧ st.scheme = [] ∧ st.path = [] := by
  have hOk := h.pseudo
  rw [pseudoOk, if_pos hConnect] at hOk
  simpa [and_assoc] using hOk

theorem Accepted.ofOther (h : Accepted fields st) (hConnect : ¬ svIeq st.method (ascii "CONNECT") = true) :
    st.method ≠ [] ∧ st.scheme ≠ [] ∧ st.path ≠ [] := by
  have hOk := h.pseudo
  rw [pseudoOk, if_neg hConnect] at hOk
  simp only [Bool.and_eq_true, Bool.not_eq_true', List.isEmpty_eq_false_iff] at hOk
  exact ⟨hOk.1.1.1, hOk.1.1.2, hOk.1.2⟩

theorem connectField_eq {e : Field} (hName : e.name = Pseudo.text .method)
    (hValue : e.value = ascii "CONNECT") :
    e = connectField := by
  obtain ⟨name, value⟩ := e
  change name = _ at hName
  change value = _ at hValue
  rw [hName, hValue]
  rfl

theorem Accepted.method_of_connectField (h : Accepted fields st) (hConnect : connectField ∈ fields) :
    svIeq st.method (ascii "CONNECT") = true := by
  have hMethod : st.method = ascii "CONNECT" :=
    scan_value (p := .method) fields h.scan connectField hConnect rfl (by decide)
  rw [hMethod]
  decide

theorem WellFormed.plain (h : WellFormed fields) (hAccepted : Accepted fields st) : Plain fields := by
  refine ⟨?_, ?_, ?_, h.clean⟩
  · refine h.once.imp_of_mem ?_
    intro e e' he _ hOnce hPseudo _ hAgain
    obtain ⟨p, hName⟩ := h.known e he hPseudo
    exact hOnce p hName (hAgain.trans hName)
  · intro e he hName hSpelt
    by_contra hOther
    have hValue : e.value ≠ [] := by
      intro hNil
      rw [hNil] at hSpelt
      exact absurd hSpelt (by decide)
    have hMethod : st.method = e.value := scan_value (p := .method) fields hAccepted.scan e he hName hValue
    have hNot : connectField ∉ fields := by
      intro hMem
      have hKept : st.method = ascii "CONNECT" :=
        scan_value (p := .method) fields hAccepted.scan connectField hMem rfl (by decide)
      exact hOther (hMethod.symm.trans hKept)
    obtain ⟨_, _, k, hk, hPath, hFull⟩ := h.given hNot
    have hKept : st.path = k.value := scan_value (p := .path) fields hAccepted.scan k hk hPath hFull
    rw [← hMethod] at hSpelt
    exact hFull (hKept.symm.trans (hAccepted.ofConnect hSpelt).2.2)
  · rintro hConnect e he (hName | hName)
    · exact absurd hName ((h.connect hConnect).2 e he).1
    · exact absurd hName ((h.connect hConnect).2 e he).2

theorem Plain.wellFormed (h : Plain fields) (hAccepted : Accepted fields st) : WellFormed fields := by
  obtain ⟨hKnown, hNames⟩ := scan_known fields hAccepted.scan
  have hGiven : ∀ {p : Pseudo}, st.slot p ≠ [] → Given fields p := by
    intro p hSlot
    obtain ⟨e, he, hName, hValue⟩ := hAccepted.given hSlot
    rw [← hValue] at hSlot
    exact ⟨e, he, hName, hSlot⟩
  refine ⟨?_, hKnown, scan_first fields hAccepted.scan, ?_, ?_, hNames, h.clean⟩
  · refine (h.repeats.and (scan_repeats fields hAccepted.scan)).imp ?_
    rintro e e' ⟨hRepeats, hEmpty⟩ p hName hAgain
    exact hRepeats (Pseudo.isPseudo_text hName) (hEmpty p hName hAgain) (hAgain.trans hName.symm)
  · intro hConnect
    obtain ⟨hAuthority, hScheme, hPath⟩ := hAccepted.ofConnect (hAccepted.method_of_connectField hConnect)
    constructor
    · obtain ⟨e, he, hName, _⟩ := hGiven (p := .authority) hAuthority
      exact ⟨e, he, hName⟩
    · intro e he
      constructor
      · intro hName
        have hValue := h.connect hConnect e he (.inl hName)
        exact hValue ((scan_value (p := .scheme) fields hAccepted.scan e he hName hValue).symm.trans hScheme)
      · intro hName
        have hValue := h.connect hConnect e he (.inr hName)
        exact hValue ((scan_value (p := .path) fields hAccepted.scan e he hName hValue).symm.trans hPath)
  · intro hNot
    by_cases hConnect : svIeq st.method (ascii "CONNECT") = true
    · have hMethod : st.slot .method ≠ [] := by
        intro hNil
        change st.method = [] at hNil
        rw [hNil] at hConnect
        exact absurd hConnect (by decide)
      obtain ⟨e, he, hName, hValue⟩ := hAccepted.given hMethod
      change e.value = st.method at hValue
      rw [← hValue] at hConnect
      exact absurd (connectField_eq hName (h.method e he hName hConnect) ▸ he) hNot
    · obtain ⟨hMethod, hScheme, hPath⟩ := hAccepted.ofOther hConnect
      exact ⟨hGiven (p := .method) hMethod, hGiven (p := .scheme) hScheme, hGiven (p := .path) hPath⟩

/-! ## Blocks -/

theorem accepted_of_request {env : H2Env} {c : H2Conn} {blk : Bytes} {hp : Hpack} {req : HttpRequest}
    (hDecoded : Hpack.hpackDecodeBlock c.hpack blk = (hp, some fields))
    (hReturns : (h2RequestFromBlock env c blk).2 = .request req) : ∃ st, Accepted fields st := by
  rw [h2RequestFromBlock, hDecoded] at hReturns
  dsimp only at hReturns
  split at hReturns
  · cases hReturns
  · rename_i hFields
    rw [requestOfFields] at hFields
    split at hFields
    · cases hFields
    · rename_i st hScan
      split at hFields
      · rename_i hPseudo
        exact ⟨st, hScan, hPseudo⟩
      · cases hFields

/-- A block that becomes a request is well formed exactly when it has none of the
fields that the scan lets through. -/
theorem accepted_wellFormed_iff {env : H2Env} {c : H2Conn} {blk : Bytes} {hp : Hpack} {req : HttpRequest}
    (hDecoded : Hpack.hpackDecodeBlock c.hpack blk = (hp, some fields))
    (hReturns : (h2RequestFromBlock env c blk).2 = .request req) : WellFormed fields ↔ Plain fields := by
  obtain ⟨st, hAccepted⟩ := accepted_of_request hDecoded hReturns
  exact ⟨fun h => h.plain hAccepted, fun h => h.wellFormed hAccepted⟩

/-- The fields as literals that are not indexed. -/
def literalBlock (fields : List Field) : Bytes :=
  fields.flatMap fun e =>
    0 :: UInt8.ofNat e.name.length :: e.name ++ UInt8.ofNat e.value.length :: e.value

theorem literalBlock_request
    (hDecoded : (Hpack.hpackDecodeBlock h2Init.hpack (literalBlock fields)).2 = some fields)
    (hFields : (requestOfFields plainEnv.remote fields).isSome = true) :
    ∃ hp req, Hpack.hpackDecodeBlock h2Init.hpack (literalBlock fields) = (hp, some fields) ∧
      (h2RequestFromBlock plainEnv h2Init (literalBlock fields)).2 = .request req := by
  obtain ⟨req, hReq⟩ := Option.isSome_iff_exists.mp hFields
  have hBlock : Hpack.hpackDecodeBlock h2Init.hpack (literalBlock fields) =
      ((Hpack.hpackDecodeBlock h2Init.hpack (literalBlock fields)).1, some fields) := Prod.ext rfl hDecoded
  refine ⟨_, req, hBlock, ?_⟩
  rw [h2RequestFromBlock, hBlock]
  dsimp only
  rw [hReq]

def plainGet : List Field :=
  [⟨ascii ":method", ascii "GET"⟩, ⟨ascii ":scheme", ascii "http"⟩, ⟨ascii ":path", ascii "/"⟩,
    ⟨ascii "accept", ascii "*/*"⟩]

theorem plainGet_wellFormed :
    ∃ hp req, Hpack.hpackDecodeBlock h2Init.hpack (literalBlock plainGet) = (hp, some plainGet) ∧
    (h2RequestFromBlock plainEnv h2Init (literalBlock plainGet)).2 = .request req ∧ WellFormed plainGet := by
  obtain ⟨hp, req, hDecoded, hReturns⟩ :=
    @literalBlock_request plainGet (by decide +kernel) (by decide +kernel)
  have hPlain : Plain plainGet := by
    constructor <;> decide +kernel
  exact ⟨hp, req, hDecoded, hReturns, (accepted_wellFormed_iff hDecoded hReturns).mpr hPlain⟩

def emptyPathFirst : List Field :=
  [⟨ascii ":method", ascii "GET"⟩, ⟨ascii ":scheme", ascii "http"⟩, ⟨ascii ":path", []⟩,
    ⟨ascii ":path", ascii "/"⟩]

def lowerCaseConnect : List Field := [⟨ascii ":method", ascii "connect"⟩, ⟨ascii ":authority", ascii "a"⟩]

def connectWithScheme : List Field :=
  [⟨ascii ":method", ascii "CONNECT"⟩, ⟨ascii ":scheme", []⟩, ⟨ascii ":authority", ascii "a"⟩]

def lineInValue : List Field :=
  [⟨ascii ":method", ascii "GET"⟩, ⟨ascii ":scheme", ascii "http"⟩, ⟨ascii ":path", ascii "/"⟩,
    ⟨ascii "x", ascii "a\r\nhost: b"⟩]

/-- Its block becomes a request on a new connection. -/
def AcceptedThough (fields : List Field) : Prop :=
  ∃ hp req, Hpack.hpackDecodeBlock h2Init.hpack (literalBlock fields) = (hp, some fields) ∧
    (h2RequestFromBlock plainEnv h2Init (literalBlock fields)).2 = .request req ∧ ¬ WellFormed fields

theorem malformed_accepted : AcceptedThough emptyPathFirst ∧ AcceptedThough lowerCaseConnect ∧
    AcceptedThough connectWithScheme ∧ AcceptedThough lineInValue := by
  have hOf : ∀ fields, (Hpack.hpackDecodeBlock h2Init.hpack (literalBlock fields)).2 = some fields →
      (requestOfFields plainEnv.remote fields).isSome = true → ¬ WellFormed fields →
      AcceptedThough fields := by
    intro fields hDecoded hFields hNot
    obtain ⟨hp, req, hBlock, hReturns⟩ := literalBlock_request hDecoded hFields
    exact ⟨hp, req, hBlock, hReturns, hNot⟩
  refine ⟨hOf _ (by decide +kernel) (by decide +kernel) ?_, hOf _ (by decide +kernel) (by decide +kernel) ?_,
    hOf _ (by decide +kernel) (by decide +kernel) ?_, hOf _ (by decide +kernel) (by decide +kernel) ?_⟩
  · intro h
    have hPaths := (List.pairwise_cons.mp (List.pairwise_cons.mp (List.pairwise_cons.mp h.once).2).2).1
    exact hPaths ⟨ascii ":path", ascii "/"⟩ (List.mem_singleton_self _) .path rfl rfl
  · intro h
    obtain ⟨e, he, hName, _⟩ := (h.given (by decide)).2.1
    exact absurd hName (by revert e; decide)
  · intro h
    have hScheme := ((h.connect (by decide)).2 ⟨ascii ":scheme", []⟩ (by decide)).1
    exact hScheme rfl
  · intro h
    have hClean := h.clean ⟨ascii "x", ascii "a\r\nhost: b"⟩ (by decide) (.inl (by decide))
    exact absurd hClean (by decide)

end Cweb.H2
