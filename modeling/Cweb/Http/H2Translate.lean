import Cweb.Http.H2Serve

/-!
# What a request is made of

The headers a field list stands for, said without the storage the slots point
into: the regular fields in order, the cookies in one field, and the authority
as the host. The request agrees with them unless several cookies are merged
under a name that is not stored.
-/

namespace Cweb.H2

open Sv HpackTable

def isPseudo (e : Field) : Bool := e.name.head? == some 58

/-- The regular fields, without `te`. -/
def regularFields (fields : List Field) : List Field :=
  fields.filter fun e => !isPseudo e && !svIeq e.name (ascii "te")

/-- The value of a pseudo-header field, empty when there is none. -/
def pseudoValue (name : Bytes) : List Field → Bytes
  | [] => []
  | e :: fields => if isPseudo e && svIeq e.name name && !e.value.isEmpty then e.value
    else pseudoValue name fields

def headerOf (e : Field) : HttpHeader := ⟨e.name, e.value⟩

def joinCookies : List Field → Bytes
  | [] => []
  | e :: fields => e.value ++ fields.flatMap fun k => ascii "; " ++ k.value

/-- One field named `cookie` in the place of the first cookie. -/
def withCookiesMerged : List Field → List HttpHeader
  | [] => []
  | e :: fields =>
    if isCookie e then
      ⟨ascii "cookie", joinCookies (e :: fields.filter isCookie)⟩ ::
        (fields.filter fun k => !isCookie k).map headerOf
    else headerOf e :: withCookiesMerged fields

def translatedHeaders (fields : List Field) : List HttpHeader :=
  withCookiesMerged (regularFields fields) ++
    (if !(pseudoValue (ascii ":authority") fields).isEmpty &&
        !((regularFields fields).any fun e => svIeq e.name (ascii "host")) then
      [⟨ascii "host", pseudoValue (ascii ":authority") fields⟩]
    else [])

/-- At most one cookie, or a first one whose value begins with the name. -/
def CookieNameKept (fields : List Field) : Prop :=
  (regularFields fields).countP isCookie ≤ 1 ∨
    ∃ e, (regularFields fields).find? isCookie = some e ∧ ascii "cookie" <+: e.value

/-! ## Scanning -/

theorem svIeq_eq {a b : Bytes} (h : svIeq a b = true) : a.map tolower = b.map tolower := beq_iff_eq.mp h

theorem map_tolower_of_valid {name : Bytes} (h : nameValid name = true) : name.map tolower = name := by
  rw [nameValid, Bool.and_eq_true, List.all_eq_true] at h
  calc
    name.map tolower = name.map id := by
      refine List.map_congr_left ?_
      intro b hb
      have hLower := (Bool.and_eq_true _ _ ▸ h.2 b hb).2
      rw [Bool.not_eq_true'] at hLower
      rw [tolower, hLower]
      rfl
    _ = name := List.map_id name

theorem name_of_isCookie {e : Field} (hValid : nameValid e.name = true) (h : isCookie e = true) :
    e.name = ascii "cookie" := by
  have hEq := svIeq_eq h
  rw [map_tolower_of_valid hValid] at hEq
  exact hEq.trans (by decide)

theorem svIeq_other {name a b : Bytes} (h : svIeq name a = true) (hNe : a.map tolower ≠ b.map tolower) :
    svIeq name b = false := by
  rw [← Bool.not_eq_true]
  intro hOther
  exact hNe ((svIeq_eq h).symm.trans (svIeq_eq hOther))

/-- What one field adds. -/
structure Scanned (st st' : FieldScan) (e : Field) : Prop where
  fields : st'.fields = st.fields ++ regularFields [e]
  valid : ∀ k ∈ regularFields [e], nameValid k.name = true
  path : st'.path = if isPseudo e && svIeq e.name (ascii ":path") then e.value else st.path
  pathNew : isPseudo e && svIeq e.name (ascii ":path") → st.path = []
  authority : st'.authority = if isPseudo e && svIeq e.name (ascii ":authority") then e.value
    else st.authority
  authorityNew : isPseudo e && svIeq e.name (ascii ":authority") → st.authority = []

theorem scanPseudo_scanned {st st' : FieldScan} {e : Field} (hPseudo : isPseudo e = true)
    (h : scanPseudo st e = some st') : Scanned st st' e := by
  have hFields : regularFields [e] = [] := by simp [regularFields, hPseudo]
  have hMethodPath : (ascii ":method").map tolower ≠ (ascii ":path").map tolower := by decide
  have hMethodAuth : (ascii ":method").map tolower ≠ (ascii ":authority").map tolower := by decide
  have hSchemePath : (ascii ":scheme").map tolower ≠ (ascii ":path").map tolower := by decide
  have hSchemeAuth : (ascii ":scheme").map tolower ≠ (ascii ":authority").map tolower := by decide
  have hPathAuth : (ascii ":path").map tolower ≠ (ascii ":authority").map tolower := by decide
  rw [scanPseudo] at h
  split at h
  · cases h
  · split at h
    · cases h
    · split at h
      · rename_i hName
        obtain rfl := Option.some.inj h
        constructor <;> simp [hFields, svIeq_other hName.1 hMethodPath, svIeq_other hName.1 hMethodAuth]
      · split at h
        · rename_i hName
          obtain rfl := Option.some.inj h
          constructor <;> simp [hFields, svIeq_other hName.1 hSchemePath, svIeq_other hName.1 hSchemeAuth]
        · split at h
          · rename_i hName
            obtain rfl := Option.some.inj h
            constructor <;> simp [hFields, hPseudo, hName.1, hName.2, svIeq_other hName.1 hPathAuth]
          · split at h
            · rename_i hName
              obtain rfl := Option.some.inj h
              constructor <;> simp [hFields, hPseudo, hName.1, hName.2, svIeq_other hName.1 hPathAuth.symm]
            · cases h

theorem scanRegular_scanned {st st' : FieldScan} {e : Field} (hRegular : isPseudo e = false)
    (h : scanRegular st e = some st') : Scanned st st' e := by
  rw [scanRegular] at h
  dsimp only at h
  split at h
  · cases h
  · rename_i hName
    have hValid : nameValid e.name = true := not_not.mp (not_or.mp hName).1
    split at h
    · rename_i hTe
      split at h
      · obtain rfl := Option.some.inj h
        constructor <;> simp [regularFields, hRegular, hTe]
      · cases h
    · rename_i hTe
      have hAdds : ∀ cl, Scanned st { st with pseudoDone := true, contentLength := cl, fields :=
        st.fields ++ [e] } e := by
        intro cl
        constructor <;> simp [regularFields, hRegular, hTe, hValid]
      split at h
      · split at h
        · cases h
        · split at h
          · cases h
          · split at h
            · cases h
            · obtain rfl := Option.some.inj h
              exact hAdds _
      · obtain rfl := Option.some.inj h
        exact hAdds _

theorem scanField_scanned {st st' : FieldScan} {e : Field} (h : scanField st e = some st') :
    Scanned st st' e := by
  have hForget : ∀ {n : Nat}, Scanned { st with listBytes := n } st' e → Scanned st st' e :=
    fun h => ⟨h.fields, h.valid, h.path, h.pathNew, h.authority, h.authorityNew⟩
  rw [scanField] at h
  dsimp only at h
  split at h
  · cases h
  · split at h
    · rename_i hPseudo
      exact hForget (scanPseudo_scanned (beq_iff_eq.mpr hPseudo) h)
    · rename_i hRegular
      exact hForget (scanRegular_scanned (beq_eq_false_iff_ne.mpr hRegular) h)

theorem regularFields_cons (e : Field) (fields : List Field) :
    regularFields (e :: fields) = regularFields [e] ++ regularFields fields := by
  rw [regularFields, regularFields, regularFields, ← List.filter_append]
  rfl

theorem pseudoValue_cons {name old : Bytes} {e : Field} (fields : List Field)
    (hNew : isPseudo e && svIeq e.name name → old = []) :
    (if (if isPseudo e && svIeq e.name name then e.value else old) = [] then pseudoValue name fields
      else if isPseudo e && svIeq e.name name then e.value else old) =
      if old = [] then pseudoValue name (e :: fields) else old := by
  rw [pseudoValue]
  cases hName : isPseudo e && svIeq e.name name with
  | false => simp
  | true =>
    have hOld := hNew hName
    subst hOld
    by_cases hValue : e.value = [] <;> simp [hValue]

theorem scan_scanned (fields : List Field) : ∀ {st st' : FieldScan}, fields.foldlM scanField st = some st' →
    st'.fields = st.fields ++ regularFields fields ∧ (∀ k ∈ regularFields fields, nameValid k.name = true) ∧
      st'.path = (if st.path = [] then pseudoValue (ascii ":path") fields else st.path) ∧
      st'.authority = if st.authority = [] then pseudoValue (ascii ":authority") fields
        else st.authority := by
  induction fields with
  | nil =>
    intro st st' h
    obtain rfl := Option.some.inj h
    refine ⟨(List.append_nil _).symm, fun k hk => absurd hk List.not_mem_nil, ?_, ?_⟩
    · split
      · assumption
      · rfl
    · split
      · assumption
      · rfl
  | cons e fields ih =>
    intro st st' h
    rw [List.foldlM_cons] at h
    obtain ⟨st₁, hField, hRest⟩ := Option.bind_eq_some_iff.mp h
    have hOne := scanField_scanned hField
    obtain ⟨hFields, hValid, hPath, hAuthority⟩ := ih hRest
    refine ⟨?_, ?_, ?_, ?_⟩
    · rw [hFields, hOne.fields, regularFields_cons e fields, List.append_assoc]
    · intro k hk
      rw [regularFields_cons] at hk
      obtain hk | hk := List.mem_append.mp hk
      · exact hOne.valid k hk
      · exact hValid k hk
    · rw [hPath, hOne.path]
      exact pseudoValue_cons fields hOne.pathNew
    · rw [hAuthority, hOne.authority]
      exact pseudoValue_cons fields hOne.authorityNew

/-! ## Staging -/

/-- Slots of fields stored one behind the other from `off` on. -/
def slotsFrom (off : Nat) : List Field → List Slot
  | [] => []
  | e :: fields =>
    ⟨off, e.name.length, off + e.name.length, e.value.length⟩ ::
      slotsFrom (off + e.name.length + e.value.length) fields

def stored (fields : List Field) : Bytes := fields.flatMap fun e => e.name ++ e.value

def slotHeader (mem : Bytes) (sl : Slot) : HttpHeader :=
  ⟨slice mem sl.nameOff sl.nameLen, slice mem sl.valueOff sl.valueLen⟩

theorem slice_append (a b c : Bytes) : slice (a ++ b ++ c) a.length b.length = b := by
  rw [slice, List.append_assoc, List.drop_left, List.take_left]

theorem slotsFrom_resolve (fields : List Field) : ∀ before after : Bytes,
    (slotsFrom before.length fields).map (slotHeader (before ++ stored fields ++ after)) =
      fields.map headerOf := by
  induction fields with
  | nil => exact fun _ _ => rfl
  | cons e fields ih =>
    intro before after
    have hMem : before ++ stored (e :: fields) ++ after =
        (before ++ e.name ++ e.value) ++ stored fields ++ after := by
      simp [stored]
    have hRest := ih (before ++ e.name ++ e.value) after
    rw [List.length_append, List.length_append] at hRest
    rw [slotsFrom, List.map_cons, List.map_cons, hMem, hRest]
    congr 1
    have hName : slice
      (before ++ e.name ++ e.value ++ stored fields ++ after) before.length e.name.length = e.name := by
      rw [List.append_assoc, List.append_assoc (before ++ e.name)]
      exact slice_append _ _ _
    have hValue : slice (before ++ e.name ++ e.value ++ stored fields ++ after)
      (before.length + e.name.length)
        e.value.length = e.value := by
      rw [List.append_assoc, ← List.length_append]
      exact slice_append _ _ _
    rw [slotHeader, hName, hValue]
    rfl

/-- Fields that are stored as they are, or left out because another one took
their value. -/
theorem stage_plain (all : List Field) (l : List (Field × Nat)) : ∀ st : Bytes × List Slot,
    (∀ x ∈ l, (decide (1 < all.countP isCookie) && x.2 == all.findIdx isCookie) = false) →
      let kept := (l.filter fun x => !(decide (1 < all.countP isCookie) && isCookie x.1 &&
        x.2 != all.findIdx isCookie)).map Prod.fst
      l.foldl (stageField all) st = (st.1 ++ stored kept, st.2 ++ slotsFrom st.1.length kept) := by
  induction l with
  | nil =>
    intro st _
    simp [stored, slotsFrom]
  | cons x l ih =>
    intro st h
    have hRest := fun st => ih st fun y hy => h y (List.mem_cons_of_mem _ hy)
    dsimp only at hRest ⊢
    rw [List.foldl_cons, hRest, stageField]
    dsimp only
    rw [h x List.mem_cons_self, List.filter_cons]
    cases hSkip : decide (1 < all.countP isCookie) && isCookie x.1 && x.2 != all.findIdx isCookie with
    | true => rfl
    | false =>
      simp [stored, slotsFrom, Nat.add_assoc]

theorem filter_fst_zipIdx (p : Field → Bool) (l : List Field) (k : Nat) (q : Field × Nat → Bool)
    (h : ∀ x ∈ l.zipIdx k, q x = p x.1) : ((l.zipIdx k).filter q).map Prod.fst = l.filter p := by
  rw [List.filter_congr h]
  calc
    ((l.zipIdx k).filter fun x => p x.1).map Prod.fst = ((l.zipIdx k).map Prod.fst).filter p :=
      (List.filter_map (p := p) (f := Prod.fst)).symm
    _ = l.filter p := by rw [List.zipIdx_map_fst]

theorem findIdx_first {before after : List Field} {e : Field} (hBefore : ∀ k ∈ before, isCookie k = false)
    (hCookie : isCookie e = true) : (before ++ e :: after).findIdx isCookie = before.length := by
  rw [List.findIdx_append, if_neg]
  · rw [List.findIdx_cons, hCookie, cond_true, Nat.zero_add]
  · intro hLt
    obtain ⟨k, hk, hTrue⟩ := List.findIdx_lt_length.mp hLt
    rw [hBefore k hk] at hTrue
    cases hTrue

theorem mergedCookies_eq {before after : List Field} {e : Field}
    (hBefore : ∀ k ∈ before, isCookie k = false) :
    mergedCookies (before ++ e :: after) before.length e = joinCookies (e :: after.filter isCookie) := by
  have hHead : (before.zipIdx.filter fun k => k.2 != before.length && isCookie k.1) = [] := by
    refine List.filter_eq_nil_iff.mpr ?_
    intro x hx
    rw [hBefore x.1 (List.fst_mem_of_mem_zipIdx hx), Bool.and_false]
    exact Bool.false_ne_true
  have hTail := filter_fst_zipIdx isCookie after (before.length + 1)
    (fun k => k.2 != before.length && isCookie k.1) (by
      intro x hx
      have hLe := List.le_snd_of_mem_zipIdx hx
      have hNe : (x.2 != before.length) = true := by
        rw [bne_iff_ne]
        omega
      rw [hNe, Bool.true_and])
  rw [mergedCookies, joinCookies, List.zipIdx_append, List.zipIdx_cons, List.filter_append, List.filter_cons,
    Nat.zero_add, hHead, ← hTail, List.flatMap_map]
  simp

theorem stage_merged {before after : List Field} {e : Field} (path : Bytes)
    (hBefore : ∀ k ∈ before, isCookie k = false) (hCookie : isCookie e = true)
    (hMany : 1 < (before ++ e :: after).countP isCookie) :
    (before ++ e :: after).zipIdx.foldl (stageField (before ++ e :: after)) (path, []) =
      let joined := joinCookies (e :: after.filter isCookie)
      let rest := after.filter fun k => !isCookie k
      let off := (path ++ stored before).length
      (path ++ stored before ++ joined ++ stored rest,
        slotsFrom path.length before ++ ⟨off, e.name.length, off, joined.length⟩ ::
          slotsFrom (path ++ stored before ++ joined).length rest) := by
  have hFirst := @findIdx_first before after e hBefore hCookie
  have hKeptBefore := filter_fst_zipIdx (fun _ => true) before 0
    (fun x => !(decide (1 < (before ++ e :: after).countP isCookie) && isCookie x.1 &&
      x.2 != (before ++ e :: after).findIdx isCookie)) (by
      intro x hx
      rw [hBefore x.1 (List.fst_mem_of_mem_zipIdx hx), Bool.and_false, Bool.false_and]
      rfl)
  have hKeptAfter := filter_fst_zipIdx (fun k => !isCookie k) after (before.length + 1)
    (fun x => !(decide (1 < (before ++ e :: after).countP isCookie) && isCookie x.1 &&
      x.2 != (before ++ e :: after).findIdx isCookie)) (by
      intro x hx
      have hLe := List.le_snd_of_mem_zipIdx hx
      have hNe : (x.2 != before.length) = true := by
        rw [bne_iff_ne]
        omega
      rw [hFirst, hNe, decide_eq_true hMany, Bool.true_and, Bool.and_true])
  have hPlainBefore := stage_plain (before ++ e :: after) before.zipIdx (path, []) (by
    intro x hx
    have hLt := List.snd_lt_of_mem_zipIdx hx
    have hNe : (x.2 == before.length) = false := by
      rw [beq_eq_false_iff_ne]
      omega
    rw [hFirst, hNe, Bool.and_false])
  have hPlainAfter := fun st => stage_plain (before ++ e :: after) (after.zipIdx (before.length + 1)) st (by
    intro x hx
    have hLe := List.le_snd_of_mem_zipIdx hx
    have hNe : (x.2 == before.length) = false := by
      rw [beq_eq_false_iff_ne]
      omega
    rw [hFirst, hNe, Bool.and_false])
  dsimp only at hPlainBefore hPlainAfter ⊢
  rw [hKeptBefore, List.filter_true] at hPlainBefore
  rw [hKeptAfter] at hPlainAfter
  rw [List.zipIdx_append, List.zipIdx_cons, List.foldl_append, List.foldl_cons, Nat.zero_add, hPlainBefore,
    hPlainAfter, stageField]
  dsimp only
  rw [hFirst, decide_eq_true hMany, hCookie, bne_self_eq_false, beq_self_eq_true, mergedCookies_eq hBefore]
  simp

/-! ## The request -/

theorem withCookiesMerged_of_few {fields : List Field} (hValid : ∀ k ∈ fields, nameValid k.name = true)
    (hFew : fields.countP isCookie ≤ 1) : withCookiesMerged fields = fields.map headerOf := by
  induction fields with
  | nil => rfl
  | cons e fields ih =>
    have hRest := fun k hk => hValid k (List.mem_cons_of_mem _ hk)
    rw [withCookiesMerged, List.map_cons]
    split
    · rename_i hCookie
      rw [List.countP_cons, if_pos hCookie] at hFew
      have hNone : ∀ k ∈ fields, isCookie k = false := by
        intro k hk
        rw [← Bool.not_eq_true]
        exact List.countP_eq_zero.mp (by omega) k hk
      have hCookies : fields.filter isCookie = [] :=
        List.filter_eq_nil_iff.mpr fun k hk => by rw [hNone k hk]; exact Bool.false_ne_true
      have hOthers : (fields.filter fun k => !isCookie k) = fields :=
        List.filter_eq_self.mpr fun k hk => by rw [hNone k hk]; rfl
      rw [hCookies, hOthers, joinCookies, List.flatMap_nil, List.append_nil, headerOf,
        name_of_isCookie (hValid e List.mem_cons_self) hCookie]
    · rename_i hCookie
      rw [List.countP_cons, if_neg hCookie] at hFew
      rw [ih hRest hFew]

theorem withCookiesMerged_of_first {before after : List Field} {e : Field}
    (hBefore : ∀ k ∈ before, isCookie k = false)
    (hCookie : isCookie e = true) : withCookiesMerged (before ++ e :: after) =
      before.map headerOf ++ ⟨ascii "cookie", joinCookies (e :: after.filter isCookie)⟩ ::
        (after.filter fun k => !isCookie k).map headerOf := by
  induction before with
  | nil => rw [List.nil_append, withCookiesMerged, if_pos hCookie, List.map_nil, List.nil_append]
  | cons k before ih =>
    rw [List.cons_append, withCookiesMerged, hBefore k List.mem_cons_self, if_neg Bool.false_ne_true,
      ih fun k hk => hBefore k (List.mem_cons_of_mem _ hk)]
    rfl

theorem cookie_take_iff {value more : Bytes} :
    (value ++ (ascii "; " ++ more)).take 6 = ascii "cookie" ↔ ascii "cookie" <+: value := by
  constructor
  · intro h
    by_cases hLen : 6 ≤ value.length
    · rw [List.take_append_of_le_length hLen] at h
      rw [← h]
      exact List.take_prefix 6 value
    · -- a semicolon stands within the first six bytes
      have hAt : ((value ++ (ascii "; " ++ more)).take 6)[value.length]? = some 59 := by
        rw [List.getElem?_take_of_lt (by omega), List.getElem?_append_right (Nat.le_refl _), Nat.sub_self]
        rfl
      rw [h] at hAt
      have hNone : (59 : UInt8) ∉ ascii "cookie" := by decide
      exact absurd (List.mem_of_getElem? hAt) hNone
  · rintro ⟨rest, rfl⟩
    rw [List.append_assoc]
    rfl

theorem requestOfScan_headers (remote : Bytes) (st : FieldScan) :
    ∃ more host, (requestOfScan remote st).headers =
        (st.fields.zipIdx.foldl (stageField st.fields) (st.path, [])).2.map
          (slotHeader ((st.fields.zipIdx.foldl (stageField st.fields) (st.path, [])).1 ++ more)) ++ host ∧
      host = if !st.authority.isEmpty && !(st.fields.any fun e => svIeq e.name (ascii "host")) then
        [⟨ascii "host", st.authority⟩] else [] := by
  rw [requestOfScan]
  dsimp only
  cases hHost : !st.authority.isEmpty && !(st.fields.any fun e => svIeq e.name (ascii "host")) with
  | true =>
    refine ⟨ascii "host" ++ st.authority, _, ?_, rfl⟩
    rw [if_pos rfl, if_pos rfl, List.append_assoc]
    rfl
  | false =>
    refine ⟨[], _, ?_, rfl⟩
    rw [if_neg Bool.false_ne_true, if_neg Bool.false_ne_true]
    simp only [List.append_nil]
    rfl

theorem stage_few {fields : List Field} (path : Bytes) (hFew : fields.countP isCookie ≤ 1) :
    fields.zipIdx.foldl (stageField fields) (path, []) =
      (path ++ stored fields, slotsFrom path.length fields) := by
  have hNot : decide (1 < fields.countP isCookie) = false := decide_eq_false (by omega)
  have hPlain := stage_plain fields fields.zipIdx (path, []) fun x _ => by rw [hNot, Bool.false_and]
  have hKept := filter_fst_zipIdx (fun _ => true) fields 0
    (fun x => !(decide (1 < fields.countP isCookie) && isCookie x.1 && x.2 != fields.findIdx isCookie))
    fun x _ => by rw [hNot, Bool.false_and, Bool.false_and]; rfl
  dsimp only at hPlain
  rw [hKept, List.filter_true] at hPlain
  exact hPlain

theorem requestOfScan_headers_iff (remote : Bytes) {st : FieldScan}
    (hValid : ∀ k ∈ st.fields, nameValid k.name = true) :
    (requestOfScan remote st).headers = withCookiesMerged st.fields ++
        (if !st.authority.isEmpty && !(st.fields.any fun e => svIeq e.name (ascii "host")) then
          [⟨ascii "host", st.authority⟩] else []) ↔
      st.fields.countP isCookie ≤ 1 ∨ ∃ e, st.fields.find? isCookie = some e ∧
        ascii "cookie" <+: e.value := by
  obtain ⟨more, host, hHeaders, hHost⟩ := requestOfScan_headers remote st
  rw [hHeaders, ← hHost, List.append_cancel_right_eq]
  by_cases hFew : st.fields.countP isCookie ≤ 1
  · refine iff_of_true ?_ (.inl hFew)
    rw [stage_few st.path hFew, withCookiesMerged_of_few hValid hFew]
    exact slotsFrom_resolve st.fields st.path more
  · have hSome : (st.fields.find? isCookie).isSome = true := by
      rw [List.find?_isSome]
      by_contra hNone
      have hZero : st.fields.countP isCookie = 0 :=
        List.countP_eq_zero.mpr fun k hk hCookie => hNone ⟨k, hk, hCookie⟩
      omega
    obtain ⟨e, hFind⟩ := Option.isSome_iff_exists.mp hSome
    obtain ⟨hCookie, before, after, hSplit, hNone⟩ := List.find?_eq_some_iff_append.mp hFind
    have hBefore : ∀ k ∈ before, isCookie k = false := by
      intro k hk
      exact Bool.not_eq_true' _ ▸ hNone k hk
    have hOthers : after.filter isCookie ≠ [] := by
      intro hNil
      have hBeforeZero : before.countP isCookie = 0 :=
        List.countP_eq_zero.mpr fun k hk => by rw [hBefore k hk]; exact Bool.false_ne_true
      rw [hSplit, List.countP_append, List.countP_cons, if_pos hCookie, hBeforeZero,
        List.countP_eq_length_filter,
        hNil] at hFew
      exact hFew (Nat.le_refl _)
    have hName : e.name = ascii "cookie" := by
      refine name_of_isCookie (hValid e ?_) hCookie
      rw [hSplit]
      exact List.mem_append_right _ List.mem_cons_self
    rw [hSplit] at hFew hFind ⊢
    rw [stage_merged st.path hBefore hCookie (by omega), withCookiesMerged_of_first hBefore hCookie, hFind]
    dsimp only
    generalize hJoined : joinCookies (e :: after.filter isCookie) = joined
    generalize (after.filter fun k => !isCookie k) = rest
    have hFront : (slotsFrom st.path.length before).map
        (slotHeader (st.path ++ stored before ++ joined ++ stored rest ++ more)) = before.map headerOf := by
      rw [List.append_assoc, List.append_assoc]
      exact slotsFrom_resolve before st.path _
    have hBack : (slotsFrom (st.path ++ stored before ++ joined).length rest).map
        (slotHeader (st.path ++ stored before ++ joined ++ stored rest ++ more)) = rest.map headerOf :=
      slotsFrom_resolve rest _ more
    have hValue : slice (st.path ++ stored before ++ joined ++ stored rest ++ more)
      (st.path ++ stored before).length
        joined.length = joined := by
      rw [List.append_assoc (st.path ++ stored before ++ joined)]
      exact slice_append _ _ _
    rw [List.map_append, List.map_cons, hFront, hBack, slotHeader, hValue, List.append_cancel_left_eq,
      List.cons.injEq,
      and_iff_left rfl]
    rw [HttpHeader.mk.injEq, and_iff_left rfl, slice, List.append_assoc, List.append_assoc,
      List.drop_left, hName]
    obtain ⟨k, ks, hCons⟩ := List.exists_cons_of_ne_nil hOthers
    rw [← hJoined, joinCookies, hCons, List.flatMap_cons, List.append_assoc, List.append_assoc,
      List.append_assoc]
    refine cookie_take_iff.trans ⟨fun h => .inr ⟨e, rfl, h⟩, ?_⟩
    rintro (hLe | ⟨e', hEq, hPrefix⟩)
    · exact absurd hLe hFew
    · obtain rfl := Option.some.inj hEq
      exact hPrefix

/-- An accepted block becomes the request its fields stand for exactly when the
name of its cookies is kept. -/
theorem request_translated_iff {env : H2Env} {c : H2Conn} {blk : Bytes} {fields : List Field}
    {req : HttpRequest}
    (hDecode : (Hpack.hpackDecodeBlock c.hpack blk).2 = some fields)
    (hReq : (h2RequestFromBlock env c blk).2 = .request req) :
    (req.target = pseudoValue (ascii ":path") fields ∧
        (req.path, req.query) = splitQuery (pseudoValue (ascii ":path") fields) ∧
        req.headers = translatedHeaders fields) ↔
      CookieNameKept fields := by
  rw [h2RequestFromBlock] at hReq
  split at hReq
  · cases hReq
  · rename_i hp fields' hEq
    rw [hEq] at hDecode
    obtain rfl := Option.some.inj hDecode
    dsimp only at hReq
    split at hReq
    · cases hReq
    · rename_i req' hFields
      obtain rfl := BlockResult.request.inj hReq
      rw [requestOfFields] at hFields
      split at hFields
      · cases hFields
      · rename_i st hScan
        split at hFields
        · obtain rfl := Option.some.inj hFields
          obtain ⟨hRegular, hValid, hPath, hAuthority⟩ := scan_scanned _ hScan
          rw [scanStart, List.nil_append] at hRegular
          rw [scanStart, if_pos rfl] at hPath hAuthority
          rw [← hRegular] at hValid
          have hHeaders := requestOfScan_headers_iff env.remote hValid
          rw [hAuthority, hRegular] at hHeaders
          refine Iff.trans ⟨fun h => h.2.2, fun h => ⟨hPath, ?_, h⟩⟩ hHeaders
          rw [← hPath]
          rfl
        · cases hFields

theorem request_translated_one_cookie :
    (Hpack.hpackDecodeBlock hpackInit ([0x82, 0x87, 0x84, 0x60, 3] ++ ascii "a=b")).2.map translatedHeaders =
      some [⟨ascii "cookie", ascii "a=b"⟩] := by
  have hTranslated := (@request_translated_iff plainEnv h2Init
    ([0x82, 0x87, 0x84, 0x60, 3] ++ ascii "a=b")
    [⟨ascii ":method", ascii "GET"⟩, ⟨ascii ":scheme", ascii "https"⟩, ⟨ascii ":path", ascii "/"⟩,
      ⟨ascii "cookie", ascii "a=b"⟩]
    ⟨.get, ascii "/", ascii "/", [], ascii "HTTP/2.0", [], -1, 0, [], [⟨ascii "cookie", ascii "a=b"⟩]⟩
    (by decide +kernel) (by decide +kernel)).mpr (.inl (by decide))
  have hDecode : (Hpack.hpackDecodeBlock hpackInit ([0x82, 0x87, 0x84, 0x60, 3] ++ ascii "a=b")).2 =
      some [⟨ascii ":method", ascii "GET"⟩, ⟨ascii ":scheme", ascii "https"⟩, ⟨ascii ":path", ascii "/"⟩,
        ⟨ascii "cookie", ascii "a=b"⟩] := by
    decide +kernel
  rw [hDecode, Option.map_some, ← hTranslated.2.2]

/-- Two cookies over the wire. The header that carries them is named by the
first bytes of its own value. -/
theorem cookies_merged_without_name :
    (Hpack.hpackDecodeBlock hpackInit ([0x82, 0x87, 0x84, 0x60, 3] ++ ascii "a=b" ++ [0x60, 3] ++
      ascii "c=d")).2.map
        translatedHeaders = some [⟨ascii "cookie", ascii "a=b; c=d"⟩] ∧
      (h2RequestFromBlock plainEnv h2Init
          ([0x82, 0x87, 0x84, 0x60, 3] ++ ascii "a=b" ++ [0x60, 3] ++ ascii "c=d")).2 =
        .request ⟨.get, ascii "/", ascii "/", [], ascii "HTTP/2.0", [], -1, 0, [],
          [⟨ascii "a=b; c", ascii "a=b; c=d"⟩]⟩ := by
  decide +kernel

end Cweb.H2
