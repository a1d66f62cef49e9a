import Cweb.Lib.CString
import Cweb.Routing.RouteParams

/-!
# The form codec

What is percent-encoded and joined with separators is read as the pairs it was
made of. Reading fails at a percent sign without two hexadecimal digits and
nowhere else.
-/

namespace Cweb

open Sv Segments Lookup LinearProbe

def unreserved (c : UInt8) : Bool :=
  (65 ≤ c && c ≤ 90) || (97 ≤ c && c ≤ 122) || (48 ≤ c && c ≤ 57) || c == 45 || c == 46 || c == 95 || c == 126

def hexDigits : Bytes := ascii "0123456789ABCDEF"

def urlEncodeByte (c : UInt8) : Bytes :=
  if unreserved c then [c] else [37, hexDigits.getD (c.toNat / 16) 0, hexDigits.getD (c.toNat % 16) 0]

def urlEncode (src : Bytes) : Bytes := src.flatMap urlEncodeByte

/-- `strmap_set` with its return code: a table without a slot for the key is a failure. -/
def strmapSetRc (m : StrMap) (key value : Bytes) : Option StrMap :=
  let m := if m.capacity = 0 ∨ m.capacity ≤ m.count * 2 then strmapGrow m else m
  (probe m.entries (hashIndex key) key).map fun _ => strmapPut m key value

def paramsPairRc : StrMap → Bytes → Option StrMap := paramsPairWith strmapSetRc

/-- `params_parse_into` with the failures of the map. -/
def paramsParseRc (m : StrMap) (s : Bytes) : Option StrMap := (svSplit 38 s).foldlM paramsPairRc m

/-- Pairs in the shape of a query. -/
def formText (ps : List (Bytes × Bytes)) : Bytes :=
  Segments.text 38 (ps.map fun e => urlEncode e.1 ++ 61 :: urlEncode e.2)

/-- A percent sign that two hexadecimal digits do not follow. -/
def BrokenEscape (t : Bytes) : Prop :=
  ∃ front rest, t = front ++ 37 :: rest ∧ ∀ a b tail, rest = a :: b :: tail → hexval a = none ∨
    hexval b = none

/-! ## Decoding what was encoded -/

theorem hexval_hexDigits : ∀ d : Fin 16, hexval (hexDigits.getD d 0) = some d.val := by decide +kernel

theorem not_escape_of_unreserved : ∀ c :
    UInt8, (!unreserved c || (c != 37 && c != 43 && c != 38 && c != 61)) = true :=
  CString.forall_byte (by decide +kernel)

theorem urlDecode_byte (c : UInt8) (rest : Bytes) :
    urlDecode (urlEncodeByte c ++ rest) = (urlDecode rest).map fun out => c :: out := by
  have hc := c.toNat_lt
  rw [urlEncodeByte]
  split
  · rename_i hPlain
    have hNe := not_escape_of_unreserved c
    simp only [hPlain, Bool.not_true, Bool.false_or, Bool.and_eq_true, bne_iff_ne] at hNe
    obtain ⟨⟨⟨hPercent, hPlus⟩, -⟩, -⟩ := hNe
    rw [List.singleton_append, urlDecode, if_neg hPlus]
    exact hPercent
  · have hHigh := hexval_hexDigits ⟨c.toNat / 16, by omega⟩
    have hLow := hexval_hexDigits ⟨c.toNat % 16, by omega⟩
    have hByte : UInt8.ofNat (c.toNat / 16 * 16 + c.toNat % 16) = c := by
      rw [Nat.div_add_mod', UInt8.ofNat_toNat]
    simp only [List.cons_append, List.nil_append, urlDecode, hHigh, hLow, hByte]

theorem urlDecode_urlEncode (s : Bytes) : urlDecode (urlEncode s) = some s := by
  induction s with
  | nil => rfl
  | cons c s ih => rw [urlEncode, List.flatMap_cons, urlDecode_byte, ← urlEncode, ih, Option.map_some]

theorem not_mem_urlEncode {d : UInt8} (hd : d = 38 ∨ d = 61) (s : Bytes) : d ∉ urlEncode s := by
  have hTable : ∀ c : UInt8, (!(urlEncodeByte c).contains 38 && !(urlEncodeByte c).contains 61) =
    true := CString.forall_byte (by decide +kernel)
  rw [urlEncode, List.mem_flatMap]
  rintro ⟨c, -, hIn⟩
  have hc := hTable c
  simp only [Bool.and_eq_true, Bool.not_eq_true', List.contains_eq_mem, decide_eq_false_iff_not] at hc
  rcases hd with rfl | rfl
  · exact hc.1 hIn
  · exact hc.2 hIn

theorem formField_pair (key value : Bytes) :
    formField (urlEncode key ++ 61 :: urlEncode value) = some (key, value) := by
  have hAll : ∀ b ∈ urlEncode key, decide (b ≠ 61) = true :=
    fun b hb => decide_eq_true fun h => not_mem_urlEncode (.inr rfl) key (h ▸ hb)
  rw [formField, List.takeWhile_append_of_pos hAll, List.dropWhile_append_of_pos hAll]
  simp [urlDecode_urlEncode]

theorem formFields_formText (ps : List (Bytes × Bytes)) : formFields (formText ps) = some ps := by
  have hNone : ∀ piece ∈ ps.map fun e => urlEncode e.1 ++ 61 :: urlEncode e.2, 38 ∉ piece := by
    rintro piece hPiece hIn
    obtain ⟨e, -, rfl⟩ := List.mem_map.mp hPiece
    rcases List.mem_append.mp hIn with hIn | hIn
    · exact not_mem_urlEncode (.inl rfl) e.1 hIn
    · rcases List.mem_cons.mp hIn with hIn | hIn
      · exact absurd hIn (by decide)
      · exact not_mem_urlEncode (.inl rfl) e.2 hIn
  have hSome : ∀ piece ∈ ps.map fun e => urlEncode e.1 ++ 61 :: urlEncode e.2, piece ≠ [] := by
    rintro piece hPiece
    obtain ⟨e, -, rfl⟩ := List.mem_map.mp hPiece
    simp
  rw [formFields, formText, svSplit_text hNone hSome, List.filter_eq_self.mpr fun piece hPiece => by
    simpa using hSome piece hPiece]
  induction ps with
  | nil => rfl
  | cons e ps ih =>
    have hRest := ih (fun piece hPiece => hNone piece (List.mem_cons_of_mem _ hPiece))
      fun piece hPiece => hSome piece (List.mem_cons_of_mem _ hPiece)
    rw [List.map_cons, List.mapM_cons, formField_pair, hRest]
    rfl

/-! ## Failures -/

theorem BrokenEscape.behind {t : Bytes} (h : BrokenEscape t) (before : Bytes) :
    BrokenEscape (before ++ t) := by
  obtain ⟨front, rest, rfl, hBroken⟩ := h
  exact ⟨before ++ front, rest, (List.append_assoc _ _ _).symm, hBroken⟩

theorem broken_of_urlDecode (n : Nat) : ∀ {t : Bytes}, t.length ≤ n → urlDecode t = none →
    BrokenEscape t := by
  induction n with
  | zero =>
    intro t hLength h
    rw [List.length_eq_zero_iff.mp (Nat.le_zero.mp hLength)] at h
    cases h
  | succ n ih =>
    intro t hLength h
    cases t with
    | nil => cases h
    | cons c rest =>
      rw [List.length_cons] at hLength
      by_cases hPercent : c = 37
      · subst hPercent
        by_cases hPair : ∃ a b tail hi lo, rest = a :: b :: tail ∧ hexval a = some hi ∧ hexval b = some lo
        · obtain ⟨a, b, tail, hi, lo, rfl, ha, hb⟩ := hPair
          simp only [urlDecode, ha, hb, Option.map_eq_none_iff] at h
          simp only [List.length_cons] at hLength
          exact (ih (by omega) h).behind [37, a, b]
        · refine ⟨[], rest, rfl, ?_⟩
          rintro a b tail rfl
          by_contra hBoth
          rw [not_or] at hBoth
          obtain ⟨hi, ha⟩ := Option.ne_none_iff_exists'.mp hBoth.1
          obtain ⟨lo, hb⟩ := Option.ne_none_iff_exists'.mp hBoth.2
          exact hPair ⟨a, b, tail, hi, lo, rfl, ha, hb⟩
      · rw [urlDecode, Option.map_eq_none_iff] at h
        · exact (ih (by omega) h).behind [c]
        · exact hPercent

theorem broken_of_formField {pair : Bytes} (h : formField pair = none) :
    BrokenEscape (pair.takeWhile (· ≠ 61)) ∨ BrokenEscape ((pair.dropWhile (· ≠ 61)).drop 1) := by
  rw [formField] at h
  cases hKey : urlDecode (pair.takeWhile (· ≠ 61)) with
  | none => exact .inl (broken_of_urlDecode _ (Nat.le_refl _) hKey)
  | some key =>
    cases hValue : urlDecode ((pair.dropWhile (· ≠ 61)).drop 1) with
    | none => exact .inr (broken_of_urlDecode _ (Nat.le_refl _) hValue)
    | some value =>
      rw [hKey, hValue] at h
      cases h

theorem formFields_eq_none {s : Bytes} (h : formFields s = none) :
    ∃ pair ∈ svSplit 38 s, formField pair = none := by
  rw [formFields] at h
  obtain ⟨pair, hPair, hNone⟩ : ∃ pair ∈ (svSplit 38 s).filter (· ≠ []), formField pair = none := by
    generalize (svSplit 38 s).filter (· ≠ []) = pairs at h
    induction pairs with
    | nil => cases h
    | cons pair pairs ih =>
      by_cases hPair : formField pair = none
      · exact ⟨pair, List.mem_cons_self, hPair⟩
      · obtain ⟨e, he⟩ := Option.ne_none_iff_exists'.mp hPair
        rw [List.mapM_cons, he] at h
        obtain ⟨other, hOther, hNone⟩ := ih (by
          cases hRest : pairs.mapM formField with
          | none => rfl
          | some fields =>
            rw [hRest] at h
            cases h)
        exact ⟨other, List.mem_cons_of_mem _ hOther, hNone⟩
  exact ⟨pair, (List.mem_filter.mp hPair).1, hNone⟩

/-! ## The map -/

theorem strmapSetRc_eq {m : StrMap} (h : m.WF) (key value : Bytes) :
    strmapSetRc m key value = some (strmapSet m key value) := by
  have hProbe : ∀ m' : StrMap, m'.WF → m'.count < m'.capacity →
    ∃ j, probe m'.entries (hashIndex key) key = some j := by
    intro m' hWf hRoom
    obtain ⟨free, hFree⟩ := exists_empty (hWf.count_eq ▸ hRoom : occupied m'.entries < m'.entries.length)
    exact exists_probe hFree (hashIndex key) key
  rw [strmapSetRc, strmapSet]
  split
  · obtain ⟨hWf, hRoom, -, -⟩ := strmapGrow_spec h
    obtain ⟨j, hj⟩ := hProbe _ hWf hRoom
    rw [hj, Option.map_some]
  · obtain ⟨j, hj⟩ := hProbe m h (by omega)
    rw [hj, Option.map_some]

theorem foldlM_paramsPairRc (pairs : List Bytes) : ∀ m : StrMap, m.WF →
    pairs.foldlM paramsPairRc m = pairs.foldlM paramsPair m := by
  induction pairs with
  | nil => exact fun _ _ => rfl
  | cons pair pairs ih =>
    intro m hWf
    rw [List.foldlM_cons, List.foldlM_cons, paramsPairRc, paramsPair, paramsPairWith, paramsPairWith]
    split
    · exact ih m hWf
    · cases urlDecode (pair.takeWhile (· ≠ 61)) with
      | none => rfl
      | some key =>
        cases urlDecode ((pair.dropWhile (· ≠ 61)).drop 1) with
        | none => rfl
        | some value =>
          dsimp only
          rw [strmapSetRc_eq hWf]
          exact ih _ (strmapSet_spec hWf (not_mem_svFromCstr key) _).1

theorem paramsParseRc_eq {m : StrMap} (hWf : m.WF) (s : Bytes) :
    paramsParseRc m s = (formFields s).map fun fields => setAll m (fields.map cstrField) := by
  rw [paramsParseRc, foldlM_paramsPairRc _ m hWf]
  exact paramsParseInto_eq m s

theorem setAll_wf (ps : List (Bytes × Bytes)) : ∀ m : StrMap, m.WF → (∀ e ∈ ps, 0 ∉ e.1) →
    (setAll m ps).WF := by
  induction ps with
  | nil => exact fun _ h _ => h
  | cons e ps ih =>
    intro m hWf h
    exact ih _ (strmapSet_spec hWf (h e List.mem_cons_self) e.2).1 fun e' he' =>
      h e' (List.mem_cons_of_mem _ he')

/-- For every map that the operations build: encoded pairs are found again, the
last value of each key, and a failure means a broken escape in a key or a value. -/
theorem form_codec {m : StrMap} (hWf : m.WF) :
    (∀ ps : List (Bytes × Bytes), (∀ e ∈ ps, 0 ∉ e.1 ∧ 0 ∉ e.2) →
      ∃ m', paramsParseRc m (formText ps) = some m' ∧ m'.WF ∧
        ∀ k, strmapGet m' k = (lastOf ps k).or (strmapGet m k)) ∧
    ∀ s, paramsParseRc m s = none →
      ∃ pair ∈ svSplit 38 s, BrokenEscape (pair.takeWhile (· ≠ 61)) ∨
        BrokenEscape ((pair.dropWhile (· ≠ 61)).drop 1) := by
  constructor
  · intro ps hNul
    have hKeys : ∀ e ∈ ps, 0 ∉ e.1 := fun e he => (hNul e he).1
    refine ⟨setAll m ps, ?_, setAll_wf ps m hWf hKeys, fun k => ?_⟩
    · rw [paramsParseRc_eq hWf, formFields_formText, Option.map_some, setAll_cstrField ps m hKeys]
    · rw [strmapGet_setAll ps m hWf hKeys]
      cases hLast : lastOf ps k with
      | none => rfl
      | some v => rw [Option.map_some, dupOwn_of_not_mem (hNul _ (mem_of_lastOf hLast)).2]
  · intro s hNone
    rw [paramsParseRc_eq hWf, Option.map_eq_none_iff] at hNone
    obtain ⟨pair, hPair, hField⟩ := formFields_eq_none hNone
    exact ⟨pair, hPair, broken_of_formField hField⟩

theorem form_codec_twice :
    ∃ m, paramsParseRc strmapInit
      (formText [(ascii "a b", []), ([], ascii "&=%"), (ascii "a b", ascii "+")]) = some m ∧
    strmapGet m (ascii "a b") = some (ascii "+") ∧ strmapGet m [] = some (ascii "&=%") ∧
      strmapGet m (ascii "c") = none := by
  obtain ⟨m, hParse, -, hGet⟩ :=
    (form_codec strmapInit_wf).1 [(ascii "a b", []), ([], ascii "&=%"), (ascii "a b", ascii "+")] (by decide)
  refine ⟨m, hParse, ?_, ?_, ?_⟩ <;> rw [hGet] <;> rfl

end Cweb
