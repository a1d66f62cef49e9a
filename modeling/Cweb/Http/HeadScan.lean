import Cweb.Http.RequestCut

/-!
# The end of a head

The search for a blank line goes over the view twice. Its first loop looks three
bytes ahead of the last index it takes, so a view that stops in the middle of a
blank line makes it read the byte behind. Whether the head ends there is then up
to what memory holds.
-/

namespace Cweb

open Sv

/-! ## What the search reads -/

/-- The indices read for CRLF CRLF from `i` on. The tests stop at the first that fails. -/
def crlfReads (behind : Bytes) : Nat → Bytes → List Nat
  | i, a :: b :: c :: rest =>
    if a ≠ 13 then i :: crlfReads behind (i + 1) (b :: c :: rest)
    else if b ≠ 10 then i :: (i + 1) :: crlfReads behind (i + 1) (b :: c :: rest)
    else if c ≠ 13 then i :: (i + 1) :: (i + 2) :: crlfReads behind (i + 1) (b :: c :: rest)
    else if (rest ++ behind).head? = some 10 then [i, i + 1, i + 2, i + 3]
    else i :: (i + 1) :: (i + 2) :: (i + 3) :: crlfReads behind (i + 1) (b :: c :: rest)
  | _, _ => []

def lfReads : Nat → Bytes → List Nat
  | i, a :: b :: rest =>
    if a ≠ 10 then i :: lfReads (i + 1) (b :: rest)
    else if b = 10 then [i, i + 1]
    else i :: (i + 1) :: lfReads (i + 1) (b :: rest)
  | _, _ => []

def findHeaderEndReads (raw behind : Bytes) : List Nat :=
  crlfReads behind 0 raw ++
    match crlfEnd behind 0 raw with
    | some _ => []
    | none => lfReads 0 raw

/-- The view stops before the last byte of its first blank line. -/
def OpenBlank (raw : Bytes) : Prop := [13, 10, 13] <:+ raw ∧ ¬ [13, 10, 13, 10] <:+: raw

instance (raw : Bytes) : Decidable (OpenBlank raw) := inferInstanceAs (Decidable (_ ∧ _))

theorem not_openBlank_short {raw : Bytes} (h : raw.length < 3) : ¬ OpenBlank raw := by
  rintro ⟨hSuffix, _⟩
  have hLength := hSuffix.length_le
  simp only [List.length_cons, List.length_nil] at hLength
  omega

theorem openBlank_cons {a b c : UInt8} {rest : Bytes}
    (h : a = 13 → b = 10 → c = 13 → ∃ d more, rest = d :: more ∧ d ≠ 10) :
    OpenBlank (a :: b :: c :: rest) ↔ OpenBlank (b :: c :: rest) := by
  have hSuffix : [13, 10, 13] <:+ a :: b :: c :: rest ↔ [13, 10, 13] <:+ b :: c :: rest := by
    rw [List.suffix_cons_iff]
    constructor
    · rintro (hEq | hTail)
      · simp only [List.cons.injEq] at hEq
        obtain ⟨hA, hB, hC, hRest⟩ := hEq
        obtain ⟨d, more, hMore, _⟩ := h hA.symm hB.symm hC.symm
        rw [hMore] at hRest
        cases hRest
      · exact hTail
    · exact .inr
  have hInfix : [13, 10, 13, 10] <:+: a :: b :: c :: rest ↔ [13, 10, 13, 10] <:+: b :: c :: rest := by
    rw [List.infix_cons_iff]
    constructor
    · rintro (hPrefix | hTail)
      · simp only [List.cons_prefix_cons] at hPrefix
        obtain ⟨hA, hB, hC, hRest⟩ := hPrefix
        obtain ⟨d, more, rfl, hd⟩ := h hA.symm hB.symm hC.symm
        exact absurd (List.cons_prefix_cons.mp hRest).1.symm hd
      · exact hTail
    · exact .inr
  rw [OpenBlank, OpenBlank, hSuffix, hInfix]

theorem openBlank_three {a b c : UInt8} : OpenBlank [a, b, c] ↔ a = 13 ∧ b = 10 ∧ c = 13 := by
  constructor
  · rintro ⟨hSuffix, _⟩
    have hEq := hSuffix.eq_of_length rfl
    simp only [List.cons.injEq] at hEq
    exact ⟨hEq.1.symm, hEq.2.1.symm, hEq.2.2.1.symm⟩
  · rintro ⟨rfl, rfl, rfl⟩
    decide

theorem not_openBlank_of_blank {rest : Bytes} : ¬ OpenBlank (13 :: 10 :: 13 :: 10 :: rest) := by
  rintro ⟨_, hNone⟩
  exact hNone ⟨[], rest, rfl⟩

theorem crlfReads_lt (behind raw : Bytes) : ∀ i, (∀ j ∈ crlfReads behind i raw, j < i + raw.length) ↔
    ¬ OpenBlank raw := by
  induction raw with
  | nil => exact fun i => ⟨fun _ => not_openBlank_short (by decide), fun _ j hj => absurd hj List.not_mem_nil⟩
  | cons a tail ih =>
    intro i
    match tail, ih with
    | [], _ => exact ⟨fun _ => not_openBlank_short (by simp), fun _ j hj => absurd hj List.not_mem_nil⟩
    | [b], _ => exact ⟨fun _ => not_openBlank_short (by simp), fun _ j hj => absurd hj List.not_mem_nil⟩
    | b :: c :: rest, ih =>
      have hLength : i + (a :: b :: c :: rest).length = i + 1 + (b :: c :: rest).length := by
        rw [List.length_cons]
        omega
      have hRest : (b :: c :: rest).length = rest.length + 2 := rfl
      have hNext := ih (i + 1)
      rw [crlfReads, hLength]
      by_cases hA : a = 13
      · by_cases hB : b = 10
        · by_cases hC : c = 13
          · rw [if_neg (not_not.mpr hA), if_neg (not_not.mpr hB), if_neg (not_not.mpr hC)]
            subst hA hB hC
            match rest, hRest with
            | [], hRest =>
              have hBad : i + 3 ∈ if ([] ++ behind).head? = some 10 then [i, i + 1, i + 2, i + 3]
                  else i :: (i + 1) :: (i + 2) :: (i + 3) :: crlfReads behind (i + 1) [10, 13] := by
                split <;> simp
              constructor
              · intro hAll
                have hLt := hAll (i + 3) hBad
                rw [hRest] at hLt
                simp only [List.length_nil] at hLt
                omega
              · intro hOpen
                exact absurd (openBlank_three.mpr ⟨rfl, rfl, rfl⟩) hOpen
            | d :: more, hRest =>
              have hMore : (d :: more).length = more.length + 1 := rfl
              by_cases hD : d = 10
              · subst hD
                rw [List.cons_append, List.head?_cons, if_pos rfl]
                refine ⟨fun _ => not_openBlank_of_blank, fun _ j hj => ?_⟩
                simp only [List.mem_cons, List.not_mem_nil, or_false] at hj
                rw [hRest, hMore]
                omega
              · rw [List.cons_append, List.head?_cons, if_neg fun hHead => hD (Option.some.inj hHead),
                  openBlank_cons fun _ _ _ => ⟨d, more, rfl, hD⟩, ← hNext]
                simp only [List.forall_mem_cons]
                constructor
                · exact fun hAll => hAll.2.2.2.2
                · exact fun hAll => ⟨by omega, by omega, by omega, by omega, hAll⟩
          · rw [if_neg (not_not.mpr hA), if_neg (not_not.mpr hB), if_pos hC, openBlank_cons fun _ _ h =>
              absurd h hC, ← hNext]
            simp only [List.forall_mem_cons]
            constructor
            · exact fun hAll => hAll.2.2.2
            · exact fun hAll => ⟨by omega, by omega, by omega, hAll⟩
        · rw [if_neg (not_not.mpr hA), if_pos hB, openBlank_cons fun _ h _ => absurd h hB, ← hNext]
          simp only [List.forall_mem_cons]
          constructor
          · exact fun hAll => hAll.2.2
          · exact fun hAll => ⟨by omega, by omega, hAll⟩
      · rw [if_pos hA, openBlank_cons fun h _ _ => absurd h hA, ← hNext]
        simp only [List.forall_mem_cons]
        constructor
        · exact fun hAll => hAll.2
        · exact fun hAll => ⟨by omega, hAll⟩

theorem lfReads_lt (raw : Bytes) : ∀ i, ∀ j ∈ lfReads i raw, j < i + raw.length := by
  induction raw with
  | nil => exact fun i j hj => absurd hj List.not_mem_nil
  | cons a tail ih =>
    intro i j hj
    match tail, ih, hj with
    | b :: rest, ih, hj =>
      have hNext := ih (i + 1) j
      have hLength : (a :: b :: rest).length = (b :: rest).length + 1 := rfl
      have hTail : (b :: rest).length = rest.length + 1 := rfl
      rw [lfReads] at hj
      split at hj
      · obtain rfl | hj := List.mem_cons.mp hj
        · omega
        · exact (hNext hj).trans_eq (by omega)
      · split at hj
        · simp only [List.mem_cons, List.not_mem_nil, or_false] at hj
          omega
        · obtain rfl | hj := List.mem_cons.mp hj
          · omega
          · obtain rfl | hj := List.mem_cons.mp hj
            · omega
            · exact (hNext hj).trans_eq (by omega)

/-! ## Where a head ends -/

theorem crlfEnd_behind (behind raw : Bytes) :
    ∀ i, crlfEnd behind i raw = crlfEnd [] i (raw ++ behind.take 1) := by
  have hOne : (behind.take 1).length ≤ 1 := List.length_take_le 1 behind
  induction raw with
  | nil => exact fun i => (crlfEnd_short (hOne.trans (by decide)) i).symm
  | cons a tail ih =>
    intro i
    match tail, ih with
    | [], _ =>
      refine (crlfEnd_short ?_ i).symm
      rw [List.length_append, List.length_singleton]
      omega
    | [b], _ =>
      refine (crlfEnd_short ?_ i).symm
      rw [List.length_append, List.length_cons, List.length_singleton]
      omega
    | b :: c :: rest, ih =>
      have hHead : (rest ++ behind.take 1).head? = (rest ++ behind).head? := by
        rw [List.head?_append, List.head?_append, List.head?_take, if_neg (Nat.succ_ne_zero 0)]
      rw [List.cons_append, List.cons_append, List.cons_append, crlfEnd, crlfEnd, List.append_nil,
        hHead, ih (i + 1)]
      rfl

theorem crlfEnd_append {l : Bytes} {i stop : Nat} (h : crlfEnd [] i l = some stop) (m : Bytes) :
    crlfEnd [] i (l ++ m) = some stop ∧ stop ≤ i + l.length := by
  have hCut := crlfEnd_cut [] (l ++ m) i l.length (by rw [List.length_append]; omega)
  rw [List.append_nil, List.take_left, h] at hCut
  obtain ⟨hSome, hLe⟩ := Option.filter_eq_some_iff.mp hCut.symm
  exact ⟨hSome, of_decide_eq_true hLe⟩

theorem crlfEnd_of_append {l m : Bytes} {i stop : Nat} (h : crlfEnd [] i (l ++ m) = some stop)
    (hLe : stop ≤ i + l.length) :
    crlfEnd [] i l = some stop := by
  have hCut := crlfEnd_cut [] (l ++ m) i l.length (by rw [List.length_append]; omega)
  rw [List.append_nil, List.take_left, h] at hCut
  rw [hCut]
  exact Option.filter_some_pos (decide_eq_true hLe)

theorem crlfEnd_eq_none {l : Bytes} : ∀ i, crlfEnd [] i l = none ↔ ¬ [13, 10, 13, 10] <:+: l := by
  have hShort : ∀ {l : Bytes}, l.length ≤ 3 → ∀ i, crlfEnd [] i l = none ↔ ¬ [13, 10, 13, 10] <:+: l := by
    intro l hLength i
    refine ⟨fun _ hInfix => ?_, fun _ => crlfEnd_short hLength i⟩
    have hLe := hInfix.length_le
    simp only [List.length_cons, List.length_nil] at hLe
    omega
  induction l with
  | nil => exact hShort (by decide)
  | cons a tail ih =>
    rcases tail with _ | ⟨b, _ | ⟨c, rest⟩⟩
    · exact hShort (by simp)
    · exact hShort (by simp)
    · intro i
      rw [crlfEnd, List.append_nil, List.infix_cons_iff, not_or, ← ih (i + 1)]
      have hPrefix : [13, 10, 13, 10] <+: a :: b :: c :: rest ↔ a = 13 ∧ b = 10 ∧ c = 13 ∧
        rest.head? = some 10 := by
        simp only [List.cons_prefix_cons]
        constructor
        · rintro ⟨hA, hB, hC, more, hRest⟩
          exact ⟨hA.symm, hB.symm, hC.symm, by rw [← hRest]; rfl⟩
        · rintro ⟨hA, hB, hC, hHead⟩
          obtain ⟨more, hRest⟩ := List.head?_eq_some_iff.mp hHead
          exact ⟨hA.symm, hB.symm, hC.symm, more, hRest.symm⟩
      rw [hPrefix]
      split
      · rename_i hBlank
        exact ⟨fun hSome => absurd hSome (Option.some_ne_none _), fun hNone => absurd hBlank hNone.1⟩
      · rename_i hBlank
        exact ⟨fun hNone => ⟨hBlank, hNone⟩, fun hNone => hNone.2⟩

theorem lfEnd_append {l : Bytes} {stop : Nat} : ∀ i, lfEnd i l = some stop → ∀ m : Bytes,
    lfEnd i (l ++ m) = some stop ∧ stop ≤ i + l.length := by
  induction l with
  | nil => exact fun i h => nomatch h
  | cons a tail ih =>
    intro i h m
    match tail, ih, h with
    | b :: rest, ih, h =>
      rw [lfEnd] at h
      rw [List.cons_append, List.cons_append, lfEnd, List.length_cons, List.length_cons]
      split at h
      · rename_i hBlank
        obtain rfl := Option.some.inj h
        rw [if_pos hBlank]
        exact ⟨rfl, by omega⟩
      · rename_i hBlank
        obtain ⟨hMore, hLe⟩ := ih (i + 1) h m
        rw [List.length_cons] at hLe
        rw [if_neg hBlank]
        exact ⟨hMore, by omega⟩

theorem crlfEnd_le {behind raw : Bytes} : ∀ i stop : Nat, crlfEnd behind i raw = some stop →
    stop ≤ i + raw.length ∨ stop = i + raw.length + 1 ∧ OpenBlank raw ∧ behind.head? = some 10 := by
  induction raw with
  | nil => exact fun i stop h => nomatch h
  | cons a tail ih =>
    intro i stop h
    match tail, ih, h with
    | b :: c :: rest, ih, h =>
      have hLength : (a :: b :: c :: rest).length = (b :: c :: rest).length + 1 := rfl
      have hTail : (b :: c :: rest).length = rest.length + 2 := rfl
      rw [crlfEnd] at h
      split at h
      · rename_i hBlank
        obtain ⟨hA, hB, hC, hHead⟩ := hBlank
        obtain rfl := Option.some.inj h
        cases rest with
        | nil => exact .inr ⟨rfl, openBlank_three.mpr ⟨hA, hB, hC⟩, hHead⟩
        | cons d more =>
          have hMore : (d :: more).length = more.length + 1 := rfl
          left
          rw [hLength, hTail, hMore]
          omega
      · rename_i hBlank
        obtain hLe | ⟨hStop, hOpen, hHead⟩ := ih (i + 1) stop h
        · left
          omega
        · refine .inr ⟨by omega, ?_, hHead⟩
          refine (openBlank_cons ?_).mpr hOpen
          intro hA hB hC
          cases rest with
          | nil => cases h
          | cons d more =>
            refine ⟨d, more, rfl, fun hD => hBlank ⟨hA, hB, hC, ?_⟩⟩
            rw [hD]
            rfl

theorem findHeaderEnd_le {raw behind : Bytes} {stop : Nat} (h : findHeaderEnd raw behind = some stop) :
    stop ≤ raw.length ∨ stop = raw.length + 1 ∧ OpenBlank raw ∧ behind.head? = some 10 := by
  rw [findHeaderEnd] at h
  cases hCrlf : crlfEnd behind 0 raw with
  | some stop' =>
    rw [hCrlf] at h
    obtain rfl := Option.some.inj h
    have hLe := crlfEnd_le 0 stop' hCrlf
    rw [Nat.zero_add] at hLe
    exact hLe
  | none =>
    rw [hCrlf] at h
    have hLe := (lfEnd_append 0 h []).2
    rw [Nat.zero_add] at hLe
    exact .inl hLe

/-! ## Staying within the view -/

/-- The search reads the view and nothing else, and the sizes computed from its
result make sense. -/
structure ScanSafe (raw behind : Bytes) : Prop where
  reads : ∀ i ∈ findHeaderEndReads raw behind, i < raw.length
  result : ∀ stop, findHeaderEnd raw behind = some stop → stop ≤ raw.length
  bodyLength : httpRequestParseAdv raw behind ≠ .overread
  consumed : ∀ req n, httpRequestParseAdv raw behind = .ok req n → n ≤ raw.length

theorem findHeaderEndReads_lt (raw behind : Bytes) :
    (∀ i ∈ findHeaderEndReads raw behind, i < raw.length) ↔ ¬ OpenBlank raw := by
  have hCrlf := crlfReads_lt behind raw 0
  have hLf := lfReads_lt raw 0
  rw [Nat.zero_add] at hCrlf hLf
  rw [findHeaderEndReads, ← hCrlf]
  constructor
  · exact fun h i hi => h i (List.mem_append_left _ hi)
  · intro h i hi
    obtain hi | hi := List.mem_append.mp hi
    · exact h i hi
    · split at hi
      · cases hi
      · exact hLf i hi

/-- The search stays within a view unless the view stops in the middle of its first
blank line. -/
theorem scanSafe_iff (raw behind : Bytes) : ScanSafe raw behind ↔ ¬ OpenBlank raw := by
  constructor
  · exact fun h => (findHeaderEndReads_lt raw behind).mp h.reads
  · intro hClosed
    have hResult : ∀ stop, findHeaderEnd raw behind = some stop → stop ≤ raw.length := by
      intro stop hEnd
      obtain hLe | ⟨_, hOpen, _⟩ := findHeaderEnd_le hEnd
      · exact hLe
      · exact absurd hOpen hClosed
    refine ⟨(findHeaderEndReads_lt raw behind).mpr hClosed, hResult, ?_, ?_⟩
    · intro hOver
      obtain ⟨stop, hEnd, hLt⟩ := parseAdv_overread hOver
      exact absurd (hResult stop hEnd) (not_le.mpr hLt)
    · intro req n hOk
      have hParsed := httpRequestParseAdv_parsed hOk
      by_cases hNone : httpRequestGetHeader req (ascii "content-length") = none
      · rw [(hParsed.unmeasured hNone).2.1]
        exact hParsed.inside
      · exact (hParsed.measured hNone).2.2

def cutBlank : Bytes := ascii "GET / HTTP/1.1\r\n\r"

/-- With a line feed left over behind the view, the body takes in all of memory. -/
theorem cutBlank_unsafe : ¬ ScanSafe cutBlank [10] ∧ httpRequestParseAdv cutBlank [10] = .overread :=
  ⟨fun h => absurd (h.reads 17 (by decide +kernel)) (by decide +kernel), by decide +kernel⟩

end Cweb
