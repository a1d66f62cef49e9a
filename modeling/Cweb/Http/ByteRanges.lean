import Cweb.Http.Static
import Cweb.Lib.Intervals
import Cweb.Utils.SvInteger

/-!
# Byte ranges of a file

Every operation on windows is checked here against the width of its type. None
leaves it, for no file and no header, and the windows are sorted, apart and
inside the file. They cover the bytes that the specs ask for, but for specs with
a number that a `long long` does not hold: such a spec counts as unsatisfiable.
-/

namespace Cweb.Static

open Sv Intervals

/-! ## Arithmetic on windows -/

def addSize (a b : Nat) : Option Nat := if a + b < 2 ^ 64 then some (a + b) else none

def subSize (a b : Nat) : Option Nat := if b ≤ a then some (a - b) else none

def subLong (a b : Int) : Option Int := if -2 ^ 63 ≤ a - b ∧ a - b ≤ llongMax then some (a - b) else none

/-- `range_spec`, with no result where its arithmetic has none. -/
def rangeSpecChecked (spec : Bytes) (fsize : Nat) : Option (Option ByteRange) :=
  let chopped := svChopByDelim 45 (svTrim spec)
  let start := svTrim chopped.1
  let spec := svTrim chopped.2
  if start = [] ∧ spec = [] then some none
  else if spec = [] then
    match svToI64 start with
    | none => some none
    | some start =>
      if start < 0 ∨ fsize ≤ start.toNat then some none
      else (subSize fsize start.toNat).map fun n => some ⟨start.toNat, n⟩
  else if start = [] then
    match svToI64 spec with
    | none => some none
    | some last =>
      if last ≤ 0 ∨ fsize = 0 then some none
      else
        let n := if last.toNat < fsize then last.toNat else fsize
        (subSize fsize n).map fun base => some ⟨base, n⟩
  else
    match svToI64 start, svToI64 spec with
    | some start, some last =>
      if start < 0 ∨ last < start ∨ fsize ≤ start.toNat then some none
      else
        match subLong last start with
        | none => none
        | some more =>
          match addSize more.toNat 1, subSize fsize start.toNat with
          | some want, some left => some (some ⟨start.toNat, if want < left then want else left⟩)
          | _, _ => none
    | _, _ => some none

def coalesceChecked (cap : Nat) (out : List ByteRange) (r : ByteRange) : Option (List ByteRange) :=
  if cap ≤ out.length then some out
  else
    match out.getLast? with
    | none => some (out ++ [r])
    | some last =>
      match addSize last.base last.n with
      | none => none
      | some prevEnd =>
        if r.base ≤ prevEnd then
          match addSize r.base r.n with
          | none => none
          | some stop =>
            if prevEnd < stop then
              match (subSize stop prevEnd).bind (addSize last.n) with
              | none => none
              | some n => some (out.dropLast ++ [⟨last.base, n⟩])
            else some out
        else some (out ++ [r])

def takeSpec (fsize : Nat) (raw : List ByteRange) (spec : Bytes) : Option (List ByteRange) :=
  if raw.length < maxRanges then (rangeSpecChecked spec fsize).map fun r => raw ++ r.toList else some raw

/-- What `qsort` is known to do. Windows with the same start may come in any
order. -/
def Sorts (qsort : List ByteRange → List ByteRange) : Prop :=
  ∀ raw, (qsort raw).Perm raw ∧ (qsort raw).Pairwise fun a b => a.base ≤ b.base

/-- `parse_ranges`: its windows, or `none` for -1. -/
def parseRangesChecked (qsort : List ByteRange → List ByteRange) (header : Bytes) (fsize cap : Nat) :
    Option (Option (List ByteRange)) :=
  let header := svTrim header
  if ¬(ascii "bytes=").isPrefixOf header then some (some [])
  else
    let header := header.drop 6
    if 44 ∉ header then (rangeSpecChecked header fsize).map fun r => r.map fun r => [r]
    else
      match (svSplit 44 header).foldlM (takeSpec fsize) [] with
      | none => none
      | some raw => if raw = [] then some none else ((qsort raw).foldlM (coalesceChecked cap) []).map some

theorem addSize_of_lt {a b : Nat} (h : a + b < 2 ^ 64) : addSize a b = some (a + b) := if_pos h

theorem subSize_of_le {a b : Nat} (h : b ≤ a) : subSize a b = some (a - b) := if_pos h

/-! ## One window -/

/-- Some bytes of the file. -/
def InFile (fsize : Nat) (r : ByteRange) : Prop := 0 < r.n ∧ r.base + r.n ≤ fsize

theorem rangeSpecChecked_eq (spec : Bytes) (fsize : Nat) :
    rangeSpecChecked spec fsize = some (rangeSpec spec fsize) := by
  have hMax : llongMax = 9223372036854775807 := rfl
  rw [rangeSpecChecked, rangeSpec]
  dsimp only
  split
  · rfl
  split
  · cases svToI64 (svTrim (svChopByDelim 45 (svTrim spec)).1) with
    | none => rfl
    | some start =>
      dsimp only
      split
      · rfl
      · next hIn => rw [subSize_of_le (by omega), Option.map_some]
  split
  · cases svToI64 (svTrim (svChopByDelim 45 (svTrim spec)).2) with
    | none => rfl
    | some last =>
      dsimp only
      split
      · rfl
      · rw [← min_def_lt, subSize_of_le (Nat.min_le_right _ _), Option.map_some]
  cases svToI64 (svTrim (svChopByDelim 45 (svTrim spec)).1) with
  | none => rfl
  | some start =>
    cases hLast : svToI64 (svTrim (svChopByDelim 45 (svTrim spec)).2) with
    | none => rfl
    | some last =>
      have hLe := svToI64_le hLast
      dsimp only
      split
      · rfl
      · next hIn =>
        rw [subLong, if_pos (by omega)]
        dsimp only
        rw [addSize_of_lt (by omega), subSize_of_le (by omega)]
        dsimp only
        rw [← min_def_lt]

theorem rangeSpec_inFile {spec : Bytes} {fsize : Nat} {r : ByteRange}
    (h : rangeSpec spec fsize = some r) : InFile fsize r := by
  rw [rangeSpec] at h
  dsimp only at h
  split at h
  · cases h
  split at h
  · split at h
    · cases h
    · split at h
      · cases h
      · next hIn =>
        cases h
        constructor <;> dsimp only <;> omega
  split at h
  · split at h
    · cases h
    · split at h
      · cases h
      · next hIn =>
        cases h
        constructor <;> dsimp only <;> omega
  split at h
  · split at h
    · cases h
    · next hIn =>
      cases h
      constructor <;> dsimp only <;> omega
  · cases h

/-! ## Coalescing -/

def spanOf (r : ByteRange) : Span Nat := ⟨r.base, r.base + r.n⟩

theorem spanOf_injective : Function.Injective spanOf := by
  rintro ⟨base, n⟩ ⟨base', n'⟩ h
  simp only [spanOf, Span.mk.injEq] at h
  obtain ⟨rfl, hStop⟩ := h
  rw [ByteRange.mk.injEq]
  exact ⟨rfl, Nat.add_left_cancel hStop⟩

theorem coalesce_concat {cap : Nat} {init : List ByteRange} {last : ByteRange}
    (hRoom : (init ++ [last]).length < cap) (r : ByteRange) :
    coalesce cap (init ++ [last]) r = if r.base ≤ last.base + last.n
      then init ++ [⟨last.base, max (last.base + last.n) (r.base + r.n) - last.base⟩]
        else init ++ [last] ++ [r] := by
  rw [coalesce, if_neg (Nat.not_le.mpr hRoom), List.getLast?_concat, List.dropLast_concat]

theorem map_spanOf_coalesce {cap : Nat} {out : List ByteRange} (hRoom : out.length < cap) (r : ByteRange) :
    (coalesce cap out r).map spanOf = absorb (out.map spanOf) (spanOf r) := by
  cases out using List.reverseRecOn with
  | nil => rw [coalesce, if_neg (Nat.not_le.mpr hRoom)]; rfl
  | append_singleton init last _ =>
    rw [coalesce_concat hRoom, List.map_append, List.map_singleton, absorb_concat]
    dsimp only [spanOf]
    split
    · next hTouch =>
      have hStop : last.base + (max (last.base + last.n) (r.base + r.n) - last.base) = max
        (last.base + last.n) (r.base + r.n) := by omega
      simp [spanOf, hStop, hTouch]
    · next hBehind => simp [spanOf, hBehind]

theorem length_coalesce_le (cap : Nat) (out : List ByteRange) (r : ByteRange) :
    (coalesce cap out r).length ≤ out.length + 1 := by
  cases out using List.reverseRecOn with
  | nil => rw [coalesce]; split <;> simp
  | append_singleton init last _ =>
    by_cases hRoom : (init ++ [last]).length < cap
    · rw [coalesce_concat hRoom]
      split <;> simp
    · rw [coalesce, if_pos (Nat.le_of_not_lt hRoom)]
      exact Nat.le_succ _

theorem coalesce_inFile {cap fsize : Nat} {out : List ByteRange} (hOut : ∀ q ∈ out, InFile fsize q)
    {r : ByteRange} (hr : InFile fsize r) :
    ∀ q ∈ coalesce cap out r, InFile fsize q := by
  cases out using List.reverseRecOn with
  | nil =>
    rw [coalesce]
    split
    · exact hOut
    · simpa using hr
  | append_singleton init last _ =>
    by_cases hRoom : (init ++ [last]).length < cap
    · have hLast := hOut last (by simp)
      rw [coalesce_concat hRoom]
      intro q hq
      split at hq
      · rcases List.mem_append.mp hq with hq | hq
        · exact hOut q (List.mem_append_left _ hq)
        · rw [List.mem_singleton.mp hq]
          unfold InFile at hLast hr ⊢
          dsimp only
          omega
      · rcases List.mem_append.mp hq with hq | hq
        · exact hOut q hq
        · rw [List.mem_singleton.mp hq]
          exact hr
    · rw [coalesce, if_pos (Nat.le_of_not_lt hRoom)]
      exact hOut

theorem coalesceChecked_eq {cap fsize : Nat} (hSize : fsize < 2 ^ 64) {out : List ByteRange}
    (hOut : ∀ q ∈ out, InFile fsize q)
    {r : ByteRange} (hr : InFile fsize r) : coalesceChecked cap out r = some (coalesce cap out r) := by
  cases out using List.reverseRecOn with
  | nil =>
    rw [coalesceChecked, coalesce]
    split <;> rfl
  | append_singleton init last _ =>
    rw [coalesceChecked]
    by_cases hRoom : (init ++ [last]).length < cap
    · have hLast := hOut last (by simp)
      unfold InFile at hLast hr
      rw [coalesce_concat hRoom, if_neg (Nat.not_le.mpr hRoom), List.getLast?_concat, List.dropLast_concat]
      dsimp only
      rw [@addSize_of_lt last.base last.n (by omega)]
      dsimp only
      split
      · rw [@addSize_of_lt r.base r.n (by omega)]
        dsimp only
        split
        · next hMore =>
          rw [subSize_of_le (Nat.le_of_lt hMore), Option.bind_some, addSize_of_lt (by omega)]
          dsimp only
          rw [Nat.max_eq_right (Nat.le_of_lt hMore)]
          congr 4
          omega
        · next hWithin =>
          rw [Nat.max_eq_left (Nat.le_of_not_lt hWithin), Nat.add_sub_cancel_left]
      · rfl
    · rw [coalesce, if_pos (Nat.le_of_not_lt hRoom), if_pos (Nat.le_of_not_lt hRoom)]

/-! ## A sorted list of windows -/

theorem map_spanOf_foldl {cap : Nat} (l : List ByteRange) : ∀ out :
    List ByteRange, out.length + l.length ≤ cap →
    (l.foldl (coalesce cap) out).map spanOf = (l.map spanOf).foldl absorb (out.map spanOf) := by
  induction l with
  | nil => exact fun _ _ => rfl
  | cons r l ih =>
    intro out hFew
    rw [List.length_cons] at hFew
    have hRoom : (coalesce cap out r).length + l.length ≤ cap := by
      have hLe := length_coalesce_le cap out r
      omega
    rw [List.foldl_cons, ih _ hRoom, map_spanOf_coalesce (by omega), List.map_cons, List.foldl_cons]

theorem foldl_coalesce_inFile {cap fsize : Nat} (l : List ByteRange) : ∀ out : List ByteRange,
    (∀ q ∈ out, InFile fsize q) → (∀ r ∈ l, InFile fsize r) → ∀ q ∈ l.foldl (coalesce cap) out,
      InFile fsize q := by
  induction l with
  | nil => exact fun _ hOut _ => hOut
  | cons r l ih =>
    intro out hOut hIn
    exact ih _ (coalesce_inFile hOut (hIn r List.mem_cons_self)) fun q hq => hIn q (List.mem_cons_of_mem _ hq)

theorem foldlM_coalesceChecked {cap fsize : Nat} (hSize : fsize < 2 ^ 64) (l : List ByteRange) : ∀ out :
    List ByteRange,
    (∀ q ∈ out, InFile fsize q) → (∀ r ∈ l, InFile fsize r) →
      l.foldlM (coalesceChecked cap) out = some (l.foldl (coalesce cap) out) := by
  induction l with
  | nil => exact fun _ _ _ => rfl
  | cons r l ih =>
    intro out hOut hIn
    have hr := hIn r List.mem_cons_self
    rw [List.foldlM_cons, coalesceChecked_eq hSize hOut hr]
    exact ih _ (coalesce_inFile hOut hr) fun q hq => hIn q (List.mem_cons_of_mem _ hq)

/-- Windows that are sorted, not empty, inside the file, and neither overlap nor
touch. -/
structure Windows (fsize : Nat) (l : List ByteRange) : Prop where
  inside : ∀ r ∈ l, InFile fsize r
  apart : l.Pairwise fun a b => a.base + a.n < b.base

theorem apart_of_windows {fsize : Nat} {l : List ByteRange} (h : Windows fsize l) : Apart (l.map spanOf) := by
  refine ⟨?_, List.pairwise_map.mpr h.apart⟩
  intro s hs
  obtain ⟨r, hr, rfl⟩ := List.mem_map.mp hs
  exact Nat.lt_add_of_pos_right (h.inside r hr).1

/-- Some window holds the byte. -/
def Served (l : List ByteRange) (x : Nat) : Prop := ∃ r ∈ l, r.base ≤ x ∧ x < r.base + r.n

theorem covers_map_spanOf (l : List ByteRange) (x : Nat) : Covers (l.map spanOf) x ↔ Served l x := by
  simp [Covers, Served, spanOf, Span.Mem]

theorem windows_of_sorted {cap fsize : Nat} {raw sorted : List ByteRange}
    (hIn : ∀ r ∈ raw, InFile fsize r) (hFew : raw.length ≤ cap)
    (hPerm : sorted.Perm raw) (hSorted : sorted.Pairwise fun a b => a.base ≤ b.base) :
    Windows fsize (sorted.foldl (coalesce cap) []) ∧ ∀ x, Served (sorted.foldl (coalesce cap) []) x ↔
      Served raw x := by
  have hInSorted : ∀ r ∈ sorted, InFile fsize r := fun r hr => hIn r (hPerm.subset hr)
  have hMap := @map_spanOf_foldl cap sorted [] (by rw [hPerm.length_eq]; simpa using hFew)
  obtain ⟨hApart, hCovers⟩ := foldl_absorb (sorted.map spanOf) [] ⟨by simp, List.Pairwise.nil⟩
    (by
      intro s hs
      obtain ⟨r, hr, rfl⟩ := List.mem_map.mp hs
      exact Nat.lt_add_of_pos_right (hInSorted r hr).1)
    (List.pairwise_map.mpr hSorted) (by simp)
  rw [List.map_nil] at hMap
  rw [← hMap] at hApart hCovers
  refine ⟨⟨foldl_coalesce_inFile sorted [] (by simp) hInSorted, List.pairwise_map.mp hApart.gaps⟩,
    fun x => ?_⟩
  rw [← covers_map_spanOf, hCovers, covers_map_spanOf, or_iff_right (covers_nil x)]
  simp only [Served, hPerm.mem_iff]

theorem windows_unique {fsize : Nat} {l l' : List ByteRange} (h : Windows fsize l)
    (h' : Windows fsize l') (hSame : ∀ x, Served l x ↔ Served l' x) :
    l = l' := by
  refine List.map_injective_iff.mpr spanOf_injective
    (Apart.unique (apart_of_windows h) (apart_of_windows h') fun x => ?_)
  rw [covers_map_spanOf, covers_map_spanOf, hSame]

theorem sorts_mergeSort : Sorts fun raw => raw.mergeSort fun a b => decide (a.base ≤ b.base) := by
  intro raw
  refine ⟨List.mergeSort_perm _ _, ?_⟩
  have hSorted :=
    @List.pairwise_mergeSort _ (fun a b : ByteRange => decide (a.base ≤ b.base))
      (by simpa using fun _ _ _ => Nat.le_trans)
    (by simpa using fun a b : ByteRange => Nat.le_total a.base b.base) raw
  simpa using hSorted

/-! ## The whole header -/

theorem foldlM_takeSpec (fsize : Nat) (specs : List Bytes) : ∀ raw : List ByteRange, raw.length ≤ maxRanges →
    specs.foldlM (takeSpec fsize) raw = some
      ((raw ++ specs.filterMap fun spec => rangeSpec spec fsize).take maxRanges) := by
  induction specs with
  | nil =>
    intro raw hFew
    rw [List.filterMap_nil, List.append_nil, List.take_of_length_le hFew]
    rfl
  | cons spec specs ih =>
    intro raw hFew
    rw [List.foldlM_cons, takeSpec]
    split
    · next hRoom =>
      rw [rangeSpecChecked_eq, Option.map_some]
      refine (ih _ ?_).trans ?_
      · cases rangeSpec spec fsize <;> simp <;> omega
      · rw [List.append_assoc]
        cases hSpec : rangeSpec spec fsize with
        | none => simp [hSpec]
        | some r => simp [hSpec]
    · next hFull =>
      have hLength : raw.length = maxRanges := by omega
      refine (ih raw hFew).trans ?_
      rw [← hLength, List.take_left, List.take_left]

/-- The windows for what the specs ask, when there are any. -/
def windowsOf (raw : List ByteRange) (cap : Nat) : Option (List ByteRange) :=
  if raw = [] then none
  else some ((raw.mergeSort fun a b => decide (a.base ≤ b.base)).foldl (coalesce cap) [])

theorem parseRangesChecked_eq {qsort : List ByteRange → List ByteRange} (hSort : Sorts qsort)
    (header : Bytes) {fsize : Nat}
    (hSize : fsize < 2 ^ 64) :
    parseRangesChecked qsort header fsize maxRanges = some (parseRanges header fsize maxRanges) := by
  rw [parseRangesChecked, parseRanges]
  dsimp only
  split
  · rfl
  split
  · rw [rangeSpecChecked_eq, Option.map_some]
  · rw [foldlM_takeSpec _ _ _ (Nat.zero_le _), List.nil_append]
    dsimp only
    generalize hRaw : ((svSplit 44 ((svTrim header).drop 6)).filterMap fun spec =>
      rangeSpec spec fsize).take maxRanges = raw
    have hIn : ∀ r ∈ raw, InFile fsize r := by
      intro r hr
      rw [← hRaw] at hr
      obtain ⟨spec, -, hSpec⟩ := List.mem_filterMap.mp (List.mem_of_mem_take hr)
      exact rangeSpec_inFile hSpec
    have hFew : raw.length ≤ maxRanges := hRaw ▸ List.length_take_le _ _
    split
    · rfl
    · obtain ⟨hPerm, hSorted⟩ := hSort raw
      obtain ⟨hMergePerm, hMergeSorted⟩ := sorts_mergeSort raw
      obtain ⟨hWindows, hServed⟩ := windows_of_sorted hIn hFew hPerm hSorted
      obtain ⟨hWindows', hServed'⟩ := windows_of_sorted hIn hFew hMergePerm hMergeSorted
      rw [foldlM_coalesceChecked hSize _ [] (by simp) fun r hr => hIn r (hPerm.subset hr), Option.map_some,
        windows_unique hWindows hWindows' fun x => (hServed x).trans (hServed' x).symm]

theorem parseRanges_windows {header : Bytes} {fsize : Nat} {l : List ByteRange}
    (h : parseRanges header fsize maxRanges = some l) :
    Windows fsize l := by
  rw [parseRanges] at h
  dsimp only at h
  split at h
  · cases h
    exact ⟨by simp, List.Pairwise.nil⟩
  split at h
  · obtain ⟨r, hSpec, rfl⟩ := Option.map_eq_some_iff.mp h
    exact ⟨by simpa using rangeSpec_inFile hSpec, List.pairwise_singleton _ _⟩
  split at h
  · cases h
  · cases h
    refine (windows_of_sorted ?_ (List.length_take_le _ _) (sorts_mergeSort _).1 (sorts_mergeSort _).2).1
    intro r hr
    obtain ⟨spec, -, hSpec⟩ := List.mem_filterMap.mp (List.mem_of_mem_take hr)
    exact rangeSpec_inFile hSpec

/-! ## Specs -/

/-- A spec as it stands in a header: digits on at least one side of a hyphen. -/
structure RangeText where
  before : Bytes
  first : Bytes
  last : Bytes
  after : Bytes

namespace RangeText

def body (s : RangeText) : Bytes := s.first ++ 45 :: s.last

def text (s : RangeText) : Bytes := s.before ++ (s.body ++ s.after)

structure Valid (s : RangeText) : Prop where
  blank : ∀ b ∈ s.before ++ s.after, b = 32 ∨ b = 9
  digits : ∀ b ∈ s.first ++ s.last, isdigit b = true
  some : s.first ≠ [] ∨ s.last ≠ []

end RangeText

/-- The bytes of the file that a spec asks for: its last ones, or those from one
index on to the end or to another. -/
def Asked (s : RangeText) (fsize x : Nat) : Prop :=
  x < fsize ∧ if s.first = [] then fsize ≤ x + numberOf s.last else numberOf s.first ≤ x ∧
    (s.last = [] ∨ x ≤ numberOf s.last)

/-- Whether a spec asks for bytes that the file has. -/
def satisfiable (s : RangeText) (fsize : Nat) : Bool :=
  if s.first = [] then decide (0 < numberOf s.last) && decide (0 < fsize)
  else decide (numberOf s.first < fsize) &&
    (decide (s.last = []) || decide (numberOf s.first ≤ numberOf s.last))

/-- Its numbers are at most 2^63-1. -/
def Readable (s : RangeText) : Prop := (numberOf s.first : Int) ≤ llongMax ∧
    (numberOf s.last : Int) ≤ llongMax

theorem satisfiable_iff (s : RangeText) (fsize : Nat) : satisfiable s fsize = true ↔
    ∃ x, Asked s fsize x := by
  rw [satisfiable]
  by_cases hFirst : s.first = []
  · simp only [Asked, hFirst, if_true, Bool.and_eq_true, decide_eq_true_eq]
    constructor
    · rintro ⟨hLast, hSize⟩
      exact ⟨fsize - 1, by omega, by omega⟩
    · rintro ⟨x, hx, hLast⟩
      exact ⟨by omega, by omega⟩
  · simp only [Asked, hFirst, if_false, Bool.and_eq_true, Bool.or_eq_true, decide_eq_true_eq]
    constructor
    · rintro ⟨hIn, hLast⟩
      exact ⟨numberOf s.first, hIn, Nat.le_refl _, hLast⟩
    · rintro ⟨x, hx, hFrom, hLast⟩
      exact ⟨by omega, hLast.imp_right fun hLe => hFrom.trans hLe⟩

namespace RangeText

variable {s : RangeText}

theorem Valid.solid (h : s.Valid) : ∀ b ∈ s.body, isspace b = false := by
  intro b hb
  rcases List.mem_append.mp hb with hb | hb
  · exact isspace_of_isdigit (h.digits b (List.mem_append_left _ hb))
  · rcases List.mem_cons.mp hb with rfl | hb
    · decide
    · exact isspace_of_isdigit (h.digits b (List.mem_append_right _ hb))

theorem Valid.isspace (h : s.Valid) : ∀ b ∈ s.before ++ s.after, isspace b = true := by
  intro b hb
  rcases h.blank b hb with rfl | rfl <;> decide

theorem Valid.svTrim_text (h : s.Valid) : svTrim s.text = s.body := by
  rw [text, svTrim_blank_append fun b hb => h.isspace b (List.mem_append_left _ hb),
    svTrim_append_blank fun b hb => h.isspace b (List.mem_append_right _ hb), svTrim_solid h.solid]

end RangeText

theorem rangeSpec_asked {s : RangeText} (h : s.Valid) (fsize x : Nat) :
    (∃ r, rangeSpec s.text fsize = some r ∧ r.base ≤ x ∧ x < r.base + r.n) ↔ Readable s ∧
      Asked s fsize x := by
  have hFirstDigits : ∀ b ∈ s.first, isdigit b = true := fun b hb => h.digits b (List.mem_append_left _ hb)
  have hLastDigits : ∀ b ∈ s.last, isdigit b = true := fun b hb => h.digits b (List.mem_append_right _ hb)
  have hHyphen : 45 ∉ s.first := fun hMem => absurd (hFirstDigits 45 hMem) (by decide)
  have hZero : ((numberOf [] : Nat) : Int) ≤ llongMax := by decide
  rw [rangeSpec, h.svTrim_text, RangeText.body, svChopByDelim_append 45 _ _ hHyphen]
  dsimp only
  rw [svTrim_solid fun b hb => isspace_of_isdigit (hFirstDigits b hb), svTrim_solid fun b hb =>
    isspace_of_isdigit (hLastDigits b hb), Readable, Asked]
  by_cases hFirst : s.first = []
  · have hLast : s.last ≠ [] := h.some.resolve_left (not_not.mpr hFirst)
    rw [hFirst, if_neg fun hBoth => hLast hBoth.2, if_neg hLast, if_pos rfl, if_pos rfl,
      svToI64_numberOf hLast hLastDigits]
    by_cases hRead : ((numberOf s.last : Nat) : Int) ≤ llongMax
    · rw [if_pos hRead]
      dsimp only
      split
      · next hNone =>
        simp only [reduceCtorEq, false_and, exists_false, false_iff]
        omega
      · next hSome =>
        simp only [Option.some.injEq, exists_eq_left', hZero, hRead, true_and]
        omega
    · rw [if_neg hRead]
      simp [hRead]
  · by_cases hLast : s.last = []
    · rw [hLast, if_neg fun hBoth => hFirst hBoth.1, if_pos rfl, if_neg hFirst,
        svToI64_numberOf hFirst hFirstDigits]
      by_cases hRead : ((numberOf s.first : Nat) : Int) ≤ llongMax
      · rw [if_pos hRead]
        dsimp only
        split
        · next hNone =>
          simp only [reduceCtorEq, false_and, exists_false, false_iff]
          omega
        · next hSome =>
          simp only [Option.some.injEq, exists_eq_left', hZero, hRead, true_and, true_or, and_true]
          omega
      · rw [if_neg hRead]
        simp [hRead]
    · rw [if_neg fun hBoth => hFirst hBoth.1, if_neg hLast, if_neg hFirst, if_neg hFirst,
        svToI64_numberOf hFirst hFirstDigits,
        svToI64_numberOf hLast hLastDigits]
      by_cases hRead : ((numberOf s.first : Nat) : Int) ≤ llongMax
      · by_cases hReadLast : ((numberOf s.last : Nat) : Int) ≤ llongMax
        · rw [if_pos hRead, if_pos hReadLast]
          dsimp only
          split
          · next hNone =>
            simp only [reduceCtorEq, false_and, exists_false, false_iff, hLast, false_or]
            omega
          · next hSome =>
            simp only [Option.some.injEq, exists_eq_left', hRead, hReadLast, true_and, hLast, false_or]
            omega
        · rw [if_neg hReadLast]
          simp [hReadLast]
      · rw [if_neg hRead]
        simp [hRead]

/-! ## Headers -/

def rangeHeader (specs : List RangeText) : Bytes :=
  ascii "bytes=" ++ Segments.text 44 (specs.map RangeText.text)

theorem RangeText.Valid.text_ne_nil {s : RangeText} (h : s.Valid) : s.text ≠ [] := by
  intro hNil
  have hTrim := h.svTrim_text
  rw [hNil] at hTrim
  have hLength := congrArg List.length hTrim
  simp [svTrim, svTrimLeft, svTrimRight, RangeText.body] at hLength

theorem RangeText.Valid.not_mem_text {s : RangeText} (h : s.Valid) : 44 ∉ s.text := by
  simp only [RangeText.text, RangeText.body, List.mem_append, List.mem_cons, not_or]
  refine ⟨fun hb => ?_, ⟨fun hb => ?_, by decide, fun hb => ?_⟩, fun hb => ?_⟩
  · exact absurd (h.blank 44 (List.mem_append_left _ hb)) (by decide)
  · exact absurd (h.digits 44 (List.mem_append_left _ hb)) (by decide)
  · exact absurd (h.digits 44 (List.mem_append_right _ hb)) (by decide)
  · exact absurd (h.blank 44 (List.mem_append_right _ hb)) (by decide)

theorem hyphen_mem_text {specs : List RangeText} (hSome : specs ≠ []) :
    45 ∈ Segments.text 44 (specs.map RangeText.text) := by
  obtain ⟨s, specs, rfl⟩ := List.exists_cons_of_ne_nil hSome
  have hHere : 45 ∈ s.text := by simp [RangeText.text, RangeText.body]
  cases specs with
  | nil => rwa [List.map_singleton, Segments.text_singleton]
  | cons t specs =>
    rw [List.map_cons, Segments.text_cons (by simp)]
    exact List.mem_append_left _ hHere

theorem not_blank_text {specs : List RangeText} (hSome : specs ≠ []) :
    ¬∀ b ∈ Segments.text 44 (specs.map RangeText.text), isspace b = true :=
  fun hAll => absurd (hAll 45 (hyphen_mem_text hSome)) (by decide)

theorem svTrimRight_text {specs : List RangeText} (hValid : ∀ s ∈ specs, s.Valid) (hSome : specs ≠ []) :
    ∃ specs' : List RangeText, (∀ s ∈ specs', s.Valid) ∧
      specs'.map RangeText.body = specs.map RangeText.body ∧ specs' ≠ [] ∧
      svTrimRight (Segments.text 44 (specs.map RangeText.text)) = Segments.text 44
        (specs'.map RangeText.text) := by
  induction specs with
  | nil => exact absurd rfl hSome
  | cons s specs ih =>
    have hs := hValid s List.mem_cons_self
    cases specs with
    | nil =>
      have hBlank : ∀ b ∈ s.after, isspace b = true := fun b hb => hs.isspace b (List.mem_append_right _ hb)
      have hBody : svTrimRight s.body = s.body := by
        refine List.rdropWhile_eq_self_iff.mpr fun hNe => ?_
        rw [hs.solid _ (List.getLast_mem hNe)]
        exact Bool.false_ne_true
      have hSolid : ¬∀ b ∈ s.body, isspace b = true :=
        fun hAll => absurd (hAll 45 (by simp [RangeText.body])) (by decide)
      refine ⟨[⟨s.before, s.first, s.last, []⟩], ?_, rfl, by simp, ?_⟩
      · intro t ht
        rw [List.mem_singleton.mp ht]
        refine ⟨fun b hb => hs.blank b ?_, hs.digits, hs.some⟩
        rw [List.append_nil] at hb
        exact List.mem_append_left _ hb
      · rw [List.map_singleton, Segments.text_singleton, List.map_singleton, Segments.text_singleton,
          RangeText.text, ← List.append_assoc,
          svTrimRight_append_blank hBlank, svTrimRight_append hSolid, hBody, RangeText.text, List.append_nil]
        rfl
    | cons t specs =>
      obtain ⟨specs', hValid', hSame, hSome', hTrim⟩ :=
        ih (fun q hq => hValid q (List.mem_cons_of_mem _ hq)) (by simp)
      refine ⟨s :: specs', ?_, by rw [List.map_cons, hSame]; rfl, by simp, ?_⟩
      · intro q hq
        rcases List.mem_cons.mp hq with rfl | hq
        · exact hs
        · exact hValid' q hq
      · have hList : ∀ l, s.text ++ 44 :: Segments.text 44 l = (s.text ++ [44]) ++ Segments.text 44 l :=
          fun l => by simp
        have hLater : (specs'.map RangeText.text) ≠ [] := by simpa using hSome'
        rw [List.map_cons, Segments.text_cons (by simp), hList,
          svTrimRight_append (not_blank_text (List.cons_ne_nil t specs)), hTrim, List.map_cons,
          Segments.text_cons hLater, hList]

theorem svTrim_rangeHeader {specs : List RangeText} (hValid : ∀ s ∈ specs, s.Valid) : ∃ specs' :
    List RangeText, (∀ s ∈ specs', s.Valid) ∧
    specs'.map RangeText.body = specs.map RangeText.body ∧
      svTrim (rangeHeader specs) = rangeHeader specs' := by
  by_cases hSome : specs = []
  · subst hSome
    exact ⟨[], hValid, rfl, by decide⟩
  · obtain ⟨specs', hValid', hSame, -, hTrim⟩ := svTrimRight_text hValid hSome
    refine ⟨specs', hValid', hSame, ?_⟩
    have hLeft : svTrim (rangeHeader specs) = svTrimRight (rangeHeader specs) := rfl
    rw [hLeft, rangeHeader, svTrimRight_append (not_blank_text hSome), hTrim, rangeHeader]

theorem rangeSpec_body {s : RangeText} (h : s.Valid) (fsize : Nat) :
    rangeSpec s.text fsize = rangeSpec s.body fsize := by
  rw [rangeSpec, rangeSpec, h.svTrim_text, svTrim_solid h.solid]

theorem filterMap_body {specs : List RangeText} (hValid : ∀ s ∈ specs, s.Valid) (fsize : Nat) :
    (specs.map RangeText.text).filterMap (fun spec => rangeSpec spec fsize) =
      (specs.map RangeText.body).filterMap fun spec => rangeSpec spec fsize := by
  rw [List.filterMap_map, List.filterMap_map]
  exact List.filterMap_congr fun s hs => rangeSpec_body (hValid s hs) fsize

theorem parseRanges_rangeHeader {specs : List RangeText} (hValid : ∀ s ∈ specs, s.Valid) (fsize : Nat) :
    parseRanges (rangeHeader specs) fsize maxRanges =
      windowsOf (((specs.map RangeText.text).filterMap fun spec => rangeSpec spec fsize).take maxRanges)
        maxRanges := by
  obtain ⟨specs', hValid', hSame, hTrim⟩ := svTrim_rangeHeader hValid
  have hPrefix : (ascii "bytes=").isPrefixOf (rangeHeader specs') = true :=
    List.isPrefixOf_iff_prefix.mpr (List.prefix_append _ _)
  have hBehind : (rangeHeader specs').drop 6 = Segments.text 44 (specs'.map RangeText.text) := rfl
  have hSplit : svSplit 44 (Segments.text 44 (specs'.map RangeText.text)) = specs'.map RangeText.text := by
    refine svSplit_text ?_ ?_
    · intro piece hPiece
      obtain ⟨s, hs, rfl⟩ := List.mem_map.mp hPiece
      exact (hValid' s hs).not_mem_text
    · intro piece hPiece
      obtain ⟨s, hs, rfl⟩ := List.mem_map.mp hPiece
      exact (hValid' s hs).text_ne_nil
  rw [filterMap_body hValid, ← hSame, ← filterMap_body hValid', parseRanges, hTrim]
  dsimp only
  rw [hPrefix, if_neg (not_not.mpr rfl), hBehind, hSplit, windowsOf]
  rcases specs' with _ | ⟨s, _ | ⟨t, specs'⟩⟩
  · rfl
  · have hOne : 44 ∉ Segments.text 44 ([s].map RangeText.text) := by
      rw [List.map_singleton, Segments.text_singleton]
      exact (hValid' s List.mem_cons_self).not_mem_text
    rw [if_pos hOne, List.map_singleton, Segments.text_singleton]
    cases hSpec : rangeSpec s.text fsize with
    | none => simp [hSpec]
    | some r => simp [hSpec, maxRanges, coalesce]
  · have hMany : ¬44 ∉ Segments.text 44 ((s :: t :: specs').map RangeText.text) := by
      rw [List.map_cons, Segments.text_cons (by simp)]
      simp
    rw [if_neg hMany]

/-! ## The windows of a header -/

/-- What is to be served for some specs: sorted windows that are apart, over the
bytes they ask for, or nothing at all when no spec is satisfiable. -/
structure ServesSpecs (specs : List RangeText) (fsize : Nat) (r : Option (List ByteRange)) : Prop where
  windows : ∀ l, r = some l → Windows fsize l
  union : ∀ l, r = some l → ∀ x, Served l x ↔ ∃ s ∈ specs, Asked s fsize x
  refused : r = none ↔ ∀ s ∈ specs, satisfiable s fsize = false

theorem served_filterMap {specs : List RangeText} (hValid : ∀ s ∈ specs, s.Valid) (fsize x : Nat) :
    Served ((specs.map RangeText.text).filterMap fun spec => rangeSpec spec fsize) x ↔
      ∃ s ∈ specs, Readable s ∧ Asked s fsize x := by
  constructor
  · rintro ⟨r, hr, hx⟩
    rw [List.filterMap_map] at hr
    obtain ⟨s, hs, hSpec⟩ := List.mem_filterMap.mp hr
    exact ⟨s, hs, (rangeSpec_asked (hValid s hs) fsize x).mp ⟨r, hSpec, hx⟩⟩
  · rintro ⟨s, hs, hAsked⟩
    obtain ⟨r, hSpec, hx⟩ := (rangeSpec_asked (hValid s hs) fsize x).mpr hAsked
    refine ⟨r, ?_, hx⟩
    rw [List.filterMap_map]
    exact List.mem_filterMap.mpr ⟨s, hs, hSpec⟩

theorem length_filterMap_le {specs : List RangeText} (hValid : ∀ s ∈ specs, s.Valid) (fsize : Nat) :
    ((specs.map RangeText.text).filterMap fun spec => rangeSpec spec fsize).length ≤ specs.countP
      fun s => satisfiable s fsize := by
  rw [List.filterMap_map, List.length_filterMap_eq_countP]
  refine List.countP_mono_left fun s hs hSome => ?_
  obtain ⟨r, hSpec⟩ := Option.isSome_iff_exists.mp hSome
  have hIn := rangeSpec_inFile hSpec
  exact (satisfiable_iff s fsize).mpr ⟨r.base, ((rangeSpec_asked (hValid s hs) fsize r.base).mp
    ⟨r, hSpec, Nat.le_refl _, Nat.lt_add_of_pos_right hIn.1⟩).2⟩

theorem parseRanges_served {specs : List RangeText} (hValid : ∀ s ∈ specs, s.Valid) {fsize : Nat}
    (hFew : (specs.countP fun s => satisfiable s fsize) ≤ maxRanges) :
    (parseRanges (rangeHeader specs) fsize maxRanges = none → ∀ x, ¬∃ s ∈ specs, Readable s ∧
      Asked s fsize x) ∧
      ∀ l, parseRanges (rangeHeader specs) fsize maxRanges = some l →
        l ≠ [] ∧ ∀ x, Served l x ↔ ∃ s ∈ specs, Readable s ∧ Asked s fsize x := by
  have hServed := served_filterMap hValid fsize
  have hLength := length_filterMap_le hValid fsize
  rw [parseRanges_rangeHeader hValid]
  generalize hRaw : (specs.map RangeText.text).filterMap (fun spec => rangeSpec spec fsize) = raw
    at hServed hLength
  have hIn : ∀ r ∈ raw, InFile fsize r := by
    intro r hr
    rw [← hRaw] at hr
    obtain ⟨spec, -, hSpec⟩ := List.mem_filterMap.mp hr
    exact rangeSpec_inFile hSpec
  have hRoom := hLength.trans hFew
  rw [List.take_of_length_le hRoom, windowsOf]
  by_cases hNil : raw = []
  · rw [if_pos hNil]
    refine ⟨fun _ x => ?_, nofun⟩
    rw [← hServed, hNil]
    rintro ⟨r, hr, -⟩
    cases hr
  · rw [if_neg hNil]
    refine ⟨nofun, ?_⟩
    rintro l ⟨⟩
    obtain ⟨-, hMerged⟩ := windows_of_sorted hIn hRoom (sorts_mergeSort raw).1 (sorts_mergeSort raw).2
    refine ⟨?_, fun x => (hMerged x).trans (hServed x)⟩
    obtain ⟨r, raw, rfl⟩ := List.exists_cons_of_ne_nil hNil
    intro hNone
    obtain ⟨q, hq, -⟩ :=
      (hMerged r.base).mpr
        ⟨r, List.mem_cons_self, Nat.le_refl _, Nat.lt_add_of_pos_right (hIn r List.mem_cons_self).1⟩
    rw [hNone] at hq
    cases hq

/-- No operation leaves its type, and the windows are what the specs ask for
exactly when specs whose numbers are read ask for all of it. -/
theorem byte_ranges_iff {qsort : List ByteRange → List ByteRange} (hSort : Sorts qsort)
    {specs : List RangeText} (hValid : ∀ s ∈ specs, s.Valid)
    {fsize : Nat} (hSize : fsize < 2 ^ 64) (hFew : (specs.countP fun s => satisfiable s fsize) ≤ maxRanges) :
    ∃ r, parseRangesChecked qsort (rangeHeader specs) fsize maxRanges = some r ∧ (ServesSpecs specs fsize r ↔
      ∀ s ∈ specs, ¬Readable s → ∀ x, Asked s fsize x → ∃ t ∈ specs, Readable t ∧ Asked t fsize x) := by
  refine ⟨_, parseRangesChecked_eq hSort _ hSize, ?_⟩
  obtain ⟨hNone, hSome⟩ := parseRanges_served hValid hFew
  have hRefused : (∀ s ∈ specs, satisfiable s fsize = false) ↔ ∀ x, ¬∃ s ∈ specs, Asked s fsize x := by
    simp only [← Bool.not_eq_true, satisfiable_iff]
    exact ⟨fun h x ⟨s, hs, hx⟩ => h s hs ⟨x, hx⟩, fun h s hs ⟨x, hx⟩ => h x ⟨s, hs, hx⟩⟩
  have hAll : (∀ s ∈ specs, ¬Readable s → ∀ x, Asked s fsize x → ∃ t ∈ specs, Readable t ∧ Asked t fsize x) ↔
      ∀ x, (∃ s ∈ specs, Readable s ∧ Asked s fsize x) ↔ ∃ s ∈ specs, Asked s fsize x := by
    constructor
    · intro h x
      constructor
      · rintro ⟨s, hs, -, hx⟩
        exact ⟨s, hs, hx⟩
      · rintro ⟨s, hs, hx⟩
        by_cases hRead : Readable s
        · exact ⟨s, hs, hRead, hx⟩
        · exact h s hs hRead x hx
    · intro h s hs _ x hx
      exact (h x).mpr ⟨s, hs, hx⟩
  rw [hAll]
  cases hParse : parseRanges (rangeHeader specs) fsize maxRanges with
  | none =>
    have hNothing := hNone hParse
    constructor
    · intro h x
      exact iff_of_false (hNothing x) (hRefused.mp (h.refused.mp rfl) x)
    · intro h
      exact ⟨nofun, nofun, iff_of_true rfl (hRefused.mpr fun x hx => hNothing x ((h x).mpr hx))⟩
  | some l =>
    obtain ⟨hMany, hServed⟩ := hSome l hParse
    have hWindows := parseRanges_windows hParse
    constructor
    · exact fun h x => (hServed x).symm.trans (h.union l rfl x)
    · intro h
      have hUnion : ∀ x, Served l x ↔ ∃ s ∈ specs, Asked s fsize x := fun x => (hServed x).trans (h x)
      refine ⟨?_, ?_, iff_of_false nofun fun hNo => ?_⟩
      · rintro _ ⟨⟩
        exact hWindows
      · rintro _ ⟨⟩
        exact hUnion
      · obtain ⟨r, l, rfl⟩ := List.exists_cons_of_ne_nil hMany
        exact hRefused.mp hNo r.base ((hUnion r.base).mp
          ⟨r, List.mem_cons_self, Nat.le_refl _,
          Nat.lt_add_of_pos_right (hWindows.inside r List.mem_cons_self).1⟩)

/-- Specs that overlap, touch and reach over the end of the file, in no order. -/
def sampleSpecs : List RangeText :=
  [⟨[], ascii "8", ascii "99", []⟩, ⟨[32], ascii "2", ascii "3", []⟩, ⟨[], ascii "4", ascii "5", [9]⟩,
    ⟨[], [], ascii "1", []⟩, ⟨[], ascii "10", [], []⟩]

theorem sampleSpecs_served :
    ∃ r, parseRangesChecked (fun raw => raw.mergeSort fun a b => decide (a.base ≤ b.base))
      (rangeHeader sampleSpecs) 10
    maxRanges = some r ∧ ServesSpecs sampleSpecs 10 r := by
  have hValid : ∀ s ∈ sampleSpecs, s.Valid := by
    intro s hs
    simp only [sampleSpecs, List.mem_cons, List.not_mem_nil, or_false] at hs
    rcases hs with rfl | rfl | rfl | rfl | rfl <;>
      exact ⟨by decide +kernel, by decide +kernel, by decide +kernel⟩
  have hRead : ∀ s ∈ sampleSpecs, Readable s := by
    intro s hs
    simp only [sampleSpecs, List.mem_cons, List.not_mem_nil, or_false] at hs
    rcases hs with rfl | rfl | rfl | rfl | rfl <;> exact ⟨by decide, by decide⟩
  obtain ⟨r, hParse, hServes⟩ := byte_ranges_iff sorts_mergeSort hValid (by decide : 10 < 2 ^ 64) (by decide)
  exact ⟨r, hParse, hServes.mpr fun s hs hNot => absurd (hRead s hs) hNot⟩

/-- The whole file is asked for, with a number that is not read. -/
theorem byte_ranges_long_number : RangeText.Valid ⟨[], ascii "0", ascii "9223372036854775808", []⟩ ∧
    parseRangesChecked (fun raw => raw.mergeSort fun a b => decide (a.base ≤ b.base))
      (rangeHeader [⟨[], ascii "0", ascii "9223372036854775808", []⟩]) 10 maxRanges = some none ∧
    ¬ServesSpecs [⟨[], ascii "0", ascii "9223372036854775808", []⟩] 10 none := by
  refine ⟨⟨by decide +kernel, by decide +kernel, by decide +kernel⟩, by decide +kernel, fun h => ?_⟩
  exact absurd (h.refused.mp rfl _ List.mem_cons_self) (by decide)

end Cweb.Static
