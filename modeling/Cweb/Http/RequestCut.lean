import Cweb.Lib.CString
import Cweb.Http.ServerFraming

/-!
# A request on its own

The bytes that a request takes up tell what the parser makes of it. When they are
cut off from what follows, the head ends where it did, a body with a length keeps
its bytes, and a chunked body unfolds to the same payload.
-/

namespace Cweb

open Sv
open CString (forall_byte)

/-! ## Fields and their names -/

theorem tolower_toupper : ∀ b, tolower (toupper b) = tolower b := forall_byte (by decide +kernel)

theorem toupper_tolower : ∀ b, toupper (tolower b) = toupper b := forall_byte (by decide +kernel)

theorem map_toupper_eq_iff (s t : Bytes) : s.map toupper = t.map toupper ↔ s.map tolower = t.map tolower := by
  constructor
  · intro h
    have hLower := congrArg (List.map tolower) h
    rwa [List.map_map, List.map_map, show tolower ∘ toupper = tolower from funext tolower_toupper] at hLower
  · intro h
    have hUpper := congrArg (List.map toupper) h
    rwa [List.map_map, List.map_map, show toupper ∘ tolower = toupper from funext toupper_tolower] at hUpper

theorem svIeq_of_toupper {a b : Bytes} (h : a.map toupper = b.map toupper) (name : Bytes) :
    svIeq a name = svIeq b name := by
  have hLower := congrArg (List.map tolower) h
  rw [List.map_map, List.map_map, show tolower ∘ toupper = tolower from funext tolower_toupper] at hLower
  rw [svIeq, svIeq, hLower]

theorem getHeader_filter {p : Bytes → Bool} {req req' : HttpRequest} {name : Bytes}
    (h : req'.headers = req.headers.filter fun f => p f.key)
    (hName : ∀ key : Bytes, key.map toupper = name.map toupper → p key = true) :
    httpRequestGetHeader req' name = httpRequestGetHeader req name := by
  rw [httpRequestGetHeader, httpRequestGetHeader, h, List.find?_filter]
  congr 1
  congr 1
  funext f
  by_cases hKey : f.key.map toupper = name.map toupper
  · simp only [hName f.key hKey, true_and, Bool.decide_eq_true]
  · simp only [beq_eq_false_iff_ne.mpr hKey, Bool.false_eq_true, and_false, decide_false]

theorem toupper_colon : ∀ b, toupper b = 58 → b = 58 := forall_byte (by decide +kernel)

theorem getHeader_colon {req : HttpRequest} {name : Bytes} (hNames : ∀ f ∈ req.headers, 58 ∉ f.key)
    (h : 58 ∈ name) :
    httpRequestGetHeader req name = none := by
  rw [httpRequestGetHeader, Option.map_eq_none_iff, List.find?_eq_none]
  intro f hf hSame
  have hMem : 58 ∈ f.key.map toupper := by
    rw [beq_iff_eq.mp hSame]
    exact List.mem_map.mpr ⟨58, h, rfl⟩
  obtain ⟨b, hb, hColon⟩ := List.mem_map.mp hMem
  exact hNames f hf (toupper_colon b hColon ▸ hb)

theorem fieldLine_key {text : Bytes} {f : HttpHeader} (h : fieldLine text = some f) : 58 ∉ f.key := by
  rw [fieldLine] at h
  split at h
  · cases h
  · dsimp only at h
    split at h
    · cases h
    · obtain rfl := Option.some.inj h
      intro hMem
      have hTrim := List.rdropWhile_prefix isspace (svTrimLeft (text.takeWhile (· ≠ 58)))
      have hTake := List.mem_takeWhile_imp ((List.dropWhile_suffix isspace).subset (hTrim.subset hMem))
      simp at hTake

theorem dropCr_subset (text : Bytes) : dropCr text ⊆ text := by
  rw [dropCr]
  split
  · exact fun b hb => List.mem_of_mem_dropLast hb
  · exact fun b hb => hb

theorem parseHeaderLine_eq (req : HttpRequest) (text : Bytes) :
    parseHeaderLine req text = { req with headers := req.headers ++ (fieldLine text).toList } := by
  rw [parseHeaderLine, fieldLine]
  cases text.dropWhile (· ≠ 58) with
  | nil =>
    dsimp only [Option.toList]
    rw [List.append_nil]
  | cons colon value =>
    dsimp only
    split
    · dsimp only [Option.toList]
      rw [List.append_nil]
    · rfl

theorem foldl_parseHeaderLine_eq (lines : List Bytes) (req : HttpRequest) :
    lines.foldl parseHeaderLine req = { req with headers := req.headers ++ lines.filterMap fieldLine } := by
  induction lines generalizing req with
  | nil =>
    rw [List.filterMap_nil, List.append_nil]
    rfl
  | cons text lines ih =>
    rw [List.foldl_cons, ih, parseHeaderLine_eq, List.filterMap_cons]
    cases fieldLine text with
    | none =>
      dsimp only [Option.toList]
      rw [List.append_nil]
    | some f =>
      dsimp only [Option.toList]
      rw [List.append_assoc]
      rfl

/-! ## The head -/

theorem crlfEnd_ge {behind raw : Bytes} : ∀ {i stop : Nat}, crlfEnd behind i raw = some stop →
    i + 4 ≤ stop := by
  induction raw with
  | nil =>
    intro i stop h
    cases h
  | cons a tail ih =>
    intro i stop h
    match tail, h with
    | b :: c :: rest, h =>
      rw [crlfEnd] at h
      split at h
      · cases h
        exact Nat.le_refl _
      · exact (Nat.succ_add i 4 ▸ Nat.le_succ _).trans (ih h)

theorem crlfEnd_short {l : Bytes} (h : l.length ≤ 3) (i : Nat) : crlfEnd [] i l = none := by
  match l, h with
  | [], _ => rfl
  | [_], _ => rfl
  | [_, _], _ => rfl
  | [a, b, c], _ =>
    rw [crlfEnd, if_neg]
    · rfl
    · rintro ⟨_, _, _, hHead⟩
      cases hHead

theorem crlfEnd_cut (behind raw : Bytes) : ∀ i n, n ≤ raw.length + 1 →
    crlfEnd [] i ((raw ++ behind).take n) = (crlfEnd behind i raw).filter fun stop => stop ≤ i + n := by
  induction raw with
  | nil =>
    intro i n hn
    refine crlfEnd_short ?_ i
    rw [List.length_take]
    exact (Nat.min_le_left _ _).trans (hn.trans (by decide))
  | cons a tail ih =>
    intro i n hn
    match tail, ih, hn with
    | [], _, hn =>
      rw [List.length_singleton] at hn
      refine crlfEnd_short ?_ i
      rw [List.length_take]
      omega
    | [b], _, hn =>
      refine crlfEnd_short ?_ i
      rw [List.length_take]
      exact (Nat.min_le_left _ _).trans hn
    | b :: c :: rest, ih, hn =>
      by_cases hFew : n ≤ 3
      · rw [crlfEnd_short]
        · symm
          rw [Option.filter_eq_none_iff]
          intro stop hStop
          have hGe := crlfEnd_ge hStop
          simp only [decide_eq_true_eq]
          omega
        · rw [List.length_take]
          exact (Nat.min_le_left _ _).trans hFew
      · obtain ⟨k, rfl⟩ : ∃ k, n = k + 4 := ⟨n - 4, by omega⟩
        have hNext := ih (i + 1) (k + 3) (by
          rw [List.length_cons] at hn
          omega)
        rw [List.cons_append, List.cons_append, List.take_succ_cons, List.take_succ_cons] at hNext
        rw [List.cons_append, List.cons_append, List.cons_append, List.take_succ_cons, List.take_succ_cons,
          List.take_succ_cons, crlfEnd, crlfEnd, List.append_nil, List.head?_take,
          if_neg (Nat.succ_ne_zero k)]
        split
        · exact (Option.filter_some_pos (by simp only [decide_eq_true_eq]; omega)).symm
        · rw [hNext, show i + 1 + (k + 3) = i + (k + 4) by omega]

theorem lfEnd_ge {raw : Bytes} : ∀ {i stop : Nat}, lfEnd i raw = some stop → i + 2 ≤ stop := by
  induction raw with
  | nil =>
    intro i stop h
    cases h
  | cons a tail ih =>
    intro i stop h
    match tail, h with
    | b :: rest, h =>
      rw [lfEnd] at h
      split at h
      · cases h
        exact Nat.le_refl _
      · exact (Nat.succ_add i 2 ▸ Nat.le_succ _).trans (ih h)

theorem lfEnd_cut (behind : Bytes) {raw : Bytes} : ∀ {i stop n : Nat}, lfEnd i raw = some stop →
    stop ≤ i + n →
    lfEnd i ((raw ++ behind).take n) = some stop := by
  induction raw with
  | nil =>
    intro i stop n h
    cases h
  | cons a tail ih =>
    intro i stop n h hn
    have hGe := lfEnd_ge h
    match tail, h with
    | b :: rest, h =>
      obtain ⟨k, rfl⟩ : ∃ k, n = k + 2 := ⟨n - 2, by omega⟩
      rw [lfEnd] at h
      rw [List.cons_append, List.cons_append, List.take_succ_cons, List.take_succ_cons, lfEnd]
      split at h
      · rename_i hBlank
        rw [if_pos hBlank]
        exact h
      · rename_i hBlank
        rw [if_neg hBlank]
        exact ih (n := k + 1) h (by omega)

theorem findHeaderEnd_cut {raw behind : Bytes} {stop n : Nat} (h : findHeaderEnd raw behind = some stop)
    (hStop : stop ≤ n)
    (hn : n ≤ raw.length + 1) : findHeaderEnd ((raw ++ behind).take n) [] = some stop := by
  rw [findHeaderEnd] at h ⊢
  rw [crlfEnd_cut behind raw 0 n hn]
  cases hCrlf : crlfEnd behind 0 raw with
  | some stop' =>
    rw [hCrlf] at h
    obtain rfl := Option.some.inj h
    rw [Option.filter_some_pos (by simp only [decide_eq_true_eq]; omega)]
  | none =>
    rw [hCrlf] at h
    exact lfEnd_cut behind h (by omega)

/-! ## Chunked bodies -/

theorem dropWhile_split {p : UInt8 → Bool} {l : Bytes} {c : UInt8} {r : Bytes} (h : l.dropWhile p = c :: r) :
    p c = false ∧ ∃ pre, l = pre ++ c :: r ∧ (∀ b ∈ pre, p b = true) ∧
      ∀ y, (pre ++ c :: y).dropWhile p = c :: y := by
  have hStops : p c = false := by
    rw [← Bool.not_eq_true]
    intro hc
    have hHead := List.head?_dropWhile_not p l
    rw [h] at hHead
    simp only [List.head?_cons] at hHead
    rw [hc] at hHead
    cases hHead
  refine ⟨hStops, l.takeWhile p, ?_, fun _ ha => List.mem_takeWhile_imp ha, ?_⟩
  · rw [← h, List.takeWhile_append_dropWhile]
  · intro y
    rw [List.dropWhile_append_of_pos fun _ ha => List.mem_takeWhile_imp ha, List.dropWhile_cons_of_neg]
    rw [hStops]
    exact Bool.false_ne_true

theorem sizeDigits_split {x y : Bytes} {s : Nat} {b : Bool} : ∀ {size : Nat} {seen : Bool},
    sizeDigits size seen x = (s, b, 13 :: y) →
      ∃ pre, x = pre ++ 13 :: y ∧ ∀ z, sizeDigits size seen (pre ++ 13 :: z) = (s, b, 13 :: z) := by
  induction x with
  | nil =>
    intro size seen h
    cases h
  | cons c rest ih =>
    intro size seen h
    rw [sizeDigits] at h
    cases hDigit : hexValue c with
    | some v =>
      rw [hDigit] at h
      obtain ⟨pre, hSplit, hAny⟩ := ih h
      refine ⟨c :: pre, by rw [hSplit, List.cons_append], ?_⟩
      intro z
      rw [List.cons_append, sizeDigits, hDigit]
      exact hAny z
    | none =>
      rw [hDigit] at h
      dsimp only at h
      by_cases hExt : c = 59 ∨ c = 32
      · rw [if_pos hExt] at h
        obtain ⟨hSize, hRest⟩ := Prod.mk.inj h
        obtain ⟨hSeen, hLine⟩ := Prod.mk.inj hRest
        obtain ⟨_, pre, hSplit, _, hAny⟩ := dropWhile_split hLine
        refine ⟨c :: pre, by rw [hSplit, List.cons_append], ?_⟩
        intro z
        rw [List.cons_append, sizeDigits, hDigit]
        dsimp only
        rw [if_pos hExt, hAny, hSize, hSeen]
      · rw [if_neg hExt] at h
        obtain ⟨hSize, hRest⟩ := Prod.mk.inj h
        obtain ⟨hSeen, hLine⟩ := Prod.mk.inj hRest
        obtain ⟨rfl, rfl⟩ := List.cons.inj hLine
        refine ⟨[], rfl, ?_⟩
        intro z
        rw [List.nil_append, sizeDigits, hDigit]
        dsimp only
        rw [if_neg hExt, hSize, hSeen]

/-- The byte that was read behind the view. -/
def overreadBytes (overread : Bool) : Bytes := if overread then [10] else []

/-- Unfolding read `used` and nothing of what is left. -/
structure UsedUp (rest behind used left : Bytes) (overread : Bool) : Prop where
  split : rest ++ overreadBytes overread = used ++ left
  last : overread = true → left = [] ∧ behind.head? = some 10

theorem UsedUp.cons {rest behind used left : Bytes} {overread : Bool}
    (h : UsedUp rest behind used left overread)
    (pre : Bytes) : UsedUp (pre ++ rest) behind (pre ++ used) left overread := by
  refine ⟨?_, h.last⟩
  rw [List.append_assoc, h.split, List.append_assoc]

theorem UsedUp.eq_take {rest behind used left : Bytes} {overread : Bool}
    (h : UsedUp rest behind used left overread) :
    used = (rest ++ behind).take (rest.length - left.length + if overread then 1 else 0) := by
  have hSplit := h.split
  cases overread with
  | false =>
    rw [overreadBytes, if_neg Bool.false_ne_true, List.append_nil] at hSplit
    rw [hSplit, List.length_append, if_neg Bool.false_ne_true, List.append_assoc]
    rw [Nat.add_sub_cancel, Nat.add_zero, List.take_left]
  | true =>
    obtain ⟨rfl, hHead⟩ := h.last rfl
    obtain ⟨tail, rfl⟩ : ∃ tail, behind = 10 :: tail := by
      cases behind with
      | nil => cases hHead
      | cons b tail => exact ⟨tail, by rw [Option.some.inj hHead]⟩
    rw [overreadBytes, if_pos rfl, List.append_nil] at hSplit
    rw [List.length_nil, Nat.sub_zero, if_pos rfl, ← hSplit, List.take_length_add_append]
    rfl

theorem unfoldTrailer_line {payload rest behind : Bytes} (h : rest.head? ≠ some 13) (hSome : rest ≠ []) :
    unfoldTrailer payload rest behind =
      match rest.dropWhile fun b => !isCrLf b with
      | 13 :: 10 :: left => .complete payload left false
      | 10 :: left => .complete payload left false
      | _ => .incomplete payload := by
  unfold unfoldTrailer
  split
  · exact absurd rfl hSome
  · exact absurd rfl h
  · exact absurd rfl h
  · rfl

theorem head?_of_line {pre tail : Bytes} {e : UInt8} (hPre : ∀ b ∈ pre, (!isCrLf b) = true)
    (h : pre = [] → e ≠ 13) :
    (pre ++ e :: tail).head? ≠ some 13 := by
  cases pre with
  | nil => exact fun hHead => h rfl (Option.some.inj hHead)
  | cons b pre =>
    intro hHead
    obtain rfl := Option.some.inj hHead
    exact absurd (hPre 13 List.mem_cons_self) (by decide)

theorem unfoldTrailer_cut {payload rest behind p left : Bytes} {overread : Bool}
    (h : unfoldTrailer payload rest behind = .complete p left overread) :
    ∃ used, UsedUp rest behind used left overread ∧ unfoldTrailer payload used [] = .complete p [] false := by
  unfold unfoldTrailer at h
  split at h
  · cases h
    exact ⟨[], ⟨rfl, nofun⟩, rfl⟩
  · split at h
    · rename_i hBehind
      cases h
      exact ⟨[13, 10], ⟨rfl, fun _ => ⟨rfl, hBehind⟩⟩, rfl⟩
    · cases h
  · cases h
    exact ⟨[13, 10], ⟨List.append_nil _, nofun⟩, rfl⟩
  · rename_i hCrLf
    split at h
    · rename_i hDrop
      cases h
      obtain ⟨_, pre, hSplit, hPre, hAny⟩ := dropWhile_split hDrop
      have hSome : pre ≠ [] := by
        rintro rfl
        exact hCrLf _ hSplit
      refine ⟨pre ++ [13, 10], ⟨?_, nofun⟩, ?_⟩
      · rw [hSplit, overreadBytes, if_neg Bool.false_ne_true, List.append_nil, List.append_assoc]
        rfl
      · rw [unfoldTrailer_line (head?_of_line hPre fun hNil => absurd hNil hSome) (by simp), hAny]
        rfl
    · rename_i hDrop
      cases h
      obtain ⟨_, pre, hSplit, hPre, hAny⟩ := dropWhile_split hDrop
      refine ⟨pre ++ [10], ⟨?_, nofun⟩, ?_⟩
      · rw [hSplit, overreadBytes, if_neg Bool.false_ne_true, List.append_nil, List.append_assoc]
        rfl
      · rw [unfoldTrailer_line (head?_of_line hPre fun _ => by decide) (by simp), hAny]
        rfl
    · cases h

theorem unfoldLoop_cut {len : Nat} {behind p left : Bytes} {overread : Bool} (fuel : Nat) :
    ∀ {payload rest : Bytes},
    unfoldLoop len behind fuel payload rest = .complete p left overread →
      ∃ used, UsedUp rest behind used left overread ∧
        ∀ len' fuel', used.length < fuel' → unfoldLoop len' [] fuel' payload used = .complete p [] false := by
  induction fuel with
  | zero =>
    intro payload rest h
    cases h
  | succ fuel ih =>
    intro payload rest h
    rw [unfoldLoop] at h
    split at h
    · cases h
    · rename_i c line hSkip
      split at h
      · rename_i size body hSize
        obtain ⟨hc, blank, hBlank, _, hSkips⟩ := dropWhile_split hSkip
        obtain ⟨digits, hDigits, hReads⟩ := sizeDigits_split hSize
        obtain ⟨digits, rfl⟩ : ∃ more, digits = c :: more := by
          cases digits with
          | nil =>
            obtain ⟨rfl, _⟩ := List.cons.inj hDigits
            cases hc
          | cons d more => exact ⟨more, by rw [(List.cons.inj hDigits).1]⟩
        have hRest : rest = (blank ++ c :: digits ++ [13, 10]) ++ body := by
          rw [hBlank, hDigits]
          simp only [List.append_assoc, List.cons_append, List.nil_append]
        have hHead : ∀ y, (blank ++ c :: digits ++ [13, 10]) ++ y = blank ++
          c :: (digits ++ 13 :: 10 :: y) := by
          intro y
          simp only [List.append_assoc, List.cons_append, List.nil_append]
        have hFirst : ∀ y, sizeDigits 0 false (c :: (digits ++ 13 :: 10 :: y)) =
          (size, true, 13 :: 10 :: y) :=
          fun y => hReads (10 :: y)
        by_cases hZero : size = 0
        · rw [if_pos hZero] at h
          obtain ⟨used, hUsed, hDone⟩ := unfoldTrailer_cut h
          refine ⟨_, hRest ▸ hUsed.cons _, ?_⟩
          intro len' fuel' hFuel'
          obtain ⟨fuel', rfl⟩ : ∃ more, fuel' = more + 1 := ⟨fuel' - 1, by omega⟩
          rw [unfoldLoop, hHead, hSkips]
          simp only [hFirst]
          rw [if_pos hZero]
          exact hDone
        · rw [if_neg hZero] at h
          by_cases hShort : body.length < size
          · rw [if_pos hShort] at h
            split at h
            · cases h
            · cases h
          · rw [if_neg hShort] at h
            split at h
            · rename_i after hAfter
              obtain ⟨used, hUsed, hDone⟩ := ih h
              have hBody : body = (body.take size ++ [13, 10]) ++ after := by
                calc
                  body = body.take size ++ body.drop size := (List.take_append_drop size body).symm
                  _ = (body.take size ++ [13, 10]) ++ after := by rw [hAfter, List.append_assoc]; rfl
              refine ⟨_, hRest ▸ (hBody ▸ hUsed.cons _).cons _, ?_⟩
              intro len' fuel' hFuel'
              obtain ⟨fuel', rfl⟩ : ∃ more, fuel' = more + 1 := ⟨fuel' - 1, by omega⟩
              have hTake : (body.take size).length = size := by
                rw [List.length_take]
                omega
              rw [unfoldLoop, hHead, hSkips]
              simp only [hFirst]
              rw [if_neg hZero, if_neg]
              · rw [List.append_assoc, List.drop_left' hTake, List.take_left' hTake]
                refine hDone len' fuel' ?_
                simp only [List.length_append, List.length_cons, List.length_nil] at hFuel'
                omega
              · rw [List.length_append, List.length_append, hTake]
                omega
            · cases h
      · cases h

theorem decodeChunked_cut {req req' : HttpRequest} {behind p left : Bytes} {overread : Bool}
    (h : httpRequestDecodeChunked req behind = .complete p left overread)
    (hLength : httpRequestGetHeader req' (ascii "content-length") = httpRequestGetHeader req
      (ascii "content-length"))
    (hBody : req'.body = (req.body ++ behind).take (req.body.length - left.length + if overread then 1
      else 0)) :
    httpRequestDecodeChunked req' [] = .complete p [] false := by
  rw [httpRequestDecodeChunked] at h ⊢
  rw [hLength]
  split at h
  · cases h
  · rename_i hNone
    obtain ⟨used, hUsed, hDone⟩ := unfoldLoop_cut _ h
    have hEq : req'.body = used := hBody.trans hUsed.eq_take.symm
    rw [if_neg hNone, hEq]
    exact hDone _ _ (Nat.lt_succ_self _)

/-! ## Bodies with a length -/

/-- The request of a head, from those of its fields whose names pass a test. -/
def parseHead (keep : Bytes → Bool) (head : Bytes) : Option HttpRequest :=
  match headLines head with
  | [] => some emptyRequest
  | first :: fields =>
    (parseRequestLine emptyRequest first).map fun req =>
      (fields.filter fun text => (fieldLine text).all fun f => keep f.key).foldl parseHeaderLine req

/-- The parser, on a head without the fields that fail the test. -/
def parseKept (keep : Bytes → Bool) (raw behind : Bytes) : RequestParse :=
  match findHeaderEnd raw behind with
  | none => .incomplete emptyRequest
  | some stop =>
    match parseHead keep ((raw ++ behind).take stop) with
    | none => .error
    | some req => parseBody req raw stop

theorem parseKept_all (raw behind : Bytes) :
    parseKept (fun _ => true) raw behind = httpRequestParseAdv raw behind := by
  rw [parseKept, httpRequestParseAdv]
  cases findHeaderEnd raw behind with
  | none => rfl
  | some stop =>
    dsimp only
    rw [parseHead, headLines]
    cases (svSplit 10 (svTrim ((raw ++ behind).take stop))).map dropCr with
    | nil => rfl
    | cons first fields =>
      dsimp only
      have hAll : (fields.filter fun text => (fieldLine text).all fun _ => true) = fields := by
        rw [List.filter_eq_self]
        intro text _
        cases fieldLine text <;> rfl
      rw [hAll]
      cases parseRequestLine emptyRequest first <;> rfl

def HttpRequest.keeping (keep : Bytes → Bool) (req : HttpRequest) : HttpRequest :=
  { req with headers := req.headers.filter fun f => keep f.key }

theorem parseRequestLine_contentLength {req req' : HttpRequest} {text : Bytes}
    (h : parseRequestLine req text = some req') :
    req'.contentLength = req.contentLength := by
  rw [parseRequestLine] at h
  dsimp only at h
  split at h
  · cases h
  · cases h
    rfl

theorem parseRequestLine_target {req req' : HttpRequest} {text : Bytes}
    (h : parseRequestLine req text = some req') :
    splitQuery req'.target = (req'.path, req'.query) := by
  rw [parseRequestLine] at h
  dsimp only at h
  split at h
  · cases h
  · cases h
    rfl

theorem filterMap_kept (keep : Bytes → Bool) (fields : List Bytes) :
    (fields.filter fun text => (fieldLine text).all fun f => keep f.key).filterMap fieldLine =
      (fields.filterMap fieldLine).filter fun f => keep f.key := by
  induction fields with
  | nil => rfl
  | cons text fields ih =>
    rw [List.filterMap_cons, List.filter_cons]
    cases hField : fieldLine text with
    | none =>
      dsimp only
      rw [Option.all_none, if_pos rfl, List.filterMap_cons, hField]
      exact ih
    | some f =>
      dsimp only
      rw [Option.all_some, List.filter_cons]
      split
      · rw [List.filterMap_cons, hField]
        dsimp only
        rw [ih]
      · exact ih

theorem parseHead_keeping {head : Bytes} {base : HttpRequest} (h : parseHead (fun _ => true) head = some base)
    (keep : Bytes → Bool) :
    parseHead keep head = some (base.keeping keep) ∧ base.contentLength = -1 ∧
      splitQuery base.target = (base.path, base.query) ∧ ∀ f ∈ base.headers, 58 ∉ f.key := by
  rw [parseHead] at h ⊢
  cases hLines : headLines head with
  | nil =>
    rw [hLines] at h
    obtain rfl := Option.some.inj h
    exact ⟨rfl, rfl, rfl, fun f hf => absurd hf List.not_mem_nil⟩
  | cons first fields =>
    rw [hLines] at h
    dsimp only at h ⊢
    obtain ⟨req, hLine, rfl⟩ := Option.map_eq_some_iff.mp h
    have hHeaders : req.headers = [] := parseRequestLine_headers hLine
    have hAll : (fields.filter fun text => (fieldLine text).all fun _ => true).filterMap fieldLine =
      fields.filterMap fieldLine :=
      (filterMap_kept (fun _ => true) fields).trans (List.filter_true _)
    rw [hLine, Option.map_some, foldl_parseHeaderLine_eq, foldl_parseHeaderLine_eq, filterMap_kept,
      hAll, hHeaders]
    have hTarget := parseRequestLine_target hLine
    refine ⟨?_, parseRequestLine_contentLength hLine, hTarget, ?_⟩
    · rw [HttpRequest.keeping, List.nil_append, List.nil_append]
    · intro f hf
      rw [List.nil_append] at hf
      obtain ⟨text, _, hField⟩ := List.mem_filterMap.mp hf
      exact fieldLine_key hField

theorem parseBody_ok_cases {base req : HttpRequest} {raw : Bytes} {stop consumed : Nat}
    (h : parseBody base raw stop = .ok req consumed) :
    stop ≤ raw.length ∧
      ((httpRequestGetHeader base (ascii "content-length") = none ∧
          req = { base with body := raw.drop stop, bodyOffset := stop } ∧ consumed = stop) ∨
        ∃ value len, httpRequestGetHeader base (ascii "content-length") = some value ∧
          svToI64 value = some (Int.ofNat len) ∧
          len ≤ raw.length - stop ∧ consumed = stop + len ∧
          req = { base with body := (raw.drop stop).take len, bodyOffset := stop, contentLength :=
            len }) := by
  rw [parseBody] at h
  split at h
  · cases h
  · rename_i hStop
    have hName : httpRequestGetHeader { base with body := raw.drop stop, bodyOffset := stop }
      (ascii "content-length") =
        httpRequestGetHeader base (ascii "content-length") := rfl
    refine ⟨by omega, ?_⟩
    dsimp only at h
    rw [hName] at h
    split at h
    · rename_i hNone
      obtain ⟨rfl, rfl⟩ := RequestParse.ok.inj h
      exact .inl ⟨hNone, rfl, rfl⟩
    · rename_i value hSome
      split at h
      · cases h
      · rename_i len hNumber
        split at h
        · cases h
        · rename_i hPos
          obtain ⟨n, rfl⟩ := Int.eq_ofNat_of_zero_le (not_lt.mp hPos)
          split at h
          · rename_i hEnough
            obtain ⟨rfl, rfl⟩ := RequestParse.ok.inj h
            rw [List.length_drop] at hEnough
            exact .inr ⟨value, n, hSome, hNumber, hEnough, rfl, rfl⟩
          · cases h

theorem parseBody_unmeasured {base : HttpRequest} {raw : Bytes} {stop : Nat} (hStop : stop ≤ raw.length)
    (hNone : httpRequestGetHeader base (ascii "content-length") = none) :
    parseBody base raw stop = .ok { base with body := raw.drop stop, bodyOffset := stop } stop := by
  have hName : httpRequestGetHeader { base with body := raw.drop stop, bodyOffset := stop }
    (ascii "content-length") = none :=
    hNone
  rw [parseBody, if_neg (not_lt.mpr hStop)]
  dsimp only
  rw [hName]

theorem parseBody_measured {base : HttpRequest} {raw value : Bytes} {stop len : Nat}
    (hLe : stop + len ≤ raw.length)
    (hSome : httpRequestGetHeader base (ascii "content-length") = some value)
    (hNumber : svToI64 value = some (Int.ofNat len)) :
    parseBody base raw stop =
      .ok { base with body := (raw.drop stop).take len, bodyOffset := stop, contentLength := len }
        (stop + len) := by
  have hName : httpRequestGetHeader { base with body := raw.drop stop, bodyOffset := stop }
    (ascii "content-length") =
      some value := hSome
  have hEnough : (Int.ofNat len).toNat ≤ (raw.drop stop).length := by
    rw [List.length_drop]
    change len ≤ _
    omega
  rw [parseBody, if_neg (by omega)]
  dsimp only
  rw [hName]
  dsimp only
  rw [hNumber]
  dsimp only
  have hPos : ¬ Int.ofNat len < 0 := not_lt.mpr (Int.natCast_nonneg len)
  rw [if_neg hPos, if_pos hEnough]
  rfl

/-- What is known of a request that was parsed. -/
structure Parsed (raw : Bytes) (req : HttpRequest) (consumed : Nat) : Prop where
  names : ∀ f ∈ req.headers, 58 ∉ f.key
  target : splitQuery req.target = (req.path, req.query)
  inside : req.bodyOffset ≤ raw.length
  measured : httpRequestGetHeader req (ascii "content-length") ≠ none →
    req.contentLength = req.body.length ∧ consumed = req.bodyOffset + req.body.length ∧ consumed ≤ raw.length
  unmeasured : httpRequestGetHeader req (ascii "content-length") = none →
    req.contentLength = -1 ∧ consumed = req.bodyOffset ∧ req.body = raw.drop req.bodyOffset

theorem httpRequestParseAdv_parsed {raw behind : Bytes} {req : HttpRequest} {consumed : Nat}
    (h : httpRequestParseAdv raw behind = .ok req consumed) : Parsed raw req consumed := by
  rw [← parseKept_all, parseKept] at h
  split at h
  · cases h
  · rename_i stop _
    split at h
    · cases h
    · rename_i base hHead
      obtain ⟨_, hLength, hTarget, hNames⟩ := parseHead_keeping hHead fun _ => true
      obtain ⟨hStop, ⟨hNone, rfl, rfl⟩ | ⟨value, len, hSome, _, hLe, rfl, rfl⟩⟩ := parseBody_ok_cases h
      · exact ⟨hNames, hTarget, hStop, fun hSome => absurd hNone hSome, fun _ => ⟨hLength, rfl, rfl⟩⟩
      · have hBody : ((raw.drop stop).take len).length = len := by
          rw [List.length_take, List.length_drop]
          exact Nat.min_eq_left hLe
        refine ⟨hNames, hTarget, hStop, fun _ => ?_, fun hNone => ?_⟩
        · refine ⟨congrArg Int.ofNat hBody.symm, congrArg (stop + ·) hBody.symm, by omega⟩
        · change httpRequestGetHeader base (ascii "content-length") = none at hNone
          rw [hSome] at hNone
          cases hNone

/-- What the parser makes of the bytes of a request, with nothing behind them and
without some of its fields. -/
theorem parse_cut {raw behind : Bytes} {req : HttpRequest} {consumed n : Nat}
    (h : httpRequestParseAdv raw behind = .ok req consumed) {keep : Bytes → Bool}
    (hName : ∀ key : Bytes, key.map toupper = (ascii "content-length").map toupper → keep key = true)
    (hStop : req.bodyOffset ≤ n) (hn : n ≤ raw.length + 1) :
    (httpRequestGetHeader req (ascii "content-length") = none →
      parseKept keep ((raw ++ behind).take n) [] =
        .ok { req.keeping keep with body := ((raw ++ behind).take n).drop req.bodyOffset } req.bodyOffset) ∧
      (httpRequestGetHeader req (ascii "content-length") ≠ none → n = consumed →
        parseKept keep ((raw ++ behind).take n) [] = .ok (req.keeping keep) consumed) := by
  rw [← parseKept_all, parseKept] at h
  split at h
  · cases h
  · rename_i stop hEnd
    split at h
    · cases h
    · rename_i base hHead
      have hKept := (parseHead_keeping hHead keep).1
      have hFound : httpRequestGetHeader (base.keeping keep) (ascii "content-length") =
          httpRequestGetHeader base (ascii "content-length") := getHeader_filter rfl hName
      have hOffset : req.bodyOffset = stop := by
        obtain ⟨_, ⟨_, rfl, _⟩ | ⟨_, _, _, _, _, _, rfl⟩⟩ := parseBody_ok_cases h <;> rfl
      rw [hOffset] at hStop
      have hText : ((raw ++ behind).take n ++ []).take stop = (raw ++ behind).take stop := by
        rw [List.append_nil, List.take_take, Nat.min_eq_left hStop]
      have hParse : parseKept keep ((raw ++ behind).take n) [] =
          parseBody (base.keeping keep) ((raw ++ behind).take n) stop := by
        rw [parseKept, findHeaderEnd_cut hEnd hStop hn]
        dsimp only
        rw [hText, hKept]
      obtain ⟨hInside, hCases⟩ := parseBody_ok_cases h
      have hLength : stop ≤ ((raw ++ behind).take n).length := by
        rw [List.length_take, List.length_append]
        omega
      rw [hParse]
      obtain ⟨hNone, rfl, rfl⟩ | ⟨value, len, hSome, hNumber, hLe, rfl, rfl⟩ := hCases
      · exact ⟨fun _ => parseBody_unmeasured hLength (hFound.trans hNone), fun hSome => absurd hNone hSome⟩
      · refine ⟨fun hNone => ?_, ?_⟩
        · change httpRequestGetHeader base (ascii "content-length") = none at hNone
          rw [hSome] at hNone
          cases hNone
        · rintro _ rfl
          have hBody : (((raw ++ behind).take (stop + len)).drop stop).take len =
            (raw.drop stop).take len := by
            rw [List.drop_take, Nat.add_sub_cancel_left, List.take_take, Nat.min_self,
              List.drop_append_of_le_length hInside,
              List.take_append_of_le_length (by rw [List.length_drop]; exact hLe)]
          have hEnough : stop + len ≤ ((raw ++ behind).take (stop + len)).length := by
            rw [List.length_take, List.length_append]
            omega
          rw [parseBody_measured hEnough (hFound.trans hSome) hNumber, hBody]
          rfl

end Cweb
