import Cweb.Lib.CString
import Cweb.Lib.WeightedList
import Cweb.Http.Message
import Mathlib.Tactic.NormNum

/-!
# Who wants gzip

The first member of `Accept-Encoding` that starts with `gzip` decides. Its
weight is not read: a zero behind `q=` refuses, unless a digit from one to nine
follows.
-/

namespace Cweb.Gzip

open Sv WeightedList

def isGzipToken (token : Bytes) : Bool := 4 ≤ token.length && svStartsWith token (ascii "gzip")

/-- `q=0` stands here, and no digit from one to nine behind it. -/
def zeroWeight : Bytes → Bool
  | 113 :: 61 :: 48 :: [] => true
  | 113 :: 61 :: 48 :: c :: _ => c < 49 || 57 < c
  | _ => false

/-- The scan looks at every position of the token. -/
def refusesGzip (token : Bytes) : Bool := token.tails.any zeroWeight

def clientWantsGzip (req : HttpRequest) : Bool :=
  match httpRequestGetHeader req (ascii "accept-encoding") with
  | none => false
  | some ae =>
    match ((svSplit 44 ae).map svTrim).find? isGzipToken with
    | none => false
    | some token => !refusesGzip token

/-! ## What is meant -/

def namedGzip (e : Element) : Bool := e.name.map tolower == ascii "gzip"

/-- There is no weight, or a positive one. -/
def Allows (e : Element) : Prop := ∀ w ∈ e.weight, 0 < w.q.value

/-- The first member named gzip allows it. -/
def WantsGzip (pieces : List Piece) : Prop := ∃ e, (elements pieces).find? namedGzip = some e ∧ Allows e

/-! ## What is done -/

def startsGzip (e : Element) : Bool := (ascii "gzip").isPrefixOf e.name

/-- A weight behind a small letter whose digit in front of the point is zero. -/
def BelowOne (e : Element) : Prop := ∃ w, e.weight = some w ∧ w.upper = false ∧ w.q.one = false

theorem zeroWeight_iff {t : Bytes} : zeroWeight t = true ↔ ∃ rest, t = 113 :: 61 :: 48 :: rest ∧
    ∀ c ∈ rest.head?, c < 49 ∨ 57 < c := by
  constructor
  · intro h
    unfold zeroWeight at h
    split at h
    · exact ⟨[], rfl, by simp⟩
    · rename_i c rest
      exact ⟨c :: rest, rfl, by simpa using h⟩
    · cases h
  · rintro ⟨rest, rfl, hRest⟩
    cases rest with
    | nil => rfl
    | cons c rest => simpa [zeroWeight] using hRest

theorem solid_or : ∀ b : UInt8, (!ChunkGrammar.isTchar b || !isspace b) = true :=
  CString.forall_byte (by decide +kernel)

theorem isspace_of_isTchar {b : UInt8} (h : ChunkGrammar.isTchar b = true) : isspace b = false := by
  simpa [h] using solid_or b

theorem isspace_of_blank {s : Bytes} (h : ChunkGrammar.IsWhitespace s) : ∀ b ∈ s, isspace b = true := by
  intro b hb
  rcases h b hb with rfl | rfl <;> rfl

theorem svTrim_element (e : Element) : svTrim e.text = e.text := by
  obtain ⟨hSome, hChars⟩ := e.token
  apply svTrim_eq_self
  · intro b hb
    rw [Element.text, List.head?_append_of_ne_nil _ hSome] at hb
    exact isspace_of_isTchar (hChars b (List.mem_of_mem_head? hb))
  · intro b hb
    rw [Element.text] at hb
    cases hWeight : e.weight with
    | none =>
      rw [hWeight, Option.elim_none, List.append_nil] at hb
      exact isspace_of_isTchar (hChars b (List.mem_of_getLast? hb))
    | some w =>
      have hText : w.q.text ≠ [] := List.cons_ne_nil _ _
      rw [hWeight, Option.elim_some, Weight.text, ← List.append_assoc, ← List.singleton_append,
        ← List.append_assoc,
        List.getLast?_append_of_ne_nil _ hText] at hb
      exact isspace_of_isTchar (w.q.isTchar_text b (List.mem_of_getLast? hb))

theorem svTrim_piece (p : Piece) : svTrim p.text = p.element.elim [] Element.text := by
  rw [Piece.text, svTrim_append_blank (isspace_of_blank p.after_blank),
    svTrim_blank_append (isspace_of_blank p.before_blank)]
  cases p.element with
  | none => rfl
  | some e => exact svTrim_element e

theorem prefix_of_stop {P : UInt8 → Prop} {start s w : Bytes} (h : start <+: s ++ w)
    (hStart : ∀ c ∈ start, P c) (hStop : ∀ c ∈ w.head?, ¬P c) :
    start <+: s := by
  obtain ⟨tail, hTail⟩ := h
  rcases List.append_eq_append_iff.mp hTail with ⟨mid, rfl, -⟩ | ⟨mid, rfl, rfl⟩
  · exact List.prefix_append start mid
  · cases mid with
    | nil => rw [List.append_nil]
    | cons c mid => exact absurd (hStart c (by simp)) (hStop c rfl)

theorem weight_head (e : Element) : ∀ c ∈ (e.weight.elim [] Weight.text).head?,
    ¬ChunkGrammar.isTchar c = true := by
  intro c hc
  cases hWeight : e.weight with
  | none =>
    rw [hWeight] at hc
    cases hc
  | some w =>
    rw [hWeight, Option.elim_some, Weight.text, Weight.key] at hc
    cases hLeft : w.left with
    | nil =>
      rw [hLeft] at hc
      obtain rfl : 59 = c := Option.some.inj hc
      decide
    | cons b left =>
      rw [hLeft] at hc
      obtain rfl : b = c := Option.some.inj hc
      rcases w.left_blank b (hLeft ▸ List.mem_cons_self) with rfl | rfl <;> decide

theorem isGzipToken_element (e : Element) : isGzipToken e.text = startsGzip e := by
  have hLetters : ∀ c ∈ ascii "gzip", ChunkGrammar.isTchar c = true := by decide +kernel
  rw [Bool.eq_iff_iff, isGzipToken, Bool.and_eq_true, decide_eq_true_eq, svStartsWith, startsGzip,
    List.isPrefixOf_iff_prefix,
    List.isPrefixOf_iff_prefix]
  constructor
  · exact fun h => prefix_of_stop h.2 hLetters (weight_head e)
  · intro hPrefix
    have hText : ascii "gzip" <+: e.text := hPrefix.trans (List.prefix_append e.name _)
    exact ⟨hText.length_le, hText⟩

theorem refusesGzip_element (e : Element) : refusesGzip e.text = true ↔ BelowOne e := by
  rw [refusesGzip, List.any_eq_true]
  constructor
  · rintro ⟨t, hTail, hZero⟩
    obtain ⟨rest, rfl, -⟩ := zeroWeight_iff.mp hZero
    obtain ⟨front, hFront⟩ := (List.mem_tails _ _).mp hTail
    have hName := isMark_equals.not_mem_token e.token
    rw [Element.text] at hFront
    cases hWeight : e.weight with
    | none =>
      rw [hWeight, Option.elim_none, List.append_nil] at hFront
      exact absurd (hFront ▸ by simp) hName
    | some w =>
      have hKey := isMark_equals.not_mem_key (by decide) w
      rw [hWeight, Option.elim_some, Weight.text, ← List.append_assoc] at hFront
      have hBefore : 61 ∉ e.name ++ w.key := fun h => (List.mem_append.mp h).elim hName hKey
      have hCut : (e.name ++ w.key) ++ 61 :: w.q.text = (front ++ [113]) ++ 61 :: 48 :: rest := by
        rw [← hFront, List.append_assoc]
        rfl
      obtain ⟨hSame, -, hValue⟩ :=
        (List.append_cons_inj_of_notMem hBefore (isMark_equals.not_mem_qvalue w.q)).mp hCut
      have hLetters : (e.name ++ (w.left ++ 59 :: w.right)) ++ [if w.upper then 81 else 113] = front ++
        [113] := by
        rw [← hSame, Weight.key]
        simp
      refine ⟨w, hWeight, ?_, ?_⟩
      · have hLetter := (List.append_inj' hLetters rfl).2
        cases hUpper : w.upper with
        | false => rfl
        | true =>
          rw [hUpper] at hLetter
          exact absurd hLetter (by decide)
      · cases hOne : w.q.one with
        | false => rfl
        | true =>
          rw [QValue.text, hOne] at hValue
          exact absurd (List.cons.inj hValue).1 (by decide)
  · rintro ⟨w, hWeight, hUpper, hOne⟩
    have hZero : w.q.text = 48 :: w.q.fraction.elim [] fun ds => 46 :: ds := by
      rw [QValue.text, hOne]
      rfl
    refine ⟨113 :: 61 :: w.q.text, (List.mem_tails _ _).mpr ⟨e.name ++ (w.left ++ 59 :: w.right), ?_⟩, ?_⟩
    · simp [Element.text, hWeight, Weight.text, Weight.key, hUpper]
    · rw [hZero, zeroWeight_iff]
      refine ⟨_, rfl, fun c hc => ?_⟩
      cases hFraction : w.q.fraction with
      | none =>
        rw [hFraction] at hc
        cases hc
      | some ds =>
        rw [hFraction] at hc
        obtain rfl : 46 = c := Option.some.inj hc
        exact .inl (by decide)

/-! ## The list -/

theorem find_svSplit {hit : Bytes → Bool} (hEmpty : hit [] = false) {texts : List Bytes}
    (hComma : ∀ t ∈ texts, 44 ∉ t) :
    (svSplit 44 (Segments.text 44 texts)).find? hit = texts.find? hit := by
  induction texts with
  | nil => rfl
  | cons t texts ih =>
    have ht := hComma t List.mem_cons_self
    have hRest := ih fun u hu => hComma u (List.mem_cons_of_mem _ hu)
    cases texts with
    | nil =>
      rw [Segments.text_singleton]
      by_cases hNil : t = []
      · rw [hNil, List.find?_cons_of_neg (by rw [hEmpty]; exact Bool.false_ne_true)]
        rfl
      · rw [svSplit_last ht hNil]
    | cons u texts => rw [Segments.text_cons (List.cons_ne_nil _ _), svSplit_line ht, List.find?_cons,
      List.find?_cons, hRest]

def aeText (pieces : List Piece) : Bytes := Segments.text 44 (pieces.map Piece.text)

theorem find_pieces (pieces : List Piece) : ((svSplit 44 (aeText pieces)).map svTrim).find? isGzipToken =
    ((elements pieces).find? startsGzip).map Element.text := by
  have hComma : ∀ t ∈ pieces.map Piece.text, 44 ∉ t := List.forall_mem_map.mpr fun p _ => comma_not_mem p
  have hNil : isGzipToken [] = false := by decide
  rw [List.find?_map, aeText, @find_svSplit (isGzipToken ∘ svTrim) (by decide) _ hComma,
    ← List.find?_map, List.map_map]
  induction pieces with
  | nil => rfl
  | cons p pieces ih =>
    have hRest := ih fun t ht => hComma t (List.mem_cons_of_mem _ ht)
    rw [List.map_cons, Function.comp_apply, svTrim_piece, List.find?_cons, elements, List.filterMap_cons]
    cases p.element with
    | none =>
      rw [Option.elim_none, hNil]
      exact hRest
    | some e =>
      rw [Option.elim_some, isGzipToken_element]
      dsimp only
      rw [List.find?_cons]
      cases startsGzip e with
      | true => rfl
      | false => exact hRest

theorem clientWantsGzip_iff {req : HttpRequest} {pieces : List Piece}
    (hHeader : httpRequestGetHeader req (ascii "accept-encoding") = some (aeText pieces)) :
    clientWantsGzip req = true ↔ ∃ e, (elements pieces).find? startsGzip = some e ∧ ¬BelowOne e := by
  rw [clientWantsGzip, hHeader]
  dsimp only
  rw [find_pieces]
  cases (elements pieces).find? startsGzip with
  | none => simp
  | some e => simp [← refusesGzip_element]

/-- The member that is looked at and the one that is meant lead to one answer:
either both are missing, or the one that is there refuses, or they agree. -/
def Decides (pieces : List Piece) : Prop :=
  match (elements pieces).find? startsGzip, (elements pieces).find? namedGzip with
  | none, none => True
  | none, some g => ∃ w, g.weight = some w ∧ w.q.value ≤ 0
  | some p, none => BelowOne p
  | some p, some g => BelowOne p ↔ ∃ w, g.weight = some w ∧ w.q.value ≤ 0

theorem gzip_iff {req : HttpRequest} {pieces : List Piece}
    (hHeader : httpRequestGetHeader req (ascii "accept-encoding") = some (aeText pieces)) :
    (clientWantsGzip req = true ↔ WantsGzip pieces) ↔ Decides pieces := by
  have hAllows : ∀ g : Element, Allows g ↔ ¬∃ w, g.weight = some w ∧ w.q.value ≤ 0 := by
    intro g
    simp [Allows]
  rw [clientWantsGzip_iff hHeader, WantsGzip, Decides]
  cases (elements pieces).find? startsGzip with
  | none =>
    cases (elements pieces).find? namedGzip with
    | none => simp
    | some g => simp [hAllows]
  | some p =>
    cases (elements pieces).find? namedGzip with
    | none => simp
    | some g =>
      simp only [Option.some.injEq, exists_eq_left', hAllows]
      exact not_iff_not

def gzipElement (weight : Option Weight) : Element := ⟨ascii "gzip", weight, by decide, by decide +kernel⟩

/-- The weight 0.5. -/
def half : Weight :=
  ⟨[], [], false, ⟨false, some [53], by simp, by simp [isDigit], nofun⟩, nofun, nofun⟩

def onlyElement (e : Element) : List Piece := [⟨[], some e, [], nofun, nofun⟩]

def encodingRequest (value : Bytes) : HttpRequest :=
  { emptyRequest with headers := [⟨ascii "Accept-Encoding", value⟩] }

theorem gzip_plain : (clientWantsGzip (encodingRequest (aeText (onlyElement (gzipElement none)))) = true ↔
    WantsGzip (onlyElement (gzipElement none))) ∧ aeText (onlyElement (gzipElement none)) = ascii "gzip" := by
  have hHeader : httpRequestGetHeader (encodingRequest (aeText (onlyElement (gzipElement none))))
    (ascii "accept-encoding") =
      some (aeText (onlyElement (gzipElement none))) := by decide +kernel
  refine ⟨(gzip_iff hHeader).mpr ?_, by decide⟩
  have hStarts : (elements (onlyElement (gzipElement none))).find? startsGzip = some (gzipElement none) := rfl
  have hNamed : (elements (onlyElement (gzipElement none))).find? namedGzip = some (gzipElement none) := rfl
  rw [Decides, hStarts, hNamed]
  exact iff_of_false nofun nofun

/-- The weight that the comment in the code means to allow. -/
theorem gzip_half : aeText (onlyElement (gzipElement (some half))) = ascii "gzip;q=0.5" ∧
    clientWantsGzip (encodingRequest (ascii "gzip;q=0.5")) = false ∧
    ¬(clientWantsGzip (encodingRequest (ascii "gzip;q=0.5")) = true ↔
      WantsGzip (onlyElement (gzipElement (some half)))) := by
  have hRefused : clientWantsGzip (encodingRequest (ascii "gzip;q=0.5")) = false := by decide +kernel
  have hAllowed : Allows (gzipElement (some half)) := by
    rintro w hw
    obtain rfl : half = w := Option.some.inj hw
    have hDigit : UInt8.toNat 53 = 53 := rfl
    norm_num [half, QValue.value, hDigit]
  refine ⟨by decide, hRefused, fun h => ?_⟩
  exact Bool.false_ne_true (hRefused.symm.trans (h.mpr ⟨gzipElement (some half), rfl, hAllowed⟩))

end Cweb.Gzip
