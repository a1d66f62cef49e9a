import Cweb.Http.Static
import Cweb.Security.Hmac

/-!
# Entity tags and conditional requests

The middleware stamps a tag that is made from the body, or takes the handler's,
and looks for it in If-None-Match. Both this matcher and the one for static files
cut the list at every comma, also inside a tag, and the one here looks for the
`W/` of a weak tag behind its opening quote.
-/

namespace Cweb.Etag

open Sv Static

/-! ## The middleware -/

/-- The first line with this name, as the C string that is handed out. -/
def httpResponseGetHeader (headers name : Bytes) : Option Bytes :=
  ((headerLinesOf headers).find? (lineNamed name)).map fun line =>
    let value := ((line.takeWhile (· ≠ 10)).drop (name.length + 1)).dropWhile fun b => b == 32 || b == 9
    svFromCstr (value.rdropWhile fun b => b == 32 || b == 9 || b == 13)

/-- Our own tag without its quotes. -/
def ownValue (ours : Bytes) : Bytes :=
  if (ascii "W/").isPrefixOf ours ∧ 4 ≤ ours.length ∧ ours[2]? = some 34 ∧ ours.getLast? = some 34 then
    (ours.drop 3).dropLast
  else (unquoted ours).getD ours

def stripWeak (value : Bytes) : Bytes := if (ascii "W/").isPrefixOf value then value.drop 2 else value

def inmEntry (ours piece : Bytes) : Bool :=
  let entry := svTrim piece
  entry == ascii "*" || (unquoted entry).any fun value => stripWeak value == ours

def inmMatches (header ours : Bytes) : Bool := (svSplit 44 header).any (inmEntry (ownValue ours))

def hex64 (digest : Bytes) : Bytes :=
  digest.flatMap fun (b : UInt8) =>
    [Hmac.digits.getD (b >>> 4 : UInt8).toNat 0, Hmac.digits.getD (b &&& 0x0f : UInt8).toNat 0]

/-- The tag for a body, weak when the options ask for it. -/
def bodyTag (weak : Bool) (body : Bytes) : Bytes :=
  (if weak then ascii "W/\"" else ascii "\"") ++ hex64 (Hmac.sha256 body) ++ ascii "\""

/-- If-Modified-Since is looked at only where the handler set no tag itself. -/
def modifiedSince (httpDateParse : Bytes → Int) (req : HttpRequest) (headers : Bytes)
    (owned : Option Bytes) : Bool :=
  match httpRequestGetHeader req (ascii "If-Modified-Since"), if owned = none then
    httpResponseGetHeader headers (ascii "Last-Modified") else none with
  | some ims, some lm =>
    let ifModified := httpDateParse ims
    let lastModified := httpDateParse lm
    !ims.isEmpty && ifModified != -1 && lastModified != -1 && decide (lastModified ≤ ifModified)
  | _, _ => false

/-- `http_etag_middleware`, with the response that the rest of the chain has
assembled. -/
def httpEtagMiddleware (httpDateParse : Bytes → Int) (weak : Bool) (req : HttpRequest)
    (res : HttpResponse) : HttpResponse :=
  if res.status < 200 ∨ 300 ≤ res.status then res
  else if res.streaming then res
  else if res.body = [] then res
  else
    let owned := httpResponseGetHeader res.headers (ascii "ETag")
    let tag := owned.getD (bodyTag weak res.body)
    let res := if owned = none then res.apply (.setHeader (ascii "ETag") tag) else res
    if (httpRequestGetHeader req (ascii "If-None-Match")).any fun inm => !inm.isEmpty &&
      inmMatches inm tag then
      { res with status := 304, body := [] }
    else if modifiedSince httpDateParse req res.headers owned then { res with status := 304, body := [] }
    else res

/-! ## Tags -/

structure EntityTag where
  weak : Bool
  value : Bytes
deriving DecidableEq, Repr

def isEtagc (b : UInt8) : Bool := b == 33 || (35 ≤ b && b ≤ 126) || 128 ≤ b

namespace EntityTag

def opening (t : EntityTag) : Bytes := if t.weak then ascii "W/\"" else ascii "\""

def text (t : EntityTag) : Bytes := t.opening ++ (t.value ++ [34])

def Valid (t : EntityTag) : Prop := ∀ b ∈ t.value, isEtagc b = true

end EntityTag

/-- A tag in a list, with the blanks around it. -/
structure ListedTag where
  before : Bytes
  tag : EntityTag
  after : Bytes

namespace ListedTag

def text (t : ListedTag) : Bytes := t.before ++ (t.tag.text ++ t.after)

structure Valid (t : ListedTag) : Prop where
  blank : ∀ b ∈ t.before ++ t.after, b = 32 ∨ b = 9
  tag : t.tag.Valid

end ListedTag

def listText (tags : List ListedTag) : Bytes := Segments.text 44 (tags.map ListedTag.text)

theorem isspace_etagc {b : UInt8} (h : isEtagc b = true) : isspace b = false := by
  have hAll : ∀ n : Fin 256, isEtagc (UInt8.ofNat n) = true → isspace (UInt8.ofNat n) = false := by
    decide +kernel
  simpa using hAll ⟨b.toNat, b.toNat_lt⟩ (by simpa using h)

/-! ## Words between separators -/

section Words

variable {α : Type*} {sep : α}

theorem prefix_word_iff {w r : List α} (hw : sep ∉ w) (hr : sep ∉ r) (rest : List α) :
    w ++ [sep] <+: r ++ sep :: rest ↔ w = r := by
  induction w generalizing r with
  | nil =>
    cases r with
    | nil => exact iff_of_true ⟨rest, rfl⟩ rfl
    | cons c r =>
      refine iff_of_false (fun h => hr ?_) (List.cons_ne_nil c r).symm
      rw [(List.cons_prefix_cons.mp h).1]
      exact List.mem_cons_self
  | cons a w ih =>
    rw [List.mem_cons, not_or] at hw
    cases r with
    | nil => exact iff_of_false (fun h => hw.1 (List.cons_prefix_cons.mp h).1.symm) (List.cons_ne_nil a w)
    | cons c r =>
      rw [List.mem_cons, not_or] at hr
      rw [List.cons_append, List.cons_append, List.cons_prefix_cons, ih hw.2 hr.2, List.cons.injEq]

theorem infix_word_iff (w : List α) {r : List α} (hr : sep ∉ r) (rest : List α) :
    sep :: (w ++ [sep]) <:+: r ++ sep :: rest ↔ w ++ [sep] <+: rest ∨ sep :: (w ++ [sep]) <:+: rest := by
  induction r with
  | nil => rw [List.nil_append, List.infix_cons_iff, List.cons_prefix_cons, and_iff_right rfl]
  | cons c r ih =>
    rw [List.mem_cons, not_or] at hr
    rw [List.cons_append, List.infix_cons_iff, List.cons_prefix_cons, ih hr.2, or_iff_right fun h => hr.1 h.1]

theorem not_infix_of_not_mem {s : List α} (h : sep ∉ s) (w : List α) : ¬sep :: w <:+: s :=
  fun hIn => h (hIn.subset List.mem_cons_self)

end Words

/-! ## Lists cut at commas -/

theorem svSplit_append {delim : UInt8} {s : Bytes} (hSome : s ≠ []) (hLast : s.getLast? ≠ some delim)
    (rest : Bytes) :
    svSplit delim (s ++ delim :: rest) = svSplit delim s ++ svSplit delim rest := by
  obtain ⟨empty, hSplit, ⟨hEnds, -⟩ | ⟨-, rfl⟩⟩ := @svSplit_cut delim _ s (Nat.le_refl _) rest
  · exact absurd hEnds (not_or.mpr ⟨hSome, hLast⟩)
  · rw [hSplit, List.append_nil]

theorem any_text {hit : Bytes → Bool} {texts : List Bytes} (hSome : ∀ s ∈ texts, s ≠ [])
    (hLast : ∀ s ∈ texts, s.getLast? ≠ some 44) :
    (svSplit 44 (Segments.text 44 texts)).any hit = texts.any fun s => (svSplit 44 s).any hit := by
  induction texts with
  | nil => rfl
  | cons s texts ih =>
    have hRest := ih (fun q hq => hSome q (List.mem_cons_of_mem _ hq)) fun q hq =>
      hLast q (List.mem_cons_of_mem _ hq)
    cases texts with
    | nil => simp [Segments.text_singleton]
    | cons q texts =>
      rw [Segments.text_cons (List.cons_ne_nil _ _),
        svSplit_append (hSome s List.mem_cons_self) (hLast s List.mem_cons_self),
        List.any_append, hRest]
      rfl

/-- What a matcher makes of the pieces of a tag: where it is cut, only the words
between two commas count. -/
structure CutsTags (hit : Bytes → Bool) (words : List Bytes) : Prop where
  comma : ∀ w ∈ words, 44 ∉ w
  first : ∀ {before v : Bytes} (weak : Bool), (∀ b ∈ before, isspace b = true) → (∀ b ∈ v, isEtagc b = true) →
    hit (before ++ (EntityTag.opening ⟨weak, []⟩ ++ v)) = false
  middle : ∀ {v : Bytes}, (∀ b ∈ v, isEtagc b = true) → (hit v = true ↔ v ∈ words)
  last : ∀ {after v : Bytes}, (∀ b ∈ after, isspace b = true) → (∀ b ∈ v, isEtagc b = true) →
    hit (v ++ 34 :: after) = false

theorem ListedTag.Valid.before {t : ListedTag} (h : t.Valid) : ∀ b ∈ t.before, isspace b = true := by
  intro b hb
  rcases h.blank b (List.mem_append_left _ hb) with rfl | rfl <;> decide

theorem ListedTag.Valid.after {t : ListedTag} (h : t.Valid) : ∀ b ∈ t.after, isspace b = true := by
  intro b hb
  rcases h.blank b (List.mem_append_right _ hb) with rfl | rfl <;> decide

section Cut

variable {hit : Bytes → Bool} {words : List Bytes} (hCuts : CutsTags hit words)
include hCuts

theorem CutsTags.any_behind {after : Bytes} (hAfter : ∀ b ∈ after, isspace b = true) (n : Nat) :
    ∀ {rest : Bytes}, rest.length ≤ n →
    (∀ b ∈ rest, isEtagc b = true) → ((svSplit 44 (rest ++ 34 :: after)).any hit = true ↔
      ∃ w ∈ words, w ++ [44] <+: rest ∨ 44 :: (w ++ [44]) <:+: rest) := by
  have hComma : 44 ∉ after := fun hMem => absurd (hAfter 44 hMem) (by decide)
  have hOne : ∀ {rest : Bytes}, 44 ∉ rest → (∀ b ∈ rest, isEtagc b = true) →
    ((svSplit 44 (rest ++ 34 :: after)).any hit = true ↔
      ∃ w ∈ words, w ++ [44] <+: rest ∨ 44 :: (w ++ [44]) <:+: rest) := by
    intro rest hNone hEtagc
    have hLine : 44 ∉ rest ++ 34 :: after := by
      simp only [List.mem_append, List.mem_cons, not_or]
      exact ⟨hNone, by decide, hComma⟩
    rw [svSplit_last hLine (by simp), List.any_cons, hCuts.last hAfter hEtagc]
    refine iff_of_false (by simp) ?_
    rintro ⟨w, -, hPrefix | hInfix⟩
    · exact hNone (hPrefix.subset (by simp))
    · exact not_infix_of_not_mem hNone _ hInfix
  induction n with
  | zero =>
    intro rest h hEtagc
    obtain rfl := List.length_eq_zero_iff.mp (Nat.le_zero.mp h)
    exact hOne List.not_mem_nil hEtagc
  | succ n ih =>
    intro rest h hEtagc
    rcases svChopByDelim_cases 44 rest with ⟨hNone, -⟩ | ⟨piece, tail, rfl, hNone, -⟩
    · exact hOne hNone hEtagc
    · rw [List.length_append, List.length_cons] at h
      have hPiece : ∀ b ∈ piece, isEtagc b = true := fun b hb => hEtagc b (List.mem_append_left _ hb)
      have hTail : ∀ b ∈ tail, isEtagc b = true :=
        fun b hb => hEtagc b (List.mem_append_right _ (List.mem_cons_of_mem _ hb))
      rw [List.append_assoc, List.cons_append, svSplit_line hNone, List.any_cons, Bool.or_eq_true,
        hCuts.middle hPiece, ih (by omega) hTail]
      constructor
      · rintro (hWord | ⟨w, hw, hFound⟩)
        · exact ⟨piece, hWord, .inl ((prefix_word_iff hNone hNone tail).mpr rfl)⟩
        · exact ⟨w, hw, .inr ((infix_word_iff w hNone tail).mpr hFound)⟩
      · rintro ⟨w, hw, hFound | hFound⟩
        · exact .inl ((prefix_word_iff (hCuts.comma w hw) hNone tail).mp hFound ▸ hw)
        · exact .inr ⟨w, hw, (infix_word_iff w hNone tail).mp hFound⟩

/-- A tag is found as a whole when it has no comma, else by a word between two
of its commas. -/
theorem CutsTags.any_tag {t : ListedTag} (ht : t.Valid) : (svSplit 44 t.text).any hit = true ↔
    (44 ∉ t.tag.value ∧ hit t.text = true) ∨ ∃ w ∈ words, 44 :: (w ++ [44]) <:+: t.tag.value := by
  have hBefore := ht.before
  have hAfter := ht.after
  have hOpening : 44 ∉ t.before ++ t.tag.opening := by
    rw [List.mem_append, not_or, EntityTag.opening]
    refine ⟨fun hMem => absurd (hBefore 44 hMem) (by decide), ?_⟩
    split <;> decide
  have hText : t.text = (t.before ++ t.tag.opening) ++ (t.tag.value ++ 34 :: t.after) := by
    simp [ListedTag.text, EntityTag.text]
  have hValue : ∀ b ∈ t.tag.value, isEtagc b = true := ht.tag
  rw [hText]
  generalize hv : t.tag.value = v at hValue
  rcases svChopByDelim_cases 44 v with ⟨hNone, -⟩ | ⟨piece, tail, rfl, hNone, -⟩
  · have hLine : 44 ∉ (t.before ++ t.tag.opening) ++ (v ++ 34 :: t.after) := by
      rw [List.mem_append, not_or]
      refine ⟨hOpening, ?_⟩
      rw [List.mem_append, List.mem_cons, not_or, not_or]
      exact ⟨hNone, by decide, fun hMem => absurd (hAfter 44 hMem) (by decide)⟩
    rw [svSplit_last hLine (by simp), List.any_cons, List.any_nil, Bool.or_false, and_iff_right hNone,
      or_iff_left]
    rintro ⟨w, -, hInfix⟩
    exact not_infix_of_not_mem hNone _ hInfix
  · have hPiece : ∀ b ∈ piece, isEtagc b = true := fun b hb => hValue b (List.mem_append_left _ hb)
    have hTail : ∀ b ∈ tail, isEtagc b = true :=
      fun b hb => hValue b (List.mem_append_right _ (List.mem_cons_of_mem _ hb))
    have hLine : 44 ∉ (t.before ++ t.tag.opening) ++ piece := by
      rw [List.mem_append, not_or]
      exact ⟨hOpening, hNone⟩
    have hCut : (t.before ++ t.tag.opening) ++ (piece ++ 44 :: tail ++ 34 :: t.after) =
        ((t.before ++ t.tag.opening) ++ piece) ++ 44 :: (tail ++ 34 :: t.after) := by
      simp
    have hFirst : hit ((t.before ++ t.tag.opening) ++ piece) = false := by
      rw [List.append_assoc]
      exact hCuts.first t.tag.weak hBefore hPiece
    rw [hCut, svSplit_line hLine, List.any_cons, hFirst, Bool.false_or,
      hCuts.any_behind hAfter _ (Nat.le_refl _) hTail,
      or_iff_right fun h => h.1 (List.mem_append_right _ List.mem_cons_self)]
    simp only [infix_word_iff _ hNone tail]

end Cut

/-! ## The two matchers -/

theorem unquoted_quoted (v : Bytes) : unquoted (34 :: (v ++ [34])) = some v := by
  have hLong : 2 ≤ (34 :: (v ++ [34])).length := by simp
  have hLast : (34 :: (v ++ [34])).getLast? = some 34 := by rw [← List.cons_append, List.getLast?_concat]
  rw [unquoted, if_pos ⟨hLong, rfl, hLast⟩, List.drop_one, List.tail_cons, List.dropLast_concat]

theorem unquoted_of_head {s : Bytes} (h : s.head? ≠ some 34) : unquoted s = none :=
  if_neg fun hQuoted => h hQuoted.2.1

theorem unquoted_open {v : Bytes} (h : 34 ∉ v) : unquoted (34 :: v) = none := by
  refine if_neg fun hQuoted => ?_
  rcases List.eq_nil_or_concat' v with rfl | ⟨init, last, rfl⟩
  · exact absurd hQuoted.1 (by decide)
  · have hLast := hQuoted.2.2
    rw [← List.cons_append, List.getLast?_concat, Option.some.injEq] at hLast
    exact h (hLast ▸ List.mem_append_right _ (List.mem_singleton_self last))

theorem unquoted_close {v : Bytes} (h : 34 ∉ v) : unquoted (v ++ [34]) = none := by
  refine if_neg fun hQuoted => ?_
  cases v with
  | nil => exact absurd hQuoted.1 (by decide)
  | cons b v =>
    have hHead := hQuoted.2.1
    rw [List.cons_append, List.head?_cons, Option.some.injEq] at hHead
    exact h (hHead ▸ List.mem_cons_self)

theorem unquoted_of_not_mem {v : Bytes} (h : 34 ∉ v) : unquoted v = none :=
  unquoted_of_head fun hHead => h (List.mem_of_mem_head? hHead)

section Pieces

variable {v before after : Bytes}

theorem not_quote_mem (hv : ∀ b ∈ v, isEtagc b = true) : 34 ∉ v := fun hMem => absurd (hv 34 hMem) (by decide)

theorem solid_opening (weak : Bool) : ∀ b ∈ EntityTag.opening ⟨weak, []⟩, isspace b = false := by
  cases weak <;> decide +kernel

theorem svTrim_first (hBefore : ∀ b ∈ before, isspace b = true) (hv : ∀ b ∈ v, isEtagc b = true)
    (weak : Bool) :
    svTrim (before ++ (EntityTag.opening ⟨weak, []⟩ ++ v)) = EntityTag.opening ⟨weak, []⟩ ++ v := by
  rw [svTrim_blank_append hBefore]
  refine svTrim_solid fun b hb => ?_
  rcases List.mem_append.mp hb with hb | hb
  · exact solid_opening weak b hb
  · exact isspace_etagc (hv b hb)

theorem svTrim_last (hAfter : ∀ b ∈ after, isspace b = true) (hv : ∀ b ∈ v, isEtagc b = true) :
    svTrim (v ++ 34 :: after) = v ++ [34] := by
  have hList : v ++ 34 :: after = (v ++ [34]) ++ after := by simp
  rw [hList, svTrim_append_blank hAfter]
  refine svTrim_solid fun b hb => ?_
  rcases List.mem_append.mp hb with hb | hb
  · exact isspace_etagc (hv b hb)
  · rw [List.mem_singleton.mp hb]
    decide

theorem svTrim_etagc (hv : ∀ b ∈ v, isEtagc b = true) : svTrim v = v :=
  svTrim_solid fun b hb => isspace_etagc (hv b hb)

end Pieces

theorem ListedTag.Valid.svTrim_text {t : ListedTag} (h : t.Valid) : svTrim t.text = t.tag.text := by
  have hTag : ∀ b ∈ t.tag.text, isspace b = false := by
    intro b hb
    rcases List.mem_append.mp hb with hb | hb
    · exact solid_opening t.tag.weak b hb
    · rcases List.mem_append.mp hb with hb | hb
      · exact isspace_etagc (h.tag b hb)
      · rw [List.mem_singleton.mp hb]
        decide
  rw [ListedTag.text, svTrim_blank_append h.before, svTrim_append_blank h.after, svTrim_solid hTag]

theorem inmEntry_cuts (ours : Bytes) : CutsTags (inmEntry ours) [ascii "*"] where
  comma := by decide
  first := by
    intro before v weak hBefore hv
    rw [inmEntry, svTrim_first hBefore hv]
    cases weak with
    | true =>
      have hNone : unquoted (EntityTag.opening ⟨true, []⟩ ++ v) = none :=
        unquoted_of_head (show (some 87 : Option UInt8) ≠ some 34 by decide)
      rw [hNone]
      rfl
    | false =>
      have hNone : unquoted (EntityTag.opening ⟨false, []⟩ ++ v) = none := unquoted_open (not_quote_mem hv)
      rw [hNone]
      rfl
  middle := by
    intro v hv
    rw [inmEntry, svTrim_etagc hv, unquoted_of_not_mem (not_quote_mem hv)]
    simp
  last := by
    intro after v hAfter hv
    have hStar : v ++ [34] ≠ ascii "*" := by
      intro hEq
      have hLast := congrArg List.getLast? hEq
      rw [List.getLast?_concat] at hLast
      exact absurd hLast (by decide)
    rw [inmEntry, svTrim_last hAfter hv, unquoted_close (not_quote_mem hv)]
    simpa using hStar

theorem inmEntry_text (ours : Bytes) {t : ListedTag} (ht : t.Valid) :
    inmEntry ours t.text = true ↔ t.tag.weak = false ∧ stripWeak t.tag.value = ours := by
  rw [inmEntry, ht.svTrim_text]
  cases hWeak : t.tag.weak with
  | true =>
    have hText : t.tag.text = 87 :: 47 :: 34 :: (t.tag.value ++ [34]) := by
      rw [EntityTag.text, EntityTag.opening, hWeak]
      rfl
    have hNone : unquoted (87 :: 47 :: 34 :: (t.tag.value ++ [34])) = none :=
      unquoted_of_head (show (some 87 : Option UInt8) ≠ some 34 by decide)
    rw [hText, hNone]
    simp [ascii]
  | false =>
    have hText : t.tag.text = 34 :: (t.tag.value ++ [34]) := by
      rw [EntityTag.text, EntityTag.opening, hWeak]
      rfl
    rw [hText, unquoted_quoted]
    simp [ascii]

/-- One entry of the matcher for static files. -/
def staticEntry (ours piece : Bytes) : Bool :=
  let tag := svTrim piece
  let tag := if (ascii "W/").isPrefixOf tag then svTrim (tag.drop 2) else tag
  tag == ascii "*" || unquoted tag == some ours

theorem etagListMatches_eq (header ours : Bytes) :
    etagListMatches header ours = (svSplit 44 header).any (staticEntry ((unquoted ours).getD ours)) := rfl

theorem staticEntry_cuts (ours : Bytes) : CutsTags (staticEntry ours) [ascii "*", ascii "W/*"] where
  comma := by decide
  first := by
    intro before v weak hBefore hv
    have hTrim : svTrim (34 :: v) = 34 :: v := by
      refine svTrim_solid fun b hb => ?_
      rcases List.mem_cons.mp hb with rfl | hb
      · decide
      · exact isspace_etagc (hv b hb)
    have hTag : (if (ascii "W/").isPrefixOf (EntityTag.opening ⟨weak, []⟩ ++ v) then
      svTrim ((EntityTag.opening ⟨weak, []⟩ ++ v).drop 2)
        else EntityTag.opening ⟨weak, []⟩ ++ v) = 34 :: v := by
      cases weak with
      | true => exact hTrim
      | false => rfl
    rw [staticEntry, svTrim_first hBefore hv]
    rw [hTag, unquoted_open (not_quote_mem hv)]
    simp [ascii]
  middle := by
    intro v hv
    rw [staticEntry, svTrim_etagc hv]
    cases hPrefix : (ascii "W/").isPrefixOf v with
    | true =>
      obtain ⟨rest, rfl⟩ := List.isPrefixOf_iff_prefix.mp hPrefix
      have hRest : ∀ b ∈ rest, isEtagc b = true := fun b hb => hv b (List.mem_append_right _ hb)
      have hDrop : (ascii "W/" ++ rest).drop 2 = rest := rfl
      rw [if_pos rfl, hDrop, svTrim_etagc hRest, unquoted_of_not_mem (not_quote_mem hRest)]
      simp [ascii]
    | false =>
      rw [if_neg Bool.false_ne_true, unquoted_of_not_mem (not_quote_mem hv)]
      have hOther : v ≠ ascii "W/*" := by
        rintro rfl
        exact absurd hPrefix (by decide)
      simp [hOther]
  last := by
    intro after v hAfter hv
    have hStar : ∀ rest : Bytes, rest ++ [34] ≠ ascii "*" := by
      intro rest hEq
      have hLast := congrArg List.getLast? hEq
      rw [List.getLast?_concat] at hLast
      exact absurd hLast (by decide)
    rw [staticEntry, svTrim_last hAfter hv]
    split
    · next hPrefix =>
      obtain ⟨rest, hRest⟩ := List.isPrefixOf_iff_prefix.mp hPrefix
      rcases v with _ | ⟨a, _ | ⟨b, v⟩⟩
      · cases hRest
      · cases hRest
      · have hEtagc : ∀ c ∈ v, isEtagc c = true :=
          fun c hc => hv c (List.mem_cons_of_mem _ (List.mem_cons_of_mem _ hc))
        have hDrop : (a :: b :: v ++ [34]).drop 2 = v ++ [34] := rfl
        have hTrim : svTrim (v ++ [34]) = v ++ [34] := @svTrim_last v [] (by simp) hEtagc
        rw [hDrop, hTrim, unquoted_close (not_quote_mem hEtagc)]
        simpa using hStar v
    · rw [unquoted_close (not_quote_mem hv)]
      simpa using hStar v

theorem staticEntry_text (ours : Bytes) {t : ListedTag} (ht : t.Valid) :
    staticEntry ours t.text = true ↔ t.tag.value = ours := by
  have hQuoted : svTrim (34 :: (t.tag.value ++ [34])) = 34 :: (t.tag.value ++ [34]) := by
    refine svTrim_solid fun b hb => ?_
    simp only [List.mem_cons, List.mem_append, List.not_mem_nil, or_false] at hb
    rcases hb with rfl | hb | rfl
    · decide
    · exact isspace_etagc (ht.tag b hb)
    · decide
  have hTag : (if (ascii "W/").isPrefixOf t.tag.text then svTrim (t.tag.text.drop 2) else t.tag.text) =
    34 :: (t.tag.value ++ [34]) := by
    rw [EntityTag.text, EntityTag.opening]
    cases t.tag.weak with
    | true => exact hQuoted
    | false => rfl
  rw [staticEntry, ht.svTrim_text]
  rw [hTag, unquoted_quoted]
  simp [ascii]

/-! ## Lists of tags -/

/-- Some value has the word between two of its commas. -/
def Starred (word : Bytes) (tags : List ListedTag) : Prop := ∃ t ∈ tags, 44 :: (word ++ [44]) <:+: t.tag.value

theorem getLast?_text {t : ListedTag} (h : t.Valid) : t.text.getLast? ≠ some 44 := by
  intro hLast
  have hMem := List.mem_of_getLast? hLast
  rcases List.eq_nil_or_concat' t.after with hAfter | ⟨init, last, hAfter⟩
  · rw [ListedTag.text, hAfter, List.append_nil, EntityTag.text, ← List.append_assoc,
      ← List.append_assoc, List.getLast?_concat] at hLast
    cases hLast
  · rw [ListedTag.text, hAfter, ← List.append_assoc, ← List.append_assoc, List.getLast?_concat,
      Option.some.injEq] at hLast
    have hBlank := h.blank last (by simp [hAfter])
    rw [hLast] at hBlank
    exact absurd hBlank (by decide)

theorem CutsTags.any_list {hit : Bytes → Bool} {words : List Bytes} (hCuts : CutsTags hit words)
    {tags : List ListedTag}
    (hTags : ∀ t ∈ tags, t.Valid) : (svSplit 44 (listText tags)).any hit = true ↔
      (∃ t ∈ tags, 44 ∉ t.tag.value ∧ hit t.text = true) ∨ ∃ w ∈ words, Starred w tags := by
  have hSome : ∀ s ∈ tags.map ListedTag.text, s ≠ [] := by
    intro s hs
    obtain ⟨t, -, rfl⟩ := List.mem_map.mp hs
    simp [ListedTag.text, EntityTag.text]
  have hLast : ∀ s ∈ tags.map ListedTag.text, s.getLast? ≠ some 44 := by
    intro s hs
    obtain ⟨t, ht, rfl⟩ := List.mem_map.mp hs
    exact getLast?_text (hTags t ht)
  rw [listText, any_text hSome hLast, List.any_map, List.any_eq_true]
  constructor
  · rintro ⟨t, ht, hAny⟩
    rcases (hCuts.any_tag (hTags t ht)).mp hAny with hWhole | ⟨w, hw, hInfix⟩
    · exact .inl ⟨t, ht, hWhole⟩
    · exact .inr ⟨w, hw, t, ht, hInfix⟩
  · rintro (⟨t, ht, hWhole⟩ | ⟨w, hw, t, ht, hInfix⟩)
    · exact ⟨t, ht, (hCuts.any_tag (hTags t ht)).mpr (.inl hWhole)⟩
    · exact ⟨t, ht, (hCuts.any_tag (hTags t ht)).mpr (.inr ⟨w, hw, hInfix⟩)⟩

theorem ownValue_text (t : EntityTag) : ownValue t.text = t.value := by
  rw [ownValue, EntityTag.text, EntityTag.opening]
  cases t.weak with
  | true =>
    have hText : (if true = true then ascii "W/\"" else ascii "\"") ++
      (t.value ++ [34]) = 87 :: 47 :: 34 :: (t.value ++ [34]) := rfl
    have hLong : 4 ≤ (87 :: 47 :: 34 :: (t.value ++ [34])).length := by simp
    have hLast : (87 :: 47 :: 34 :: (t.value ++ [34])).getLast? = some 34 := by
      rw [← List.cons_append, ← List.cons_append, ← List.cons_append, List.getLast?_concat]
    rw [hText, if_pos ⟨rfl, hLong, rfl, hLast⟩]
    exact List.dropLast_concat
  | false =>
    have hText : (if false = true then ascii "W/\"" else ascii "\"") ++
      (t.value ++ [34]) = 34 :: (t.value ++ [34]) := rfl
    have hPrefix : ¬(ascii "W/").isPrefixOf (34 :: (t.value ++ [34])) = true := Bool.false_ne_true
    rw [hText, if_neg fun h => hPrefix h.1, unquoted_quoted]
    rfl

/-- What makes the middleware's matcher find a tag. -/
def Caught (tag : EntityTag) (tags : List ListedTag) : Prop :=
  (∃ t ∈ tags, t.tag.weak = false ∧ 44 ∉ t.tag.value ∧ stripWeak t.tag.value = tag.value) ∨
    Starred (ascii "*") tags

theorem inmMatches_listText (tag : EntityTag) {tags : List ListedTag} (hTags : ∀ t ∈ tags, t.Valid) :
    inmMatches (listText tags) tag.text = true ↔ Caught tag tags := by
  rw [inmMatches, ownValue_text, (inmEntry_cuts tag.value).any_list hTags, Caught]
  refine or_congr ⟨?_, ?_⟩ (by simp)
  · rintro ⟨t, ht, hComma, hHit⟩
    obtain ⟨hWeak, hValue⟩ := (inmEntry_text tag.value (hTags t ht)).mp hHit
    exact ⟨t, ht, hWeak, hComma, hValue⟩
  · rintro ⟨t, ht, hWeak, hComma, hValue⟩
    exact ⟨t, ht, hComma, (inmEntry_text tag.value (hTags t ht)).mpr ⟨hWeak, hValue⟩⟩

theorem etagListMatches_listText {tag : EntityTag} (hStrong : tag.weak = false) {tags : List ListedTag}
    (hTags : ∀ t ∈ tags, t.Valid) :
    etagListMatches (listText tags) tag.text = true ↔
      (∃ t ∈ tags, 44 ∉ t.tag.value ∧ t.tag.value = tag.value) ∨ Starred (ascii "*") tags ∨
        Starred (ascii "W/*") tags := by
  have hText : tag.text = 34 :: (tag.value ++ [34]) := by
    rw [EntityTag.text, EntityTag.opening, hStrong]
    rfl
  rw [etagListMatches_eq, hText, unquoted_quoted, Option.getD_some,
    (staticEntry_cuts tag.value).any_list hTags]
  refine or_congr ⟨?_, ?_⟩ (by simp)
  · rintro ⟨t, ht, hComma, hHit⟩
    exact ⟨t, ht, hComma, (staticEntry_text tag.value (hTags t ht)).mp hHit⟩
  · rintro ⟨t, ht, hComma, hValue⟩
    exact ⟨t, ht, hComma, (staticEntry_text tag.value (hTags t ht)).mpr hValue⟩

/-! ## The tag that is sent -/

def EndsLine (headers : Bytes) : Prop := headers = [] ∨ headers.getLast? = some 10

theorem headerLinesOf_line {line : Bytes} (h : 10 ∉ line) (rest : Bytes) :
    headerLinesOf (line ++ 10 :: rest) = (line ++ [10]) :: headerLinesOf rest := by
  induction line with
  | nil => rw [List.nil_append, headerLinesOf, if_pos rfl, List.nil_append]
  | cons b line ih =>
    rw [List.mem_cons, not_or] at h
    rw [List.cons_append, headerLinesOf, if_neg (Ne.symm h.1), ih h.2]
    rfl

theorem headerLinesOf_whole (n : Nat) : ∀ {headers : Bytes}, headers.length ≤ n → EndsLine headers → ∀ rest,
    headerLinesOf (headers ++ rest) = headerLinesOf headers ++ headerLinesOf rest := by
  induction n with
  | zero =>
    intro headers h _ rest
    obtain rfl := List.length_eq_zero_iff.mp (Nat.le_zero.mp h)
    rfl
  | succ n ih =>
    intro headers h hEnds rest
    rcases svChopByDelim_cases 10 headers with ⟨hNone, -⟩ | ⟨line, tail, rfl, hNone, -⟩
    · rcases hEnds with rfl | hLast
      · rfl
      · exact absurd (List.mem_of_getLast? hLast) hNone
    · have hTail : EndsLine tail := by
        rcases List.eq_nil_or_concat' tail with rfl | ⟨init, last, rfl⟩
        · exact .inl rfl
        · refine .inr ?_
          rcases hEnds with hNil | hLast
          · simp at hNil
          · rw [← List.cons_append, ← List.append_assoc, List.getLast?_concat] at hLast
            rwa [List.getLast?_concat]
      rw [List.length_append, List.length_cons] at h
      rw [List.append_assoc, List.cons_append, headerLinesOf_line hNone, headerLinesOf_line hNone,
        ih (by omega) hTail, List.cons_append]

theorem flatten_headerLinesOf (headers : Bytes) : (headerLinesOf headers).flatten = headers := by
  induction headers with
  | nil => rfl
  | cons b headers ih =>
    rw [headerLinesOf]
    split
    · rw [List.flatten_cons, ih]
      rfl
    · cases hLines : headerLinesOf headers with
      | nil =>
        rw [hLines] at ih
        rw [← ih]
        rfl
      | cons line lines =>
        rw [hLines] at ih
        rw [← ih]
        rfl

theorem EntityTag.getLast?_text (t : EntityTag) : t.text.getLast? = some 34 := by
  rw [EntityTag.text, ← List.append_assoc, List.getLast?_concat]

theorem EntityTag.not_mem_text {t : EntityTag} (h : t.Valid) {b : UInt8} (hb : b = 0 ∨ b = 10) :
    b ∉ t.text := by
  have hOpening : b ∉ t.opening := by
    rw [EntityTag.opening]
    rcases hb with rfl | rfl <;> split <;> decide
  rw [EntityTag.text, List.mem_append, List.mem_append, List.mem_singleton, not_or, not_or]
  refine ⟨hOpening, fun hMem => ?_, by rcases hb with rfl | rfl <;> decide⟩
  rcases hb with rfl | rfl <;> exact absurd (h _ hMem) (by decide)

theorem valueOf_line {t : EntityTag} (h : t.Valid) :
    httpResponseGetHeader (headerLine (ascii "ETag") t.text) (ascii "ETag") = some t.text := by
  obtain ⟨first, rest, hText, hSolid⟩ : ∃ first rest, t.text = first :: rest ∧
    (first == 32 || first == 9) = false := by
    rw [EntityTag.text, EntityTag.opening]
    split
    · exact ⟨87, _, rfl, by decide⟩
    · exact ⟨34, _, rfl, by decide⟩
  have hLf : 10 ∉ ascii "ETag: " ++ (t.text ++ [13]) := by
    simp only [List.mem_append, not_or]
    exact ⟨by decide, EntityTag.not_mem_text h (.inr rfl), by decide⟩
  have hLine : headerLine (ascii "ETag") t.text = (ascii "ETag: " ++ (t.text ++ [13])) ++ 10 :: [] := by
    simp [headerLine, crlf, ascii]
  have hNamed : lineNamed (ascii "ETag") ((ascii "ETag: " ++ (t.text ++ [13])) ++ [10]) = true := rfl
  have hWhile : ((ascii "ETag: " ++ (t.text ++ [13])) ++ [10]).takeWhile (· ≠ 10) = ascii "ETag: " ++
    (t.text ++ [13]) := by
    rw [List.takeWhile_append_of_pos fun b hb => by simpa using fun hEq : b = 10 => hLf (hEq ▸ hb)]
    rw [List.takeWhile_cons_of_neg (by decide), List.append_nil]
  have hBlank : (32 :: (t.text ++ [13])).dropWhile (fun b => b == 32 || b == 9) = t.text ++ [13] := by
    rw [List.dropWhile_cons_of_pos (by decide), hText, List.cons_append,
      List.dropWhile_cons_of_neg (by rw [hSolid]; exact Bool.false_ne_true)]
  have hRight : (t.text ++ [13]).rdropWhile (fun b => b == 32 || b == 9 || b == 13) = t.text := by
    rw [List.rdropWhile_concat_pos _ _ _ (by decide)]
    refine List.rdropWhile_eq_self_iff.mpr fun hSome => ?_
    have hLast := t.getLast?_text
    rw [List.getLast?_eq_some_getLast hSome, Option.some.injEq] at hLast
    rw [hLast]
    decide
  have hDrop : (ascii "ETag: " ++ (t.text ++ [13])).drop ((ascii "ETag").length + 1) =
    32 :: (t.text ++ [13]) := rfl
  have hNil : headerLinesOf [] = [] := rfl
  rw [httpResponseGetHeader, hLine, headerLinesOf_line hLf, hNil, List.find?_singleton, hNamed,
    if_pos rfl, Option.map_some]
  rw [hWhile, hDrop, hBlank]
  dsimp only
  rw [hRight, svFromCstr_of_not_mem (EntityTag.not_mem_text h (.inl rfl))]

theorem getHeader_stamped {headers : Bytes} (hEnds : EndsLine headers)
    (hNone : httpResponseGetHeader headers (ascii "ETag") = none) {t : EntityTag}
    (ht : t.Valid) : httpResponseGetHeader (responseEmitHeader headers (ascii "ETag") t.text true)
      (ascii "ETag") = some t.text := by
  have hFind : (headerLinesOf headers).find? (lineNamed (ascii "ETag")) = none :=
    Option.map_eq_none_iff.mp hNone
  have hFilter : (headerLinesOf headers).filter (fun line => !lineNamed (ascii "ETag") line) =
    headerLinesOf headers := by
    refine List.filter_eq_self.mpr fun line hLine => ?_
    simpa using List.find?_eq_none.mp hFind line hLine
  have hEmit : responseEmitHeader headers (ascii "ETag") t.text true = headers ++
    headerLine (ascii "ETag") t.text := by
    rw [responseEmitHeader, if_neg (by decide)]
    dsimp only
    rw [hFilter, flatten_headerLinesOf, hFind, Option.map_none, Option.getD_none]
  have hLine := valueOf_line ht
  rw [httpResponseGetHeader] at hLine
  rw [hEmit, httpResponseGetHeader, headerLinesOf_whole _ (Nat.le_refl _) hEnds, List.find?_append,
    hFind, Option.none_or]
  exact hLine

theorem hex64_etagc (digest : Bytes) : ∀ b ∈ hex64 digest, isEtagc b = true := by
  have hAll : ∀ n : Fin 256, isEtagc (Hmac.digits.getD (UInt8.ofNat n >>> 4 : UInt8).toNat 0) = true ∧
      isEtagc (Hmac.digits.getD (UInt8.ofNat n &&& 0x0f : UInt8).toNat 0) = true := by decide +kernel
  intro b hb
  obtain ⟨d, -, hMem⟩ := List.mem_flatMap.mp hb
  have hd := hAll ⟨d.toNat, d.toNat_lt⟩
  rw [UInt8.ofNat_toNat] at hd
  simp only [List.mem_cons, List.not_mem_nil, or_false] at hMem
  rcases hMem with rfl | rfl
  · exact hd.1
  · exact hd.2

theorem bodyTag_text (weak : Bool) (body : Bytes) :
    bodyTag weak body = (⟨weak, hex64 (Hmac.sha256 body)⟩ : EntityTag).text := by
  rw [bodyTag, EntityTag.text, EntityTag.opening, List.append_assoc]
  rfl

/-! ## The answers -/

/-- A response that the middleware validates. -/
structure Cacheable (res : HttpResponse) : Prop where
  success : 200 ≤ res.status ∧ res.status < 300
  whole : res.streaming = false
  body : res.body ≠ []

def stamped (weak : Bool) (res : HttpResponse) : HttpResponse :=
  if httpResponseGetHeader res.headers (ascii "ETag") = none then
    res.apply (.setHeader (ascii "ETag") (bodyTag weak res.body))
  else res

section Middleware

variable {httpDateParse : Bytes → Int} {weak : Bool} {res : HttpResponse}

def sentTag (weak : Bool) (res : HttpResponse) : Bytes :=
  (httpResponseGetHeader res.headers (ascii "ETag")).getD (bodyTag weak res.body)

/-- If-Modified-Since as the middleware reads it. -/
def Unchanged (httpDateParse : Bytes → Int) (weak : Bool) (req : HttpRequest) (res : HttpResponse) : Prop :=
  modifiedSince httpDateParse req (stamped weak res).headers
    (httpResponseGetHeader res.headers (ascii "ETag")) = true

theorem httpEtagMiddleware_eq (h : Cacheable res) (req : HttpRequest) :
    httpEtagMiddleware httpDateParse weak req res =
    if (httpRequestGetHeader req (ascii "If-None-Match")).any
      (fun inm => !inm.isEmpty && inmMatches inm (sentTag weak res)) then
      { stamped weak res with status := 304, body := [] }
    else if modifiedSince httpDateParse req (stamped weak res).headers
      (httpResponseGetHeader res.headers (ascii "ETag")) then
      { stamped weak res with status := 304, body := [] }
    else stamped weak res := by
  have hStatus : ¬(res.status < 200 ∨ 300 ≤ res.status) := by
    have hIn := h.success
    omega
  rw [httpEtagMiddleware, if_neg hStatus, h.whole, if_neg Bool.false_ne_true, if_neg h.body]
  dsimp only
  cases hOwned : httpResponseGetHeader res.headers (ascii "ETag") with
  | none =>
    rw [sentTag, stamped, hOwned]
    rfl
  | some owned =>
    rw [sentTag, stamped, hOwned]
    rfl

theorem stamped_status (h : Cacheable res) : (stamped weak res).status ≠ 304 := by
  have hIn := h.success
  rw [stamped]
  split
  · change res.status ≠ 304
    omega
  · omega

theorem middleware_status_iff (h : Cacheable res) (req : HttpRequest) :
    (httpEtagMiddleware httpDateParse weak req res).status = 304 ↔
    (∃ inm, httpRequestGetHeader req (ascii "If-None-Match") = some inm ∧
      inmMatches inm (sentTag weak res) = true) ∨
      Unchanged httpDateParse weak req res := by
  have hEmpty : ∀ inm ours : Bytes, (!inm.isEmpty && inmMatches inm ours) = inmMatches inm ours := by
    intro inm ours
    cases inm with
    | nil => rfl
    | cons b inm => rfl
  rw [httpEtagMiddleware_eq h, Unchanged]
  simp only [hEmpty]
  split
  · next hFound => exact iff_of_true rfl (.inl (by simpa [Option.any_eq_true] using hFound))
  · next hNot =>
    have hNone : ¬∃ inm, httpRequestGetHeader req (ascii "If-None-Match") = some inm ∧
      inmMatches inm (sentTag weak res) = true := by
      simpa [Option.any_eq_true] using hNot
    rw [or_iff_right hNone]
    split
    · next hSince => exact iff_of_true rfl hSince
    · next hSince => exact iff_of_false (stamped_status h) hSince

theorem middleware_sends (h : Cacheable res) (hEnds : EndsLine res.headers) (req : HttpRequest) :
    httpResponseGetHeader (httpEtagMiddleware httpDateParse weak req res).headers (ascii "ETag") = some
      (sentTag weak res) := by
  have hStamped : httpResponseGetHeader (stamped weak res).headers (ascii "ETag") = some
    (sentTag weak res) := by
    rw [stamped, sentTag]
    cases hOwned : httpResponseGetHeader res.headers (ascii "ETag") with
    | none =>
      rw [if_pos rfl, Option.getD_none, bodyTag_text]
      exact getHeader_stamped hEnds hOwned (hex64_etagc _)
    | some owned => rw [if_neg (by simp), hOwned, Option.getD_some]
  rw [httpEtagMiddleware_eq h]
  split
  · exact hStamped
  · split
    · exact hStamped
    · exact hStamped

end Middleware

/-! ## Static files -/

/-- The file that a request is for, when there is one. -/
def staticFile (site : Site) (req : HttpRequest) (root : Bytes) : Option (Int × Nat) :=
  (normalizedPath req.path).bind fun norm =>
    site.fileStat (svFromCstr (splicedPath (svFromCstr root) norm (req.path.getLast? = some 47)))

theorem serveRanges_status (site : Site) {res : HttpResponse} (h : res.status = 200) (path mime : Bytes)
    (mtime : Int) (fsize : Nat)
    (ranges : List ByteRange) : (serveRanges site res path mime mtime fsize ranges).1.status ≠ 304 := by
  have hReject : (404 : Nat) ≠ 304 := by decide
  have hRanges : (206 : Nat) ≠ 304 := by decide
  rw [serveRanges.eq_def]
  split
  · split
    · exact hReject
    · change res.status ≠ 304
      omega
  · split
    · exact hReject
    · exact hRanges
  · dsimp only
    split
    · exact hReject
    · exact hRanges

theorem httpServeStatic_status_iff {site : Site} {req : HttpRequest} {root : Bytes} {mtime : Int}
    {fsize : Nat}
    (hFile : staticFile site req root = some (mtime, fsize)) (res : HttpResponse) :
    (httpServeStatic site req res root).1.status = 304 ↔
      notModified site req (staticEtag mtime fsize) mtime = true := by
  rw [staticFile] at hFile
  obtain ⟨norm, hNorm, hStat⟩ := Option.bind_eq_some_iff.mp hFile
  rw [httpServeStatic, hNorm]
  dsimp only
  rw [hStat]
  dsimp only
  split
  · next hMatch => exact iff_of_true rfl hMatch
  · next hNot =>
    refine iff_of_false ?_ hNot
    split
    · exact (by decide : (416 : Nat) ≠ 304)
    · refine serveRanges_status site ?_ _ _ _ _ _
      split
      · rfl
      · rfl

theorem notModified_of_inm {site : Site} {req : HttpRequest} {inm : Bytes}
    (h : httpRequestGetHeader req (ascii "If-None-Match") = some inm)
    (etag : Bytes) (mtime : Int) : notModified site req etag mtime = etagListMatches inm etag := by
  have hName : httpRequestGetHeader req (ascii "if-none-match") = httpRequestGetHeader req
    (ascii "If-None-Match") := by
    have hCase : (ascii "if-none-match").map toupper = (ascii "If-None-Match").map toupper := by decide
    rw [httpRequestGetHeader, httpRequestGetHeader, hCase]
  rw [notModified, hName, h]

theorem not_comma_hexFuel (fuel : Nat) : ∀ n, 44 ∉ hexFuel fuel n := by
  have hDigit : ∀ d : Fin 16, hexDigitChar d ≠ 44 := by decide
  have hMod : ∀ n, 44 ≠ hexDigitChar (n % 16) := fun n => (hDigit ⟨n % 16, Nat.mod_lt n (by decide)⟩).symm
  induction fuel with
  | zero =>
    intro n hMem
    exact hMod n (List.mem_singleton.mp hMem)
  | succ fuel ih =>
    intro n hMem
    rw [hexFuel] at hMem
    split at hMem
    · next hLt =>
      have hSmall := hMod n
      rw [Nat.mod_eq_of_lt hLt] at hSmall
      exact hSmall (List.mem_singleton.mp hMem)
    · rcases List.mem_append.mp hMem with hMem | hMem
      · exact ih _ hMem
      · exact hMod n (List.mem_singleton.mp hMem)

theorem staticEtag_text {t : EntityTag} {mtime : Int} {fsize : Nat}
    (h : t.text = staticEtag mtime fsize) : t.weak = false ∧ 44 ∉ t.value := by
  have hNone : 44 ∉ staticEtag mtime fsize := by
    simp only [staticEtag, List.mem_append, not_or]
    refine ⟨⟨⟨⟨⟨by decide, fun hMem => ?_⟩, not_comma_hexFuel _ _⟩, by decide⟩,
      not_comma_hexFuel _ _⟩, by decide⟩
    exact absurd (List.eq_of_mem_replicate hMem) (by decide)
  constructor
  · cases hWeak : t.weak with
    | false => rfl
    | true =>
      have hHead := congrArg List.head? h
      rw [EntityTag.text, EntityTag.opening, hWeak] at hHead
      exact absurd (Option.some.inj hHead) (by decide)
  · intro hMem
    refine hNone (h ▸ ?_)
    rw [EntityTag.text]
    exact List.mem_append_right _ (List.mem_append_left _ hMem)

/-! ## Validators that come back -/

/-- A list with the tag that was sent is answered by 304, one in which no tag has
its value is not. -/
def Echoes (sent : EntityTag) (tags : List ListedTag) (status : Nat) : Prop :=
  (sent ∈ tags.map ListedTag.tag → status = 304) ∧ ((∀ t ∈ tags, t.tag.value ≠ sent.value) → status ≠ 304)

/-- When a list echoes the tag, one of its tags has to be found; when none has the
value, no tag may be mistaken for it, and If-Modified-Since must not pass. -/
structure EchoesMiddleware (sent : EntityTag) (tags : List ListedTag) (unchanged : Prop) : Prop where
  found : sent ∈ tags.map ListedTag.tag → Caught sent tags ∨ unchanged
  mistaken : (∀ t ∈ tags, t.tag.value ≠ sent.value) →
    (∀ t ∈ tags, t.tag.weak = false → 44 ∉ t.tag.value → t.tag.value ≠ ascii "W/" ++ sent.value) ∧
    ¬Starred (ascii "*") tags ∧ ¬unchanged

theorem stripWeak_cases {value sent : Bytes} (h : stripWeak value = sent) : value = sent ∨
    value = ascii "W/" ++ sent := by
  rw [stripWeak] at h
  split at h
  · next hPrefix =>
    obtain ⟨rest, rfl⟩ := List.isPrefixOf_iff_prefix.mp hPrefix
    exact .inr (by rw [← h]; rfl)
  · exact .inl h

theorem caught_iff_of_ne {sent : EntityTag} {tags : List ListedTag}
    (hOther : ∀ t ∈ tags, t.tag.value ≠ sent.value) : Caught sent tags ↔
    (∃ t ∈ tags, t.tag.weak = false ∧ 44 ∉ t.tag.value ∧ t.tag.value = ascii "W/" ++ sent.value) ∨
      Starred (ascii "*") tags := by
  refine or_congr_left (exists_congr fun t => and_congr_right fun ht => and_congr_right fun _ =>
    and_congr_right fun _ => ?_)
  constructor
  · exact fun h => (stripWeak_cases h).resolve_left (hOther t ht)
  · intro h
    rw [h]
    rfl

theorem echoes_middleware_iff (sent : EntityTag) (tags : List ListedTag) (unchanged : Prop) {status : Nat}
    (hStatus : status = 304 ↔ Caught sent tags ∨ unchanged) : Echoes sent tags status ↔
      EchoesMiddleware sent tags unchanged := by
  have hMistaken : (∀ t ∈ tags, t.tag.value ≠ sent.value) → (status ≠ 304 ↔
      (∀ t ∈ tags, t.tag.weak = false → 44 ∉ t.tag.value → t.tag.value ≠ ascii "W/" ++ sent.value) ∧
      ¬Starred (ascii "*") tags ∧ ¬unchanged) := by
    intro hOther
    rw [Ne, hStatus, caught_iff_of_ne hOther, not_or, not_or, and_assoc]
    refine and_congr_left fun _ => ?_
    constructor
    · exact fun h t ht hWeak hComma hValue => h ⟨t, ht, hWeak, hComma, hValue⟩
    · rintro h ⟨t, ht, hWeak, hComma, hValue⟩
      exact h t ht hWeak hComma hValue
  constructor
  · rintro ⟨hFound, hNot⟩
    exact ⟨fun hSent => hStatus.mp (hFound hSent), fun hOther => (hMistaken hOther).mp (hNot hOther)⟩
  · rintro ⟨hFound, hNot⟩
    exact ⟨fun hSent => hStatus.mpr (hFound hSent), fun hOther => (hMistaken hOther).mpr (hNot hOther)⟩

theorem echoes_static_iff {file : EntityTag} {tags : List ListedTag} (hComma : 44 ∉ file.value) {status : Nat}
    (hStatus : status = 304 ↔ (∃ t ∈ tags, 44 ∉ t.tag.value ∧ t.tag.value = file.value) ∨
      Starred (ascii "*") tags ∨ Starred (ascii "W/*") tags) :
    Echoes file tags status ↔
      ((∀ t ∈ tags, t.tag.value ≠ file.value) → ¬Starred (ascii "*") tags ∧ ¬Starred (ascii "W/*") tags) := by
  have hEcho : file ∈ tags.map ListedTag.tag → status = 304 := by
    intro hMem
    obtain ⟨t, ht, hTag⟩ := List.mem_map.mp hMem
    exact hStatus.mpr (.inl ⟨t, ht, by rw [hTag]; exact hComma, by rw [hTag]⟩)
  rw [Echoes, and_iff_right hEcho]
  refine forall_congr' fun hOther => ?_
  have hNone : ¬∃ t ∈ tags, 44 ∉ t.tag.value ∧ t.tag.value = file.value := by
    rintro ⟨t, ht, -, hValue⟩
    exact hOther t ht hValue
  rw [Ne, hStatus, or_iff_right hNone, not_or]

/-- For each list: the middleware and the handler for static files echo its tags
exactly under these conditions. -/
theorem validators_iff {tags : List ListedTag} (hTags : ∀ t ∈ tags, t.Valid) {req : HttpRequest}
    (hInm : httpRequestGetHeader req (ascii "If-None-Match") = some (listText tags)) :
    (∀ (httpDateParse : Bytes → Int) (weak : Bool) (earlier : HttpRequest) (res : HttpResponse)
    (sent : EntityTag), Cacheable res →
      EndsLine res.headers →
      httpResponseGetHeader (httpEtagMiddleware httpDateParse weak earlier res).headers (ascii "ETag") =
        some sent.text →
      (Echoes sent tags (httpEtagMiddleware httpDateParse weak req res).status ↔
        EchoesMiddleware sent tags (Unchanged httpDateParse weak req res))) ∧
    ∀ (site : Site) (root : Bytes) (res : HttpResponse) (mtime : Int) (fsize : Nat) (file : EntityTag),
      staticFile site req root = some (mtime, fsize) → file.text = staticEtag mtime fsize →
      (Echoes file tags (httpServeStatic site req res root).1.status ↔
        ((∀ t ∈ tags, t.tag.value ≠ file.value) → ¬Starred (ascii "*") tags ∧
          ¬Starred (ascii "W/*") tags)) := by
  constructor
  · intro httpDateParse weak earlier res sent hRes hEnds hSent
    rw [middleware_sends hRes hEnds, Option.some.injEq] at hSent
    refine echoes_middleware_iff sent tags _ ((middleware_status_iff hRes req).trans (or_congr_left ?_))
    rw [← inmMatches_listText sent hTags, hSent, hInm]
    simp
  · intro site root res mtime fsize file hFile hFileTag
    obtain ⟨hStrong, hComma⟩ := staticEtag_text hFileTag
    refine echoes_static_iff hComma ((httpServeStatic_status_iff hFile res).trans ?_)
    rw [notModified_of_inm hInm, ← hFileTag, etagListMatches_listText hStrong hTags]

def sampleTags : List ListedTag :=
  [⟨[], ⟨true, ascii "y"⟩, []⟩, ⟨[32], ⟨false, ascii "x"⟩, [9]⟩, ⟨[32], ⟨false, ascii "00000007-5"⟩, []⟩]

def sampleRequest (inm : Bytes) : HttpRequest :=
  { emptyRequest with path := ascii "/a", headers := [⟨ascii "If-None-Match", inm⟩] }

def sampleResponse (tag : EntityTag) : HttpResponse :=
  { httpResponseInit with headers := headerLine (ascii "ETag") tag.text, body := ascii "b" }

def sampleSite : Site := ⟨fun _ => some (7, 5), fun _ => none, fun _ _ _ => none, fun _ => [], fun _ => -1, 0⟩

theorem sampleTags_echo :
    (httpEtagMiddleware (fun _ => -1) false (sampleRequest (listText sampleTags))
      (sampleResponse ⟨false, ascii "x"⟩)).status = 304 ∧
    (httpServeStatic sampleSite (sampleRequest (listText sampleTags)) httpResponseInit
      (ascii "/srv")).1.status = 304 := by
  have hTags : ∀ t ∈ sampleTags, t.Valid := by
    intro t ht
    simp only [sampleTags, List.mem_cons, List.not_mem_nil, or_false] at ht
    rcases ht with rfl | rfl | rfl <;> exact ⟨by decide +kernel, by unfold EntityTag.Valid; decide +kernel⟩
  obtain ⟨hMiddleware, hStatic⟩ :=
    @validators_iff sampleTags hTags (sampleRequest (listText sampleTags)) (by decide +kernel)
  have hEcho := hMiddleware (fun _ => -1) false emptyRequest (sampleResponse ⟨false, ascii "x"⟩)
    ⟨false, ascii "x"⟩
    ⟨by decide, rfl, by decide⟩ (.inr (by decide)) (by decide +kernel)
  have hFile := hStatic sampleSite (ascii "/srv") httpResponseInit 7 5 ⟨false, ascii "00000007-5"⟩
    (by decide +kernel) (by decide +kernel)
  constructor
  · refine (hEcho.mpr ⟨fun _ => .inl (.inl ?_), fun hOther => ?_⟩).1 (by decide)
    · exact ⟨⟨[32], ⟨false, ascii "x"⟩, [9]⟩, by simp [sampleTags], rfl, by decide, by decide⟩
    · exact absurd rfl (hOther ⟨[32], ⟨false, ascii "x"⟩, [9]⟩ (by simp [sampleTags]))
  · refine (hFile.mpr fun hOther => ?_).1 (by decide)
    exact absurd rfl (hOther ⟨[32], ⟨false, ascii "00000007-5"⟩, []⟩ (by simp [sampleTags]))

/-- A weak tag that comes back as it was sent is not found. -/
theorem weak_tag_not_echoed : Cacheable (sampleResponse ⟨true, ascii "x"⟩) ∧
    EndsLine (sampleResponse ⟨true, ascii "x"⟩).headers ∧
    httpResponseGetHeader
      (httpEtagMiddleware (fun _ => -1) false emptyRequest (sampleResponse ⟨true, ascii "x"⟩)).headers
        (ascii "ETag") =
      some (ascii "W/\"x\"") ∧
    listText [⟨[], ⟨true, ascii "x"⟩, []⟩] = ascii "W/\"x\"" ∧
    (httpEtagMiddleware (fun _ => -1) false (sampleRequest (ascii "W/\"x\""))
      (sampleResponse ⟨true, ascii "x"⟩)).status = 200 ∧
    ¬Echoes ⟨true, ascii "x"⟩ [⟨[], ⟨true, ascii "x"⟩, []⟩] 200 := by
  refine ⟨⟨by decide, rfl, by decide⟩, .inr (by decide), by decide +kernel, by decide, by
    decide +kernel, fun h => ?_⟩
  exact absurd (h.1 (by decide)) (by decide)

end Cweb.Etag
