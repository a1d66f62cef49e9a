import Cweb.Lib.CString
import Cweb.Utils.Sv

/-!
# Templates

A template is turned into a C function. The text between its tags becomes
string literals that are passed to `cweb_tpl_out`, which looks for their final
zero. The text of the tags is copied.
-/

namespace Cweb.Template

open Sv CString

/-! ## The compiler -/

/-- `\\%03o` -/
def octalEscape (c : UInt8) : Bytes :=
  [92, digitChar (c.toNat / 64), digitChar (c.toNat / 8 % 8), digitChar (c.toNat % 8)]

def emitCChar (c : UInt8) : Bytes :=
  if c = 34 then ascii "\\\""
  else if c = 92 then ascii "\\\\"
  else if c = 10 then ascii "\\n"
  else if c = 13 then ascii "\\r"
  else if c = 9 then ascii "\\t"
  else if c < 32 ∨ c = 127 then octalEscape c
  else [c]

def emitCLiteral (s : Bytes) : Bytes := ascii "\"" ++ s.flatMap emitCChar ++ ascii "\""

/-- Where the needle is found first, counted from the start of the text. -/
def findIn (needle : Bytes) : Bytes → Option Nat
  | [] => if needle = [] then some 0 else none
  | c :: rest => if needle <+: c :: rest then some 0 else (findIn needle rest).map (· + 1)

def bumpLines (region : Bytes) (line : Nat) : Nat := line + region.count 10

def isNameStart (c : UInt8) : Bool := (97 ≤ c && c ≤ 122) || (65 ≤ c && c ≤ 90) || c == 95

def validFnName : Bytes → Bool
  | [] => false
  | c :: rest => isNameStart c && rest.all fun c => isNameStart c || isdigit c

/-- The body that has been written, the helpers that it needs, and the line of the template. -/
structure Body where
  text : Bytes
  usedOut : Bool
  usedEscape : Bool
  line : Nat

def Body.call (b : Body) (helper argument : Bytes) : Body :=
  { b with text := b.text ++ (ascii "    " ++ helper ++ ascii "(res, " ++ argument ++ ascii ");\n") }

def Body.out (b : Body) (argument : Bytes) : Body :=
  { b.call (ascii "cweb_tpl_out") argument with usedOut := true }

def Body.escape (b : Body) (argument : Bytes) : Body :=
  { b.call (ascii "cweb_tpl_escape") argument with usedEscape := true }

def Body.code (b : Body) (code : Bytes) : Body := { b with text := b.text ++ (code ++ ascii "\n") }

def Body.bump (b : Body) (region : Bytes) : Body := { b with line := bumpLines region b.line }

def unterminated (line : Nat) : Bytes :=
  ascii "template line " ++ decimal line ++ ascii ": unterminated <?c (missing ?>)"

/-- The tag that opens at `start`. -/
def compileTag (isEsc : Bool) (start : Nat) (source : Bytes) (b : Body) : Except Bytes (Bytes × Body) :=
  let b := (b.out (emitCLiteral (source.take start))).bump (source.take start)
  let inside := source.drop (start + if isEsc then 4 else 3)
  let isOut := !isEsc && inside.head? == some 61
  let inside := if isOut then inside.drop 1 else inside
  match findIn (ascii "?>") inside with
  | none => .error (unterminated b.line)
  | some close =>
    let code := inside.take close
    let rest := inside.drop (close + 2)
    let b := if isEsc then b.escape code else if isOut then b.out code else b.code code
    .ok (rest, b.bump ((source.take (source.length - rest.length)).drop start))

/-- One pass of the loop, with the text that is left. -/
def compileStep (source : Bytes) (b : Body) : Except Bytes (Bytes × Body) :=
  match findIn (ascii "<?c") source, findIn (ascii "<?h=") source with
  | none, none => .ok ([], b.out (emitCLiteral source))
  | some openC, none => compileTag false openC source b
  | none, some openEsc => compileTag true openEsc source b
  | some openC, some openEsc =>
    if openEsc < openC then compileTag true openEsc source b else compileTag false openC source b

/-- Every pass takes something from the text, so its length is enough for `fuel`. -/
def compileBody : Nat → Bytes → Body → Except Bytes Body
  | 0, _, b => .ok b
  | fuel + 1, source, b =>
    if source = [] then .ok b
    else
      match compileStep source b with
      | .error e => .error e
      | .ok (rest, b) => compileBody fuel rest b

def includes : Bytes :=
  ascii "#include <inttypes.h>\n#include <stdint.h>\n#include <stdio.h>\n#include <stdlib.h>\n" ++
  ascii "#include <string.h>\n#include <time.h>\n\n" ++
  ascii "#include \"cweb.h\"\n#include \"escape.h\"\n#include \"validate.h\"\n#include \"csrf.h\"\n" ++
  ascii "#include \"flash.h\"\n#include \"password.h\"\n#include \"http.h\"\n#include \"request.h\"\n" ++
  ascii "#include \"response.h\"\n#include \"params.h\"\n#include \"session.h\"\n#include \"strmap.h\"\n" ++
  ascii "#include \"strbuf.h\"\n#include \"sv.h\"\n#include \"template.h\"\n#include \"db.h\"\n\n" ++
  ascii "// cweb build emits out/pages.h declaring every page, so a page\n" ++
  ascii "// can render another as a partial: <?c page_x(req,res,params,user_data); ?>\n" ++
  ascii "#if __has_include(\"pages.h\")\n#include \"pages.h\"\n#endif\n\n"

def outHelper : Bytes :=
  ascii "static void cweb_tpl_out(Http_Response *res, const char *s)\n\x7b\n" ++
  ascii "    cweb_tpl_add(res, s, strlen(s));\n\x7d\n\n"

def escapeHelper : Bytes :=
  ascii "static void cweb_tpl_escape(Http_Response *res, String_View s)\n\x7b\n" ++
  ascii "    Strbuf tmp;\n    strbuf_init(&tmp);\n    html_escape_into(&tmp, s);\n" ++
  ascii "    cweb_tpl_add(res, tmp.items, tmp.count);\n    strbuf_free(&tmp);\n\x7d\n\n"

def opening (fnName : Bytes) : Bytes :=
  ascii "void " ++ fnName ++ ascii "(Http_Request *req, Http_Response *res,\n" ++
  ascii "      Str_Map *params, void *user_data)\n\x7b\n    (void)req;\n    (void)params;\n    (void)user_data;\n" ++
  ascii "    http_response_set_header(res, \"Content-Type\", \"text/html; charset=utf-8\");\n"

/-- What stands before the body. -/
def preamble (fnName : Bytes) (usedOut usedEscape : Bool) : Bytes :=
  includes ++ (if usedOut then outHelper else []) ++ (if usedEscape then escapeHelper else []) ++
    opening fnName

def cwebTemplateToC (source fnName : Bytes) : Except Bytes Bytes :=
  if validFnName fnName then
    match compileBody source.length source ⟨[], false, false, 1⟩ with
    | .error e => .error e
    | .ok b => .ok (preamble fnName b.usedOut b.usedEscape ++ b.text ++ ascii "\x7d\n")
  else .error (ascii "invalid generated function name")

/-! ## What a template says -/

inductive Tag
  | code
  | out
  | escape
deriving DecidableEq

inductive Segment
  | literal (text : Bytes)
  | tag (kind : Tag) (text : Bytes)
deriving DecidableEq

def Tag.opener : Tag → Bytes
  | .code => ascii "<?c"
  | .out => ascii "<?c="
  | .escape => ascii "<?h="

def Opens (s : Bytes) : Prop := ascii "<?c" <+: s ∨ ascii "<?h=" <+: s

/-- A literal reaches up to the first opener, and a tag up to the first `?>`. -/
inductive Splits : Bytes → List Segment → Prop
  | done : Splits [] []
  | text {text : Bytes} : text ≠ [] → (∀ i, ¬ Opens (text.drop i)) → Splits text [.literal text]
  | tag {text code source rest : Bytes} {kind : Tag} {segments : List Segment} :
    source = text ++ (kind.opener ++ (code ++ (ascii "?>" ++ rest))) →
    (∀ i < text.length, ¬ Opens (source.drop i)) →
    (kind = .code → code.head? ≠ some 61) →
    (∀ i < code.length, ¬ ascii "?>" <+: (code ++ (ascii "?>" ++ rest)).drop i) →
    Splits rest segments → Splits source (.literal text :: .tag kind code :: segments)

def Segment.statement : Segment → Bytes
  | .literal text => ascii "    cweb_tpl_out(res, " ++ emitCLiteral text ++ ascii ");\n"
  | .tag .code text => text ++ ascii "\n"
  | .tag .out text => ascii "    cweb_tpl_out(res, " ++ text ++ ascii ");\n"
  | .tag .escape text => ascii "    cweb_tpl_escape(res, " ++ text ++ ascii ");\n"

def Segment.usesOut : Segment → Bool
  | .literal _ => true
  | .tag kind _ => kind == .out

def Segment.usesEscape : Segment → Bool
  | .literal _ => false
  | .tag kind _ => kind == .escape

/-- What the statement of a segment adds to the page, given what tags add. -/
def Segment.shown (tags : Tag → Bytes → Bytes) : Segment → Option Bytes
  | .literal text => passed (emitCLiteral text)
  | .tag kind text => some (tags kind text)

def Segment.meaning (tags : Tag → Bytes → Bytes) : Segment → Bytes
  | .literal text => text
  | .tag kind text => tags kind text

/-- Statements that are run one after the other. -/
def shown (tags : Tag → Bytes → Bytes) : List Segment → Option Bytes
  | [] => some []
  | s :: path =>
    match s.shown tags, shown tags path with
    | some page, some rest => some (page ++ rest)
    | _, _ => none

/-- The literals denote the text of the template. On whichever way the tags
lead through the statements, this text is shown between what they add. -/
structure Preserved (segments : List Segment) : Prop where
  denoted : ∀ text, .literal text ∈ segments → denoted (emitCLiteral text) = some text
  passed : ∀ text, .literal text ∈ segments → passed (emitCLiteral text) = some text
  shown : ∀ tags path, (∀ s ∈ path, s ∈ segments) →
    shown tags path = some (path.flatMap (Segment.meaning tags))

/-! ## Literals -/

theorem emitCChar_encoder : Encoder emitCChar where
  read := forall_byte (by decide +kernel)
  bare := forall_byte (by decide +kernel)
  unmarked := forall_byte (by decide +kernel)
  first := forall_byte (by decide +kernel)
  line := forall_byte (by decide +kernel)
  shape := forall_byte (by decide +kernel)
  escaped := forall_byte (by decide +kernel)

theorem shown_path {segments : List Segment}
    (h : ∀ text, .literal text ∈ segments → CString.passed (emitCLiteral text) = some text)
    (tags : Tag → Bytes → Bytes) (path : List Segment) (hPath : ∀ s ∈ path, s ∈ segments) :
    shown tags path = some (path.flatMap (Segment.meaning tags)) := by
  induction path with
  | nil => rfl
  | cons s path ih =>
    have hSegment : s.shown tags = some (s.meaning tags) := by
      cases s with
      | literal text => exact h text (hPath _ List.mem_cons_self)
      | tag kind text => rfl
    rw [shown, hSegment, ih fun s hs => hPath s (List.mem_cons_of_mem _ hs), List.flatMap_cons]

theorem preserved_iff (segments : List Segment) :
    Preserved segments ↔ ∀ text, .literal text ∈ segments → 0 ∉ text ∧ ¬ HasTrigraph text := by
  constructor
  · intro h text hMem
    exact (emitCChar_encoder.passed_literal_iff text).mp (h.passed text hMem)
  · intro h
    have hPassed : ∀ text, .literal text ∈ segments → CString.passed (emitCLiteral text) = some text :=
      fun text hMem => (emitCChar_encoder.passed_literal_iff text).mpr (h text hMem)
    exact ⟨fun text hMem => emitCChar_encoder.denoted_literal (h text hMem).2, hPassed, shown_path hPassed⟩

/-! ## The first opener -/

theorem findIn_none {needle : Bytes} (hNeedle : needle ≠ []) : ∀ {s : Bytes}, findIn needle s = none →
    ∀ i, ¬ needle <+: s.drop i := by
  intro s
  induction s with
  | nil =>
    intro _ i hPrefix
    rw [List.drop_nil] at hPrefix
    exact hNeedle (List.prefix_nil.mp hPrefix)
  | cons c rest ih =>
    intro h i
    rw [findIn] at h
    by_cases hHere : needle <+: c :: rest
    · rw [if_pos hHere] at h
      cases h
    · rw [if_neg hHere, Option.map_eq_none_iff] at h
      cases i with
      | zero => exact hHere
      | succ i => exact ih h i

theorem findIn_some {needle : Bytes} : ∀ {s : Bytes} {i : Nat}, findIn needle s = some i →
    s = s.take i ++ (needle ++ s.drop (i + needle.length)) ∧ i ≤ s.length ∧
      ∀ j < i, ¬ needle <+: s.drop j := by
  intro s
  induction s with
  | nil =>
    intro i h
    rw [findIn] at h
    by_cases hNil : needle = []
    · rw [if_pos hNil] at h
      cases h
      rw [hNil]
      exact ⟨rfl, le_refl 0, fun j hj => absurd hj (Nat.not_lt_zero j)⟩
    · rw [if_neg hNil] at h
      cases h
  | cons c rest ih =>
    intro i h
    rw [findIn] at h
    by_cases hHere : needle <+: c :: rest
    · rw [if_pos hHere] at h
      cases h
      obtain ⟨after, hAfter⟩ := hHere
      refine ⟨?_, Nat.zero_le _, fun j hj => absurd hj (Nat.not_lt_zero j)⟩
      rw [← hAfter, Nat.zero_add, List.drop_left]
      rfl
    · rw [if_neg hHere] at h
      obtain ⟨k, hk, rfl⟩ := Option.map_eq_some_iff.mp h
      obtain ⟨hSplit, hLe, hBefore⟩ := ih hk
      refine ⟨?_, Nat.succ_le_succ hLe, ?_⟩
      · rw [Nat.add_right_comm, List.take_succ_cons, List.drop_succ_cons, List.cons_append, ← hSplit]
      · intro j hj
        cases j with
        | zero => exact hHere
        | succ j => exact hBefore j (Nat.lt_of_succ_lt_succ hj)

/-! ## The body -/

/-- The statements of these segments have been added to the body. -/
structure Wrote (b b' : Body) (segments : List Segment) : Prop where
  text : b'.text = b.text ++ segments.flatMap Segment.statement
  usedOut : b'.usedOut = (b.usedOut || segments.any Segment.usesOut)
  usedEscape : b'.usedEscape = (b.usedEscape || segments.any Segment.usesEscape)

theorem Wrote.refl (b : Body) : Wrote b b [] :=
  ⟨(List.append_nil _).symm, (Bool.or_false _).symm, (Bool.or_false _).symm⟩

theorem Wrote.trans {a b c : Body} {xs ys : List Segment} (h : Wrote a b xs) (h' : Wrote b c ys) :
    Wrote a c (xs ++ ys) := by
  constructor
  · rw [h'.text, h.text, List.flatMap_append, List.append_assoc]
  · rw [h'.usedOut, h.usedOut, List.any_append, Bool.or_assoc]
  · rw [h'.usedEscape, h.usedEscape, List.any_append, Bool.or_assoc]

theorem Wrote.bump {b b' : Body} {segments : List Segment} (h : Wrote b b' segments) (region : Bytes) :
    Wrote b (b'.bump region) segments := ⟨h.text, h.usedOut, h.usedEscape⟩

theorem wrote_literal (b : Body) (text : Bytes) : Wrote b (b.out (emitCLiteral text)) [.literal text] := by
  constructor
  · simp [Body.out, Body.call, Segment.statement, ascii]
  · simp [Body.out, Segment.usesOut]
  · simp [Body.out, Body.call, Segment.usesEscape]

def Body.tag (b : Body) (kind : Tag) (code : Bytes) : Body :=
  match kind with
  | .code => b.code code
  | .out => b.out code
  | .escape => b.escape code

theorem wrote_tag (b : Body) (kind : Tag) (code : Bytes) : Wrote b (b.tag kind code) [.tag kind code] := by
  cases kind with
  | code =>
    constructor
    · simp [Body.tag, Body.code, Segment.statement]
    · simp [Body.tag, Body.code, Segment.usesOut]
    · simp [Body.tag, Body.code, Segment.usesEscape]
  | out =>
    constructor
    · simp [Body.tag, Body.out, Body.call, Segment.statement, ascii]
    · simp [Body.tag, Body.out, Segment.usesOut]
    · simp [Body.tag, Body.out, Body.call, Segment.usesEscape]
  | escape =>
    constructor
    · simp [Body.tag, Body.escape, Body.call, Segment.statement, ascii]
    · simp [Body.tag, Body.escape, Body.call, Segment.usesOut]
    · simp [Body.tag, Body.escape, Segment.usesEscape]

theorem closed_of_findIn {inside : Bytes} {close : Nat} (h : findIn (ascii "?>") inside = some close) :
    inside = inside.take close ++ (ascii "?>" ++ inside.drop (close + 2)) ∧
      ∀ i < (inside.take close).length,
        ¬ ascii "?>" <+: (inside.take close ++ (ascii "?>" ++ inside.drop (close + 2))).drop i := by
  obtain ⟨hSplit, hLe, hBefore⟩ := findIn_some h
  have hSplit' : inside = inside.take close ++ (ascii "?>" ++ inside.drop (close + 2)) := hSplit
  refine ⟨hSplit', ?_⟩
  rw [← hSplit', List.length_take, Nat.min_eq_left hLe]
  exact hBefore

/-- What one pass of the loop has taken and written. -/
structure Passed (source rest : Bytes) (b b' : Body) : Prop where
  shorter : rest.length < source.length
  splits : ∃ more, Wrote b b' more ∧ ∀ segments, Splits rest segments → Splits source (more ++ segments)

def openerOf (isEsc : Bool) : Bytes := if isEsc then ascii "<?h=" else ascii "<?c"

theorem passed_of_tag {source rest : Bytes} {start : Nat} {b b' : Body} {kind : Tag} {code : Bytes}
    (hSource : source = source.take start ++ (kind.opener ++ (code ++ (ascii "?>" ++ rest))))
    (hStart : start ≤ source.length) (hBefore : ∀ j < start, ¬ Opens (source.drop j))
    (hCode : kind = .code → code.head? ≠ some 61)
    (hClose : ∀ i < code.length, ¬ ascii "?>" <+: (code ++ (ascii "?>" ++ rest)).drop i)
    (hWrote : Wrote b b' [.literal (source.take start), .tag kind code]) : Passed source rest b b' := by
  constructor
  · have hLength := congrArg List.length hSource
    simp only [List.length_append] at hLength
    have hTwo : (ascii "?>").length = 2 := rfl
    omega
  · refine ⟨_, hWrote, fun segments hSplits => Splits.tag hSource ?_ hCode hClose hSplits⟩
    rw [List.length_take, Nat.min_eq_left hStart]
    exact hBefore

theorem tag_of_compileTag {isEsc : Bool} {start : Nat} {source rest : Bytes} {b b' : Body}
    (hOpen : findIn (openerOf isEsc) source = some start) (hBefore : ∀ j < start, ¬ Opens (source.drop j))
    (h : compileTag isEsc start source b = .ok (rest, b')) : Passed source rest b b' := by
  obtain ⟨hSource, hStart, _⟩ := findIn_some hOpen
  have hLiteral := (wrote_literal b (source.take start)).bump (source.take start)
  cases isEsc with
  | true =>
    rw [compileTag] at h
    dsimp only [Bool.not_true, Bool.false_and, Bool.false_eq_true] at h
    simp only [if_true, if_false, Bool.false_eq_true] at h
    split at h
    · cases h
    · rename_i close hClose
      obtain ⟨hInside, hEnd⟩ := closed_of_findIn hClose
      cases h
      refine passed_of_tag ?_ hStart hBefore (by nofun) hEnd ((hLiteral.trans (wrote_tag _ .escape _)).bump _)
      rw [← hInside]
      exact hSource
  | false =>
    rw [compileTag] at h
    simp only [Bool.not_false, Bool.true_and, Bool.false_eq_true, if_false] at h
    by_cases hOut : ((source.drop (start + 3)).head? == some 61) = true
    · -- `<?c` and an equals sign
      obtain ⟨code, hCode⟩ := List.head?_eq_some_iff.mp (beq_iff_eq.mp hOut)
      simp only [hOut, if_true] at h
      split at h
      · cases h
      · rename_i close hClose
        obtain ⟨hInside, hEnd⟩ := closed_of_findIn hClose
        cases h
        refine passed_of_tag ?_ hStart hBefore (by nofun) hEnd ((hLiteral.trans (wrote_tag _ .out _)).bump _)
        rw [← hInside, hCode]
        refine hSource.trans (congrArg (source.take start ++ ·) ?_)
        exact congrArg (ascii "<?c" ++ ·) hCode
    · simp only [hOut, if_false, Bool.false_eq_true] at h
      split at h
      · cases h
      · rename_i close hClose
        obtain ⟨hInside, hEnd⟩ := closed_of_findIn hClose
        cases h
        refine passed_of_tag ?_ hStart hBefore ?_ hEnd ((hLiteral.trans (wrote_tag _ .code _)).bump _)
        · rw [← hInside]
          exact hSource
        · intro _ hHead
          obtain ⟨code, hCode⟩ := List.head?_eq_some_iff.mp hHead
          rw [hCode] at hInside
          exact hOut (beq_iff_eq.mpr (congrArg List.head? hInside))

theorem passed_of_compileStep {source rest : Bytes} {b b' : Body} (hSource : source ≠ [])
    (h : compileStep source b = .ok (rest, b')) : Passed source rest b b' := by
  rw [compileStep] at h
  cases hC : findIn (ascii "<?c") source with
  | none =>
    cases hEsc : findIn (ascii "<?h=") source with
    | none =>
      rw [hC, hEsc] at h
      cases h
      have hNone : ∀ i, ¬ Opens (source.drop i) := by
        rintro i (hOpens | hOpens)
        · exact findIn_none (by decide) hC i hOpens
        · exact findIn_none (by decide) hEsc i hOpens
      refine ⟨List.length_pos_iff.mpr hSource, _, wrote_literal b source, ?_⟩
      intro segments hSplits
      cases hSplits with
      | done => exact .text hSource hNone
      | text hText => exact absurd rfl hText
      | @tag _ code _ rest kind _ hEq =>
        cases kind <;> simp [Tag.opener, ascii] at hEq
    | some openEsc =>
      rw [hC, hEsc] at h
      obtain ⟨_, _, hBefore⟩ := findIn_some hEsc
      refine @tag_of_compileTag true _ _ _ _ _ hEsc ?_ h
      rintro j hj (hOpens | hOpens)
      · exact findIn_none (by decide) hC j hOpens
      · exact hBefore j hj hOpens
  | some openC =>
    obtain ⟨_, _, hBeforeC⟩ := findIn_some hC
    cases hEsc : findIn (ascii "<?h=") source with
    | none =>
      rw [hC, hEsc] at h
      refine @tag_of_compileTag false _ _ _ _ _ hC ?_ h
      rintro j hj (hOpens | hOpens)
      · exact hBeforeC j hj hOpens
      · exact findIn_none (by decide) hEsc j hOpens
    | some openEsc =>
      obtain ⟨_, _, hBeforeEsc⟩ := findIn_some hEsc
      rw [hC, hEsc] at h
      dsimp only at h
      by_cases hFirst : openEsc < openC
      · rw [if_pos hFirst] at h
        refine @tag_of_compileTag true _ _ _ _ _ hEsc ?_ h
        rintro j hj (hOpens | hOpens)
        · exact hBeforeC j (hj.trans hFirst) hOpens
        · exact hBeforeEsc j hj hOpens
      · rw [if_neg hFirst] at h
        refine @tag_of_compileTag false _ _ _ _ _ hC ?_ h
        rintro j hj (hOpens | hOpens)
        · exact hBeforeC j hj hOpens
        · exact hBeforeEsc j (hj.trans_le (not_lt.mp hFirst)) hOpens

theorem compileBody_splits : ∀ {fuel : Nat} {source : Bytes} {b b' : Body}, source.length ≤ fuel →
    compileBody fuel source b = .ok b' → ∃ segments, Splits source segments ∧ Wrote b b' segments := by
  intro fuel
  induction fuel with
  | zero =>
    intro source b b' hFuel h
    obtain rfl := List.length_eq_zero_iff.mp (Nat.le_zero.mp hFuel)
    cases h
    exact ⟨[], .done, .refl b⟩
  | succ fuel ih =>
    intro source b b' hFuel h
    rw [compileBody] at h
    by_cases hNil : source = []
    · rw [if_pos hNil] at h
      cases h
      rw [hNil]
      exact ⟨[], .done, .refl b⟩
    · rw [if_neg hNil] at h
      split at h
      · cases h
      · rename_i rest mid hStep
        obtain ⟨hShorter, more, hWrote, hSplits⟩ := passed_of_compileStep hNil hStep
        obtain ⟨segments, hRest, hBody⟩ := ih (by omega) h
        exact ⟨more ++ segments, hSplits segments hRest, hWrote.trans hBody⟩

/-! ## The whole function -/

/-- The body of the function has one statement for each segment, in order, and
it shows the text of the template just if no literal has a zero or a trigraph. -/
theorem template_preserved_iff {source fnName text : Bytes} (h : cwebTemplateToC source fnName = .ok text) :
    ∃ segments, Splits source segments ∧
      text = preamble fnName (segments.any Segment.usesOut) (segments.any Segment.usesEscape) ++
        segments.flatMap Segment.statement ++ ascii "\x7d\n" ∧
      (Preserved segments ↔ ∀ literal, .literal literal ∈ segments → 0 ∉ literal ∧
        ¬ HasTrigraph literal) := by
  rw [cwebTemplateToC] at h
  split at h
  · split at h
    · cases h
    · rename_i b hBody
      cases h
      obtain ⟨segments, hSplits, hWrote⟩ := compileBody_splits (le_refl _) hBody
      refine ⟨segments, hSplits, ?_, preserved_iff segments⟩
      rw [hWrote.text, hWrote.usedOut, hWrote.usedEscape]
      rfl
  · cases h

def really : Bytes := ascii "<p>Really??!</p>\n"

def compiled (source : Bytes) : Bytes := ((cwebTemplateToC source (ascii "page")).toOption).getD []

theorem compileBody_really : compileBody really.length really ⟨[], false, false, 1⟩ =
    .ok ⟨Segment.statement (.literal really), true, false, 1⟩ := by rfl

theorem cwebTemplateToC_really : cwebTemplateToC really (ascii "page") =
    .ok (preamble (ascii "page") true false ++ Segment.statement (.literal really) ++ ascii "\x7d\n") := by
  rw [cwebTemplateToC, if_pos (by decide +kernel), compileBody_really]

theorem compiled_really :
    compiled really = preamble (ascii "page") true false ++ Segment.statement (.literal really) ++
      ascii "\x7d\n" := by
  rw [compiled, cwebTemplateToC_really]
  rfl

theorem really_preserved : ∃ segments, Splits really segments ∧
    compiled really = preamble (ascii "page") (segments.any Segment.usesOut)
      (segments.any Segment.usesEscape) ++
      segments.flatMap Segment.statement ++ ascii "\x7d\n" ∧
    (Preserved segments ↔ ∀ literal, .literal literal ∈ segments → 0 ∉ literal ∧ ¬ HasTrigraph literal) := by
  have hCompiled : cwebTemplateToC really (ascii "page") = .ok (compiled really) := by
    rw [compiled_really, cwebTemplateToC_really]
  exact template_preserved_iff hCompiled

/-- `??!` comes out as a bar. -/
theorem really_not_preserved : Splits really [.literal really] ∧
    cwebTemplateToC really (ascii "page") = .ok (compiled really) ∧
    compiled really = preamble (ascii "page") true false ++ Segment.statement (.literal really) ++
      ascii "\x7d\n" ∧
    denoted (emitCLiteral really) = some (ascii "<p>Really|</p>\n") ∧ ¬ Preserved [.literal really] := by
  have hSplits : Splits really [.literal really] := by
    have hC : findIn (ascii "<?c") really = none := by decide +kernel
    have hEsc : findIn (ascii "<?h=") really = none := by decide +kernel
    refine .text (by decide) ?_
    rintro i (hOpens | hOpens)
    · exact findIn_none (by decide) hC i hOpens
    · exact findIn_none (by decide) hEsc i hOpens
  have hDenoted : denoted (emitCLiteral really) = some (ascii "<p>Really|</p>\n") := by decide +kernel
  refine ⟨hSplits, by rw [compiled_really, cwebTemplateToC_really], compiled_really, hDenoted, ?_⟩
  intro h
  have hSame := h.denoted really List.mem_cons_self
  rw [hDenoted] at hSame
  exact absurd hSame (by decide +kernel)

end Cweb.Template
