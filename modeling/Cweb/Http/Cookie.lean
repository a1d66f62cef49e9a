import Cweb.Http.HeaderAlgebra
import Cweb.Utils.StrMap

/-!
# Cookies

A response sets a cookie by one more `Set-Cookie` line, name and value as they are. A
browser keeps the pair in front of the attributes and sends all that it keeps in one
line. The parser trims names and values, takes the quotes off a value and lets a later
pair replace an earlier one with its name.
-/

namespace Cweb.Cookie

open Sv Lookup

inductive CookieSameSite where
  | default
  | none
  | lax
  | strict
deriving DecidableEq, Repr

structure CookieAttrs where
  path : Option Bytes
  maxAge : Int
  httpOnly : Bool
  secure : Bool
  sameSite : CookieSameSite
deriving DecidableEq, Repr

def sameSiteText : CookieSameSite → Bytes
  | .default => []
  | .none => ascii "; SameSite=None"
  | .lax => ascii "; SameSite=Lax"
  | .strict => ascii "; SameSite=Strict"

def attrsText (attrs : CookieAttrs) : Bytes :=
  (attrs.path.elim [] fun path => ascii "; Path=" ++ svFromCstr path) ++
    (if 0 ≤ attrs.maxAge then ascii "; Max-Age=" ++ decimalInt attrs.maxAge else []) ++
    (if attrs.httpOnly then ascii "; HttpOnly" else []) ++
    (if attrs.secure ∨ attrs.sameSite = .none then ascii "; Secure" else []) ++ sameSiteText attrs.sameSite

def setCookieText (name value : Bytes) (attrs : Option CookieAttrs) : Bytes :=
  svFromCstr name ++ 61 :: svFromCstr value ++ attrs.elim [] attrsText

def httpResponseSetCookie (res : HttpResponse) (name value : Bytes) (attrs : Option CookieAttrs) :
    HttpResponse :=
  res.apply (.appendHeader (ascii "Set-Cookie") (setCookieText name value attrs))

def isQuoted (value : Bytes) : Bool := 2 ≤ value.length && value.head? == some 34 && value.getLast? == some 34

/-- What one pair of the header stands for. -/
def cookiePair (pair : Bytes) : Option (Bytes × Bytes) :=
  let pair := svTrim pair
  if pair = [] then none
  else
    let cut := svChopByDelim 61 pair
    if cut.1 = [] then none
    else
      let value := svTrim cut.2
      some (svTrim cut.1, if isQuoted value then (value.drop 1).dropLast else value)

def httpCookieParse (jar : StrMap) (header : Bytes) : StrMap :=
  (svSplit 59 header).foldl (fun jar pair =>
    match cookiePair pair with
    | none => jar
    | some (name, value) => strmapSet jar name value) jar

/-! ## What the jar holds -/

def cookiePairs (header : Bytes) : List (Bytes × Bytes) := (svSplit 59 header).filterMap cookiePair

theorem httpCookieParse_eq (jar : StrMap) (header : Bytes) :
    httpCookieParse jar header = (cookiePairs header).foldl (fun jar e => strmapSet jar e.1 e.2) jar := by
  rw [httpCookieParse, cookiePairs]
  generalize svSplit 59 header = pairs
  induction pairs generalizing jar with
  | nil => rfl
  | cons pair pairs ih =>
    rw [List.foldl_cons, ih]
    cases hPair : cookiePair pair with
    | none => rw [List.filterMap_cons_none hPair]
    | some e => rw [List.filterMap_cons_some hPair, List.foldl_cons]

theorem cookiePair_subset {pair : Bytes} {e : Bytes × Bytes} (h : cookiePair pair = some e) {b : UInt8}
    (hb : b ∈ e.1 ∨ b ∈ e.2) :
    b ∈ pair := by
  have hChop := svChopByDelim_subset 61 (svTrim pair)
  rw [cookiePair] at h
  dsimp only at h
  split at h
  · cases h
  · split at h
    · cases h
    · obtain rfl := Option.some.inj h
      apply svTrim_subset
      rcases hb with hName | hValue
      · exact hChop.1 b (svTrim_subset hName)
      · dsimp only at hValue
        split at hValue
        · exact hChop.2 b (svTrim_subset (List.mem_of_mem_drop (List.dropLast_subset _ hValue)))
        · exact hChop.2 b (svTrim_subset hValue)

theorem cookiePairs_subset {header : Bytes} {e : Bytes × Bytes} (h : e ∈ cookiePairs header) {b : UInt8}
    (hb : b ∈ e.1 ∨ b ∈ e.2) :
    b ∈ header := by
  obtain ⟨pair, hPair, hEq⟩ := List.mem_filterMap.mp h
  exact svSplit_subset hPair (cookiePair_subset hEq hb)

theorem strmapGet_foldl_set (ps : List (Bytes × Bytes)) : ∀ {jar : StrMap}, jar.WF →
    (∀ e ∈ ps, 0 ∉ e.1 ∧ 0 ∉ e.2) → ∀ k,
    (ps.foldl (fun jar e => strmapSet jar e.1 e.2) jar).WF ∧
      strmapGet (ps.foldl (fun jar e => strmapSet jar e.1 e.2) jar) k = (lastOf ps k).or
        (strmapGet jar k) := by
  induction ps with
  | nil => exact fun hJar _ _ => ⟨hJar, rfl⟩
  | cons e ps ih =>
    intro jar hJar hNul k
    obtain ⟨⟨hKey, hValue⟩, hRest⟩ := List.forall_mem_cons.mp hNul
    obtain ⟨hWf, hGet⟩ := ih (strmapSet_spec hJar hKey e.2).1 hRest k
    refine ⟨hWf, ?_⟩
    rw [List.foldl_cons, hGet, strmapGet_strmapSet hJar hKey, dupOwn_of_not_mem hValue, lastOf,
      Option.or_assoc]
    congr 1
    by_cases hEq : e.1 = k
    · rw [hEq, Function.update_self, if_pos rfl]
      rfl
    · rw [Function.update_of_ne (Ne.symm hEq), if_neg hEq]
      rfl

theorem strmapGet_httpCookieParse {header : Bytes} (hNul : 0 ∉ header) (name : Bytes) :
    strmapGet (httpCookieParse strmapInit header) name = lastOf (cookiePairs header) name := by
  have hPairs : ∀ e ∈ cookiePairs header, 0 ∉ e.1 ∧ 0 ∉ e.2 :=
    fun e he =>
      ⟨fun h => hNul (cookiePairs_subset he (.inl h)), fun h => hNul (cookiePairs_subset he (.inr h))⟩
  rw [httpCookieParse_eq, (strmapGet_foldl_set _ strmapInit_wf hPairs name).2]
  exact Option.or_none

/-! ## There and back -/

def isWs (b : UInt8) : Bool := b == 32 || b == 9

def trimWs (s : Bytes) : Bytes := (s.dropWhile isWs).rdropWhile isWs

/-- The pair that a browser keeps: what stands in front of the first semicolon, cut
at its first equals sign. -/
def keptPair (text : Bytes) : Bytes × Bytes :=
  let pair := text.takeWhile (· ≠ 59)
  (trimWs (pair.takeWhile (· ≠ 61)), trimWs ((pair.dropWhile (· ≠ 61)).drop 1))

/-- A browser's cookies after one more of them was set. -/
def keep (jar : List (Bytes × Bytes)) (text : Bytes) : List (Bytes × Bytes) :=
  jar.filter (fun e => e.1 ≠ (keptPair text).1) ++ [keptPair text]

def pairText (e : Bytes × Bytes) : Bytes := e.1 ++ 61 :: e.2

def cookieHeader (jar : List (Bytes × Bytes)) : Bytes := (ascii "; ").intercalate (jar.map pairText)

/-- A pair that both the browser and the parser leave as it is. -/
structure Sendable (e : Bytes × Bytes) : Prop where
  named : e.1 ≠ []
  nameTrim : svTrim e.1 = e.1
  equals : 61 ∉ e.1
  nameSemi : 59 ∉ e.1
  valueTrim : svTrim e.2 = e.2
  valueSemi : 59 ∉ e.2
  bare : isQuoted e.2 = false

instance (e : Bytes × Bytes) : Decidable (Sendable e) :=
  decidable_of_iff (e.1 ≠ [] ∧ svTrim e.1 = e.1 ∧ 61 ∉ e.1 ∧ 59 ∉ e.1 ∧ svTrim e.2 = e.2 ∧ 59 ∉ e.2 ∧
    isQuoted e.2 = false)
    ⟨fun ⟨h₁, h₂, h₃, h₄, h₅, h₆, h₇⟩ => ⟨h₁, h₂, h₃, h₄, h₅, h₆, h₇⟩,
      fun h => ⟨h.named, h.nameTrim, h.equals, h.nameSemi, h.valueTrim, h.valueSemi, h.bare⟩⟩

theorem svTrim_pairText {e : Bytes × Bytes} (hName : svTrim e.1 = e.1) (hNamed : e.1 ≠ [])
    (hLast : ∀ b ∈ e.2.getLast?, isspace b = false) : svTrim (pairText e) = pairText e := by
  rw [svTrim_eq_self_iff] at hName ⊢
  constructor
  · obtain ⟨b, rest, hCons⟩ := List.exists_cons_of_ne_nil hNamed
    rw [pairText, hCons]
    exact fun c hc => hName.1 c (by rwa [hCons])
  · rw [pairText, List.getLast?_append_of_ne_nil _ (List.cons_ne_nil _ _), List.getLast?_cons]
    intro c hc
    obtain rfl := Option.some.inj hc
    cases hEnd : e.2.getLast? with
    | none => rfl
    | some d => exact hLast d hEnd

theorem cookiePair_pairText {e : Bytes × Bytes} (h : Sendable e) : cookiePair (pairText e) = some e := by
  have hSome : pairText e ≠ [] := List.append_ne_nil_of_right_ne_nil _ (List.cons_ne_nil _ _)
  rw [cookiePair, svTrim_pairText h.nameTrim h.named ((svTrim_eq_self_iff e.2).mp h.valueTrim).2]
  dsimp only
  rw [if_neg hSome, pairText, svChopByDelim_append 61 _ _ h.equals]
  dsimp only
  rw [if_neg h.named, h.nameTrim, h.valueTrim, h.bare]
  rfl

theorem cookiePair_blank (pair : Bytes) : cookiePair (32 :: pair) = cookiePair pair := by
  rw [cookiePair, cookiePair, svTrim_blank]

theorem not_mem_pairText {e : Bytes × Bytes} (h : Sendable e) : 59 ∉ pairText e := by
  rw [pairText, List.mem_append, List.mem_cons]
  rintro (hName | hEq | hValue)
  · exact h.nameSemi hName
  · exact absurd hEq (by decide)
  · exact h.valueSemi hValue

theorem cookiePair_front {e : Bytes × Bytes} (h : Sendable e) {front : Bytes}
    (hFront : front = [] ∨ front = [32]) :
    cookiePair (front ++ pairText e) = some e ∧ 59 ∉ front ++ pairText e := by
  rw [List.mem_append, not_or]
  rcases hFront with rfl | rfl
  · exact ⟨cookiePair_pairText h, List.not_mem_nil, not_mem_pairText h⟩
  · exact ⟨(cookiePair_blank _).trans (cookiePair_pairText h), by decide, not_mem_pairText h⟩

theorem cookiePairs_front (jar : List (Bytes × Bytes)) : ∀ e :
    Bytes × Bytes, (∀ f ∈ e :: jar, Sendable f) → ∀ front : Bytes,
    front = [] ∨ front = [32] → cookiePairs (front ++ cookieHeader (e :: jar)) = e :: jar := by
  induction jar with
  | nil =>
    intro e h front hFront
    obtain ⟨hPair, hNone⟩ := cookiePair_front (h e List.mem_cons_self) hFront
    have hOne : cookieHeader [e] = pairText e := by simp [cookieHeader]
    have hSome : front ++ pairText e ≠ [] :=
      List.append_ne_nil_of_right_ne_nil _ (List.append_ne_nil_of_right_ne_nil _ (List.cons_ne_nil _ _))
    rw [hOne, cookiePairs, svSplit_last hNone hSome, List.filterMap_cons_some hPair, List.filterMap_nil]
  | cons e' jar ih =>
    intro e h front hFront
    obtain ⟨hPair, hNone⟩ := cookiePair_front (h e List.mem_cons_self) hFront
    have hCut : cookieHeader (e :: e' :: jar) = pairText e ++ 59 :: ([32] ++ cookieHeader (e' :: jar)) := by
      rw [cookieHeader, cookieHeader, List.map_cons, List.intercalate_cons_of_ne_nil (by simp),
        List.append_assoc]
      rfl
    have hRest := ih e' (fun f hf => h f (List.mem_cons_of_mem _ hf)) [32] (.inr rfl)
    rw [cookiePairs] at hRest
    rw [hCut, ← List.append_assoc, cookiePairs, svSplit_line hNone, List.filterMap_cons_some hPair, hRest]

theorem cookiePairs_cookieHeader {jar : List (Bytes × Bytes)} (h : ∀ e ∈ jar, Sendable e) :
    cookiePairs (cookieHeader jar) = jar := by
  cases jar with
  | nil => rfl
  | cons e jar => exact cookiePairs_front jar e h [] (.inl rfl)

theorem attrsText_cases (attrs : Option CookieAttrs) : attrs.elim [] attrsText = [] ∨
    ∃ rest, attrs.elim [] attrsText = 59 :: rest := by
  have hFront : ∀ {a b : Bytes}, (a = [] ∨ ∃ rest, a = 59 :: rest) → (b = [] ∨ ∃ rest, b = 59 :: rest) →
      a ++ b = [] ∨ ∃ rest, a ++ b = 59 :: rest := by
    rintro a b (rfl | ⟨rest, rfl⟩) hb
    · exact hb
    · exact .inr ⟨rest ++ b, rfl⟩
  cases attrs with
  | none => exact .inl rfl
  | some attrs =>
    rw [Option.elim_some, attrsText]
    refine hFront (hFront (hFront (hFront ?_ ?_) ?_) ?_) ?_
    · cases attrs.path with
      | none => exact .inl rfl
      | some path => exact .inr ⟨_, rfl⟩
    · split
      · exact .inr ⟨_, rfl⟩
      · exact .inl rfl
    · split
      · exact .inr ⟨_, rfl⟩
      · exact .inl rfl
    · split
      · exact .inr ⟨_, rfl⟩
      · exact .inl rfl
    · cases attrs.sameSite with
      | default => exact .inl rfl
      | none => exact .inr ⟨_, rfl⟩
      | lax => exact .inr ⟨_, rfl⟩
      | strict => exact .inr ⟨_, rfl⟩

theorem isspace_of_isWs {b : UInt8} (h : isWs b = true) : isspace b = true := by
  rw [isWs, Bool.or_eq_true, beq_iff_eq, beq_iff_eq] at h
  rcases h with rfl | rfl
  · decide
  · decide

theorem trimWs_of_svTrim {s : Bytes} (h : svTrim s = s) : trimWs s = s := by
  obtain ⟨hHead, hLast⟩ := (svTrim_eq_self_iff s).mp h
  have hLeft : s.dropWhile isWs = s := by
    cases s with
    | nil => rfl
    | cons b s => exact List.dropWhile_cons_of_neg fun hb =>
      Bool.eq_false_iff.mp (hHead b rfl) (isspace_of_isWs hb)
  rw [trimWs, hLeft, List.rdropWhile_eq_self_iff]
  intro hSome hb
  exact Bool.eq_false_iff.mp (hLast _ (List.getLast?_eq_some_getLast hSome)) (isspace_of_isWs hb)

theorem keptPair_setCookieText {e : Bytes × Bytes} (h : Sendable e) (hName : 0 ∉ e.1) (hValue : 0 ∉ e.2)
    (attrs : Option CookieAttrs) :
    keptPair (setCookieText e.1 e.2 attrs) = e := by
  have hPair : (setCookieText e.1 e.2 attrs).takeWhile (· ≠ 59) = pairText e := by
    have hText : setCookieText e.1 e.2 attrs = pairText e ++ attrs.elim [] attrsText := by
      rw [setCookieText, svFromCstr_of_not_mem hName, svFromCstr_of_not_mem hValue, pairText]
    rw [hText, List.takeWhile_append_of_pos fun b hb => by
      simpa using fun hEq : b = 59 => not_mem_pairText h (hEq ▸ hb)]
    rcases attrsText_cases attrs with hNil | ⟨rest, hCons⟩
    · rw [hNil, List.takeWhile_nil, List.append_nil]
    · rw [hCons, List.takeWhile_cons_of_neg (by decide), List.append_nil]
  have hEquals : ∀ b ∈ e.1, decide (b ≠ 61) = true := fun b hb => by
    simpa using fun hEq : b = 61 => h.equals (hEq ▸ hb)
  rw [keptPair, hPair, pairText, List.takeWhile_append_of_pos hEquals, List.dropWhile_append_of_pos hEquals,
    List.takeWhile_cons_of_neg (by decide), List.dropWhile_cons_of_neg (by decide), List.append_nil,
    List.drop_succ_cons, List.drop_zero,
    trimWs_of_svTrim h.nameTrim, trimWs_of_svTrim h.valueTrim]

theorem lastOf_keep (jar : List (Bytes × Bytes)) (e : Bytes × Bytes) (k : Bytes) :
    lastOf (jar.filter (fun f => f.1 ≠ e.1) ++ [e]) k = (if e.1 = k then some e.2 else none).or
      (lastOf jar k) := by
  rw [lastOf_append, lastOf, lastOf, Option.none_or]
  split
  · rfl
  · rename_i hNe
    rw [Option.none_or, Option.none_or]
    induction jar with
    | nil => rfl
    | cons f jar ih =>
      by_cases hSame : f.1 = e.1
      · rw [List.filter_cons_of_neg (by simpa using hSame), ih, lastOf,
          if_neg (fun hEq => hNe (hSame.symm.trans hEq)), Option.or_none]
      · rw [List.filter_cons_of_pos (by simpa using hSame), lastOf, lastOf, ih]

/-- A cookie that a response sets. -/
structure SetCookie where
  pair : Bytes × Bytes
  attrs : Option CookieAttrs

def SetCookie.text (c : SetCookie) : Bytes := setCookieText c.pair.1 c.pair.2 c.attrs

/-- A handler sets a cookie or makes another call. -/
inductive CookieCall where
  | cookie (c : SetCookie)
  | other (op : ResponseOp)

def CookieCall.run (res : HttpResponse) : CookieCall → HttpResponse
  | .cookie c => httpResponseSetCookie res c.pair.1 c.pair.2 c.attrs
  | .other op => res.apply op

def CookieCall.cookie? : CookieCall → Option SetCookie
  | .cookie c => some c
  | .other _ => none

def answered (calls : List CookieCall) : HttpResponse := calls.foldl CookieCall.run httpResponseInit

/-- What a browser reads off a header line: what is behind the colon, if the name is
`Set-Cookie`. -/
def setCookieValue (line : Bytes) : Option Bytes :=
  if carries (ascii "Set-Cookie") line then
    some (((line.dropWhile (· ≠ 58)).drop 1).takeWhile fun b => b ≠ 13 && b ≠ 10)
  else none

def setCookieValues (headers : Bytes) : List Bytes := (headerLinesOf headers).filterMap setCookieValue

/-- What a browser keeps after some responses. -/
def browserJar (responses : List HttpResponse) : List (Bytes × Bytes) :=
  (responses.flatMap fun res => setCookieValues res.headers).foldl keep []

/-- A pair that is sendable and stays on its line. -/
structure Settable (e : Bytes × Bytes) : Prop where
  sendable : Sendable e
  nul : 0 ∉ e.1 ∧ 0 ∉ e.2
  cr : 13 ∉ e.1 ∧ 13 ∉ e.2
  lf : 10 ∉ e.1 ∧ 10 ∉ e.2

/-- A cookie stays on its line with its path, and no other call touches the cookies or
leaves its line. -/
def CookieCall.Ok : CookieCall → Prop
  | .cookie c => Settable c.pair ∧ ∀ attrs ∈ c.attrs, ∀ path ∈ attrs.path, 13 ∉ path ∧ 10 ∉ path
  | .other op => ∀ f, opField op = some f → FieldOk f ∧ svIeq f.key (ascii "Set-Cookie") = false

theorem not_mem_attrsText {b : UInt8} (hb : b = 13 ∨ b = 10) {attrs : CookieAttrs}
    (hPath : ∀ path ∈ attrs.path, b ∉ path) :
    b ∉ attrsText attrs := by
  have hIte : ∀ (p : Prop) [Decidable p] (s : Bytes), b ∉ s → b ∉ if p then s else [] := by
    intro p _ s hs
    split
    · exact hs
    · exact List.not_mem_nil
  have hAge : b ∉ decimalInt attrs.maxAge := by
    rcases hb with rfl | rfl
    · exact not_mem_decimalInt (by decide) (by decide) _
    · exact not_mem_decimalInt (by decide) (by decide) _
  have hPathText : b ∉ attrs.path.elim [] fun path => ascii "; Path=" ++ svFromCstr path := by
    cases hSome : attrs.path with
    | none => exact List.not_mem_nil
    | some path =>
      have hName : b ∉ ascii "; Path=" := by rcases hb with rfl | rfl <;> decide
      rw [Option.elim_some, List.mem_append, not_or]
      exact ⟨hName, fun hMem => hPath path hSome ((List.takeWhile_prefix _).subset hMem)⟩
  have hSite : b ∉ sameSiteText attrs.sameSite := by
    cases attrs.sameSite <;> rcases hb with rfl | rfl <;> decide
  simp only [attrsText, List.mem_append, not_or]
  refine ⟨⟨⟨⟨hPathText, hIte _ _ ?_⟩, hIte _ _ ?_⟩, hIte _ _ ?_⟩, hSite⟩
  · rw [List.mem_append, not_or]
    exact ⟨by rcases hb with rfl | rfl <;> decide, hAge⟩
  · rcases hb with rfl | rfl <;> decide
  · rcases hb with rfl | rfl <;> decide

theorem CookieCall.Ok.not_mem {c : SetCookie} (h : CookieCall.Ok (.cookie c)) {b : UInt8}
    (hb : b = 13 ∨ b = 10) : b ∉ c.text := by
  have hPair : b ∉ c.pair.1 ∧ b ∉ c.pair.2 := by
    rcases hb with rfl | rfl
    · exact h.1.cr
    · exact h.1.lf
  have hAttrs : b ∉ c.attrs.elim [] attrsText := by
    cases hSome : c.attrs with
    | none => exact List.not_mem_nil
    | some attrs =>
      apply not_mem_attrsText hb
      intro path hPath
      rcases hb with rfl | rfl
      · exact (h.2 attrs hSome path hPath).1
      · exact (h.2 attrs hSome path hPath).2
  have hEq : b ≠ 61 := by rcases hb with rfl | rfl <;> decide
  rw [SetCookie.text, setCookieText, svFromCstr_of_not_mem h.1.nul.1, svFromCstr_of_not_mem h.1.nul.2]
  simp [hPair, hEq, hAttrs]

theorem cookieField_ok {c : SetCookie} (h : CookieCall.Ok (.cookie c)) :
    FieldOk ⟨ascii "Set-Cookie", c.text⟩ where
  colon := show 58 ∉ ascii "Set-Cookie" by decide
  keyCr := show 13 ∉ ascii "Set-Cookie" by decide
  keyLf := show 10 ∉ ascii "Set-Cookie" by decide
  valueCr := h.not_mem (.inl rfl)
  valueLf := h.not_mem (.inr rfl)

theorem setCookieValue_field {f : HttpHeader} (h : FieldOk f) :
    setCookieValue (fieldText f ++ crlf) = if svIeq f.key (ascii "Set-Cookie") then some (32 :: f.value)
      else none := by
  have hText : fieldText f ++ crlf = f.key ++ 58 :: (32 :: f.value ++ crlf) := by simp [fieldText, ascii]
  have hLine : ∀ b ∈ 32 :: f.value, (decide (b ≠ 13) && decide (b ≠ 10)) = true := by
    intro b hb
    have hCr : b ≠ 13 :=
      fun hEq => (List.mem_cons.mp hb).elim (fun hBlank => absurd (hBlank ▸ hEq) (by decide))
      fun hMem => h.valueCr (hEq ▸ hMem)
    have hLf : b ≠ 10 :=
      fun hEq => (List.mem_cons.mp hb).elim (fun hBlank => absurd (hBlank ▸ hEq) (by decide))
      fun hMem => h.valueLf (hEq ▸ hMem)
    simp [hCr, hLf]
  rw [setCookieValue, carries_field h, hText,
    List.dropWhile_append_of_pos fun b hb => by simpa using fun hEq : b = 58 => h.colon (hEq ▸ hb),
    List.dropWhile_cons_of_neg (by decide), List.drop_succ_cons, List.drop_zero,
      List.takeWhile_append_of_pos hLine]
  simp [crlf]

def fieldCookies (fields : List HttpHeader) : List Bytes :=
  fields.filterMap fun f => if svIeq f.key (ascii "Set-Cookie") then some (32 :: f.value) else none

theorem setCookieValues_fieldsText {fields : List HttpHeader} (hFields : ∀ f ∈ fields, FieldOk f) :
    setCookieValues (fieldsText fields) = fieldCookies fields := by
  rw [setCookieValues, headerLinesOf_fieldsText hFields, List.filterMap_map, fieldCookies]
  apply List.filterMap_congr
  intro f hf
  exact setCookieValue_field (hFields f hf)

theorem emit_cookies {fields : List HttpHeader} (hFields : ∀ f ∈ fields, FieldOk f) {name value : Bytes}
    (hField : FieldOk ⟨name, value⟩) (hOther : svIeq name (ascii "Set-Cookie") = false) (replace : Bool) :
    ∃ fields', (∀ f ∈ fields', FieldOk f) ∧ fieldCookies fields' = fieldCookies fields ∧
      responseEmitHeader (fieldsText fields) name value replace = fieldsText fields' := by
  have hLast : ∀ spelled : Bytes, spelled.map tolower = name.map tolower →
    fieldCookies [⟨spelled, value⟩] = [] := by
    intro spelled hCase
    rw [svIeq, ← hCase, ← svIeq] at hOther
    rw [fieldCookies, List.filterMap_cons_none]
    · rfl
    · rw [hOther]
      rfl
  cases replace with
  | false =>
    refine ⟨fields ++ [⟨name, value⟩], ?_, ?_, ?_⟩
    · exact List.forall_mem_append.mpr ⟨hFields, List.forall_mem_singleton.mpr hField⟩
    · rw [fieldCookies, List.filterMap_append, ← fieldCookies, ← fieldCookies, hLast name rfl,
        List.append_nil]
    · rw [fieldsText_append, fieldsText_singleton]
      rfl
  | true =>
    obtain ⟨spelled, hCase, hEmit⟩ := emit_replace hFields name value
    refine ⟨_, ?_, ?_, hEmit⟩
    · exact List.forall_mem_append.mpr ⟨fun f hf => hFields f (List.mem_of_mem_filter hf),
        List.forall_mem_singleton.mpr (hField.spelled hCase)⟩
    · rw [fieldCookies, List.filterMap_append, ← fieldCookies, ← fieldCookies, hLast spelled hCase,
        List.append_nil, fieldCookies,
        List.filterMap_filter]
      apply List.filterMap_congr
      intro f hf
      by_cases hNamed : lineNamed name (fieldText f ++ crlf) = true
      · -- a line that is dropped has another name than the cookies
        have hSame : svIeq f.key name = true :=
          (lineNamed_field (hFields f hf) hField.colon).symm.trans hNamed
        have hNot : svIeq f.key (ascii "Set-Cookie") = false := by
          rw [svIeq, beq_iff_eq] at hSame
          rw [svIeq, hSame]
          exact hOther
        rw [hNot]
        simp [hNamed]
      · simp [hNamed]

theorem CookieCall.Ok.run {call : CookieCall} (h : call.Ok) {res : HttpResponse}
    {fields : List HttpHeader} (hFields : ∀ f ∈ fields, FieldOk f)
    (hText : res.headers = fieldsText fields) : ∃ fields', (∀ f ∈ fields', FieldOk f) ∧
      (call.run res).headers = fieldsText fields' ∧
      fieldCookies fields' = fieldCookies fields ++ (call.cookie?.map fun c => 32 :: c.text).toList := by
  cases call with
  | cookie c =>
    refine ⟨fields ++ [⟨ascii "Set-Cookie", c.text⟩], ?_, ?_, ?_⟩
    · exact List.forall_mem_append.mpr ⟨hFields, List.forall_mem_singleton.mpr (cookieField_ok h)⟩
    · rw [fieldsText_append, fieldsText_singleton, ← hText]
      rfl
    · rw [fieldCookies, List.filterMap_append, ← fieldCookies]
      rfl
  | other op =>
    have hSame : ∃ fields', (∀ f ∈ fields', FieldOk f) ∧ (res.apply op).headers = fieldsText fields' ∧
        fieldCookies fields' = fieldCookies fields := by
      cases op with
      | setHeader name value =>
        obtain ⟨hField, hOther⟩ := h _ rfl
        obtain ⟨fields', hAll, hCookies, hEmit⟩ := emit_cookies hFields hField hOther true
        exact ⟨fields', hAll, by rw [← hEmit, ← hText]; rfl, hCookies⟩
      | appendHeader name value =>
        obtain ⟨hField, hOther⟩ := h _ rfl
        obtain ⟨fields', hAll, hCookies, hEmit⟩ := emit_cookies hFields hField hOther false
        exact ⟨fields', hAll, by rw [← hEmit, ← hText]; rfl, hCookies⟩
      | streamWrite data =>
        refine ⟨fields, hFields, ?_, rfl⟩
        rw [HttpResponse.apply]
        split
        · exact hText
        · exact hText
      | _ => exact ⟨fields, hFields, hText, rfl⟩
    obtain ⟨fields', hAll, hHeaders, hCookies⟩ := hSame
    exact ⟨fields', hAll, hHeaders, hCookies.trans (List.append_nil _).symm⟩

theorem setCookieValues_answered {calls : List CookieCall} (h : ∀ call ∈ calls, call.Ok) :
    setCookieValues (answered calls).headers = (calls.filterMap CookieCall.cookie?).map fun c =>
      32 :: c.text := by
  have hRun : ∃ fields, (∀ f ∈ fields, FieldOk f) ∧ (answered calls).headers = fieldsText fields ∧
      fieldCookies fields = (calls.filterMap CookieCall.cookie?).map fun c => 32 :: c.text := by
    induction calls using List.reverseRecOn with
    | nil => exact ⟨[], fun f hf => absurd hf List.not_mem_nil, rfl, rfl⟩
    | append_singleton calls call ih =>
      obtain ⟨fields, hFields, hText, hCookies⟩ := ih fun c hc => h c (List.mem_append_left _ hc)
      obtain ⟨fields', hAll, hHeaders, hMore⟩ :=
        (h call (List.mem_append_right _ List.mem_cons_self)).run hFields hText
      refine ⟨fields', hAll, ?_, ?_⟩
      · rw [answered, List.foldl_append]
        exact hHeaders
      · rw [hMore, hCookies, List.filterMap_append, List.map_append]
        cases call with
        | cookie c => rfl
        | other op => rfl
  obtain ⟨fields, hFields, hText, hCookies⟩ := hRun
  rw [hText, setCookieValues_fieldsText hFields, hCookies]

/-- The cookies that some answers set, in order. -/
def cookiesSet (visits : List (List CookieCall)) : List SetCookie :=
  visits.flatMap fun calls => calls.filterMap CookieCall.cookie?

theorem browserJar_answered {visits : List (List CookieCall)}
    (h : ∀ calls ∈ visits, ∀ call ∈ calls, call.Ok) :
    browserJar (visits.map answered) = (cookiesSet visits).foldl
      (fun jar c => keep jar (32 :: c.text)) [] := by
  have hValues : (visits.map answered).flatMap (fun res => setCookieValues res.headers) =
    (cookiesSet visits).map fun c => 32 :: c.text := by
    rw [cookiesSet, List.flatMap_map, List.map_flatMap]
    apply List.flatMap_congr
    intro calls hCalls
    exact setCookieValues_answered (h calls hCalls)
  rw [browserJar, hValues, List.foldl_map]

theorem keptPair_blank (text : Bytes) : keptPair (32 :: text) = keptPair text := by
  have hBlank : ∀ s : Bytes, trimWs (32 :: s) = trimWs s := fun s => by
    rw [trimWs, trimWs, List.dropWhile_cons_of_pos (by decide)]
  rw [keptPair, keptPair, List.takeWhile_cons_of_pos (by decide), List.takeWhile_cons_of_pos (by decide),
    List.dropWhile_cons_of_pos (by decide), hBlank]

theorem kept_spec {cookies : List SetCookie} (h : ∀ c ∈ cookies, Settable c.pair) :
    (∀ e ∈ cookies.foldl (fun jar c => keep jar (32 :: c.text)) [], Settable e) ∧
      ∀ k, lastOf (cookies.foldl (fun jar c => keep jar (32 :: c.text)) []) k = lastOf
        (cookies.map SetCookie.pair) k := by
  induction cookies using List.reverseRecOn with
  | nil => exact ⟨fun e he => absurd he List.not_mem_nil, fun _ => rfl⟩
  | append_singleton cookies c ih =>
    obtain ⟨hJar, hLast⟩ := ih fun d hd => h d (List.mem_append_left _ hd)
    have hOne := h c (List.mem_append_right _ List.mem_cons_self)
    have hKept : keptPair (32 :: c.text) = c.pair :=
      (keptPair_blank _).trans (keptPair_setCookieText hOne.sendable hOne.nul.1 hOne.nul.2 c.attrs)
    rw [List.foldl_append, List.foldl_cons, List.foldl_nil, keep, hKept]
    constructor
    · intro e he
      rcases List.mem_append.mp he with hOld | hNew
      · exact hJar e (List.mem_of_mem_filter hOld)
      · rw [List.mem_singleton.mp hNew]
        exact hOne
    · intro k
      rw [lastOf_keep, hLast, List.map_append, lastOf_append]
      rfl

/-! ## No other pair comes back -/

theorem svTrim_idem (s : Bytes) : svTrim (svTrim s) = svTrim s := (svTrim_eq_self_iff _).mpr (svTrim_ends s)

theorem length_svTrim_le (s : Bytes) : (svTrim s).length ≤ s.length :=
  (List.rdropWhile_prefix isspace _).length_le.trans (List.dropWhile_suffix isspace).length_le

theorem cookiePair_name {pair : Bytes} {e : Bytes × Bytes} (h : cookiePair pair = some e) :
    e.1 ≠ [] ∧ svTrim e.1 = e.1 ∧ 61 ∉ e.1 := by
  rw [cookiePair] at h
  dsimp only at h
  split at h
  · cases h
  · split at h
    · cases h
    · next hSome hNamed =>
      obtain rfl := Option.some.inj h
      refine ⟨?_, svTrim_idem _, fun hMem => svChopByDelim_not_mem 61 _ (svTrim_subset hMem)⟩
      intro hNil
      -- the name begins where the trimmed pair does, so not all of it is blank
      obtain ⟨b, name, hName⟩ := List.exists_cons_of_ne_nil hNamed
      have hFirst : (svTrim pair).head? = some b := by
        obtain ⟨_, hChop⟩ | ⟨piece, rest, hSplit, _, hChop⟩ := svChopByDelim_cases 61 (svTrim pair)
        · rw [hChop] at hName
          rw [show svTrim pair = b :: name from hName]
          rfl
        · rw [hChop] at hName
          rw [hSplit, show piece = b :: name from hName]
          rfl
      have hBlank := (svTrim_ends pair).1 b hFirst
      dsimp only at hNil
      rw [hName, svTrim, svTrimLeft, List.dropWhile_cons_of_neg (by simp [hBlank]), svTrimRight] at hNil
      have hAll := List.rdropWhile_eq_nil_iff.mp hNil b List.mem_cons_self
      rw [hBlank] at hAll
      cases hAll

theorem cookiePair_value {e : Bytes × Bytes} (hNamed : e.1 ≠ []) (hName : svTrim e.1 = e.1)
    (hEquals : 61 ∉ e.1)
    (h : cookiePair (pairText e) = some e) : svTrim e.2 = e.2 ∧ isQuoted e.2 = false := by
  have hBlank : ∀ b ∈ e.2.rtakeWhile isspace, isspace b = true := fun b hb => List.mem_rtakeWhile_imp hb
  have hSplit : svTrimRight e.2 ++ e.2.rtakeWhile isspace = e.2 := List.rdropWhile_append_rtakeWhile
  have hLast : ∀ b ∈ (svTrimRight e.2).getLast?, isspace b = false := by
    intro b hb
    have hSome : svTrimRight e.2 ≠ [] := by
      intro hNil
      rw [hNil] at hb
      cases hb
    rw [List.getLast?_eq_some_getLast hSome] at hb
    obtain rfl := Option.some.inj hb
    exact Bool.eq_false_iff.mpr (List.rdropWhile_last_not isspace e.2 hSome)
  have hText : svTrim (pairText e) = pairText (e.1, svTrimRight e.2) := by
    have hAppend : pairText e = pairText (e.1, svTrimRight e.2) ++ e.2.rtakeWhile isspace := by
      rw [pairText, pairText, List.append_assoc, List.cons_append, hSplit]
    rw [hAppend, svTrim_append_blank hBlank]
    exact svTrim_pairText hName hNamed hLast
  have hValue : svTrim (svTrimRight e.2) = svTrim e.2 := by
    conv_rhs => rw [← hSplit]
    exact (svTrim_append_blank hBlank _).symm
  have hSome : pairText (e.1, svTrimRight e.2) ≠ [] :=
    List.append_ne_nil_of_right_ne_nil _ (List.cons_ne_nil _ _)
  rw [cookiePair, hText] at h
  dsimp only at h
  rw [if_neg hSome, pairText, svChopByDelim_append 61 _ _ hEquals] at h
  dsimp only at h
  rw [if_neg hNamed, hValue] at h
  have hSecond := congrArg Prod.snd (Option.some.inj h)
  dsimp only at hSecond
  split at hSecond
  · next hQuoted =>
    -- without its quotes it is shorter than what came
    rw [isQuoted, Bool.and_eq_true, Bool.and_eq_true, decide_eq_true_eq] at hQuoted
    have hLength := congrArg List.length hSecond
    rw [List.length_dropLast, List.length_drop] at hLength
    have hLe := length_svTrim_le e.2
    omega
  · next hBare =>
    rw [hSecond] at hBare
    exact ⟨hSecond, Bool.eq_false_iff.mpr hBare⟩

theorem sendable_of_comes_back {e : Bytes × Bytes} (h : e ∈ cookiePairs (pairText e)) : Sendable e := by
  obtain ⟨pair, hPair, hEq⟩ := List.mem_filterMap.mp h
  obtain ⟨hNamed, hTrim, hEquals⟩ := cookiePair_name hEq
  have hSemi : ∀ b, b ∈ e.1 ∨ b ∈ e.2 → b ≠ 59 := by
    rintro b hb rfl
    exact not_mem_svSplit hPair (cookiePair_subset hEq hb)
  have hNone : 59 ∉ pairText e := by
    rw [pairText, List.mem_append, List.mem_cons]
    rintro (hName | hEq | hValue)
    · exact hSemi 59 (.inl hName) rfl
    · exact absurd hEq (by decide)
    · exact hSemi 59 (.inr hValue) rfl
  rw [svSplit_last hNone (List.append_ne_nil_of_right_ne_nil _ (List.cons_ne_nil _ _)),
    List.mem_singleton] at hPair
  rw [hPair] at hEq
  obtain ⟨hValue, hBare⟩ := cookiePair_value hNamed hTrim hEquals hEq
  exact ⟨hNamed, hTrim, hEquals, fun hMem => hSemi 59 (.inl hMem) rfl, hValue, fun hMem =>
    hSemi 59 (.inr hMem) rfl, hBare⟩

theorem not_mem_cookieHeader {jar : List (Bytes × Bytes)} (h : ∀ e ∈ jar, 0 ∉ e.1 ∧ 0 ∉ e.2) :
    0 ∉ cookieHeader jar := by
  induction jar with
  | nil => exact List.not_mem_nil
  | cons e jar ih =>
    obtain ⟨⟨hName, hValue⟩, hRest⟩ := List.forall_mem_cons.mp h
    have hPair : 0 ∉ pairText e := by
      rw [pairText, List.mem_append, List.mem_cons]
      rintro (hMem | hEq | hMem)
      · exact hName hMem
      · exact absurd hEq (by decide)
      · exact hValue hMem
    cases jar with
    | nil => simpa [cookieHeader] using hPair
    | cons f jar =>
      rw [cookieHeader, List.map_cons, List.intercalate_cons_of_ne_nil (by simp), List.mem_append,
        List.mem_append]
      rintro ((hMem | hMem) | hMem)
      · exact hPair hMem
      · exact absurd hMem (by decide)
      · exact ih hRest hMem

theorem settable_of_set {visits : List (List CookieCall)} (h : ∀ calls ∈ visits, ∀ call ∈ calls, call.Ok) :
    ∀ c ∈ cookiesSet visits, Settable c.pair := by
  intro c hc
  obtain ⟨calls, hCalls, hMem⟩ := List.mem_flatMap.mp hc
  obtain ⟨call, hCall, hSome⟩ := List.mem_filterMap.mp hMem
  cases call with
  | cookie d => exact Option.some.inj hSome ▸ (h calls hCalls _ hCall).1
  | other op => cases hSome

/-- After any answers, the jar that is parsed from what a browser sends holds for each
name what was set for it last, if the pairs are settable. And a pair that is not sendable
is not read back from its own text. -/
theorem cookies_come_back :
    (∀ visits : List (List CookieCall), (∀ calls ∈ visits, ∀ call ∈ calls, call.Ok) → ∀ name,
      strmapGet (httpCookieParse strmapInit (cookieHeader (browserJar (visits.map answered)))) name =
        lastOf ((cookiesSet visits).map SetCookie.pair) name) ∧
    ∀ e : Bytes × Bytes, 0 ∉ e.1 → 0 ∉ e.2 →
      (strmapGet (httpCookieParse strmapInit (pairText e)) e.1 = some e.2 ↔ Sendable e) := by
  constructor
  · intro visits h name
    obtain ⟨hJar, hLast⟩ := kept_spec (settable_of_set h)
    rw [browserJar_answered h, strmapGet_httpCookieParse (not_mem_cookieHeader fun e he => (hJar e he).nul),
      cookiePairs_cookieHeader fun e he => (hJar e he).sendable, hLast]
  · intro e hName hValue
    have hOne : cookieHeader [e] = pairText e := by simp [cookieHeader]
    have hNul : 0 ∉ pairText e := by
      rw [← hOne]
      exact not_mem_cookieHeader (List.forall_mem_singleton.mpr ⟨hName, hValue⟩)
    rw [strmapGet_httpCookieParse hNul]
    constructor
    · exact fun h => sendable_of_comes_back (mem_of_lastOf h)
    · intro h
      rw [← hOne, cookiePairs_cookieHeader (List.forall_mem_singleton.mpr h), lastOf, lastOf, if_pos rfl]
      rfl

/-- The first answer sets two cookies around another header, the second one of them
again. -/
def twoVisits : List (List CookieCall) :=
  [[.cookie ⟨(ascii "sid", ascii "a1"), none⟩, .other (.setHeader (ascii "X-Seen") (ascii "1")),
      .cookie ⟨(ascii "theme", ascii "dark"), some ⟨some (ascii "/"), 60, true, false, .none⟩⟩],
    [.cookie ⟨(ascii "sid", ascii "b=2"), none⟩]]

theorem twoVisits_ok : ∀ calls ∈ twoVisits, ∀ call ∈ calls, call.Ok := by
  have hNone : ∀ attrs ∈ (none : Option CookieAttrs), ∀ path ∈ attrs.path, 13 ∉ path ∧ 10 ∉ path :=
    fun attrs h => nomatch h
  have hSid : Settable (ascii "sid", ascii "a1") := ⟨by decide +kernel, by decide, by decide, by decide⟩
  have hTheme : Settable (ascii "theme", ascii "dark") := ⟨by decide +kernel, by decide, by decide, by decide⟩
  have hNew : Settable (ascii "sid", ascii "b=2") := ⟨by decide +kernel, by decide, by decide, by decide⟩
  intro calls hCalls call hCall
  rcases List.mem_pair.mp hCalls with rfl | rfl
  · simp only [List.mem_cons, List.not_mem_nil, or_false] at hCall
    rcases hCall with rfl | rfl | rfl
    · exact ⟨hSid, hNone⟩
    · rintro f hf
      obtain rfl := Option.some.inj hf
      exact ⟨⟨by decide, by decide, by decide, by decide, by decide⟩, by decide⟩
    · refine ⟨hTheme, ?_⟩
      rintro attrs hAttrs path hPath
      obtain rfl := Option.some.inj hAttrs
      obtain rfl := Option.some.inj hPath
      exact ⟨by decide, by decide⟩
  · rw [List.mem_singleton.mp hCall]
    exact ⟨hNew, hNone⟩

theorem cookies_come_back_replaced :
    strmapGet (httpCookieParse strmapInit (cookieHeader (browserJar (twoVisits.map answered))))
      (ascii "sid") = some (ascii "b=2") :=
  (cookies_come_back.1 twoVisits twoVisits_ok (ascii "sid")).trans (by decide)

end Cweb.Cookie
