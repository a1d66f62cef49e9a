import Cweb.Lib.Lookup
import Cweb.Lib.Segments

/-!
# JSON texts

The grammar of RFC 8259 over bytes. A text is read as a tree whose numbers are
the texts of the numbers, and whose strings are decoded. What counts as a number
is a parameter, so that a reader which is more liberal there has a grammar as
well.
-/

namespace JsonText

open Lookup

inductive Value (ν : Type) where
  | null
  | bool (b : Bool)
  | number (n : ν)
  | string (s : List UInt8)
  | array (items : List (Value ν))
  | object (members : List (List UInt8 × Value ν))

variable {ν μ : Type}

theorem Value.ind {P : Value ν → Prop} (null : P .null) (bool : ∀ b, P (.bool b))
    (number : ∀ n, P (.number n))
    (string : ∀ s, P (.string s)) (array : ∀ items, (∀ v ∈ items, P v) → P (.array items))
    (object : ∀ members, (∀ e ∈ members, P e.2) → P (.object members)) (v : Value ν) : P v := by
  refine @Value.rec ν P (fun items => ∀ v ∈ items, P v) (fun members => ∀ e ∈ members, P e.2) (fun e => P e.2)
    null bool number string array object ?_ ?_ ?_ ?_ ?_ v
  · exact fun v h => absurd h List.not_mem_nil
  · exact fun v items hv hItems => List.forall_mem_cons.mpr ⟨hv, hItems⟩
  · exact fun e h => absurd h List.not_mem_nil
  · exact fun e members he hMembers => List.forall_mem_cons.mpr ⟨he, hMembers⟩
  · exact fun _ _ h => h

/-! ## Trees -/

def Value.children : Value ν → List (Value ν)
  | .array items => items
  | .object members => members.map Prod.snd
  | _ => []

/-- No value is inside more than `n` containers. -/
def Value.Within : Nat → Value ν → Prop
  | 0, v => v.children = []
  | n + 1, v => ∀ c ∈ v.children, c.Within n

/-- Every number, every string and every key is as asked, and so are the keys of every
object together. -/
inductive Value.Every (number : ν → Prop) (text : List UInt8 → Prop) (keys : List (List UInt8) → Prop) :
    Value ν → Prop where
  | null : Every number text keys .null
  | bool (b : Bool) : Every number text keys (.bool b)
  | number {n : ν} (h : number n) : Every number text keys (.number n)
  | string {s : List UInt8} (h : text s) : Every number text keys (.string s)
  | array {items : List (Value ν)} (h : ∀ v ∈ items, Every number text keys v) : Every number text keys
    (.array items)
  | object {members : List (List UInt8 × Value ν)} (hText : ∀ e ∈ members, text e.1)
    (hKeys : keys (members.map Prod.fst))
      (h : ∀ e ∈ members, Every number text keys e.2) : Every number text keys (.object members)

theorem Value.Every.mono {number number' : ν → Prop} {text text' : List UInt8 → Prop}
    {keys keys' : List (List UInt8) → Prop}
    (hNumber : ∀ n, number n → number' n) (hText : ∀ s, text s → text' s)
    (hKeys : ∀ ks, keys ks → keys' ks) {v : Value ν}
    (h : v.Every number text keys) : v.Every number' text' keys' := by
  induction h with
  | null => exact .null
  | bool b => exact .bool b
  | number hn => exact .number (hNumber _ hn)
  | string hs => exact .string (hText _ hs)
  | array _ ih => exact .array ih
  | object hTexts hAll _ ih => exact .object (fun e he => hText _ (hTexts e he)) (hKeys _ hAll) ih

section Rebuild

variable (number : ν → μ) (text : List UInt8 → List UInt8)
  (close : List (List UInt8 × Value μ) → List (List UInt8 × Value μ))

mutual

/-- A tree with its numbers and strings replaced and its objects put together anew. -/
def Value.rebuild : Value ν → Value μ
  | .null => .null
  | .bool b => .bool b
  | .number n => .number (number n)
  | .string s => .string (text s)
  | .array items => .array (rebuildItems items)
  | .object members => .object (close (rebuildMembers members))

def Value.rebuildItems : List (Value ν) → List (Value μ)
  | [] => []
  | v :: items => v.rebuild :: rebuildItems items

def Value.rebuildMembers : List (List UInt8 × Value ν) → List (List UInt8 × Value μ)
  | [] => []
  | (key, v) :: members => (key, v.rebuild) :: rebuildMembers members

end

theorem Value.rebuild_array (items : List (Value ν)) :
    (Value.array items).rebuild number text close = .array
      (items.map fun v => v.rebuild number text close) := by
  rw [rebuild]
  congr 1
  induction items with
  | nil => rfl
  | cons v items ih => rw [rebuildItems, ih, List.map_cons]

theorem Value.rebuild_object (members : List (List UInt8 × Value ν)) :
    (Value.object members).rebuild number text close =
    .object (close (members.map fun e => (e.1, e.2.rebuild number text close))) := by
  rw [rebuild]
  congr 2
  induction members with
  | nil => rfl
  | cons e members ih => rw [rebuildMembers, ih, List.map_cons]

theorem Value.children_rebuild (v : Value ν) :
    (v.rebuild number text id).children = v.children.map fun c => c.rebuild number text id := by
  cases v with
  | null | bool | number | string => rfl
  | array items => rw [rebuild_array]; rfl
  | object members =>
    rw [rebuild_object, children, children, id_eq, List.map_map, List.map_map]
    rfl

theorem Value.within_rebuild {n : Nat} : ∀ {v : Value ν}, v.Within n →
    (v.rebuild number text id).Within n := by
  induction n with
  | zero =>
    intro v h
    rw [Within] at h
    rw [Within, children_rebuild, h, List.map_nil]
  | succ n ih =>
    intro v h
    rw [Within, children_rebuild]
    intro c hc
    obtain ⟨child, hChild, rfl⟩ := List.mem_map.mp hc
    exact ih (h child hChild)

end Rebuild

/-- Members under different keys, in the order in which the keys come up, each with the
value that comes last. -/
def lastMembers {α : Type} : List (List UInt8 × α) → List (List UInt8 × α)
  | [] => []
  | (key, v) :: members => (key, (lastOf members key).getD v) :: (lastMembers members).filter (·.1 ≠ key)

/-- What a tree of texts means, for a reading of numbers. -/
def Value.meaning (number : List UInt8 → ν) (tree : Value (List UInt8)) : Value ν :=
  tree.rebuild number id lastMembers

/-! ## Numbers -/

def isDigit (c : UInt8) : Bool := 48 ≤ c && c ≤ 57

def Digits (s : List UInt8) : Prop := s ≠ [] ∧ ∀ c ∈ s, isDigit c = true

/-- Digits without a zero in front of others. -/
def Whole (s : List UInt8) : Prop := Digits s ∧ (s.head? = some 48 → s = [48])

def Fraction (s : List UInt8) : Prop := s = [] ∨ ∃ digits, s = 46 :: digits ∧ Digits digits

def Exponent (s : List UInt8) : Prop :=
  s = [] ∨ ∃ e sign digits, s = e :: (sign ++ digits) ∧ (e = 101 ∨ e = 69) ∧
    (sign = [] ∨ sign = [43] ∨ sign = [45]) ∧
    Digits digits

/-- A number whose integer part is as asked. -/
def IsNumber (whole : List UInt8 → Prop) (s : List UInt8) : Prop :=
  ∃ sign int frac exp, s = sign ++ (int ++ (frac ++ exp)) ∧ (sign = [] ∨ sign = [45]) ∧ whole int ∧
    Fraction frac ∧ Exponent exp

/-- There is a zero in front of another digit. -/
def ZeroLed (s : List UInt8) : Prop := ∃ sign c rest, s = sign ++ 48 :: c :: rest ∧
    (sign = [] ∨ sign = [45]) ∧ isDigit c = true

theorem Digits.not_mem_zero {s : List UInt8} (h : Digits s) : 0 ∉ s := fun hMem => nomatch h.2 0 hMem

theorem isNumber_not_mem_zero {s : List UInt8} (h : IsNumber Digits s) : 0 ∉ s := by
  obtain ⟨sign, int, frac, exp, rfl, hSign, hInt, hFrac, hExp⟩ := h
  have hSignFree : 0 ∉ sign := by
    rcases hSign with rfl | rfl
    · decide
    · decide
  have hFracFree : 0 ∉ frac := by
    rcases hFrac with rfl | ⟨digits, rfl, hDigits⟩
    · exact List.not_mem_nil
    · exact List.not_mem_cons_of_ne_of_not_mem (by decide) hDigits.not_mem_zero
  have hExpFree : 0 ∉ exp := by
    rcases hExp with rfl | ⟨e, sign, digits, rfl, hE, hSign, hDigits⟩
    · exact List.not_mem_nil
    · have hSignFree : 0 ∉ sign := by
        rcases hSign with rfl | rfl | rfl
        · decide
        · decide
        · decide
      have hNe : 0 ≠ e := by
        rcases hE with rfl | rfl
        · decide
        · decide
      exact List.not_mem_cons_of_ne_of_not_mem hNe (by simp [hSignFree, hDigits.not_mem_zero])
  simp [hSignFree, hInt.not_mem_zero, hFracFree, hExpFree]

/-! ## Strings -/

def hexValue (c : UInt8) : Option Nat :=
  if 48 ≤ c ∧ c ≤ 57 then some (c.toNat - 48)
  else if 97 ≤ c ∧ c ≤ 102 then some (c.toNat - 87)
  else if 65 ≤ c ∧ c ≤ 70 then some (c.toNat - 55)
  else none

/-- The number that four hexadecimal digits are. -/
def IsHex4 (s : List UInt8) (u : Nat) : Prop :=
  ∃ a b c d x y z w, s = [a, b, c, d] ∧ hexValue a = some x ∧ hexValue b = some y ∧
    hexValue c = some z ∧ hexValue d = some w ∧
    u = ((x * 16 + y) * 16 + z) * 16 + w

def High (u : Nat) : Prop := 0xD800 ≤ u ∧ u ≤ 0xDBFF

def Low (u : Nat) : Prop := 0xDC00 ≤ u ∧ u ≤ 0xDFFF

/-- The escapes with one character, and what they are short for. -/
def escapes : List (UInt8 × UInt8) :=
  [(34, 34), (92, 92), (47, 47), (98, 8), (102, 12), (110, 10), (114, 13), (116, 9)]

def utf8 (u : Nat) : List UInt8 := String.utf8EncodeChar (Char.ofNat u)

/-- What can follow a backslash, and the character that it is, in UTF-8. -/
inductive Escape : List UInt8 → List UInt8 → Prop where
  | short {e c : UInt8} (h : (e, c) ∈ escapes) : Escape [e] [c]
  | unicode {hex : List UInt8} {u : Nat} (hHex : IsHex4 hex u) (hHigh : ¬ High u)
    (hLow : ¬ Low u) : Escape (117 :: hex) (utf8 u)
  | pair {high low : List UInt8} {hi lo : Nat} (hFirst : IsHex4 high hi) (hHigh : High hi)
    (hSecond : IsHex4 low lo)
      (hLow : Low lo) : Escape (117 :: (high ++ 92 :: 117 :: low))
        (utf8 (0x10000 + (hi - 0xD800) * 0x400 + (lo - 0xDC00)))

/-- What is between quotation marks, and the characters that it is. -/
inductive Chars : List UInt8 → List UInt8 → Prop where
  | nil : Chars [] []
  | raw {c : UInt8} {text out : List UInt8} (h : 32 ≤ c ∧ c ≠ 34 ∧ c ≠ 92)
    (hRest : Chars text out) : Chars (c :: text) (c :: out)
  | escape {e bytes text out : List UInt8} (h : Escape e bytes) (hRest : Chars text out) :
      Chars (92 :: (e ++ text)) (bytes ++ out)

/-! ## Values -/

def isWs (c : UInt8) : Bool := c == 32 || c == 9 || c == 10 || c == 13

def Ws (s : List UInt8) : Prop := ∀ c ∈ s, isWs c = true

/-- A value and the white space in front of it. -/
structure Item where
  before : List UInt8
  text : List UInt8
  value : Value (List UInt8)

def Item.bytes (i : Item) : List UInt8 := i.before ++ i.text

/-- A member of an object: a string, a colon and a value. -/
structure Member where
  before : List UInt8
  keyText : List UInt8
  key : List UInt8
  after : List UInt8
  item : Item

def Member.bytes (m : Member) : List UInt8 :=
  m.before ++ 34 :: (m.keyText ++ 34 :: (m.after ++ 58 :: m.item.bytes))

def commas (pieces : List (List UInt8)) : List UInt8 := Segments.text 44 pieces

/-- Pieces, each with the white space behind it, between commas. -/
def listed {α : Type} (bytes : α → List UInt8) (pieces : List (α × List UInt8)) : List UInt8 :=
  commas (pieces.map fun p => bytes p.1 ++ p.2)

inductive IsValue (number : List UInt8 → Prop) : List UInt8 → Value (List UInt8) → Prop where
  | null : IsValue number [110, 117, 108, 108] .null
  | true : IsValue number [116, 114, 117, 101] (.bool true)
  | false : IsValue number [102, 97, 108, 115, 101] (.bool false)
  | number {s : List UInt8} (h : number s) : IsValue number s (.number s)
  | string {text out : List UInt8} (h : Chars text out) : IsValue number (34 :: (text ++ [34])) (.string out)
  | emptyArray {ws : List UInt8} (h : Ws ws) : IsValue number (91 :: (ws ++ [93])) (.array [])
  | array {items : List (Item × List UInt8)} (hSome : items ≠ []) (hWs : ∀ i ∈ items, Ws i.1.before ∧ Ws i.2)
      (hValues : ∀ i ∈ items, IsValue number i.1.text i.1.value) :
      IsValue number (91 :: (listed Item.bytes items ++ [93])) (.array (items.map fun i => i.1.value))
  | emptyObject {ws : List UInt8} (h : Ws ws) : IsValue number (123 :: (ws ++ [125])) (.object [])
  | object {members : List (Member × List UInt8)} (hSome : members ≠ [])
      (hWs : ∀ m ∈ members, Ws m.1.before ∧ Ws m.1.after ∧ Ws m.1.item.before ∧ Ws m.2)
      (hKeys : ∀ m ∈ members, Chars m.1.keyText m.1.key)
      (hValues : ∀ m ∈ members, IsValue number m.1.item.text m.1.item.value) :
      IsValue number (123 :: (listed Member.bytes members ++ [125]))
        (.object (members.map fun m => (m.1.key, m.1.item.value)))

/-- A value and nothing else but white space. -/
def IsText (number : List UInt8 → Prop) (s : List UInt8) (tree : Value (List UInt8)) : Prop :=
  ∃ before text after, s = before ++ (text ++ after) ∧ Ws before ∧ Ws after ∧ IsValue number text tree

/-! ## Leading zeros -/

theorem digits_head {int rest : List UInt8} (h : Digits int) : ∃ d t, int ++ rest = d :: t ∧
    isDigit d = true := by
  obtain ⟨d, int, rfl⟩ := List.exists_cons_of_ne_nil h.1
  exact ⟨d, int ++ rest, rfl, h.2 d List.mem_cons_self⟩

/-- A sign is no digit, so there is one way to take it off. -/
theorem sign_unique {sign sign' s s' : List UInt8} (h : sign = [] ∨ sign = [45])
    (h' : sign' = [] ∨ sign' = [45])
    (hHead : ∃ d t, s = d :: t ∧ isDigit d = true) (hHead' : ∃ d t, s' = d :: t ∧ isDigit d = true)
    (hEq : sign ++ s = sign' ++ s') : s = s' := by
  obtain ⟨d, t, rfl, hd⟩ := hHead
  obtain ⟨d', t', rfl, hd'⟩ := hHead'
  rcases h with rfl | rfl
  · rcases h' with rfl | rfl
    · exact hEq
    · obtain rfl := (List.cons.inj hEq).1
      cases hd
  · rcases h' with rfl | rfl
    · obtain rfl := (List.cons.inj hEq).1
      cases hd'
    · exact (List.cons.inj hEq).2

theorem tail_head {frac exp : List UInt8} (hFrac : Fraction frac) (hExp : Exponent exp) {c : UInt8}
    (h : (frac ++ exp).head? = some c) : isDigit c = false := by
  rcases hFrac with rfl | ⟨digits, rfl, _⟩
  · rcases hExp with rfl | ⟨e, sign, digits, rfl, hE, _⟩
    · cases h
    · cases h
      rcases hE with rfl | rfl
      · rfl
      · rfl
  · cases h
    rfl

theorem whole_iff (s : List UInt8) : IsNumber Whole s ↔ IsNumber Digits s ∧ ¬ ZeroLed s := by
  constructor
  · rintro ⟨sign, int, frac, exp, rfl, hSign, ⟨hDigits, hWhole⟩, hFrac, hExp⟩
    refine ⟨⟨sign, int, frac, exp, rfl, hSign, hDigits, hFrac, hExp⟩, ?_⟩
    rintro ⟨sign', c, rest, hEq, hSign', hc⟩
    have hInt := sign_unique hSign hSign' (digits_head hDigits) ⟨48, _, rfl, rfl⟩ hEq
    obtain ⟨d, int, rfl⟩ := List.exists_cons_of_ne_nil hDigits.1
    obtain ⟨rfl, hRest⟩ := List.cons.inj hInt
    obtain rfl := (List.cons.inj (hWhole rfl)).2
    have hTail := tail_head hFrac hExp (congrArg List.head? hRest)
    rw [hc] at hTail
    cases hTail
  · rintro ⟨⟨sign, int, frac, exp, rfl, hSign, hDigits, hFrac, hExp⟩, hNot⟩
    refine ⟨sign, int, frac, exp, rfl, hSign, ⟨hDigits, fun hZero => ?_⟩, hFrac, hExp⟩
    obtain ⟨int, rfl⟩ := List.head?_eq_some_iff.mp hZero
    cases int with
    | nil => rfl
    | cons c int => exact absurd ⟨sign, c, int ++ (frac ++ exp), rfl, hSign, hDigits.2 c (by simp)⟩ hNot

theorem isValue_and_iff {p q : List UInt8 → Prop} {text : List UInt8} {tree : Value (List UInt8)} :
    IsValue (fun s => p s ∧ q s) text tree ↔ IsValue p text tree ∧
      tree.Every q (fun _ => True) (fun _ => True) := by
  constructor
  · intro h
    induction h with
    | null => exact ⟨.null, .null⟩
    | true => exact ⟨.true, .bool _⟩
    | false => exact ⟨.false, .bool _⟩
    | number hBoth => exact ⟨.number hBoth.1, .number hBoth.2⟩
    | string hChars => exact ⟨.string hChars, .string trivial⟩
    | emptyArray hWs => exact ⟨.emptyArray hWs, .array fun _ hv => absurd hv List.not_mem_nil⟩
    | array hSome hWs _ ih =>
      refine ⟨.array hSome hWs fun i hi => (ih i hi).1, .array ?_⟩
      intro v hv
      obtain ⟨i, hi, rfl⟩ := List.mem_map.mp hv
      exact (ih i hi).2
    | emptyObject hWs =>
      exact ⟨.emptyObject hWs, .object (fun _ _ => trivial) trivial fun _ he => absurd he List.not_mem_nil⟩
    | object hSome hWs hKeys _ ih =>
      refine ⟨.object hSome hWs hKeys fun m hm => (ih m hm).1, .object (fun _ _ => trivial) trivial ?_⟩
      intro e he
      obtain ⟨m, hm, rfl⟩ := List.mem_map.mp he
      exact (ih m hm).2
  · rintro ⟨h, hEvery⟩
    induction h with
    | null => exact .null
    | true => exact .true
    | false => exact .false
    | number hNumber =>
      cases hEvery with
      | number hMore => exact .number ⟨hNumber, hMore⟩
    | string hChars => exact .string hChars
    | emptyArray hWs => exact .emptyArray hWs
    | array hSome hWs _ ih =>
      cases hEvery with
      | array hItems => exact .array hSome hWs fun i hi => ih i hi (hItems _ (List.mem_map_of_mem hi))
    | emptyObject hWs => exact .emptyObject hWs
    | object hSome hWs hKeys _ ih =>
      cases hEvery with
      | object _ _ hMembers =>
        exact .object hSome hWs hKeys fun m hm => ih m hm (hMembers _ (List.mem_map_of_mem hm))

/-! ## Repeated keys -/

section LastMembers

variable {α β : Type}

theorem lastMembers_map (f : α → β) (members : List (List UInt8 × α)) :
    lastMembers (members.map fun e => (e.1, f e.2)) = (lastMembers members).map fun e => (e.1, f e.2) := by
  induction members with
  | nil => rfl
  | cons e members ih =>
    rw [List.map_cons, lastMembers, ih, lastOf_map, lastMembers, List.map_cons, Option.getD_map,
      List.filter_map]
    rfl

theorem mem_of_mem_lastMembers {members : List (List UInt8 × α)} {e : List UInt8 × α}
    (h : e ∈ lastMembers members) :
    e ∈ members := by
  induction members with
  | nil => exact h
  | cons first members ih =>
    rw [lastMembers] at h
    rcases List.mem_cons.mp h with rfl | hLater
    · cases hLast : lastOf members first.1 with
      | none => exact List.mem_cons_self
      | some v => exact List.mem_cons_of_mem _ (mem_of_lastOf hLast)
    · exact List.mem_cons_of_mem _ (ih (List.mem_of_mem_filter hLater))

theorem exists_mem_lastMembers {members : List (List UInt8 × α)} {e : List UInt8 × α} (h : e ∈ members) :
    ∃ e' ∈ lastMembers members, e'.1 = e.1 := by
  induction members with
  | nil => exact absurd h List.not_mem_nil
  | cons first members ih =>
    rw [lastMembers]
    rcases eq_or_ne e.1 first.1 with hSame | hOther
    · exact ⟨_, List.mem_cons_self, hSame.symm⟩
    · have hLater : e ∈ members := by
        rcases List.mem_cons.mp h with rfl | hLater
        · exact absurd rfl hOther
        · exact hLater
      obtain ⟨e', hMem, hKey⟩ := ih hLater
      exact ⟨e',
        List.mem_cons_of_mem _ (List.mem_filter.mpr ⟨hMem, by rw [hKey]; exact decide_eq_true hOther⟩), hKey⟩

theorem nodup_lastMembers (members : List (List UInt8 × α)) : ((lastMembers members).map Prod.fst).Nodup := by
  induction members with
  | nil => exact List.nodup_nil
  | cons e members ih =>
    rw [lastMembers, List.map_cons, List.nodup_cons]
    constructor
    · intro hMem
      obtain ⟨e', hFilter, hKey⟩ := List.mem_map.mp hMem
      exact of_decide_eq_true (List.mem_filter.mp hFilter).2 hKey
    · exact ih.sublist (List.filter_sublist.map Prod.fst)

theorem lastMembers_of_nodup {members : List (List UInt8 × α)} (h : (members.map Prod.fst).Nodup) :
    lastMembers members = members := by
  induction members with
  | nil => rfl
  | cons e members ih =>
    rw [List.map_cons, List.nodup_cons] at h
    obtain ⟨hNew, hRest⟩ := h
    have hKeep : members.filter (·.1 ≠ e.1) = members := by
      refine List.filter_eq_self.mpr fun m hm => decide_eq_true ?_
      intro hSame
      exact hNew (hSame ▸ List.mem_map_of_mem hm)
    rw [lastMembers, ih hRest, hKeep]
    cases hLast : lastOf members e.1 with
    | none => rfl
    | some v => exact absurd (List.mem_map_of_mem (mem_of_lastOf hLast)) hNew

end LastMembers

end JsonText
