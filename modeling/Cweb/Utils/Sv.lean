import Cweb.Lib.Segments
import Mathlib.Data.List.DropRight
import Mathlib.Order.Basic
import Mathlib.Algebra.GroupWithZero.Nat
import Mathlib.Algebra.Group.Int.Defs

/-!
# Byte strings and string views

A `String_View` is a pointer and a length into memory that its owner keeps
alive. Where only the bytes in the view matter it is the list of these bytes.
Character classes are those of the C locale.
-/

namespace Cweb

abbrev Bytes := List UInt8

instance : LawfulBEq Bytes := inferInstance

/-- A C string literal. -/
def ascii (s : String) : Bytes := s.toList.map fun c => UInt8.ofNat c.toNat

/-- A digit as `%x` prints it. -/
def hexDigitChar (d : Nat) : UInt8 := if d < 10 then UInt8.ofNat (48 + d) else UInt8.ofNat (87 + d)

theorem hexDigitChar_ne_zero {d : Nat} (h : d < 16) : hexDigitChar d ≠ 0 := by
  have hAll : ∀ d : Fin 16, hexDigitChar d.val ≠ 0 := by decide
  exact hAll ⟨d, h⟩

namespace Sv

def isspace (b : UInt8) : Bool := b == 32 || (9 ≤ b && b ≤ 13)

def isdigit (b : UInt8) : Bool := 48 ≤ b && b ≤ 57

def tolower (b : UInt8) : UInt8 := if 65 ≤ b && b ≤ 90 then b + 32 else b

def toupper (b : UInt8) : UInt8 := if 97 ≤ b && b ≤ 122 then b - 32 else b

/-- The bytes of a buffer read as a C string. -/
def svFromCstr (s : Bytes) : Bytes := s.takeWhile (· ≠ 0)

def svTrimLeft (sv : Bytes) : Bytes := sv.dropWhile isspace

def svTrimRight (sv : Bytes) : Bytes := sv.rdropWhile isspace

def svTrim (sv : Bytes) : Bytes := svTrimRight (svTrimLeft sv)

def svStartsWith (sv start : Bytes) : Bool := start.isPrefixOf sv

/-- The piece up to the delimiter and what is left behind it. -/
def svChopByDelim (delim : UInt8) : Bytes → Bytes × Bytes
  | [] => ([], [])
  | b :: sv =>
    if b = delim then ([], sv)
    else (b :: (svChopByDelim delim sv).1, (svChopByDelim delim sv).2)

def svPieces (delim : UInt8) : Nat → Bytes → List Bytes
  | 0, _ => []
  | fuel + 1, sv =>
    if sv = [] then [] else (svChopByDelim delim sv).1 :: svPieces delim fuel (svChopByDelim delim sv).2

/-- The pieces of chopping a view until nothing is left. -/
def svSplit (delim : UInt8) (sv : Bytes) : List Bytes := svPieces delim sv.length sv

def llongMax : Int := 2 ^ 63 - 1

/-- The digit loop of `sv_to_i64`, with its test against overflow. -/
def svDigits : Bytes → Int → Option Int
  | [], n => some n
  | c :: cs, n =>
    if isdigit c then
      let d : Int := c.toNat - 48
      if (llongMax - d) / 10 < n then none else svDigits cs (n * 10 + d)
    else none

def svToI64 (sv : Bytes) : Option Int :=
  match sv with
  | [] => none
  | 45 :: [] => none
  | 45 :: digits => (svDigits digits 0).map fun n => -n
  | digits => svDigits digits 0

theorem svFromCstr_of_not_mem {s : Bytes} (h : 0 ∉ s) : svFromCstr s = s := by
  rw [svFromCstr, List.takeWhile_eq_self_iff]
  intro b hb
  have hne : b ≠ 0 := fun hEq => h (hEq ▸ hb)
  simpa using hne

theorem not_mem_svFromCstr (s : Bytes) : 0 ∉ svFromCstr s := by
  intro h
  have hne := List.mem_takeWhile_imp h
  simp at hne

theorem svFromCstr_eq_self_iff (s : Bytes) : svFromCstr s = s ↔ 0 ∉ s := by
  constructor
  · intro hEq
    rw [← hEq]
    exact not_mem_svFromCstr s
  · exact svFromCstr_of_not_mem

theorem svFromCstr_append {s : Bytes} (h : 0 ∉ s) (t : Bytes) : svFromCstr (s ++ t) = s ++ svFromCstr t := by
  refine List.takeWhile_append_of_pos fun b hb => ?_
  simpa using fun hEq : b = 0 => h (hEq ▸ hb)

/-! ## Decimal text, as `printf` writes it -/

def digitChar (d : Nat) : UInt8 := UInt8.ofNat (48 + d)

def decimalFuel : Nat → Nat → Bytes
  | 0, n => [digitChar (n % 10)]
  | fuel + 1, n =>
    if n < 10 then [digitChar n] else decimalFuel fuel (n / 10) ++ [digitChar (n % 10)]

def decimal (n : Nat) : Bytes := decimalFuel n n

def decimalInt : Int → Bytes
  | .ofNat n => decimal n
  | .negSucc n => 45 :: decimal (n + 1)

theorem digitChar_toNat {d : Nat} (h : d < 10) : (digitChar d).toNat = 48 + d := by
  rw [digitChar, UInt8.toNat_ofNat']
  omega

theorem isdigit_iff (b : UInt8) : isdigit b = true ↔ 48 ≤ b.toNat ∧ b.toNat ≤ 57 := by
  rw [isdigit, Bool.and_eq_true, decide_eq_true_eq, decide_eq_true_eq, UInt8.le_iff_toNat_le,
    UInt8.le_iff_toNat_le]
  exact Iff.rfl

theorem isdigit_digitChar {d : Nat} (h : d < 10) : isdigit (digitChar d) = true := by
  rw [isdigit_iff, digitChar_toNat h]
  constructor <;> omega

theorem decimalFuel_eq (fuel : Nat) : ∀ {fuel' n : Nat}, n ≤ fuel → n ≤ fuel' →
    decimalFuel fuel n = decimalFuel fuel' n := by
  induction fuel with
  | zero =>
    intro fuel' n h _
    obtain rfl := Nat.le_zero.mp h
    cases fuel' with
    | zero => rfl
    | succ fuel' => rfl
  | succ fuel ih =>
    intro fuel' n h h'
    cases fuel' with
    | zero =>
      obtain rfl := Nat.le_zero.mp h'
      rfl
    | succ fuel' => rw [decimalFuel, decimalFuel, @ih fuel' (n / 10) (by omega) (by omega)]

theorem decimal_of_lt {n : Nat} (h : n < 10) : decimal n = [digitChar n] := by
  rw [decimal, @decimalFuel_eq n (n + 1) n (Nat.le_refl n) (Nat.le_succ n), decimalFuel, if_pos h]

theorem decimal_of_ge {n : Nat} (h : 10 ≤ n) : decimal n = decimal (n / 10) ++ [digitChar (n % 10)] := by
  rw [decimal, @decimalFuel_eq n (n + 1) n (Nat.le_refl n) (Nat.le_succ n), decimalFuel,
    if_neg (Nat.not_lt.mpr h),
    @decimalFuel_eq n (n / 10) (n / 10) (Nat.div_le_self n 10) (Nat.le_refl _), decimal]

theorem decimal_three {n : Nat} (hLow : 100 ≤ n) (hHigh : n ≤ 999) :
    decimal n = [digitChar (n / 10 / 10), digitChar (n / 10 % 10), digitChar (n % 10)] := by
  rw [decimal_of_ge (by omega), decimal_of_ge (by omega), decimal_of_lt (by omega)]
  rfl

theorem length_decimal_of_lt (k : Nat) : ∀ {n : Nat}, n < 10 ^ (k + 1) → (decimal n).length ≤ k + 1 := by
  induction k with
  | zero =>
    intro n h
    rw [decimal_of_lt h]
    exact Nat.le_refl 1
  | succ k ih =>
    intro n h
    rcases Nat.lt_or_ge n 10 with hOne | hMore
    · rw [decimal_of_lt hOne]
      exact Nat.le_add_left 1 _
    · rw [decimal_of_ge hMore, List.length_append]
      exact Nat.succ_le_succ (ih (Nat.div_lt_of_lt_mul (by rw [Nat.mul_comm, ← Nat.pow_succ]; exact h)))

theorem length_decimal_le {n : Nat} (h : n ≤ 999) : (decimal n).length ≤ 3 :=
  length_decimal_of_lt 2 (Nat.lt_succ_of_le h)

theorem svDigits_isdigit {s : Bytes} : ∀ {n m : Int}, svDigits s n = some m → ∀ b ∈ s, isdigit b = true := by
  induction s with
  | nil =>
    intro n m _ b hb
    cases hb
  | cons c cs ih =>
    intro n m h b hb
    rw [svDigits] at h
    split at h
    · rename_i hDigit
      dsimp only at h
      split at h
      · cases h
      · obtain rfl | hb := List.mem_cons.mp hb
        · exact hDigit
        · exact ih h b hb
    · cases h

theorem svDigits_nonneg {s : Bytes} : ∀ {n m : Int}, svDigits s n = some m → 0 ≤ n → 0 ≤ m := by
  induction s with
  | nil =>
    intro n m h hn
    cases h
    exact hn
  | cons c cs ih =>
    intro n m h hn
    rw [svDigits] at h
    split at h
    · rename_i hDigit
      dsimp only at h
      split at h
      · cases h
      · refine ih h ?_
        have hLow := ((isdigit_iff c).mp hDigit).1
        omega
    · cases h

theorem svDigits_le {s : Bytes} : ∀ {n m : Int}, svDigits s n = some m → n ≤ llongMax → m ≤ llongMax := by
  induction s with
  | nil =>
    intro n m h hn
    cases h
    exact hn
  | cons c cs ih =>
    intro n m h hn
    rw [svDigits] at h
    split at h
    · dsimp only at h
      split at h
      · cases h
      · exact ih h (by omega)
    · cases h

theorem svToI64_le {v : Bytes} {n : Int} (h : svToI64 v = some n) : n ≤ llongMax := by
  have hMax : llongMax = 9223372036854775807 := rfl
  unfold svToI64 at h
  split at h
  · cases h
  · cases h
  · next digits _ =>
    obtain ⟨m, hDigits, rfl⟩ := Option.map_eq_some_iff.mp h
    have hm := svDigits_nonneg hDigits (Int.le_refl 0)
    omega
  · exact svDigits_le h (by decide)

theorem svDigits_append (xs ys : Bytes) (n : Int) :
    svDigits (xs ++ ys) n = (svDigits xs n).bind (svDigits ys) := by
  induction xs generalizing n with
  | nil => rfl
  | cons c xs ih =>
    simp only [List.cons_append, svDigits]
    split
    · split
      · rfl
      · exact ih _
    · rfl

theorem svDigits_digitChar {d : Nat} (h : d < 10) (n : Nat) :
    svDigits [digitChar d] n = if ((n * 10 + d : Nat) : Int) ≤ llongMax then some ((n * 10 + d : Nat) : Int)
      else none := by
  have hMax : llongMax = 9223372036854775807 := rfl
  simp only [svDigits, isdigit_digitChar h, digitChar_toNat h, if_true]
  by_cases hFits : ((n * 10 + d : Nat) : Int) ≤ llongMax
  · rw [if_pos hFits, if_neg (by omega)]
    congr 1
    omega
  · rw [if_neg hFits, if_pos (by omega)]

theorem svDigits_decimalFuel (fuel n : Nat) (h : n ≤ fuel) (hFits : (n : Int) ≤ llongMax) :
    svDigits (decimalFuel fuel n) 0 = some (n : Int) := by
  induction fuel generalizing n with
  | zero =>
    obtain rfl : n = 0 := by omega
    rfl
  | succ fuel ih =>
    rw [decimalFuel]
    split
    · rename_i hSmall
      have hDigit := svDigits_digitChar hSmall 0
      simp only [Nat.zero_mul, Nat.zero_add, if_pos hFits] at hDigit
      exact hDigit
    · rw [svDigits_append, ih (n / 10) (by omega) (by simp only [llongMax] at hFits ⊢; omega)]
      have hDigit := svDigits_digitChar (Nat.mod_lt n (by decide : 0 < 10)) (n / 10)
      have hValue : n / 10 * 10 + n % 10 = n := by omega
      rw [hValue, if_pos hFits] at hDigit
      exact hDigit

theorem svDigits_decimalFuel_none (fuel n : Nat) (h : n ≤ fuel) (hLarge : llongMax < (n : Int)) :
    svDigits (decimalFuel fuel n) 0 = none := by
  induction fuel generalizing n with
  | zero =>
    obtain rfl : n = 0 := by omega
    exact absurd hLarge (by decide)
  | succ fuel ih =>
    rw [decimalFuel]
    have hBig : ¬ n < 10 := by
      simp only [llongMax] at hLarge
      omega
    rw [if_neg hBig, svDigits_append]
    by_cases hRest : ((n / 10 : Nat) : Int) ≤ llongMax
    · rw [svDigits_decimalFuel fuel (n / 10) (by omega) hRest]
      have hDigit := svDigits_digitChar (Nat.mod_lt n (by decide : 0 < 10)) (n / 10)
      have hValue : n / 10 * 10 + n % 10 = n := by omega
      rw [hValue, if_neg (by omega)] at hDigit
      exact hDigit
    · rw [ih (n / 10) (by omega) (by omega)]
      rfl

theorem decimalFuel_isdigit (fuel n : Nat) : ∀ b ∈ decimalFuel fuel n, isdigit b = true := by
  induction fuel generalizing n with
  | zero =>
    intro b hb
    obtain rfl := List.mem_singleton.mp hb
    exact isdigit_digitChar (Nat.mod_lt n (by decide))
  | succ fuel ih =>
    intro b hb
    rw [decimalFuel] at hb
    split at hb
    · rename_i hSmall
      obtain rfl := List.mem_singleton.mp hb
      exact isdigit_digitChar hSmall
    · rcases List.mem_append.mp hb with hb | hb
      · exact ih (n / 10) b hb
      · obtain rfl := List.mem_singleton.mp hb
        exact isdigit_digitChar (Nat.mod_lt n (by decide))

theorem decimalFuel_ne_nil (fuel n : Nat) : decimalFuel fuel n ≠ [] := by
  cases fuel with
  | zero => simp [decimalFuel]
  | succ fuel =>
    rw [decimalFuel]
    split <;> simp

/-- The number that digits make behind another one. -/
def digitsFrom (n : Nat) (digits : Bytes) : Nat := digits.foldl (fun n c => n * 10 + (c.toNat - 48)) n

def numberOf (digits : Bytes) : Nat := digitsFrom 0 digits

theorem numberOf_concat (digits : Bytes) {d : Nat} (h : d < 10) :
    numberOf (digits ++ [digitChar d]) = numberOf digits * 10 + d := by
  rw [numberOf, digitsFrom, List.foldl_append, List.foldl_cons, List.foldl_nil, digitChar_toNat h,
    Nat.add_sub_cancel_left]
  rfl

theorem numberOf_decimal (n : Nat) : numberOf (decimal n) = n := by
  induction n using Nat.strongRecOn with
  | ind n ih =>
    by_cases hSmall : n < 10
    · have hOne := numberOf_concat [] hSmall
      rw [decimal_of_lt hSmall]
      exact hOne.trans (Nat.zero_add n)
    · rw [decimal_of_ge (not_lt.mp hSmall), numberOf_concat _ (Nat.mod_lt n (by decide)),
        ih (n / 10) (by omega)]
      omega

theorem decimal_head_ne {n : Nat} (rest : Bytes) : decimal n ≠ 45 :: rest := by
  intro hEq
  have hDigit := decimalFuel_isdigit n n 45 (by rw [← decimal, hEq]; exact List.mem_cons_self)
  exact absurd hDigit (by decide)

theorem decimal_injective {m n : Nat} (h : decimal m = decimal n) : m = n := by
  rw [← numberOf_decimal m, h, numberOf_decimal]

theorem decimalInt_injective {m n : Int} (h : decimalInt m = decimalInt n) : m = n := by
  cases m with
  | ofNat m =>
    cases n with
    | ofNat n => rw [decimal_injective h]
    | negSucc n => exact absurd h (decimal_head_ne _)
  | negSucc m =>
    cases n with
    | ofNat n => exact absurd h.symm (decimal_head_ne _)
    | negSucc n => rw [Nat.succ.inj (decimal_injective (List.cons.inj h).2)]

/-- Printing a 64-bit integer and parsing it back is exact, but for the least
one, whose magnitude does not fit and which is rejected. -/
theorem svToI64_decimalInt (n : Int) (h : -2 ^ 63 ≤ n) (hMax : n ≤ llongMax) :
    svToI64 (decimalInt n) = if n = -2 ^ 63 then none else some n := by
  cases n with
  | ofNat n =>
    have hDigits := svDigits_decimalFuel n n le_rfl hMax
    rw [if_neg (by simp only [Int.ofNat_eq_natCast]; omega)]
    change svToI64 (decimal n) = _
    rw [svToI64.eq_def]
    split
    · rename_i hNil
      exact absurd hNil (decimalFuel_ne_nil n n)
    · rename_i hEq
      exact absurd hEq (decimal_head_ne _)
    · rename_i hEq
      exact absurd hEq (decimal_head_ne _)
    · exact hDigits
  | negSucc n =>
    change svToI64 (45 :: decimal (n + 1)) = _
    obtain ⟨d, ds, hDecimal⟩ := List.exists_cons_of_ne_nil (decimalFuel_ne_nil (n + 1) (n + 1))
    have hParse : svToI64 (45 :: d :: ds) = (svDigits (d :: ds) 0).map fun n => -n := rfl
    rw [decimal, hDecimal, hParse, ← hDecimal]
    split
    · rename_i hLeast
      rw [svDigits_decimalFuel_none _ _ le_rfl (by simp only [llongMax]; omega)]
      rfl
    · rename_i hOther
      rw [svDigits_decimalFuel _ _ le_rfl (by simp only [llongMax]; omega)]
      rfl

/-! ## Trimming -/

theorem isspace_of_isdigit {b : UInt8} (h : isdigit b = true) : isspace b = false := by
  have hLow := ((isdigit_iff b).mp h).1
  rw [isspace, Bool.or_eq_false_iff, Bool.and_eq_false_iff]
  refine ⟨?_, .inr ?_⟩
  · rw [beq_eq_false_iff_ne]
    rintro rfl
    exact absurd hLow (by decide)
  · rw [decide_eq_false_iff_not, UInt8.le_iff_toNat_le]
    change ¬ b.toNat ≤ 13
    omega

theorem svTrimRight_append_blank {w : Bytes} (hw : ∀ b ∈ w, isspace b = true) (s : Bytes) :
    svTrimRight (s ++ w) = svTrimRight s := by
  rw [svTrimRight, svTrimRight, List.rdropWhile, List.rdropWhile, List.reverse_append,
    List.dropWhile_append_of_pos fun b hb => hw b (List.mem_reverse.mp hb)]

theorem svTrim_append_blank {w : Bytes} (hw : ∀ b ∈ w, isspace b = true) (s : Bytes) :
    svTrim (s ++ w) = svTrim s := by
  rw [svTrim, svTrim, svTrimLeft, svTrimLeft, List.dropWhile_append]
  split
  · next hAll =>
    have hNil : w.dropWhile isspace = [] := List.dropWhile_eq_nil_iff.mpr hw
    rw [List.isEmpty_iff.mp hAll, hNil]
  · exact svTrimRight_append_blank hw _

theorem svTrim_blank_append {w : Bytes} (hw : ∀ b ∈ w, isspace b = true) (s : Bytes) :
    svTrim (w ++ s) = svTrim s := by
  rw [svTrim, svTrim, svTrimLeft, svTrimLeft, List.dropWhile_append_of_pos hw]

theorem svTrimRight_append {z : Bytes} (hz : ¬∀ b ∈ z, isspace b = true) (s : Bytes) :
    svTrimRight (s ++ z) = s ++ svTrimRight z := by
  rw [svTrimRight, svTrimRight, List.rdropWhile, List.rdropWhile, List.reverse_append,
    List.dropWhile_append, if_neg]
  · rw [List.reverse_append, List.reverse_reverse]
  · intro hAll
    refine hz fun b hb => ?_
    exact List.dropWhile_eq_nil_iff.mp (List.isEmpty_iff.mp hAll) b (List.mem_reverse.mpr hb)

theorem svTrim_eq_self {s : Bytes} (hHead : ∀ b ∈ s.head?, isspace b = false)
    (hLast : ∀ b ∈ s.getLast?, isspace b = false) :
    svTrim s = s := by
  have hLeft : svTrimLeft s = s := by
    cases s with
    | nil => rfl
    | cons b s => exact List.dropWhile_cons_of_neg (by rw [hHead b rfl]; exact Bool.false_ne_true)
  rw [svTrim, hLeft]
  refine List.rdropWhile_eq_self_iff.mpr fun hSome => ?_
  rw [hLast _ (List.getLast?_eq_some_getLast hSome)]
  exact Bool.false_ne_true

theorem svTrim_ends (s : Bytes) : (∀ b ∈ (svTrim s).head?, isspace b = false) ∧
    ∀ b ∈ (svTrim s).getLast?, isspace b = false := by
  constructor
  · intro b hb
    obtain ⟨rest, hRest⟩ := List.rdropWhile_prefix isspace (svTrimLeft s)
    have hLeft : (svTrimLeft s).head? = some b := by
      rw [← hRest, List.head?_append, ← svTrimRight, ← svTrim, hb, Option.some_or]
    have hNot := List.head?_dropWhile_not isspace s
    rw [← svTrimLeft, hLeft] at hNot
    exact hNot
  · intro b hb
    have hSome : svTrim s ≠ [] := by
      intro hNil
      rw [hNil] at hb
      cases hb
    have hNot := List.rdropWhile_last_not isspace (svTrimLeft s) hSome
    rw [List.getLast?_eq_some_getLast hSome] at hb
    obtain rfl := Option.some.inj hb
    exact Bool.eq_false_iff.mpr hNot

theorem svTrim_eq_self_iff (s : Bytes) :
    svTrim s = s ↔ (∀ b ∈ s.head?, isspace b = false) ∧ ∀ b ∈ s.getLast?, isspace b = false := by
  constructor
  · intro hEq
    rw [← hEq]
    exact svTrim_ends s
  · rintro ⟨hHead, hLast⟩
    exact svTrim_eq_self hHead hLast

theorem svTrim_solid {s : Bytes} (h : ∀ b ∈ s, isspace b = false) : svTrim s = s :=
  svTrim_eq_self (fun b hb => h b (List.mem_of_mem_head? hb)) fun b hb => h b (List.mem_of_getLast? hb)

theorem svTrim_blank (s : Bytes) : svTrim (32 :: s) = svTrim s :=
  @svTrim_blank_append [32] (List.forall_mem_singleton.mpr rfl) s

theorem svTrim_cr (s : Bytes) : svTrim (s ++ [13]) = svTrim s :=
  @svTrim_append_blank [13] (List.forall_mem_singleton.mpr rfl) s

theorem svTrim_subset {b : UInt8} {s : Bytes} (h : b ∈ svTrim s) : b ∈ s := by
  have hLeft : b ∈ svTrimLeft s := (List.rdropWhile_prefix isspace _).subset h
  exact (List.dropWhile_suffix isspace).subset hLeft

/-! ## Chopping -/

@[simp]
theorem svChopByDelim_nil (delim : UInt8) : svChopByDelim delim [] = ([], []) := rfl

theorem svChopByDelim_append (delim : UInt8) (line rest : Bytes) (h : delim ∉ line) :
    svChopByDelim delim (line ++ delim :: rest) = (line, rest) := by
  induction line with
  | nil => simp [svChopByDelim]
  | cons b line ih =>
    have hb : b ≠ delim := fun hEq => h (hEq ▸ List.mem_cons_self)
    have hLine : delim ∉ line := fun hMem => h (List.mem_cons_of_mem _ hMem)
    rw [List.cons_append, svChopByDelim, if_neg hb, ih hLine]

theorem svChopByDelim_not_mem (delim : UInt8) (sv : Bytes) : delim ∉ (svChopByDelim delim sv).1 := by
  induction sv with
  | nil => simp
  | cons b sv ih =>
    rw [svChopByDelim]
    split
    · simp
    · rename_i hb
      rw [List.mem_cons]
      rintro (hEq | hMem)
      · exact hb hEq.symm
      · exact ih hMem

theorem not_mem_decimalInt {b : UInt8} (hDigit : isdigit b = false) (hMinus : b ≠ 45) (n : Int) :
    b ∉ decimalInt n := by
  intro h
  cases n with
  | ofNat n => exact absurd (decimalFuel_isdigit _ _ b h) (by simp [hDigit])
  | negSucc n =>
    rcases List.mem_cons.mp h with h | h
    · exact hMinus h
    · exact absurd (decimalFuel_isdigit _ _ b h) (by simp [hDigit])

theorem svChopByDelim_subset (delim : UInt8) (sv : Bytes) :
    (∀ b ∈ (svChopByDelim delim sv).1, b ∈ sv) ∧ ∀ b ∈ (svChopByDelim delim sv).2, b ∈ sv := by
  induction sv with
  | nil => simp
  | cons c sv ih =>
    rw [svChopByDelim]
    split
    · exact ⟨by simp, fun b hb => List.mem_cons_of_mem _ hb⟩
    · refine ⟨?_, fun b hb => List.mem_cons_of_mem _ (ih.2 b hb)⟩
      intro b hb
      rcases List.mem_cons.mp hb with rfl | hb
      · exact List.mem_cons_self
      · exact List.mem_cons_of_mem _ (ih.1 b hb)

theorem svChopByDelim_length (delim : UInt8) (b : UInt8) (sv : Bytes) :
    (svChopByDelim delim (b :: sv)).2.length ≤ sv.length := by
  induction sv generalizing b with
  | nil => rw [svChopByDelim]; split <;> simp
  | cons c sv ih =>
    rw [svChopByDelim]
    split
    · simp
    · exact (ih c).trans (by simp)

theorem svChopByDelim_cases (delim : UInt8) (s : Bytes) :
    delim ∉ s ∧ svChopByDelim delim s = (s, []) ∨
      ∃ piece rest, s = piece ++ delim :: rest ∧ delim ∉ piece ∧ svChopByDelim delim s = (piece, rest) := by
  induction s with
  | nil => exact .inl ⟨List.not_mem_nil, rfl⟩
  | cons b s ih =>
    rw [svChopByDelim]
    by_cases hDelim : b = delim
    · rw [if_pos hDelim]
      exact .inr ⟨[], s, by rw [hDelim, List.nil_append], List.not_mem_nil, rfl⟩
    · rw [if_neg hDelim]
      obtain ⟨hNone, hChop⟩ | ⟨piece, rest, hSplit, hNone, hChop⟩ := ih
      · refine .inl ⟨?_, by rw [hChop]⟩
        rw [List.mem_cons, not_or]
        exact ⟨Ne.symm hDelim, hNone⟩
      · refine .inr ⟨b :: piece, rest, by rw [hSplit, List.cons_append], ?_, by rw [hChop]⟩
        rw [List.mem_cons, not_or]
        exact ⟨Ne.symm hDelim, hNone⟩

/-! ## Chopping until nothing is left -/

theorem svPieces_fuel (delim : UInt8) (fuel : Nat) : ∀ s : Bytes, s.length ≤ fuel →
    svPieces delim fuel s = svSplit delim s := by
  have hAny : ∀ (fuel fuel' : Nat) (s : Bytes), s.length ≤ fuel → s.length ≤ fuel' →
      svPieces delim fuel s = svPieces delim fuel' s := by
    intro fuel
    induction fuel with
    | zero =>
      intro fuel' s h _
      obtain rfl := List.length_eq_zero_iff.mp (Nat.le_zero.mp h)
      cases fuel' with
      | zero => rfl
      | succ fuel' => rfl
    | succ fuel ih =>
      intro fuel' s h h'
      cases s with
      | nil =>
        cases fuel' with
        | zero => rfl
        | succ fuel' => rfl
      | cons b s =>
        cases fuel' with
        | zero => exact absurd h' (by simp)
        | succ fuel' =>
          have hLess := svChopByDelim_length delim b s
          rw [List.length_cons] at h h'
          rw [svPieces, svPieces, if_neg (List.cons_ne_nil b s), if_neg (List.cons_ne_nil b s),
            ih fuel' _ (by omega) (by omega)]
  exact fun s h => hAny fuel s.length s h (Nat.le_refl _)

theorem svSplit_line {delim : UInt8} {line : Bytes} (h : delim ∉ line) (rest : Bytes) :
    svSplit delim (line ++ delim :: rest) = line :: svSplit delim rest := by
  have hLength : (line ++ delim :: rest).length = (line.length + rest.length) + 1 := by
    rw [List.length_append, List.length_cons]
    omega
  have hSome : line ++ delim :: rest ≠ [] := by simp
  rw [svSplit, hLength, svPieces, if_neg hSome, svChopByDelim_append delim line rest h]
  rw [svPieces_fuel delim _ rest (by omega)]

theorem svSplit_last {delim : UInt8} {line : Bytes} (h : delim ∉ line) (hSome : line ≠ []) :
    svSplit delim line = [line] := by
  obtain ⟨_, hChop⟩ | ⟨piece, rest, hSplit, _⟩ := svChopByDelim_cases delim line
  · rw [svSplit]
    cases line with
    | nil => exact absurd rfl hSome
    | cons b line =>
      rw [List.length_cons, svPieces, if_neg hSome, hChop]
      cases hLine : line.length with
      | zero => rfl
      | succ n => rfl
  · exact absurd (hSplit ▸ List.mem_append_right _ List.mem_cons_self) h

/-- The pieces of two texts with a delimiter between them. An empty piece ends a
text that is empty or ends in a delimiter. -/
theorem svSplit_cut {delim : UInt8} (n : Nat) : ∀ {s : Bytes}, s.length ≤ n → ∀ rest,
    ∃ empty : List Bytes, svSplit delim (s ++ delim :: rest) = svSplit delim s ++ empty ++
      svSplit delim rest ∧
      ((s = [] ∨ s.getLast? = some delim) ∧ empty = [[]] ∨ ¬ (s = [] ∨ s.getLast? = some delim) ∧
        empty = []) := by
  induction n with
  | zero =>
    intro s hLength rest
    obtain rfl := List.length_eq_zero_iff.mp (Nat.le_zero.mp hLength)
    exact ⟨[[]], svSplit_line List.not_mem_nil rest, .inl ⟨.inl rfl, rfl⟩⟩
  | succ n ih =>
    intro s hLength rest
    obtain ⟨hNone, _⟩ | ⟨piece, tail, rfl, hPiece, _⟩ := svChopByDelim_cases delim s
    · by_cases hSome : s = []
      · subst hSome
        exact ⟨[[]], svSplit_line List.not_mem_nil rest, .inl ⟨.inl rfl, rfl⟩⟩
      · refine ⟨[], ?_, .inr ⟨?_, rfl⟩⟩
        · rw [svSplit_line hNone, svSplit_last hNone hSome]
          rfl
        · rintro (hNil | hLast)
          · exact hSome hNil
          · exact hNone (List.mem_of_getLast? hLast)
    · rw [List.length_append, List.length_cons] at hLength
      obtain ⟨empty, hSplit, hEnds⟩ := ih (s := tail) (by omega) rest
      refine ⟨empty, ?_, ?_⟩
      · rw [List.append_assoc, List.cons_append, svSplit_line hPiece, svSplit_line hPiece, hSplit]
        rfl
      · have hSame : (piece ++ delim :: tail = [] ∨ (piece ++ delim :: tail).getLast? = some delim) ↔
            tail = [] ∨ tail.getLast? = some delim := by
          rw [List.getLast?_append, List.getLast?_cons]
          cases tail with
          | nil => simp
          | cons b tail =>
            rw [List.getLast?_eq_some_getLast (List.cons_ne_nil b tail)]
            simp
        rw [hSame]
        exact hEnds

theorem not_mem_svPieces (delim : UInt8) (fuel : Nat) : ∀ s : Bytes, ∀ piece ∈ svPieces delim fuel s,
    delim ∉ piece := by
  induction fuel with
  | zero =>
    intro s piece h
    cases h
  | succ fuel ih =>
    intro s piece h
    rw [svPieces] at h
    split at h
    · cases h
    · rcases List.mem_cons.mp h with rfl | hRest
      · exact svChopByDelim_not_mem delim s
      · exact ih _ piece hRest

theorem not_mem_svSplit {delim : UInt8} {s piece : Bytes} (h : piece ∈ svSplit delim s) : delim ∉ piece :=
  not_mem_svPieces delim s.length s piece h

theorem svPieces_subset (delim : UInt8) (fuel : Nat) : ∀ s : Bytes, ∀ piece ∈ svPieces delim fuel s,
    ∀ b ∈ piece, b ∈ s := by
  induction fuel with
  | zero =>
    intro s piece h
    cases h
  | succ fuel ih =>
    intro s piece h b hb
    rw [svPieces] at h
    split at h
    · cases h
    · rcases List.mem_cons.mp h with rfl | hRest
      · exact (svChopByDelim_subset delim s).1 b hb
      · exact (svChopByDelim_subset delim s).2 b (ih _ piece hRest b hb)

theorem svSplit_subset {delim : UInt8} {s piece : Bytes} (h : piece ∈ svSplit delim s) {b : UInt8}
    (hb : b ∈ piece) : b ∈ s :=
  svPieces_subset delim s.length s piece h b hb

theorem svSplit_text {delim : UInt8} {pieces : List Bytes} (hNone : ∀ piece ∈ pieces, delim ∉ piece)
    (hSome : ∀ piece ∈ pieces, piece ≠ []) :
    svSplit delim (Segments.text delim pieces) = pieces := by
  induction pieces with
  | nil => rfl
  | cons piece pieces ih =>
    have hRest := ih (fun q hq => hNone q (List.mem_cons_of_mem _ hq)) fun q hq =>
      hSome q (List.mem_cons_of_mem _ hq)
    have hFirst := hNone piece List.mem_cons_self
    cases pieces with
    | nil => rw [Segments.text_singleton, svSplit_last hFirst (hSome piece List.mem_cons_self)]
    | cons next pieces => rw [Segments.text_cons (List.cons_ne_nil _ _), svSplit_line hFirst, hRest]

end Sv

end Cweb
