import Cweb.Utils.Sv

/-!
# Integers in a view

`sv_to_i64` computes in `long long`. Its arithmetic is modelled twice: over the
integers, and with every result checked for the range of the type, where a
result outside of it is no value at all.
-/

namespace Cweb

namespace Sv

/-- The result of an operation on `long long`, when it has one. -/
def llong (n : Int) : Option Int := if -2 ^ 63 ≤ n ∧ n ≤ llongMax then some n else none

/-- The digit loop, with its operations in `long long`. -/
def svDigitsChecked : Bytes → Int → Option (Option Int)
  | [], n => some (some n)
  | c :: cs, n =>
    if isdigit c then
      (llong (c.toNat - 48)).bind fun d =>
      (llong (llongMax - d)).bind fun room =>
      if room.tdiv 10 < n then some none
      else
        (llong (n * 10)).bind fun shifted =>
        (llong (shifted + d)).bind fun next => svDigitsChecked cs next
    else some none

/-- `none`: some operation overflows; `some none`: the function returns false. -/
def svToI64Checked (sv : Bytes) : Option (Option Int) :=
  match sv with
  | [] => some none
  | 45 :: [] => some none
  | 45 :: digits =>
    (svDigitsChecked digits 0).bind fun read =>
    match read with
    | none => some none
    | some n => (llong (-n)).map some
  | digits => svDigitsChecked digits 0

theorem llong_eq_some {n : Int} (hLow : -2 ^ 63 ≤ n) (hHigh : n ≤ llongMax) : llong n = some n :=
  if_pos ⟨hLow, hHigh⟩

theorem svDigitsChecked_eq (digits : Bytes) : ∀ {n : Int}, 0 ≤ n → n ≤ llongMax →
    svDigitsChecked digits n = some (svDigits digits n) := by
  have hMax : llongMax = 9223372036854775807 := rfl
  induction digits with
  | nil =>
    intro n _ _
    rfl
  | cons c digits ih =>
    intro n hLow hHigh
    rw [svDigitsChecked, svDigits]
    by_cases hDigit : isdigit c = true
    · obtain ⟨hFrom, hTo⟩ := (isdigit_iff c).mp hDigit
      have hRoom : 0 ≤ llongMax - ((c.toNat : Int) - 48) := by omega
      rw [if_pos hDigit, if_pos hDigit, llong_eq_some (by omega) (by omega), Option.bind_some,
        llong_eq_some (by omega) (by omega), Option.bind_some, Int.tdiv_eq_ediv_of_nonneg hRoom]
      dsimp only
      split
      · rfl
      · rw [llong_eq_some (by omega) (by omega), Option.bind_some, llong_eq_some (by omega) (by omega),
          Option.bind_some]
        apply ih <;> omega
    · rw [if_neg hDigit, if_neg hDigit]

theorem svToI64_minus {digits : Bytes} (hSome : digits ≠ []) :
    svToI64 (45 :: digits) = (svDigits digits 0).map fun n => -n := by
  obtain ⟨c, cs, rfl⟩ := List.exists_cons_of_ne_nil hSome
  rfl

theorem svToI64Checked_eq (sv : Bytes) : svToI64Checked sv = some (svToI64 sv) := by
  have hZero : (0 : Int) ≤ llongMax := by decide
  rw [svToI64Checked.eq_def]
  split
  · rfl
  · rfl
  · next digits hSome =>
    rw [svDigitsChecked_eq digits (Int.le_refl 0) hZero, Option.bind_some, svToI64_minus fun hNil =>
      hSome hNil]
    cases hRead : svDigits digits 0 with
    | none => rfl
    | some n =>
      have hMax : llongMax = 9223372036854775807 := rfl
      have hLow := svDigits_nonneg hRead (Int.le_refl 0)
      have hHigh := svDigits_le hRead hZero
      dsimp only
      rw [llong_eq_some (by omega) (by omega)]
      rfl
  · next hNil hMinus hOther =>
    rw [svDigitsChecked_eq sv (Int.le_refl 0) hZero, svToI64.eq_def]
    split
    · exact absurd rfl hNil
    · exact absurd rfl hMinus
    · next digits _ => exact absurd rfl (hOther digits)
    · rfl

/-! ## The number that is read -/

theorem le_digitsFrom (digits : Bytes) : ∀ n : Nat, n ≤ digitsFrom n digits := by
  induction digits with
  | nil => exact Nat.le_refl
  | cons c digits ih =>
    intro n
    calc
      n ≤ n * 10 + (c.toNat - 48) := by omega
      _ ≤ digitsFrom n (c :: digits) := ih _

theorem svDigits_digits {digits : Bytes} (hDigits : ∀ b ∈ digits, isdigit b = true) :
    ∀ {n : Nat}, (n : Int) ≤ llongMax →
    svDigits digits n = if ((digitsFrom n digits : Nat) : Int) ≤ llongMax then
      some ((digitsFrom n digits : Nat) : Int) else none := by
  have hMax : llongMax = 9223372036854775807 := rfl
  induction digits with
  | nil =>
    intro n hn
    exact (if_pos hn).symm
  | cons c digits ih =>
    intro n hn
    have hDigit := hDigits c List.mem_cons_self
    have hLow := ((isdigit_iff c).mp hDigit).1
    have hCons : digitsFrom n (c :: digits) = digitsFrom (n * 10 + (c.toNat - 48)) digits := rfl
    have hNext := le_digitsFrom digits (n * 10 + (c.toNat - 48))
    rw [svDigits, if_pos hDigit, hCons]
    dsimp only
    split
    · next hOver => rw [if_neg (by omega)]
    · next hFits =>
      have hSame : (n : Int) * 10 +
        ((c.toNat : Int) - 48) = ((n * 10 + (c.toNat - 48) : Nat) : Int) := by omega
      rw [hSame, ih (fun b hb => hDigits b (List.mem_cons_of_mem _ hb)) (by omega)]

theorem svDigits_numberOf {digits : Bytes} (hDigits : ∀ b ∈ digits, isdigit b = true) :
    svDigits digits 0 = if (numberOf digits : Int) ≤ llongMax then some (numberOf digits : Int) else none :=
  @svDigits_digits digits hDigits 0 (by decide)

theorem svToI64_numberOf {digits : Bytes} (hSome : digits ≠ []) (hDigits : ∀ b ∈ digits, isdigit b = true) :
    svToI64 digits = if (numberOf digits : Int) ≤ llongMax then some (numberOf digits : Int) else none := by
  unfold svToI64
  split
  · exact absurd rfl hSome
  · exact absurd (hDigits 45 List.mem_cons_self) (by decide)
  · exact absurd (hDigits 45 List.mem_cons_self) (by decide)
  · exact svDigits_numberOf hDigits

theorem svDigits_eq_some_iff (digits : Bytes) (v : Int) :
    svDigits digits 0 = some v ↔ (∀ b ∈ digits, isdigit b = true) ∧ (numberOf digits : Int) ≤ llongMax ∧
      v = numberOf digits := by
  constructor
  · intro hRead
    have hDigits := svDigits_isdigit hRead
    rw [svDigits_numberOf hDigits] at hRead
    split at hRead
    · next hFits => exact ⟨hDigits, hFits, (Option.some.inj hRead).symm⟩
    · cases hRead
  · rintro ⟨hDigits, hFits, rfl⟩
    rw [svDigits_numberOf hDigits, if_pos hFits]

/-- An optional minus sign, and digits that make a number. -/
def IntegerText (s : Bytes) (neg : Bool) (digits : Bytes) : Prop :=
  s = (if neg then [45] else []) ++ digits ∧ digits ≠ [] ∧ ∀ b ∈ digits, isdigit b = true

/-- `sv_to_i64` reads what fits by its magnitude, as the number it is, and none
of its operations overflows. -/
theorem svToI64_exact (s : Bytes) :
    svToI64Checked s = some (svToI64 s) ∧
      ∀ v : Int, svToI64 s = some v ↔ ∃ neg digits, IntegerText s neg digits ∧
        (numberOf digits : Int) ≤ 2 ^ 63 - 1 ∧ v = if neg then -(numberOf digits : Int)
          else numberOf digits := by
  refine ⟨svToI64Checked_eq s, fun v => ?_⟩
  constructor
  · intro hRead
    unfold svToI64 at hRead
    split at hRead
    · cases hRead
    · cases hRead
    · next digits hSome =>
      obtain ⟨n, hDigits, rfl⟩ := Option.map_eq_some_iff.mp hRead
      obtain ⟨hAll, hFits, rfl⟩ := (svDigits_eq_some_iff digits n).mp hDigits
      exact ⟨true, digits, ⟨rfl, fun hNil => hSome hNil, hAll⟩, hFits, rfl⟩
    · next hNil _ _ =>
      obtain ⟨hAll, hFits, rfl⟩ := (svDigits_eq_some_iff s v).mp hRead
      exact ⟨false, s, ⟨rfl, fun hEq => hNil hEq, hAll⟩, hFits, rfl⟩
  · rintro ⟨neg, digits, ⟨rfl, hSome, hAll⟩, hFits, rfl⟩
    cases neg with
    | false => exact (svToI64_numberOf hSome hAll).trans (if_pos hFits)
    | true =>
      rw [if_pos rfl, List.singleton_append, svToI64_minus hSome,
        (svDigits_eq_some_iff _ _).mpr ⟨hAll, hFits, rfl⟩]
      rfl

end Sv

end Cweb
