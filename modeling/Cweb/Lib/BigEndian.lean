import Mathlib.Algebra.Order.Group.Nat
import Mathlib.Tactic.Ring

/-!
# Big-endian numbers

The octets of a number with the highest first, and the number that octets denote.
A number that needs more octets than there are loses its highest ones.
-/

namespace BigEndian

def bytes : Nat → Nat → List UInt8
  | 0, _ => []
  | n + 1, v => bytes n (v / 256) ++ [UInt8.ofNat v]

/-- The octets as a number, behind the octets of `n`. -/
def valueFrom (n : Nat) (s : List UInt8) : Nat := s.foldl (fun n b => n * 256 + b.toNat) n

def value (s : List UInt8) : Nat := valueFrom 0 s

@[simp]
theorem length_bytes (n v : Nat) : (bytes n v).length = n := by
  induction n generalizing v with
  | zero => rfl
  | succ n ih => simp [bytes, ih]

@[simp]
theorem value_concat (s : List UInt8) (b : UInt8) : value (s ++ [b]) = value s * 256 + b.toNat := by
  simp [value, valueFrom]

theorem bytes_first (n v : Nat) : bytes (n + 1) v = UInt8.ofNat (v / 256 ^ n) :: bytes n v := by
  induction n generalizing v with
  | zero => simp [bytes]
  | succ n ih =>
    rw [bytes, ih, Nat.div_div_eq_div_mul, ← Nat.pow_succ', List.cons_append]
    rfl

theorem value_bytes (n v : Nat) : value (bytes n v) = v % 256 ^ n := by
  induction n generalizing v with
  | zero => simp [bytes, value, valueFrom, Nat.mod_one]
  | succ n ih =>
    have hByte : (UInt8.ofNat v).toNat = v % 256 := UInt8.toNat_ofNat
    rw [bytes, value_concat, ih, hByte, Nat.pow_succ', Nat.mod_mul]
    omega

theorem valueFrom_eq (n : Nat) (s : List UInt8) : valueFrom n s = n * 256 ^ s.length + value s := by
  induction s generalizing n with
  | nil => simp [value, valueFrom]
  | cons b s ih =>
    have hFirst : ∀ m, valueFrom m (b :: s) = valueFrom (m * 256 + b.toNat) s := fun _ => rfl
    rw [value, hFirst, hFirst, ih, ih (0 * 256 + b.toNat), List.length_cons]
    ring

theorem value_cons (b : UInt8) (s : List UInt8) : value (b :: s) = b.toNat * 256 ^ s.length + value s := by
  rw [← valueFrom_eq]
  simp [value, valueFrom]

theorem value_lt (s : List UInt8) : value s < 256 ^ s.length := by
  induction s with
  | nil => simp [value, valueFrom]
  | cons b s ih =>
    have hByte : b.toNat + 1 ≤ 256 := b.toNat_lt
    calc value (b :: s) = b.toNat * 256 ^ s.length + value s := value_cons b s
      _ < (b.toNat + 1) * 256 ^ s.length := by rw [Nat.add_mul, Nat.one_mul]; omega
      _ ≤ 256 * 256 ^ s.length := Nat.mul_le_mul_right _ hByte
      _ = 256 ^ (b :: s).length := by rw [List.length_cons, Nat.pow_succ']

theorem two_mul_value_lt {b : UInt8} (hb : b.toNat < 128) (s : List UInt8) :
    2 * value (b :: s) < 256 ^ (s.length + 1) := by
  have hRest := value_lt s
  have hFirst : b.toNat * 256 ^ s.length ≤ 127 * 256 ^ s.length := Nat.mul_le_mul_right _ (by omega)
  rw [value_cons, Nat.pow_succ']
  omega

/-! ## The first bits -/

theorem value_append (s t : List UInt8) : value (s ++ t) = value s * 256 ^ t.length + value t := by
  rw [← valueFrom_eq, value, valueFrom, List.foldl_append]
  rfl

theorem eq_of_mul_add_eq {m a b x y : Nat} (hx : x < m) (hy : y < m) (h : a * m + x = b * m + y) :
    a = b ∧ x = y := by
  have hPos : 0 < m := Nat.zero_lt_of_lt hx
  have hFirst := congrArg (· / m) h
  simp only [Nat.mul_comm _ m, Nat.mul_add_div hPos, Nat.div_eq_of_lt hx, Nat.div_eq_of_lt hy,
    Nat.add_zero] at hFirst
  subst hFirst
  exact ⟨rfl, Nat.add_left_cancel h⟩

theorem value_injective : ∀ {s t : List UInt8}, s.length = t.length → value s = value t → s = t := by
  intro s
  induction s with
  | nil =>
    intro t hLength _
    exact (List.length_eq_zero_iff.mp hLength.symm).symm
  | cons b s ih =>
    intro t hLength hValue
    cases t with
    | nil => cases hLength
    | cons c t =>
      have hRest : s.length = t.length := Nat.succ.inj hLength
      rw [value_cons, value_cons, hRest] at hValue
      obtain ⟨hFirst, hBehind⟩ := eq_of_mul_add_eq (hRest ▸ value_lt s) (value_lt t) hValue
      rw [UInt8.toNat_inj.mp hFirst, ih hRest hBehind]

/-- The first bits of the number that octets denote, as a number. -/
def top (bits : Nat) (s : List UInt8) : Nat := value s / 2 ^ (8 * s.length - bits)

theorem two_pow_eight_mul (n : Nat) : 2 ^ (8 * n) = 256 ^ n := Nat.pow_mul 2 8 n

theorem top_whole (k : Nat) (s : List UInt8) : top (8 * k) s = value (s.take k) := by
  have hValue := value_append (s.take k) (s.drop k)
  have hRest := value_lt (s.drop k)
  rw [List.take_append_drop] at hValue
  rw [List.length_drop] at hValue hRest
  rw [top, ← Nat.mul_sub, two_pow_eight_mul, hValue, Nat.mul_comm,
    Nat.mul_add_div (Nat.pow_pos (by decide)), Nat.div_eq_of_lt hRest,
    Nat.add_zero]

theorem top_part {k rem : Nat} {s : List UInt8} (h : k < s.length) (hRem : rem ≤ 8) :
    top (8 * k + rem) s = value (s.take k) * 2 ^ rem + s[k].toNat / 2 ^ (8 - rem) := by
  have hNext := top_whole (k + 1) s
  have hSplit : 8 * s.length - (8 * k + rem) = 8 * s.length - 8 * (k + 1) + (8 - rem) := by omega
  have hByte : 256 = 2 ^ (8 - rem) * 2 ^ rem := by rw [← Nat.pow_add, Nat.sub_add_cancel hRem]
  rw [top] at hNext
  rw [top, hSplit, Nat.pow_add, ← Nat.div_div_eq_div_mul, hNext, List.take_succ_eq_append_getElem h,
    value_concat, hByte,
    Nat.mul_comm, Nat.mul_assoc, Nat.mul_add_div (Nat.pow_pos (by decide)), Nat.mul_comm]

theorem top_eq_iff {k rem : Nat} {s t : List UInt8} (hs : k < s.length) (ht : k < t.length) (hRem : rem ≤ 8) :
    top (8 * k + rem) s = top (8 * k + rem) t ↔
      s.take k = t.take k ∧ s[k].toNat / 2 ^ (8 - rem) = t[k].toNat / 2 ^ (8 - rem) := by
  have hSmall : ∀ b : UInt8, b.toNat / 2 ^ (8 - rem) < 2 ^ rem := by
    intro b
    rw [Nat.div_lt_iff_lt_mul (Nat.pow_pos (by decide)), ← Nat.pow_add, Nat.add_sub_cancel' hRem]
    exact b.toNat_lt
  rw [top_part hs hRem, top_part ht hRem]
  constructor
  · intro hEq
    obtain ⟨hWhole, hPart⟩ := eq_of_mul_add_eq (hSmall s[k]) (hSmall t[k]) hEq
    exact ⟨value_injective (by rw [List.length_take_of_le hs.le, List.length_take_of_le ht.le]) hWhole, hPart⟩
  · rintro ⟨hWhole, hPart⟩
    rw [hWhole, hPart]

end BigEndian
