import Cweb.Lib.PrefixInteger
import Cweb.Http.HpackRead

/-!
# HPACK integers

Section 5.1 of RFC 7541. The multiplier of a group is a 64-bit number. At the
tenth group it is 2^63, and a group of two or more makes the product wrap.
-/

namespace Cweb.Hpack

open PrefixInteger (groupsValue Closed Encodes Begins)

/-! ## Products and sums -/

/-- A product or a sum of the run over the groups does not fit in 64 bits. The
shift of the multiplier is not among them: the code tests what is left of it. -/
def hpIntRestWraps : Nat → Nat → Bytes → Bool
  | _, _, [] => false
  | mult, out, b :: rest =>
    let add := (b.toNat % 128) * mult % 2 ^ 64
    decide (2 ^ 64 ≤ (b.toNat % 128) * mult) || decide (2 ^ 64 ≤ out + add) ||
      (decide (out + add < 2 ^ 32 ∧ 128 ≤ b.toNat ∧ mult * 128 % 2 ^ 64 ≠ 0) &&
        hpIntRestWraps (mult * 128 % 2 ^ 64) (out + add) rest)

def hpIntWraps (nbits : Nat) : Bytes → Bool
  | [] => false
  | b :: rest => decide (¬b.toNat % 2 ^ nbits < 2 ^ nbits - 1) && hpIntRestWraps 1 (2 ^ nbits - 1) rest

/-- The integer is read as it is encoded. -/
structure ReadsInteger (nbits : Nat) (bytes : Bytes) : Prop where
  reads : ∀ v rest, hpInt nbits bytes = some (v, rest) ↔
    ∃ enc, Encodes nbits enc v ∧ bytes = enc ++ rest ∧ enc.length ≤ 11 ∧ v < 2 ^ 32
  fits : hpIntWraps nbits bytes = false

/-- Behind `n` groups that are all continued, and a value that still fits,
comes a group of two or more. -/
def LateFrom (n mult out : Nat) (bytes : Bytes) : Prop :=
  ∃ groups last rest, bytes = groups ++ last :: rest ∧ groups.length = n ∧ (∀ c ∈ groups, 128 ≤ c.toNat) ∧
    out + mult * groupsValue groups < 2 ^ 32 ∧ 2 ≤ last.toNat % 128

/-- The tenth group is the one that the multiplier is too large for. -/
def LateGroup (nbits : Nat) (bytes : Bytes) : Prop :=
  ∃ b rest, bytes = b :: rest ∧ b.toNat % 2 ^ nbits = 2 ^ nbits - 1 ∧ LateFrom 9 1 (2 ^ nbits - 1) rest

/-! ## The groups -/

theorem not_lateFrom_nil {n mult out : Nat} : ¬LateFrom n mult out [] := by
  rintro ⟨groups, last, rest, hEq, -⟩
  exact List.cons_ne_nil _ _ (List.append_eq_nil_iff.mp hEq.symm).2

theorem lateFrom_zero {mult out : Nat} {b : UInt8} {bytes : Bytes} :
    LateFrom 0 mult out (b :: bytes) ↔ out < 2 ^ 32 ∧ 2 ≤ b.toNat % 128 := by
  constructor
  · rintro ⟨groups, last, rest, hEq, hLength, -, hFits, hLast⟩
    rw [List.length_eq_zero_iff.mp hLength] at hEq hFits
    obtain ⟨rfl, -⟩ := List.cons.inj hEq
    exact ⟨hFits, hLast⟩
  · rintro ⟨hFits, hLast⟩
    exact ⟨[], b, bytes, rfl, rfl, by simp, hFits, hLast⟩

theorem lateFrom_succ {n mult out : Nat} {b : UInt8} {bytes : Bytes} :
    LateFrom (n + 1) mult out (b :: bytes) ↔ 128 ≤ b.toNat ∧
      LateFrom n (mult * 128) (out + b.toNat % 128 * mult) bytes := by
  have hSum : ∀ groups, out + mult * groupsValue (b :: groups) = out + b.toNat % 128 * mult +
    mult * 128 * groupsValue groups := by
    intro groups
    rw [PrefixInteger.groupsValue_cons, Nat.mul_add, Nat.mul_assoc, Nat.mul_comm mult, Nat.add_assoc]
  constructor
  · rintro ⟨groups, last, rest, hEq, hLength, hMore, hFits, hLast⟩
    cases groups with
    | nil => cases hLength
    | cons c groups =>
      obtain ⟨rfl, hRest⟩ := List.cons.inj hEq
      refine ⟨hMore b List.mem_cons_self, groups, last, rest, hRest, Nat.succ.inj hLength, ?_,
        hSum groups ▸ hFits, hLast⟩
      exact fun c hc => hMore c (List.mem_cons_of_mem b hc)
  · rintro ⟨hb, groups, last, rest, rfl, rfl, hMore, hFits, hLast⟩
    exact ⟨b :: groups, last, rest, rfl, rfl, List.forall_mem_cons.mpr ⟨hb, hMore⟩,
      (hSum groups).symm ▸ hFits, hLast⟩

/-- While `n` groups may still follow the next one, its product and the sum
have room. -/
theorem room_of_mult {n mult : Nat} (h : mult * 128 ^ (n + 1) = 2 ^ 63) :
    mult * 128 * 128 ^ n = 2 ^ 63 ∧ 0 < mult ∧ mult ≤ 2 ^ 56 := by
  have hNext : mult * 128 * 128 ^ n = 2 ^ 63 := by rw [Nat.mul_assoc, ← Nat.pow_succ', h]
  have hLe : mult * 128 ≤ 2 ^ 63 := Nat.le_of_dvd (by decide) ⟨_, hNext.symm⟩
  refine ⟨hNext, Nat.pos_of_ne_zero ?_, by omega⟩
  rintro rfl
  rw [Nat.zero_mul] at h
  exact absurd h (by decide)

theorem hpIntRestWraps_iff {n : Nat} : ∀ {mult out : Nat} {bytes : Bytes}, mult * 128 ^ n = 2 ^ 63 →
    out < 2 ^ 32 →
    (hpIntRestWraps mult out bytes = true ↔ LateFrom n mult out bytes) := by
  induction n with
  | zero =>
    intro mult out bytes hMult hOut
    rw [Nat.pow_zero, Nat.mul_one] at hMult
    cases bytes with
    | nil => exact iff_of_false Bool.false_ne_true not_lateFrom_nil
    | cons b bytes =>
      rw [lateFrom_zero, hpIntRestWraps, hMult]
      have hShift : (2 : Nat) ^ 63 * 128 % 2 ^ 64 = 0 := by decide
      simp only [hShift, ne_eq, not_true_eq_false, and_false, decide_false, Bool.false_and,
        Bool.or_false, Bool.or_eq_true,
        decide_eq_true_eq]
      omega
  | succ n ih =>
    intro mult out bytes hMult hOut
    obtain ⟨hNext, hPos, hLe⟩ := room_of_mult hMult
    cases bytes with
    | nil => exact iff_of_false Bool.false_ne_true not_lateFrom_nil
    | cons b bytes =>
      have hProduct : b.toNat % 128 * mult < 2 ^ 63 :=
        calc b.toNat % 128 * mult < 128 * mult := Nat.mul_lt_mul_of_pos_right (Nat.mod_lt _ (by decide)) hPos
          _ ≤ 2 ^ 63 := by omega
      have hShift : mult * 128 % 2 ^ 64 = mult * 128 := Nat.mod_eq_of_lt (by omega)
      rw [lateFrom_succ, hpIntRestWraps, Nat.mod_eq_of_lt (by omega : b.toNat % 128 * mult < 2 ^ 64), hShift]
      rw [decide_eq_false (by omega : ¬2 ^ 64 ≤ b.toNat % 128 * mult),
        decide_eq_false (by omega : ¬2 ^ 64 ≤ out + b.toNat % 128 * mult),
        Bool.or_false, Bool.false_or, Bool.and_eq_true, decide_eq_true_eq]
      by_cases hFits : out + b.toNat % 128 * mult < 2 ^ 32
      · rw [ih hNext hFits]
        have hLeft : mult * 128 ≠ 0 := by omega
        simp only [hFits, hLeft, ne_eq, not_false_eq_true, and_true, true_and]
      · refine iff_of_false (fun h => hFits h.1.1) ?_
        rintro ⟨-, groups, -, -, -, -, -, hLate, -⟩
        omega

theorem hpIntRest_iff {n : Nat} : ∀ {mult out : Nat} {bytes : Bytes}, mult * 128 ^ n = 2 ^ 63 → out < 2 ^ 32 →
    ¬LateFrom n mult out bytes → ∀ v rest,
    (hpIntRest mult out bytes = some (v, rest) ↔ ∃ value, Begins (n + 1) bytes value rest ∧
      v = out + mult * value ∧ v < 2 ^ 32) := by
  induction n with
  | zero =>
    intro mult out bytes hMult hOut hLate v rest
    rw [Nat.pow_zero, Nat.mul_one] at hMult
    cases bytes with
    | nil =>
      refine iff_of_false (Option.some_ne_none _).symm ?_
      rintro ⟨_, hBegins, -⟩
      exact PrefixInteger.not_begins_nil hBegins
    | cons b bytes =>
      have hSmall : b.toNat % 128 < 2 := by
        by_contra hNot
        exact hLate (lateFrom_zero.mpr ⟨hOut, by omega⟩)
      have hShift : (2 : Nat) ^ 63 * 128 % 2 ^ 64 = 0 := by decide
      have hProduct : b.toNat % 128 * 2 ^ 63 % 2 ^ 64 = b.toNat % 128 * 2 ^ 63 := Nat.mod_eq_of_lt (by omega)
      rw [hpIntRest, hMult, hShift, hProduct]
      by_cases hMore : 128 ≤ b.toNat
      · rw [if_pos hMore, if_pos rfl, ite_self]
        refine iff_of_false (Option.some_ne_none _).symm ?_
        rintro ⟨value, hBegins, -⟩
        obtain ⟨v, hNone, -⟩ := (PrefixInteger.begins_more hMore).mp hBegins
        exact PrefixInteger.begins_zero hNone
      · rw [if_neg hMore]
        simp only [PrefixInteger.begins_last (Nat.lt_of_not_le hMore)]
        have hLow : b.toNat % 128 = b.toNat := Nat.mod_eq_of_lt (Nat.lt_of_not_le hMore)
        rw [hLow]
        split
        · refine iff_of_false (Option.some_ne_none _).symm ?_
          rintro ⟨value, ⟨rfl, -⟩, rfl, hFits⟩
          omega
        · simp only [Option.some.injEq, Prod.mk.injEq]
          constructor
          · rintro ⟨rfl, rfl⟩
            exact ⟨b.toNat, ⟨rfl, rfl⟩, by omega, by omega⟩
          · rintro ⟨value, ⟨rfl, rfl⟩, rfl, -⟩
            exact ⟨by omega, rfl⟩
  | succ n ih =>
    intro mult out bytes hMult hOut hLate v rest
    obtain ⟨hNext, hPos, hLe⟩ := room_of_mult hMult
    cases bytes with
    | nil =>
      refine iff_of_false (Option.some_ne_none _).symm ?_
      rintro ⟨_, hBegins, -⟩
      exact PrefixInteger.not_begins_nil hBegins
    | cons b bytes =>
      have hProduct : b.toNat % 128 * mult < 2 ^ 63 :=
        calc b.toNat % 128 * mult < 128 * mult := Nat.mul_lt_mul_of_pos_right (Nat.mod_lt _ (by decide)) hPos
          _ ≤ 2 ^ 63 := by omega
      have hShift : mult * 128 % 2 ^ 64 = mult * 128 := Nat.mod_eq_of_lt (by omega)
      rw [hpIntRest, Nat.mod_eq_of_lt (by omega : b.toNat % 128 * mult < 2 ^ 64), hShift]
      -- what the groups stand for is at least what the first one adds
      have hSum : ∀ value, out + mult * (b.toNat % 128 + 128 * value) = out + b.toNat % 128 * mult +
        mult * 128 * value := by
        intro value
        rw [Nat.mul_add, Nat.mul_assoc, Nat.mul_comm mult, Nat.add_assoc]
      by_cases hMore : 128 ≤ b.toNat
      · simp only [PrefixInteger.begins_more hMore]
        by_cases hFits : out + b.toNat % 128 * mult < 2 ^ 32
        · rw [if_neg (by omega), if_pos hMore, if_neg (by omega)]
          rw [ih hNext hFits fun h => hLate (lateFrom_succ.mpr ⟨hMore, h⟩)]
          constructor
          · rintro ⟨value, hBegins, rfl, hv⟩
            exact ⟨_, ⟨value, hBegins, rfl⟩, (hSum value).symm, hv⟩
          · rintro ⟨-, ⟨value, hBegins, rfl⟩, rfl, hv⟩
            exact ⟨value, hBegins, hSum value, hv⟩
        · rw [if_pos (by omega)]
          refine iff_of_false (Option.some_ne_none _).symm ?_
          rintro ⟨-, ⟨value, -, rfl⟩, rfl, hv⟩
          rw [hSum] at hv
          omega
      · have hLow : b.toNat % 128 = b.toNat := Nat.mod_eq_of_lt (Nat.lt_of_not_le hMore)
        simp only [PrefixInteger.begins_last (Nat.lt_of_not_le hMore), if_neg hMore]
        rw [hLow]
        split
        · refine iff_of_false (Option.some_ne_none _).symm ?_
          rintro ⟨value, ⟨rfl, -⟩, rfl, hFits⟩
          rw [Nat.mul_comm] at hFits
          omega
        · simp only [Option.some.injEq, Prod.mk.injEq]
          constructor
          · rintro ⟨rfl, rfl⟩
            exact ⟨b.toNat, ⟨rfl, rfl⟩, by rw [Nat.mul_comm], by omega⟩
          · rintro ⟨value, ⟨rfl, rfl⟩, rfl, -⟩
            exact ⟨by rw [Nat.mul_comm], rfl⟩

/-! ## Integers -/

theorem readsInteger_iff (nbits : Nat) (hBits : nbits ≤ 8) (bytes : Bytes) : ReadsInteger nbits bytes ↔
    ¬LateGroup nbits bytes := by
  have hPrefix : 2 ^ nbits - 1 < 2 ^ 32 := by
    have hPow : 2 ^ nbits ≤ 2 ^ 8 := Nat.pow_le_pow_right (by decide) hBits
    omega
  have hFirst : (1 : Nat) * 128 ^ 9 = 2 ^ 63 := by decide
  cases bytes with
  | nil =>
    refine iff_of_true ⟨fun v rest => iff_of_false nofun ?_, rfl⟩ ?_
    · rintro ⟨enc, hEncodes, hEq, -⟩
      rw [(List.append_eq_nil_iff.mp hEq.symm).1] at hEncodes
      cases hEncodes
    · rintro ⟨b, rest, hEq, -⟩
      cases hEq
  | cons b bytes =>
    by_cases hSmall : b.toNat % 2 ^ nbits < 2 ^ nbits - 1
    · refine iff_of_true ⟨fun v rest => ?_, ?_⟩ ?_
      · rw [hpInt, if_pos hSmall, Option.some.injEq, Prod.mk.injEq]
        constructor
        · rintro ⟨rfl, rfl⟩
          exact ⟨[b], .small hSmall, rfl, by simp, by omega⟩
        · rintro ⟨enc, hEncodes, hEq, -⟩
          cases hEncodes with
          | small =>
            obtain ⟨rfl, hRest⟩ := List.cons.inj hEq
            exact ⟨rfl, hRest⟩
          | large hFull =>
            obtain ⟨rfl, -⟩ := List.cons.inj hEq
            omega
      · rw [hpIntWraps, decide_eq_false (not_not_intro hSmall), Bool.false_and]
      · rintro ⟨c, rest, hEq, hFull, -⟩
        obtain ⟨rfl, -⟩ := List.cons.inj hEq
        omega
    · have hFull : b.toNat % 2 ^ nbits = 2 ^ nbits - 1 := by
        have hMod : b.toNat % 2 ^ nbits < 2 ^ nbits := Nat.mod_lt _ (Nat.two_pow_pos nbits)
        omega
      have hLate : LateGroup nbits (b :: bytes) ↔ LateFrom 9 1 (2 ^ nbits - 1) bytes := by
        constructor
        · rintro ⟨c, rest, hEq, -, h⟩
          obtain ⟨-, rfl⟩ := List.cons.inj hEq
          exact h
        · exact fun h => ⟨b, bytes, rfl, hFull, h⟩
      have hWraps : hpIntWraps nbits (b :: bytes) = true ↔ LateFrom 9 1 (2 ^ nbits - 1) bytes := by
        rw [hpIntWraps, decide_eq_true hSmall, Bool.true_and]
        exact hpIntRestWraps_iff hFirst hPrefix
      rw [hLate, ← hWraps, Bool.not_eq_true]
      refine ⟨fun h => h.fits, fun h => ⟨fun v rest => ?_, h⟩⟩
      have hNot : ¬LateFrom 9 1 (2 ^ nbits - 1) bytes :=
        fun hIs => Bool.false_ne_true (h.symm.trans (hWraps.mpr hIs))
      rw [hpInt, if_neg hSmall, hpIntRest_iff hFirst hPrefix hNot]
      constructor
      · rintro ⟨-, ⟨groups, hClosed, rfl, rfl, hLength⟩, rfl, hv⟩
        rw [Nat.one_mul] at hv ⊢
        exact ⟨b :: groups, .large hFull hClosed, rfl, Nat.succ_le_succ hLength, hv⟩
      · rintro ⟨enc, hEncodes, hEq, hLength, hv⟩
        cases hEncodes with
        | small hOther =>
          obtain ⟨rfl, -⟩ := List.cons.inj hEq
          exact absurd hOther hSmall
        | @large c groups _ hClosed =>
          obtain ⟨-, hRest⟩ := List.cons.inj hEq
          exact ⟨_, ⟨groups, hClosed, hRest, rfl, Nat.le_of_succ_le_succ hLength⟩, by rw [Nat.one_mul], hv⟩

theorem length_hpEncInt_le (value nbits pattern : Nat) : (hpEncInt value nbits pattern).length ≤ 7 := by
  have hRest : ∀ (fuel value : Nat), (hpEncRest fuel value).length ≤ fuel + 1 := by
    intro fuel
    induction fuel with
    | zero => exact fun _ => Nat.le_refl 1
    | succ fuel ih =>
      intro value
      rw [hpEncRest]
      split
      · exact Nat.succ_le_succ (ih _)
      · exact Nat.succ_le_succ (Nat.zero_le _)
  rw [hpEncInt]
  split
  · exact Nat.succ_le_succ (Nat.zero_le _)
  · exact Nat.succ_le_succ (hRest 5 _)

/-- For every prefix of 4 to 7 bits: the reader is exact unless a late group
comes, and a number of 32 bits survives being written into 8 octets. -/
theorem integers_iff (nbits : Nat) (hFour : 4 ≤ nbits) (hSeven : nbits ≤ 7) :
    (∀ bytes, ReadsInteger nbits bytes ↔ ¬LateGroup nbits bytes) ∧
      ∀ value pattern rest, value < 2 ^ 32 → 2 ^ nbits ∣ pattern → pattern + 2 ^ nbits ≤ 256 →
        hpInt nbits (hpEncInt value nbits pattern ++ rest) = some (value, rest) ∧
          (hpEncInt value nbits pattern).length ≤ 8 :=
  ⟨readsInteger_iff nbits (by omega), fun value pattern rest hValue hPattern hFits =>
    ⟨hpInt_encInt hValue hPattern hFits rest, Nat.le_succ_of_le (length_hpEncInt_le value nbits pattern)⟩⟩

/-- Nine groups of zero and one of two: 2^64 more than the number that is read. -/
def lateTwo : Bytes := 15 :: (List.replicate 9 128 ++ [2])

theorem integers_iff_at : 4 ≤ 4 ∧ ReadsInteger 4 [15, 128, 1] ∧
    hpInt 4 (hpEncInt 1337 4 0 ++ []) = some (1337, []) := by
  obtain ⟨hReads, hWrites⟩ := integers_iff 4 (by decide) (by decide)
  refine ⟨by decide, (hReads [15, 128, 1]).mpr ?_, (hWrites 1337 0 [] (by decide) (by decide) (by decide)).1⟩
  rintro ⟨b, rest, hEq, -, groups, last, tail, hRest, hLength, -⟩
  have hShort : ([15, 128, 1] : Bytes).length = (b :: (groups ++ last :: tail)).length := by rw [hEq, hRest]
  simp only [List.length_cons, List.length_append, hLength, List.length_nil] at hShort
  omega

theorem late_group_read : hpInt 4 lateTwo = some (15, []) ∧ Encodes 4 lateTwo (15 + 2 ^ 64) ∧
    ¬ReadsInteger 4 lateTwo := by
  have hRead : hpInt 4 lateTwo = some (15, []) := by decide
  have hValue : 2 ^ 4 - 1 + groupsValue (List.replicate 9 128 ++ [2]) = 15 + 2 ^ 64 := by decide
  have hClosed : Closed (List.replicate 9 128 ++ [2]) :=
    PrefixInteger.closed_concat (fun c hc => List.eq_of_mem_replicate hc ▸ by decide) (by decide)
  refine ⟨hRead, hValue ▸ .large (by decide) hClosed, fun h => ?_⟩
  obtain ⟨enc, hEncodes, hEq, -⟩ := (h.reads 15 []).mp hRead
  rw [List.append_nil] at hEq
  subst hEq
  have hOnly : ∀ v, Encodes 4 lateTwo v → v = 15 + 2 ^ 64 := by
    rintro v hv
    cases hv with
    | large => exact hValue
  exact absurd (hOnly 15 hEncodes) (by decide)

end Cweb.Hpack
