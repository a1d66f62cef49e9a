import Cweb.Utils.Sv

/-!
# Base64

The encoder writes three bytes as four characters. The decoder collects the six
bits of each character and writes a byte whenever there are eight.
-/

namespace Cweb.Base64

def B64 : Bytes := ascii "ABCDEFGHIJKLMNOPQRSTUVWXYZabcdefghijklmnopqrstuvwxyz0123456789+/"

def b64val (c : UInt8) : Option Nat :=
  if 65 ≤ c ∧ c ≤ 90 then some (c.toNat - 65)
  else if 97 ≤ c ∧ c ≤ 122 then some (c.toNat - 97 + 26)
  else if 48 ≤ c ∧ c ≤ 57 then some (c.toNat - 48 + 52)
  else if c = 43 then some 62
  else if c = 47 then some 63
  else none

/-- A `char` is signed. -/
def ofChar (c : UInt8) : Nat := if c < 128 then c.toNat else 2 ^ 32 - 256 + c.toNat

def base64EncodeInto : Bytes → Bytes
  | [] => []
  | [a] =>
    let v := (ofChar a <<< 16) % 2 ^ 32
    [B64.getD (v >>> 18 &&& 0x3F) 0, B64.getD (v >>> 12 &&& 0x3F) 0, 61, 61]
  | [a, b] =>
    let v := a.toNat <<< 16 ||| b.toNat <<< 8
    [B64.getD (v >>> 18 &&& 0x3F) 0, B64.getD (v >>> 12 &&& 0x3F) 0, B64.getD (v >>> 6 &&& 0x3F) 0, 61]
  | a :: b :: c :: d =>
    let v := a.toNat <<< 16 ||| b.toNat <<< 8 ||| c.toNat
    B64.getD (v >>> 18 &&& 0x3F) 0 :: B64.getD (v >>> 12 &&& 0x3F) 0 :: B64.getD (v >>> 6 &&& 0x3F) 0 ::
      B64.getD (v &&& 0x3F) 0 :: base64EncodeInto d

/-- The loop of `base64_decode_into`, with its test behind the last character. -/
def decodeLoop : Bytes → Nat → Nat → Option Bytes
  | [], acc, bits => if 0 < bits ∧ acc &&& (1 <<< bits - 1) ≠ 0 then none else some []
  | c :: s, acc, bits =>
    match b64val c with
    | none => none
    | some v =>
      let acc := acc <<< 6 ||| v
      let bits := bits + 6
      if 8 ≤ bits then
        (decodeLoop s (acc &&& (1 <<< (bits - 8) - 1)) (bits - 8)).map
          (UInt8.ofNat (acc >>> (bits - 8) &&& 0xFF) :: ·)
      else decodeLoop s acc bits

def base64DecodeInto (s : Bytes) : Option Bytes :=
  let s := s.rdropWhile (· == 61)
  if s.length % 4 = 1 then none else decodeLoop s 0 0

/-! ## What is encoded is decoded again -/

def digit (k : Nat) : UInt8 := B64.getD k 0

theorem b64val_digit {k : Nat} (hk : k < 64) : b64val (digit k) = some k := by
  have hAll : ∀ k : Fin 64, b64val (digit k) = some k.val := by decide +kernel
  exact hAll ⟨k, hk⟩

theorem digit_ne {k : Nat} (hk : k < 64) : digit k ≠ 61 ∧ digit k ≠ 36 ∧ digit k ≠ 0 := by
  have hAll : ∀ k : Fin 64, digit k ≠ 61 ∧ digit k ≠ 36 ∧ digit k ≠ 0 := by decide +kernel
  exact hAll ⟨k, hk⟩

theorem decodeLoop_keep {k acc bits : Nat} (hk : k < 64) (hBits : bits < 2) (s : Bytes) :
    decodeLoop (digit k :: s) acc bits = decodeLoop s (acc * 64 + k) (bits + 6) := by
  rw [decodeLoop, b64val_digit hk]
  dsimp only
  rw [if_neg (by omega), ← Nat.shiftLeft_add_eq_or_of_lt hk, Nat.shiftLeft_eq]

theorem decodeLoop_emit {k acc bits : Nat} (hk : k < 64) (hBits : 2 ≤ bits) (s : Bytes) :
    decodeLoop (digit k :: s) acc bits =
      (decodeLoop s ((acc * 64 + k) % 2 ^ (bits - 2)) (bits - 2)).map
        (UInt8.ofNat ((acc * 64 + k) / 2 ^ (bits - 2)) :: ·) := by
  have hByte : ∀ n, UInt8.ofNat (n &&& 0xFF) = UInt8.ofNat n := by
    intro n
    rw [← UInt8.toNat_inj, UInt8.toNat_ofNat', UInt8.toNat_ofNat']
    exact (congrArg (· % 256) (Nat.and_two_pow_sub_one_eq_mod n 8)).trans (Nat.mod_mod n 256)
  rw [decodeLoop, b64val_digit hk]
  dsimp only
  rw [if_pos (by omega), ← Nat.shiftLeft_add_eq_or_of_lt hk, Nat.shiftLeft_eq, Nat.one_shiftLeft,
    Nat.and_two_pow_sub_one_eq_mod,
    Nat.shiftRight_eq_div_pow, hByte, show bits + 6 - 8 = bits - 2 by omega]

theorem decodeLoop_nil (bits : Nat) : decodeLoop [] 0 bits = some [] := by
  rw [decodeLoop, Nat.zero_and, if_neg (fun h => h.2 rfl)]

/-- The characters without the padding. -/
def unpadded : Bytes → Bytes
  | [] => []
  | [a] => [digit (a.toNat / 4), digit (a.toNat % 4 * 16)]
  | [a, b] => [digit (a.toNat / 4), digit (a.toNat % 4 * 16 + b.toNat / 16), digit (b.toNat % 16 * 4)]
  | a :: b :: c :: d =>
    digit (a.toNat / 4) :: digit (a.toNat % 4 * 16 + b.toNat / 16) :: digit
      (b.toNat % 16 * 4 + c.toNat / 64) ::
      digit (c.toNat % 64) :: unpadded d

theorem sextet (v k : Nat) : v >>> k &&& 0x3F = v / 2 ^ k % 64 := by
  rw [Nat.shiftRight_eq_div_pow]
  exact Nat.and_two_pow_sub_one_eq_mod _ 6

theorem three_bytes {a b c : Nat} (hb : b < 256) (hc : c < 256) :
    a <<< 16 ||| b <<< 8 ||| c = a * 65536 + b * 256 + c := by
  have hLow : b <<< 8 < 2 ^ 16 := by
    rw [Nat.shiftLeft_eq]
    omega
  have hSum : a <<< 16 + b <<< 8 = (a * 256 + b) <<< 8 := by
    simp only [Nat.shiftLeft_eq]
    omega
  rw [← Nat.shiftLeft_add_eq_or_of_lt hLow, hSum, ← Nat.shiftLeft_add_eq_or_of_lt hc, Nat.shiftLeft_eq]
  omega

theorem ofChar_bits (c : UInt8) : (ofChar c <<< 16) % 2 ^ 32 / 2 ^ 18 % 64 = c.toNat / 4 ∧
    (ofChar c <<< 16) % 2 ^ 32 / 2 ^ 12 % 64 = c.toNat % 4 * 16 := by
  have hc := c.toNat_lt
  rw [Nat.shiftLeft_eq, ofChar]
  split
  · omega
  · omega

theorem base64EncodeInto_eq (d : Bytes) :
    base64EncodeInto d = unpadded d ++ List.replicate ((3 - d.length % 3) % 3) 61 := by
  induction d using base64EncodeInto.induct with
  | case1 => rfl
  | case2 a =>
    have hBits := ofChar_bits a
    rw [base64EncodeInto, sextet, sextet, hBits.1, hBits.2]
    rfl
  | case3 a b =>
    have ha := a.toNat_lt
    have hb := b.toNat_lt
    have hv := @three_bytes a.toNat b.toNat 0 hb (by decide)
    rw [Nat.or_zero, Nat.add_zero] at hv
    rw [base64EncodeInto, hv, sextet, sextet, sextet,
      show (a.toNat * 65536 + b.toNat * 256) / 2 ^ 18 % 64 = a.toNat / 4 by omega,
      show (a.toNat * 65536 + b.toNat * 256) / 2 ^ 12 % 64 = a.toNat % 4 * 16 + b.toNat / 16 by omega,
      show (a.toNat * 65536 + b.toNat * 256) / 2 ^ 6 % 64 = b.toNat % 16 * 4 by omega]
    rfl
  | case4 a b c d ih =>
    have ha := a.toNat_lt
    have hb := b.toNat_lt
    have hc := c.toNat_lt
    have hLast := sextet (a.toNat * 65536 + b.toNat * 256 + c.toNat) 0
    rw [Nat.shiftRight_zero] at hLast
    rw [base64EncodeInto, ih, three_bytes hb hc, sextet, sextet, sextet, hLast,
      show (a.toNat * 65536 + b.toNat * 256 + c.toNat) / 2 ^ 18 % 64 = a.toNat / 4 by omega,
      show (a.toNat * 65536 + b.toNat * 256 + c.toNat) / 2 ^ 12 % 64 = a.toNat % 4 * 16 +
        b.toNat / 16 by omega,
      show (a.toNat * 65536 + b.toNat * 256 + c.toNat) / 2 ^ 6 % 64 = b.toNat % 16 * 4 +
        c.toNat / 64 by omega,
      show (a.toNat * 65536 + b.toNat * 256 + c.toNat) / 2 ^ 0 % 64 = c.toNat % 64 by
        omega, List.length_cons, List.length_cons,
      List.length_cons, show (d.length + 1 + 1 + 1) % 3 = d.length % 3 by omega, unpadded]
    rfl

theorem unpadded_all {P : UInt8 → Prop} (h : ∀ k < 64, P (digit k)) (d : Bytes) : ∀ c ∈ unpadded d, P c := by
  induction d using unpadded.induct with
  | case1 => exact fun c hc => absurd hc List.not_mem_nil
  | case2 a =>
    have ha := a.toNat_lt
    simp only [unpadded, List.forall_mem_cons]
    exact ⟨h _ (by omega), h _ (by omega), fun _ hc => absurd hc List.not_mem_nil⟩
  | case3 a b =>
    have ha := a.toNat_lt
    have hb := b.toNat_lt
    simp only [unpadded, List.forall_mem_cons]
    exact ⟨h _ (by omega), h _ (by omega), h _ (by omega), fun _ hc => absurd hc List.not_mem_nil⟩
  | case4 a b c d ih =>
    have ha := a.toNat_lt
    have hb := b.toNat_lt
    have hc := c.toNat_lt
    simp only [unpadded, List.forall_mem_cons]
    exact ⟨h _ (by omega), h _ (by omega), h _ (by omega), h _ (by omega), ih⟩

theorem unpadded_ne (d : Bytes) : ∀ c ∈ unpadded d, c ≠ 61 ∧ c ≠ 36 ∧ c ≠ 0 :=
  unpadded_all (fun _ hk => digit_ne hk) d

theorem length_unpadded (d : Bytes) : (unpadded d).length = (d.length * 4 + 2) / 3 := by
  induction d using unpadded.induct with
  | case1 => rfl
  | case2 a => simp only [unpadded, List.length_cons, List.length_nil, Nat.reduceAdd, Nat.reduceMul,
    Nat.reduceDiv]
  | case3 a b => simp only [unpadded, List.length_cons, List.length_nil, Nat.reduceAdd, Nat.reduceMul,
    Nat.reduceDiv]
  | case4 a b c d ih =>
    simp only [unpadded, List.length_cons, ih]
    omega

theorem decodeLoop_unpadded (d : Bytes) : decodeLoop (unpadded d) 0 0 = some d := by
  induction d using unpadded.induct with
  | case1 => exact decodeLoop_nil 0
  | case2 a =>
    have ha := a.toNat_lt
    rw [unpadded, decodeLoop_keep (by omega) (by decide), decodeLoop_emit (by omega) (by decide)]
    simp only [Nat.zero_mul, Nat.zero_add, Nat.reduceSub, Nat.reducePow]
    rw [show (a.toNat / 4 * 64 + a.toNat % 4 * 16) % 16 = 0 by omega, decodeLoop_nil,
      show (a.toNat / 4 * 64 + a.toNat % 4 * 16) / 16 = a.toNat by omega, UInt8.ofNat_toNat]
    rfl
  | case3 a b =>
    have ha := a.toNat_lt
    have hb := b.toNat_lt
    rw [unpadded, decodeLoop_keep (by omega) (by decide), decodeLoop_emit (by omega) (by decide),
      decodeLoop_emit (by omega) (by decide)]
    simp only [Nat.zero_mul, Nat.zero_add, Nat.reduceSub, Nat.reducePow]
    rw [show (a.toNat / 4 * 64 + (a.toNat % 4 * 16 + b.toNat / 16)) % 16 = b.toNat / 16 by omega,
      show (a.toNat / 4 * 64 + (a.toNat % 4 * 16 + b.toNat / 16)) / 16 = a.toNat by omega,
      show (b.toNat / 16 * 64 + b.toNat % 16 * 4) % 4 = 0 by omega, decodeLoop_nil,
      show (b.toNat / 16 * 64 + b.toNat % 16 * 4) / 4 = b.toNat by
        omega, UInt8.ofNat_toNat, UInt8.ofNat_toNat]
    rfl
  | case4 a b c d ih =>
    have ha := a.toNat_lt
    have hb := b.toNat_lt
    have hc := c.toNat_lt
    rw [unpadded, decodeLoop_keep (by omega) (by decide), decodeLoop_emit (by omega) (by decide),
      decodeLoop_emit (by omega) (by decide),
      decodeLoop_emit (by omega) (by decide)]
    simp only [Nat.zero_mul, Nat.zero_add, Nat.reduceSub, Nat.reducePow]
    rw [show (a.toNat / 4 * 64 + (a.toNat % 4 * 16 + b.toNat / 16)) % 16 = b.toNat / 16 by omega,
      show (a.toNat / 4 * 64 + (a.toNat % 4 * 16 + b.toNat / 16)) / 16 = a.toNat by omega,
      show (b.toNat / 16 * 64 + (b.toNat % 16 * 4 + c.toNat / 64)) % 4 = c.toNat / 64 by omega,
      show (b.toNat / 16 * 64 + (b.toNat % 16 * 4 + c.toNat / 64)) / 4 = b.toNat by omega,
      show (c.toNat / 64 * 64 + c.toNat % 64) % 1 = 0 by
        omega, show (c.toNat / 64 * 64 + c.toNat % 64) / 1 = c.toNat by omega, ih,
      UInt8.ofNat_toNat, UInt8.ofNat_toNat, UInt8.ofNat_toNat]
    rfl

theorem rdropWhile_encode (d : Bytes) : (base64EncodeInto d).rdropWhile (· == 61) = unpadded d := by
  rw [base64EncodeInto_eq]
  generalize (3 - d.length % 3) % 3 = n
  induction n with
  | zero =>
    rw [List.replicate_zero, List.append_nil, List.rdropWhile_eq_self_iff]
    intro hne
    simpa using (unpadded_ne d _ (List.getLast_mem hne)).1
  | succ n ih =>
    rw [List.replicate_succ', ← List.append_assoc, List.rdropWhile_concat_pos _ _ _ (by decide), ih]

theorem filter_encode (d : Bytes) : (base64EncodeInto d).filter (· ≠ 61) = unpadded d := by
  have hKeep : (unpadded d).filter (· ≠ 61) = unpadded d := by
    rw [List.filter_eq_self]
    intro c hc
    exact decide_eq_true (unpadded_ne d c hc).1
  rw [base64EncodeInto_eq, List.filter_append, hKeep, List.filter_replicate_of_neg (by decide),
    List.append_nil]

/-! ## Nothing else is decoded -/

theorem b64val_eq_some {c : UInt8} {k : Nat} (h : b64val c = some k) : k < 64 ∧ c = digit k := by
  have hAll : ∀ n : Fin 256,
    (b64val (UInt8.ofNat n)).all (fun k => k < 64 && UInt8.ofNat n == digit k) = true := by decide +kernel
  have hByte := hAll ⟨c.toNat, c.toNat_lt⟩
  rw [UInt8.ofNat_toNat, h, Option.all_some, Bool.and_eq_true, decide_eq_true_eq, beq_iff_eq] at hByte
  exact hByte

theorem decodeLoop_cons_some {c : UInt8} {s x : Bytes} {acc bits : Nat}
    (h : decodeLoop (c :: s) acc bits = some x) :
    ∃ k < 64, c = digit k := by
  rw [decodeLoop] at h
  split at h
  · cases h
  · next k hVal => exact ⟨k, b64val_eq_some hVal⟩

theorem decodeLoop_nil_some {x : Bytes} {acc bits : Nat} (hAcc : acc < 2 ^ bits) (hBits : 0 < bits)
    (h : decodeLoop [] acc bits = some x) : acc = 0 ∧ x = [] := by
  rw [decodeLoop, Nat.one_shiftLeft, Nat.and_two_pow_sub_one_eq_mod, Nat.mod_eq_of_lt hAcc] at h
  split at h
  · cases h
  · next hZero =>
    refine ⟨?_, (Option.some.inj h).symm⟩
    by_contra hSome
    exact hZero ⟨hBits, hSome⟩

/-- Four characters at a time against three bytes at a time: a text of the
alphabet that is decoded is the one that the bytes have. -/
theorem eq_unpadded : ∀ {s x : Bytes}, decodeLoop s 0 0 = some x → s.length % 4 ≠ 1 → s = unpadded x
  | [], x, h, _ => by
    rw [decodeLoop_nil] at h
    rw [← Option.some.inj h, unpadded]
  | [c₁], x, _, hLength => absurd rfl hLength
  | [c₁, c₂], x, h, _ => by
    obtain ⟨k₁, h₁, rfl⟩ := decodeLoop_cons_some h
    rw [decodeLoop_keep h₁ (by decide)] at h
    obtain ⟨k₂, h₂, rfl⟩ := decodeLoop_cons_some h
    rw [decodeLoop_emit h₂ (by decide)] at h
    obtain ⟨_, hNil, rfl⟩ := Option.map_eq_some_iff.mp h
    obtain ⟨hZero, rfl⟩ := decodeLoop_nil_some (Nat.mod_lt _ (by decide)) (by decide) hNil
    simp only [Nat.zero_mul, Nat.zero_add, Nat.reduceSub, Nat.reducePow] at hZero ⊢
    rw [unpadded, UInt8.toNat_ofNat', show (k₁ * 64 + k₂) / 16 % 2 ^ 8 / 4 = k₁ by omega,
      show (k₁ * 64 + k₂) / 16 % 2 ^ 8 % 4 * 16 = k₂ by omega]
  | [c₁, c₂, c₃], x, h, _ => by
    obtain ⟨k₁, h₁, rfl⟩ := decodeLoop_cons_some h
    rw [decodeLoop_keep h₁ (by decide)] at h
    obtain ⟨k₂, h₂, rfl⟩ := decodeLoop_cons_some h
    rw [decodeLoop_emit h₂ (by decide)] at h
    obtain ⟨_, hTwo, rfl⟩ := Option.map_eq_some_iff.mp h
    obtain ⟨k₃, h₃, rfl⟩ := decodeLoop_cons_some hTwo
    rw [decodeLoop_emit h₃ (by decide)] at hTwo
    obtain ⟨_, hNil, rfl⟩ := Option.map_eq_some_iff.mp hTwo
    obtain ⟨hZero, rfl⟩ := decodeLoop_nil_some (Nat.mod_lt _ (by decide)) (by decide) hNil
    simp only [Nat.zero_mul, Nat.zero_add, Nat.reduceSub, Nat.reducePow] at hZero ⊢
    rw [unpadded, UInt8.toNat_ofNat', UInt8.toNat_ofNat', show (k₁ * 64 + k₂) / 16 % 2 ^ 8 / 4 = k₁ by omega,
      show (k₁ * 64 + k₂) / 16 % 2 ^ 8 % 4 * 16 + ((k₁ * 64 + k₂) % 16 * 64 + k₃) / 4 % 2 ^ 8 / 16 =
        k₂ by omega,
      show ((k₁ * 64 + k₂) % 16 * 64 + k₃) / 4 % 2 ^ 8 % 16 * 4 = k₃ by omega]
  | c₁ :: c₂ :: c₃ :: c₄ :: s, x, h, hLength => by
    obtain ⟨k₁, h₁, rfl⟩ := decodeLoop_cons_some h
    rw [decodeLoop_keep h₁ (by decide)] at h
    obtain ⟨k₂, h₂, rfl⟩ := decodeLoop_cons_some h
    rw [decodeLoop_emit h₂ (by decide)] at h
    obtain ⟨_, hTwo, rfl⟩ := Option.map_eq_some_iff.mp h
    obtain ⟨k₃, h₃, rfl⟩ := decodeLoop_cons_some hTwo
    rw [decodeLoop_emit h₃ (by decide)] at hTwo
    obtain ⟨_, hThree, rfl⟩ := Option.map_eq_some_iff.mp hTwo
    obtain ⟨k₄, h₄, rfl⟩ := decodeLoop_cons_some hThree
    rw [decodeLoop_emit h₄ (by decide)] at hThree
    obtain ⟨rest, hRest, rfl⟩ := Option.map_eq_some_iff.mp hThree
    simp only [Nat.zero_mul, Nat.zero_add, Nat.reduceSub, Nat.reducePow, Nat.mod_one, Nat.div_one] at hRest ⊢
    have hBehind : s = unpadded rest := by
      refine eq_unpadded hRest fun hOne => hLength ?_
      rw [List.length_cons, List.length_cons, List.length_cons, List.length_cons]
      omega
    rw [unpadded, ← hBehind, UInt8.toNat_ofNat', UInt8.toNat_ofNat', UInt8.toNat_ofNat',
      show (k₁ * 64 + k₂) / 16 % 2 ^ 8 / 4 = k₁ by omega,
      show (k₁ * 64 + k₂) / 16 % 2 ^ 8 % 4 * 16 + ((k₁ * 64 + k₂) % 16 * 64 + k₃) / 4 % 2 ^ 8 / 16 =
        k₂ by omega,
      show ((k₁ * 64 + k₂) % 16 * 64 + k₃) / 4 % 2 ^ 8 % 16 * 4 +
        (((k₁ * 64 + k₂) % 16 * 64 + k₃) % 4 * 64 + k₄) % 2 ^ 8 / 64 = k₃ by omega,
      show (((k₁ * 64 + k₂) % 16 * 64 + k₃) % 4 * 64 + k₄) % 2 ^ 8 % 64 = k₄ by omega]

theorem base64DecodeInto_iff (s x : Bytes) : base64DecodeInto s = some x ↔
    s.rdropWhile (· == 61) = unpadded x := by
  rw [base64DecodeInto]
  constructor
  · intro h
    split at h
    · cases h
    · next hLength => exact eq_unpadded h hLength
  · intro hText
    rw [hText, if_neg, decodeLoop_unpadded]
    rw [length_unpadded]
    omega

theorem base64DecodeInto_encode (d : Bytes) : base64DecodeInto (base64EncodeInto d) = some d :=
  (base64DecodeInto_iff _ d).mpr (rdropWhile_encode d)

/-- Encoding and decoding: what is encoded is read back, and a text is read as
`x` when it is the text of `x`, whatever the padding. -/
theorem base64_exact :
    (∀ x, base64DecodeInto (base64EncodeInto x) = some x) ∧
      (∀ s x, base64DecodeInto s = some x ↔ s.rdropWhile (· == 61) = (base64EncodeInto x).filter (· ≠ 61)) ∧
      ∀ s t x, base64DecodeInto s = some x → base64DecodeInto t = some x →
        s.rdropWhile (· == 61) = t.rdropWhile (· == 61) := by
  refine ⟨base64DecodeInto_encode, fun s x => ?_, fun s t x hs ht => ?_⟩
  · rw [filter_encode]
    exact base64DecodeInto_iff s x
  · exact ((base64DecodeInto_iff s x).mp hs).trans ((base64DecodeInto_iff t x).mp ht).symm

end Cweb.Base64
