import Cweb.Security.Digest
import Cweb.Security.Password

/-!
# The derived key is the standard's

The chained message stays whole while its exclusive or is taken over the bytes
that are still wanted. Cutting a block short before or after comes to the same.
-/

namespace Cweb.Password

open Hmac

def prf : Bytes → Bytes → Bytes := Mac.hmac Fips.sha256 64

theorem length_prf (key msg : Bytes) : (prf key msg).length = 32 := Fips.length_sha256 _

theorem length_chain (pw salt : Bytes) (i j : Nat) : (Mac.chain prf pw salt i j).length = 32 := by
  cases j with
  | zero => exact length_prf _ _
  | succ j => exact length_prf _ _

theorem roundLoop_spec (pw salt : Bytes) (i chunk rounds : Nat) : ∀ j, roundLoop pw rounds
      (Mac.chain prf pw salt i j, (Mac.block prf 32 pw salt (j + 1) i).take chunk) =
    (Mac.chain prf pw salt i (j + rounds), (Mac.block prf 32 pw salt (j + rounds + 1) i).take chunk) := by
  induction rounds with
  | zero => exact fun _ => rfl
  | succ rounds ih =>
    intro j
    have hNext : hmacSha256 pw (Mac.chain prf pw salt i j) = Mac.chain prf pw salt i (j + 1) :=
      hmacSha256_eq _ _
    have hXor := Mac.xor_take chunk (Mac.block prf 32 pw salt (j + 1) i) (Mac.chain prf pw salt i (j + 1))
    rw [← Mac.block_succ] at hXor
    rw [roundLoop, pbkdf2Round, hNext]
    have hStep := ih (j + 1)
    rw [← hXor, Mac.xor, Nat.add_right_comm j 1 rounds] at hStep
    exact hStep

theorem shifted_byte {i : Nat} (hi : i < 2 ^ 32) {n : UInt32} (k : Nat) (hn : n.toNat = k) (hk : k < 32) :
    ((UInt32.ofNat i >>> n) &&& 0xff).toUInt8 = UInt8.ofNat (i / 2 ^ k) := by
  have hMask : i / 2 ^ k &&& 255 = i / 2 ^ k % 256 := Nat.and_two_pow_sub_one_eq_mod (i / 2 ^ k) 8
  rw [← UInt8.toNat_inj, UInt32.toNat_toUInt8, UInt32.toNat_and, UInt32.toNat_shiftRight,
    UInt32.toNat_ofNat_of_lt' hi, hn,
    Nat.mod_eq_of_lt hk, Nat.shiftRight_eq_div_pow, UInt8.toNat_ofNat']
  change (i / 2 ^ k &&& 255) % 256 = _
  rw [hMask, Nat.mod_mod]

theorem firstMessage_eq (salt : Bytes) {i : Nat} (hi : i < 2 ^ 32) :
    firstMessage salt (UInt32.ofNat i) = salt ++ Mac.int i := by
  have hLow := @shifted_byte i hi 0 0 rfl (by decide)
  rw [UInt32.shiftRight_zero] at hLow
  rw [firstMessage, shifted_byte hi 24 rfl (by decide), shifted_byte hi 16 rfl (by decide),
    shifted_byte hi 8 rfl (by decide), hLow]
  rfl

theorem block_at_cursor (pw salt : Bytes) {iterations : UInt32} (hPos : 1 ≤ iterations) {i : Nat}
    (hi : i < 2 ^ 32) (chunk : Nat) :
    (roundLoop pw (iterations.toNat - 1) (hmacSha256 pw (firstMessage salt (UInt32.ofNat i)),
      (hmacSha256 pw (firstMessage salt (UInt32.ofNat i))).take chunk)).2 =
        (Mac.block prf 32 pw salt iterations.toNat i).take chunk := by
  have hCount : 1 ≤ iterations.toNat := UInt32.le_iff_toNat_le.mp hPos
  have hFirst : hmacSha256 pw (firstMessage salt (UInt32.ofNat i)) = Mac.chain prf pw salt i 0 := by
    rw [hmacSha256_eq, firstMessage_eq salt hi]
    rfl
  have hRounds := roundLoop_spec pw salt i chunk (iterations.toNat - 1) 0
  rw [Nat.zero_add, Nat.zero_add, Nat.sub_add_cancel hCount,
    Mac.block_one pw salt i (length_chain pw salt i 0)] at hRounds
  rw [hFirst, hRounds]

theorem length_block (pw salt : Bytes) {count : Nat} (hPos : 1 ≤ count) (i : Nat) :
    (Mac.block prf 32 pw salt count i).length = 32 := by
  induction count, hPos using Nat.le_induction with
  | base => rw [Mac.block_one pw salt i (length_chain pw salt i 0), length_chain]
  | succ count _ ih => rw [Mac.block_succ, Mac.xor, List.length_zipWith, ih, length_chain, Nat.min_self]

/-- So many bytes of the blocks from a number on. -/
theorem blockLoop_spec (pw salt : Bytes) {iterations : UInt32} (hPos : 1 ≤ iterations) (fuel : Nat) :
    ∀ i remaining,
    remaining ≤ fuel → i + (remaining + 31) / 32 ≤ 2 ^ 32 →
      blockLoop pw salt iterations fuel (UInt32.ofNat i) remaining =
      ((List.range ((remaining + 31) / 32)).flatMap fun j => Mac.block prf 32 pw salt iterations.toNat
        (i + j)).take remaining := by
  induction fuel with
  | zero =>
    intro i remaining hFuel _
    obtain rfl := Nat.le_zero.mp hFuel
    rfl
  | succ fuel ih =>
    intro i remaining hFuel hBlocks
    rw [blockLoop]
    split
    · next hNone =>
      subst hNone
      rfl
    · next hSome =>
      generalize hChunk : (if remaining < 32 then remaining else 32) = chunk
      have hCount : (remaining + 31) / 32 = (remaining - chunk + 31) / 32 + 1 := by
        rw [← hChunk]
        split <;> omega
      have hRange : 0 < chunk ∧ chunk ≤ remaining ∧ chunk ≤ 32 ∧ (remaining - chunk = 0 ∨ chunk = 32) := by
        rw [← hChunk]
        split <;> omega
      have hLength := length_block pw salt (UInt32.le_iff_toNat_le.mp hPos) i
      have hRest := ih (i + 1) (remaining - chunk) (by omega) (by omega)
      rw [UInt32.ofNat_add] at hRest
      dsimp only
      rw [block_at_cursor pw salt hPos (by omega), hCount, List.range_succ_eq_map, List.flatMap_cons,
        List.flatMap_map, Nat.add_zero,
        List.take_append, hLength]
      refine congrArg₂ (· ++ ·) ?_ (hRest.trans ?_)
      · rcases hRange.2.2.2 with hLast | rfl
        · rw [show chunk = remaining by omega]
        · rw [List.take_of_length_le (Nat.le_of_eq hLength),
            List.take_of_length_le (hLength.trans_le hRange.2.1)]
      · have hWant : remaining - chunk = remaining - 32 := by omega
        simp only [Nat.succ_eq_add_one, Nat.add_right_comm i 1, Nat.add_assoc i _ 1, hWant]

theorem pbkdf2_standard (pw salt : Bytes) (iterations : UInt32) (outLen : Nat) (hPos : 1 ≤ iterations)
    (hLen : outLen ≤ (2 ^ 32 - 1) * 32) : pbkdf2HmacSha256 pw salt iterations outLen =
      Mac.pbkdf2 (Mac.hmac Fips.sha256 64) 32 pw salt iterations.toNat outLen := by
  rw [pbkdf2HmacSha256, Mac.pbkdf2]
  refine (blockLoop_spec pw salt hPos outLen 1 outLen (Nat.le_refl _) (by omega)).trans ?_
  simp only [Nat.add_comm 1]
  rfl

/-- A key of one block and a part, of two rounds each. -/
theorem pbkdf2_standard_two_blocks : pbkdf2HmacSha256 (ascii "password") (ascii "salt") 2 40 =
    Mac.pbkdf2 (Mac.hmac Fips.sha256 64) 32 (ascii "password") (ascii "salt") 2 40 :=
  pbkdf2_standard (ascii "password") (ascii "salt") 2 40 (by decide) (by decide)

end Cweb.Password
