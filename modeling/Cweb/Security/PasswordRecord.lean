import Cweb.Security.Pbkdf2

/-!
# What a stored password accepts

A record is read back to what was written into it. What decides is the limit
that only the reader has on the iterations.
-/

namespace Cweb.Password

open Sv Hmac Base64

theorem fold_eq_zero_iff (a : Bytes) : ∀ (b : Bytes) (diff : UInt8), a.length = b.length →
    ((List.zip a b).foldl (fun diff p => diff ||| (p.1 ^^^ p.2)) diff = 0 ↔ diff = 0 ∧ a = b) := by
  induction a with
  | nil =>
    intro b diff h
    obtain rfl := List.length_eq_zero_iff.mp h.symm
    exact (and_iff_left rfl).symm
  | cons x a ih =>
    intro b diff h
    cases b with
    | nil => exact absurd h (Nat.succ_ne_zero _)
    | cons y b =>
      rw [List.zip_cons_cons, List.foldl_cons, ih b _ (Nat.succ.inj h), UInt8.or_eq_zero_iff,
        UInt8.xor_eq_zero_iff, List.cons.injEq, and_assoc]

theorem secureByteEqual_iff {a b : Bytes} (h : a.length = b.length) : secureByteEqual a b = true ↔ a = b := by
  rw [secureByteEqual, beq_iff_eq, fold_eq_zero_iff a b 0 h, and_iff_right rfl]

theorem length_pbkdf2 (pw salt : Bytes) {iterations : UInt32} (hPos : 1 ≤ iterations) :
    (pbkdf2HmacSha256 pw salt iterations 32).length = 32 := by
  rw [pbkdf2_standard pw salt iterations 32 hPos (by decide), Mac.pbkdf2, List.length_take]
  change min 32 (List.flatMap _ (List.range 1)).length = 32
  rw [List.range_one, List.flatMap_singleton]
  exact Nat.min_eq_left (Nat.le_of_eq (length_block pw salt (UInt32.le_iff_toNat_le.mp hPos) 1).symm)

def Says (record : Bytes) (iterations : Nat) (salt hash : Bytes) : Prop :=
  ∃ iters saltText hashText, parseRecord (svFromCstr record) = some (iters, saltText, hashText) ∧
    svToI64 iters = some (iterations : Int) ∧ base64DecodeInto saltText = some salt ∧
    base64DecodeInto hashText = some hash

/-- What is asked of a record besides. -/
structure Usable (iterations : Nat) (salt hash : Bytes) : Prop where
  positive : 1 ≤ iterations
  limit : iterations ≤ 100000000
  salted : salt ≠ []
  whole : hash.length = 32

theorem verify_iff (password record : Bytes) : cwebPasswordVerify (some password) (some record) = true ↔
    ∃ iterations salt hash, Says record iterations salt hash ∧ Usable iterations salt hash ∧
      Mac.pbkdf2 (Mac.hmac Fips.sha256 64) 32 (svFromCstr password) salt iterations 32 = hash := by
  constructor
  · intro h
    rw [cwebPasswordVerify] at h
    split at h
    · cases h
    next itersText saltText hashText hParse =>
    split at h
    · cases h
    next iterations hIters =>
    split at h
    · cases h
    next hRange =>
    obtain ⟨hLow, hHigh⟩ := not_or.mp hRange
    split at h
    · next salt hash hSalt hHash =>
      split at h
      · cases h
      next hSizes =>
      obtain ⟨hSalted, hWhole⟩ := not_or.mp hSizes
      obtain ⟨n, rfl⟩ := Int.eq_ofNat_of_zero_le (show 0 ≤ iterations by omega)
      have hValue : (UInt32.ofNat n).toNat = n := UInt32.toNat_ofNat_of_lt' (by change n < 2 ^ 32; omega)
      have hPos : 1 ≤ UInt32.ofNat n := UInt32.le_iff_toNat_le.mpr (by rw [hValue]; change 1 ≤ n; omega)
      rw [Int.toNat_natCast, secureByteEqual_iff ((length_pbkdf2 _ _ hPos).trans (not_ne_iff.mp hWhole).symm),
        pbkdf2_standard _ _ _ 32 hPos (by decide), hValue] at h
      exact ⟨n, salt, hash, ⟨itersText, saltText, hashText, hParse, hIters, hSalt, hHash⟩,
        ⟨by omega, by omega, fun hNil => hSalted (hNil ▸ rfl), not_ne_iff.mp hWhole⟩, h⟩
    · cases h
  · rintro ⟨n, salt, hash, ⟨itersText, saltText, hashText, hParse, hIters, hSalt, hHash⟩,
      ⟨hLow, hHigh, hSalted, hWhole⟩, hKey⟩
    have hValue : (UInt32.ofNat n).toNat = n := UInt32.toNat_ofNat_of_lt' (by change n < 2 ^ 32; omega)
    have hPos : 1 ≤ UInt32.ofNat n := UInt32.le_iff_toNat_le.mpr (by rw [hValue]; exact hLow)
    have hSizes : ¬(salt.length = 0 ∨ hash.length ≠ 32) :=
      not_or.mpr ⟨fun h => hSalted (List.length_eq_zero_iff.mp h), not_ne_iff.mpr hWhole⟩
    rw [cwebPasswordVerify, hParse]
    dsimp only
    rw [hIters]
    dsimp only
    rw [if_neg (by omega), hSalt, hHash]
    dsimp only
    rw [if_neg hSizes, Int.toNat_natCast, secureByteEqual_iff ((length_pbkdf2 _ _ hPos).trans hWhole.symm),
      pbkdf2_standard _ _ _ 32 hPos (by decide), hValue]
    exact hKey

theorem Says.unique {record : Bytes} {n n' : Nat} {salt salt' hash hash' : Bytes}
    (h : Says record n salt hash)
    (h' : Says record n' salt' hash') : n' = n ∧ salt' = salt ∧ hash' = hash := by
  obtain ⟨iters, saltText, hashText, hParse, hIters, hSalt, hHash⟩ := h
  obtain ⟨iters', saltText', hashText', hParse', hIters', hSalt', hHash'⟩ := h'
  rw [hParse, Option.some.injEq, Prod.mk.injEq, Prod.mk.injEq] at hParse'
  obtain ⟨rfl, rfl, rfl⟩ := hParse'
  rw [hIters, Option.some.injEq, Int.natCast_inj] at hIters'
  rw [hSalt, Option.some.injEq] at hSalt'
  rw [hHash, Option.some.injEq] at hHash'
  exact ⟨hIters'.symm, hSalt'.symm, hHash'.symm⟩

/-! ## The record of a hash -/

theorem base64_ne {d : Bytes} {c : UInt8} (hc : c ∈ base64EncodeInto d) : c ≠ 36 ∧ c ≠ 0 := by
  rw [base64EncodeInto_eq, List.mem_append] at hc
  rcases hc with hc | hc
  · exact (unpadded_ne d c hc).2
  · rw [List.eq_of_mem_replicate hc]
    decide

theorem decimal_ne {n : Nat} {c : UInt8} (hc : c ∈ decimal n) : c ≠ 36 ∧ c ≠ 0 := by
  have hDigit := decimalFuel_isdigit n n c hc
  constructor
  · rintro rfl
    exact absurd hDigit (by decide)
  · rintro rfl
    exact absurd hDigit (by decide)

theorem not_mem_recordText (salt : Bytes) (iterations : UInt32) (dk : Bytes) :
    0 ∉ recordText salt iterations dk := by
  intro h
  simp only [recordText, List.mem_append, List.mem_singleton] at h
  rcases h with ((((h | h) | h) | h) | h) | h
  · exact absurd h (by decide)
  · exact (decimal_ne h).2 rfl
  · exact absurd h (by decide)
  · exact (base64_ne h).2 rfl
  · exact absurd h (by decide)
  · exact (base64_ne h).2 rfl

theorem says_recordText (salt : Bytes) (iterations : UInt32) (dk : Bytes) :
    Says (recordText salt iterations dk ++ [0]) iterations.toNat salt dk := by
  have hText : svFromCstr (recordText salt iterations dk ++ [0]) = recordText salt iterations dk := by
    rw [svFromCstr_append (not_mem_recordText salt iterations dk)]
    exact List.append_nil _
  have hIters : svToI64 (decimal iterations.toNat) = some (iterations.toNat : Int) := by
    have hLt := iterations.toNat_lt
    have hRead := svToI64_decimalInt (iterations.toNat : Int) (by omega) (by simp only [llongMax]; omega)
    rw [if_neg (by omega)] at hRead
    exact hRead
  have hParse : parseRecord (recordText salt iterations dk) = some
    (decimal iterations.toNat, base64EncodeInto salt, base64EncodeInto dk) := by
    have hShape : recordText salt iterations dk =
        ascii "pbkdf2" ++
        36 :: (decimal iterations.toNat ++ 36 :: (base64EncodeInto salt ++ 36 :: base64EncodeInto dk)) := by
      simp only [recordText, List.append_assoc, List.singleton_append]
      rfl
    rw [parseRecord, hShape, svChopByDelim_append 36 _ _ (by decide)]
    dsimp only
    rw [svChopByDelim_append 36 _ _ fun h => (decimal_ne h).1 rfl]
    dsimp only
    rw [svChopByDelim_append 36 _ _ fun h => (base64_ne h).1 rfl]
    exact if_pos rfl
  rw [Says, hText]
  exact ⟨_, _, _, hParse, hIters, base64DecodeInto_encode salt, base64DecodeInto_encode dk⟩

theorem length_base64EncodeInto (d : Bytes) : (base64EncodeInto d).length = (d.length + 2) / 3 * 4 := by
  rw [base64EncodeInto_eq, List.length_append, length_unpadded, List.length_replicate]
  omega

theorem length_recordText_le (salt : Vector UInt8 16) (iterations : UInt32) {dk : Bytes}
    (hdk : dk.length = 32) :
    (recordText salt.toList iterations dk).length < passwordHashMax := by
  have hDecimal : (decimal iterations.toNat).length ≤ 10 :=
    length_decimal_of_lt 9 (iterations.toNat_lt.trans (by decide))
  have hPrefix : (ascii "pbkdf2$").length = 7 := rfl
  simp only [recordText, List.length_append, length_base64EncodeInto, Vector.length_toList, hdk,
    hPrefix, List.length_singleton,
    passwordHashMax]
  omega

theorem usedIterations_pos (iterations : UInt32) : 1 ≤ usedIterations iterations := by
  rw [usedIterations]
  split
  · decide
  · next h =>
    rw [UInt32.le_iff_toNat_le]
    exact Nat.one_le_iff_ne_zero.mpr fun hZero => h (UInt32.toNat_inj.mp hZero)

theorem exists_hash (salt : Vector UInt8 16) (password : Bytes) (iterations : UInt32) {outSize : Nat}
    (h : passwordHashMax ≤ outSize) :
    ∃ out, cwebPasswordHash (some salt) password iterations outSize = some out := by
  have hLength := length_recordText_le salt (usedIterations iterations)
    (length_pbkdf2 (svFromCstr password) salt.toList (usedIterations_pos iterations))
  exact ⟨_, if_neg (by omega)⟩

theorem verify_hash_iff {salt : Vector UInt8 16} {password : Bytes} {iterations : UInt32}
    {outSize : Nat} {out : Bytes}
    (h : cwebPasswordHash (some salt) password iterations outSize = some out) :
    cwebPasswordVerify (some password) (some out) = true ↔ (usedIterations iterations).toNat ≤ 100000000 := by
  rw [cwebPasswordHash] at h
  split at h
  · cases h
  rw [Option.some.injEq] at h
  have hPos := usedIterations_pos iterations
  have hSays := says_recordText salt.toList (usedIterations iterations)
    (pbkdf2HmacSha256 (svFromCstr password) salt.toList (usedIterations iterations) 32)
  rw [h] at hSays
  rw [verify_iff]
  constructor
  · rintro ⟨n, salt', hash, hSays', hUsable, -⟩
    rw [← (hSays.unique hSays').1]
    exact hUsable.limit
  · intro hLimit
    refine ⟨_, _, _, hSays, ⟨UInt32.le_iff_toNat_le.mp hPos, hLimit, ?_, length_pbkdf2 _ _ hPos⟩,
      (pbkdf2_standard _ _ _ 32 hPos (by decide)).symm⟩
    intro hNil
    have hLength : salt.toList.length = 16 := Vector.length_toList
    rw [hNil] at hLength
    exact absurd hLength (by decide)

/-- A record that was written is read again, and no other key passes than the
one it holds, exactly when the iterations are within the limit of the reader. -/
theorem password_records_iff {salt : Vector UInt8 16} {password : Bytes} {iterations : UInt32}
    {outSize : Nat} {out : Bytes}
    (h : cwebPasswordHash (some salt) password iterations outSize = some out) :
    (cwebPasswordVerify (some password) (some out) = true ∧
      ∀ p record, cwebPasswordVerify (some p) (some record) = true → ∃ n s hash, Says record n s hash ∧
        hash.length = 32 ∧
        Mac.pbkdf2 (Mac.hmac Fips.sha256 64) 32 (svFromCstr p) s n 32 = hash) ↔
    (usedIterations iterations).toNat ≤ 100000000 := by
  rw [verify_hash_iff h, and_iff_left]
  intro p record hVerify
  obtain ⟨n, s, hash, hSays, hUsable, hKey⟩ := (verify_iff p record).mp hVerify
  exact ⟨n, s, hash, hSays, hUsable.whole, hKey⟩

theorem password_records_one :
    ∃ out, cwebPasswordHash (some (Vector.replicate 16 7)) (ascii "secret") 1 128 = some out ∧
    ((cwebPasswordVerify (some (ascii "secret")) (some out) = true ∧
      ∀ p record, cwebPasswordVerify (some p) (some record) = true → ∃ n s hash, Says record n s hash ∧
        hash.length = 32 ∧
        Mac.pbkdf2 (Mac.hmac Fips.sha256 64) 32 (svFromCstr p) s n 32 = hash) ↔
          (usedIterations 1).toNat ≤ 100000000) := by
  obtain ⟨out, h⟩ := exists_hash (Vector.replicate 16 7) (ascii "secret") 1 (Nat.le_refl 128)
  exact ⟨out, h, password_records_iff h⟩

/-- One round more than the reader allows locks the user out. -/
theorem password_locked_out :
    ∃ out, cwebPasswordHash (some (Vector.replicate 16 7)) (ascii "secret") 100000001 128 = some out ∧
    cwebPasswordVerify (some (ascii "secret")) (some out) = false := by
  obtain ⟨out, h⟩ := exists_hash (Vector.replicate 16 7) (ascii "secret") 100000001 (Nat.le_refl 128)
  refine ⟨out, h, ?_⟩
  rw [Bool.eq_false_iff, ne_eq, verify_hash_iff h]
  decide

end Cweb.Password
