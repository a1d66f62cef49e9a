import Mathlib.Algebra.Order.Field.Basic
import Mathlib.Algebra.Order.Group.MinMax
import Mathlib.Tactic.Linarith

/-!
# Token buckets

A bucket gains tokens with time up to a limit, and whoever takes one of them is
granted a call. The time of a bucket is the latest that it was shown, whatever
the clock says after that.
-/

namespace TokenBucket

variable {K : Type*} [Field K] [LinearOrder K] [IsStrictOrderedRing K]

structure Bucket (K : Type*) where
  tokens : K
  time : K

def refill (rate burst now : K) (b : Bucket K) : K := min (b.tokens + max (now - b.time) 0 * rate) burst

def turn (rate burst now : K) (b : Bucket K) : Bucket K × Bool :=
  if 1 ≤ refill rate burst now b then (⟨refill rate burst now b - 1, max b.time now⟩, true)
  else (⟨refill rate burst now b, max b.time now⟩, false)

/-- The bucket after some calls, and how many of them were granted. -/
def run (rate burst : K) : List K → Bucket K → Bucket K × Nat
  | [], b => (b, 0)
  | now :: readings, b =>
    let r := turn rate burst now b
    let rest := run rate burst readings r.1
    (rest.1, (if r.2 then 1 else 0) + rest.2)

structure Bucket.Within (burst : K) (b : Bucket K) : Prop where
  nonneg : 0 ≤ b.tokens
  le_burst : b.tokens ≤ burst

theorem refill_nonneg {rate burst : K} (hRate : 0 ≤ rate) (hBurst : 0 ≤ burst) (now : K) {b : Bucket K}
    (h : b.Within burst) :
    0 ≤ refill rate burst now b :=
  le_min (add_nonneg h.nonneg (mul_nonneg (le_max_right _ _) hRate)) hBurst

theorem Bucket.Within.turn {rate burst : K} (hRate : 0 ≤ rate) (hBurst : 0 ≤ burst) (now : K)
    {b : Bucket K} (h : b.Within burst) :
    (turn rate burst now b).1.Within burst := by
  have hLimit : refill rate burst now b ≤ burst := min_le_right _ _
  rw [TokenBucket.turn]
  split
  · next hOne => exact ⟨sub_nonneg.mpr hOne, (sub_le_self _ zero_le_one).trans hLimit⟩
  · exact ⟨refill_nonneg hRate hBurst now h, hLimit⟩

theorem turn_paid (rate burst now : K) (b : Bucket K) :
    (if (turn rate burst now b).2 then 1 else 0) + (turn rate burst now b).1.tokens ≤
      b.tokens + rate * ((turn rate burst now b).1.time - b.time) := by
  have hPassed : max b.time now - b.time = max (now - b.time) 0 := by
    rw [max_comm, ← max_sub_sub_right, sub_self]
  have hRefill : refill rate burst now b ≤ b.tokens + rate * (max b.time now - b.time) := by
    rw [hPassed, mul_comm]
    exact min_le_left _ _
  rw [turn]
  split
  · simpa using hRefill
  · simpa using hRefill

/-- So are all calls of a run. -/
theorem run_paid (rate burst : K) (readings : List K) : ∀ b :
    Bucket K, ((run rate burst readings b).2 : K) + (run rate burst readings b).1.tokens ≤
    b.tokens + rate * ((run rate burst readings b).1.time - b.time) := by
  induction readings with
  | nil =>
    intro b
    simp [run]
  | cons now readings ih =>
    intro b
    have hTurn := turn_paid rate burst now b
    have hRest := ih (turn rate burst now b).1
    have hCast : (((if (turn rate burst now b).2 then 1 else 0 : Nat) : Nat) : K) = if
      (turn rate burst now b).2 then 1 else 0 := by
      split <;> simp
    rw [run]
    dsimp only
    rw [Nat.cast_add, hCast]
    linarith

theorem Bucket.Within.run {rate burst : K} (hRate : 0 ≤ rate) (hBurst : 0 ≤ burst) (readings : List K) :
    ∀ {b : Bucket K}, b.Within burst →
    (run rate burst readings b).1.Within burst := by
  induction readings with
  | nil => exact fun h => h
  | cons now readings ih => exact fun h => ih (h.turn hRate hBurst now)

/-- From a full bucket there are no more calls than the limit and the time that
passed allow. -/
theorem granted_le {rate burst : K} (hRate : 0 ≤ rate) (hBurst : 0 ≤ burst) (readings : List K) (start : K) :
    ((run rate burst readings ⟨burst, start⟩).2 : K) ≤ burst +
      rate * ((run rate burst readings ⟨burst, start⟩).1.time - start) := by
  have hPaid := run_paid rate burst readings ⟨burst, start⟩
  have hWithin : Bucket.Within burst (⟨burst, start⟩ : Bucket K) := ⟨hBurst, le_refl burst⟩
  have hLeft := (hWithin.run hRate hBurst readings).nonneg
  linarith

omit [IsStrictOrderedRing K] in
theorem run_time (rate burst : K) (readings : List K) : ∀ b :
    Bucket K, (run rate burst readings b).1.time = readings.foldl max b.time := by
  induction readings with
  | nil => exact fun _ => rfl
  | cons now readings ih =>
    intro b
    have hTime : (turn rate burst now b).1.time = max b.time now := by
      rw [turn]
      split
      · rfl
      · rfl
    rw [List.foldl_cons, ← hTime]
    exact ih _

omit [IsStrictOrderedRing K] in
theorem turn_restart (rate burst : K) {now : K} {b : Bucket K} (h : b.time ≤ now) :
    turn rate burst now ⟨refill rate burst now b, now⟩ = turn rate burst now b := by
  have hRefill : refill rate burst now ⟨refill rate burst now b, now⟩ = refill rate burst now b := by
    have hLimit : refill rate burst now b ≤ burst := min_le_right _ _
    rw [refill, sub_self, max_self, zero_mul, add_zero, min_eq_left hLimit]
  rw [turn, turn, hRefill, max_self, max_eq_right h]

omit [Field K] [IsStrictOrderedRing K] in
theorem foldl_max_le (readings : List K) : ∀ {start last : K}, start ≤ last →
    (∀ now ∈ readings, now ≤ last) → readings.foldl max start ≤ last := by
  induction readings with
  | nil => exact fun hStart _ => hStart
  | cons now readings ih =>
    intro start last hStart hAll
    rw [List.forall_mem_cons] at hAll
    exact ih (max_le hStart hAll.1) hAll.2

/-- In any stretch of time there are no more calls than the limit and that time
allow, however long the bucket was left alone before. -/
theorem granted_window {rate burst : K} (hRate : 0 ≤ rate) (hBurst : 0 ≤ burst) (readings : List K)
    {b : Bucket K} (hWithin : b.Within burst)
    {first last : K} (hOrder : first ≤ last)
    (hSpan : ∀ now ∈ readings, b.time ≤ now ∧ first ≤ now ∧ now ≤ last) :
    ((run rate burst readings b).2 : K) ≤ burst + rate * (last - first) := by
  cases readings with
  | nil =>
    rw [run, Nat.cast_zero]
    exact add_nonneg hBurst (mul_nonneg hRate (sub_nonneg.mpr hOrder))
  | cons now readings =>
    obtain ⟨hLate, hFirst, hLast⟩ := hSpan now List.mem_cons_self
    have hSame : run rate burst (now :: readings) b = run rate burst (now :: readings)
      ⟨refill rate burst now b, now⟩ := by
      rw [run, run, turn_restart rate burst hLate]
    have hFull : Bucket.Within burst ⟨refill rate burst now b, now⟩ :=
      ⟨refill_nonneg hRate hBurst now hWithin, min_le_right _ _⟩
    have hPaid := run_paid rate burst (now :: readings) ⟨refill rate burst now b, now⟩
    have hLeft := (hFull.run hRate hBurst (now :: readings)).nonneg
    have hEnd : (run rate burst (now :: readings) ⟨refill rate burst now b, now⟩).1.time ≤ last := by
      rw [run_time]
      exact foldl_max_le _ hLast fun t ht => (hSpan t ht).2.2
    have hEarned := mul_le_mul_of_nonneg_left (sub_le_sub hEnd hFirst) hRate
    have hTokens := hFull.le_burst
    rw [hSame]
    linarith

end TokenBucket
