import Cweb.Lib.TokenBucket
import Cweb.Utils.Sv
import Mathlib.Data.Rat.Defs
import Mathlib.Algebra.Order.Field.Rat
import Mathlib.Data.Rat.Cast.Order

/-!
# Rate limiting

A table holds one bucket for each key. The code counts tokens in doubles; here
they are rationals.
-/

namespace Cweb.RateLimit

open Sv

structure HttpRateLimitBucket where
  key : Bytes
  tokens : ℚ
  lastMs : Nat
deriving DecidableEq, Repr

structure HttpRateLimiter where
  items : List HttpRateLimitBucket
  rate : ℚ
  burst : ℚ
deriving DecidableEq, Repr

def httpRateLimiterInit (rate burst : ℚ) : HttpRateLimiter := ⟨[], rate, burst⟩

/-- The bucket that the calls with a key look at. Keys are compared as C strings. -/
def HttpRateLimiter.findBucket (rl : HttpRateLimiter) (key : Bytes) : Option HttpRateLimitBucket :=
  rl.items.find? (·.key = svFromCstr key)

/-- The table with a bucket for the key, and where it stands. -/
def bucketFor (rl : HttpRateLimiter) (key : Bytes) (now : Nat) : HttpRateLimiter × Nat :=
  match rl.items.findIdx? (·.key = svFromCstr key) with
  | some i => (rl, i)
  | none => ({ rl with items := rl.items ++ [⟨svFromCstr key, rl.burst, now⟩] }, rl.items.length)

/-- The tokens before the test for a whole one. -/
def refilled (rate burst : ℚ) (now : Nat) (tokens : ℚ) (lastMs : Nat) : ℚ :=
  let delta := if lastMs < now then now - lastMs else 0
  let dt : ℚ := delta / 1000
  let tokens := tokens + dt * rate
  if burst < tokens then burst else tokens

/-- What a call leaves in a bucket, and its answer. -/
def allowBucket (rate burst : ℚ) (now : Nat) (b : HttpRateLimitBucket) : HttpRateLimitBucket × Int :=
  let tokens := refilled rate burst now b.tokens b.lastMs
  if 1 ≤ tokens then ({ b with tokens := tokens - 1, lastMs := now }, 0)
  else ({ b with tokens := tokens, lastMs := now }, -1)

def httpRateLimiterAllow (rl : HttpRateLimiter) (key : Bytes) (now : Nat) : HttpRateLimiter × Int :=
  let (rl, i) := bucketFor rl key now
  match rl.items[i]? with
  | none => (rl, -1)
  | some b =>
    let r := allowBucket rl.rate rl.burst now b
    ({ rl with items := rl.items.set i r.1 }, r.2)

/-! ## Runs -/

structure Call where
  key : Bytes
  now : Nat
deriving DecidableEq, Repr

/-- The limiter after some calls, and their answers. -/
def runCalls (rl : HttpRateLimiter) : List Call → HttpRateLimiter × List Int
  | [] => (rl, [])
  | c :: calls =>
    let r := httpRateLimiterAllow rl c.key c.now
    let rest := runCalls r.1 calls
    (rest.1, r.2 :: rest.2)

def sameKey (key key' : Bytes) : Bool := svFromCstr key = svFromCstr key'

/-- The clock readings of the calls with a key. -/
def readings (calls : List Call) (key : Bytes) : List Nat :=
  (calls.filter fun c => sameKey c.key key).map (·.now)

def largest (calls : List Call) : Nat := (calls.map (·.now)).foldl max 0

/-- How many calls with a key are allowed. -/
def allowedCalls (rl : HttpRateLimiter) (calls : List Call) (key : Bytes) : Nat :=
  (List.zip calls (runCalls rl calls).2).countP fun p => sameKey p.1.key key && p.2 == 0

/-! ## One call -/

def seconds (ms : Nat) : ℚ := ms / 1000

/-- The arithmetic of a call is that of a token bucket whose time is the last
reading. -/
def HttpRateLimitBucket.bucket (b : HttpRateLimitBucket) : TokenBucket.Bucket ℚ :=
  ⟨b.tokens, seconds b.lastMs⟩

theorem seconds_mono {x y : Nat} (h : x ≤ y) : seconds x ≤ seconds y :=
  div_le_div_of_nonneg_right (Nat.cast_le.mpr h) (by norm_num)

theorem refilled_eq (rate burst : ℚ) (now : Nat) (b : HttpRateLimitBucket) :
    refilled rate burst now b.tokens b.lastMs = TokenBucket.refill rate burst (seconds now) b.bucket := by
  have hDelta : (((if b.lastMs < now then now - b.lastMs else 0 : Nat) : Nat) : ℚ) / 1000 = max
    (seconds now - seconds b.lastMs) 0 := by
    rw [seconds, seconds]
    split
    · next hLt =>
      have hLe : (b.lastMs : ℚ) ≤ now := Nat.cast_le.mpr hLt.le
      rw [Nat.cast_sub hLt.le, sub_div, max_eq_left]
      linarith
    · next hGe =>
      have hLe : (now : ℚ) ≤ b.lastMs := Nat.cast_le.mpr (Nat.le_of_not_lt hGe)
      rw [max_eq_right, Nat.cast_zero, zero_div]
      linarith
  rw [refilled, hDelta]
  split
  · next hMore => exact (min_eq_right hMore.le).symm
  · next hLess => exact (min_eq_left (not_lt.mp hLess)).symm

theorem allowBucket_spec (rate burst : ℚ) (now : Nat) (b : HttpRateLimitBucket) :
    (allowBucket rate burst now b).1.tokens = (TokenBucket.turn rate burst (seconds now) b.bucket).1.tokens ∧
      ((allowBucket rate burst now b).2 = 0 ↔ (TokenBucket.turn rate burst (seconds now) b.bucket).2 = true) ∧
      (allowBucket rate burst now b).1.lastMs = now ∧ (allowBucket rate burst now b).1.key = b.key := by
  rw [allowBucket, TokenBucket.turn, ← refilled_eq]
  split
  · exact ⟨rfl, iff_of_true rfl rfl, rfl, rfl⟩
  · exact ⟨rfl, iff_of_false (fun h => absurd h (by decide : (-1 : Int) ≠ 0)) Bool.false_ne_true, rfl, rfl⟩

theorem find?_set_self {α : Type} {p : α → Bool} {y : α} (hy : p y = true) (l : List α) :
    ∀ {i : Nat}, l.findIdx? p = some i →
    l[i]? = l.find? p ∧ (l.set i y).find? p = some y := by
  induction l with
  | nil => exact fun h => absurd h (by simp)
  | cons x l ih =>
    intro i h
    rw [List.findIdx?_cons] at h
    split at h
    · next hx =>
      obtain rfl := Option.some.inj h
      exact ⟨by rw [List.find?_cons_of_pos hx]; rfl, List.find?_cons_of_pos hy⟩
    · next hx =>
      obtain ⟨j, hj, rfl⟩ := Option.map_eq_some_iff.mp h
      rw [List.find?_cons_of_neg hx, List.set_cons_succ, List.find?_cons_of_neg hx]
      exact ih hj

theorem find?_set_other {α : Type} {p : α → Bool} {x y : α} (hx : p x = false) (hy : p y = false)
    (l : List α) : ∀ {i : Nat},
    l[i]? = some x → (l.set i y).find? p = l.find? p := by
  induction l with
  | nil => exact fun h => absurd h (by simp)
  | cons z l ih =>
    intro i h
    cases i with
    | zero =>
      obtain rfl := Option.some.inj h
      rw [List.set_cons_zero, List.find?_cons_of_neg (by simp [hy]), List.find?_cons_of_neg (by simp [hx])]
    | succ i =>
      rw [List.set_cons_succ, List.find?_cons, List.find?_cons, ih h]

def HttpRateLimiter.bucketAt (rl : HttpRateLimiter) (key : Bytes) (now : Nat) : HttpRateLimitBucket :=
  (rl.findBucket key).getD ⟨svFromCstr key, rl.burst, now⟩

theorem key_bucketAt (rl : HttpRateLimiter) (key : Bytes) (now : Nat) :
    (rl.bucketAt key now).key = svFromCstr key := by
  rw [HttpRateLimiter.bucketAt]
  cases hFind : rl.findBucket key with
  | none => rfl
  | some b => simpa using List.find?_some hFind

theorem bucketFor_spec (rl : HttpRateLimiter) (key : Bytes) (now : Nat) :
    (bucketFor rl key now).1.rate = rl.rate ∧ (bucketFor rl key now).1.burst = rl.burst ∧
      (bucketFor rl key now).1.items.findIdx? (·.key = svFromCstr key) = some (bucketFor rl key now).2 ∧
      (bucketFor rl key now).1.findBucket key = some (rl.bucketAt key now) ∧
      ∀ key', sameKey key key' = false → (bucketFor rl key now).1.findBucket key' = rl.findBucket key' := by
  rw [bucketFor, HttpRateLimiter.bucketAt]
  cases hIdx : rl.items.findIdx? (·.key = svFromCstr key) with
  | some i =>
    obtain ⟨hLt, hHit, hFirst⟩ := List.findIdx?_eq_some_iff_getElem.mp hIdx
    have hFind : rl.findBucket key = some rl.items[i] :=
      List.find?_eq_some_iff_getElem.mpr ⟨hHit, i, hLt, rfl, fun j hj => by simpa using hFirst j hj⟩
    dsimp only
    rw [hFind]
    exact ⟨rfl, rfl, hIdx, rfl, fun _ _ => rfl⟩
  | none =>
    have hNone : rl.findBucket key = none := by
      rw [HttpRateLimiter.findBucket, List.find?_eq_none]
      intro b hb
      simpa using List.findIdx?_eq_none_iff.mp hIdx b hb
    dsimp only
    rw [hNone]
    refine ⟨rfl, rfl, ?_, ?_, ?_⟩
    · rw [List.findIdx?_append, hIdx]
      simp
    · rw [HttpRateLimiter.findBucket] at hNone ⊢
      rw [List.find?_append, hNone]
      simp
    · intro key' hOther
      rw [HttpRateLimiter.findBucket, List.find?_append,
        List.find?_cons_of_neg (by simpa [sameKey] using hOther), List.find?_nil, Option.or_none]
      rfl

theorem httpRateLimiterAllow_spec (rl : HttpRateLimiter) (key : Bytes) (now : Nat) :
    let r := allowBucket rl.rate rl.burst now (rl.bucketAt key now)
    (httpRateLimiterAllow rl key now).2 = r.2 ∧ (httpRateLimiterAllow rl key now).1.rate = rl.rate ∧
      (httpRateLimiterAllow rl key now).1.burst = rl.burst ∧
      ∀ key', (httpRateLimiterAllow rl key now).1.findBucket key' = if sameKey key key' then some r.1
        else rl.findBucket key' := by
  intro r
  obtain ⟨hRate, hBurst, hIdx, hFind, hOther⟩ := bucketFor_spec rl key now
  have hKey : r.1.key = svFromCstr key :=
    (allowBucket_spec rl.rate rl.burst now _).2.2.2.trans (key_bucketAt rl key now)
  obtain ⟨hGet, hSet⟩ := find?_set_self (y := r.1) (decide_eq_true hKey) _ hIdx
  rw [← HttpRateLimiter.findBucket, hFind] at hGet
  rw [httpRateLimiterAllow]
  generalize bucketFor rl key now = found at *
  obtain ⟨rl', i⟩ := found
  dsimp only at *
  rw [hGet]
  dsimp only
  rw [hRate, hBurst]
  refine ⟨rfl, rfl, rfl, ?_⟩
  intro key'
  split
  · next hSame =>
    have hEq : svFromCstr key = svFromCstr key' := by simpa [sameKey] using hSame
    rw [HttpRateLimiter.findBucket, ← hEq]
    exact hSet
  · next hDiffers =>
    have hNe : svFromCstr key ≠ svFromCstr key' := by simpa [sameKey] using hDiffers
    rw [← hOther key' (by simpa using hDiffers)]
    refine find?_set_other ?_ ?_ _ hGet
    · rw [key_bucketAt]
      exact decide_eq_false hNe
    · rw [hKey]
      exact decide_eq_false hNe

/-! ## The bucket of one key -/

/-- What the calls with one key do to its bucket, and how many are allowed. -/
def bucketRun (rate burst : ℚ) : List Nat → HttpRateLimitBucket → HttpRateLimitBucket × Nat
  | [], b => (b, 0)
  | now :: readings, b =>
    let r := allowBucket rate burst now b
    let rest := bucketRun rate burst readings r.1
    (rest.1, (if r.2 = 0 then 1 else 0) + rest.2)

theorem readings_cons_same {c : Call} {key : Bytes} (h : sameKey c.key key = true) (calls : List Call) :
    readings (c :: calls) key = c.now :: readings calls key := by
  rw [readings, @List.filter_cons_of_pos _ (fun c : Call => sameKey c.key key) c calls h]
  rfl

theorem readings_cons_other {c : Call} {key : Bytes} (h : sameKey c.key key = false) (calls : List Call) :
    readings (c :: calls) key = readings calls key := by
  rw [readings, @List.filter_cons_of_neg _ (fun c : Call => sameKey c.key key) c calls (by simp [h])]
  rfl

theorem allowedCalls_cons (rl : HttpRateLimiter) (c : Call) (calls : List Call) (key : Bytes) :
    allowedCalls rl (c :: calls) key =
      (if sameKey c.key key = true ∧ (httpRateLimiterAllow rl c.key c.now).2 = 0 then 1 else 0) +
        allowedCalls (httpRateLimiterAllow rl c.key c.now).1 calls key := by
  rw [allowedCalls, runCalls, List.zip_cons_cons, List.countP_cons, Nat.add_comm]
  simp only [Bool.and_eq_true, beq_iff_eq]
  rfl

theorem allowedCalls_eq (calls : List Call) : ∀ (rl : HttpRateLimiter)
    (key : Bytes), allowedCalls rl calls key =
    (bucketRun rl.rate rl.burst (readings calls key) (rl.bucketAt key ((readings calls key).headD 0))).2 := by
  induction calls with
  | nil => exact fun _ _ => rfl
  | cons c calls ih =>
    intro rl key
    obtain ⟨hAnswer, hRate, hBurst, hFind⟩ := httpRateLimiterAllow_spec rl c.key c.now
    have hBucket : ∀ now, (httpRateLimiterAllow rl c.key c.now).1.bucketAt key now =
        if sameKey c.key key then (allowBucket rl.rate rl.burst c.now (rl.bucketAt c.key c.now)).1
        else rl.bucketAt key now := by
      intro now
      rw [HttpRateLimiter.bucketAt, hFind key, hBurst]
      split
      · rfl
      · rfl
    rw [allowedCalls_cons, ih, hRate, hBurst, hAnswer, hBucket]
    cases hSame : sameKey c.key key with
    | true =>
      have hEq : svFromCstr c.key = svFromCstr key := by simpa [sameKey] using hSame
      have hAt : rl.bucketAt c.key c.now = rl.bucketAt key c.now := by
        rw [HttpRateLimiter.bucketAt, HttpRateLimiter.bucketAt, HttpRateLimiter.findBucket,
          HttpRateLimiter.findBucket, hEq]
      rw [readings_cons_same hSame, List.headD_cons, bucketRun, ← hAt]
      simp only [true_and, if_true]
    | false =>
      rw [readings_cons_other hSame]
      simp only [Bool.false_eq_true, false_and, if_false, Nat.zero_add]

/-! ## The bound -/

theorem bucketRun_eq (rate burst : ℚ) (readings : List Nat) : ∀ b :
    HttpRateLimitBucket, (b.lastMs :: readings).Pairwise (· ≤ ·) →
    (bucketRun rate burst readings b).2 = (TokenBucket.run rate burst (readings.map seconds) b.bucket).2 := by
  induction readings with
  | nil => exact fun _ _ => rfl
  | cons now readings ih =>
    intro b h
    obtain ⟨hFirst, hRest⟩ := List.pairwise_cons.mp h
    obtain ⟨hTokens, hAnswer, hLast, -⟩ := allowBucket_spec rate burst now b
    have hTime : (TokenBucket.turn rate burst (seconds now) b.bucket).1.time = seconds now := by
      have hLe : seconds b.lastMs ≤ seconds now := seconds_mono (hFirst now List.mem_cons_self)
      rw [TokenBucket.turn]
      split
      · exact max_eq_right hLe
      · exact max_eq_right hLe
    have hBucket : (allowBucket rate burst now b).1.bucket =
      (TokenBucket.turn rate burst (seconds now) b.bucket).1 := by
      rw [HttpRateLimitBucket.bucket, hTokens, hLast]
      exact congrArg (TokenBucket.Bucket.mk _) hTime.symm
    have hTail := ih (allowBucket rate burst now b).1 (by rw [hLast]; exact hRest)
    rw [bucketRun, List.map_cons, TokenBucket.run]
    dsimp only
    rw [hTail, hBucket]
    exact congrArg (· + _) (if_congr hAnswer rfl rfl)

theorem within_bucketFor {rl : HttpRateLimiter} (hBurst : 0 ≤ rl.burst) (key : Bytes) (now : Nat)
    (h : ∀ b ∈ rl.items, b.bucket.Within rl.burst) : ∀ b ∈ (bucketFor rl key now).1.items,
      b.bucket.Within rl.burst := by
  rw [bucketFor]
  split
  · exact h
  · intro b hb
    rcases List.mem_append.mp hb with hb | hb
    · exact h b hb
    · rw [List.mem_singleton.mp hb]
      exact ⟨hBurst, le_refl rl.burst⟩

theorem within_allow {rl : HttpRateLimiter} (hRate : 0 ≤ rl.rate) (hBurst : 0 ≤ rl.burst) (key : Bytes)
    (now : Nat)
    (h : ∀ b ∈ rl.items, b.bucket.Within rl.burst) :
    ∀ b ∈ (httpRateLimiterAllow rl key now).1.items, b.bucket.Within rl.burst := by
  obtain ⟨hRate', hBurst', -⟩ := bucketFor_spec rl key now
  have hFound := within_bucketFor hBurst key now h
  rw [httpRateLimiterAllow]
  generalize bucketFor rl key now = found at *
  obtain ⟨rl', i⟩ := found
  dsimp only at *
  rw [hRate', hBurst']
  split
  · exact hFound
  · next b hGet =>
    intro b' hb'
    rcases List.mem_or_eq_of_mem_set hb' with hb' | rfl
    · exact hFound b' hb'
    · obtain ⟨hTokens, -⟩ := allowBucket_spec rl.rate rl.burst now b
      have hTurn := (hFound b (List.mem_of_getElem? hGet)).turn hRate hBurst (seconds now)
      exact ⟨hTurn.nonneg.trans_eq hTokens.symm, hTokens.trans_le hTurn.le_burst⟩

theorem within_runCalls (calls : List Call) : ∀ {rl : HttpRateLimiter}, 0 ≤ rl.rate → 0 ≤ rl.burst →
    (∀ b ∈ rl.items, b.bucket.Within rl.burst) → ∀ b ∈ (runCalls rl calls).1.items,
      b.bucket.Within rl.burst := by
  induction calls with
  | nil => exact fun _ _ h => h
  | cons c calls ih =>
    intro rl hRate hBurst h
    obtain ⟨-, hRate', hBurst', -⟩ := httpRateLimiterAllow_spec rl c.key c.now
    have hNext := within_allow hRate hBurst c.key c.now h
    have hRest := @ih (httpRateLimiterAllow rl c.key c.now).1 (hRate'.symm ▸ hRate) (hBurst'.symm ▸ hBurst)
    rw [hBurst'] at hRest
    exact hRest hNext

theorem foldl_max_le_iff (readings : List Nat) :
    ∀ {start bound : Nat}, readings.foldl max start ≤ bound ↔ start ≤ bound ∧ ∀ now ∈ readings,
      now ≤ bound := by
  induction readings with
  | nil => simp
  | cons now readings ih =>
    intro start bound
    rw [List.foldl_cons, ih, max_le_iff, List.forall_mem_cons, and_assoc]

theorem le_largest {calls : List Call} {key : Bytes} {now : Nat} (h : now ∈ readings calls key) :
    now ≤ largest calls := by
  obtain ⟨c, hc, rfl⟩ := List.mem_map.mp h
  exact (foldl_max_le_iff _).mp (le_refl _) |>.2 c.now (List.mem_map_of_mem (List.mem_filter.mp hc).1)

theorem foldl_max_seconds (readings : List Nat) : ∀ start : Nat,
    (readings.map seconds).foldl max (seconds start) = seconds (readings.foldl max start) := by
  induction readings with
  | nil => exact fun _ => rfl
  | cons now readings ih =>
    intro start
    have hMax : max (seconds start) (seconds now) = seconds (max start now) := by
      rcases le_total start now with h | h
      · rw [max_eq_right h, max_eq_right (seconds_mono h)]
      · rw [max_eq_left h, max_eq_left (seconds_mono h)]
    rw [List.map_cons, List.foldl_cons, List.foldl_cons, hMax, ih]

/-- Whatever the calls, no bucket holds less than nothing or more than the
limit. And the calls with a key whose readings never step back are allowed no
more often than the limit and the time since the first of them permit. -/
theorem rate_limit_bound {rate burst : ℚ} (hRate : 0 ≤ rate) (hBurst : 0 ≤ burst) (calls : List Call) :
    (∀ b ∈ (runCalls (httpRateLimiterInit rate burst) calls).1.items, 0 ≤ b.tokens ∧ b.tokens ≤ burst) ∧
      ∀ key first, (readings calls key).head? = some first → (readings calls key).Pairwise (· ≤ ·) →
        (allowedCalls (httpRateLimiterInit rate burst) calls key : ℚ) ≤ burst +
          rate * ((largest calls : ℚ) - first) / 1000 := by
  constructor
  · intro b hb
    have hWithin :=
      @within_runCalls calls (httpRateLimiterInit rate burst) hRate hBurst
        (fun _ h => absurd h List.not_mem_nil) b hb
    exact ⟨hWithin.nonneg, hWithin.le_burst⟩
  · intro key first hFirst hForward
    have hCount := allowedCalls_eq calls (httpRateLimiterInit rate burst) key
    have hRange : ∀ now ∈ readings calls key, now ≤ largest calls := fun _ h => le_largest h
    generalize readings calls key = times at *
    obtain ⟨rest, rfl⟩ : ∃ rest, times = first :: rest := by
      cases times with
      | nil => cases hFirst
      | cons now rest => exact ⟨rest, congrArg (· :: rest) (Option.some.inj hFirst)⟩
    have hStart : (httpRateLimiterInit rate burst).bucketAt key first = ⟨svFromCstr key, burst, first⟩ := rfl
    rw [List.headD_cons, hStart] at hCount
    have hSame := bucketRun_eq rate burst (first :: rest) ⟨svFromCstr key, burst, first⟩
      (List.pairwise_cons.mpr
        ⟨fun now h => (List.mem_cons.mp h).elim (fun hEq => hEq.ge)
          ((List.pairwise_cons.mp hForward).1 now), hForward⟩)
    have hGranted := TokenBucket.granted_le hRate hBurst ((first :: rest).map seconds) (seconds first)
    have hTime :
      (TokenBucket.run rate burst ((first :: rest).map seconds) ⟨burst, seconds first⟩).1.time ≤ seconds
        (largest calls) := by
      rw [TokenBucket.run_time, foldl_max_seconds]
      exact seconds_mono ((foldl_max_le_iff _).mpr ⟨hRange first List.mem_cons_self, hRange⟩)
    have hEarned := mul_le_mul_of_nonneg_left (sub_le_sub_right hTime (seconds first)) hRate
    rw [seconds, seconds, ← sub_div, ← mul_div_assoc] at hEarned
    rw [hCount]
    exact (Nat.cast_le.mpr (le_of_eq hSame)).trans (hGranted.trans (add_le_add_right hEarned burst))

theorem rate_limit_bound_forward :
    (allowedCalls (httpRateLimiterInit 1 1) [⟨ascii "/", 0⟩, ⟨ascii "/api", 400⟩, ⟨ascii "/", 500⟩,
      ⟨ascii "/", 1000⟩] (ascii "/") : ℚ) ≤
      1 + 1 * ((largest [⟨ascii "/", 0⟩, ⟨ascii "/api", 400⟩,
            ⟨ascii "/", 500⟩, ⟨ascii "/", 1000⟩] : ℚ) - (0 : Nat)) / 1000 :=
  (rate_limit_bound (by norm_num) (by norm_num) _).2 (ascii "/") 0 (by decide) (by decide)

/-- A second that is lived through twice refills the bucket twice. -/
theorem rate_limit_clock_back :
    ¬(allowedCalls (httpRateLimiterInit 1 1) [⟨ascii "/", 0⟩, ⟨ascii "/", 1000⟩, ⟨ascii "/", 0⟩,
      ⟨ascii "/", 1000⟩] (ascii "/") : ℚ) ≤
      1 + 1 * ((largest [⟨ascii "/", 0⟩, ⟨ascii "/", 1000⟩, ⟨ascii "/", 0⟩, ⟨ascii "/", 1000⟩] : ℚ) -
      (0 : Nat)) / 1000 := by
  have hCount : allowedCalls (httpRateLimiterInit 1 1) [⟨ascii "/", 0⟩, ⟨ascii "/", 1000⟩,
    ⟨ascii "/", 0⟩, ⟨ascii "/", 1000⟩]
      (ascii "/") = 3 := by decide +kernel
  have hLargest : largest [⟨ascii "/", 0⟩, ⟨ascii "/", 1000⟩, ⟨ascii "/", 0⟩, ⟨ascii "/", 1000⟩] = 1000 := rfl
  rw [hCount, hLargest]
  norm_num

end Cweb.RateLimit
