import Cweb.Http.Auth
import Cweb.Http.RateLimit
import Cweb.Http.RequestCut
import Mathlib.Data.Rat.Floor

/-!
# What a caller is told of its budget, and whose budget it is

The middleware takes a token for whoever a request claims to come from and writes
down what is left. A refused request is told how long to wait. The account in the
credentials is billed before they are looked at, so it cannot be guessed at faster
from many addresses than from one.
-/

namespace Cweb.RateLimit

open Sv Base64 Auth Middleware Layers

variable {ω : Type}

/-! ## The middleware -/

def intMax : Int := 2 ^ 31 - 1

/-- The conversion of a double to a type with this largest value. C has no result for what
is out of range; the processor's instruction then gives the smallest value. -/
def truncInt (largest : Int) (q : ℚ) : Int :=
  let n := if 0 ≤ q then ⌊q⌋ else ⌈q⌉
  if -largest - 1 ≤ n ∧ n ≤ largest then n else -largest - 1

structure HttpRateLimitStatus where
  limit : Int
  remaining : Int
  reset : Int
deriving DecidableEq, Repr

def httpRateLimiterStatus (rl : HttpRateLimiter) (key : Bytes) : HttpRateLimitStatus :=
  match rl.findBucket key with
  | none => ⟨truncInt intMax rl.burst, truncInt intMax rl.burst, 0⟩
  | some b =>
    { limit := truncInt intMax rl.burst
      remaining := if 0 ≤ b.tokens then truncInt intMax b.tokens else 0
      reset := if 0 < rl.rate ∧
        b.tokens < rl.burst then truncInt intMax ((rl.burst - b.tokens) / rl.rate + 999 / 1000) else 0 }

/-- The name in front of the first colon of a header's credentials. -/
def claimedUser (auth : Bytes) : Option Bytes :=
  if 6 ≤ auth.length ∧ auth[5]? = some 32 ∧ (auth.take 5).map tolower = ascii "basic" then
    (base64DecodeInto (auth.drop 6)).bind fun decoded =>
      if 0 < colonAt decoded ∧ colonAt decoded < decoded.length then some (decoded.take (colonAt decoded))
      else none
  else none

def httpRateLimitUserKey (req : Identified) : Bytes :=
  if 0 < req.authUser.length then req.authUser
  else
    match (httpRequestGetHeader req.toHttpRequest (ascii "authorization")).bind claimedUser with
    | some user => user
    | none => if 0 < req.clientIp.length then req.clientIp else req.remote

/-- An empty key stands for all requests without one. -/
def limiterKey (keyFn : Option (Identified → Bytes)) (req : Identified) : Bytes :=
  let key := (keyFn.getD fun req => req.path) req
  if key.length = 0 then ascii "/" else key

def stampStatus (res : HttpResponse) (st : HttpRateLimitStatus) : HttpResponse :=
  let res := res.apply (.setHeader (ascii "X-RateLimit-Limit") (decimalInt st.limit))
  let res := res.apply (.setHeader (ascii "X-RateLimit-Remaining") (decimalInt st.remaining))
  res.apply (.setHeader (ascii "X-RateLimit-Reset") (decimalInt st.reset))

/-- The seconds in a `Retry-After`. -/
def retryAfter (rate tokens : ℚ) : Int :=
  let retry := (1 - tokens) / rate
  if retry < 1 / 10000 then 1 else truncInt llongMax (retry + 999 / 1000)

/-- The clock is read once for the call and once more for the answer to a refused
request. -/
def httpRateLimitMiddleware (part : Part ω HttpRateLimiter) (keyFn : Option (Identified → Bytes))
    (now again : Nat) :
    HttpMiddlewareFn (Exchange ω) := fun next x =>
  let key := limiterKey keyFn x.req
  let r := httpRateLimiterAllow (part.get x.world) key now
  let res := stampStatus x.res (httpRateLimiterStatus r.1 key)
  if r.2 = 0 then next ⟨x.req, res, part.put r.1 x.world⟩
  else
    let (rl, i) := bucketFor r.1 key again
    let tokens := (rl.items[i]?.map HttpRateLimitBucket.tokens).getD 0
    some ⟨x.req,
      { res with status := 429 }.apply
        (.setHeader (ascii "Retry-After") (decimalInt (retryAfter rl.rate tokens))), part.put rl x.world⟩

/-! ## What is left -/

/-- Buckets as the calls of a limiter leave them. -/
structure HttpRateLimiter.Sound (rl : HttpRateLimiter) : Prop where
  rate : 0 ≤ rl.rate
  burst : 0 ≤ rl.burst
  within : ∀ b ∈ rl.items, b.bucket.Within rl.burst

theorem sound_init {rate burst : ℚ} (hRate : 0 ≤ rate) (hBurst : 0 ≤ burst) :
    (httpRateLimiterInit rate burst).Sound :=
  ⟨hRate, hBurst, fun _ hb => absurd hb List.not_mem_nil⟩

theorem HttpRateLimiter.Sound.allow {rl : HttpRateLimiter} (h : rl.Sound) (key : Bytes) (now : Nat) :
    (httpRateLimiterAllow rl key now).1.Sound := by
  obtain ⟨-, hRate, hBurst, -⟩ := httpRateLimiterAllow_spec rl key now
  refine ⟨hRate.symm ▸ h.rate, hBurst.symm ▸ h.burst, ?_⟩
  rw [hBurst]
  exact within_allow h.rate h.burst key now h.within

theorem truncInt_of_nonneg {largest : Int} {q : ℚ} (h : 0 ≤ q) (hRange : q < largest + 1) :
    truncInt largest q = ⌊q⌋ := by
  have hFloor : 0 ≤ ⌊q⌋ := Int.floor_nonneg.mpr h
  have hLt : ⌊q⌋ < largest + 1 := Int.floor_lt.mpr (by push_cast; exact hRange)
  rw [truncInt, if_pos h, if_pos]
  omega

theorem bucketRun_replicate {rate burst : ℚ} (now k : Nat) :
    ∀ {b : HttpRateLimitBucket}, b.lastMs = now → 0 ≤ b.tokens → b.tokens ≤ burst →
    ((bucketRun rate burst (List.replicate k now) b).2 : Int) = min (k : Int) ⌊b.tokens⌋ := by
  induction k with
  | zero =>
    intro b _ hNonneg _
    rw [List.replicate_zero, bucketRun]
    exact (min_eq_left (Int.floor_nonneg.mpr hNonneg)).symm
  | succ k ih =>
    intro b hLast hNonneg hLe
    have hSame : refilled rate burst now b.tokens b.lastMs = b.tokens := by
      rw [refilled, hLast, if_neg (Nat.lt_irrefl now), Nat.cast_zero, zero_div, zero_mul, add_zero]
      exact if_neg (not_lt.mpr hLe)
    rw [List.replicate_succ, bucketRun, allowBucket, hSame]
    dsimp only
    by_cases hOne : 1 ≤ b.tokens
    · have hRest :=
        @ih { b with tokens := b.tokens - 1, lastMs := now } rfl (by linarith) (by simp only; linarith)
      rw [if_pos hOne, if_pos rfl, Nat.cast_add, hRest, Int.floor_sub_one]
      push_cast
      omega
    · have hRest := @ih { b with tokens := b.tokens, lastMs := now } rfl hNonneg hLe
      have hZero : ⌊b.tokens⌋ = 0 := Int.floor_eq_zero_iff.mpr ⟨hNonneg, not_le.mp hOne⟩
      rw [if_neg hOne, if_neg (by decide : ¬ (-1 : Int) = 0), Nat.cast_add, hRest, hZero]
      push_cast
      omega

theorem sound_run (calls : List Call) : ∀ {rl : HttpRateLimiter}, rl.Sound →
    (runCalls rl calls).1.Sound ∧ (runCalls rl calls).1.rate = rl.rate ∧
      (runCalls rl calls).1.burst = rl.burst := by
  induction calls with
  | nil => exact fun h => ⟨h, rfl, rfl⟩
  | cons c calls ih =>
    intro rl h
    obtain ⟨-, hRate, hBurst, -⟩ := httpRateLimiterAllow_spec rl c.key c.now
    obtain ⟨hSound, hRate', hBurst'⟩ := ih (h.allow c.key c.now)
    exact ⟨hSound, hRate'.trans hRate, hBurst'.trans hBurst⟩

theorem find_allow (rl : HttpRateLimiter) (key : Bytes) (now : Nat) :
    (httpRateLimiterAllow rl key now).1.findBucket key = some
      (allowBucket rl.rate rl.burst now (rl.bucketAt key now)).1 := by
  rw [(httpRateLimiterAllow_spec rl key now).2.2.2 key, if_pos (by simp [sameKey])]

theorem bucketAt_allow {rl : HttpRateLimiter} (h : rl.Sound) (key : Bytes) (now : Nat) :
    ∃ b, (httpRateLimiterAllow rl key now).1.findBucket key = some b ∧ b.lastMs = now ∧ 0 ≤ b.tokens ∧
      b.tokens ≤ rl.burst := by
  have hSound := h.allow key now
  have hFind := find_allow rl key now
  have hWithin := hSound.within _ (List.mem_of_find?_eq_some hFind)
  rw [(httpRateLimiterAllow_spec rl key now).2.2.1] at hWithin
  exact ⟨_, hFind, (allowBucket_spec rl.rate rl.burst now (rl.bucketAt key now)).2.2.1, hWithin.nonneg,
    hWithin.le_burst⟩

theorem bucketAt_of_find {rl : HttpRateLimiter} {key : Bytes} {b : HttpRateLimitBucket}
    (h : rl.findBucket key = some b) (now : Nat) :
    rl.bucketAt key now = b := by
  rw [HttpRateLimiter.bucketAt, h]
  rfl

/-- After any calls and one of its own, what a caller is told to have left is how many of
its calls are allowed at the reading of that one, whatever the others do. -/
theorem remaining_exact {rate burst : ℚ} (hRate : 0 ≤ rate) (hBurst : 0 ≤ burst) (hInt : burst < 2 ^ 31)
    (earlier : List Call) (key : Bytes)
    (now : Nat) (calls : List Call) (hNow : ∀ t ∈ readings calls key, t = now) :
    let rl := (httpRateLimiterAllow (runCalls (httpRateLimiterInit rate burst) earlier).1 key now).1
    (allowedCalls rl calls key : Int) = min ((readings calls key).length : Int)
      (httpRateLimiterStatus rl key).remaining := by
  intro rl
  obtain ⟨hSound, -⟩ := sound_run earlier (sound_init hRate hBurst)
  obtain ⟨b, hFind, hLast, hNonneg, hLe⟩ := bucketAt_allow hSound key now
  obtain ⟨-, -, hBurst', -⟩ :=
    httpRateLimiterAllow_spec (runCalls (httpRateLimiterInit rate burst) earlier).1 key now
  have hRemaining : (httpRateLimiterStatus rl key).remaining = ⌊b.tokens⌋ := by
    have hRange : b.tokens < (intMax : Int) + 1 := by
      rw [(sound_run earlier (sound_init hRate hBurst)).2.2] at hLe
      simp only [intMax]
      push_cast
      linarith [show (httpRateLimiterInit rate burst).burst = burst from rfl]
    rw [httpRateLimiterStatus, hFind]
    dsimp only
    rw [if_pos hNonneg, truncInt_of_nonneg hNonneg hRange]
  rw [allowedCalls_eq, bucketAt_of_find hFind, hRemaining, List.eq_replicate_of_mem hNow,
    List.length_replicate]
  exact bucketRun_replicate now _ hLast hNonneg (hLe.trans_eq hBurst'.symm)

theorem remaining_exact_burst :
    (allowedCalls (httpRateLimiterAllow (httpRateLimiterInit 1 3) (ascii "/") 5).1 [⟨ascii "/", 5⟩,
      ⟨ascii "/api", 9⟩, ⟨ascii "/", 5⟩, ⟨ascii "/", 5⟩]
      (ascii "/") : Int) = min 3 2 := by
  have h := @remaining_exact 1 3 (by norm_num) (by norm_num) (by norm_num) [] (ascii "/") 5
    [⟨ascii "/", 5⟩, ⟨ascii "/api", 9⟩, ⟨ascii "/", 5⟩, ⟨ascii "/", 5⟩] (by decide)
  have hTold : (httpRateLimiterStatus (httpRateLimiterAllow (httpRateLimiterInit 1 3) (ascii "/") 5).1
    (ascii "/")).remaining = 2 := by
    decide +kernel
  exact h.trans (congrArg (min 3) hTold)

/-! ## How long to wait -/

theorem le_floor_add_iff (q : ℚ) : q ≤ ⌊q + 999 / 1000⌋ ↔ Int.fract q = 0 ∨ 1 / 1000 ≤ Int.fract q := by
  have hSplit := Int.floor_add_fract q
  have hNonneg := Int.fract_nonneg q
  have hLt := Int.fract_lt_one q
  have hSum : ⌊q + 999 / 1000⌋ = ⌊q⌋ + ⌊Int.fract q + 999 / 1000⌋ := by
    rw [← Int.floor_intCast_add, ← add_assoc, hSplit]
  rw [hSum, Int.cast_add]
  by_cases hUp : 1 / 1000 ≤ Int.fract q
  · have hOne : ⌊Int.fract q + 999 / 1000⌋ = 1 := by
      rw [Int.floor_eq_iff, Int.cast_one]
      constructor
      · linarith
      · linarith
    rw [hOne, Int.cast_one]
    exact iff_of_true (by linarith) (.inr hUp)
  · have hZero : ⌊Int.fract q + 999 / 1000⌋ = 0 := by
      rw [Int.floor_eq_iff, Int.cast_zero]
      constructor
      · linarith
      · linarith
    rw [hZero, Int.cast_zero, add_zero]
    constructor
    · intro hLe
      exact .inl (by linarith)
    · rintro (hWhole | hMore)
      · linarith
      · exact absurd hMore hUp

/-- What a caller is told to wait for a whole token is less than a second too
long, and it is enough but for a fraction below a thousandth. -/
theorem retryAfter_spec {rate tokens : ℚ} (hRate : 0 < rate) (hLong : 1 / rate + 1 ≤ 2 ^ 63)
    (hNonneg : 0 ≤ tokens) (hTokens : tokens < 1) :
    ((retryAfter rate tokens : ℚ) < (1 - tokens) / rate + 1) ∧
      ((1 - tokens) / rate ≤ retryAfter rate tokens ↔
        (1 - tokens) / rate < 1 / 10000 ∨ Int.fract ((1 - tokens) / rate) = 0 ∨
          1 / 1000 ≤ Int.fract ((1 - tokens) / rate)) := by
  have hPos : 0 < (1 - tokens) / rate := div_pos (by linarith) hRate
  have hLe : (1 - tokens) / rate ≤ 1 / rate := div_le_div_of_nonneg_right (by linarith) hRate.le
  rw [retryAfter]
  generalize (1 - tokens) / rate = q at *
  split
  · next hSmall =>
    rw [Int.cast_one]
    exact ⟨by linarith, iff_of_true (by linarith) (.inl hSmall)⟩
  · next hLarge =>
    have hRange : q + 999 / 1000 < (llongMax : Int) + 1 := by
      simp only [llongMax]
      push_cast
      linarith
    rw [truncInt_of_nonneg (by linarith) hRange, le_floor_add_iff, or_iff_right hLarge]
    exact ⟨by linarith [Int.floor_le (q + 999 / 1000)], Iff.rfl⟩

theorem bucketFor_found {rl : HttpRateLimiter} {key : Bytes} {b : HttpRateLimitBucket}
    (h : rl.findBucket key = some b) (now : Nat) :
    ∃ i, bucketFor rl key now = (rl, i) ∧ rl.items[i]? = some b := by
  have hKey : b.key = svFromCstr key := by simpa using List.find?_some h
  rw [bucketFor]
  cases hIdx : rl.items.findIdx? (·.key = svFromCstr key) with
  | none =>
    rw [HttpRateLimiter.findBucket, List.find?_eq_none.mpr fun b hb => by
      simpa using List.findIdx?_eq_none_iff.mp hIdx b hb] at h
    cases h
  | some i => exact ⟨i, rfl, (find?_set_self (y := b) (decide_eq_true hKey) _ hIdx).1.trans h⟩

theorem allow_later_iff {rl : HttpRateLimiter} (hRate : 0 < rl.rate) (hBurst : 1 ≤ rl.burst)
    {key : Bytes} {b : HttpRateLimitBucket} {now : Nat}
    (hFind : rl.findBucket key = some b) (hLast : b.lastMs = now) (wait : Nat) :
    (httpRateLimiterAllow rl key (now + wait)).2 = 0 ↔ (1 - b.tokens) / rl.rate ≤ (wait : ℚ) / 1000 := by
  have hPassed : (if b.lastMs < now + wait then now + wait - b.lastMs else 0) = wait := by
    split
    · omega
    · omega
  have hOne : 1 ≤ refilled rl.rate rl.burst (now + wait) b.tokens b.lastMs ↔
    1 ≤ b.tokens + (wait : ℚ) / 1000 * rl.rate := by
    rw [refilled, hPassed]
    split
    · next hFull => exact iff_of_true hBurst (by linarith)
    · exact Iff.rfl
  rw [(httpRateLimiterAllow_spec rl key (now + wait)).1, bucketAt_of_find hFind, allowBucket,
    div_le_iff₀ hRate, sub_le_iff_le_add', ← hOne]
  split
  · next h => exact iff_of_true rfl h
  · next h => exact iff_of_false (fun hEq => absurd hEq (by decide : (-1 : Int) ≠ 0)) h

/-- The limiter turns a request away, or lets it through with what is left written
down. -/
def rateEnter (part : Part ω HttpRateLimiter) (keyFn : Option (Identified → Bytes)) (now again : Nat)
    (x : Exchange ω) :
    Except (Exchange ω) (Exchange ω) :=
  let key := limiterKey keyFn x.req
  let r := httpRateLimiterAllow (part.get x.world) key now
  let res := stampStatus x.res (httpRateLimiterStatus r.1 key)
  if r.2 = 0 then .ok ⟨x.req, res, part.put r.1 x.world⟩
  else
    let (rl, i) := bucketFor r.1 key again
    let tokens := (rl.items[i]?.map HttpRateLimitBucket.tokens).getD 0
    .error ⟨x.req,
      { res with status := 429 }.apply
        (.setHeader (ascii "Retry-After") (decimalInt (retryAfter rl.rate tokens))), part.put rl x.world⟩

theorem httpRateLimitMiddleware_eq (part : Part ω HttpRateLimiter) (keyFn : Option (Identified → Bytes))
    (now again : Nat) :
    httpRateLimitMiddleware part keyFn now again = (gate (rateEnter part keyFn now again)).wrap := by
  funext next x
  rw [wrap_gate, httpRateLimitMiddleware, rateEnter]
  dsimp only
  split
  · rfl
  · rfl

theorem rateEnter_cases (part : Part ω HttpRateLimiter) (keyFn : Option (Identified → Bytes))
    (now again : Nat) (x : Exchange ω) :
    let key := limiterKey keyFn x.req
    let r := httpRateLimiterAllow (part.get x.world) key now
    let res := stampStatus x.res (httpRateLimiterStatus r.1 key)
    (r.2 = 0 → rateEnter part keyFn now again x = .ok ⟨x.req, res, part.put r.1 x.world⟩) ∧
      (r.2 ≠ 0 → ∃ b, r.1.findBucket key = some b ∧ rateEnter part keyFn now again x =
        .error ⟨x.req,
        { res with status := 429 }.apply
          (.setHeader (ascii "Retry-After") (decimalInt (retryAfter r.1.rate b.tokens))),
          part.put r.1 x.world⟩) := by
  intro key r res
  rw [rateEnter]
  dsimp only
  refine ⟨fun hZero => if_pos hZero, fun hRefused => ?_⟩
  have hFind := find_allow (part.get x.world) key now
  obtain ⟨i, hFor, hGet⟩ := bucketFor_found hFind again
  refine ⟨_, hFind, ?_⟩
  rw [if_neg hRefused, hFor]
  dsimp only
  rw [hGet]
  rfl

/-- A refused caller is told to wait for less than a second longer than it has to.
When it has waited that long it is let through, unless the exact time has a
fraction of less than a thousandth: that is rounded down. -/
theorem retry_after_exact {rate burst : ℚ} (hRate : 0 < rate) (hLong : 1 / rate + 1 ≤ 2 ^ 63)
    (hBurst : 1 ≤ burst) (earlier : List Call)
    (part : Part ω HttpRateLimiter) (keyFn : Option (Identified → Bytes)) (now again : Nat)
    (next : HttpHandlerFn (Exchange ω)) (x : Exchange ω)
    (hWorld : part.get x.world = (runCalls (httpRateLimiterInit rate burst) earlier).1)
    (hRefused : (httpRateLimiterAllow (part.get x.world) (limiterKey keyFn x.req) now).2 ≠ 0) :
    let key := limiterKey keyFn x.req
    ∃ (res : HttpResponse) (rl : HttpRateLimiter) (seconds : Int) (due : ℚ),
      httpRateLimitMiddleware part keyFn now again next x =
        some ⟨x.req, res.apply (.setHeader (ascii "Retry-After") (decimalInt seconds)),
          part.put rl x.world⟩ ∧ res.status = 429 ∧
      (∀ wait : Nat, (httpRateLimiterAllow rl key (now + wait)).2 = 0 ↔ due ≤ (wait : ℚ) / 1000) ∧
        (seconds : ℚ) < due + 1 ∧
      (due ≤ seconds ↔ due < 1 / 10000 ∨ Int.fract due = 0 ∨ 1 / 1000 ≤ Int.fract due) := by
  intro key
  obtain ⟨-, hRate', hBurst', -⟩ := httpRateLimiterAllow_spec (part.get x.world) key now
  obtain ⟨hSound, hRate₀, hBurst₀⟩ := sound_run earlier (sound_init hRate.le (zero_le_one.trans hBurst))
  rw [← hWorld] at hSound hRate₀ hBurst₀
  obtain ⟨b, hFind, hEnter⟩ := (rateEnter_cases part keyFn now again x).2 hRefused
  obtain ⟨hLast, hNonneg⟩ : b.lastMs = now ∧ 0 ≤ b.tokens := by
    obtain ⟨b', hFind', hLast', hNonneg', -⟩ := bucketAt_allow hSound key now
    rw [Option.some.inj (hFind.symm.trans hFind')]
    exact ⟨hLast', hNonneg'⟩
  have hLater :=
    allow_later_iff (by rw [hRate', hRate₀]; exact hRate) (by rw [hBurst', hBurst₀]; exact hBurst) hFind hLast
  have hTokens : b.tokens < 1 := by
    have hAnswer := (httpRateLimiterAllow_spec (part.get x.world) key now).1
    obtain rfl := Option.some.inj ((find_allow (part.get x.world) key now).symm.trans hFind)
    rw [hAnswer, allowBucket] at hRefused
    rw [allowBucket]
    split at hRefused
    · exact absurd rfl hRefused
    · next hOne =>
      rw [if_neg hOne]
      exact not_le.mp hOne
  obtain ⟨hSoon, hEnough⟩ :=
    @retryAfter_spec (httpRateLimiterAllow (part.get x.world) key now).1.rate _
      (by rw [hRate', hRate₀]; exact hRate)
    (by rw [hRate', hRate₀]; exact hLong) hNonneg hTokens
  rw [httpRateLimitMiddleware_eq, wrap_gate, hEnter]
  exact ⟨_, _, _, _, rfl, rfl, hLater, hSoon, hEnough⟩

/-- A limiter with one token and no more of them for a second. -/
def spentExchange : Exchange HttpRateLimiter :=
  ⟨⟨⟨emptyRequest, [], []⟩, [], []⟩, httpResponseInit,
    (runCalls (httpRateLimiterInit 1 1) [⟨ascii "/", 0⟩]).1⟩

theorem retry_after_exact_second : ∃ (res : HttpResponse) (rl : HttpRateLimiter) (seconds : Int) (due : ℚ),
    httpRateLimitMiddleware (Part.whole HttpRateLimiter) none 0 0 (fun x => some x) spentExchange =
        some ⟨spentExchange.req, res.apply (.setHeader (ascii "Retry-After") (decimalInt seconds)),
          rl⟩ ∧ res.status = 429 ∧
      (∀ wait : Nat, (httpRateLimiterAllow rl (ascii "/") (0 + wait)).2 = 0 ↔ due ≤ (wait : ℚ) / 1000) ∧
      (seconds : ℚ) < due + 1 ∧
      (due ≤ seconds ↔ due < 1 / 10000 ∨ Int.fract due = 0 ∨ 1 / 1000 ≤ Int.fract due) :=
  retry_after_exact one_pos (by norm_num) (le_refl 1) [⟨ascii "/", 0⟩]
    (Part.whole HttpRateLimiter) none 0 0 (fun x => some x) spentExchange rfl (by decide +kernel)

/-! ## Whose budget -/

/-- The name under which the guard would look at a header. -/
def guessed (auth : Bytes) : Option Bytes :=
  (basicPayload auth).bind fun payload => (base64DecodeInto payload).bind fun decoded =>
    if colonAt decoded = 0 ∨ decoded.length ≤ colonAt decoded then none
    else some (decoded.take (colonAt decoded))

theorem guessed_eq_some {auth name : Bytes} :
    guessed auth = some name ↔ ∃ secret, Encodes auth (name ++ 58 :: secret) ∧ name ≠ [] ∧ 58 ∉ name := by
  rw [guessed, Option.bind_eq_some_iff]
  simp only [Option.bind_eq_some_iff, encodes_iff]
  constructor
  · rintro ⟨payload, hPayload, decoded, hDecoded, h⟩
    split at h
    · cases h
    · next hColon =>
      obtain ⟨name', secret, rfl, hName, hFirst⟩ := (colonAt_spec decoded).mp hColon
      rw [colonAt, takeWhile_name hFirst, List.take_left] at h
      obtain rfl := Option.some.inj h
      exact ⟨secret, ⟨payload, hPayload, hDecoded⟩, hName, hFirst⟩
  · rintro ⟨secret, ⟨payload, hPayload, hDecoded⟩, hName, hFirst⟩
    refine ⟨payload, hPayload, _, hDecoded, ?_⟩
    rw [if_neg ((colonAt_spec _).mpr ⟨name, secret, rfl, hName, hFirst⟩), colonAt,
      takeWhile_name hFirst, List.take_left]

/-- On a header without blanks around it, the limiter reads the name that the guard
reads. -/
theorem claimedUser_eq {auth : Bytes} (h : svTrim auth = auth) : claimedUser auth = guessed auth := by
  rw [claimedUser, guessed, basicPayload, h]
  dsimp only
  by_cases hScheme : auth.length < 6 ∨ (auth.take 5).map tolower ≠ ascii "basic" ∨ auth[5]? ≠ some 32
  · rw [if_pos hScheme, if_neg, Option.bind_none]
    rintro ⟨hLength, hBlank, hName⟩
    rcases hScheme with hShort | hOther | hNone
    · omega
    · exact hOther hName
    · exact hNone hBlank
  · have hAll : 6 ≤ auth.length ∧ auth[5]? = some 32 ∧ (auth.take 5).map tolower = ascii "basic" := by
      rw [not_or, not_or, not_not, not_not, Nat.not_lt] at hScheme
      exact ⟨hScheme.1, hScheme.2.2, hScheme.2.1⟩
    rw [if_neg hScheme, if_pos hAll]
    split
    · next hEmpty =>
      rw [hEmpty]
      rfl
    · rw [Option.bind_some]
      congr 1
      funext decoded
      by_cases hColon : colonAt decoded = 0 ∨ decoded.length ≤ colonAt decoded
      · rw [if_pos hColon, if_neg (by omega)]
      · rw [if_neg hColon, if_pos (by omega)]

theorem parse_trimmed {raw behind : Bytes} {req : HttpRequest} {consumed : Nat}
    (h : httpRequestParseAdv raw behind = .ok req consumed) :
    ∀ f ∈ req.headers, svTrim f.value = f.value := by
  cases hEnd : findHeaderEnd raw behind with
  | none =>
    rw [httpRequestParseAdv, hEnd] at h
    cases h
  | some stop =>
    rcases httpRequestParseAdv_cases hEnd with hError | ⟨base, hFields, hBody⟩
    · rw [hError] at h
      cases h
    · rw [hBody] at h
      have hHeaders : req.headers = base.headers := by
        obtain ⟨-, ⟨-, rfl, -⟩ | ⟨value, len, -, -, -, -, rfl⟩⟩ := parseBody_ok_cases h
        · rfl
        · rfl
      intro f hf
      rw [hHeaders, hFields, fieldsOf] at hf
      obtain ⟨text, -, hText⟩ := List.mem_filterMap.mp hf
      rw [fieldLine] at hText
      split at hText
      · cases hText
      · dsimp only at hText
        split at hText
        · cases hText
        · obtain rfl := Option.some.inj hText
          exact (svTrim_eq_self_iff _).mpr (svTrim_ends _)

/-- The name under which the guard would look at a request. -/
def guessedName (req : HttpRequest) : Option Bytes :=
  (httpRequestGetHeader req (ascii "authorization")).bind guessed

theorem limiterKey_guess {req : Identified} (hUser : req.authUser = [])
    (hPlain : ∀ f ∈ req.headers, svTrim f.value = f.value) {name : Bytes}
    (h : guessedName req.toHttpRequest = some name) : limiterKey (some httpRateLimitUserKey) req = name := by
  obtain ⟨auth, hAuth, hGuess⟩ := Option.bind_eq_some_iff.mp h
  obtain ⟨f, hFind, rfl⟩ := Option.map_eq_some_iff.mp hAuth
  obtain ⟨-, -, hSome, -⟩ := guessed_eq_some.mp hGuess
  have hKey : httpRateLimitUserKey req = name := by
    rw [httpRateLimitUserKey, if_neg (by rw [hUser]; exact Nat.lt_irrefl 0), hAuth, Option.bind_some,
      claimedUser_eq (hPlain f (List.mem_of_find?_eq_some hFind)), hGuess]
  rw [limiterKey, Option.getD_some, hKey, if_neg fun hZero => hSome (List.length_eq_zero_iff.mp hZero)]

structure Arrival where
  req : Identified
  now : Nat
  again : Nat

def billed (a : Arrival) : Call := ⟨limiterKey (some httpRateLimitUserKey) a.req, a.now⟩

/-- The limiter after an arrival, and whether it lets it through. -/
def arrive (rl : HttpRateLimiter) (a : Arrival) : HttpRateLimiter × Bool :=
  match rateEnter (Part.whole HttpRateLimiter) (some httpRateLimitUserKey) a.now a.again
    ⟨a.req, httpResponseInit, rl⟩ with
  | .ok x => (x.world, true)
  | .error x => (x.world, false)

/-- The limiter after some arrivals, and which of them came through. -/
def arriveAll (rl : HttpRateLimiter) : List Arrival → HttpRateLimiter × List Bool
  | [] => (rl, [])
  | a :: arrivals =>
    let r := arrive rl a
    let rest := arriveAll r.1 arrivals
    (rest.1, r.2 :: rest.2)

/-- How many guesses at an account come through to the guard. -/
def guesses (rl : HttpRateLimiter) (arrivals : List Arrival) (name : Bytes) : Nat :=
  (arrivals.zip (arriveAll rl arrivals).2).countP fun p =>
    guessedName p.1.req.toHttpRequest == some name && p.2

theorem arrive_eq (rl : HttpRateLimiter) (a : Arrival) :
    arrive rl a = ((httpRateLimiterAllow rl (billed a).key a.now).1,
      (httpRateLimiterAllow rl (billed a).key a.now).2 == 0) := by
  obtain ⟨hThrough, hRefused⟩ :=
    rateEnter_cases (Part.whole HttpRateLimiter) (some httpRateLimitUserKey) a.now a.again
      ⟨a.req, httpResponseInit, rl⟩
  rw [arrive]
  by_cases hZero : (httpRateLimiterAllow rl (billed a).key a.now).2 = 0
  · rw [hThrough hZero, beq_iff_eq.mpr hZero]
    rfl
  · obtain ⟨b, -, hEnter⟩ := hRefused hZero
    rw [hEnter, beq_eq_false_iff_ne.mpr hZero]
    rfl

theorem arriveAll_eq (arrivals : List Arrival) : ∀ rl : HttpRateLimiter,
    arriveAll rl arrivals = ((runCalls rl (arrivals.map billed)).1,
      (runCalls rl (arrivals.map billed)).2.map (· == 0)) := by
  induction arrivals with
  | nil => exact fun _ => rfl
  | cons a arrivals ih =>
    intro rl
    rw [arriveAll, arrive_eq, ih]
    rfl

theorem guesses_le_allowed {name : Bytes} (arrivals : List Arrival) : ∀ rl : HttpRateLimiter,
    (∀ a ∈ arrivals, guessedName a.req.toHttpRequest = some name → (billed a).key = name) →
      guesses rl arrivals name ≤ allowedCalls rl (arrivals.map billed) name := by
  induction arrivals with
  | nil => exact fun _ _ => Nat.le_refl _
  | cons a arrivals ih =>
    intro rl h
    rw [List.forall_mem_cons] at h
    have hRest := ih (httpRateLimiterAllow rl (billed a).key a.now).1 h.2
    rw [guesses, arriveAll, arrive_eq, List.map_cons, allowedCalls_cons]
    dsimp only
    rw [List.zip_cons_cons, List.countP_cons, Nat.add_comm]
    refine Nat.add_le_add ?_ hRest
    split
    · next hGuess =>
      rw [Bool.and_eq_true, beq_iff_eq, beq_iff_eq] at hGuess
      rw [if_pos ⟨by rw [h.1 hGuess.1]; exact decide_eq_true rfl, hGuess.2⟩]
    · exact Nat.zero_le _

theorem recent_run {latest : Nat} (calls : List Call) :
    ∀ {rl : HttpRateLimiter}, (∀ c ∈ calls, c.now ≤ latest) →
    (∀ key b, rl.findBucket key = some b → b.lastMs ≤ latest) →
      ∀ key b, (runCalls rl calls).1.findBucket key = some b → b.lastMs ≤ latest := by
  induction calls with
  | nil => exact fun _ h => h
  | cons c calls ih =>
    intro rl hCalls h
    rw [List.forall_mem_cons] at hCalls
    refine @ih (httpRateLimiterAllow rl c.key c.now).1 hCalls.2 ?_
    intro key b hFind
    rw [(httpRateLimiterAllow_spec rl c.key c.now).2.2.2 key] at hFind
    split at hFind
    · obtain rfl := Option.some.inj hFind
      rw [(allowBucket_spec _ _ _ _).2.2.1]
      exact hCalls.1
    · exact h key b hFind

/-- In a stretch of time, calls with a key are allowed no more often than the limit
and that time permit. -/
theorem allowedCalls_window {rl : HttpRateLimiter} (hSound : rl.Sound) {key : Bytes} {first last : Nat}
    (hOrder : first ≤ last)
    (hRecent : ∀ b, rl.findBucket key = some b → b.lastMs ≤ first) {calls : List Call}
    (hForward : (readings calls key).Pairwise (· ≤ ·))
    (hSpan : ∀ t ∈ readings calls key, first ≤ t ∧ t ≤ last) :
    (allowedCalls rl calls key : ℚ) ≤ rl.burst + rl.rate * ((last : ℚ) - first) / 1000 := by
  have hStart : (rl.bucketAt key ((readings calls key).headD 0)).bucket.Within rl.burst ∧
      ∀ t ∈ readings calls key, (rl.bucketAt key ((readings calls key).headD 0)).lastMs ≤ t := by
    cases hFind : rl.findBucket key with
    | some b =>
      rw [bucketAt_of_find hFind]
      exact ⟨hSound.within b (List.mem_of_find?_eq_some hFind), fun t ht =>
        (hRecent b hFind).trans (hSpan t ht).1⟩
    | none =>
      rw [HttpRateLimiter.bucketAt, hFind]
      refine ⟨⟨hSound.burst, le_refl _⟩, fun t ht => ?_⟩
      cases hList : readings calls key with
      | nil =>
        rw [hList] at ht
        cases ht
      | cons t' rest =>
        rw [hList] at ht hForward
        rcases List.mem_cons.mp ht with rfl | hRest
        · exact Nat.le_refl _
        · exact (List.pairwise_cons.mp hForward).1 t hRest
  have hGranted :=
    TokenBucket.granted_window hSound.rate hSound.burst ((readings calls key).map seconds) hStart.1
      (seconds_mono hOrder) (by
    intro t ht
    obtain ⟨now, hNow, rfl⟩ := List.mem_map.mp ht
    exact ⟨seconds_mono (hStart.2 now hNow), seconds_mono (hSpan now hNow).1,
      seconds_mono (hSpan now hNow).2⟩)
  rw [allowedCalls_eq, bucketRun_eq _ _ _ _ (List.pairwise_cons.mpr ⟨hStart.2, hForward⟩)]
  rwa [seconds, seconds, ← sub_div, ← mul_div_assoc] at hGranted

/-- However many addresses the guesses at an account come from, and whatever else
comes in between or came before, the guard is shown no more of them in a stretch of
time than the limit and that time permit. -/
theorem guesses_bounded {rate burst : ℚ} (hRate : 0 ≤ rate) (hBurst : 0 ≤ burst)
    (earlier arrivals : List Arrival) {first last : Nat}
    (hOrder : first ≤ last) (hEarlier : ∀ a ∈ earlier, a.now ≤ first)
    (hSpan : ∀ a ∈ arrivals, first ≤ a.now ∧ a.now ≤ last)
    (hForward : (arrivals.map (·.now)).Pairwise (· ≤ ·))
    (hParsed : ∀ a ∈ arrivals, a.req.authUser = [] ∧ ∃ raw behind req consumed,
      httpRequestParseAdv raw behind = .ok req consumed ∧ a.req.headers = req.headers)
    (name : Bytes) :
    (guesses (arriveAll (httpRateLimiterInit rate burst) earlier).1 arrivals name : ℚ) ≤ burst +
      rate * ((last : ℚ) - first) / 1000 := by
  have hBilled : ∀ a ∈ arrivals, guessedName a.req.toHttpRequest = some name → (billed a).key = name := by
    intro a ha hGuess
    obtain ⟨hUser, raw, behind, req, consumed, hParse, hHeaders⟩ := hParsed a ha
    exact limiterKey_guess hUser (hHeaders ▸ parse_trimmed hParse) hGuess
  have hReadings : (readings (arrivals.map billed) name).Sublist (arrivals.map (·.now)) := by
    have hNows : (arrivals.map billed).map (·.now) = arrivals.map (·.now) := by
      rw [List.map_map]
      rfl
    rw [readings, ← hNows]
    exact List.filter_sublist.map _
  obtain ⟨hSound, hRate', hBurst'⟩ := sound_run (earlier.map billed) (sound_init hRate hBurst)
  have hWindow := @allowedCalls_window _ hSound name _ _ hOrder (fun b hFind => by
      refine recent_run (earlier.map billed) ?_
        (fun _ _ h => absurd h (by simp [HttpRateLimiter.findBucket, httpRateLimiterInit])) name b hFind
      intro c hc
      obtain ⟨a, ha, rfl⟩ := List.mem_map.mp hc
      exact hEarlier a ha)
    (arrivals.map billed) (hForward.sublist hReadings) (fun t ht => by
      obtain ⟨a, ha, rfl⟩ := List.mem_map.mp (hReadings.subset ht)
      exact hSpan a ha)
  rw [hRate', hBurst'] at hWindow
  rw [arriveAll_eq]
  exact (Nat.cast_le.mpr (guesses_le_allowed arrivals _ hBilled)).trans hWindow

def guessText : Bytes := ascii "GET / HTTP/1.1\r\nAuthorization: Basic YWRhOng=\r\n\r\n"

def guessRequest : HttpRequest :=
  { emptyRequest with
    method := .get
    target := ascii "/"
    path := ascii "/"
    version := ascii "HTTP/1.1"
    headers := [⟨ascii "Authorization", ascii "Basic YWRhOng="⟩]
    bodyOffset := guessText.length }

/-- Guesses from one address after the other, at one instant. -/
def spread : List Arrival :=
  [ascii "10.0.0.1", ascii "10.0.0.2", ascii "10.0.0.3"].map fun addr =>
    ⟨⟨⟨{ guessRequest with remote := addr }, [], []⟩, [], []⟩, 7, 7⟩

theorem guesses_bounded_spread :
    (guesses (arriveAll (httpRateLimiterInit 1 2) []).1 spread (ascii "ada") : ℚ) ≤ 2 +
      1 * (((7 : Nat) : ℚ) - (7 : Nat)) / 1000 := by
  have hParse : httpRequestParseAdv guessText [] = .ok guessRequest guessText.length := by decide +kernel
  refine guesses_bounded zero_le_one zero_le_two [] spread (Nat.le_refl 7)
    (fun a ha => absurd ha List.not_mem_nil) (by decide) (by decide) ?_ _
  intro a ha
  obtain ⟨addr, -, rfl⟩ := List.mem_map.mp ha
  exact ⟨rfl, guessText, [], guessRequest, guessText.length, hParse, rfl⟩

end Cweb.RateLimit
