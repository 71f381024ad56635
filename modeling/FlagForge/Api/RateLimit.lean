/-
Module: FlagForge.Api.RateLimit
Layer: Api
Purpose: The rate limiter: a token bucket for each client, in exact time and tokens, and the sweep of
  buckets that were idle.
Imports: FlagForge.Lib.TokenBucket, FlagForge.Lib.Json, Mathlib.Data.Rat.Floor
Trusted boundary: none
Main exports: RateLimitConfig, RateLimiter.update, RateLimiter.sweep, RateLimiter.check
-/
import Mathlib.Data.Rat.Floor
import FlagForge.Lib.TokenBucket
import FlagForge.Lib.Json

namespace FlagForge.Api

open Json (StringMap)
open TokenBucket (Limits Bucket full refill spend elapsed)

structure RateLimitConfig where
  burst : UInt32
  perSecond : UInt32

/-- The limits of a configuration; a rate or a burst of zero counts as one. -/
def RateLimitConfig.limits (config : RateLimitConfig) : Limits ℚ where
  burst := (max config.burst 1).toNat
  rate := (max config.perSecond 1).toNat
  burst_nonneg := Nat.cast_nonneg _
  rate_nonneg := Nat.cast_nonneg _

/-- Buckets idle for longer than this are dropped by the sweeper. -/
def idleEvictionSecs : ℚ := 300

/-- Sweep once the map grows past this many clients. -/
def sweepThreshold : Nat := 10000

structure RateLimiter where
  buckets : StringMap (Bucket ℚ)
  limits : Limits ℚ

/-- The answer to a check: `error` holds the seconds to wait. -/
abbrev Decision := Except Nat Unit

/-- What a check does to the bucket of its client, which has none before its first request. -/
def touch (limits : Limits ℚ) (now : ℚ) (found : Option (Bucket ℚ)) : Decision × Bucket ℚ :=
  let bucket := refill limits now (found.getD (full limits now))
  if 1 ≤ bucket.tokens then (.ok (), spend bucket)
  else
    -- always at least a second, so that a client polling on the value cannot spin
    (.error (max ⌈(1 - bucket.tokens) / limits.rate⌉ 1).toNat, bucket)

namespace RateLimiter

def new (config : RateLimitConfig) : RateLimiter where
  buckets := ∅
  limits := config.limits

/-- What `check` does behind the lock on the client's entry. -/
def update (limiter : RateLimiter) (client : String) (now : ℚ) : Decision × RateLimiter :=
  let touched := touch limiter.limits now limiter.buckets[client]?
  (touched.1, { limiter with buckets := limiter.buckets.insert client touched.2 })

/-- Drops the buckets that were untouched long enough. -/
def sweep (limiter : RateLimiter) (now : ℚ) : RateLimiter :=
  { limiter with
    buckets := limiter.buckets.filter fun _ bucket =>
      elapsed bucket.lastRefill now < idleEvictionSecs }

/-- Consumes one token of the client's. -/
def check (limiter : RateLimiter) (client : String) (now : ℚ) : Decision × RateLimiter :=
  if sweepThreshold < limiter.buckets.size then (limiter.sweep now).update client now
  else limiter.update client now

end RateLimiter

/-! ### What a check does -/

/-- A request is admitted when the refilled bucket holds a token. -/
theorem touch_cases (limits : Limits ℚ) (now : ℚ) (found : Option (Bucket ℚ)) :
    (1 ≤ (refill limits now (found.getD (full limits now))).tokens ∧
      touch limits now found = (.ok (), spend (refill limits now (found.getD (full limits now))))) ∨
    ((refill limits now (found.getD (full limits now))).tokens < 1 ∧ ∃ wait,
      touch limits now found = (.error wait, refill limits now (found.getD (full limits now)))) := by
  by_cases h : 1 ≤ (refill limits now (found.getD (full limits now))).tokens
  · exact .inl ⟨h, by simp only [touch, if_pos h]⟩
  · exact .inr ⟨not_le.mp h, _, by rw [touch, if_neg h]⟩

/-- An update writes the client's own bucket. -/
theorem buckets_update_self (limiter : RateLimiter) (client : String) (now : ℚ) :
    (limiter.update client now).2.buckets[client]? =
      some (touch limiter.limits now limiter.buckets[client]?).2 := by
  simp [RateLimiter.update]

/-- It leaves the others. -/
theorem buckets_update_of_ne (limiter : RateLimiter) {client other : String} (h : client ≠ other)
    (now : ℚ) : (limiter.update client now).2.buckets[other]? = limiter.buckets[other]? := by
  simp [RateLimiter.update, Std.ExtTreeMap.getElem?_insert, h]

/-- A sweep drops the buckets that were idle for long, and no others. -/
theorem buckets_sweep (limiter : RateLimiter) (client : String) (now : ℚ) :
    (limiter.sweep now).buckets[client]? = limiter.buckets[client]?.filter fun bucket =>
      elapsed bucket.lastRefill now < idleEvictionSecs := by
  simp [RateLimiter.sweep]

@[simp] theorem limits_update (limiter : RateLimiter) (client : String) (now : ℚ) :
    (limiter.update client now).2.limits = limiter.limits := rfl

@[simp] theorem limits_sweep (limiter : RateLimiter) (now : ℚ) :
    (limiter.sweep now).limits = limiter.limits := rfl

@[simp] theorem limits_check (limiter : RateLimiter) (client : String) (now : ℚ) :
    (limiter.check client now).2.limits = limiter.limits := by
  rw [RateLimiter.check]
  by_cases h : sweepThreshold < limiter.buckets.size
  · rw [if_pos h, limits_update, limits_sweep]
  · rw [if_neg h, limits_update]

end FlagForge.Api
