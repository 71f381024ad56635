/-
Module: FlagForge.Api.RetryHint
Layer: Api
Purpose: The seconds to wait that a refused check returns. A client that stays away for that long is
  admitted when it comes back, whatever the others did meanwhile.
Imports: FlagForge.Api.RateBound
Trusted boundary: none
Main exports: RateLimiter.checks, Measured, RetryHint, retry_hint_suffices
-/
import FlagForge.Api.RateBound

namespace FlagForge.Api

open TokenBucket (Limits Bucket full refill spend elapsed)

/-- The limiter after a history of checks, without a sweep. -/
def RateLimiter.checks (limiter : RateLimiter) (history : List Ask) : RateLimiter :=
  history.foldl (fun limiter ask => (limiter.update ask.client ask.now).2) limiter

/-- No bucket is overdrawn, and none is more than full. -/
def Measured (limiter : RateLimiter) : Prop :=
  ∀ (client : String) bucket, limiter.buckets[client]? = some bucket →
    0 ≤ bucket.tokens ∧ bucket.tokens ≤ limiter.limits.burst

variable {limits : Limits ℚ} {limiter : RateLimiter} {now : ℚ} {found : Option (Bucket ℚ)}

/-! ### What a check does to the tokens -/

theorem one_le_toNat_max (n : UInt32) : 1 ≤ (max n 1).toNat := by
  change 1 ≤ (if n ≤ 1 then 1 else n).toNat
  split
  · decide
  · rename_i h
    rw [UInt32.le_iff_toNat_le, UInt32.toNat_one] at h
    omega

/-- The limiter admits a burst of one at least. -/
theorem one_le_burst (config : RateLimitConfig) : 1 ≤ config.limits.burst :=
  Nat.one_le_cast.mpr (one_le_toNat_max config.burst)

/-- And refills one at least in a second. -/
theorem one_le_rate (config : RateLimitConfig) : 1 ≤ config.limits.rate :=
  Nat.one_le_cast.mpr (one_le_toNat_max config.perSecond)

/-- A bucket is within its bounds after a check, when it was before or is new. -/
theorem touch_measured (hfound : ∀ bucket, found = some bucket → 0 ≤ bucket.tokens) :
    0 ≤ (touch limits now found).2.tokens ∧ (touch limits now found).2.tokens ≤ limits.burst := by
  have hnonneg : 0 ≤ (refill limits now (found.getD (full limits now))).tokens := by
    apply TokenBucket.tokens_refill_nonneg
    cases found with
    | none => exact limits.burst_nonneg
    | some bucket => exact hfound bucket rfl
  have hle : (refill limits now (found.getD (full limits now))).tokens ≤ limits.burst :=
    TokenBucket.tokens_refill_le _ now
  rcases touch_cases limits now found with ⟨htoken, heq⟩ | ⟨_, wait, heq⟩
  · rw [heq]
    simp only [spend]
    exact ⟨sub_nonneg.mpr htoken, by linarith⟩
  · rw [heq]
    exact ⟨hnonneg, hle⟩

/-- A refused check leaves the refilled bucket, and names a wait in which the rest of a token is
    refilled: the ceiling only makes it longer. -/
theorem touch_error (hrate : 0 < limits.rate) {wait : Nat}
    (h : (touch limits now found).1 = .error wait) :
    1 ≤ wait ∧ (touch limits now found).2.lastRefill = now ∧
      1 - (touch limits now found).2.tokens ≤ wait * limits.rate := by
  by_cases htoken : 1 ≤ (refill limits now (found.getD (full limits now))).tokens
  · simp only [touch, if_pos htoken] at h
    cases h
  · simp only [touch, if_neg htoken] at h ⊢
    cases h
    have hlast : (refill limits now (found.getD (full limits now))).lastRefill = now := rfl
    generalize refill limits now (found.getD (full limits now)) = bucket at hlast ⊢
    have hceil : ⌈(1 - bucket.tokens) / limits.rate⌉ ≤
        ((max ⌈(1 - bucket.tokens) / limits.rate⌉ 1).toNat : ℤ) := by omega
    have hfraction : (1 - bucket.tokens) / limits.rate ≤
        (((max ⌈(1 - bucket.tokens) / limits.rate⌉ 1).toNat : ℤ) : ℚ) := Int.ceil_le.mp hceil
    refine ⟨by omega, hlast, ?_⟩
    exact (div_le_iff₀ hrate).mp (mod_cast hfraction)

/-- A check that finds a token is admitted. -/
theorem touch_ok {bucket : Bucket ℚ} (h : 1 ≤ (refill limits now bucket).tokens) :
    (touch limits now (some bucket)).1 = .ok () := by
  simp only [touch, Option.getD_some, if_pos h]

/-! ### Histories of checks -/

/-- Checks in two parts. -/
theorem checks_append (history later : List Ask) :
    limiter.checks (history ++ later) = (limiter.checks history).checks later :=
  List.foldl_append

@[simp] theorem limits_checks (history : List Ask) :
    (limiter.checks history).limits = limiter.limits := by
  induction history generalizing limiter with
  | nil => rfl
  | cons ask history ih => exact ih.trans (limits_update _ _ _)

/-- What others ask leaves a client's bucket as it is. -/
theorem buckets_checks_of_ne {client : String} {history : List Ask}
    (h : ∀ ask ∈ history, ask.client ≠ client) :
    (limiter.checks history).buckets[client]? = limiter.buckets[client]? := by
  induction history generalizing limiter with
  | nil => rfl
  | cons ask history ih =>
      refine (ih fun later hlater => h later (List.mem_cons_of_mem _ hlater)).trans ?_
      exact buckets_update_of_ne _ (h ask List.mem_cons_self) _

/-- An update keeps the levels between zero and the burst. -/
theorem Measured.update (h : Measured limiter) (client : String) (now : ℚ) :
    Measured (limiter.update client now).2 := by
  intro other bucket hbucket
  by_cases hclient : client = other
  · subst hclient
    rw [buckets_update_self] at hbucket
    cases hbucket
    exact touch_measured fun found hfound => (h client found hfound).1
  · rw [buckets_update_of_ne _ hclient] at hbucket
    exact h other bucket hbucket

/-- So does every history of checks. -/
theorem measured_checks (config : RateLimitConfig) (history : List Ask) :
    Measured ((RateLimiter.new config).checks history) := by
  induction history using List.reverseRecOn with
  | nil =>
      intro client bucket hbucket
      simp [RateLimiter.checks, RateLimiter.new] at hbucket
  | append_singleton history ask ih =>
      rw [checks_append]
      exact ih.update ask.client ask.now

/-- A client that was refused and stayed away for the wait it was told is admitted. -/
theorem admitted_after_wait (hburst : 1 ≤ limiter.limits.burst) (hrate : 1 ≤ limiter.limits.rate)
    {client : String} {now again : ℚ} {wait : Nat} {others : List Ask}
    (hrefused : (limiter.update client now).1 = .error wait)
    (hothers : ∀ other ∈ others, other.client ≠ client) (hagain : now + wait ≤ again) :
    ((((limiter.update client now).2.checks others).update client again).1) = .ok () := by
  obtain ⟨_, hlast, hmissing⟩ := touch_error (zero_lt_one.trans_le hrate) hrefused
  have hbucket :
      ((limiter.update client now).2.checks others).buckets[client]? =
        (limiter.update client now).2.buckets[client]? :=
    buckets_checks_of_ne hothers
  rw [buckets_update_self] at hbucket
  have htoken := TokenBucket.one_le_tokens_refill hburst hmissing (hlast ▸ hagain)
  rw [RateLimiter.update, hbucket, limits_checks, limits_update]
  exact touch_ok htoken

/-- What a refusal promises, over every history of checks; the times may come in any order. -/
structure RetryHint (config : RateLimitConfig) : Prop where
  tokens : ∀ history, Measured ((RateLimiter.new config).checks history)
  positive : ∀ history (ask : Ask) wait,
    (((RateLimiter.new config).checks history).update ask.client ask.now).1 = .error wait → 1 ≤ wait
  enough : ∀ history (ask : Ask) wait others again,
    (((RateLimiter.new config).checks history).update ask.client ask.now).1 = .error wait →
    (∀ other ∈ others, other.client ≠ ask.client) → ask.now + wait ≤ again →
    (((RateLimiter.new config).checks (history ++ ask :: others)).update ask.client again).1 = .ok ()

/-- After any history of checks, over exact rationals: the tokens of a client are between zero and the
    burst; a refused client is told to wait a second at least; and if it comes back no earlier, it is
    admitted, whatever other clients have asked meanwhile. -/
theorem retry_hint_suffices (config : RateLimitConfig) : RetryHint config where
  tokens := measured_checks config
  positive history ask wait hrefused := by
    have hrate : 0 < ((RateLimiter.new config).checks history).limits.rate := by
      rw [limits_checks]
      exact zero_lt_one.trans_le (one_le_rate config)
    exact (touch_error hrate hrefused).1
  enough history ask wait others again hrefused hothers hagain := by
    have hlimits : ((RateLimiter.new config).checks history).limits = config.limits :=
      limits_checks history
    rw [checks_append]
    apply admitted_after_wait _ _ hrefused hothers hagain
    · rw [hlimits]
      exact one_le_burst config
    · rw [hlimits]
      exact one_le_rate config

/-- With one token and one a second, the second request within half a second is refused and told to wait
    for a second; then, with another client admitted in between, it is admitted. -/
theorem retry_hint_suffices_refused :
    (((RateLimiter.new ⟨1, 1⟩).checks [⟨"a", 0⟩]).update "a" (1 / 2)).1 = .error 1 ∧
      (((RateLimiter.new ⟨1, 1⟩).checks ([⟨"a", 0⟩] ++ ⟨"a", 1 / 2⟩ :: [⟨"b", 1⟩])).update "a"
        (3 / 2)).1 = .ok () := by
  have hrefused : (((RateLimiter.new ⟨1, 1⟩).checks [⟨"a", 0⟩]).update "a" (1 / 2)).1 = .error 1 := by
    decide +kernel
  have hothers : ∀ other ∈ ([⟨"b", 1⟩] : List Ask), other.client ≠ "a" := by decide
  refine ⟨hrefused, (retry_hint_suffices ⟨1, 1⟩).enough [⟨"a", 0⟩] ⟨"a", 1 / 2⟩ 1 [⟨"b", 1⟩] (3 / 2)
    hrefused hothers ?_⟩
  norm_num

end FlagForge.Api
