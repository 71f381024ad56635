/-
Module: FlagForge.Lib.TokenBucket
Layer: Lib
Purpose: Token buckets over an ordered ring: refilling by the time elapsed, spending a token, and the
  account of what a bucket has admitted. A bucket whose refills go forward in time admits, in any
  window, at most its burst and what the window refills, and refuses no request of a run that asks for
  no more than that.
Imports: Mathlib.Algebra.Order.Ring.Defs, Mathlib.Tactic.Linarith, Mathlib.Tactic.Ring
Trusted boundary: none
Main exports: TokenBucket.Limits, TokenBucket.Bucket, TokenBucket.refill, TokenBucket.Accounted,
  Accounted.refill, Accounted.spend, TokenBucket.refill_idle, TokenBucket.one_le_tokens_refill,
  TokenBucket.Backed, Backed.one_le_tokens
-/
import Mathlib.Algebra.Order.Ring.Defs
import Mathlib.Tactic.Linarith
import Mathlib.Tactic.Ring

namespace FlagForge.TokenBucket

/-! ### Windows -/

section

variable {K : Type*} [LinearOrder K]

/-- The requests of a window. -/
def between (t₀ t₁ : K) (admitted : List K) : Nat :=
  admitted.countP fun instant => t₀ ≤ instant ∧ instant ≤ t₁

/-- The requests from an instant on. -/
def since (t₀ : K) (admitted : List K) : Nat :=
  admitted.countP fun instant => t₀ ≤ instant

theorem between_le_since (t₀ t₁ : K) (admitted : List K) :
    between t₀ t₁ admitted ≤ since t₀ admitted := by
  apply List.countP_mono_left
  intro instant _ h
  simp only [decide_eq_true_eq] at h ⊢
  exact h.1

theorem since_eq_zero {t₀ : K} {admitted : List K} (h : ∀ instant ∈ admitted, instant < t₀) :
    since t₀ admitted = 0 := by
  rw [since, List.countP_eq_zero]
  intro instant hmem
  simpa using h instant hmem

end

variable {K : Type*} [CommRing K] [LinearOrder K]

/-! ### Buckets -/

/-- How much a bucket holds, and how fast it refills. -/
structure Limits (K : Type*) [CommRing K] [LinearOrder K] where
  burst : K
  rate : K
  burst_nonneg : 0 ≤ burst
  rate_nonneg : 0 ≤ rate

structure Bucket (K : Type*) where
  tokens : K
  lastRefill : K
deriving DecidableEq

/-- The time since an instant, and no time if the instant is still to come. -/
def elapsed (since now : K) : K :=
  max (now - since) 0

variable (limits : Limits K)

/-- A bucket no one has used. -/
def full (now : K) : Bucket K where
  tokens := limits.burst
  lastRefill := now

def refill (now : K) (bucket : Bucket K) : Bucket K where
  tokens := min (bucket.tokens + elapsed bucket.lastRefill now * limits.rate) limits.burst
  lastRefill := now

/-- The bucket with one token less. -/
def spend (bucket : Bucket K) : Bucket K :=
  { bucket with tokens := bucket.tokens - 1 }

variable {limits}

theorem elapsed_nonneg (since now : K) : 0 ≤ elapsed since now :=
  le_max_right _ _

@[simp] theorem elapsed_self (now : K) : elapsed now now = 0 := by
  simp [elapsed]

/-- A bucket holds a burst at most. -/
theorem tokens_refill_le (bucket : Bucket K) (now : K) :
    (refill limits now bucket).tokens ≤ limits.burst :=
  min_le_right _ _

/-- Refilling at the instant of the last refill changes nothing in a bucket that is not too full. -/
theorem refill_same {bucket : Bucket K} (h : bucket.tokens ≤ limits.burst) :
    refill limits bucket.lastRefill bucket = bucket := by
  simp [refill, h]

@[simp] theorem refill_full (now : K) : refill limits now (full limits now) = full limits now :=
  refill_same le_rfl

section

variable [IsStrictOrderedRing K]

theorem elapsed_of_le {since now : K} (h : since ≤ now) : elapsed since now = now - since :=
  max_eq_left (sub_nonneg.mpr h)

/-- Refilling takes nothing away. -/
theorem tokens_refill_nonneg {bucket : Bucket K} (h : 0 ≤ bucket.tokens) (now : K) :
    0 ≤ (refill limits now bucket).tokens := by
  have hrefilled := mul_nonneg (elapsed_nonneg bucket.lastRefill now) limits.rate_nonneg
  exact le_min (add_nonneg h hrefilled) limits.burst_nonneg

/-- A bucket left alone until what it misses of a token is refilled has one. -/
theorem one_le_tokens_refill {bucket : Bucket K} {wait now : K} (hburst : 1 ≤ limits.burst)
    (hwait : 1 - bucket.tokens ≤ wait * limits.rate) (hnow : bucket.lastRefill + wait ≤ now) :
    1 ≤ (refill limits now bucket).tokens := by
  have helapsed : wait ≤ elapsed bucket.lastRefill now :=
    le_trans (by linarith) (le_max_left (now - bucket.lastRefill) 0)
  have hrefilled := mul_le_mul_of_nonneg_right helapsed limits.rate_nonneg
  exact le_min (by linarith) hburst

/-- A bucket left alone long enough for its burst is as good as a new one. -/
theorem refill_idle {bucket : Bucket K} {idle now : K} (hidle : limits.burst ≤ idle * limits.rate)
    (htokens : 0 ≤ bucket.tokens) (hnow : bucket.lastRefill + idle ≤ now) :
    refill limits now bucket = full limits now := by
  have hwait : idle ≤ elapsed bucket.lastRefill now :=
    le_trans (by linarith) (le_max_left (now - bucket.lastRefill) 0)
  have hrefilled := mul_le_mul_of_nonneg_right hwait limits.rate_nonneg
  rw [refill, full, min_eq_right (by linarith)]

end

/-! ### The account of a bucket -/

/-- What a bucket has admitted in any window. -/
def Bounded (limits : Limits K) (admitted : List K) : Prop :=
  ∀ t₀ t₁, t₀ ≤ t₁ → (between t₀ t₁ admitted : K) ≤ limits.burst + limits.rate * (t₁ - t₀)

/-- A bucket beside the instants it admitted requests at. What it admitted since an instant and the
    tokens it has left come to no more than its burst and the refill since. -/
structure Accounted (limits : Limits K) (bucket : Bucket K) (admitted : List K) : Prop where
  nonneg : 0 ≤ bucket.tokens
  earlier : ∀ instant ∈ admitted, instant ≤ bucket.lastRefill
  account : ∀ t₀ ≤ bucket.lastRefill, (since t₀ admitted : K) + bucket.tokens ≤
    limits.burst + limits.rate * (bucket.lastRefill - t₀)
  bounded : Bounded limits admitted

variable [IsStrictOrderedRing K]

/-- A full bucket accounts for nobody yet. -/
theorem accounted_full (limits : Limits K) (now : K) : Accounted limits (full limits now) [] where
  nonneg := limits.burst_nonneg
  earlier := by simp
  account t₀ h := by
    have hwindow := mul_nonneg limits.rate_nonneg (sub_nonneg.mpr h)
    simp only [since, List.countP_nil, Nat.cast_zero, full] at hwindow ⊢
    linarith
  bounded t₀ t₁ h := by
    have hwindow := mul_nonneg limits.rate_nonneg (sub_nonneg.mpr h)
    have hburst := limits.burst_nonneg
    simp only [between, List.countP_nil, Nat.cast_zero]
    linarith

/-- Time is refilled at the rate, and accounted for. -/
theorem Accounted.refill {bucket : Bucket K} {admitted : List K} {now : K}
    (h : Accounted limits bucket admitted) (hnow : bucket.lastRefill ≤ now) :
    Accounted limits (refill limits now bucket) admitted where
  nonneg := tokens_refill_nonneg h.nonneg now
  earlier instant hmem := le_trans (h.earlier instant hmem) hnow
  account t₀ hfrom := by
    by_cases hbefore : t₀ ≤ bucket.lastRefill
    · have haccount := h.account t₀ hbefore
      have hle : (TokenBucket.refill limits now bucket).tokens ≤
          bucket.tokens + elapsed bucket.lastRefill now * limits.rate := min_le_left _ _
      rw [elapsed_of_le hnow] at hle
      calc (since t₀ admitted : K) + (TokenBucket.refill limits now bucket).tokens
          ≤ since t₀ admitted + (bucket.tokens + (now - bucket.lastRefill) * limits.rate) := by
            linarith
        _ ≤ limits.burst + limits.rate * (bucket.lastRefill - t₀) +
              (now - bucket.lastRefill) * limits.rate := by linarith
        _ = limits.burst + limits.rate * (now - t₀) := by ring
    · -- nothing was admitted since, and the bucket is at most full
      have hnone : since t₀ admitted = 0 := since_eq_zero fun instant hmem =>
        lt_of_le_of_lt (h.earlier instant hmem) (not_le.mp hbefore)
      have hle : (TokenBucket.refill limits now bucket).tokens ≤ limits.burst :=
        tokens_refill_le bucket now
      have hwindow := mul_nonneg limits.rate_nonneg (sub_nonneg.mpr hfrom)
      rw [hnone, Nat.cast_zero]
      exact le_trans (by linarith) (le_add_of_nonneg_right hwindow)
  bounded := h.bounded

/-- A token that is spent is one admission. -/
theorem Accounted.spend {bucket : Bucket K} {admitted : List K}
    (h : Accounted limits bucket admitted) (htoken : 1 ≤ bucket.tokens) :
    Accounted limits (spend bucket) (admitted ++ [bucket.lastRefill]) := by
  have haccount (t₀ : K) (hfrom : t₀ ≤ bucket.lastRefill) :
      (since t₀ (admitted ++ [bucket.lastRefill]) : K) + (bucket.tokens - 1) ≤
        limits.burst + limits.rate * (bucket.lastRefill - t₀) := by
    have hone : since t₀ (admitted ++ [bucket.lastRefill]) = since t₀ admitted + 1 := by
      simp [since, hfrom]
    rw [hone, Nat.cast_add, Nat.cast_one]
    linarith [h.account t₀ hfrom]
  constructor
  · exact sub_nonneg.mpr htoken
  · intro instant hmem
    rw [List.mem_append, List.mem_singleton] at hmem
    exact hmem.elim (h.earlier instant) le_of_eq
  · exact haccount
  · intro t₀ t₁ hle
    by_cases hinside : t₀ ≤ bucket.lastRefill ∧ bucket.lastRefill ≤ t₁
    · have hcount : (between t₀ t₁ (admitted ++ [bucket.lastRefill]) : K) ≤
          since t₀ (admitted ++ [bucket.lastRefill]) :=
        Nat.cast_le.mpr (between_le_since _ _ _)
      have hwindow : limits.rate * (bucket.lastRefill - t₀) ≤ limits.rate * (t₁ - t₀) :=
        mul_le_mul_of_nonneg_left (by linarith) limits.rate_nonneg
      linarith [haccount t₀ hinside.1]
    · have hsame : between t₀ t₁ (admitted ++ [bucket.lastRefill]) =
          between t₀ t₁ admitted := by
        simp [between, hinside]
      rw [hsame]
      exact h.bounded t₀ t₁ hle

/-! ### Requests within the limits -/

/-- Fewer requests are within the bound too. -/
theorem Bounded.of_sublist {asked run : List K} (h : Bounded limits run) (hsub : asked.Sublist run) :
    Bounded limits asked := by
  intro t₀ t₁ hle
  have hcount : (between t₀ t₁ asked : K) ≤ between t₀ t₁ run := Nat.cast_le.mpr hsub.countP_le
  exact le_trans hcount (h t₀ t₁ hle)

/-- A bucket beside the instants it was asked at. Since an instant at which it was full, it has lost
    no more than a token for each request. -/
def Backed (limits : Limits K) (bucket : Bucket K) (asked : List K) : Prop :=
  ∃ t₀ ≤ bucket.lastRefill,
    limits.burst + limits.rate * (bucket.lastRefill - t₀) ≤ since t₀ asked + bucket.tokens

/-- A full bucket backs whatever stays within the bound. -/
theorem backed_full (limits : Limits K) (now : K) (asked : List K) :
    Backed limits (full limits now) asked := by
  refine ⟨now, le_rfl, ?_⟩
  have hcount : (0 : K) ≤ since now asked := Nat.cast_nonneg _
  simp only [full, sub_self, mul_zero]
  linarith

/-- So does one that is refilled as time passes. -/
theorem Backed.refill {bucket : Bucket K} {asked : List K} {now : K}
    (h : Backed limits bucket asked) (hnow : bucket.lastRefill ≤ now) :
    Backed limits (refill limits now bucket) asked := by
  obtain ⟨t₀, hfrom, hbacked⟩ := h
  rcases min_choice (bucket.tokens + (now - bucket.lastRefill) * limits.rate) limits.burst with
    hall | hcapped
  · refine ⟨t₀, le_trans hfrom hnow, ?_⟩
    simp only [TokenBucket.refill, elapsed_of_le hnow, hall]
    calc limits.burst + limits.rate * (now - t₀)
        = limits.burst + limits.rate * (bucket.lastRefill - t₀) +
            (now - bucket.lastRefill) * limits.rate := by ring
      _ ≤ since t₀ asked + (bucket.tokens + (now - bucket.lastRefill) * limits.rate) := by linarith
  · -- the refill filled it, so that it is as good as a new one
    have hnew : TokenBucket.refill limits now bucket = full limits now := by
      rw [TokenBucket.refill, elapsed_of_le hnow, hcapped, full]
    rw [hnew]
    exact backed_full limits now asked

/-- And one that spends for what was asked. -/
theorem Backed.spend {bucket : Bucket K} {asked : List K} (h : Backed limits bucket asked) :
    Backed limits (spend bucket) (asked ++ [bucket.lastRefill]) := by
  obtain ⟨t₀, hfrom, hbacked⟩ := h
  refine ⟨t₀, hfrom, ?_⟩
  have hone : since t₀ (asked ++ [bucket.lastRefill]) = since t₀ asked + 1 := by
    simp [since, hfrom]
  simp only [TokenBucket.spend, hone, Nat.cast_add, Nat.cast_one]
  linarith

/-- A request that leaves the requests within the limits finds a token. -/
theorem Backed.one_le_tokens {bucket : Bucket K} {asked : List K} (h : Backed limits bucket asked)
    (hearlier : ∀ instant ∈ asked, instant ≤ bucket.lastRefill)
    (hbounded : Bounded limits (asked ++ [bucket.lastRefill])) : 1 ≤ bucket.tokens := by
  obtain ⟨t₀, hfrom, hbacked⟩ := h
  have hcount : between t₀ bucket.lastRefill (asked ++ [bucket.lastRefill]) = since t₀ asked + 1 := by
    have hsame : between t₀ bucket.lastRefill asked = since t₀ asked := by
      apply List.countP_congr
      intro instant hmem
      simp [hearlier instant hmem]
    rw [between, List.countP_append, ← between, hsame]
    simp [hfrom]
  have hwindow := hbounded t₀ bucket.lastRefill hfrom
  rw [hcount, Nat.cast_add, Nat.cast_one] at hwindow
  linarith

end FlagForge.TokenBucket
