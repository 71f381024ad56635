/-
Module: FlagForge.Api.RateBound
Layer: Api
Purpose: Checks that race. Each takes its instant first and updates the entry of its client later, in
  any order. As long as no update is older than the one before it on its entry, a client is admitted
  no more than its burst and the refill of the window; an older one refills the same time twice.
Imports: FlagForge.Lib.Machine, FlagForge.Api.RateLimit
Trusted boundary: none
Main exports: Checking, Checking.step, InOrder, Admits, admits_at_most, overtaken_admits_twice
-/
import FlagForge.Lib.Machine
import FlagForge.Api.RateLimit

namespace FlagForge.Api

open Machine (Trace follow guarded trace_of_follow trace_of_guarded)
open TokenBucket (Limits Bucket Accounted Bounded full refill spend accounted_full)

/-- A call of `check` that has read the clock. -/
structure Ask where
  client : String
  now : ℚ
deriving DecidableEq

/-- The limiter with the calls under way and the requests it admitted. -/
structure Checking where
  limiter : RateLimiter
  clock : ℚ
  waiting : List Ask
  admitted : List Ask

namespace Checking

/-- A check takes its time first and the lock later, so other checks may come in between. -/
inductive Move where
  /-- A call begins and reads the clock. -/
  | take (client : String) (now : ℚ)
  /-- The waiting call at a position updates the entry of its client. -/
  | update (i : Nat)

/-- A new limiter at a time. -/
def start (config : RateLimitConfig) (clock : ℚ) : Checking where
  limiter := .new config
  clock := clock
  waiting := []
  admitted := []

/-- A waiting call gets its turn. -/
def finish (s : Checking) (i : Nat) (ask : Ask) : Checking :=
  let updated := s.limiter.update ask.client ask.now
  { s with
    limiter := updated.2
    waiting := s.waiting.eraseIdx i
    admitted := if updated.1.isOk then s.admitted ++ [ask] else s.admitted }

/-- One move of the checks. -/
def step : Move → Checking → Option Checking
  | .take client now, s =>
      -- the clock is monotone
      if s.clock ≤ now then
        some { s with clock := now, waiting := s.waiting ++ [⟨client, now⟩] }
      else none
  | .update i, s => s.waiting[i]?.map (s.finish i)

end Checking

open Checking (step)

/-- No update goes back behind the last one of its entry. -/
def InOrder (s : Checking) : Checking.Move → Prop
  | .take _ _ => True
  | .update i => ∀ ask ∈ s.waiting[i]?, ∀ bucket ∈ s.limiter.buckets[ask.client]?,
      bucket.lastRefill ≤ ask.now

instance : ∀ s m, Decidable (InOrder s m)
  | _, .take _ _ => .isTrue trivial
  | s, .update i =>
      inferInstanceAs (Decidable (∀ ask ∈ s.waiting[i]?,
        ∀ bucket ∈ s.limiter.buckets[ask.client]?, bucket.lastRefill ≤ ask.now))

/-- The instants of the requests of a client that were admitted. -/
def admittedOf (client : String) (admitted : List Ask) : List ℚ :=
  (admitted.filter fun ask => ask.client = client).map Ask.now

/-- No client was admitted more than its burst and what the window refills. -/
def Admits (limits : Limits ℚ) (s : Checking) : Prop :=
  ∀ client, Bounded limits (admittedOf client s.admitted)

/-- What is known of an entry and the requests it admitted. -/
def Tallied (limits : Limits ℚ) (admitted : List ℚ) : Option (Bucket ℚ) → Prop
  | none => admitted = []
  | some bucket => Accounted limits bucket admitted

/-- What the limiter keeps: every client's admissions are accounted for by its bucket. -/
structure Balanced (limits : Limits ℚ) (s : Checking) : Prop where
  same : s.limiter.limits = limits
  held : ∀ client, Tallied limits (admittedOf client s.admitted) s.limiter.buckets[client]?

variable {limits : Limits ℚ} {s s' : Checking}

/-- What is tallied stays within the bound. -/
theorem Tallied.bounded {admitted : List ℚ} {found : Option (Bucket ℚ)}
    (h : Tallied limits admitted found) : Bounded limits admitted := by
  cases found with
  | none =>
      cases h
      exact (accounted_full limits 0).bounded
  | some bucket => exact Accounted.bounded h

/-- One update in order keeps the account. -/
theorem Tallied.touch {admitted : List ℚ} {found : Option (Bucket ℚ)} {now : ℚ}
    (h : Tallied limits admitted found)
    (horder : ∀ bucket, found = some bucket → bucket.lastRefill ≤ now) :
    Tallied limits (if (touch limits now found).1.isOk then admitted ++ [now] else admitted)
      (some (Api.touch limits now found).2) := by
  have hrefilled : Accounted limits (refill limits now (found.getD (full limits now))) admitted := by
    cases found with
    | none =>
        cases h
        exact (accounted_full limits now).refill le_rfl
    | some bucket => exact Accounted.refill h (horder bucket rfl)
  rcases touch_cases limits now found with ⟨htoken, heq⟩ | ⟨_, wait, heq⟩
  · rw [heq]
    exact hrefilled.spend htoken
  · rw [heq]
    exact hrefilled

/-- An admission counts for its client only. -/
theorem admittedOf_append (client : String) (admitted : List Ask) (ask : Ask) :
    admittedOf client (admitted ++ [ask]) =
      if ask.client = client then admittedOf client admitted ++ [ask.now]
      else admittedOf client admitted := by
  by_cases h : ask.client = client <;> simp [admittedOf, h]

/-- A check that is over counts if it was answered with leave. -/
theorem admittedOf_finish (client : String) (i : Nat) (ask : Ask) :
    admittedOf client (s.finish i ask).admitted =
      if ask.client = client ∧ (s.limiter.update ask.client ask.now).1.isOk then
        admittedOf client s.admitted ++ [ask.now]
      else admittedOf client s.admitted := by
  rw [Checking.finish]
  by_cases hok : (s.limiter.update ask.client ask.now).1.isOk = true
  · simp [hok, admittedOf_append]
  · simp [hok]

/-- A new limiter has admitted nobody. -/
theorem balanced_start (config : RateLimitConfig) (clock : ℚ) :
    Balanced config.limits (.start config clock) where
  same := rfl
  held client := by
    have hnone : (Checking.start config clock).limiter.buckets[client]? = none := by
      simp [Checking.start, RateLimiter.new]
    rw [hnone]
    rfl

/-- One update keeps the balance, if the bucket was not refilled later than the check's time. -/
theorem Balanced.finish {i : Nat} {ask : Ask} (h : Balanced limits s)
    (horder : ∀ bucket, s.limiter.buckets[ask.client]? = some bucket →
      bucket.lastRefill ≤ ask.now) : Balanced limits (s.finish i ask) where
  same := h.same
  held client := by
    rw [admittedOf_finish]
    by_cases hclient : ask.client = client
    · subst hclient
      have hkept := (h.held ask.client).touch horder
      rw [← h.same] at hkept ⊢
      simpa [Checking.finish, buckets_update_self, RateLimiter.update] using hkept
    · rw [if_neg (by simp [hclient]), Checking.finish, buckets_update_of_ne _ hclient]
      exact h.held client

/-- So every move does that is in order. -/
theorem Balanced.step {m : Checking.Move} (horder : InOrder s m) (hstep : step m s = some s')
    (h : Balanced limits s) : Balanced limits s' := by
  cases m with
  | take client now =>
      rw [Checking.step] at hstep
      by_cases hclock : s.clock ≤ now
      · rw [if_pos hclock] at hstep
        cases hstep
        exact ⟨h.same, h.held⟩
      · rw [if_neg hclock] at hstep
        cases hstep
  | update i =>
      obtain ⟨ask, harrival, rfl⟩ := Option.map_eq_some_iff.mp hstep
      exact h.finish fun bucket hbucket => horder ask harrival bucket hbucket

theorem Balanced.admits (h : Balanced limits s) : Admits limits s :=
  fun client => (h.held client).bounded

/-- In every run whose updates are in order, no client is ever admitted too often: in no window more
    often than the burst and what the rate refills over the length of the window. -/
theorem admits_at_most (config : RateLimitConfig) (clock : ℚ)
    {history : List (Checking × Checking.Move)}
    (hrun : Trace step (.start config clock) history s)
    (horder : ∀ e ∈ history, InOrder e.1 e.2) :
    (∀ e ∈ history, Admits config.limits e.1) ∧ Admits config.limits s := by
  have hbalanced := hrun.invariant (fun _ _ _ hok hstep h => Balanced.step hok hstep h) horder
    (balanced_start config clock)
  exact ⟨fun e he => (hbalanced.1 e he).admits, hbalanced.2.admits⟩

/-- A client that asks again a second later. -/
def patient : List Checking.Move :=
  [.take "a" 0, .update 0, .take "a" 1, .update 0]

/-- A client that waits a second for its second request. -/
theorem admits_at_most_patient :
    ∃ s, s.admitted = [⟨"a", 0⟩, ⟨"a", 1⟩] ∧ Admits (RateLimitConfig.mk 1 1).limits s := by
  have hruns : ((follow (guarded InOrder step) patient (.start ⟨1, 1⟩ 0)).map
      Checking.admitted) = some [⟨"a", 0⟩, ⟨"a", 1⟩] := by decide +kernel
  obtain ⟨s, hfollow, hadmitted⟩ := Option.map_eq_some_iff.mp hruns
  obtain ⟨history, hrun, horder⟩ := trace_of_guarded hfollow
  exact ⟨s, hadmitted, (admits_at_most ⟨1, 1⟩ 0 hrun horder).2⟩

/-- The first call reads the clock and is overtaken by a second one. When it is done, the entry is
    back at its instant, and a third call refills the time between the two again. -/
def overtaken : List Checking.Move :=
  [.take "a" 0, .take "a" 10, .update 1, .update 0, .take "a" 10, .update 0]

/-- Two updates out of order refill a second twice. -/
theorem overtaken_admits_twice :
    ¬ ∀ config clock history s, Trace step (.start config clock) history s →
      Admits config.limits s := by
  have hruns : ((follow step overtaken (.start ⟨1, 1⟩ 0)).map Checking.admitted) =
      some [⟨"a", 10⟩, ⟨"a", 10⟩] := by decide +kernel
  obtain ⟨s, hfollow, hadmitted⟩ := Option.map_eq_some_iff.mp hruns
  obtain ⟨history, hrun, _⟩ := trace_of_follow hfollow
  intro hall
  have hbounded := hall ⟨1, 1⟩ 0 history s hrun "a" 10 10 le_rfl
  have hcount : TokenBucket.between (10 : ℚ) 10 (admittedOf "a" s.admitted) = 2 := by
    rw [hadmitted]
    decide +kernel
  have hburst : (RateLimitConfig.mk 1 1).limits.burst = 1 := by decide +kernel
  rw [hcount, hburst] at hbounded
  norm_num at hbounded

end FlagForge.Api
