/-
Module: FlagForge.Api.Conformance
Layer: Api
Purpose: Whom the limiter refuses. A client whose requests stay within the burst and the refill of
  every window is never refused, whatever the others ask and whenever the limiter sweeps; and when the
  idle time before an eviction refills a whole burst, no other client gets through in full.
Imports: FlagForge.Api.Sweeping
Trusted boundary: tokens and times are exact rationals; the limiter computes in binary64, where the
  tokens of a client right at the bound may come out just below one
Main exports: instantsOf, ServedInFull, refused_only_beyond_limits
-/
import FlagForge.Api.Sweeping

namespace FlagForge.Api

open TokenBucket (Limits Bucket Backed Bounded Accounted full refill spend backed_full)

/-- The instants a client asked at. -/
def instantsOf (client : String) (run : List Ask) : List ℚ :=
  (run.filter fun ask => ask.client = client).map Ask.now

/-- No request of the client was refused. -/
def ServedInFull (client : String) (run : List Ask) (answers : List Decision) : Prop :=
  ∀ e ∈ run.zip answers, e.1.client = client → e.2 = .ok ()

instance (client : String) (run : List Ask) (answers : List Decision) :
    Decidable (ServedInFull client run answers) :=
  inferInstanceAs (Decidable (∀ e ∈ run.zip answers, e.1.client = client → e.2 = .ok ()))

/-- The entry of a client that was served in full so far. -/
structure Fed (limits : Limits ℚ) (clock : ℚ) (asked : List ℚ) (found : Option (Bucket ℚ)) :
    Prop where
  earlier : ∀ instant ∈ asked, instant ≤ clock
  refilled : ∀ bucket, found = some bucket → bucket.lastRefill ≤ clock
  backed : ∀ bucket, found = some bucket → Backed limits bucket asked

variable {limits : Limits ℚ} {limiter : RateLimiter} {client : String} {clock now : ℚ}
  {asked : List ℚ} {found : Option (Bucket ℚ)} {ask : Ask} {run : List Ask}

/-! ### Requests within the limits are served -/

/-- A request is one of its client's only. -/
theorem instantsOf_cons (client : String) (ask : Ask) (run : List Ask) :
    instantsOf client (ask :: run) =
      if ask.client = client then ask.now :: instantsOf client run else instantsOf client run := by
  by_cases h : ask.client = client <;> simp [instantsOf, h]

/-- Being served in full, request by request. -/
theorem servedInFull_cons {answer : Decision} {answers : List Decision} :
    ServedInFull client (ask :: run) (answer :: answers) ↔
      (ask.client = client → answer = .ok ()) ∧ ServedInFull client run answers := by
  simp [ServedInFull]

/-- Time that passes takes nothing away. -/
theorem Fed.later (h : Fed limits clock asked found) (hnow : clock ≤ now) :
    Fed limits now asked found where
  earlier instant hmem := le_trans (h.earlier instant hmem) hnow
  refilled bucket hbucket := le_trans (h.refilled bucket hbucket) hnow
  backed := h.backed

/-- A sweep only ever puts a full bucket in the place of one that is not. -/
theorem Fed.filter (h : Fed limits clock asked found) (p : Bucket ℚ → Bool) :
    Fed limits clock asked (found.filter p) where
  earlier := h.earlier
  refilled bucket hbucket := h.refilled bucket (Option.filter_eq_some_iff.mp hbucket).1
  backed bucket hbucket := h.backed bucket (Option.filter_eq_some_iff.mp hbucket).1

/-- A request within the limits is granted, and the bucket stays backed by what was asked. -/
theorem Fed.touch (h : Fed limits now asked found)
    (hbounded : Bounded limits (asked ++ [now])) :
    (touch limits now found).1 = .ok () ∧
      Fed limits now (asked ++ [now]) (some (touch limits now found).2) := by
  have hbacked : Backed limits (refill limits now (found.getD (full limits now))) asked := by
    cases found with
    | none => exact (backed_full limits now asked).refill le_rfl
    | some bucket => exact (h.backed bucket rfl).refill (h.refilled bucket rfl)
  rcases touch_cases limits now found with ⟨_, heq⟩ | ⟨hdry, _⟩
  · rw [heq]
    refine ⟨rfl, ?_, ?_, ?_⟩
    · intro instant hmem
      rw [List.mem_append, List.mem_singleton] at hmem
      exact hmem.elim (h.earlier instant) le_of_eq
    · rintro bucket ⟨⟩
      exact le_rfl
    · rintro bucket ⟨⟩
      exact hbacked.spend
  · exact absurd (hbacked.one_le_tokens h.earlier hbounded) (not_le.mpr hdry)

/-- The entry a client is served from, after the sweep if there is one. -/
theorem Fed.swept (h : Fed limits now asked limiter.buckets[client]?) :
    Fed limits now asked (limiter.sweep now).buckets[client]? := by
  rw [buckets_sweep]
  exact h.filter _

/-- One call keeps the client fed, whoever asks. -/
theorem Fed.update (h : Fed limiter.limits ask.now asked limiter.buckets[client]?)
    (hbounded : ask.client = client → Bounded limiter.limits (asked ++ [ask.now])) :
    (ask.client = client → (limiter.update ask.client ask.now).1 = .ok ()) ∧
      Fed limiter.limits ask.now (if ask.client = client then asked ++ [ask.now] else asked)
        (limiter.update ask.client ask.now).2.buckets[client]? := by
  by_cases hclient : ask.client = client
  · subst hclient
    have htouch := h.touch (hbounded rfl)
    rw [if_pos rfl, buckets_update_self]
    exact ⟨fun _ => htouch.1, htouch.2⟩
  · rw [if_neg hclient, buckets_update_of_ne _ hclient]
    exact ⟨fun heq => absurd heq hclient, h⟩

/-- So does a check, which may sweep the client's bucket first: a swept bucket comes back full. -/
theorem Fed.check (h : Fed limiter.limits clock asked limiter.buckets[client]?)
    (hnow : clock ≤ ask.now)
    (hbounded : ask.client = client → Bounded limiter.limits (asked ++ [ask.now])) :
    (ask.client = client → (limiter.check ask.client ask.now).1 = .ok ()) ∧
      Fed limiter.limits ask.now (if ask.client = client then asked ++ [ask.now] else asked)
        (limiter.check ask.client ask.now).2.buckets[client]? := by
  rw [RateLimiter.check]
  by_cases hsweep : sweepThreshold < limiter.buckets.size
  · rw [if_pos hsweep]
    have hswept : Fed (limiter.sweep ask.now).limits ask.now asked
        (limiter.sweep ask.now).buckets[client]? := (h.later hnow).swept
    exact hswept.update hbounded
  · rw [if_neg hsweep]
    exact (h.later hnow).update hbounded

/-- Over a whole run the client is served in full. -/
theorem Fed.decisions (h : Fed limiter.limits clock asked limiter.buckets[client]?)
    (hclock : ∀ ask ∈ run, clock ≤ ask.now) (hrun : Ordered run)
    (hbounded : Bounded limiter.limits (asked ++ instantsOf client run)) :
    ServedInFull client run (decisions RateLimiter.check limiter run) := by
  induction run generalizing limiter clock asked with
  | nil => simp [ServedInFull]
  | cons ask run ih =>
      rw [List.forall_mem_cons] at hclock
      rw [Ordered, List.pairwise_cons] at hrun
      rw [instantsOf_cons] at hbounded
      have hnext : ask.client = client → Bounded limiter.limits (asked ++ [ask.now]) := by
        intro hclient
        rw [if_pos hclient, List.append_cons] at hbounded
        exact hbounded.of_sublist (List.sublist_append_left _ _)
      have hrest : Bounded limiter.limits
          ((if ask.client = client then asked ++ [ask.now] else asked) ++ instantsOf client run) := by
        split at hbounded
        · rwa [if_pos ‹_›, ← List.append_cons]
        · rwa [if_neg ‹_›]
      have hstep := h.check hclock.1 hnext
      rw [Api.decisions, servedInFull_cons]
      rw [← limits_check limiter ask.client ask.now] at hstep hrest
      exact ⟨hstep.1, ih hstep.2 hrun.1 hrun.2 hrest⟩

/-! ### A client that is served in full stays within the limits -/

/-- A request that was granted is accounted for. -/
theorem Tallied.served (h : Tallied limits asked found)
    (hrefilled : ∀ bucket, found = some bucket → bucket.lastRefill ≤ now)
    (hserved : (Api.touch limits now found).1 = .ok ()) :
    Tallied limits (asked ++ [now]) (some (Api.touch limits now found).2) := by
  have htouch := h.touch hrefilled
  rwa [hserved] at htouch

/-- Over a run in which all of the client's requests are granted, all of them are within the limits. -/
theorem Tallied.decisions (h : Tallied limiter.limits asked limiter.buckets[client]?)
    (hrefilled : ∀ bucket, limiter.buckets[client]? = some bucket → bucket.lastRefill ≤ clock)
    (hclock : ∀ ask ∈ run, clock ≤ ask.now) (hrun : Ordered run)
    (hserved : ServedInFull client run (decisions RateLimiter.update limiter run)) :
    Bounded limiter.limits (asked ++ instantsOf client run) := by
  induction run generalizing limiter clock asked with
  | nil =>
      rw [instantsOf, List.filter_nil, List.map_nil, List.append_nil]
      exact h.bounded
  | cons ask run ih =>
      rw [List.forall_mem_cons] at hclock
      rw [Ordered, List.pairwise_cons] at hrun
      rw [Api.decisions, servedInFull_cons] at hserved
      have hlater : ∀ bucket, limiter.buckets[client]? = some bucket →
          bucket.lastRefill ≤ ask.now :=
        fun bucket hbucket => le_trans (hrefilled bucket hbucket) hclock.1
      rw [instantsOf_cons, ← limits_update limiter ask.client ask.now]
      by_cases hclient : ask.client = client
      · subst hclient
        rw [if_pos rfl, List.append_cons]
        refine ih ?_ ?_ hrun.1 hrun.2 hserved.2
        · rw [buckets_update_self]
          exact h.served hlater (hserved.1 rfl)
        · intro bucket hbucket
          rw [buckets_update_self] at hbucket
          cases hbucket
          exact (lastRefill_touch _ _).le
      · rw [if_neg hclient]
        refine ih ?_ ?_ hrun.1 hrun.2 hserved.2
        · rw [buckets_update_of_ne _ hclient]
          exact h
        · rw [buckets_update_of_ne _ hclient]
          exact hlater

/-! ### Whom the limiter refuses -/

theorem fed_new (config : RateLimitConfig) (clock : ℚ) :
    Fed (RateLimiter.new config).limits clock [] (RateLimiter.new config).buckets[client]? where
  earlier := by simp
  refilled bucket hbucket := by simp [RateLimiter.new] at hbucket
  backed bucket hbucket := by simp [RateLimiter.new] at hbucket

theorem tallied_new (config : RateLimitConfig) :
    Tallied (RateLimiter.new config).limits [] (RateLimiter.new config).buckets[client]? := by
  have hnone : (RateLimiter.new config).buckets[client]? = none := by simp [RateLimiter.new]
  rw [hnone]
  rfl

/-- In every run of calls in time, over exact rationals, a client whose requests stay within the burst
    and the refill of every window is never refused, whatever the other clients ask and whenever the
    limiter sweeps; when the idle time refills a burst, a client that is never refused stayed within
    them. -/
theorem refused_only_beyond_limits (config : RateLimitConfig) {run : List Ask} (hrun : Ordered run)
    (client : String) :
    (Bounded config.limits (instantsOf client run) →
      ServedInFull client run (decisions RateLimiter.check (.new config) run)) ∧
    (config.limits.burst ≤ idleEvictionSecs * config.limits.rate →
      ServedInFull client run (decisions RateLimiter.check (.new config) run) →
      Bounded config.limits (instantsOf client run)) := by
  have hclock : ∃ clock, ∀ ask ∈ run, clock ≤ ask.now := by
    cases run with
    | nil => exact ⟨0, by simp⟩
    | cons ask run =>
        refine ⟨ask.now, ?_⟩
        rw [List.forall_mem_cons]
        exact ⟨le_rfl, (List.pairwise_cons.mp hrun).1⟩
  obtain ⟨clock, hclock⟩ := hclock
  constructor
  · intro hbounded
    exact (fed_new config clock).decisions hclock hrun hbounded
  · intro hidle hserved
    rw [(forgets_new config clock).decisions hclock hrun hidle] at hserved
    refine (tallied_new config).decisions ?_ hclock hrun hserved
    intro bucket hbucket
    simp [RateLimiter.new] at hbucket

/-- A client that spends its burst of two and asks again a second later, beside one that is refused. -/
theorem refused_only_beyond_limits_patient :
    Bounded (RateLimitConfig.mk 2 1).limits (instantsOf "a"
      [⟨"a", 0⟩, ⟨"b", 0⟩, ⟨"a", 0⟩, ⟨"b", 0⟩, ⟨"b", 0⟩, ⟨"a", 1⟩]) := by
  have hordered : Ordered [⟨"a", 0⟩, ⟨"b", 0⟩, ⟨"a", 0⟩, ⟨"b", 0⟩, ⟨"b", 0⟩, ⟨"a", 1⟩] := by
    simp [Ordered]
  exact (refused_only_beyond_limits ⟨2, 1⟩ hordered "a").2 (by decide +kernel) (by decide +kernel)

end FlagForge.Api
