/-
Module: FlagForge.Api.Sweeping
Layer: Api
Purpose: What the sweep forgets. A limiter that sweeps answers as one that does not, exactly when the
  idle time before an eviction refills a whole burst.
Imports: FlagForge.Api.RateBound
Trusted boundary: none
Main exports: decisions, Forgets, sweep_forgets_nothing_iff, slow_refill_forgets
-/
import FlagForge.Api.RateBound

namespace FlagForge.Api

open TokenBucket (Limits Bucket full refill spend elapsed refill_idle refill_same refill_full)

/-! ### Two limiters side by side -/

/-- The answers to calls that are served one after another. -/
def decisions (serve : RateLimiter → String → ℚ → Decision × RateLimiter) :
    RateLimiter → List Ask → List Decision
  | _, [] => []
  | limiter, ask :: run =>
      let served := serve limiter ask.client ask.now
      served.1 :: decisions serve served.2 run

/-- The limiter behind them. -/
def served (serve : RateLimiter → String → ℚ → Decision × RateLimiter) :
    RateLimiter → List Ask → RateLimiter
  | limiter, [] => limiter
  | limiter, ask :: run => served serve (serve limiter ask.client ask.now).2 run

/-- The calls take the clock's time, which does not run back. -/
def Ordered (run : List Ask) : Prop :=
  run.Pairwise fun earlier later => earlier.now ≤ later.now

/-- What the second limiter knows of a client, the first one knows as well or has forgotten since. -/
def Forgotten (clock : ℚ) (swept kept : Option (Bucket ℚ)) : Prop :=
  swept = kept ∨
    swept = none ∧ ∃ bucket, kept = some bucket ∧ bucket.lastRefill + idleEvictionSecs ≤ clock

/-- A limiter that sweeps beside one that does not. -/
structure Forgets (clock : ℚ) (swept kept : RateLimiter) : Prop where
  limits : swept.limits = kept.limits
  nonneg : ∀ (client : String) (bucket : Bucket ℚ),
    kept.buckets[client]? = some bucket → 0 ≤ bucket.tokens
  forgotten : ∀ client : String, Forgotten clock swept.buckets[client]? kept.buckets[client]?

variable {swept kept : RateLimiter} {clock now : ℚ}

/-- What a sweep forgot stays as good as forgotten as time passes: the bucket has refilled. -/
theorem Forgotten.later {found found' : Option (Bucket ℚ)} (h : Forgotten clock found found')
    (hnow : clock ≤ now) : Forgotten now found found' := by
  rcases h with hsame | ⟨hnone, bucket, hbucket, hidle⟩
  · exact .inl hsame
  · exact .inr ⟨hnone, bucket, hbucket, le_trans hidle hnow⟩

/-- A sweep forgets what has been idle long enough. -/
theorem Forgotten.sweep {found found' : Option (Bucket ℚ)} (h : Forgotten now found found') :
    Forgotten now
      (found.filter fun bucket => elapsed bucket.lastRefill now < idleEvictionSecs) found' := by
  rcases h with rfl | ⟨rfl, hrest⟩
  · cases found with
    | none => exact .inl rfl
    | some bucket =>
        by_cases hrecent : elapsed bucket.lastRefill now < idleEvictionSecs
        · exact .inl (by simp [hrecent])
        · refine .inr ⟨by simpa using hrecent, bucket, rfl, ?_⟩
          rw [not_lt, elapsed, le_max_iff] at hrecent
          rcases hrecent with hidle | hzero
          · linarith
          · exact absurd hzero (by decide +kernel)
  · exact .inr ⟨rfl, hrest⟩

/-- Forgetting a bucket that has refilled makes no difference to its next touch. -/
theorem Forgotten.touch {limits : Limits ℚ} {found found' : Option (Bucket ℚ)}
    (h : Forgotten now found found') (hidle : limits.burst ≤ idleEvictionSecs * limits.rate)
    (hnonneg : ∀ bucket, found' = some bucket → 0 ≤ bucket.tokens) :
    touch limits now found = touch limits now found' := by
  rcases h with rfl | ⟨rfl, bucket, rfl, hforgotten⟩
  · rfl
  · have hfull : refill limits now bucket = full limits now :=
      refill_idle hidle (hnonneg bucket rfl) hforgotten
    simp only [Api.touch, Option.getD_some, Option.getD_none, hfull, refill_full]

/-- A request leaves no bucket below zero. -/
theorem touch_nonneg {limits : Limits ℚ} {found : Option (Bucket ℚ)}
    (h : ∀ bucket, found = some bucket → 0 ≤ bucket.tokens) :
    0 ≤ (touch limits now found).2.tokens := by
  rcases touch_cases limits now found with ⟨htoken, heq⟩ | ⟨_, wait, heq⟩
  · rw [heq]
    exact sub_nonneg.mpr htoken
  · rw [heq]
    apply TokenBucket.tokens_refill_nonneg
    cases found with
    | none => exact limits.burst_nonneg
    | some bucket => exact h bucket rfl

/-- A sweep forgets idle buckets only. -/
theorem Forgets.sweep (h : Forgets now swept kept) : Forgets now (swept.sweep now) kept where
  limits := h.limits
  nonneg := h.nonneg
  forgotten client := by
    rw [buckets_sweep]
    exact (h.forgotten client).sweep

/-- An update answers alike whether the bucket was forgotten or kept. -/
theorem Forgets.update (h : Forgets now swept kept)
    (hidle : kept.limits.burst ≤ idleEvictionSecs * kept.limits.rate) (client : String) :
    (swept.update client now).1 = (kept.update client now).1 ∧
      Forgets now (swept.update client now).2 (kept.update client now).2 := by
  have htouch := (h.forgotten client).touch hidle (h.nonneg client)
  constructor
  · simp only [RateLimiter.update, h.limits, htouch]
  · constructor
    · exact h.limits
    · intro other bucket hbucket
      by_cases hother : client = other
      · subst hother
        rw [buckets_update_self] at hbucket
        cases hbucket
        exact touch_nonneg (h.nonneg client)
      · rw [buckets_update_of_ne _ hother] at hbucket
        exact h.nonneg other bucket hbucket
    · intro other
      by_cases hother : client = other
      · subst hother
        rw [buckets_update_self, buckets_update_self, h.limits, htouch]
        exact .inl rfl
      · rw [buckets_update_of_ne _ hother, buckets_update_of_ne _ hother]
        exact h.forgotten other

/-- One check answers as one update, and forgets no more than it may. -/
theorem Forgets.check (h : Forgets clock swept kept) (hnow : clock ≤ now)
    (hidle : kept.limits.burst ≤ idleEvictionSecs * kept.limits.rate) (client : String) :
    (swept.check client now).1 = (kept.update client now).1 ∧
      Forgets now (swept.check client now).2 (kept.update client now).2 := by
  have hlater : Forgets now swept kept :=
    ⟨h.limits, h.nonneg, fun client => (h.forgotten client).later hnow⟩
  rw [RateLimiter.check]
  by_cases hsweep : sweepThreshold < swept.buckets.size
  · rw [if_pos hsweep]
    exact hlater.sweep.update hidle client
  · rw [if_neg hsweep]
    exact hlater.update hidle client

/-- So a whole run is decided alike with sweeps and without. -/
theorem Forgets.decisions {run : List Ask} (h : Forgets clock swept kept)
    (hclock : ∀ ask ∈ run, clock ≤ ask.now) (hrun : Ordered run)
    (hidle : kept.limits.burst ≤ idleEvictionSecs * kept.limits.rate) :
    decisions RateLimiter.check swept run = decisions RateLimiter.update kept run := by
  induction run generalizing clock swept kept with
  | nil => rfl
  | cons ask run ih =>
      rw [List.forall_mem_cons] at hclock
      rw [Ordered, List.pairwise_cons] at hrun
      have hstep := h.check hclock.1 hidle ask.client
      rw [Api.decisions, Api.decisions, hstep.1]
      congr 1
      exact ih hstep.2 hrun.1 hrun.2 hidle

/-- A new limiter has nothing to forget. -/
theorem forgets_new (config : RateLimitConfig) (clock : ℚ) :
    Forgets clock (.new config) (.new config) where
  limits := rfl
  nonneg client bucket h := by simp [RateLimiter.new] at h
  forgotten _ := .inl rfl

/-! ### Checks at one instant -/

/-- The tokens a client can spend at an instant. -/
def level (limits : Limits ℚ) (now : ℚ) (found : Option (Bucket ℚ)) : ℚ :=
  (refill limits now (found.getD (full limits now))).tokens

/-- A request that finds a token is granted and takes it. -/
theorem level_touch {limits : Limits ℚ} {found : Option (Bucket ℚ)}
    (h : 1 ≤ level limits now found) :
    (touch limits now found).1 = .ok () ∧
      level limits now (some (touch limits now found).2) = level limits now found - 1 := by
  rcases touch_cases limits now found with ⟨_, heq⟩ | ⟨hdry, _⟩
  · have hburst : (refill limits now (found.getD (full limits now))).tokens ≤ limits.burst :=
      TokenBucket.tokens_refill_le _ _
    have hspent : refill limits now (spend (refill limits now (found.getD (full limits now)))) =
        spend (refill limits now (found.getD (full limits now))) :=
      refill_same (by simp only [spend]; linarith)
    rw [heq]
    exact ⟨rfl, by simp only [level, Option.getD_some, hspent]; rfl⟩
  · exact absurd h (not_le.mpr hdry)

/-- All entries were updated at the same instant. -/
def Settled (now : ℚ) (limiter : RateLimiter) : Prop :=
  ∀ (client : String) (bucket : Bucket ℚ), limiter.buckets[client]? = some bucket →
    bucket.lastRefill = now

variable {limiter : RateLimiter} {client : String}

theorem lastRefill_touch (limits : Limits ℚ) (found : Option (Bucket ℚ)) :
    (touch limits now found).2.lastRefill = now := by
  rcases touch_cases limits now found with ⟨_, heq⟩ | ⟨_, _, heq⟩ <;> rw [heq] <;> rfl

/-- An update at that instant leaves it so. -/
theorem Settled.update (h : Settled now limiter) (client : String) :
    Settled now (limiter.update client now).2 := by
  intro other bucket hbucket
  by_cases hother : client = other
  · subst hother
    rw [buckets_update_self] at hbucket
    cases hbucket
    exact lastRefill_touch _ _
  · rw [buckets_update_of_ne _ hother] at hbucket
    exact h other bucket hbucket

/-- A sweep at the instant of the last update drops nothing. -/
theorem Settled.check (h : Settled now limiter) (client : String) :
    limiter.check client now = limiter.update client now := by
  have hsame : limiter.sweep now = limiter := by
    have hbuckets : (limiter.sweep now).buckets = limiter.buckets := by
      apply Std.ExtTreeMap.ext_getElem?
      intro other
      rw [buckets_sweep]
      cases hfound : limiter.buckets[other]? with
      | none => rfl
      | some bucket => simp [h other bucket hfound, idleEvictionSecs]
    cases limiter
    simpa [RateLimiter.sweep] using hbuckets
  rw [RateLimiter.check, hsame, ite_self]

/-- A run in two parts is decided part by part. -/
theorem decisions_append (serve : RateLimiter → String → ℚ → Decision × RateLimiter)
    (limiter : RateLimiter) (earlier later : List Ask) :
    decisions serve limiter (earlier ++ later) =
      decisions serve limiter earlier ++ decisions serve (served serve limiter earlier) later := by
  induction earlier generalizing limiter with
  | nil => rfl
  | cons ask earlier ih => simp [decisions, served, ih]

theorem served_append (serve : RateLimiter → String → ℚ → Decision × RateLimiter)
    (limiter : RateLimiter) (earlier later : List Ask) :
    served serve limiter (earlier ++ later) = served serve (served serve limiter earlier) later := by
  induction earlier generalizing limiter with
  | nil => rfl
  | cons ask earlier ih => simp [served, ih]

/-- Calls at the instant of the last update are served without a sweep. -/
theorem Settled.at_once {run : List Ask} (h : Settled now limiter)
    (hrun : ∀ ask ∈ run, ask.now = now) :
    decisions RateLimiter.check limiter run = decisions RateLimiter.update limiter run ∧
      served RateLimiter.check limiter run = served RateLimiter.update limiter run ∧
      Settled now (served RateLimiter.update limiter run) := by
  induction run generalizing limiter with
  | nil => exact ⟨rfl, rfl, h⟩
  | cons ask run ih =>
      rw [List.forall_mem_cons] at hrun
      have hrest := ih (h.update ask.client) hrun.2
      simp only [decisions, served, hrun.1, h.check]
      exact ⟨congrArg _ hrest.1, hrest.2⟩

theorem limits_served (run : List Ask) (limiter : RateLimiter) :
    (served RateLimiter.update limiter run).limits = limiter.limits := by
  induction run generalizing limiter with
  | nil => rfl
  | cons ask run ih => rw [served, ih, limits_update]

/-- Others do not touch a client's bucket. -/
theorem buckets_served_of_ne {run : List Ask} (h : ∀ ask ∈ run, ask.client ≠ client)
    (limiter : RateLimiter) :
    (served RateLimiter.update limiter run).buckets[client]? = limiter.buckets[client]? := by
  induction run generalizing limiter with
  | nil => rfl
  | cons ask run ih =>
      rw [List.forall_mem_cons] at h
      rw [served, ih h.2, buckets_update_of_ne _ h.1]

theorem known_served {run : List Ask}
    (h : limiter.buckets[client]?.isSome ∨ ∃ ask ∈ run, ask.client = client) :
    (served RateLimiter.update limiter run).buckets[client]?.isSome := by
  induction run generalizing limiter with
  | nil => simpa [served] using h
  | cons ask run ih =>
      apply ih
      by_cases hclient : ask.client = client
      · left
        rw [← hclient, buckets_update_self]
        rfl
      · rw [buckets_update_of_ne _ hclient]
        simpa [hclient] using h

/-- A client spends what it has. -/
theorem decisions_drain {n : Nat} (h : n ≤ level limiter.limits now limiter.buckets[client]?) :
    decisions RateLimiter.update limiter (List.replicate n ⟨client, now⟩) =
        List.replicate n (.ok ()) ∧
      level limiter.limits now
          (served RateLimiter.update limiter (List.replicate n ⟨client, now⟩)).buckets[client]? =
        level limiter.limits now limiter.buckets[client]? - n := by
  induction n generalizing limiter with
  | zero => simp [decisions, served]
  | succ n ih =>
      rw [Nat.cast_succ] at h ⊢
      have hnonneg := Nat.cast_nonneg (α := ℚ) n
      have htouch := level_touch (show 1 ≤ level limiter.limits now limiter.buckets[client]? by
        linarith)
      have hleft : n ≤ level (limiter.update client now).2.limits now
          (limiter.update client now).2.buckets[client]? := by
        rw [limits_update, buckets_update_self, htouch.2]
        linarith
      have hrest := ih hleft
      rw [limits_update, buckets_update_self, htouch.2] at hrest
      simp only [List.replicate_succ, decisions, served]
      refine ⟨?_, by rw [hrest.2]; ring⟩
      rw [hrest.1]
      exact congrArg (· :: _) htouch.1

/-! ### A burst the idle time does not refill -/

/-- A client of a crowd. -/
def stranger (i : Nat) : String :=
  String.ofList (List.replicate (i + 2) 'b')

theorem stranger_ne (i : Nat) : stranger i ≠ "a" := by
  intro h
  have hlength := congrArg (List.length ∘ String.toList) h
  simp [stranger] at hlength

theorem stranger_injective {i j : Nat} (h : stranger i = stranger j) : i = j := by
  have hlength := congrArg (List.length ∘ String.toList) h
  simpa [stranger] using hlength

/-- One call each of a crowd that makes the limiter sweep. -/
def crowd : List Ask :=
  (List.range (sweepThreshold + 1)).map fun i => ⟨stranger i, 0⟩

/-- A client spends its whole burst, and a crowd comes. -/
def opening (burst : Nat) : List Ask :=
  List.replicate burst ⟨"a", 0⟩ ++ crowd

/-- After the idle time, the client spends one token more than was refilled. -/
def spree (burst rate : Nat) : List Ask :=
  opening burst ++ List.replicate (300 * rate + 1) ⟨"a", 300⟩

theorem now_of_mem_opening (burst : Nat) : ∀ ask ∈ opening burst, ask.now = 0 := by
  intro ask hmem
  rw [opening, List.mem_append, List.mem_replicate, crowd, List.mem_map] at hmem
  rcases hmem with ⟨_, rfl⟩ | ⟨i, _, rfl⟩ <;> rfl

/-- The spree is in time. -/
theorem ordered_spree (burst rate : Nat) : Ordered (spree burst rate) := by
  have hopening := now_of_mem_opening burst
  have hlate : ∀ ask ∈ List.replicate (300 * rate + 1) (⟨"a", 300⟩ : Ask),
      ask.now = 300 := by
    intro ask hmem
    rw [(List.mem_replicate.mp hmem).2]
  rw [Ordered, spree, List.pairwise_append]
  refine ⟨?_, ?_, ?_⟩
  · apply List.pairwise_of_forall_mem_list
    intro earlier hearlier later hlater
    rw [hopening earlier hearlier, hopening later hlater]
  · apply List.pairwise_of_forall_mem_list
    intro earlier hearlier later hlater
    rw [hlate earlier hearlier, hlate later hlater]
  · intro earlier hearlier later hlater
    rw [hopening earlier hearlier, hlate later hlater]
    norm_num

theorem length_le_size {α : Type} {m : Json.StringMap α} {keys : List String} (hnodup : keys.Nodup)
    (hknown : ∀ key ∈ keys, m[key]?.isSome) : keys.length ≤ m.size := by
  rw [← Std.ExtTreeMap.length_keys]
  apply List.Subperm.length_le
  apply List.subperm_of_subset hnodup
  intro key hkey
  rw [Std.ExtTreeMap.mem_keys, Std.ExtTreeMap.mem_iff_isSome_getElem?]
  exact hknown key hkey

/-- So many strangers fill the table beyond the threshold of a sweep. -/
theorem sweepThreshold_lt_size (limiter : RateLimiter) (burst : Nat) :
    sweepThreshold < (served RateLimiter.update limiter (opening burst)).buckets.size := by
  have hlength : ((List.range (sweepThreshold + 1)).map stranger).length = sweepThreshold + 1 := by
    simp
  rw [← Nat.succ_le_iff, ← Nat.add_one, ← hlength]
  apply length_le_size
  · exact List.nodup_range.map_on fun i _ j _ h => stranger_injective h
  · intro key hkey
    obtain ⟨i, hi, rfl⟩ := List.mem_map.mp hkey
    apply known_served
    exact .inr ⟨⟨stranger i, 0⟩, List.mem_append_right _ (List.mem_map.mpr ⟨i, hi, rfl⟩), rfl⟩

/-- After the opening the client has nothing left. -/
theorem level_opening {limiter : RateLimiter} {burst : Nat} (hburst : limiter.limits.burst = burst)
    (hnew : limiter.buckets["a"]? = none) :
    level limiter.limits 0
      (served RateLimiter.update limiter (opening burst)).buckets["a"]? = 0 := by
  have hlevel : level limiter.limits 0 limiter.buckets["a"]? = burst := by
    rw [hnew, level, Option.getD_none, refill_full, full, hburst]
  have hdrained := (decisions_drain (n := burst) hlevel.ge).2
  have hcrowd : ∀ ask ∈ crowd, ask.client ≠ "a" := by
    intro ask hmem
    obtain ⟨i, _, rfl⟩ := List.mem_map.mp hmem
    exact stranger_ne i
  rw [opening, served_append, buckets_served_of_ne hcrowd, hdrained, hlevel, sub_self]

/-- The limiter that swept has the whole burst to give again. -/
theorem decisions_swept {limiter : RateLimiter} {n : Nat} (hsettled : Settled 0 limiter)
    (hcrowded : sweepThreshold < limiter.buckets.size) (hburst : (n + 1 : Nat) ≤ limiter.limits.burst) :
    decisions RateLimiter.check limiter (List.replicate (n + 1) ⟨"a", 300⟩) =
      List.replicate (n + 1) (.ok ()) := by
  have hnothing (client : String) : (limiter.sweep 300).buckets[client]? = none := by
    rw [buckets_sweep]
    cases hfound : limiter.buckets[client]? with
    | none => rfl
    | some bucket => simp [hsettled client bucket hfound, elapsed, idleEvictionSecs]
  have hswept : Settled 300 (limiter.sweep 300) := by
    intro client bucket hbucket
    rw [hnothing] at hbucket
    cases hbucket
  have hfirst : limiter.check "a" 300 = (limiter.sweep 300).update "a" 300 := by
    rw [RateLimiter.check, if_pos hcrowded]
  have hlevel : level limiter.limits 300 (limiter.sweep 300).buckets["a"]? =
      limiter.limits.burst := by
    rw [hnothing, level, Option.getD_none, refill_full, full]
  have hlate : ∀ ask ∈ List.replicate n (⟨"a", 300⟩ : Ask), ask.now = 300 := by
    intro ask hmem
    rw [(List.mem_replicate.mp hmem).2]
  have hrest := ((hswept.update "a").at_once hlate).1
  have henough : ((n + 1 : Nat) : ℚ) ≤
      level (limiter.sweep 300).limits 300 (limiter.sweep 300).buckets["a"]? := by
    rw [limits_sweep, hlevel]
    exact hburst
  have hdrained := (decisions_drain henough).1
  rw [← hdrained, List.replicate_succ, decisions, decisions, hfirst, hrest]

/-- The limiter that did not has what the idle time refilled. -/
theorem decisions_kept {limiter : RateLimiter} {rate : Nat} (hsettled : Settled 0 limiter)
    (hrate : limiter.limits.rate = rate) (hburst : 300 * rate < limiter.limits.burst)
    (hknown : limiter.buckets["a"]?.isSome)
    (hspent : level limiter.limits 0 limiter.buckets["a"]? = 0) :
    ∃ wait, .error wait ∈
      decisions RateLimiter.update limiter (List.replicate (300 * rate + 1) ⟨"a", 300⟩) := by
  have hlevel : level limiter.limits 300 limiter.buckets["a"]? = (300 * rate : Nat) := by
    obtain ⟨bucket, hbucket⟩ := Option.isSome_iff_exists.mp hknown
    have hlast : bucket.lastRefill = 0 := hsettled "a" bucket hbucket
    have hnonneg := Nat.cast_nonneg (α := ℚ) rate
    have helapsed : elapsed (0 : ℚ) 300 = 300 := by simp [elapsed]
    simp only [hbucket, level, refill, Option.getD_some, hlast, TokenBucket.elapsed_self, zero_mul,
      add_zero] at hspent ⊢
    have htokens : bucket.tokens = 0 := by
      rcases min_eq_iff.mp hspent with h | h
      · exact h.1
      · linarith
    rw [htokens, helapsed, hrate, zero_add, min_eq_left hburst.le]
    norm_num
  have hdrained := (decisions_drain hlevel.ge).2
  rw [hlevel, sub_self] at hdrained
  rw [List.replicate_succ', decisions_append]
  simp only [decisions, RateLimiter.update, List.mem_append, List.mem_singleton]
  rw [limits_served]
  rcases touch_cases limiter.limits 300 (served RateLimiter.update limiter
    (List.replicate (300 * rate) ⟨"a", 300⟩)).buckets["a"]? with ⟨htoken, _⟩ | ⟨_, wait, heq⟩
  · exact absurd htoken (by rw [← level, hdrained]; norm_num)
  · exact ⟨wait, .inr (by rw [heq])⟩

/-- The limiters answer the spree differently when the idle time refills less than a burst. -/
theorem spree_decided_differently {limiter : RateLimiter} {burst rate : Nat}
    (hnew : ∀ client : String, limiter.buckets[client]? = none)
    (hburst : limiter.limits.burst = burst) (hrate : limiter.limits.rate = rate)
    (hlt : 300 * rate + 1 ≤ burst) :
    decisions RateLimiter.check limiter (spree burst rate) ≠
      decisions RateLimiter.update limiter (spree burst rate) := by
  have hstart : Settled 0 limiter := by
    intro client bucket hbucket
    rw [hnew] at hbucket
    cases hbucket
  have honce := hstart.at_once (now_of_mem_opening burst)
  have hlimits := limits_served (opening burst) limiter
  have hknown : (served RateLimiter.update limiter (opening burst)).buckets["a"]?.isSome := by
    apply known_served
    refine .inr ⟨⟨"a", 0⟩, List.mem_append_left _ ?_, rfl⟩
    exact List.mem_replicate.mpr ⟨by omega, rfl⟩
  have hspent := level_opening hburst (hnew "a")
  have hrate' : (served RateLimiter.update limiter (opening burst)).limits.rate = rate := by
    rw [hlimits, hrate]
  obtain ⟨wait, hwait⟩ := decisions_kept honce.2.2 hrate'
    (by rw [hlimits, hburst]; exact_mod_cast hlt) hknown (by rw [hlimits, hspent])
  intro heq
  rw [spree, decisions_append, decisions_append, honce.1, honce.2.1, List.append_cancel_left_eq,
    decisions_swept honce.2.2 (sweepThreshold_lt_size _ _)
      (by rw [hlimits, hburst]; exact Nat.cast_le.mpr hlt)] at heq
  rw [← heq, List.mem_replicate] at hwait
  cases hwait.2

theorem spree_of_config {config : RateLimitConfig}
    (h : idleEvictionSecs * config.limits.rate < config.limits.burst) :
    ∃ run, Ordered run ∧ decisions RateLimiter.check (.new config) run ≠
      decisions RateLimiter.update (.new config) run := by
  have hlt : 300 * (max config.perSecond 1).toNat + 1 ≤ (max config.burst 1).toNat := by
    have hcast : 300 * ((max config.perSecond 1).toNat : ℚ) < (max config.burst 1).toNat := h
    exact_mod_cast hcast
  refine ⟨spree (max config.burst 1).toNat (max config.perSecond 1).toNat, ordered_spree _ _, ?_⟩
  apply spree_decided_differently _ rfl rfl hlt
  intro client
  simp [RateLimiter.new]

/-- Sweeping never shows, for any run of calls in time, exactly when the idle time before an eviction
    refills a whole burst: only then is a bucket that is evicted as full as the one that the client
    gets back. -/
theorem sweep_forgets_nothing_iff (config : RateLimitConfig) :
    (∀ run, Ordered run → decisions RateLimiter.check (.new config) run =
      decisions RateLimiter.update (.new config) run) ↔
    config.limits.burst ≤ idleEvictionSecs * config.limits.rate := by
  constructor
  · intro hall
    by_contra hslow
    obtain ⟨run, hrun, hne⟩ := spree_of_config (not_le.mp hslow)
    exact hne (hall run hrun)
  · intro hidle run hrun
    cases run with
    | nil => rfl
    | cons ask run =>
        have hclock : ∀ later ∈ ask :: run, ask.now ≤ later.now := by
          rw [List.forall_mem_cons]
          exact ⟨le_rfl, (List.pairwise_cons.mp hrun).1⟩
        exact (forgets_new config ask.now).decisions hclock hrun hidle

/-- A burst of a thousand that refills by one a second takes longer than the idle time. -/
theorem slow_refill_forgets :
    ¬ ∀ (config : RateLimitConfig) run, Ordered run →
      decisions RateLimiter.check (.new config) run =
        decisions RateLimiter.update (.new config) run := by
  intro hall
  have hslow : idleEvictionSecs * (RateLimitConfig.mk 1000 1).limits.rate <
      (RateLimitConfig.mk 1000 1).limits.burst := by decide +kernel
  obtain ⟨run, hrun, hne⟩ := spree_of_config hslow
  exact hne (hall ⟨1000, 1⟩ run hrun)

end FlagForge.Api
