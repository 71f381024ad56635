/-
Module: FlagForge.Core.Rollout
Layer: Core
Purpose: Which buckets belong to which entry of a rollout, and what becomes of a subject when the
  weights are moved. The walk over the weights is the search for the owner of a point among shares,
  and it never wraps: an accumulator that exceeds a 32-bit bucket ends it.
Imports: FlagForge.Lib.Shares, FlagForge.Core.EngineSoundness
Trusted boundary: none
Main exports: Bucket.pickPosition, Bucket.accumulated, Bucket.rollout_partitions, Engine.arm,
  Engine.widening_removes_nobody
-/
import FlagForge.Lib.Shares
import FlagForge.Core.EngineSoundness

namespace FlagForge.Bucket

open Shares (before owner)

/-! ### The walk by position -/

/-- The walk of `pickWeighted`, answering with the position of the entry that ends it. -/
def pickPositionFrom (bucket : UInt32) : UInt64 → List WeightedVariant → Option Nat
  | _, [] => none
  | cumulative, entry :: weights =>
      let cumulative := cumulative + entry.weight.toUInt64
      if bucket.toUInt64 < cumulative then some 0
      else (pickPositionFrom bucket cumulative weights).map (· + 1)

/-- The position of the entry owning `bucket`. -/
def pickPosition (weights : List WeightedVariant) (bucket : UInt32) : Option Nat :=
  pickPositionFrom bucket 0 weights

/-- The values of the accumulator in the walk of `pickWeighted`, the one that ends it included. -/
def accumulatedFrom (bucket : UInt32) : UInt64 → List WeightedVariant → List UInt64
  | _, [] => []
  | cumulative, entry :: weights =>
      let cumulative := cumulative + entry.weight.toUInt64
      if bucket.toUInt64 < cumulative then [cumulative]
      else cumulative :: accumulatedFrom bucket cumulative weights

def accumulated (weights : List WeightedVariant) (bucket : UInt32) : List UInt64 :=
  accumulatedFrom bucket 0 weights

/-- The weights as naturals. -/
def shares (weights : List WeightedVariant) : List Nat :=
  weights.map fun entry => entry.weight.toNat

theorem pickWeightedFrom_eq (bucket : UInt32) (cumulative : UInt64)
    (weights : List WeightedVariant) :
    pickWeightedFrom bucket cumulative weights =
      (pickPositionFrom bucket cumulative weights).bind fun i =>
        weights[i]?.map WeightedVariant.variant := by
  induction weights generalizing cumulative with
  | nil => rfl
  | cons entry weights ih =>
      rw [pickWeightedFrom, pickPositionFrom]
      by_cases hlt : bucket.toUInt64 < cumulative + entry.weight.toUInt64
      · simp [hlt]
      · rw [if_neg hlt, if_neg hlt, ih]
        cases pickPositionFrom bucket (cumulative + entry.weight.toUInt64) weights <;> simp

/-- The variant picked is that of the entry at the position picked. -/
theorem pickWeighted_eq (weights : List WeightedVariant) (bucket : UInt32) :
    pickWeighted weights bucket =
      (pickPosition weights bucket).bind fun i => weights[i]?.map WeightedVariant.variant :=
  pickWeightedFrom_eq bucket 0 weights

/-- One turn of the walk does not wrap. -/
theorem toNat_accumulate {bucket : UInt32} {cumulative : UInt64}
    (hle : cumulative.toNat ≤ bucket.toNat) (weight : UInt32) :
    (cumulative + weight.toUInt64).toNat = cumulative.toNat + weight.toNat := by
  have hbucket := bucket.toNat_lt
  have hweight := weight.toNat_lt
  rw [UInt64.toNat_add, UInt32.toNat_toUInt64]
  omega

/-- Behind the weight already passed, the walk looks for the owner of what remains of the bucket. -/
theorem pickPositionFrom_eq {bucket : UInt32} {cumulative : UInt64}
    (hle : cumulative.toNat ≤ bucket.toNat) (weights : List WeightedVariant) :
    pickPositionFrom bucket cumulative weights =
      owner (shares weights) (bucket.toNat - cumulative.toNat) := by
  induction weights generalizing cumulative with
  | nil => rfl
  | cons entry weights ih =>
      have hsum := toNat_accumulate hle entry.weight
      rw [pickPositionFrom, shares, List.map_cons, owner]
      by_cases hlt : bucket.toNat < cumulative.toNat + entry.weight.toNat
      · have hstop : bucket.toUInt64 < cumulative + entry.weight.toUInt64 := by
          rw [UInt64.lt_iff_toNat_lt, hsum, UInt32.toNat_toUInt64]
          exact hlt
        rw [if_pos hstop, if_pos (by omega)]
      · have hgo : ¬ bucket.toUInt64 < cumulative + entry.weight.toUInt64 := by
          rw [UInt64.lt_iff_toNat_lt, hsum, UInt32.toNat_toUInt64]
          exact hlt
        rw [if_neg hgo, if_neg (by omega), ih (by omega), hsum, Nat.sub_add_eq, shares]

/-- Picking by the running sum is looking up the owner of the bucket. -/
theorem pickPosition_eq (weights : List WeightedVariant) (bucket : UInt32) :
    pickPosition weights bucket = owner (shares weights) bucket.toNat := by
  rw [pickPosition, pickPositionFrom_eq (by simp)]
  simp

/-- The accumulator holds the natural sum of the weights passed. -/
theorem getElem?_accumulatedFrom {bucket : UInt32} {weights : List WeightedVariant}
    {cumulative value : UInt64} {k : Nat} (hle : cumulative.toNat ≤ bucket.toNat)
    (h : (accumulatedFrom bucket cumulative weights)[k]? = some value) :
    value.toNat = cumulative.toNat + before (shares weights) (k + 1) := by
  induction weights generalizing cumulative k with
  | nil => simp [accumulatedFrom] at h
  | cons entry weights ih =>
      have hsum := toNat_accumulate hle entry.weight
      rw [shares, List.map_cons, Shares.before_cons_succ]
      rw [accumulatedFrom] at h
      by_cases hlt : bucket.toUInt64 < cumulative + entry.weight.toUInt64
      · rw [if_pos hlt] at h
        cases k with
        | zero =>
            cases Option.some.inj h
            simpa using hsum
        | succ k => simp at h
      · rw [if_neg hlt] at h
        cases k with
        | zero =>
            cases Option.some.inj h
            simpa using hsum
        | succ k =>
            rw [UInt64.lt_iff_toNat_lt, UInt32.toNat_toUInt64] at hlt
            rw [ih (Nat.not_lt.mp hlt) (by simpa using h), hsum, shares, Nat.add_assoc]

/-! ### Partitions -/

/-- The buckets below the total weight that are mapped to the entry at a position. -/
def bucketsOf (weights : List WeightedVariant) (i : Nat) : Finset Nat :=
  (Finset.range totalWeight.toNat).filter fun b => pickPosition weights b.toUInt32 = some i

/-- The buckets of a position are those that it owns. -/
theorem bucketsOf_eq (weights : List WeightedVariant) (i : Nat) :
    bucketsOf weights i = Shares.owned (shares weights) totalWeight.toNat i := by
  apply Finset.filter_congr
  intro b hb
  have hlt : b < 100000 := Finset.mem_range.mp hb
  have hnat : b.toUInt32.toNat = b := by
    rw [Nat.toUInt32, UInt32.toNat_ofNat']
    omega
  rw [pickPosition_eq, hnat]

/-- The entries of a rollout divide the buckets among themselves. -/
structure Partitioned (weights : List WeightedVariant) : Prop where
  covered : ∀ b < totalWeight, ∃ i entry, pickPosition weights b = some i ∧
    weights[i]? = some entry ∧ pickWeighted weights b = some entry.variant
  interval : ∀ i < weights.length,
    bucketsOf weights i = Finset.Ico (before (shares weights) i) (before (shares weights) (i + 1))
  size : ∀ i entry, weights[i]? = some entry → (bucketsOf weights i).card = entry.weight.toNat
  disjoint : ∀ i j, i ≠ j → Disjoint (bucketsOf weights i) (bucketsOf weights j)
  ordered : ∀ i j, i < j → ∀ b ∈ bucketsOf weights i, ∀ c ∈ bucketsOf weights j, b < c
  nothing : ∀ i entry, weights[i]? = some entry → entry.weight = 0 → bucketsOf weights i = ∅

/-- Weights that add up to the total partition the buckets. -/
theorem partitioned {weights : List WeightedVariant}
    (hsum : (shares weights).sum = totalWeight.toNat) : Partitioned weights := by
  have hget {i : Nat} {entry : WeightedVariant} (h : weights[i]? = some entry) :
      (shares weights)[i]? = some entry.weight.toNat := by simp [shares, h]
  have hsize : ∀ i entry, weights[i]? = some entry →
      (bucketsOf weights i).card = entry.weight.toNat := by
    intro i entry h
    rw [bucketsOf_eq]
    exact Shares.card_owned (Nat.le_of_eq hsum) (hget h)
  have howner {i b : Nat} (h : b ∈ bucketsOf weights i) : owner (shares weights) b = some i := by
    rw [bucketsOf_eq] at h
    exact (Finset.mem_filter.mp h).2
  constructor
  · intro b hb
    obtain ⟨i, hi⟩ := Shares.owner_isSome_iff.mpr (hsum ▸ UInt32.lt_iff_toNat_lt.mp hb)
    have hlt : i < weights.length := by simpa [shares] using Shares.length_of_owner hi
    have hpick : pickPosition weights b = some i := by rw [pickPosition_eq, hi]
    have hentry := List.getElem?_eq_getElem hlt
    refine ⟨i, weights[i], hpick, hentry, ?_⟩
    rw [pickWeighted_eq, hpick, Option.bind_some, hentry, Option.map_some]
  · intro i _
    rw [bucketsOf_eq]
    exact Shares.owned_eq_Ico (Nat.le_of_eq hsum) i
  · exact hsize
  · intro i j hne
    rw [Finset.disjoint_left]
    intro b hi hj
    exact hne (Option.some.inj ((howner hi).symm.trans (howner hj)))
  · intro i j hlt b hb c hc
    exact Shares.owner_lt hlt (howner hb) (howner hc)
  · intro i entry h hzero
    rw [← Finset.card_eq_zero, hsize i entry h, hzero]
    rfl

/-- A rollout partitions the population exactly, and its accumulator never wraps. Each position has the
    buckets of one interval, as many as its weight; the intervals do not meet; and every bucket below
    the total has an owner. -/
theorem rollout_partitions (weights : List WeightedVariant) :
    ((shares weights).sum = totalWeight.toNat → Partitioned weights) ∧
    ∀ bucket k value, (accumulated weights bucket)[k]? = some value →
      value.toNat = before (shares weights) (k + 1) := by
  constructor
  · exact partitioned
  · intro bucket k value h
    simpa using getElem?_accumulatedFrom (by simp) h

theorem rollout_partitions_thirtySeventy : Partitioned [⟨"a", 30000⟩, ⟨"b", 70000⟩] :=
  (rollout_partitions _).1 (by decide)

end FlagForge.Bucket

namespace FlagForge.Engine

open Bucket (pickPosition shares)
open Matcher (ruleMatches)
open Validate (DistributionShape)

variable (crates : Crates)

/-! ### Widening -/

/-- The position a rollout chooses for a context it has a subject in. -/
def arm (distribution : Distribution) (flagKey salt : String) (ctx : EvaluationContext) :
    Option Nat :=
  match distribution with
  | .fixed _ => none
  | .rollout weights bucketBy =>
      (ctx.bucketingSubject bucketBy).bind fun subject =>
        pickPosition weights (crates.bucket salt flagKey subject)

/-- The weights are over the same variants in the same order, and no cumulative sum is smaller. -/
structure Widened (weights weights' : List WeightedVariant) : Prop where
  variants : weights'.map WeightedVariant.variant = weights.map WeightedVariant.variant
  cumulative : ∀ i, Shares.before (shares weights) i ≤ Shares.before (shares weights') i

/-- The same distribution, or a rollout over the same variants in the same order and on the same
    subject whose first arm has at least the weight it had. -/
inductive FirstArmRaised : Distribution → Distribution → Prop where
  | same {distribution : Distribution} : FirstArmRaised distribution distribution
  | raised {first first' : WeightedVariant} {rest rest' : List WeightedVariant}
      {bucketBy : Option String} (variant : first'.variant = first.variant)
      (variants : rest'.map WeightedVariant.variant = rest.map WeightedVariant.variant)
      (weight : first.weight ≤ first'.weight) :
      FirstArmRaised (.rollout (first :: rest) bucketBy) (.rollout (first' :: rest') bucketBy)

structure RuleRaised (rule rule' : Rule) : Prop where
  id : rule'.id = rule.id
  conditions : rule'.conditions = rule.conditions
  segments : rule'.segments = rule.segments
  distribution : FirstArmRaised rule.distribution rule'.distribution

/-- Nothing but first arms changes in the flag, and its version. -/
structure FlagRaised (flag flag' : Flag) : Prop where
  key : flag'.key = flag.key
  variants : flag'.variants = flag.variants
  enabled : flag'.enabled = flag.enabled
  offVariant : flag'.offVariant = flag.offVariant
  fallthrough : FirstArmRaised flag.fallthrough flag'.fallthrough
  rules : List.Forall₂ RuleRaised flag.rules flag'.rules

variable {crates}

/-- A valid rollout with a subject chooses a position. -/
theorem exists_arm {variants : List String} {weights : List WeightedVariant}
    {bucketBy : Option String} (shape : DistributionShape variants (.rollout weights bucketBy))
    {ctx : EvaluationContext} {subject : String}
    (hsubject : ctx.bucketingSubject bucketBy = some subject) (flagKey salt : String) :
    ∃ i, arm crates (.rollout weights bucketBy) flagKey salt ctx = some i := by
  cases shape with
  | rollout _ _ _ total _ =>
      obtain ⟨key, hkey⟩ := Bucket.pickWeighted_isSome total (crates.bucket_lt salt flagKey subject)
      rw [Bucket.pickWeighted_eq] at hkey
      obtain ⟨i, hi, _⟩ := Option.bind_eq_some_iff.mp hkey
      exact ⟨i, by rw [arm, hsubject, Option.bind_some, hi]⟩

/-- A widened arm loses nobody: whoever had it, or an earlier one, has it or an earlier one still. -/
theorem arm_widened {weights weights' : List WeightedVariant} {bucketBy : Option String}
    {flagKey salt : String} {ctx : EvaluationContext} {i : Nat} (h : Widened weights weights')
    (hi : arm crates (.rollout weights bucketBy) flagKey salt ctx = some i) :
    ∃ j ≤ i, arm crates (.rollout weights' bucketBy) flagKey salt ctx = some j := by
  simp only [arm] at hi ⊢
  cases hsubject : ctx.bucketingSubject bucketBy with
  | none => simp [hsubject] at hi
  | some subject =>
      rw [hsubject, Option.bind_some, Bucket.pickPosition_eq] at hi
      rw [Option.bind_some, Bucket.pickPosition_eq]
      exact Shares.owner_le_of_dominates h.cumulative hi

/-- What the first arm of a rollout was, its raised rollout resolves to as well. -/
theorem resolve_raised {flag flag' : Flag} (hkey : flag'.key = flag.key)
    {distribution distribution' : Distribution} (h : FirstArmRaised distribution distribution')
    {ctx : EvaluationContext} {salt : String}
    (hfirst : arm crates distribution flag.key salt ctx = some 0) :
    resolve crates flag' distribution' ctx salt = resolve crates flag distribution ctx salt := by
  cases h with
  | same => simp only [resolve, hkey]
  | @raised first first' rest rest' bucketBy variant variants weight =>
      simp only [arm] at hfirst
      simp only [resolve, hkey]
      cases hsubject : ctx.bucketingSubject bucketBy with
      | none => simp [hsubject] at hfirst
      | some subject =>
          rw [hsubject, Option.bind_some] at hfirst
          have hle : first.weight.toNat ≤ first'.weight.toNat := UInt32.le_iff_toNat_le.mp weight
          have hlt := (Shares.owner_eq_some_iff.mp (Bucket.pickPosition_eq _ _ ▸ hfirst)).2
          have hfirst' : pickPosition (first' :: rest') (crates.bucket salt flag.key subject) =
              some 0 := by
            rw [Bucket.pickPosition_eq, Shares.owner_eq_some_iff]
            simp only [shares, List.map_cons, Shares.before_zero, Shares.before_cons_succ] at hlt ⊢
            omega
          simp [Bucket.pickWeighted_eq, hfirst, hfirst', variant]

/-- Raising a share leaves the variants. -/
theorem FlagRaised.variant_eq {flag flag' : Flag} (h : FlagRaised flag flag') (key : String) :
    flag'.variant key = flag.variant key := by
  rw [Flag.variant, Flag.variant, h.variants]

theorem degrade_raised {flag flag' : Flag} (h : FlagRaised flag flag') (message : String) :
    degrade flag' message = { degrade flag message with version := flag'.version } := by
  simp [degrade, h.variant_eq, h.key, h.offVariant]

theorem serve_raised {flag flag' : Flag} (h : FlagRaised flag flag') (key : String)
    (reason : Reason) :
    serve flag' key reason = { serve flag key reason with version := flag'.version } := by
  rw [serve, serve, h.variant_eq, h.key]
  cases flag.variant key with
  | none => exact degrade_raised h _
  | some v => rfl

/-- Whoever is served the first arm is served it still. -/
theorem resolveAndServe_raised {flag flag' : Flag} (hflag : FlagRaised flag flag')
    {distribution distribution' : Distribution} (h : FirstArmRaised distribution distribution')
    {ctx : EvaluationContext} {salt : String} (reason : Reason)
    (hfirst : arm crates distribution flag.key salt ctx = some 0) :
    resolveAndServe crates flag' distribution' ctx salt reason =
      { resolveAndServe crates flag distribution ctx salt reason with version := flag'.version } := by
  rw [resolveAndServe, resolveAndServe, resolve_raised hflag.key h hfirst]
  cases resolve crates flag distribution ctx salt with
  | ok key => exact serve_raised hflag key reason
  | error message => exact degrade_raised hflag message

/-- Whom a rule matches does not depend on its shares. -/
theorem ruleMatches_raised {rule rule' : Rule} (h : RuleRaised rule rule')
    (ctx : EvaluationContext) (env : EvaluationEnv) :
    ruleMatches crates rule' ctx env = ruleMatches crates rule ctx env := by
  rw [ruleMatches, ruleMatches, h.conditions, h.segments]

/-- The rules match as they did, so the distribution that decides is the raised one. -/
theorem evaluateRules_raised {flag flag' : Flag} (hflag : FlagRaised flag flag')
    {ctx : EvaluationContext} {env : EvaluationEnv} {rules rules' : List Rule}
    (h : List.Forall₂ RuleRaised rules rules') (index : Nat)
    (hfirst : arm crates
      (((rules.find? fun rule => ruleMatches crates rule ctx env).map Rule.distribution).getD
        flag.fallthrough) flag.key env.salt ctx = some 0) :
    evaluateRules crates flag' ctx env index rules' =
      { evaluateRules crates flag ctx env index rules with version := flag'.version } := by
  induction h generalizing index with
  | nil => exact resolveAndServe_raised hflag hflag.fallthrough .fallthrough hfirst
  | @cons rule rule' rules rules' hrule _ ih =>
      rw [evaluateRules, evaluateRules, ruleMatches_raised hrule, hrule.id]
      by_cases hmatch : ruleMatches crates rule ctx env = true
      · simp only [List.find?_cons, hmatch] at hfirst
        rw [if_pos hmatch, if_pos hmatch]
        exact resolveAndServe_raised hflag hrule.distribution _ hfirst
      · simp only [List.find?_cons, hmatch] at hfirst
        rw [if_neg hmatch, if_neg hmatch]
        exact ih (index + 1) hfirst

/-- So an evaluation that comes to the first arm stays as it is, the version apart. -/
theorem evaluate_raised {flag flag' : Flag} (h : FlagRaised flag flag') {ctx : EvaluationContext}
    {env : EvaluationEnv}
    (hfirst : arm crates (decidingDistribution crates flag ctx env) flag.key env.salt ctx =
      some 0) :
    evaluate crates flag' ctx env =
      { evaluate crates flag ctx env with version := flag'.version } := by
  rw [evaluate, evaluate, h.enabled]
  by_cases henabled : flag.enabled = true
  · rw [henabled]
    refine evaluateRules_raised h h.rules 0 ?_
    rw [decidingDistribution] at hfirst
    cases hfind : flag.rules.find? fun rule => ruleMatches crates rule ctx env with
    | none => simpa [hfind] using hfirst
    | some rule => simpa [hfind] using hfirst
  · rw [Bool.not_eq_true] at henabled
    rw [henabled, h.offVariant]
    exact serve_raised h flag.offVariant .off

variable (crates)

/-- Widening a rollout moves no one to a later arm. Raising a first arm keeps whom it served, and
    their whole evaluation, on it. -/
theorem widening_removes_nobody :
    (∀ variants weights weights' bucketBy,
      DistributionShape variants (.rollout weights bucketBy) →
      DistributionShape variants (.rollout weights' bucketBy) → Widened weights weights' →
      ∀ (salt flagKey : String) (ctx : EvaluationContext) subject,
        ctx.bucketingSubject bucketBy = some subject →
        ∃ i j, arm crates (.rollout weights bucketBy) flagKey salt ctx = some i ∧
          arm crates (.rollout weights' bucketBy) flagKey salt ctx = some j ∧ j ≤ i) ∧
    ∀ flag flag', FlagRaised flag flag' → ∀ ctx env,
      arm crates (decidingDistribution crates flag ctx env) flag.key env.salt ctx = some 0 →
      evaluate crates flag' ctx env =
        { evaluate crates flag ctx env with version := flag'.version } := by
  constructor
  · intro variants weights weights' bucketBy shape _ hwiden salt flagKey ctx subject hsubject
    obtain ⟨i, hi⟩ := exists_arm shape hsubject flagKey salt
    obtain ⟨j, hle, hj⟩ := arm_widened hwiden hi
    exact ⟨i, j, hi, hj, hle⟩
  · intro flag flag' hflag ctx env hfirst
    exact evaluate_raised hflag hfirst

/-- A flag whose only rule serves the given share of users. -/
def shareOfUsers (share : UInt32) : Flag :=
  { halfOfAccounts with
    rules := [⟨.nil, none, [], none,
      .rollout [⟨"on", share⟩, ⟨"off", totalWeight - share⟩] none⟩] }

theorem widening_removes_nobody_halfToSixty :
    (∃ i j, arm .plain (.rollout [⟨"on", 50000⟩, ⟨"off", 50000⟩] none) "checkout.v2" "salt"
        ⟨"user-1", ∅⟩ = some i ∧
      arm .plain (.rollout [⟨"on", 60000⟩, ⟨"off", 40000⟩] none) "checkout.v2" "salt"
        ⟨"user-1", ∅⟩ = some j ∧ j ≤ i) ∧
    evaluate .plain (shareOfUsers 60000) ⟨"user-1", ∅⟩ ⟨"salt", ∅⟩ =
      { evaluate .plain (shareOfUsers 50000) ⟨"user-1", ∅⟩ ⟨"salt", ∅⟩ with version := 1 } := by
  have hwiden := (widening_removes_nobody .plain).1 ["on", "off"]
    [⟨"on", 50000⟩, ⟨"off", 50000⟩] [⟨"on", 60000⟩, ⟨"off", 40000⟩] none
  have hnone : Validate.BucketByShape none := by
    intro name h
    cases h
  constructor
  · refine hwiden ?_ ?_ ⟨rfl, ?_⟩ "salt" "checkout.v2" ⟨"user-1", ∅⟩ "user-1" rfl
    · exact .rollout (by decide) (by decide) (by decide) (by decide) hnone
    · exact .rollout (by decide) (by decide) (by decide) (by decide) hnone
    · intro i
      rcases i with _ | _ | i <;> simp [shares, Shares.before]
  · apply (widening_removes_nobody .plain).2 (shareOfUsers 50000) (shareOfUsers 60000)
    · exact ⟨rfl, rfl, rfl, rfl, .same,
        .cons ⟨rfl, rfl, rfl, .raised rfl rfl (by decide)⟩ .nil⟩
    · decide

end FlagForge.Engine
