/-
Module: FlagForge.Core.EngineSoundness
Layer: Core
Purpose: Soundness of validation for the engine. A validated flag evaluates to an error in one case
  only, a rollout that decides and has no subject in the context; every other evaluation serves one
  of the flag's variants, for the reason the rules give.
Imports: FlagForge.Core.Engine, FlagForge.Core.Validate
Trusted boundary: none
Main exports: Engine.SoundEvaluation, Engine.evaluate_sound
-/
import FlagForge.Core.Engine
import FlagForge.Core.Validate

namespace FlagForge.Engine

open Matcher (ruleMatches)
open Validate (DistributionShape FlagShape validate)

variable (crates : Crates)

/-- The rule at `index` is the first of the flag's rules that matches. -/
structure IsFirstMatch (flag : Flag) (ctx : EvaluationContext) (env : EvaluationEnv) (index : Nat)
    (rule : Rule) : Prop where
  at_index : flag.rules[index]? = some rule
  holds : ruleMatches crates rule ctx env = true
  least : ∀ j < index, ∀ earlier, flag.rules[j]? = some earlier →
    ruleMatches crates earlier ctx env = false

/-- The distribution of the first rule that matches, or else the fallthrough. -/
def decidingDistribution (flag : Flag) (ctx : EvaluationContext) (env : EvaluationEnv) :
    Distribution :=
  match flag.rules.find? fun rule => ruleMatches crates rule ctx env with
  | some rule => rule.distribution
  | none => flag.fallthrough

/-- A rollout on an attribute that the context lacks or that is list-valued. -/
def Unbucketable (distribution : Distribution) (ctx : EvaluationContext) : Prop :=
  ∃ weights name, distribution = .rollout weights (some name) ∧
    (ctx.attributeOf name = none ∨ ∃ items, ctx.attributeOf name = some (.list items))

/-- The keys a distribution may choose: the fixed one, or any with a weight. -/
inductive Chosen : Distribution → String → Prop where
  | fixed {key : String} : Chosen (.fixed key) key
  | weighted {weights : List WeightedVariant} {bucketBy : Option String} {entry : WeightedVariant}
      (mem : entry ∈ weights) (positive : 0 < entry.weight) :
      Chosen (.rollout weights bucketBy) entry.variant

/-- What an evaluation of a validated flag is like. -/
structure SoundEvaluation (flag : Flag) (ctx : EvaluationContext) (env : EvaluationEnv)
    (e : Evaluation) : Prop where
  /-- Errors come from a deciding rollout without a subject, and from nothing else. -/
  error_iff : e.reason.isError = true ↔
    flag.enabled = true ∧ Unbucketable (decidingDistribution crates flag ctx env) ctx
  /-- An error degrades to the off variant's value. -/
  degraded : e.reason.isError = true →
    ∃ v ∈ flag.variants, v.key = flag.offVariant ∧ e.value = v.value
  /-- Otherwise a variant of the flag is served with its own value. -/
  served : e.reason.isError = false →
    ∃ v ∈ flag.variants, e.variant = some v.key ∧ e.value = v.value
  off : flag.enabled = false → e.reason = .off ∧ e.variant = some flag.offVariant
  targetMatch : flag.enabled = true → e.reason.isError = false →
    ∀ index rule, IsFirstMatch crates flag ctx env index rule →
      e.reason = .targetMatch rule.id index ∧
        ∃ key, e.variant = some key ∧ Chosen rule.distribution key
  fallthrough : flag.enabled = true → e.reason.isError = false →
    (∀ rule ∈ flag.rules, ruleMatches crates rule ctx env = false) →
      e.reason = .fallthrough ∧ ∃ key, e.variant = some key ∧ Chosen flag.fallthrough key

/-! ### One distribution -/

/-- A distribution of the right shape resolves to a key it may choose, unless it has no subject. -/
theorem resolve_of_shape (flag : Flag) {variants : List String} {distribution : Distribution}
    (shape : DistributionShape variants distribution) (ctx : EvaluationContext) (salt : String) :
    (Unbucketable distribution ctx ∧
      ∃ message, resolve crates flag distribution ctx salt = .error message) ∨
    (¬ Unbucketable distribution ctx ∧ ∃ key ∈ variants, Chosen distribution key ∧
      resolve crates flag distribution ctx salt = .ok key) := by
  cases shape with
  | @fixed key defined =>
      refine .inr ⟨?_, key, defined, .fixed, rfl⟩
      rintro ⟨_, _, h, _⟩
      cases h
  | @rollout weights bucketBy _ _ defined total _ =>
      have hsubject := @EvaluationContext.bucketingSubject_eq_none_iff ctx bucketBy
      cases hcase : ctx.bucketingSubject bucketBy with
      | none =>
          obtain ⟨name, rfl, hmissing⟩ := hsubject.mp hcase
          refine .inl ⟨⟨weights, name, rfl, hmissing⟩, ?_⟩
          simp [resolve, hcase]
      | some subject =>
          obtain ⟨key, hkey⟩ :=
            Bucket.pickWeighted_isSome total (crates.bucket_lt salt flag.key subject)
          obtain ⟨entry, hmem, rfl, hpos⟩ := Bucket.exists_of_pickWeighted hkey
          refine .inr ⟨?_, entry.variant, defined entry hmem, .weighted hmem hpos, ?_⟩
          · rintro ⟨_, name, heq, hmissing⟩
            obtain ⟨_, rfl⟩ := Distribution.rollout.inj heq
            rw [hsubject.mpr ⟨name, rfl, hmissing⟩] at hcase
            cases hcase
          · simp [resolve, hcase, hkey]

/-- Serving a defined key serves the variant of that key. -/
theorem serve_of_defined {flag : Flag} {key : String} (reason : Reason)
    (defined : key ∈ flag.variants.map Variant.key) :
    ∃ v ∈ flag.variants, v.key = key ∧ (serve flag key reason).variant = some v.key ∧
      (serve flag key reason).value = v.value ∧ (serve flag key reason).reason = reason := by
  obtain ⟨v, hv⟩ := Flag.exists_variant defined
  obtain ⟨hmem, hkey⟩ := Flag.mem_of_variant hv
  exact ⟨v, hmem, hkey, by simp [serve, hv]⟩

/-- Degrading a flag whose off variant is defined serves that variant's value. -/
theorem degrade_value {flag : Flag} (message : String)
    (defined : flag.offVariant ∈ flag.variants.map Variant.key) :
    ∃ v ∈ flag.variants, v.key = flag.offVariant ∧ (degrade flag message).value = v.value := by
  obtain ⟨v, hv⟩ := Flag.exists_variant defined
  obtain ⟨hmem, hkey⟩ := Flag.mem_of_variant hv
  exact ⟨v, hmem, hkey, by simp [degrade, hv]⟩

/-- A decision by one distribution: degraded when it has no subject, and otherwise served under the
    given reason. -/
structure Decided (flag : Flag) (distribution : Distribution) (ctx : EvaluationContext)
    (reason : Reason) (e : Evaluation) : Prop where
  error_iff : e.reason.isError = true ↔ Unbucketable distribution ctx
  degraded : e.reason.isError = true →
    ∃ v ∈ flag.variants, v.key = flag.offVariant ∧ e.value = v.value
  served : e.reason.isError = false → e.reason = reason ∧
    ∃ v ∈ flag.variants, Chosen distribution v.key ∧ e.variant = some v.key ∧ e.value = v.value

/-- A well-formed distribution is served from as its kind says: the fixed variant, the arm of the
    subject's bucket, or, without a subject, the variant for off with an error. -/
theorem resolveAndServe_decided {flag : Flag} {distribution : Distribution} (reason : Reason)
    (hoff : flag.offVariant ∈ flag.variants.map Variant.key)
    (shape : DistributionShape (flag.variants.map Variant.key) distribution)
    (hreason : reason.isError = false) (ctx : EvaluationContext) (salt : String) :
    Decided flag distribution ctx reason
      (resolveAndServe crates flag distribution ctx salt reason) := by
  rcases resolve_of_shape crates flag shape ctx salt with
    ⟨hsubject, message, hresolve⟩ | ⟨hsubject, key, hdefined, hchosen, hresolve⟩
  · have heq : resolveAndServe crates flag distribution ctx salt reason = degrade flag message := by
      rw [resolveAndServe, hresolve]
    rw [heq]
    exact ⟨⟨fun _ => hsubject, fun _ => rfl⟩, fun _ => degrade_value message hoff, fun h => by
      cases h⟩
  · have heq : resolveAndServe crates flag distribution ctx salt reason = serve flag key reason := by
      rw [resolveAndServe, hresolve]
    obtain ⟨v, hmem, rfl, hvariant, hvalue, hwhy⟩ := serve_of_defined reason hdefined
    have hsound : (serve flag v.key reason).reason.isError = false := by rw [hwhy, hreason]
    rw [heq]
    refine ⟨⟨fun h => ?_, fun h => absurd h hsubject⟩, fun h => ?_, fun _ => ?_⟩
    · rw [hsound] at h
      cases h
    · rw [hsound] at h
      cases h
    · exact ⟨hwhy, v, hmem, hchosen, hvariant, hvalue⟩

/-! ### The rule list -/

/-- The loop stops at the first rule that matches. -/
theorem evaluateRules_of_first {flag : Flag} {ctx : EvaluationContext} {env : EvaluationEnv}
    {rule : Rule} (hmatch : ruleMatches crates rule ctx env = true) :
    ∀ {rules : List Rule} {j : Nat} (index : Nat), rules[j]? = some rule →
      (∀ k < j, ∀ earlier, rules[k]? = some earlier →
        ruleMatches crates earlier ctx env = false) →
      evaluateRules crates flag ctx env index rules =
        resolveAndServe crates flag rule.distribution ctx env.salt
          (.targetMatch rule.id (index + j))
  | [], j, _, hget, _ => by simp at hget
  | first :: rules, 0, index, hget, _ => by
      cases Option.some.inj hget
      rw [evaluateRules, if_pos hmatch, Nat.add_zero]
  | first :: rules, j + 1, index, hget, hleast => by
      have hfirst := hleast 0 (Nat.zero_lt_succ j) first rfl
      rw [evaluateRules, hfirst, if_neg Bool.false_ne_true,
        evaluateRules_of_first hmatch (index + 1) (by simpa using hget) fun k hk earlier h =>
          hleast (k + 1) (Nat.succ_lt_succ hk) earlier (by simpa using h)]
      simp only [Nat.add_comm, Nat.add_left_comm]

/-- The loop falls through when no rule matches. -/
theorem evaluateRules_of_none {flag : Flag} {ctx : EvaluationContext} {env : EvaluationEnv} :
    ∀ {rules : List Rule} (index : Nat),
      (∀ rule ∈ rules, ruleMatches crates rule ctx env = false) →
      evaluateRules crates flag ctx env index rules =
        resolveAndServe crates flag flag.fallthrough ctx env.salt .fallthrough
  | [], _, _ => rfl
  | first :: rules, index, h => by
      rw [evaluateRules, h first List.mem_cons_self, if_neg Bool.false_ne_true]
      exact evaluateRules_of_none (index + 1) fun rule hrule =>
        h rule (List.mem_cons_of_mem _ hrule)

/-- The first rule that matches decides. -/
theorem decidingDistribution_of_first {flag : Flag} {ctx : EvaluationContext} {env : EvaluationEnv}
    {index : Nat} {rule : Rule} (h : IsFirstMatch crates flag ctx env index rule) :
    decidingDistribution crates flag ctx env = rule.distribution := by
  obtain ⟨hlt, hget⟩ := List.getElem?_eq_some_iff.mp h.at_index
  have hfind : flag.rules.find? (fun r => ruleMatches crates r ctx env) = some rule := by
    rw [List.find?_eq_some_iff_getElem]
    refine ⟨h.holds, index, hlt, hget, fun j hj => ?_⟩
    rw [h.least j hj _ (List.getElem?_eq_getElem (Nat.lt_trans hj hlt))]
    rfl
  rw [decidingDistribution, hfind]

/-- If none does, the fallthrough decides. -/
theorem decidingDistribution_of_none {flag : Flag} {ctx : EvaluationContext} {env : EvaluationEnv}
    (h : ∀ rule ∈ flag.rules, ruleMatches crates rule ctx env = false) :
    decidingDistribution crates flag ctx env = flag.fallthrough := by
  have hfind : flag.rules.find? (fun r => ruleMatches crates r ctx env) = none := by
    rw [List.find?_eq_none]
    intro rule hrule
    simp [h rule hrule]
  rw [decidingDistribution, hfind]

theorem IsFirstMatch.not_none {crates : Crates} {flag : Flag} {ctx : EvaluationContext}
    {env : EvaluationEnv} {index : Nat} {rule : Rule}
    (h : IsFirstMatch crates flag ctx env index rule) :
    ¬ ∀ r ∈ flag.rules, ruleMatches crates r ctx env = false := by
  intro hnone
  have := hnone rule (List.mem_of_getElem? h.at_index)
  rw [h.holds] at this
  cases this

/-- The first match is unique: of two, neither index is before the other. -/
theorem IsFirstMatch.unique {crates : Crates} {flag : Flag} {ctx : EvaluationContext}
    {env : EvaluationEnv} {i j : Nat} {first second : Rule}
    (hfirst : IsFirstMatch crates flag ctx env i first)
    (hsecond : IsFirstMatch crates flag ctx env j second) : i = j ∧ first = second := by
  have hindex : i = j := by
    rcases Nat.lt_trichotomy i j with hlt | heq | hlt
    · cases (hsecond.least i hlt first hfirst.at_index).symm.trans hfirst.holds
    · exact heq
    · cases (hfirst.least j hlt second hsecond.at_index).symm.trans hsecond.holds
  subst hindex
  exact ⟨rfl, Option.some.inj (hfirst.at_index.symm.trans hsecond.at_index)⟩

/-- Some rule is the first to match, or none matches. -/
theorem exists_first_or_none (flag : Flag) (ctx : EvaluationContext) (env : EvaluationEnv) :
    (∃ index rule, IsFirstMatch crates flag ctx env index rule) ∨
      ∀ rule ∈ flag.rules, ruleMatches crates rule ctx env = false := by
  cases hfind : flag.rules.find? fun rule => ruleMatches crates rule ctx env with
  | none =>
      right
      intro rule hrule
      simpa using List.find?_eq_none.mp hfind rule hrule
  | some rule =>
      obtain ⟨hmatch, index, hlt, hget, hleast⟩ := List.find?_eq_some_iff_getElem.mp hfind
      refine .inl ⟨index, rule, List.getElem?_eq_some_iff.mpr ⟨hlt, hget⟩, hmatch, ?_⟩
      intro j hj earlier hearlier
      obtain ⟨_, rfl⟩ := List.getElem?_eq_some_iff.mp hearlier
      simpa using hleast j hj

/-! ### The whole evaluation -/

/-- Validation is sound for the engine, whatever the regular expressions accept and wherever the
    bucketing function puts a subject. A flag that passes the validator evaluates to an error only
    where the distribution that decides is a rollout by an attribute that the context lacks; the reason
    names the first rule that matches; what is served is a variant of positive weight; and an error
    serves the value of the off variant. -/
theorem evaluate_sound {flag : Flag} (h : validate crates flag = .ok ()) (ctx : EvaluationContext)
    (env : EvaluationEnv) :
    SoundEvaluation crates flag ctx env (evaluate crates flag ctx env) := by
  have shape : FlagShape crates flag := (Validate.validate_eq_ok_iff crates).mp h
  have hoff := shape.config.offVariant
  cases henabled : flag.enabled with
  | false =>
      have heq : evaluate crates flag ctx env = serve flag flag.offVariant .off := by
        simp [evaluate, henabled]
      obtain ⟨v, hmem, hkey, hvariant, hvalue, hwhy⟩ := serve_of_defined .off hoff
      have hsound : (serve flag flag.offVariant .off).reason.isError = false := by rw [hwhy]; rfl
      rw [heq]
      constructor
      · simp [hsound, henabled]
      · simp [hsound]
      · exact fun _ => ⟨v, hmem, hvariant, hvalue⟩
      · exact fun _ => ⟨hwhy, by rw [hvariant, hkey]⟩
      · simp [henabled]
      · simp [henabled]
  | true =>
      have heq : evaluate crates flag ctx env =
          evaluateRules crates flag ctx env 0 flag.rules := by
        simp [evaluate, henabled]
      rcases exists_first_or_none crates flag ctx env with ⟨index, rule, hfirst⟩ | hnone
      · have hrule := shape.config.rules rule (List.mem_of_getElem? hfirst.at_index)
        have hdecided := resolveAndServe_decided crates (.targetMatch rule.id index) hoff
          hrule.distribution rfl ctx env.salt
        rw [heq, evaluateRules_of_first crates hfirst.holds 0 hfirst.at_index hfirst.least,
          Nat.zero_add]
        constructor
        · rw [hdecided.error_iff, decidingDistribution_of_first crates hfirst]
          simp [henabled]
        · exact hdecided.degraded
        · intro hserved
          obtain ⟨_, v, hmem, _, hvariant, hvalue⟩ := hdecided.served hserved
          exact ⟨v, hmem, hvariant, hvalue⟩
        · simp [henabled]
        · intro _ hserved index' rule' hfirst'
          obtain ⟨rfl, rfl⟩ := hfirst.unique hfirst'
          obtain ⟨hwhy, v, _, hchosen, hvariant, _⟩ := hdecided.served hserved
          exact ⟨hwhy, v.key, hvariant, hchosen⟩
        · intro _ _ hnone
          exact absurd hnone hfirst.not_none
      · have hdecided := resolveAndServe_decided crates .fallthrough hoff
          shape.config.fallthrough rfl ctx env.salt
        rw [heq, evaluateRules_of_none crates 0 hnone]
        constructor
        · rw [hdecided.error_iff, decidingDistribution_of_none crates hnone]
          simp [henabled]
        · exact hdecided.degraded
        · intro hserved
          obtain ⟨_, v, hmem, _, hvariant, hvalue⟩ := hdecided.served hserved
          exact ⟨v, hmem, hvariant, hvalue⟩
        · simp [henabled]
        · intro _ _ index rule hfirst
          exact absurd hnone hfirst.not_none
        · intro _ hserved _
          obtain ⟨hwhy, v, _, hchosen, hvariant, _⟩ := hdecided.served hserved
          exact ⟨hwhy, v.key, hvariant, hchosen⟩

/-- A flag whose only rule splits accounts in halves. -/
def halfOfAccounts : Flag where
  key := "checkout.v2"
  variants := [⟨"on", .bool true⟩, ⟨"off", .bool false⟩]
  enabled := true
  offVariant := "off"
  fallthrough := .fixed "on"
  rules := [⟨.nil, none, [], none, .rollout [⟨"on", 50000⟩, ⟨"off", 50000⟩] (some "account_id")⟩]
  version := 1

/-- A context without the attribute takes the one error case that validation leaves. -/
theorem evaluate_sound_halfOfAccounts :
    (evaluate .plain halfOfAccounts ⟨"user-1", ∅⟩ ⟨"salt", ∅⟩).reason.isError = true ∧
    SoundEvaluation .plain halfOfAccounts ⟨"user-1", ∅⟩ ⟨"salt", ∅⟩
      (evaluate .plain halfOfAccounts ⟨"user-1", ∅⟩ ⟨"salt", ∅⟩) :=
  ⟨by decide, evaluate_sound .plain (by decide) ⟨"user-1", ∅⟩ ⟨"salt", ∅⟩⟩

end FlagForge.Engine
