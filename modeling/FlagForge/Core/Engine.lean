/-
Module: FlagForge.Core.Engine
Layer: Core
Purpose: The evaluation engine, a pure function of flag, context and environment. It never fails: a
  misconfigured flag degrades to its off variant with an explanatory reason.
Imports: FlagForge.Core.Matcher
Trusted boundary: none
Main exports: Engine.Reason, Engine.Evaluation, Engine.evaluate
-/
import FlagForge.Core.Matcher

namespace FlagForge.Engine

/-- Why the engine served what it served. -/
inductive Reason where
  /-- The flag's master switch is off. -/
  | off
  /-- Rule at `index` matched. -/
  | targetMatch (ruleId : Uuid) (index : Nat)
  /-- The flag is on and no rule matched. -/
  | fallthrough
  /-- No flag with that key exists in the environment. -/
  | flagNotFound
  /-- The flag is internally inconsistent; the message says how. -/
  | error (message : String)
deriving DecidableEq

/-- Whether the reason is the error case. -/
def Reason.isError : Reason → Bool
  | .error _ => true
  | _ => false

/-- One decision. -/
structure Evaluation where
  flagKey : String
  /-- The variant key that was served, if one could be resolved. -/
  variant : Option String
  value : VariantValue
  reason : Reason
  /-- Configuration version that produced this decision. -/
  version : Int64

/-- The answer for a key that is not configured in this environment. -/
def Evaluation.notFound (flagKey : String) (fallback : VariantValue) : Evaluation where
  flagKey := flagKey
  variant := none
  value := fallback
  reason := .flagNotFound
  version := 0

variable (crates : Crates)

/-- Turns a distribution into a concrete variant key. -/
def resolve (flag : Flag) (distribution : Distribution) (ctx : EvaluationContext) (salt : String) :
    Except String String :=
  match distribution with
  | .fixed variant => .ok variant
  | .rollout weights bucketBy =>
      match ctx.bucketingSubject bucketBy with
      | none =>
          let name := bucketBy.getD "<key>"
          .error s!"rollout buckets on attribute `{name}`, which the context did not provide"
      | some subject =>
          let slot := crates.bucket salt flag.key subject
          match Bucket.pickWeighted weights slot with
          | some variant => .ok variant
          | none => .error s!"rollout weights do not cover bucket {slot}"

/-- Last-resort answer for an inconsistent flag: the off variant if it still resolves, otherwise
    `null`. -/
def degrade (flag : Flag) (message : String) : Evaluation where
  flagKey := flag.key
  variant := none
  value := ((flag.variant flag.offVariant).map Variant.value).getD VariantValue.null
  reason := .error message
  version := flag.version

/-- Emits the decision for a resolved variant key. -/
def serve (flag : Flag) (variantKey : String) (reason : Reason) : Evaluation :=
  match flag.variant variantKey with
  | some variant =>
      { flagKey := flag.key
        variant := some variant.key
        value := variant.value
        reason := reason
        version := flag.version }
  | none => degrade flag s!"variant `{variantKey}` is not defined on this flag"

/-- Resolves a distribution and serves the outcome under `reason`. -/
def resolveAndServe (flag : Flag) (distribution : Distribution) (ctx : EvaluationContext) (salt : String)
    (reason : Reason) : Evaluation :=
  match resolve crates flag distribution ctx salt with
  | .ok variant => serve flag variant reason
  | .error message => degrade flag message

/-- The rules from `index` on, and the fallthrough behind them. -/
def evaluateRules (flag : Flag) (ctx : EvaluationContext) (env : EvaluationEnv) :
    Nat → List Rule → Evaluation
  | _, [] => resolveAndServe crates flag flag.fallthrough ctx env.salt .fallthrough
  | index, rule :: rules =>
      if Matcher.ruleMatches crates rule ctx env then
        resolveAndServe crates flag rule.distribution ctx env.salt (.targetMatch rule.id index)
      else evaluateRules flag ctx env (index + 1) rules

/-- Evaluates `flag` for `ctx` in `env`. -/
def evaluate (flag : Flag) (ctx : EvaluationContext) (env : EvaluationEnv) : Evaluation :=
  if !flag.enabled then serve flag flag.offVariant .off
  else evaluateRules crates flag ctx env 0 flag.rules

end FlagForge.Engine
