/-
Module: FlagForge.Core.Matcher
Layer: Core
Purpose: Condition matching: does this context satisfy this predicate, this segment, this rule? The
  functions are pure; the cache of compiled patterns, which returns what compiling again would, is
  modelled apart.
Imports: FlagForge.Core.Bucket, Mathlib.Data.List.Infix
Trusted boundary: none (third-party crates are the parameter `Crates`)
Main exports: Crates, EvaluationEnv, Matcher.conditionMatches, Matcher.segmentContains,
  Matcher.ruleMatches
-/
import Mathlib.Data.List.Infix
import FlagForge.Core.Bucket

namespace FlagForge

/-- What evaluation and validation take from third-party crates, and the bucketing function: in the
    source it is `Bucket.bucket` over SHA-256, and nothing here depends on more of it than its range. -/
structure Crates where
  /-- `Regex::new`: the matcher of a pattern, or the text of the compile error. -/
  regexNew : String → Except String (String → Bool)
  /-- A parsed semantic version. -/
  Version : Type
  parseVersion : String → Option Version
  versionEq : Version → Version → Bool
  versionLt : Version → Version → Bool
  /-- The hyphenated lower-case spelling. -/
  uuidText : Uuid → String
  /-- Maps (salt, key, subject) onto `[0, totalWeight)`. -/
  bucket : String → String → String → UInt32
  bucket_lt : ∀ salt key subject, bucket salt key subject < totalWeight

/-- The crates on inputs that need little of them: patterns of plain letters, no versions, the nil
    identifier, and a hash function of zero bytes, which puts every subject into the first bucket. -/
def Crates.plain : Crates where
  regexNew pattern := .ok fun text => decide (pattern.toList <:+: text.toList)
  Version := Unit
  parseVersion _ := none
  versionEq _ _ := true
  versionLt _ _ := false
  uuidText _ := "00000000-0000-0000-0000-000000000000"
  bucket := Bucket.bucket fun _ => Vector.replicate 32 0
  bucket_lt := Bucket.bucket_lt fun _ => Vector.replicate 32 0

@[simp] theorem Crates.plain_bucket (salt key subject : String) :
    Crates.plain.bucket salt key subject = 0 := by
  have hzero : (Bucket.fromBeBytes ((Vector.replicate 32 0).toList.take 8) %
      totalWeight.toUInt64).toUInt32 = 0 := by decide
  exact hzero

/-- What evaluation needs from the environment rather than from the flag. -/
structure EvaluationEnv where
  salt : String
  segments : SegmentSet

namespace Matcher

variable (crates : Crates)

/-- Accepts `1`, `1.2` and `1.2.3`. -/
def lenientSemver (raw : String) : Option crates.Version :=
  match crates.parseVersion raw with
  | some v => some v
  | none =>
      match raw.toList.count '.' + 1 with
      | 1 => crates.parseVersion s!"{raw}.0.0"
      | 2 => crates.parseVersion s!"{raw}.0"
      | _ => none

/-- The compiled pattern, or `none` if it does not compile. -/
def compiled (pattern : String) : Option (String → Bool) :=
  (crates.regexNew pattern).toOption

/-- Both text projections, related by `p`; `false` when one is missing. -/
def textPair (p : String → String → Bool) (actual expected : AttributeValue) : Bool :=
  match actual.toText, expected.toText with
  | some a, some e => p a e
  | _, _ => false

/-- Both numbers, related by `p`; `false` when one is not a number. -/
def numericPair (p : Float → Float → Bool) (actual expected : AttributeValue) : Bool :=
  match actual.asF64, expected.asF64 with
  | some a, some e => p a e
  | _, _ => false

/-- Both versions, related by `p`; `false` when one is not a version. -/
def semverPair (p : crates.Version → crates.Version → Bool) : AttributeValue → AttributeValue →
    Bool :=
  textPair fun a e =>
    match lenientSemver crates a, lenientSemver crates e with
    | some a, some e => p a e
    | _, _ => false

/-- Equality across types: numbers compare numerically, everything else by its text projection. -/
def equals (actual expected : AttributeValue) : Bool :=
  match actual.asF64, expected.asF64 with
  | some a, some e => a == e
  | _, _ => textPair (· == ·) actual expected

def compare (op : Operator) (actual expected : AttributeValue) : Bool :=
  match op with
  | .in => equals actual expected
  | .contains => textPair (fun a e => decide (e.toList <:+: a.toList)) actual expected
  | .startsWith => textPair (fun a e => e.toList.isPrefixOf a.toList) actual expected
  | .endsWith => textPair (fun a e => e.toList.isSuffixOf a.toList) actual expected
  | .greaterThan => numericPair (fun a e => decide (a > e)) actual expected
  | .greaterThanOrEqual => numericPair (fun a e => decide (a ≥ e)) actual expected
  | .lessThan => numericPair (fun a e => decide (a < e)) actual expected
  | .lessThanOrEqual => numericPair (fun a e => decide (a ≤ e)) actual expected
  | .matches =>
      match actual.toText, expected.asStr with
      | some text, some pattern =>
          match compiled crates pattern with
          | some isMatch => isMatch text
          | none => false
      | _, _ => false
  | .semverEqual => semverPair crates crates.versionEq actual expected
  | .semverGreaterThan => semverPair crates (fun a e => crates.versionLt e a) actual expected
  | .semverLessThan => semverPair crates crates.versionLt actual expected
  -- handled before we get here
  | .exists | .notExists => false
  -- rewritten by `positiveCounterpart`
  | .notIn | .notContains | .notMatches => false

/-- Negated operators reuse their positive twin and invert the result. -/
def positiveCounterpart : Operator → Operator
  | .notIn => .in
  | .notContains => .contains
  | .notMatches => .matches
  | other => other

/-- Evaluates one predicate. A missing attribute never matches, also for negated operators. -/
def conditionMatches (condition : Condition) (ctx : EvaluationContext) : Bool :=
  let present := ctx.attributeOf condition.attributeName
  match condition.operator with
  | .exists => present.isSome
  | .notExists => present.isNone
  | _ =>
      match present with
      | none => false
      | some actual =>
          if condition.values.isEmpty then false
          else
            let base := positiveCounterpart condition.operator
            let anyMatch := actual.scalars.any fun scalar =>
              condition.values.any fun expected => compare crates base scalar expected
            if condition.operator.isNegated then !anyMatch else anyMatch

/-- A namespace for segment rollouts that no flag key can occupy. -/
def segmentNamespace (segmentKey : String) : String :=
  s!"segment:{segmentKey}"

def segmentRuleMatches (rule : SegmentRule) (segmentKey : String) (ctx : EvaluationContext)
    (salt : String) : Bool :=
  if !rule.conditions.all (conditionMatches crates · ctx) then false
  else
    match rule.rollout with
    | none => true
    | some rollout =>
        match ctx.bucketingSubject rollout.bucketBy with
        -- without a stable subject membership could not be reproduced
        | none => false
        | some subject =>
            decide (crates.bucket salt (segmentNamespace segmentKey) subject < rollout.percentage)

/-- Membership in one segment, decided exclusions first. -/
def segmentContains (segment : Segment) (ctx : EvaluationContext) (salt : String) : Bool :=
  if segment.excluded.contains ctx.key then false
  else if segment.included.contains ctx.key then true
  else segment.rules.any fun rule => segmentRuleMatches crates rule segment.key ctx salt

/-- Whether `ctx` is a member of the segment named `key`; an unknown segment contains nobody. -/
def inSegment (key : String) (ctx : EvaluationContext) (env : EvaluationEnv) : Bool :=
  match env.segments[key]? with
  | some segment => segmentContains crates segment ctx env.salt
  | none => false

/-- Whether `ctx` satisfies a rule's segment requirement. -/
def segmentMatchHolds (required : SegmentMatch) (ctx : EvaluationContext) (env : EvaluationEnv) :
    Bool :=
  let positive :=
    required.anyOf.isEmpty || required.anyOf.any fun key => inSegment crates key ctx env
  positive && !required.noneOf.any fun key => inSegment crates key ctx env

/-- A rule matches when every one of its conditions does and its segment requirement holds. -/
def ruleMatches (rule : Rule) (ctx : EvaluationContext) (env : EvaluationEnv) : Bool :=
  (rule.conditions.all fun c => conditionMatches crates c ctx) &&
    match rule.segments with
    | none => true
    | some required => segmentMatchHolds crates required ctx env

end Matcher

end FlagForge
