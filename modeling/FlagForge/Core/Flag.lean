/-
Module: FlagForge.Core.Flag
Layer: Core
Purpose: The configuration model of one environment: flags with their variants, rules and
  distributions, the segments rules refer to, and the contexts flags are evaluated for.
Imports: FlagForge.Core.Value
Trusted boundary: none
Main exports: Flag, Distribution, Rule, Condition, Operator, Segment, SegmentMatch, EvaluationContext
-/
import FlagForge.Core.Value

namespace FlagForge

open Json (StringMap StringSet)

/-- Total weight of a percentage rollout, in hundredths of a percent. -/
def totalWeight : UInt32 := 100000

/-- One of the possible values a flag can serve. -/
structure Variant where
  key : String
  value : VariantValue

structure WeightedVariant where
  variant : String
  /-- Share of traffic in hundredths of a percent. -/
  weight : UInt32
deriving DecidableEq

/-- How a matched rule (or the fallthrough) picks among the variants. -/
inductive Distribution where
  | fixed (variant : String)
  /-- Traffic split by hashing the subject, which `bucketBy` names when it is not the context key. -/
  | rollout (weights : List WeightedVariant) (bucketBy : Option String)
deriving DecidableEq

/-- Comparison applied between a context attribute and a condition's values. -/
inductive Operator where
  | «in»
  | notIn
  | contains
  | notContains
  | startsWith
  | endsWith
  | greaterThan
  | greaterThanOrEqual
  | lessThan
  | lessThanOrEqual
  | matches
  | notMatches
  | semverEqual
  | semverGreaterThan
  | semverLessThan
  | exists
  | notExists
deriving DecidableEq

namespace Operator

/-- Negated operators must hold for every value rather than for any one of them. -/
def isNegated : Operator → Bool
  | .notIn | .notContains | .notMatches | .notExists => true
  | _ => false

def takesValues : Operator → Bool
  | .exists | .notExists => false
  | _ => true

/-- The name an error message shows. -/
def debugName : Operator → String
  | .in => "In"
  | .notIn => "NotIn"
  | .contains => "Contains"
  | .notContains => "NotContains"
  | .startsWith => "StartsWith"
  | .endsWith => "EndsWith"
  | .greaterThan => "GreaterThan"
  | .greaterThanOrEqual => "GreaterThanOrEqual"
  | .lessThan => "LessThan"
  | .lessThanOrEqual => "LessThanOrEqual"
  | .matches => "Matches"
  | .notMatches => "NotMatches"
  | .semverEqual => "SemverEqual"
  | .semverGreaterThan => "SemverGreaterThan"
  | .semverLessThan => "SemverLessThan"
  | .exists => "Exists"
  | .notExists => "NotExists"

end Operator

/-- A single predicate over one context attribute. -/
structure Condition where
  attributeName : String
  operator : Operator
  values : List AttributeValue

/-! ### Segments -/

/-- A deterministic share of the contexts a segment rule matches. -/
structure SegmentRollout where
  percentage : UInt32
  bucketBy : Option String
deriving DecidableEq

/-- One alternative path into a segment. -/
structure SegmentRule where
  id : Uuid
  description : Option String
  conditions : List Condition
  rollout : Option SegmentRollout

/-- A named audience, scoped to one environment. -/
structure Segment where
  key : String
  description : Option String
  /-- Context keys that are always members, whatever the rules say. -/
  included : StringSet
  /-- Context keys that are never members. -/
  excluded : StringSet
  rules : List SegmentRule
  version : Int64

/-- The segments of one environment, keyed by segment key. -/
abbrev SegmentSet := StringMap Segment

/-- Segment membership required by a flag rule, on top of its conditions. -/
structure SegmentMatch where
  anyOf : List String
  noneOf : List String
deriving DecidableEq

namespace SegmentMatch

def isEmpty (required : SegmentMatch) : Bool :=
  required.anyOf.isEmpty && required.noneOf.isEmpty

/-- Every segment key this refers to. -/
def referenced (required : SegmentMatch) : List String :=
  required.anyOf ++ required.noneOf

end SegmentMatch

/-! ### Flags -/

/-- An ordered targeting rule: its conditions and its segment requirement must all hold. -/
structure Rule where
  id : Uuid
  description : Option String
  conditions : List Condition
  segments : Option SegmentMatch
  distribution : Distribution

/-- A flag as configured for one environment. -/
structure Flag where
  key : String
  variants : List Variant
  /-- Master switch. -/
  enabled : Bool
  /-- Served when the flag is disabled. -/
  offVariant : String
  /-- Served when the flag is enabled but no rule matched. -/
  fallthrough : Distribution
  rules : List Rule
  version : Int64

/-- The first variant with the given key. -/
def Flag.variant (flag : Flag) (key : String) : Option Variant :=
  flag.variants.find? (·.key = key)

/-- A variant that is found by its key is one of the flag's. -/
theorem Flag.mem_of_variant {flag : Flag} {key : String} {v : Variant}
    (h : flag.variant key = some v) : v ∈ flag.variants ∧ v.key = key :=
  ⟨List.mem_of_find?_eq_some h, by simpa using List.find?_some h⟩

/-- A key of the flag's variants is found. -/
theorem Flag.exists_variant {flag : Flag} {key : String}
    (h : key ∈ flag.variants.map Variant.key) : ∃ v, flag.variant key = some v := by
  obtain ⟨v, hv, rfl⟩ := List.mem_map.mp h
  rw [← Option.isSome_iff_exists, Flag.variant, List.find?_isSome]
  exact ⟨v, hv, by simp⟩

/-! ### Contexts -/

/-- Who (or what) we are deciding for. -/
structure EvaluationContext where
  key : String
  attributes : StringMap AttributeValue

namespace EvaluationContext

def attributeOf (ctx : EvaluationContext) (name : String) : Option AttributeValue :=
  ctx.attributes[name]?

/-- The string a rollout hashes on: the named attribute or, by default, the context key. -/
def bucketingSubject (ctx : EvaluationContext) : Option String → Option String
  | none => some ctx.key
  | some name => (ctx.attributes[name]?).bind AttributeValue.toText

/-- There is no subject exactly when the named attribute is missing or a list. -/
theorem bucketingSubject_eq_none_iff {ctx : EvaluationContext} {bucketBy : Option String} :
    ctx.bucketingSubject bucketBy = none ↔
      ∃ name, bucketBy = some name ∧
        (ctx.attributeOf name = none ∨ ∃ items, ctx.attributeOf name = some (.list items)) := by
  cases bucketBy with
  | none => simp [bucketingSubject]
  | some name =>
      simp only [bucketingSubject, attributeOf, Option.some.injEq, exists_eq_left']
      cases ctx.attributes[name]? with
      | none => simp
      | some value => simp [AttributeValue.toText_eq_none_iff]

end EvaluationContext

end FlagForge
