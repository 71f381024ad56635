/-
Module: FlagForge.Core.Locality
Layer: Core
Purpose: What an evaluation looks at: the flag, the salt and the segments that the flag's rules name. A
  flag that is switched off looks at no segment.
Imports: FlagForge.Core.Engine
Trusted boundary: none
Main exports: Flag.consulted, Engine.evaluate_congr
-/
import FlagForge.Core.Engine

namespace FlagForge

/-- The segments that the evaluation of a flag may look up. -/
def Flag.consulted (flag : Flag) : List String :=
  if flag.enabled then
    flag.rules.flatMap fun rule => rule.segments.elim [] SegmentMatch.referenced
  else []

section

variable {crates : Crates} {ctx : EvaluationContext} {env env' : EvaluationEnv}

namespace Matcher

/-- Whether a context is in a segment is told from the salt and that segment. -/
theorem inSegment_congr {key : String} (hsalt : env'.salt = env.salt)
    (hsegment : env'.segments[key]? = env.segments[key]?) :
    inSegment crates key ctx env' = inSegment crates key ctx env := by
  rw [inSegment, inSegment, hsegment, hsalt]

/-- A match on segments is told from those that it references. -/
theorem segmentMatchHolds_congr {required : SegmentMatch} (hsalt : env'.salt = env.salt)
    (hsegments : ∀ key ∈ required.referenced, env'.segments[key]? = env.segments[key]?) :
    segmentMatchHolds crates required ctx env' = segmentMatchHolds crates required ctx env := by
  have hany : ∀ keys : List String, keys ⊆ required.referenced →
      (keys.any fun key => inSegment crates key ctx env') =
        keys.any fun key => inSegment crates key ctx env := by
    intro keys hkeys
    have hmap : (keys.map fun key => inSegment crates key ctx env') =
        keys.map fun key => inSegment crates key ctx env :=
      List.map_congr_left fun key hkey => inSegment_congr hsalt (hsegments key (hkeys hkey))
    simpa [List.any_map, Function.comp_def] using congrArg (List.any · id) hmap
  rw [segmentMatchHolds, segmentMatchHolds, hany required.anyOf (List.subset_append_left _ _),
    hany required.noneOf (List.subset_append_right _ _)]

/-- So is whether a rule matches. -/
theorem ruleMatches_congr {rule : Rule} (hsalt : env'.salt = env.salt)
    (hsegments : ∀ key ∈ rule.segments.elim [] SegmentMatch.referenced,
      env'.segments[key]? = env.segments[key]?) :
    ruleMatches crates rule ctx env' = ruleMatches crates rule ctx env := by
  rw [ruleMatches, ruleMatches]
  cases hrequired : rule.segments with
  | none => rfl
  | some required =>
      rw [hrequired] at hsegments
      exact congrArg _ (segmentMatchHolds_congr hsalt hsegments)

end Matcher

namespace Engine

/-- The rules are tried in turn, so environments that agree on what they name serve the same. -/
theorem evaluateRules_congr {flag : Flag} (hsalt : env'.salt = env.salt) : ∀ {rules : List Rule}
    {index : Nat}, (∀ key ∈ rules.flatMap fun rule => rule.segments.elim [] SegmentMatch.referenced,
      env'.segments[key]? = env.segments[key]?) →
    evaluateRules crates flag ctx env' index rules = evaluateRules crates flag ctx env index rules := by
  intro rules
  induction rules with
  | nil =>
      intro index _
      rw [evaluateRules, evaluateRules, hsalt]
  | cons rule rules ih =>
      intro index hsegments
      have hrule : Matcher.ruleMatches crates rule ctx env' =
          Matcher.ruleMatches crates rule ctx env :=
        Matcher.ruleMatches_congr hsalt fun key hkey =>
          hsegments key (List.mem_flatMap.mpr ⟨rule, List.mem_cons_self, hkey⟩)
      have hrest : ∀ index, evaluateRules crates flag ctx env' index rules =
          evaluateRules crates flag ctx env index rules := fun index => ih fun key hkey => by
        obtain ⟨rule', hmem, hkey⟩ := List.mem_flatMap.mp hkey
        exact hsegments key (List.mem_flatMap.mpr ⟨rule', List.mem_cons_of_mem _ hmem, hkey⟩)
      rw [evaluateRules, evaluateRules, hrule, hrest, hsalt]

/-- An evaluation looks at no other part of the environment. -/
theorem evaluate_congr {flag : Flag} (hsalt : env'.salt = env.salt)
    (hsegments : ∀ key ∈ flag.consulted, env'.segments[key]? = env.segments[key]?) :
    evaluate crates flag ctx env' = evaluate crates flag ctx env := by
  rw [evaluate, evaluate]
  cases henabled : flag.enabled with
  | false => rfl
  | true =>
      rw [Flag.consulted, if_pos henabled] at hsegments
      exact evaluateRules_congr hsalt hsegments

end Engine

end

end FlagForge
