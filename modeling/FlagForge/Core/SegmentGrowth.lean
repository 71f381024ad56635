/-
Module: FlagForge.Core.SegmentGrowth
Layer: Core
Purpose: Edits that grow a segment never lose a member, whatever the order they are made in. A rule
  that requires some segment goes on matching as segments grow, and a rule that forbids some goes on
  not matching.
Imports: FlagForge.Core.Matcher, Mathlib.Logic.Relation
Trusted boundary: none
Main exports: Matcher.RuleEdit, Matcher.SegmentEdit, Matcher.Grown, Matcher.SegmentsGrown,
  Matcher.growing_keeps_members
-/
import Mathlib.Logic.Relation
import FlagForge.Core.Matcher

namespace FlagForge.Matcher

/-- An edit of one rule that lets more contexts in. -/
inductive RuleEdit (rule : SegmentRule) : SegmentRule → Prop where
  | raisePercentage {rollout : SegmentRollout} {percentage : UInt32}
      (rolled : rule.rollout = some rollout) (raised : rollout.percentage ≤ percentage) :
      RuleEdit rule { rule with rollout := some { rollout with percentage := percentage } }
  | removeRollout : RuleEdit rule { rule with rollout := none }
  | dropConditions {conditions : List Condition} (kept : conditions.Sublist rule.conditions) :
      RuleEdit rule { rule with conditions := conditions }

/-- An edit of a segment that lets more contexts in. -/
inductive SegmentEdit (segment : Segment) : Segment → Prop where
  | editRule {earlier later : List SegmentRule} {rule rule' : SegmentRule}
      (placed : segment.rules = earlier ++ rule :: later) (edit : RuleEdit rule rule') :
      SegmentEdit segment { segment with rules := earlier ++ rule' :: later }
  | addRules {rules : List SegmentRule} (kept : segment.rules.Sublist rules) :
      SegmentEdit segment { segment with rules := rules }
  | include (key : String) :
      SegmentEdit segment { segment with included := segment.included.insert key }
  | pardon (key : String) :
      SegmentEdit segment { segment with excluded := segment.excluded.erase key }
  /-- What membership does not depend on. -/
  | relabel (description : Option String) (version : Int64) :
      SegmentEdit segment { segment with description := description, version := version }

/-- Any finite combination of edits. -/
abbrev Grown : Segment → Segment → Prop :=
  Relation.ReflTransGen SegmentEdit

/-- Every segment is still there or has grown; others may have been defined. -/
structure SegmentsGrown (env env' : EvaluationEnv) : Prop where
  salt : env'.salt = env.salt
  grown : ∀ (key : String) (segment : Segment), env.segments[key]? = some segment →
    ∃ segment', env'.segments[key]? = some segment' ∧ Grown segment segment'

variable {crates : Crates} {ctx : EvaluationContext}

/-- Fewer conditions are met by whoever meets all of them. -/
theorem all_conditions_of_sublist {conditions conditions' : List Condition}
    (h : conditions'.Sublist conditions)
    (hall : conditions.all (conditionMatches crates · ctx) = true) :
    conditions'.all (conditionMatches crates · ctx) = true := by
  rw [List.all_eq_true] at hall ⊢
  intro condition hmem
  exact hall condition (h.subset hmem)

/-- A rule matches when its conditions do, and its rollout, if it has one, admits the subject. -/
theorem segmentRuleMatches_iff {rule : SegmentRule} {segmentKey salt : String} :
    segmentRuleMatches crates rule segmentKey ctx salt = true ↔
      rule.conditions.all (conditionMatches crates · ctx) = true ∧
        ∀ rollout, rule.rollout = some rollout →
          ∃ subject, ctx.bucketingSubject rollout.bucketBy = some subject ∧
            crates.bucket salt (segmentNamespace segmentKey) subject < rollout.percentage := by
  rw [segmentRuleMatches]
  by_cases hall : rule.conditions.all (conditionMatches crates · ctx) = true
  · cases rule.rollout with
    | none => simp [hall]
    | some rollout =>
        cases hsubject : ctx.bucketingSubject rollout.bucketBy <;> simp [hall, hsubject]
  · simp [hall]

/-- An edited rule matches whom it matched. -/
theorem RuleEdit.segmentRuleMatches {rule rule' : SegmentRule} (h : RuleEdit rule rule')
    {segmentKey salt : String}
    (hmatch : segmentRuleMatches crates rule segmentKey ctx salt = true) :
    segmentRuleMatches crates rule' segmentKey ctx salt = true := by
  rw [segmentRuleMatches_iff] at hmatch ⊢
  cases h with
  | @raisePercentage rollout percentage rolled raised =>
      refine ⟨hmatch.1, ?_⟩
      intro _ heq
      cases heq
      obtain ⟨subject, hsubject, hlt⟩ := hmatch.2 rollout rolled
      exact ⟨subject, hsubject, UInt32.lt_of_lt_of_le hlt raised⟩
  | removeRollout =>
      refine ⟨hmatch.1, ?_⟩
      intro _ heq
      cases heq
  | dropConditions kept => exact ⟨all_conditions_of_sublist kept hmatch.1, hmatch.2⟩

/-- Excluded nobody is; included everybody; the rest by a rule. -/
theorem segmentContains_iff {segment : Segment} {salt : String} :
    segmentContains crates segment ctx salt = true ↔
      segment.excluded.contains ctx.key = false ∧
        (segment.included.contains ctx.key = true ∨
          ∃ rule ∈ segment.rules, segmentRuleMatches crates rule segment.key ctx salt = true) := by
  rw [segmentContains]
  by_cases hexcluded : segment.excluded.contains ctx.key = true
  · simp [hexcluded]
  · by_cases hincluded : segment.included.contains ctx.key = true
    · simp [hexcluded, hincluded]
    · simp [hexcluded, hincluded]

/-- One edit loses no member. -/
theorem SegmentEdit.segmentContains {segment segment' : Segment} (h : SegmentEdit segment segment')
    {salt : String} (hin : segmentContains crates segment ctx salt = true) :
    segmentContains crates segment' ctx salt = true := by
  rw [segmentContains_iff] at hin ⊢
  refine ⟨?_, ?_⟩
  · cases h with
    | pardon key =>
        rw [Std.ExtTreeSet.contains_erase, hin.1, Bool.and_false]
    | _ => exact hin.1
  · rcases hin.2 with hincluded | ⟨member, hmem, hmatch⟩
    · left
      cases h with
      | «include» key => simp [Std.ExtTreeSet.contains_insert, hincluded]
      | _ => exact hincluded
    · right
      cases h with
      | @editRule earlier later rule rule' placed edit =>
          rw [placed, List.mem_append, List.mem_cons] at hmem
          rcases hmem with hearlier | heq | hlater
          · exact ⟨member, List.mem_append_left _ hearlier, hmatch⟩
          · subst heq
            exact ⟨rule', by simp, edit.segmentRuleMatches hmatch⟩
          · exact ⟨member, by simp [hlater], hmatch⟩
      | addRules kept => exact ⟨member, kept.subset hmem, hmatch⟩
      | _ => exact ⟨member, hmem, hmatch⟩

/-- Nor does any number of edits. -/
theorem Grown.segmentContains {segment segment' : Segment} (h : Grown segment segment')
    {salt : String} (hin : segmentContains crates segment ctx salt = true) :
    segmentContains crates segment' ctx salt = true := by
  induction h with
  | refl => exact hin
  | tail _ edit ih => exact edit.segmentContains ih

/-- Grown segments keep their members. -/
theorem SegmentsGrown.inSegment {env env' : EvaluationEnv} (h : SegmentsGrown env env')
    {key : String} (hin : inSegment crates key ctx env = true) :
    inSegment crates key ctx env' = true := by
  rw [Matcher.inSegment] at hin ⊢
  cases hsegment : env.segments[key]? with
  | none => simp [hsegment] at hin
  | some segment =>
      obtain ⟨segment', hsegment', hgrown⟩ := h.grown key segment hsegment
      rw [hsegment] at hin
      rw [hsegment', h.salt]
      exact hgrown.segmentContains hin

theorem SegmentsGrown.any {env env' : EvaluationEnv} (h : SegmentsGrown env env')
    {keys : List String} (hany : (keys.any fun key => Matcher.inSegment crates key ctx env) = true) :
    (keys.any fun key => Matcher.inSegment crates key ctx env') = true := by
  rw [List.any_eq_true] at hany ⊢
  obtain ⟨key, hmem, hin⟩ := hany
  exact ⟨key, hmem, h.inSegment hin⟩

/-- A requirement that forbids nothing goes on holding. -/
theorem SegmentsGrown.holds {env env' : EvaluationEnv} (h : SegmentsGrown env env')
    {required : SegmentMatch} (hnone : required.noneOf = [])
    (hholds : segmentMatchHolds crates required ctx env = true) :
    segmentMatchHolds crates required ctx env' = true := by
  simp only [segmentMatchHolds, hnone, List.any_nil, Bool.not_false, Bool.and_true,
    Bool.or_eq_true] at hholds ⊢
  exact hholds.imp_right h.any

/-- A requirement that only forbids goes on failing. -/
theorem SegmentsGrown.fails {env env' : EvaluationEnv} (h : SegmentsGrown env env')
    {required : SegmentMatch} (hany : required.anyOf = [])
    (hfails : segmentMatchHolds crates required ctx env = false) :
    segmentMatchHolds crates required ctx env' = false := by
  simp only [segmentMatchHolds, hany, List.isEmpty_nil, Bool.true_or, Bool.true_and,
    Bool.not_eq_false'] at hfails ⊢
  exact h.any hfails

variable (crates)

/-- Growing segments loses no member, so rules that only require go on matching and rules that only
    forbid go on not matching. -/
theorem growing_keeps_members :
    (∀ segment segment' : Segment, Grown segment segment' → ∀ ctx salt,
      segmentContains crates segment ctx salt = true →
        segmentContains crates segment' ctx salt = true) ∧
    ∀ env env' : EvaluationEnv, SegmentsGrown env env' →
      ∀ (rule : Rule) required, rule.segments = some required → ∀ ctx,
        (required.noneOf = [] → ruleMatches crates rule ctx env = true →
          ruleMatches crates rule ctx env' = true) ∧
        (required.anyOf = [] → ruleMatches crates rule ctx env = false →
          ruleMatches crates rule ctx env' = false) := by
  constructor
  · intro segment segment' hgrown ctx salt hin
    exact hgrown.segmentContains hin
  · intro env env' hgrown rule required hrequired ctx
    simp only [ruleMatches, hrequired]
    constructor
    · intro hnone hmatch
      rw [Bool.and_eq_true] at hmatch ⊢
      exact ⟨hmatch.1, hgrown.holds hnone hmatch.2⟩
    · intro hany hmatch
      rw [Bool.and_eq_false_iff] at hmatch ⊢
      exact hmatch.imp_right (hgrown.fails hany)

/-- A cohort of every twentieth user, with one account left out. -/
def twentieth : Segment where
  key := "beta"
  description := none
  included := ∅
  excluded := Std.ExtTreeSet.insert ∅ "user-9"
  rules := [⟨.nil, none, [], some ⟨5000, none⟩⟩]
  version := 1

/-- The cohort of every tenth user. -/
def tenth : Segment :=
  { twentieth with rules := [⟨.nil, none, [], some ⟨10000, none⟩⟩] }

/-- The cohort is widened to a tenth of the users, and the account let back in. -/
theorem growing_keeps_members_tenth :
    segmentContains .plain { tenth with excluded := tenth.excluded.erase "user-9" }
      ⟨"user-1", ∅⟩ "salt" = true := by
  have hrule : RuleEdit ⟨.nil, none, [], some ⟨5000, none⟩⟩
      { id := .nil, description := none, conditions := [], rollout := some ⟨10000, none⟩ } :=
    @RuleEdit.raisePercentage _ ⟨5000, none⟩ 10000 rfl (by decide)
  have hraised : SegmentEdit twentieth tenth :=
    .editRule (show twentieth.rules = [] ++ _ :: [] from rfl) hrule
  have hgrown : Grown twentieth { tenth with excluded := tenth.excluded.erase "user-9" } :=
    .tail (.single hraised) (.pardon "user-9")
  have hin : segmentContains .plain twentieth ⟨"user-1", ∅⟩ "salt" = true := by
    simp [segmentContains_iff, twentieth, segmentRuleMatches_iff,
      EvaluationContext.bucketingSubject]
  exact (growing_keeps_members .plain).1 twentieth _ hgrown ⟨"user-1", ∅⟩ "salt" hin

end FlagForge.Matcher
