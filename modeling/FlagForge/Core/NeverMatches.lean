/-
Module: FlagForge.Core.NeverMatches
Layer: Core
Purpose: Requirements and conditions that are taken to match nobody. Validation refuses a segment
  requirement that names one key on both sides as one that can never hold, which is right only when
  every alternative is excluded; and a condition whose patterns do not compile matches nobody only
  when its operator is not negated.
Imports: FlagForge.Core.Validate
Trusted boundary: none (third-party crates are the parameter `Crates`)
Main exports: Matcher.segmentMatchHolds_iff, Matcher.reported_never_holds_iff,
  Matcher.broken_patterns_match_nobody_iff
-/
import FlagForge.Core.Validate

namespace FlagForge.Matcher

open Validate (ValidationIssue checkSegmentMatch isBlank issueUnless)

variable {crates : Crates} {required : SegmentMatch} {ctx : EvaluationContext}
  {env : EvaluationEnv}

/-! ### Contradictory requirements -/

/-- The check refuses the requirement as one that can never hold. -/
def ReportedDead (required : SegmentMatch) (path : String) : Prop :=
  ∃ key : String, ⟨path, s!"`{key}` is both required and excluded, so the rule can never match"⟩ ∈
    checkSegmentMatch required path

/-- In one of `any_of`, if there is one, and in none of `none_of`. -/
theorem segmentMatchHolds_iff : segmentMatchHolds crates required ctx env = true ↔
    (required.anyOf = [] ∨ ∃ key ∈ required.anyOf, inSegment crates key ctx env = true) ∧
      ∀ key ∈ required.noneOf, inSegment crates key ctx env = false := by
  simp [segmentMatchHolds]

/-- The two other complaints of the check do not begin with a key. -/
theorem text_ne_of_quoted {key text : String} (h : text.toList.head? ≠ some '`') :
    text ≠ s!"`{key}` is both required and excluded, so the rule can never match" := by
  rintro rfl
  refine h ?_
  rw [String.toList_append, String.toList_append, List.append_assoc]
  rfl

/-- The check reports a key that stands on both sides. -/
theorem reportedDead_iff {path : String} :
    ReportedDead required path ↔ ∃ key ∈ required.anyOf, key ∈ required.noneOf := by
  constructor
  · rintro ⟨key, hissue⟩
    rw [checkSegmentMatch] at hissue
    split at hissue
    · rw [List.mem_singleton, ValidationIssue.mk.injEq] at hissue
      exact absurd hissue.2.symm (text_ne_of_quoted (by decide))
    · rcases List.mem_append.mp hissue with hissue | hissue
      · obtain ⟨_, _, hissue⟩ := List.mem_flatMap.mp hissue
        rw [issueUnless] at hissue
        split at hissue
        · cases hissue
        · rw [List.mem_singleton, ValidationIssue.mk.injEq] at hissue
          exact absurd hissue.2.symm (text_ne_of_quoted (by decide))
      · obtain ⟨key, hkey, hissue⟩ := List.mem_flatMap.mp hissue
        rw [issueUnless] at hissue
        split at hissue
        · cases hissue
        · rename_i hboth
          exact ⟨key, hkey, by simpa using hboth⟩
  · rintro ⟨key, hany, hnone⟩
    have hnonempty : required.isEmpty = false := by
      rw [SegmentMatch.isEmpty, Bool.and_eq_false_iff]
      exact .inl (by simpa using List.ne_nil_of_mem hany)
    refine ⟨key, ?_⟩
    rw [checkSegmentMatch, if_neg (by simp [hnonempty])]
    refine List.mem_append_right _ (List.mem_flatMap.mpr ⟨key, hany, ?_⟩)
    simp [issueUnless, hnone]

/-- When every alternative is excluded, nobody is let in. -/
theorem not_segmentMatchHolds (hany : required.anyOf ≠ [])
    (h : ∀ key ∈ required.anyOf, key ∈ required.noneOf) :
    segmentMatchHolds crates required ctx env = false := by
  rw [Bool.eq_false_iff]
  intro hholds
  obtain ⟨hpositive, hnegative⟩ := segmentMatchHolds_iff.mp hholds
  obtain ⟨key, hkey, hin⟩ := hpositive.resolve_left hany
  rw [hnegative key (h key hkey)] at hin
  cases hin

/-- The segment that has one member. -/
def segmentOf (key member : String) : Segment where
  key := key
  description := none
  included := Std.ExtTreeSet.insert ∅ member
  excluded := ∅
  rules := []
  version := 1

/-- The environment that defines one segment. -/
def onlySegment (salt : String) (segment : Segment) : EvaluationEnv where
  salt := salt
  segments := Std.ExtTreeMap.insert ∅ segment.key segment

/-- With only one segment about, a context is in that one. -/
theorem inSegment_onlySegment {salt key key' : String} :
    inSegment crates key' ctx (onlySegment salt (segmentOf key ctx.key)) = decide (key = key') := by
  by_cases heq : key = key'
  · subst heq
    simp [inSegment, onlySegment, segmentOf, segmentContains]
  · simp [inSegment, onlySegment, segmentOf, heq]

/-- A member of an alternative that is not excluded satisfies the requirement. -/
theorem segmentMatchHolds_onlySegment (ctx : EvaluationContext) {salt key : String}
    (hany : key ∈ required.anyOf) (hnone : key ∉ required.noneOf) :
    segmentMatchHolds crates required ctx (onlySegment salt (segmentOf key ctx.key)) = true := by
  refine segmentMatchHolds_iff.mpr ⟨.inr ⟨key, hany, ?_⟩, ?_⟩
  · simp [inSegment_onlySegment]
  · intro other hother
    have hne : key ≠ other := fun heq => hnone (heq ▸ hother)
    simp [inSegment_onlySegment, hne]

/-- What is refused as dead is dead exactly when the two sides do not meet, or the excluded side has
    every alternative. A segment on both sides does not keep the rule from matching whoever is in
    another one of `any_of`. -/
theorem reported_never_holds_iff (crates : Crates) (required : SegmentMatch) (path : String) :
    (ReportedDead required path →
      ∀ ctx env, segmentMatchHolds crates required ctx env = false) ↔
      (∀ key ∈ required.anyOf, key ∉ required.noneOf) ∨
        ∀ key ∈ required.anyOf, key ∈ required.noneOf := by
  rw [reportedDead_iff]
  constructor
  · intro hdead
    by_cases hmeet : ∃ key ∈ required.anyOf, key ∈ required.noneOf
    · refine .inr fun key hany => ?_
      by_contra hnone
      have hholds : segmentMatchHolds crates required ⟨"", ∅⟩
          (onlySegment "" (segmentOf key "")) = true :=
        segmentMatchHolds_onlySegment ⟨"", ∅⟩ hany hnone
      rw [hdead hmeet] at hholds
      cases hholds
    · refine .inl fun key hany hnone => hmeet ⟨key, hany, hnone⟩
  · rintro (happart | hcovered) ⟨key, hany, hnone⟩
    · exact absurd hnone (happart key hany)
    · intro ctx env
      exact not_segmentMatchHolds (List.ne_nil_of_mem hany) hcovered

/-- Beta testers and staff, but not beta testers: staff it is. -/
def staffOnly : SegmentMatch :=
  ⟨["beta", "staff"], ["beta"]⟩

theorem staffOnly_holds :
    (∀ key ∈ staffOnly.referenced, isBlank key = false) ∧
      ReportedDead staffOnly "rules[0].segments" ∧
        segmentMatchHolds .plain staffOnly ⟨"user-1", ∅⟩
          (onlySegment "salt" (segmentOf "staff" "user-1")) = true := by
  refine ⟨by decide, ⟨"beta", by decide⟩, ?_⟩
  exact segmentMatchHolds_onlySegment ⟨"user-1", ∅⟩ (by decide) (by decide)

/-! ### Patterns that do not compile -/

/-- The values are patterns, and none of them compiles. -/
def Broken (crates : Crates) (condition : Condition) : Prop :=
  ∀ value ∈ condition.values, ∃ pattern, value.asStr = some pattern ∧
    compiled crates pattern = none

/-- A pattern that does not compile matches nothing. -/
theorem compare_matches_of_broken {actual value : AttributeValue} {pattern : String}
    (hvalue : value.asStr = some pattern) (hbroken : compiled crates pattern = none) :
    compare crates .matches actual value = false := by
  cases htext : actual.toText with
  | none => simp [compare, htext]
  | some text => simp [compare, htext, hvalue, hbroken]

/-- No value passes a pattern that does not compile. -/
theorem not_any_of_broken {condition : Condition} (hbroken : Broken crates condition)
    {scalars : List AttributeValue} :
    (scalars.any fun scalar => condition.values.any fun expected =>
      compare crates .matches scalar expected) = false := by
  simp only [List.any_eq_false, Bool.not_eq_true]
  intro scalar _ value hvalue
  obtain ⟨pattern, hpattern, hcompiled⟩ := hbroken value hvalue
  exact compare_matches_of_broken hpattern hcompiled

/-- The plain operator fails closed. -/
theorem not_conditionMatches_of_broken {condition : Condition}
    (hregex : condition.operator = .matches) (hbroken : Broken crates condition) :
    conditionMatches crates condition ctx = false := by
  simp only [conditionMatches, hregex]
  cases ctx.attributeOf condition.attributeName with
  | none => rfl
  | some actual => simp [positiveCounterpart, Operator.isNegated, not_any_of_broken hbroken]

/-- The negated operator fails open: it inverts the failure along with the result. -/
theorem conditionMatches_of_broken {condition : Condition} {actual : AttributeValue}
    (hregex : condition.operator = .notMatches) (hbroken : Broken crates condition)
    (hpresent : ctx.attributeOf condition.attributeName = some actual)
    (hvalues : condition.values ≠ []) : conditionMatches crates condition ctx = true := by
  simp [conditionMatches, hregex, hpresent, hvalues, positiveCounterpart, Operator.isNegated,
    not_any_of_broken hbroken]

/-- Broken patterns match nobody exactly when the operator is not the negated one, or there is
    nothing to look at: the negated one inverts the comparison that a pattern that does not compile
    has failed. -/
theorem broken_patterns_match_nobody_iff {crates : Crates} {condition : Condition}
    (hregex : condition.operator = .matches ∨ condition.operator = .notMatches)
    (hbroken : Broken crates condition) (ctx : EvaluationContext) :
    conditionMatches crates condition ctx = false ↔
      condition.operator = .matches ∨ ctx.attributeOf condition.attributeName = none ∨
        condition.values = [] := by
  constructor
  · intro hfails
    refine hregex.imp_right fun hregex => ?_
    cases hpresent : ctx.attributeOf condition.attributeName with
    | none => exact .inl rfl
    | some actual =>
        refine .inr ?_
        by_contra hvalues
        rw [conditionMatches_of_broken hregex hbroken hpresent hvalues] at hfails
        cases hfails
  · rintro (hregex | habsent | hvalues)
    · exact not_conditionMatches_of_broken hregex hbroken
    · rcases hregex with hregex | hregex <;> simp [conditionMatches, hregex, habsent]
    · rcases hregex with hregex | hregex
      · exact not_conditionMatches_of_broken hregex hbroken
      · cases hpresent : ctx.attributeOf condition.attributeName <;>
          simp [conditionMatches, hregex, hpresent, hvalues]

/-- The crates, with an engine that refuses a parenthesis that is not closed. -/
def strictRegex : Crates :=
  { Crates.plain with
    regexNew := fun pattern =>
      if pattern.toList.count '(' = pattern.toList.count ')' then Crates.plain.regexNew pattern
      else .error "unclosed group" }

/-- Everyone whose address is not internal, in a pattern that has lost its end. -/
def notInternal : Condition :=
  ⟨"email", .notMatches, [.string "@(acme|initech"]⟩

theorem broken_notInternal : Broken strictRegex notInternal := by
  intro value hvalue
  rw [notInternal, List.mem_singleton] at hvalue
  subst hvalue
  exact ⟨_, rfl, by decide⟩

/-- Without an address there is nothing to look at. -/
theorem broken_patterns_match_nobody_iff_notInternal :
    conditionMatches strictRegex notInternal ⟨"user-1", ∅⟩ = false :=
  (broken_patterns_match_nobody_iff (.inr rfl) broken_notInternal _).mpr
    (.inr (.inl (by simp [EvaluationContext.attributeOf])))

/-- And with one, everybody is let in. -/
theorem notInternal_matches : Broken strictRegex notInternal ∧
    conditionMatches strictRegex notInternal
      ⟨"user-1", Std.ExtTreeMap.insert ∅ "email" (.string "ada@acme")⟩ = true :=
  ⟨broken_notInternal, conditionMatches_of_broken rfl broken_notInternal
    (show _ = some (AttributeValue.string "ada@acme") by
      simp [EvaluationContext.attributeOf, notInternal]) (by simp [notInternal])⟩

end FlagForge.Matcher
