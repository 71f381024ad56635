/-
Module: FlagForge.Core.Validate
Layer: Core
Purpose: Configuration validation, with every issue's path and message. Beside the checks stand the
  shapes they accept, `FlagShape` and `SegmentShape`, and the theorems that the checks accept
  exactly these.
Imports: FlagForge.Core.Matcher
Trusted boundary: none
Main exports: Validate.validate, Validate.validateSegment, Validate.validateReferences,
  Validate.validate_eq_ok_iff, Validate.validateSegment_eq_ok_iff,
  Validate.validateReferences_eq_ok_iff
-/
import FlagForge.Core.Matcher

namespace FlagForge.Validate

open Json (StringMap StringSet)

/-- Maximum length of a flag or variant key. -/
def maxKeyLen : Nat := 128

/-- A single rejected thing, addressed by a JSON-pointer-ish path. -/
structure ValidationIssue where
  /-- e.g. `rules[1].distribution.weights` -/
  path : String
  message : String
deriving DecidableEq

/-- No issue is success. -/
def outcome (issues : List ValidationIssue) : Except (List ValidationIssue) Unit :=
  if issues.isEmpty then .ok () else .error issues

/-- A check passes if it has no issue. -/
@[simp] theorem outcome_eq_ok_iff {issues : List ValidationIssue} :
    outcome issues = .ok () ↔ issues = [] := by
  cases issues <;> simp [outcome]

/-- The issue at `path`, unless `ok`. -/
def issueUnless (ok : Bool) (path message : String) : List ValidationIssue :=
  if ok then [] else [⟨path, message⟩]

@[simp] theorem issueUnless_eq_nil_iff {ok : Bool} {path message : String} :
    issueUnless ok path message = [] ↔ ok = true := by
  cases ok <;> simp [issueUnless]

/-- A loop over `items` from index `i` that remembers the keys it has `seen`. -/
def eachUnseen {α κ : Type} [DecidableEq κ] (key : α → κ)
    (check : Nat → Bool → α → List ValidationIssue) :
    Nat → List κ → List α → List ValidationIssue
  | _, _, [] => []
  | i, seen, item :: items =>
      check i (decide (key item ∈ seen)) item ++
        eachUnseen key check (i + 1) (key item :: seen) items

/-- When an iteration is content with `P` items whose key is new, the loop is content with `P`
    lists whose keys are distinct. -/
theorem eachUnseen_eq_nil_iff {α κ : Type} [DecidableEq κ] {key : α → κ}
    {check : Nat → Bool → α → List ValidationIssue} {P : α → Prop}
    (hcheck : ∀ i seen item, check i seen item = [] ↔ seen = false ∧ P item) :
    ∀ (items : List α) (i : Nat) (seen : List κ), eachUnseen key check i seen items = [] ↔
      (items.map key).Nodup ∧ (∀ item ∈ items, key item ∉ seen) ∧ ∀ item ∈ items, P item
  | [], _, _ => by simp [eachUnseen]
  | item :: items, i, seen => by
      rw [eachUnseen, List.append_eq_nil_iff, hcheck,
        eachUnseen_eq_nil_iff hcheck items (i + 1) (key item :: seen)]
      simp only [List.map_cons, List.nodup_cons, List.mem_map, List.mem_cons, decide_eq_false_iff_not,
        not_or, not_exists, not_and]
      constructor
      · rintro ⟨⟨hnew, hitem⟩, hnodup, hrest, hall⟩
        refine ⟨⟨fun x hx heq => (hrest x hx).1 heq, hnodup⟩, ?_, ?_⟩
        · rintro x (rfl | hx)
          · exact hnew
          · exact (hrest x hx).2
        · rintro x (rfl | hx)
          · exact hitem
          · exact hall x hx
      · rintro ⟨⟨hfirst, hnodup⟩, hnew, hall⟩
        exact ⟨⟨hnew item (.inl rfl), hall item (.inl rfl)⟩, hnodup,
          fun x hx => ⟨fun heq => hfirst x hx heq, hnew x (.inr hx)⟩, fun x hx => hall x (.inr hx)⟩

/-- A loop over `items` from index `i`. -/
def each {α : Type} (check : Nat → α → List ValidationIssue) :
    Nat → List α → List ValidationIssue
  | _, [] => []
  | i, item :: items => check i item ++ each check (i + 1) items

/-- A check of each item passes if each item does. -/
theorem each_eq_nil_iff {α : Type} {check : Nat → α → List ValidationIssue} {P : α → Prop}
    (hcheck : ∀ i item, check i item = [] ↔ P item) :
    ∀ (items : List α) (i : Nat), each check i items = [] ↔ ∀ item ∈ items, P item
  | [], _ => by simp [each]
  | item :: items, i => by
      rw [each, List.append_eq_nil_iff, hcheck, each_eq_nil_iff hcheck items (i + 1)]
      simp

/-! ### The checks -/

/-- The characters `trim` removes: Unicode `White_Space`. -/
def isWhitespace (c : Char) : Bool :=
  let n := c.toNat
  (9 ≤ n && n ≤ 13) || n == 0x20 || n == 0x85 || n == 0xA0 || n == 0x1680 ||
    (0x2000 ≤ n && n ≤ 0x200A) || n == 0x2028 || n == 0x2029 || n == 0x202F || n == 0x205F ||
    n == 0x3000

/-- `s.trim().is_empty()` -/
def isBlank (s : String) : Bool :=
  s.toList.all isWhitespace

def isValidKey (key : String) : Bool :=
  !key.toList.isEmpty && key.utf8ByteSize ≤ maxKeyLen &&
    key.toList.all fun c => c.isAlphanum || c == '.' || c == '_' || c == '-'

def checkKey (key : String) : List ValidationIssue :=
  issueUnless (isValidKey key) "key"
    s!"must be 1-{maxKeyLen} characters of [a-zA-Z0-9], `.`, `_` or `-`, got `{key}`"

def checkBucketBy (bucketBy : Option String) (path : String) : List ValidationIssue :=
  match bucketBy with
  | none => []
  | some name =>
      issueUnless (!isBlank name) s!"{path}.bucket_by" "bucketing attribute cannot be empty"

def checkSegmentMatch (required : SegmentMatch) (path : String) : List ValidationIssue :=
  if required.isEmpty then [⟨path, "a segment requirement must name at least one segment"⟩]
  else
    (required.referenced.flatMap fun key =>
      issueUnless (!isBlank key) path "segment key cannot be empty") ++
    -- requiring membership and forbidding it at once makes the rule dead code
    required.anyOf.flatMap fun key =>
      issueUnless (!required.noneOf.contains key) path
        s!"`{key}` is both required and excluded, so the rule can never match"

variable (crates : Crates)

def checkPattern (path : String) (value : AttributeValue) : List ValidationIssue :=
  match value.asStr with
  | some pattern =>
      match crates.regexNew pattern with
      | .ok _ => []
      | .error err => [⟨path, s!"invalid regular expression: {err}"⟩]
  | none => [⟨path, "regex operators take string patterns"⟩]

def checkCondition (path : String) (condition : Condition) : List ValidationIssue :=
  issueUnless (!isBlank condition.attributeName) s!"{path}.attribute"
    "attribute name cannot be empty" ++
  issueUnless (!(condition.operator.takesValues && condition.values.isEmpty)) s!"{path}.values"
    s!"operator `{condition.operator.debugName}` requires at least one value" ++
  if condition.operator = .matches ∨ condition.operator = .notMatches then
    each (fun k value => checkPattern crates s!"{path}.values[{k}]" value) 0 condition.values
  else []

/-- The per-condition checks, shared by flag rules and segment rules. -/
def checkConditions (conditions : List Condition) (start : String) : List ValidationIssue :=
  each (fun j condition => checkCondition crates s!"{start}.conditions[{j}]" condition) 0
    conditions

def checkDistribution (distribution : Distribution) (path : String) (variants : List String) :
    List ValidationIssue :=
  match distribution with
  | .fixed variant =>
      issueUnless (variants.contains variant) s!"{path}.variant"
        s!"`{variant}` is not one of the flag's variants"
  | .rollout weights bucketBy =>
      if weights.isEmpty then
        [⟨s!"{path}.weights", "a rollout needs at least one weighted variant"⟩]
      else
        eachUnseen WeightedVariant.variant (fun i seen entry =>
          issueUnless (variants.contains entry.variant) s!"{path}.weights[{i}].variant"
            s!"`{entry.variant}` is not one of the flag's variants" ++
          issueUnless (!seen) s!"{path}.weights[{i}].variant"
            s!"`{entry.variant}` appears twice in the same rollout") 0 [] weights ++
        (let total := Bucket.weightSum weights
        issueUnless (total == totalWeight.toUInt64) s!"{path}.weights"
          s!"weights must sum to {totalWeight} (got {total})") ++
        checkBucketBy bucketBy path

/-- Rejects anything the engine could not evaluate deterministically. -/
def validate (flag : Flag) : Except (List ValidationIssue) Unit :=
  let variantKeys := flag.variants.map Variant.key
  outcome <|
    checkKey flag.key ++
    issueUnless (!flag.variants.isEmpty) "variants" "a flag needs at least one variant" ++
    eachUnseen Variant.key (fun i seen variant =>
      issueUnless (isValidKey variant.key) s!"variants[{i}].key"
        s!"invalid variant key `{variant.key}`" ++
      issueUnless (!seen) s!"variants[{i}].key" s!"duplicate variant key `{variant.key}`")
      0 [] flag.variants ++
    issueUnless (variantKeys.contains flag.offVariant) "off_variant"
      s!"`{flag.offVariant}` is not one of the flag's variants" ++
    checkDistribution flag.fallthrough "fallthrough" variantKeys ++
    eachUnseen Rule.id (fun i seen rule =>
      issueUnless (!seen) s!"rules[{i}].id" s!"duplicate rule id `{crates.uuidText rule.id}`" ++
      checkConditions crates rule.conditions s!"rules[{i}]" ++
      (match rule.segments with
      | some required => checkSegmentMatch required s!"rules[{i}].segments"
      | none => []) ++
      checkDistribution rule.distribution s!"rules[{i}].distribution" variantKeys)
      0 [] flag.rules

def checkRollout (rollout : SegmentRollout) (path : String) : List ValidationIssue :=
  issueUnless (rollout.percentage ≤ totalWeight) s!"{path}.percentage"
    s!"must be between 0 and {totalWeight} (got {rollout.percentage})" ++
  checkBucketBy rollout.bucketBy path

/-- Rejects anything that would make a segment undecidable. -/
def validateSegment (segment : Segment) : Except (List ValidationIssue) Unit :=
  outcome <|
    checkKey segment.key ++
    ((segment.included.toList.filter segment.excluded.contains).map fun key =>
      ⟨"excluded", s!"`{key}` is both included and excluded"⟩) ++
    eachUnseen SegmentRule.id (fun i seen rule =>
      issueUnless (!seen) s!"rules[{i}].id" s!"duplicate rule id `{crates.uuidText rule.id}`" ++
      checkConditions crates rule.conditions s!"rules[{i}]" ++
      match rule.rollout with
      | some rollout => checkRollout rollout s!"rules[{i}].rollout"
      | none => [])
      0 [] segment.rules

/-- Rejects rules pointing at segments the environment does not define. -/
def validateReferences (flag : Flag) (known : StringSet) : Except (List ValidationIssue) Unit :=
  outcome <|
    each (fun i (rule : Rule) =>
      match rule.segments with
      | none => []
      | some required =>
          required.referenced.flatMap fun key =>
            issueUnless (known.contains key) s!"rules[{i}].segments"
              s!"no segment `{key}` in this environment") 0 flag.rules

/-! ### The accepted shapes -/

/-- A bucketing attribute, when named, is not blank. -/
def BucketByShape (bucketBy : Option String) : Prop :=
  ∀ name, bucketBy = some name → isBlank name = false

/-- A requirement names segments, and forbids none it requires. -/
structure SegmentMatchShape (required : SegmentMatch) : Prop where
  nonempty : required.isEmpty = false
  keys : ∀ key ∈ required.referenced, isBlank key = false
  consistent : ∀ key ∈ required.anyOf, key ∉ required.noneOf

/-- A value that compiles as a pattern. -/
def PatternShape (value : AttributeValue) : Prop :=
  ∃ pattern isMatch, value = .string pattern ∧ crates.regexNew pattern = .ok isMatch

structure ConditionShape (condition : Condition) : Prop where
  attributeName : isBlank condition.attributeName = false
  values : condition.operator.takesValues = true → condition.values ≠ []
  patterns : condition.operator = .matches ∨ condition.operator = .notMatches →
    ∀ value ∈ condition.values, PatternShape crates value

/-- A distribution over the given variant keys. -/
inductive DistributionShape (variants : List String) : Distribution → Prop where
  | fixed {variant : String} (defined : variant ∈ variants) : DistributionShape variants (.fixed variant)
  | rollout {weights : List WeightedVariant} {bucketBy : Option String}
      (nonempty : weights ≠ [])
      (distinct : (weights.map WeightedVariant.variant).Nodup)
      (defined : ∀ entry ∈ weights, entry.variant ∈ variants)
      (total : Bucket.weightSum weights = totalWeight.toUInt64)
      (subject : BucketByShape bucketBy) : DistributionShape variants (.rollout weights bucketBy)

structure RuleShape (variants : List String) (rule : Rule) : Prop where
  conditions : ∀ condition ∈ rule.conditions, ConditionShape crates condition
  segments : ∀ required, rule.segments = some required → SegmentMatchShape required
  distribution : DistributionShape variants rule.distribution

/-- Variants a flag may have, whatever its configuration. -/
structure VariantsShape (variants : List Variant) : Prop where
  nonempty : variants ≠ []
  keys : ∀ variant ∈ variants, isValidKey variant.key = true
  distinct : (variants.map Variant.key).Nodup

/-- A configuration over the given variant keys. -/
structure ConfigShape (variants : List String) (offVariant : String) (fallthrough : Distribution)
    (rules : List Rule) : Prop where
  offVariant : offVariant ∈ variants
  fallthrough : DistributionShape variants fallthrough
  ruleIds : (rules.map Rule.id).Nodup
  rules : ∀ rule ∈ rules, RuleShape crates variants rule

/-- What the checks demand of a flag: its key, its variants, and its configuration over these. -/
structure FlagShape (flag : Flag) : Prop where
  key : isValidKey flag.key = true
  variants : VariantsShape flag.variants
  config : ConfigShape crates (flag.variants.map Variant.key) flag.offVariant flag.fallthrough
    flag.rules

structure SegmentRuleShape (rule : SegmentRule) : Prop where
  conditions : ∀ condition ∈ rule.conditions, ConditionShape crates condition
  percentage : ∀ rollout, rule.rollout = some rollout → rollout.percentage ≤ totalWeight
  subject : ∀ rollout, rule.rollout = some rollout → BucketByShape rollout.bucketBy

/-- What the checks demand of a segment. -/
structure SegmentShape (segment : Segment) : Prop where
  key : isValidKey segment.key = true
  disjoint : ∀ key ∈ segment.included, key ∉ segment.excluded
  ruleIds : (segment.rules.map SegmentRule.id).Nodup
  rules : ∀ rule ∈ segment.rules, SegmentRuleShape crates rule

/-! ### The checks accept exactly the shapes -/

@[simp] theorem checkKey_eq_nil_iff {key : String} : checkKey key = [] ↔ isValidKey key = true := by
  simp [checkKey]

@[simp] theorem checkBucketBy_eq_nil_iff {bucketBy : Option String} {path : String} :
    checkBucketBy bucketBy path = [] ↔ BucketByShape bucketBy := by
  cases bucketBy <;> simp [checkBucketBy, BucketByShape]

/-- When a match on segments has no issue. -/
theorem checkSegmentMatch_eq_nil_iff {required : SegmentMatch} {path : String} :
    checkSegmentMatch required path = [] ↔ SegmentMatchShape required := by
  unfold checkSegmentMatch
  split
  · next hempty =>
    constructor
    · intro h
      cases h
    · intro h
      rw [h.nonempty] at hempty
      cases hempty
  · next hempty =>
    simp only [List.append_eq_nil_iff, List.flatMap_eq_nil_iff, issueUnless_eq_nil_iff,
      Bool.not_eq_true', List.contains_eq_mem, decide_eq_false_iff_not]
    constructor
    · rintro ⟨hkeys, hconsistent⟩
      exact ⟨by simpa using hempty, hkeys, hconsistent⟩
    · intro h
      exact ⟨h.keys, h.consistent⟩

/-- When a pattern has none. -/
theorem checkPattern_eq_nil_iff {path : String} {value : AttributeValue} :
    checkPattern crates path value = [] ↔ PatternShape crates value := by
  unfold checkPattern PatternShape
  cases value with
  | string pattern =>
      cases hnew : crates.regexNew pattern <;> simp [AttributeValue.asStr, hnew]
  | bool b | number n | list items => simp [AttributeValue.asStr]

/-- When a condition has none. -/
theorem checkCondition_eq_nil_iff {path : String} {condition : Condition} :
    checkCondition crates path condition = [] ↔ ConditionShape crates condition := by
  have hpatterns : (if condition.operator = .matches ∨ condition.operator = .notMatches then
      each (fun k value => checkPattern crates s!"{path}.values[{k}]" value) 0 condition.values
      else []) = [] ↔ (condition.operator = .matches ∨ condition.operator = .notMatches →
        ∀ value ∈ condition.values, PatternShape crates value) := by
    split
    · next hop =>
      rw [each_eq_nil_iff (P := PatternShape crates)
        (by intro k value; exact checkPattern_eq_nil_iff crates)]
      exact ⟨fun h _ => h, fun h => h hop⟩
    · next hop => exact ⟨fun _ h => absurd h hop, fun _ => rfl⟩
  unfold checkCondition
  rw [List.append_eq_nil_iff, List.append_eq_nil_iff, hpatterns]
  simp only [issueUnless_eq_nil_iff, Bool.not_eq_true', Bool.and_eq_false_iff]
  constructor
  · rintro ⟨⟨hname, hvalues⟩, hpats⟩
    refine ⟨hname, fun htakes hnil => ?_, hpats⟩
    simp [htakes, hnil] at hvalues
  · intro h
    refine ⟨⟨h.attributeName, ?_⟩, h.patterns⟩
    cases htakes : condition.operator.takesValues with
    | false => exact .inl rfl
    | true => exact .inr (by simpa using h.values htakes)

theorem checkConditions_eq_nil_iff {conditions : List Condition} {start : String} :
    checkConditions crates conditions start = [] ↔
      ∀ condition ∈ conditions, ConditionShape crates condition := by
  unfold checkConditions
  rw [each_eq_nil_iff (P := ConditionShape crates)]
  intro j condition
  exact checkCondition_eq_nil_iff crates

/-- When a distribution over these variants has none. -/
theorem checkDistribution_eq_nil_iff {distribution : Distribution} {path : String}
    {variants : List String} :
    checkDistribution distribution path variants = [] ↔
      DistributionShape variants distribution := by
  cases distribution with
  | fixed variant =>
      simp only [checkDistribution, issueUnless_eq_nil_iff, List.contains_eq_mem, decide_eq_true_eq]
      exact ⟨.fixed, fun h => by cases h; assumption⟩
  | rollout weights bucketBy =>
      rw [checkDistribution]
      split
      · next hempty =>
        constructor
        · intro h
          cases h
        · intro h
          cases h with
          | rollout nonempty => exact absurd (List.isEmpty_iff.mp hempty) nonempty
      · next hempty =>
        rw [List.append_eq_nil_iff, List.append_eq_nil_iff,
          eachUnseen_eq_nil_iff (P := fun entry => entry.variant ∈ variants) (by
            intro i seen entry
            simp [and_comm])]
        simp only [issueUnless_eq_nil_iff, beq_iff_eq, checkBucketBy_eq_nil_iff]
        constructor
        · rintro ⟨⟨⟨hdistinct, _, hdefined⟩, htotal⟩, hsubject⟩
          exact .rollout (by simpa using hempty) hdistinct hdefined htotal hsubject
        · intro h
          cases h with
          | rollout _ distinct defined total subject =>
              exact ⟨⟨⟨distinct, fun _ _ => List.not_mem_nil, defined⟩, total⟩, subject⟩

/-- Validation accepts exactly the flags of the right shape. -/
theorem validate_eq_ok_iff {flag : Flag} :
    validate crates flag = .ok () ↔ FlagShape crates flag := by
  unfold validate
  rw [outcome_eq_ok_iff]
  simp only [List.append_eq_nil_iff]
  rw [eachUnseen_eq_nil_iff (P := fun v : Variant => isValidKey v.key = true) (by
      intro i seen v
      simp [and_comm]),
    eachUnseen_eq_nil_iff (P := RuleShape crates (flag.variants.map Variant.key)) (by
      intro i seen rule
      simp only [List.append_eq_nil_iff, issueUnless_eq_nil_iff, Bool.not_eq_true',
        checkConditions_eq_nil_iff, checkDistribution_eq_nil_iff]
      constructor
      · rintro ⟨⟨⟨hseen, hconditions⟩, hsegments⟩, hdistribution⟩
        refine ⟨hseen, hconditions, fun required heq => ?_, hdistribution⟩
        rw [heq] at hsegments
        exact checkSegmentMatch_eq_nil_iff.mp hsegments
      · rintro ⟨hseen, h⟩
        refine ⟨⟨⟨hseen, h.conditions⟩, ?_⟩, h.distribution⟩
        cases hsegments : rule.segments with
        | none => rfl
        | some required => exact checkSegmentMatch_eq_nil_iff.mpr (h.segments required hsegments))]
  simp only [checkKey_eq_nil_iff, issueUnless_eq_nil_iff, checkDistribution_eq_nil_iff,
    Bool.not_eq_true', List.contains_eq_mem, decide_eq_true_eq]
  constructor
  · rintro ⟨⟨⟨⟨⟨hkey, hnonempty⟩, hdistinct, _, hkeys⟩, hoff⟩, hfall⟩, hids, _, hrules⟩
    exact ⟨hkey, ⟨by simpa using hnonempty, hkeys, hdistinct⟩, ⟨hoff, hfall, hids, hrules⟩⟩
  · rintro ⟨hkey, ⟨hnonempty, hkeys, hdistinct⟩, ⟨hoff, hfall, hids, hrules⟩⟩
    exact ⟨⟨⟨⟨⟨hkey, by simpa using hnonempty⟩, hdistinct, fun _ _ => List.not_mem_nil, hkeys⟩,
      hoff⟩, hfall⟩, hids, fun _ _ => List.not_mem_nil, hrules⟩

/-- Segment validation accepts exactly the segments of the right shape. -/
theorem validateSegment_eq_ok_iff {segment : Segment} :
    validateSegment crates segment = .ok () ↔ SegmentShape crates segment := by
  unfold validateSegment
  rw [outcome_eq_ok_iff]
  simp only [List.append_eq_nil_iff]
  rw [eachUnseen_eq_nil_iff (P := SegmentRuleShape crates) (by
      intro i seen rule
      simp only [List.append_eq_nil_iff, issueUnless_eq_nil_iff, Bool.not_eq_true',
        checkConditions_eq_nil_iff]
      constructor
      · rintro ⟨⟨hseen, hconditions⟩, hrollout⟩
        cases hrule : rule.rollout with
        | none => exact ⟨hseen, hconditions, by simp [hrule], by simp [hrule]⟩
        | some rollout =>
            simp only [hrule, checkRollout, List.append_eq_nil_iff, issueUnless_eq_nil_iff,
              decide_eq_true_eq, checkBucketBy_eq_nil_iff] at hrollout
            exact ⟨hseen, hconditions, by simpa [hrule] using hrollout.1,
              by simpa [hrule] using hrollout.2⟩
      · rintro ⟨hseen, h⟩
        refine ⟨⟨hseen, h.conditions⟩, ?_⟩
        cases hrule : rule.rollout with
        | none => rfl
        | some rollout =>
            simp [checkRollout, h.percentage rollout hrule, h.subject rollout hrule])]
  simp only [checkKey_eq_nil_iff, List.map_eq_nil_iff, List.filter_eq_nil_iff,
    Std.ExtTreeSet.mem_toList, Std.ExtTreeSet.contains_iff_mem]
  constructor
  · rintro ⟨⟨hkey, hdisjoint⟩, hids, _, hrules⟩
    exact ⟨hkey, hdisjoint, hids, hrules⟩
  · rintro ⟨hkey, hdisjoint, hids, hrules⟩
    exact ⟨⟨hkey, hdisjoint⟩, hids, fun _ _ => List.not_mem_nil, hrules⟩

/-- References are accepted exactly when every segment a rule refers to is known. -/
theorem validateReferences_eq_ok_iff {flag : Flag} {known : StringSet} :
    validateReferences flag known = .ok () ↔
      ∀ rule ∈ flag.rules, ∀ required, rule.segments = some required →
        ∀ key ∈ required.referenced, key ∈ known := by
  unfold validateReferences
  rw [outcome_eq_ok_iff, each_eq_nil_iff]
  intro i rule
  cases rule.segments <;> simp

/-! ### Configurations over other variants

Whether a configuration is right for a set of variants depends on the variants it names only. -/

/-- The variants a distribution serves. -/
def namedByDistribution : Distribution → List String
  | .fixed variant => [variant]
  | .rollout weights _ => weights.map WeightedVariant.variant

/-- The variants a configuration serves. -/
def namedVariants (offVariant : String) (fallthrough : Distribution) (rules : List Rule) :
    List String :=
  offVariant :: (namedByDistribution fallthrough ++
    rules.flatMap fun rule => namedByDistribution rule.distribution)

/-- A well-formed distribution names variants of the flag only. -/
theorem DistributionShape.named {variants : List String} {distribution : Distribution}
    (h : DistributionShape variants distribution) :
    ∀ key ∈ namedByDistribution distribution, key ∈ variants := by
  intro key hkey
  cases h with
  | fixed hdefined =>
      cases List.mem_singleton.mp hkey
      exact hdefined
  | rollout _ _ hdefined _ _ =>
      obtain ⟨entry, hentry, rfl⟩ := List.mem_map.mp hkey
      exact hdefined entry hentry

/-- It is well-formed over any variants that have those it names. -/
theorem DistributionShape.over {variants variants' : List String} {distribution : Distribution}
    (h : DistributionShape variants distribution)
    (hnamed : ∀ key ∈ namedByDistribution distribution, key ∈ variants') :
    DistributionShape variants' distribution := by
  cases h with
  | fixed _ => exact .fixed (hnamed _ List.mem_cons_self)
  | rollout hnonempty hdistinct _ htotal hsubject =>
      exact .rollout hnonempty hdistinct (fun entry hentry => hnamed _ (List.mem_map_of_mem hentry))
        htotal hsubject

variable {crates} {offVariant : String} {fallthrough : Distribution} {rules : List Rule}
  {variants variants' : List String}

/-- A configuration stays well-formed without its rules. -/
theorem ConfigShape.withoutRules (h : ConfigShape crates variants offVariant fallthrough rules) :
    ConfigShape crates variants offVariant fallthrough [] where
  offVariant := h.offVariant
  fallthrough := h.fallthrough
  ruleIds := .nil
  rules := fun rule hrule => by cases hrule

/-- A configuration names variants of the flag only. -/
theorem ConfigShape.named (h : ConfigShape crates variants offVariant fallthrough rules) :
    ∀ key ∈ namedVariants offVariant fallthrough rules, key ∈ variants := by
  intro key hkey
  rcases List.mem_cons.mp hkey with rfl | hkey
  · exact h.offVariant
  · rcases List.mem_append.mp hkey with hkey | hkey
    · exact h.fallthrough.named key hkey
    · obtain ⟨rule, hrule, hkey⟩ := List.mem_flatMap.mp hkey
      exact (h.rules rule hrule).distribution.named key hkey

/-- A configuration that is right for some variants is right for others that have those it names. -/
theorem ConfigShape.over (h : ConfigShape crates variants offVariant fallthrough rules)
    (hnamed : ∀ key ∈ namedVariants offVariant fallthrough rules, key ∈ variants') :
    ConfigShape crates variants' offVariant fallthrough rules where
  offVariant := hnamed _ List.mem_cons_self
  fallthrough := h.fallthrough.over fun key hkey =>
    hnamed key (List.mem_cons_of_mem _ (List.mem_append_left _ hkey))
  ruleIds := h.ruleIds
  rules := fun rule hrule =>
    { conditions := (h.rules rule hrule).conditions
      segments := (h.rules rule hrule).segments
      distribution := (h.rules rule hrule).distribution.over fun key hkey =>
        hnamed key (List.mem_cons_of_mem _ (List.mem_append_right _
          (List.mem_flatMap.mpr ⟨rule, hrule, hkey⟩))) }

end FlagForge.Validate
