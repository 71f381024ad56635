/-
Module: FlagForge.Web.Cohorts
Layer: Web
Purpose: The percentage field of a segment rule. No rollout stands for everyone, and a text that is no
  number gives none either: so what an edit does is what was typed exactly when there was no rollout
  to lose, or else a number was typed and a whole cohort was not bucketed by an attribute.
Imports: FlagForge.Core.SegmentGrowth, FlagForge.Core.Validate, FlagForge.Lib.Fields,
  FlagForge.Lib.DecimalText, FlagForge.Lib.FloatOrder
Trusted boundary: none (third-party crates are the parameter `Crates`)
Main exports: Web.fromPercent, Web.changeRollout, Web.EditKeeps, Web.edit_keeps_iff
-/
import FlagForge.Core.SegmentGrowth
import FlagForge.Core.Validate
import FlagForge.Lib.Fields
import FlagForge.Lib.DecimalText
import FlagForge.Lib.FloatOrder

namespace FlagForge.Web

open Matcher
open Binary64 (parse ofInt roundToUInt32)

/-! ### The field -/

/-- `f64::clamp`, which leaves what is not a number. -/
def clamp (value lo hi : Float) : Float :=
  let raised := if value < lo then lo else value
  if hi < raised then hi else raised

/-- The number that a text spells, space at its ends apart. -/
def parseTrimmed (raw : String) : Option Float :=
  parse (Fields.trim Validate.isWhitespace raw.toList)

/-- A whole-population rollout is the same thing as no rollout, so it is stored as `none`. -/
def fromPercent (raw : String) : Option UInt32 := do
  let value ← parseTrimmed raw
  let clamped := clamp value 0 100
  if 100 ≤ clamped then none
  else some (roundToUInt32 (clamped * (ofInt totalWeight.toNat / 100)))

/-- The attribute that a rule's rollout is bucketed by. -/
def bucketByOf (rule : SegmentRule) : Option String :=
  rule.rollout.bind SegmentRollout.bucketBy

/-- What a change of the field makes of the rule. -/
def changeRollout (raw : String) (rule : SegmentRule) : SegmentRule :=
  { rule with
    rollout := (fromPercent raw).map fun percentage => { percentage, bucketBy := bucketByOf rule } }

/-! ### What was typed -/

/-- The number that was typed, if it is one. -/
def typed (raw : String) : Option Float :=
  (parseTrimmed raw).filter fun p => !p.isNaN

/-- The buckets that a typed percentage stands for. Product and rounding are those of binary64, as the
    console computes: 0.0045 stands for 5 buckets, though 1000 times the number that it is read as is
    below 4.5 and would round to 4. -/
def share (p : Float) : UInt32 :=
  roundToUInt32 (min (max p 0) 100 * 1000)

/-- The buckets that a rule admits; without a rollout all of them. -/
def percentageOf (rule : SegmentRule) : UInt32 :=
  match rule.rollout with
  | some rollout => rollout.percentage
  | none => totalWeight

/-- A typed percentage that is larger than a number of buckets, which are thousandths of one. -/
def Larger (p : Float) (percentage : UInt32) : Prop :=
  (p.isFinite = false ∧ 0 < p) ∨ (percentage.toNat : ℚ) < 1000 * Binary64.value p

variable (crates : Crates)

/-- What a rollout decides about a context that the conditions of its rule match. -/
def rolloutAdmits (rollout : Option SegmentRollout) (segmentKey : String) (ctx : EvaluationContext)
    (salt : String) : Bool :=
  segmentRuleMatches crates ⟨.nil, none, [], rollout⟩ segmentKey ctx salt

/-- Exactly the buckets below a number are admitted, of the subjects that an attribute names. -/
def AdmitsBelow (rollout : Option SegmentRollout) (percentage : UInt32) (bucketBy : Option String) :
    Prop :=
  ∀ (segmentKey : String) (ctx : EvaluationContext) (salt : String),
    rolloutAdmits crates rollout segmentKey ctx salt = true ↔
      ∃ subject, ctx.bucketingSubject bucketBy = some subject ∧
        crates.bucket salt (segmentNamespace segmentKey) subject < percentage

/-- A change of the field does what was typed, and nothing by accident. -/
structure EditKeeps (raw : String) (rule : SegmentRule) : Prop where
  unread : typed raw = none → (changeRollout raw rule).rollout = rule.rollout
  read : ∀ p, typed raw = some p →
    AdmitsBelow crates (changeRollout raw rule).rollout (share p) (bucketByOf rule)
  whole : ∀ p, typed raw = some p → (changeRollout raw rule).rollout = none → 100 ≤ p
  contained : (∀ p, typed raw = some p → ¬ Larger p (percentageOf rule)) →
    ∀ (segment : Segment) (earlier later : List SegmentRule),
      segment.rules = earlier ++ rule :: later → ∀ (ctx : EvaluationContext) (salt : String),
        segmentContains crates
          { segment with rules := earlier ++ changeRollout raw rule :: later } ctx salt = true →
        segmentContains crates segment ctx salt = true

/-- There is no rollout to lose, or a share or a whole cohort was typed for it. -/
def Harmless (raw : String) (rule : SegmentRule) : Prop :=
  match parseTrimmed raw with
  | none => rule.rollout = none
  | some p =>
      if p.isNaN = true then ∃ bucketBy, rule.rollout = some ⟨0, bucketBy⟩
      else 100 ≤ p → bucketByOf rule = none

/-! ### Clamping and rounding -/

theorem thousand_eq : ofInt totalWeight.toNat / 100 = 1000 := rfl

theorem unpack_hundred :
    (100 : Float).toModel.unpack = .finite .positive (25 * 2 ^ 48) (-46) (by decide) := rfl

theorem unpack_thousand :
    (1000 : Float).toModel.unpack = .finite .positive (125 * 2 ^ 46) (-43) (by decide) := rfl

theorem unpack_zero : (0 : Float).toModel.unpack = .zero .positive := rfl

/-- What is at most zero is not a hundred. -/
theorem not_hundred_le_of_le_zero {p : Float} (h : p ≤ 0) : ¬ 100 ≤ p := by
  rw [Binary64.le_iff, unpack_zero] at h
  rw [Binary64.le_iff, unpack_hundred]
  cases hp : p.toModel.unpack with
  | notANumber => simp [Float.Model.UnpackedFloat.compare]
  | infinity s =>
      rw [hp] at h
      cases s with
      | negative => simp [Float.Model.UnpackedFloat.compare]
      | positive => cases h
  | zero s => simp [Float.Model.UnpackedFloat.compare]
  | finite s m e hm =>
      rw [hp] at h
      cases s with
      | negative => simp [Float.Model.UnpackedFloat.compare]
      | positive => cases h

/-- What is at most zero and at least zero is a zero of either sign. -/
theorem exists_zero_of_le {p : Float} (hle : p ≤ 0) (hge : 0 ≤ p) :
    ∃ s, p.toModel.unpack = .zero s := by
  rw [Binary64.le_iff, unpack_zero] at hle hge
  cases hp : p.toModel.unpack with
  | notANumber =>
      rw [hp] at hle
      cases hle
  | zero s => exact ⟨s, rfl⟩
  | infinity s | finite s =>
      rw [hp] at hle hge
      cases s with
      | negative => cases hge
      | positive => cases hle

theorem roundToUInt32_of_zero {p : Float} {s : Float.Model.UnpackedFloat.Sign}
    (h : p.toModel.unpack = .zero s) : roundToUInt32 (p * 1000) = 0 := by
  have hproduct : p * 1000 = .ofModel (.pack (.zero s)) := by
    rw [Binary64.mul_eq_of_unpack h unpack_thousand]
    cases s <;> rfl
  rw [hproduct]
  cases s <;> rfl

/-- Between the bounds nothing is clamped. -/
theorem clamp_of_between {p : Float} (hlow : ¬ p < 0) (hhigh : ¬ 100 < p) : clamp p 0 100 = p := by
  simp only [clamp, if_neg hlow, if_neg hhigh]

theorem clamp_of_neg {p : Float} (h : p < 0) : clamp p 0 100 = 0 := by
  simp only [clamp, if_pos h]
  rfl

theorem share_of_le_zero {p : Float} (h : p ≤ 0) : share p = 0 := by
  have hmax : max p 0 = 0 := if_pos h
  rw [share, hmax]
  rfl

theorem share_of_between {p : Float} (hlow : ¬ p ≤ 0) (hhigh : p ≤ 100) :
    share p = roundToUInt32 (p * 1000) := by
  have hmax : max p 0 = p := if_neg hlow
  have hmin : min p 100 = p := if_pos hhigh
  rw [share, hmax, hmin]

/-- What the field computes of a number below a hundred is the share that it stands for. -/
theorem clamp_of_small {p : Float} (hnumber : p.isNaN = false) (h : ¬ 100 ≤ p) :
    ¬ 100 ≤ clamp p 0 100 ∧ roundToUInt32 (clamp p 0 100 * 1000) = share p := by
  have hhigh : p < 100 := (Binary64.lt_or_le hnumber rfl).resolve_right h
  have hkept : ¬ 100 < p := Binary64.not_lt_of_le (Binary64.le_of_lt hhigh)
  by_cases hzero : p ≤ 0
  · rw [share_of_le_zero hzero]
    by_cases hneg : p < 0
    · rw [clamp_of_neg hneg]
      exact ⟨by decide, rfl⟩
    · rw [clamp_of_between hneg hkept]
      refine ⟨h, ?_⟩
      have hnonneg : 0 ≤ p := (Binary64.lt_or_le hnumber rfl).resolve_left hneg
      obtain ⟨s, hs⟩ := exists_zero_of_le hzero hnonneg
      exact roundToUInt32_of_zero hs
  · have hlow : ¬ p < 0 := fun hneg => hzero (Binary64.le_of_lt hneg)
    rw [clamp_of_between hlow hkept, share_of_between hzero (Binary64.le_of_lt hhigh)]
    exact ⟨h, rfl⟩

/-- A whole cohort is all buckets. -/
theorem share_of_hundred_le {p : Float} (h : 100 ≤ p) : share p = totalWeight := by
  have hmax : max p 0 = p := if_neg fun hzero => not_hundred_le_of_le_zero hzero h
  rw [share, hmax]
  by_cases hle : p ≤ 100
  · have hmin : min p 100 = p := if_pos hle
    have hproduct : p * 1000 = 100 * 1000 :=
      Binary64.mul_eq_of_unpack (Binary64.unpack_eq_of_le_of_le unpack_hundred hle h) rfl
    rw [hmin, hproduct]
    rfl
  · have hmin : min p 100 = 100 := if_neg hle
    rw [hmin]
    rfl

theorem hundred_le_clamp {p : Float} (h : 100 ≤ p) : 100 ≤ clamp p 0 100 := by
  have hlow : ¬ p < 0 := fun hneg => not_hundred_le_of_le_zero (Binary64.le_of_lt hneg) h
  by_cases hhigh : 100 < p
  · simp only [clamp, if_neg hlow, if_pos hhigh]
    decide
  · rwa [clamp_of_between hlow hhigh]

/-- A number between the bounds is finite and positive. -/
theorem unpack_of_between {p : Float} (hlow : 0 < p) (hhigh : p < 100) :
    ∃ m e, ∃ hm : 0 < m, p.toModel.unpack = .finite .positive m e hm := by
  rw [Binary64.lt_iff, unpack_zero] at hlow
  rw [Binary64.lt_iff, unpack_hundred] at hhigh
  cases hp : p.toModel.unpack with
  | notANumber | zero s =>
      rw [hp] at hlow
      cases hlow
  | infinity s =>
      rw [hp] at hlow hhigh
      cases s with
      | negative => cases hlow
      | positive => cases hhigh
  | finite s m e hm =>
      rw [hp] at hlow
      cases s with
      | negative => cases hlow
      | positive => exact ⟨m, e, hm, rfl⟩

theorem value_thousand : Binary64.value 1000 = 1000 := by
  rw [Binary64.value, unpack_thousand, Binary64.rat]
  norm_num [Float.Model.UnpackedFloat.Sign.apply]

theorem value_hundred : Binary64.value 100 = 100 := by
  rw [Binary64.value, unpack_hundred, Binary64.rat]
  norm_num [Float.Model.UnpackedFloat.Sign.apply]

/-- A share that is not larger is not rounded beyond what was admitted. -/
theorem share_le {p : Float} {percentage : UInt32} (hnumber : p.isNaN = false) (h : ¬ 100 ≤ p)
    (hlarger : ¬ Larger p percentage) : share p ≤ percentage := by
  by_cases hzero : p ≤ 0
  · rw [share_of_le_zero hzero]
    exact UInt32.zero_le
  · have hlow : 0 < p := (Binary64.lt_or_le rfl hnumber).resolve_right hzero
    have hhigh : p < 100 := (Binary64.lt_or_le hnumber rfl).resolve_right h
    obtain ⟨m, e, hm, hp⟩ := unpack_of_between hlow hhigh
    have hexact : Binary64.value p * Binary64.value 1000 ≤ percentage.toNat := by
      rw [value_thousand, mul_comm]
      exact not_lt.mp fun hlt => hlarger (.inr hlt)
    have hsmall : percentage.toNat < 2 ^ 53 := by
      have := percentage.toNat_lt
      omega
    obtain ⟨r, hr, hdenotes⟩ := Binary64.denotes_mul_le hp unpack_thousand hsmall hexact
    rw [share_of_between hzero (Binary64.le_of_lt hhigh), UInt32.le_iff_toNat_le]
    exact Binary64.roundToUInt32_le hdenotes.finite (hdenotes.value ▸ hr)

/-- A whole cohort is larger than any smaller one. -/
theorem totalWeight_le_of_hundred_le {p : Float} {percentage : UInt32} (hnumber : p.isNaN = false)
    (h : 100 ≤ p) (hlarger : ¬ Larger p percentage) : totalWeight ≤ percentage := by
  have hpositive : 0 < p :=
    (Binary64.lt_or_le rfl hnumber).resolve_right fun hzero => not_hundred_le_of_le_zero hzero h
  cases hfinite : p.isFinite with
  | false => exact absurd (.inl ⟨hfinite, hpositive⟩) hlarger
  | true =>
      have hvalue := Binary64.value_le_value rfl hfinite h
      rw [value_hundred] at hvalue
      have hle : 1000 * Binary64.value p ≤ percentage.toNat :=
        not_lt.mp fun hlt => hlarger (.inr hlt)
      have hbuckets : ((100000 : Nat) : ℚ) ≤ percentage.toNat := by
        push_cast
        linarith
      rw [UInt32.le_iff_toNat_le]
      exact_mod_cast hbuckets

/-! ### What the field makes of a text -/

theorem fromPercent_of_none {raw : String} (h : parseTrimmed raw = none) : fromPercent raw = none := by
  rw [fromPercent, h]
  rfl

theorem fromPercent_of_isNaN {raw : String} {p : Float} (h : parseTrimmed raw = some p)
    (hnan : p.isNaN = true) : fromPercent raw = some 0 := by
  have hunpack := Binary64.isNaN_iff.mp hnan
  have hlow : ¬ p < 0 := by
    rw [Binary64.lt_iff, hunpack]
    simp [Float.Model.UnpackedFloat.compare]
  have hhigh : ¬ 100 < p := by
    rw [Binary64.lt_iff, hunpack, unpack_hundred]
    simp [Float.Model.UnpackedFloat.compare]
  have hwhole : ¬ 100 ≤ p := by
    rw [Binary64.le_iff, hunpack, unpack_hundred]
    simp [Float.Model.UnpackedFloat.compare]
  have hproduct : p * 1000 = .ofModel (.pack .notANumber) :=
    Binary64.mul_eq_of_unpack hunpack unpack_thousand
  have hround : roundToUInt32 (p * 1000) = 0 := by
    rw [hproduct]
    rfl
  simp only [fromPercent, h, Option.bind_eq_bind, Option.bind_some, clamp_of_between hlow hhigh,
    if_neg hwhole, thousand_eq, hround]

theorem fromPercent_of_small {raw : String} {p : Float} (hraw : parseTrimmed raw = some p)
    (hnumber : p.isNaN = false) (h : ¬ 100 ≤ p) : fromPercent raw = some (share p) := by
  obtain ⟨hsmall, hshare⟩ := clamp_of_small hnumber h
  simp only [fromPercent, hraw, Option.bind_eq_bind, Option.bind_some, if_neg hsmall, thousand_eq, hshare]

theorem fromPercent_of_whole {raw : String} {p : Float} (hraw : parseTrimmed raw = some p)
    (h : 100 ≤ p) : fromPercent raw = none := by
  simp only [fromPercent, hraw, Option.bind_eq_bind, Option.bind_some, if_pos (hundred_le_clamp h)]

theorem typed_eq_some_iff {raw : String} {p : Float} :
    typed raw = some p ↔ parseTrimmed raw = some p ∧ p.isNaN = false := by
  rw [typed, Option.filter_eq_some_iff, Bool.not_eq_true']

/-! ### Admission -/

variable {crates}

theorem admitsBelow_rollout (percentage : UInt32) (bucketBy : Option String) :
    AdmitsBelow crates (some ⟨percentage, bucketBy⟩) percentage bucketBy := by
  intro segmentKey ctx salt
  rw [rolloutAdmits, segmentRuleMatches_iff]
  simp

/-- Without a rollout and without an attribute, every context has a bucket and is admitted. -/
theorem admitsBelow_none : AdmitsBelow crates none totalWeight none := by
  intro segmentKey ctx salt
  rw [rolloutAdmits, segmentRuleMatches_iff]
  simp [EvaluationContext.bucketingSubject, crates.bucket_lt]

/-- Without a rollout, a context is admitted also when it has no bucket. -/
theorem not_admitsBelow_none (percentage : UInt32) (name : String) :
    ¬ AdmitsBelow crates none percentage (some name) := by
  intro h
  have hadmitted := (h "" ⟨"", ∅⟩ "").mp (by
    rw [rolloutAdmits, segmentRuleMatches_iff]
    simp)
  obtain ⟨subject, hsubject, -⟩ := hadmitted
  simp [EvaluationContext.bucketingSubject] at hsubject

/-! ### Members after the change -/

/-- A share that is not larger admits nobody new. -/
theorem segmentRuleMatches_of_share {rule : SegmentRule} {percentage : UInt32}
    (hle : percentage ≤ percentageOf rule) {segmentKey salt : String} {ctx : EvaluationContext}
    (h : segmentRuleMatches crates
      { rule with rollout := some ⟨percentage, bucketByOf rule⟩ } segmentKey ctx salt = true) :
    segmentRuleMatches crates rule segmentKey ctx salt = true := by
  rw [segmentRuleMatches_iff] at h ⊢
  refine ⟨h.1, ?_⟩
  intro rollout hrollout
  obtain ⟨subject, hsubject, hlt⟩ := h.2 _ rfl
  simp only [bucketByOf, percentageOf, hrollout, Option.bind_some] at hsubject hle
  exact ⟨subject, hsubject, UInt32.lt_of_lt_of_le hlt hle⟩

/-- Neither does a whole cohort, where the old one was whole and every context has a bucket. -/
theorem segmentRuleMatches_of_whole {rule : SegmentRule} (hbucket : bucketByOf rule = none)
    (hle : totalWeight ≤ percentageOf rule) {segmentKey salt : String} {ctx : EvaluationContext}
    (h : segmentRuleMatches crates { rule with rollout := none } segmentKey ctx salt = true) :
    segmentRuleMatches crates rule segmentKey ctx salt = true := by
  rw [segmentRuleMatches_iff] at h ⊢
  refine ⟨h.1, ?_⟩
  intro rollout hrollout
  simp only [bucketByOf, percentageOf, hrollout, Option.bind_some] at hbucket hle
  rw [hbucket]
  exact ⟨ctx.key, rfl, UInt32.lt_of_lt_of_le (crates.bucket_lt _ _ _) hle⟩

/-- A segment has no new members when one of its rules has none. -/
theorem segmentContains_of_rule {segment : Segment} {earlier later : List SegmentRule}
    {rule rule' : SegmentRule} (hrules : segment.rules = earlier ++ rule :: later)
    {ctx : EvaluationContext} {salt : String}
    (hrule : segmentRuleMatches crates rule' segment.key ctx salt = true →
      segmentRuleMatches crates rule segment.key ctx salt = true)
    (h : segmentContains crates { segment with rules := earlier ++ rule' :: later } ctx salt = true) :
    segmentContains crates segment ctx salt = true := by
  rw [segmentContains_iff] at h ⊢
  refine ⟨h.1, h.2.imp_right ?_⟩
  rintro ⟨member, hmem, hmatch⟩
  rw [hrules]
  rcases List.mem_append.mp hmem with hearlier | hrest
  · exact ⟨member, List.mem_append_left _ hearlier, hmatch⟩
  · rcases List.mem_cons.mp hrest with rfl | hlater
    · exact ⟨rule, by simp, hrule hmatch⟩
    · exact ⟨member, by simp [hlater], hmatch⟩

theorem changeRollout_eq_self {raw : String} {rule : SegmentRule}
    (h : (changeRollout raw rule).rollout = rule.rollout) : changeRollout raw rule = rule := by
  calc changeRollout raw rule = { rule with rollout := (changeRollout raw rule).rollout } := rfl
    _ = rule := by rw [h]

/-- A change that leaves the rollout keeps everything, when no number was typed. -/
theorem editKeeps_of_unread {raw : String} {rule : SegmentRule} (hraw : typed raw = none)
    (h : (changeRollout raw rule).rollout = rule.rollout) : EditKeeps crates raw rule where
  unread _ := h
  read p hp := by
    rw [hraw] at hp
    cases hp
  whole p hp := by
    rw [hraw] at hp
    cases hp
  contained _ segment earlier later hrules ctx salt hin := by
    rw [changeRollout_eq_self h] at hin
    exact segmentContains_of_rule hrules id hin

/-- A change to a rollout that stands for what was typed keeps everything, when none of its members
    is new unless the typed share is larger. -/
theorem editKeeps_of_read {raw : String} {rule : SegmentRule} {p : Float}
    {rollout : Option SegmentRollout} (hraw : typed raw = some p)
    (hrollout : changeRollout raw rule = { rule with rollout })
    (hadmits : AdmitsBelow crates rollout (share p) (bucketByOf rule))
    (hwhole : rollout = none → 100 ≤ p)
    (hcontained : ¬ Larger p (percentageOf rule) →
      ∀ (segmentKey : String) (ctx : EvaluationContext) (salt : String),
        segmentRuleMatches crates { rule with rollout } segmentKey ctx salt = true →
          segmentRuleMatches crates rule segmentKey ctx salt = true) :
    EditKeeps crates raw rule := by
  have htyped : ∀ q, typed raw = some q → p = q := by
    intro q hq
    rwa [hraw, Option.some.injEq] at hq
  constructor
  · intro hnone
    rw [hraw] at hnone
    cases hnone
  · intro q hq
    rwa [hrollout, ← htyped q hq]
  · intro q hq hnone
    rw [hrollout] at hnone
    rw [← htyped q hq]
    exact hwhole hnone
  · intro hlarger segment earlier later hrules ctx salt hin
    rw [hrollout] at hin
    exact segmentContains_of_rule hrules (hcontained (hlarger p hraw) _ ctx salt) hin

theorem editKeeps_of_small {raw : String} {rule : SegmentRule} {p : Float}
    (hraw : parseTrimmed raw = some p) (hnumber : p.isNaN = false) (h : ¬ 100 ≤ p) :
    EditKeeps crates raw rule := by
  have hrollout : changeRollout raw rule =
      { rule with rollout := some ⟨share p, bucketByOf rule⟩ } := by
    rw [changeRollout, fromPercent_of_small hraw hnumber h, Option.map_some]
  refine editKeeps_of_read (typed_eq_some_iff.mpr ⟨hraw, hnumber⟩) hrollout
    (admitsBelow_rollout _ _) nofun ?_
  intro hlarger segmentKey ctx salt hmatch
  exact segmentRuleMatches_of_share (share_le hnumber h hlarger) hmatch

theorem editKeeps_of_whole {raw : String} {rule : SegmentRule} {p : Float}
    (hraw : parseTrimmed raw = some p) (hnumber : p.isNaN = false) (h : 100 ≤ p)
    (hbucket : bucketByOf rule = none) : EditKeeps crates raw rule := by
  have hrollout : changeRollout raw rule = { rule with rollout := none } := by
    rw [changeRollout, fromPercent_of_whole hraw h, Option.map_none]
  have hadmits : AdmitsBelow crates none (share p) (bucketByOf rule) := by
    rw [share_of_hundred_le h, hbucket]
    exact admitsBelow_none
  refine editKeeps_of_read (typed_eq_some_iff.mpr ⟨hraw, hnumber⟩) hrollout hadmits (fun _ => h) ?_
  intro hlarger segmentKey ctx salt hmatch
  exact segmentRuleMatches_of_whole hbucket (totalWeight_le_of_hundred_le hnumber h hlarger) hmatch

/-- A change of the field does what was typed exactly when it is harmless: a text that is no number
    finds no rollout to lose, `NaN` finds a rollout of nobody, and a hundred or more finds no attribute
    that the rollout goes by. -/
theorem edit_keeps_iff {raw : String} {rule : SegmentRule} :
    EditKeeps crates raw rule ↔ Harmless raw rule := by
  cases hraw : parseTrimmed raw with
  | none =>
      have htyped : typed raw = none := by
        rw [typed, hraw]
        rfl
      have hrollout : (changeRollout raw rule).rollout = none := by
        rw [changeRollout, fromPercent_of_none hraw, Option.map_none]
      simp only [Harmless, hraw]
      constructor
      · intro h
        rw [← h.unread htyped, hrollout]
      · intro h
        exact editKeeps_of_unread htyped (hrollout.trans h.symm)
  | some p =>
      cases hnumber : p.isNaN with
      | true =>
          have htyped : typed raw = none := by
            rw [typed, hraw, Option.filter_some, hnumber]
            rfl
          have hrollout : (changeRollout raw rule).rollout = some ⟨0, bucketByOf rule⟩ := by
            rw [changeRollout, fromPercent_of_isNaN hraw hnumber, Option.map_some]
          simp only [Harmless, hraw, hnumber, if_true]
          constructor
          · intro h
            exact ⟨bucketByOf rule, by rw [← h.unread htyped, hrollout]⟩
          · rintro ⟨bucketBy, h⟩
            refine editKeeps_of_unread htyped ?_
            rw [hrollout, bucketByOf, h, Option.bind_some]
      | false =>
          simp only [Harmless, hraw, hnumber, Bool.false_eq_true, if_false]
          by_cases h : 100 ≤ p
          · constructor
            · intro hkeeps _
              have hread := hkeeps.read p (typed_eq_some_iff.mpr ⟨hraw, hnumber⟩)
              rw [changeRollout, fromPercent_of_whole hraw h, Option.map_none] at hread
              cases hbucket : bucketByOf rule with
              | none => rfl
              | some name =>
                  rw [hbucket] at hread
                  exact absurd hread (not_admitsBelow_none _ name)
            · intro hbucket
              exact editKeeps_of_whole hraw hnumber h (hbucket h)
          · exact iff_of_true (editKeeps_of_small hraw hnumber h) fun hwhole => absurd hwhole h

/-- A rule that admits a twentieth of everyone. -/
def twentieth : SegmentRule where
  id := .nil
  description := none
  conditions := []
  rollout := some ⟨5000, none⟩

/-- Clearing its field admits everyone. -/
theorem not_edit_keeps_cleared :
    ¬ EditKeeps Crates.plain "" twentieth ∧ (changeRollout "" twentieth).rollout = none := by
  have hrollout : (changeRollout "" twentieth).rollout = none := by
    decide +kernel
  refine ⟨?_, hrollout⟩
  intro h
  have hkept := h.unread (by decide +kernel)
  rw [hrollout] at hkept
  cases hkept

end FlagForge.Web
