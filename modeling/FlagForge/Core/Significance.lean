/-
Module: FlagForge.Core.Significance
Layer: Core
Purpose: The two-proportion test in real arithmetic: where it is defined, that it treats the two arms
  alike, and that its p-value is a probability which falls as the standardised difference grows.
Imports: FlagForge.Core.Experiment, Mathlib.Tactic.Linarith, Mathlib.Tactic.Positivity
Trusted boundary: none
Main exports: Experiment.tail, Experiment.tail_antitone, Experiment.twoProportionZ_real,
  Experiment.two_proportion_test
-/
import FlagForge.Core.Experiment
import Mathlib.Tactic.Linarith
import Mathlib.Tactic.Positivity

namespace FlagForge.Experiment

open Arithmetic

/-! ### The tail of the approximated normal distribution -/

/-- The polynomial of the approximation. -/
def tailPolynomial (t : ℝ) : ℝ :=
  t * (0.254829592 + t * (-0.284496736 + t * (1.421413741 + t * (-1.453152027 + t * 1.061405429))))

/-- The slope of the polynomial between two points. -/
def tailSlope (s t : ℝ) : ℝ :=
  0.254829592 - 0.284496736 * (s + t) + 1.421413741 * (s ^ 2 + s * t + t ^ 2) -
    1.453152027 * (s ^ 3 + s ^ 2 * t + s * t ^ 2 + t ^ 3) +
    1.061405429 * (s ^ 4 + s ^ 3 * t + s ^ 2 * t ^ 2 + s * t ^ 3 + t ^ 4)

theorem tailPolynomial_sub (s t : ℝ) :
    tailPolynomial t - tailPolynomial s = (t - s) * tailSlope s t := by
  rw [tailPolynomial, tailPolynomial, tailSlope]
  ring

/-- To the right of zero the polynomial rises everywhere. -/
theorem tailSlope_pos {s t : ℝ} (hs : 0 ≤ s) (ht : 0 ≤ t) : 0 < tailSlope s t := by
  have hproduct : 0 ≤ s * t := mul_nonneg hs ht
  rw [tailSlope]
  nlinarith [mul_nonneg hproduct (sq_nonneg (s + t - 0.7)), mul_nonneg hproduct (sq_nonneg (s - t))]

/-- The polynomial grows, for all its alternating signs. -/
theorem tailPolynomial_mono {s t : ℝ} (hs : 0 ≤ s) (hst : s ≤ t) :
    tailPolynomial s ≤ tailPolynomial t := by
  have hrise : 0 ≤ (t - s) * tailSlope s t :=
    mul_nonneg (sub_nonneg.mpr hst) (tailSlope_pos hs (hs.trans hst)).le
  rw [← tailPolynomial_sub] at hrise
  exact sub_nonneg.mp hrise

/-- It is positive beyond zero. -/
theorem tailPolynomial_pos {t : ℝ} (ht : 0 < t) : 0 < tailPolynomial t := by
  have hzero : tailPolynomial 0 = 0 := zero_mul _
  have hrise : 0 < (t - 0) * tailSlope 0 t :=
    mul_pos (sub_pos.mpr ht) (tailSlope_pos le_rfl ht.le)
  rw [← tailPolynomial_sub, hzero, sub_zero] at hrise
  exact hrise

theorem tailPolynomial_one_le : tailPolynomial 1 ≤ 1 := by
  rw [tailPolynomial]
  norm_num

/-- Where the polynomial is taken. -/
noncomputable def tailPoint (x : ℝ) : ℝ :=
  1 / (1 + 0.3275911 * x)

/-- One minus the error function, as it is approximated. -/
noncomputable def tail (x : ℝ) : ℝ :=
  tailPolynomial (tailPoint x) * Real.exp (-x * x)

section

variable {x y : ℝ}

theorem tailPoint_pos (hx : 0 ≤ x) : 0 < tailPoint x := by
  rw [tailPoint]
  positivity

/-- The point at which it is taken falls as x grows. -/
theorem tailPoint_antitone (hx : 0 ≤ x) (hxy : x ≤ y) : tailPoint y ≤ tailPoint x := by
  rw [tailPoint, tailPoint]
  gcongr

/-- The tail is never used up. -/
theorem tail_pos (hx : 0 ≤ x) : 0 < tail x :=
  mul_pos (tailPolynomial_pos (tailPoint_pos hx)) (Real.exp_pos _)

/-- Both factors fall. -/
theorem tail_antitone (hx : 0 ≤ x) (hxy : x ≤ y) : tail y ≤ tail x := by
  have hy := hx.trans hxy
  have hpolynomial : tailPolynomial (tailPoint y) ≤ tailPolynomial (tailPoint x) :=
    tailPolynomial_mono (tailPoint_pos hy).le (tailPoint_antitone hx hxy)
  have hexp : Real.exp (-y * y) ≤ Real.exp (-x * x) := by
    apply Real.exp_le_exp.mpr
    have := mul_le_mul hxy hxy hx hy
    linarith
  exact mul_le_mul hpolynomial hexp (Real.exp_pos _).le (tailPolynomial_pos (tailPoint_pos hx)).le

theorem tail_le_one (hx : 0 ≤ x) : tail x ≤ 1 := by
  have hzero : tail 0 = tailPolynomial 1 := by simp [tail, tailPoint]
  calc
    tail x ≤ tail 0 := tail_antitone le_rfl hx
    _ = tailPolynomial 1 := hzero
    _ ≤ 1 := tailPolynomial_one_le

end

/-! ### The functions over the reals -/

theorem literal_one : (1.0 : ℝ) = 1 := by
  norm_num

theorem literal_zero : (0.0 : ℝ) = 0 := by
  norm_num

/-- Over the reals `erf` is one less the tail. -/
theorem erf_real {x : ℝ} (hx : 0 ≤ x) : erf x = some (1 - tail x) := by
  have hdenominator : 1 + 0.3275911 * x ≠ 0 := by positivity
  have hsign : lt x (0.0 : ℝ) = false := by
    rw [Bool.eq_false_iff, Ne, lt_real, literal_zero]
    exact not_lt.mpr hx
  have habs : Arithmetic.abs x = x := abs_of_nonneg hx
  rw [erf, hsign, habs, literal_one]
  change (div (1 : ℝ) (1 + 0.3275911 * x)).bind _ = _
  rw [div_real hdenominator]
  change some (1 * (1 - tail x)) = some (1 - tail x)
  rw [one_mul]

theorem sqrt2_pos : (0 : ℝ) < sqrt2 := by
  change (0 : ℝ) < 1.41421356237309504880168872420969807856967187537694
  norm_num

/-- The p-value is the tail beyond the statistic. -/
theorem phi_real {x : ℝ} (hx : 0 ≤ x) : phi x = some (1 - tail (x / sqrt2) / 2) := by
  have hquotient : 0 ≤ x / sqrt2 := div_nonneg hx sqrt2_pos.le
  rw [phi, div_real sqrt2_pos.ne', Option.bind_eq_bind, Option.bind_some, erf_real hquotient]
  have hhalf : (0.5 : ℝ) = 1 / 2 := by norm_num
  change some ((0.5 : ℝ) * (1.0 + (1 - tail (x / sqrt2)))) = _
  rw [hhalf, literal_one]
  congr 1
  ring

/-- The p-value of a statistic. -/
noncomputable def pValueOf (z : ℝ) : ℝ :=
  tail (|z| / sqrt2)

/-- A p-value is positive. -/
theorem pValueOf_pos (z : ℝ) : 0 < pValueOf z :=
  tail_pos (div_nonneg (abs_nonneg z) sqrt2_pos.le)

/-- It is one at most. -/
theorem pValueOf_le_one (z : ℝ) : pValueOf z ≤ 1 :=
  tail_le_one (div_nonneg (abs_nonneg z) sqrt2_pos.le)

/-- It falls as the statistic moves away from zero. -/
theorem pValueOf_antitone {z z' : ℝ} (h : |z| ≤ |z'|) : pValueOf z' ≤ pValueOf z :=
  tail_antitone (div_nonneg (abs_nonneg z) sqrt2_pos.le) (div_le_div_of_nonneg_right h sqrt2_pos.le)

/-- What the test computes of a lift and its variance. -/
noncomputable def comparisonOf (lift variance : ℝ) : Comparison ℝ where
  lift := lift
  z := lift / √variance
  pValue := pValueOf (lift / √variance)
  significant := pValueOf (lift / √variance) < 0.05

/-- The pooled variance of two arms. -/
noncomputable def pooledVariance (own control : ℝ × ℝ) : ℝ :=
  (own.1 + control.1) / (own.2 + control.2) * (1 - (own.1 + control.1) / (own.2 + control.2)) *
    (1 / own.2 + 1 / control.2)

/-- Two arms with trials are compared unless the pooled variance is zero. -/
theorem twoProportionZ_real {own control : ℝ × ℝ} (hown : 0 < own.2) (hcontrol : 0 < control.2) :
    twoProportionZ own control =
      some (if pooledVariance own control ≤ 0 then none
        else some (comparisonOf (own.1 / own.2 - control.1 / control.2)
          (pooledVariance own control))) := by
  obtain ⟨x1, n1⟩ := own
  obtain ⟨x2, n2⟩ := control
  -- the quotients that the variance is made of
  change (div (x1 + x2) (n1 + n2)).bind _ = _
  rw [div_real (add_pos hown hcontrol).ne']
  change (div (1.0 : ℝ) n1).bind _ = _
  rw [literal_one, div_real hown.ne']
  change (div (1 : ℝ) n2).bind _ = _
  rw [div_real hcontrol.ne']
  generalize hvariance : pooledVariance (x1, n1) (x2, n2) = variance
  change (if le (pooledVariance (x1, n1) (x2, n2)) (0.0 : ℝ) = true then _ else _) = _
  rw [hvariance, literal_zero]
  by_cases hzero : variance ≤ 0
  · rw [if_pos hzero, if_pos (le_real.mpr hzero)]
    rfl
  · rw [if_neg hzero, if_neg fun h => hzero (le_real.mp h)]
    have hpos : 0 < variance := not_le.mp hzero
    change (div x1 n1).bind _ = _
    rw [div_real hown.ne']
    change (div x2 n2).bind _ = _
    rw [div_real hcontrol.ne']
    change (sqrt (pooledVariance (x1, n1) (x2, n2))).bind _ = _
    rw [hvariance, sqrt_real hpos.le]
    change (div (x1 / n1 - x2 / n2) √variance).bind _ = _
    rw [div_real (Real.sqrt_pos.mpr hpos).ne']
    change (phi |(x1 / n1 - x2 / n2) / √variance|).bind _ = _
    rw [phi_real (abs_nonneg _)]
    have hdouble : ∀ p : ℝ, 2.0 * (1 - (1 - p / 2)) = p := by
      intro p
      have htwo : (2.0 : ℝ) = 2 := by norm_num
      rw [htwo]
      ring
    have hvalue := hdouble (pValueOf ((x1 / n1 - x2 / n2) / √variance))
    change some (some (Comparison.mk _ _ (2.0 * (1 - (1 - pValueOf _ / 2)))
      (lt (2.0 * (1 - (1 - pValueOf _ / 2))) (alpha : ℝ)))) = _
    rw [hvalue]
    rfl

/-! ### Counts -/

/-- The conversions that the test goes by. -/
def clampedConversions (c : VariantCounts) : Nat :=
  min c.conversions c.exposures

/-- Both arms have exposures, and neither nobody nor everybody has converted. -/
def Comparable (c k : VariantCounts) : Prop :=
  0 < c.exposures ∧ 0 < k.exposures ∧ 0 < clampedConversions c + clampedConversions k ∧
    clampedConversions c + clampedConversions k < c.exposures + k.exposures

/-- The arm of a variant. -/
noncomputable def arm (c : VariantCounts) : ℝ × ℝ :=
  (clampedConversions c, c.exposures)

theorem observed_eq (c : VariantCounts) :
    (observed c : Option (ℝ × ℝ)) = if 0 < c.exposures then some (arm c) else none :=
  rfl

theorem clampedConversions_le (c : VariantCounts) : clampedConversions c ≤ c.exposures :=
  min_le_right _ _

/-- The pooled variance vanishes where the pooled rate is zero or one. -/
theorem pooledVariance_pos_iff {c k : VariantCounts} (hc : 0 < c.exposures) (hk : 0 < k.exposures) :
    0 < pooledVariance (arm c) (arm k) ↔ 0 < clampedConversions c + clampedConversions k ∧
      clampedConversions c + clampedConversions k < c.exposures + k.exposures := by
  have hcpos : (0 : ℝ) < c.exposures := Nat.cast_pos.mpr hc
  have hkpos : (0 : ℝ) < k.exposures := Nat.cast_pos.mpr hk
  have hinverse : (0 : ℝ) < 1 / c.exposures + 1 / k.exposures := by positivity
  have htotal : (0 : ℝ) < c.exposures + k.exposures := add_pos hcpos hkpos
  have hconverted : (0 : ℝ) ≤ clampedConversions c + clampedConversions k := by positivity
  have hbounded : (clampedConversions c + clampedConversions k : ℝ) ≤ c.exposures + k.exposures := by
    exact_mod_cast Nat.add_le_add (clampedConversions_le c) (clampedConversions_le k)
  have hcasts : 0 < clampedConversions c + clampedConversions k ∧
      clampedConversions c + clampedConversions k < c.exposures + k.exposures ↔
      (0 : ℝ) < clampedConversions c + clampedConversions k ∧
        (clampedConversions c + clampedConversions k : ℝ) < c.exposures + k.exposures := by
    norm_cast
  rw [hcasts, pooledVariance]
  change 0 < (clampedConversions c + clampedConversions k : ℝ) / (c.exposures + k.exposures) *
    (1 - (clampedConversions c + clampedConversions k : ℝ) / (c.exposures + k.exposures)) *
      (1 / c.exposures + 1 / k.exposures) ↔ _
  generalize (clampedConversions c + clampedConversions k : ℝ) = x at *
  generalize (c.exposures + k.exposures : ℝ) = n at *
  have hrest : 1 - x / n = (n - x) / n := by
    rw [sub_div, div_self htotal.ne']
  rw [hrest, mul_pos_iff_of_pos_right hinverse]
  constructor
  · intro hproduct
    rcases mul_pos_iff.mp hproduct with ⟨hx, hn⟩ | ⟨hx, _⟩
    · exact ⟨(div_pos_iff_of_pos_right htotal).mp hx,
        sub_pos.mp ((div_pos_iff_of_pos_right htotal).mp hn)⟩
    · exact absurd hx (not_lt.mpr (div_nonneg hconverted htotal.le))
  · rintro ⟨hx, hn⟩
    exact mul_pos (div_pos hx htotal) (div_pos (sub_pos.mpr hn) htotal)

/-- The comparison of two variants with exposures. -/
noncomputable def compared (c k : VariantCounts) : Comparison ℝ :=
  comparisonOf ((arm c).1 / (arm c).2 - (arm k).1 / (arm k).2) (pooledVariance (arm c) (arm k))

/-- A variant is compared with the control if the two are comparable. -/
theorem vsControl_comparable {controlVariant : String} {c k : VariantCounts}
    (hc : c.variant ≠ controlVariant) (h : Comparable c k) :
    vsControl controlVariant (observed k) c = some (some (compared c k)) := by
  obtain ⟨hcpos, hkpos, hconverted⟩ := h
  have hvariance := (pooledVariance_pos_iff hcpos hkpos).mpr hconverted
  unfold vsControl
  rw [if_neg hc, observed_eq, observed_eq, if_pos hcpos, if_pos hkpos]
  change twoProportionZ (arm c) (arm k) = _
  rw [twoProportionZ_real (Nat.cast_pos.mpr hcpos) (Nat.cast_pos.mpr hkpos),
    if_neg (not_le.mpr hvariance)]
  rfl

/-- Without visitors on both sides, or without variance, nothing is compared. -/
theorem vsControl_not_comparable {controlVariant : String} {c k : VariantCounts}
    (h : ¬Comparable c k) :
    vsControl controlVariant (observed k) c = some (none : Option (Comparison ℝ)) := by
  unfold vsControl
  by_cases hc : c.variant = controlVariant
  · rw [if_pos hc]
  rw [if_neg hc, observed_eq, observed_eq]
  by_cases hcpos : 0 < c.exposures
  · by_cases hkpos : 0 < k.exposures
    · have hvariance : pooledVariance (arm c) (arm k) ≤ 0 := by
        rw [← not_lt, pooledVariance_pos_iff hcpos hkpos]
        exact fun hconverted => h ⟨hcpos, hkpos, hconverted⟩
      rw [if_pos hcpos, if_pos hkpos]
      change twoProportionZ (arm c) (arm k) = _
      rw [twoProportionZ_real (Nat.cast_pos.mpr hcpos) (Nat.cast_pos.mpr hkpos), if_pos hvariance]
    · rw [if_neg hkpos, if_pos hcpos]
  · rw [if_neg hcpos]

/-- The interval of an observed rate is defined: the root is of a sum of squares, and the bounds of
    its clamps are in order. -/
theorem wilson_real {rate n : ℝ} (hn : 0 < n) (hlow : 0 ≤ rate) (hhigh : rate ≤ 1) :
    ∃ interval, wilson rate n = some interval := by
  have hz : (0 : ℝ) ≤ z95 * z95 := mul_self_nonneg z95
  have hdenominator : (0 : ℝ) < 1 + z95 * z95 / n := by positivity
  have htwice : (2.0 : ℝ) * n ≠ 0 := by positivity
  have hsquare : (4.0 : ℝ) * n * n ≠ 0 := by positivity
  have hroot : 0 ≤ rate * (1 - rate) / n + z95 * z95 / (4.0 * n * n) := by
    have hspread : 0 ≤ rate * (1 - rate) := mul_nonneg hlow (sub_nonneg.mpr hhigh)
    positivity
  change ∃ interval, (div (z95 * z95 : ℝ) n).bind _ = some interval
  rw [div_real hn.ne']
  change ∃ interval, (div (z95 * z95 : ℝ) (2.0 * n)).bind _ = some interval
  rw [div_real htwice]
  change ∃ interval, (div (rate + z95 * z95 / (2.0 * n)) (1.0 + z95 * z95 / n)).bind _ =
    some interval
  rw [literal_one, div_real hdenominator.ne']
  change ∃ interval, (div (z95 : ℝ) (1 + z95 * z95 / n)).bind _ = some interval
  rw [div_real hdenominator.ne']
  change ∃ interval, (div (rate * (1 - rate)) n).bind _ = some interval
  rw [div_real hn.ne']
  change ∃ interval, (div (z95 * z95 : ℝ) (4.0 * n * n)).bind _ = some interval
  rw [div_real hsquare]
  change ∃ interval, (sqrt (rate * (1 - rate) / n + z95 * z95 / (4.0 * n * n))).bind _ =
    some interval
  rw [sqrt_real hroot]
  change ∃ interval, (clamp _ (0.0 : ℝ) rate).bind _ = some interval
  rw [literal_zero]
  obtain ⟨low, hclamped⟩ := clamp_real hlow
  rw [hclamped]
  change ∃ interval, (clamp _ rate (1 : ℝ)).bind _ = some interval
  obtain ⟨high, hclamped'⟩ := clamp_real hhigh
  rw [hclamped']
  exact ⟨_, rfl⟩

/-- What is shown of a rate is defined. -/
theorem estimate_real (c : VariantCounts) :
    ∃ shown, estimate (observed c : Option (ℝ × ℝ)) = some shown := by
  rw [observed_eq]
  by_cases hpos : 0 < c.exposures
  · have hn : (0 : ℝ) < c.exposures := Nat.cast_pos.mpr hpos
    have hbounded : (clampedConversions c : ℝ) ≤ c.exposures :=
      Nat.cast_le.mpr (clampedConversions_le c)
    obtain ⟨interval, hinterval⟩ := wilson_real hn
      (div_nonneg (Nat.cast_nonneg (clampedConversions c)) hn.le) ((div_le_one hn).mpr hbounded)
    rw [if_pos hpos]
    change ∃ shown, (div (clampedConversions c : ℝ) c.exposures).bind _ = some shown
    rw [div_real hn.ne']
    change ∃ shown, (wilson ((clampedConversions c : ℝ) / c.exposures) c.exposures).bind _ = some shown
    rw [hinterval]
    exact ⟨_, rfl⟩
  · rw [if_neg hpos]
    exact ⟨_, rfl⟩

/-! ### Swapping the arms -/

/-- The comparison as the other arm has it. -/
def swapped (comparison : Comparison ℝ) : Comparison ℝ :=
  { comparison with lift := -comparison.lift, z := -comparison.z }

theorem comparable_comm {c k : VariantCounts} : Comparable c k ↔ Comparable k c := by
  rw [Comparable, Comparable, Nat.add_comm (clampedConversions c), Nat.add_comm c.exposures]
  tauto

theorem pValueOf_neg (z : ℝ) : pValueOf (-z) = pValueOf z := by
  rw [pValueOf, abs_neg, pValueOf]

/-- The other way round lift and statistic change their sign, the p-value stays. -/
theorem comparisonOf_neg (lift variance : ℝ) :
    comparisonOf (-lift) variance = swapped (comparisonOf lift variance) := by
  simp only [comparisonOf, swapped, neg_div, pValueOf_neg]

theorem pooledVariance_comm (own control : ℝ × ℝ) :
    pooledVariance own control = pooledVariance control own := by
  rw [pooledVariance, pooledVariance, add_comm own.1, add_comm own.2, add_comm (1 / own.2)]

/-- So comparing is antisymmetric. -/
theorem compared_comm (c k : VariantCounts) : compared k c = swapped (compared c k) := by
  rw [compared, pooledVariance_comm, ← neg_sub, comparisonOf_neg]
  rfl

/-! ### Results -/

/-- A result of the counts `c`: what it repeats, when it has a comparison, and which. -/
structure Judged (controlVariant : String) (counts : List VariantCounts) (c : VariantCounts)
    (r : VariantResult ℝ) : Prop where
  repeated : r.variant = c.variant ∧ r.exposures = c.exposures ∧ r.conversions = c.conversions
  control : c.variant = controlVariant → r.vsControl = none
  isSome_iff : c.variant ≠ controlVariant → (r.vsControl.isSome = true ↔
    ∃ k, counts.find? (·.variant = controlVariant) = some k ∧ Comparable c k)
  value : ∀ comparison, r.vsControl = some comparison →
    ∃ k, counts.find? (·.variant = controlVariant) = some k ∧ comparison = compared c k

/-- Each variant is judged against the control. -/
theorem result_judged (controlVariant : String) (counts : List VariantCounts) (c : VariantCounts) :
    ∃ r, result controlVariant (controlOf controlVariant counts) c = some r ∧
      Judged controlVariant counts c r := by
  obtain ⟨⟨rate, interval⟩, hestimate⟩ := estimate_real c
  -- whatever the comparison is, the other fields follow
  have hresult : ∀ comparison, vsControl controlVariant (controlOf controlVariant counts) c =
      some comparison → result controlVariant (controlOf controlVariant counts) c =
        some ⟨c.variant, c.exposures, c.conversions, rate, interval, comparison⟩ := by
    intro comparison hcomparison
    rw [result, hcomparison, hestimate]
    rfl
  by_cases hcontrol : c.variant = controlVariant
  · refine ⟨_, hresult none (if_pos hcontrol), ⟨rfl, rfl, rfl⟩, fun _ => rfl, ?_, ?_⟩
    · exact fun hne => absurd hcontrol hne
    · exact fun _ hsome => by cases hsome
  cases hfind : counts.find? (·.variant = controlVariant) with
  | none =>
      have hnone : vsControl controlVariant (controlOf controlVariant counts) c =
          some (none : Option (Comparison ℝ)) := by
        rw [controlOf, hfind]
        unfold vsControl
        rw [if_neg hcontrol]
        cases (observed c : Option (ℝ × ℝ)) <;> rfl
      refine ⟨_, hresult none hnone, ⟨rfl, rfl, rfl⟩, fun _ => rfl, ?_, ?_⟩
      · simp [hfind]
      · exact fun _ hsome => by cases hsome
  | some k =>
      have hobserved : (controlOf controlVariant counts : Option (ℝ × ℝ)) = observed k := by
        rw [controlOf, hfind, Option.bind_some]
      by_cases hcomparable : Comparable c k
      · refine ⟨_, hresult _ (hobserved ▸ vsControl_comparable hcontrol hcomparable),
          ⟨rfl, rfl, rfl⟩, fun h => absurd h hcontrol, ?_, ?_⟩
        · simp [hfind, hcomparable]
        · intro comparison hsome
          cases hsome
          exact ⟨k, hfind, rfl⟩
      · refine ⟨_, hresult _ (hobserved ▸ vsControl_not_comparable hcomparable),
          ⟨rfl, rfl, rfl⟩, fun _ => rfl, ?_, ?_⟩
        · simp [hfind, hcomparable]
        · exact fun _ hsome => by cases hsome

/-- A loop whose steps have related results has related results. -/
theorem forall₂_of_mapM {α β : Type} {f : α → Option β} {R : α → β → Prop} :
    ∀ {xs : List α}, (∀ x ∈ xs, ∃ y, f x = some y ∧ R x y) →
      ∃ ys, xs.mapM f = some ys ∧ List.Forall₂ R xs ys
  | [], _ => ⟨[], rfl, .nil⟩
  | x :: xs, h => by
      obtain ⟨y, hy, hR⟩ := h x List.mem_cons_self
      obtain ⟨ys, hys, hrest⟩ := forall₂_of_mapM fun x hx => h x (List.mem_cons_of_mem _ hx)
      exact ⟨y :: ys, by rw [List.mapM_cons, hy, hys]; rfl, .cons hR hrest⟩

/-- So are all of them. -/
theorem results_judged (controlVariant : String) (counts : List VariantCounts) :
    ∃ out, results controlVariant counts = some out ∧
      List.Forall₂ (Judged controlVariant counts) counts out :=
  forall₂_of_mapM fun c _ => result_judged controlVariant counts c

/-- With the control known, the comparison of a result is known. -/
theorem Judged.vsControl_eq {counts : List VariantCounts} {c k : VariantCounts}
    {r : VariantResult ℝ} (h : Judged k.variant counts c r) (hne : c.variant ≠ k.variant)
    (hk : counts.find? (·.variant = k.variant) = some k) :
    (Comparable c k → r.vsControl = some (compared c k)) ∧ (¬Comparable c k → r.vsControl = none) := by
  have hiff := h.isSome_iff hne
  constructor
  · intro hcomparable
    obtain ⟨comparison, hcomparison⟩ := Option.isSome_iff_exists.mp (hiff.mpr ⟨k, hk, hcomparable⟩)
    obtain ⟨k', hk', rfl⟩ := h.value comparison hcomparison
    cases hk.symm.trans hk'
    exact hcomparison
  · intro hcomparable
    rw [← Option.not_isSome_iff_eq_none, hiff]
    rintro ⟨k', hk', hcomparable'⟩
    cases hk.symm.trans hk'
    exact hcomparable hcomparable'

/-- A comparison that some results show. -/
def Shown (comparison : Comparison ℝ) : Prop :=
  ∃ controlVariant counts out, results controlVariant counts = some out ∧
    ∃ r ∈ out, r.vsControl = some comparison

theorem Shown.exists_compared {comparison : Comparison ℝ} (h : Shown comparison) :
    ∃ c k, comparison = compared c k := by
  obtain ⟨controlVariant, counts, out, hout, r, hr, hcomparison⟩ := h
  obtain ⟨_, hout', hjudged⟩ := results_judged controlVariant counts
  cases hout.symm.trans hout'
  obtain ⟨i, hi, rfl⟩ := List.mem_iff_getElem.mp hr
  obtain ⟨k, _, hvalue⟩ := (List.forall₂_iff_get.mp hjudged).2 i (hjudged.length_eq ▸ hi) hi |>.value
    comparison hcomparison
  exact ⟨_, k, hvalue⟩

/-- In real arithmetic the judgement of any counts is defined: a variant other than the control is
    compared exactly if both have exposures and their pooled rate is neither zero nor one. The arms
    can be swapped; the p-value is positive and at most one, and falls as the statistic grows. -/
theorem two_proportion_test :
    (∀ controlVariant counts, ∃ out, results controlVariant counts = some out ∧
      List.Forall₂ (Judged controlVariant counts) counts out) ∧
    (∀ (counts : List VariantCounts) (a b : VariantCounts) (out out' : List (VariantResult ℝ)),
      a.variant ≠ b.variant → counts.find? (·.variant = a.variant) = some a →
      counts.find? (·.variant = b.variant) = some b → results b.variant counts = some out →
      results a.variant counts = some out' →
        ∀ r r', (a, r) ∈ counts.zip out → (b, r') ∈ counts.zip out' →
          r'.vsControl = r.vsControl.map swapped) ∧
    (∀ comparison, Shown comparison → 0 < comparison.pValue ∧ comparison.pValue ≤ 1) ∧
    ∀ comparison comparison', Shown comparison → Shown comparison' →
      |comparison.z| ≤ |comparison'.z| → comparison'.pValue ≤ comparison.pValue ∧
        (comparison.significant = true → comparison'.significant = true) := by
  refine ⟨results_judged, ?_, ?_, ?_⟩
  · intro counts a b out out' hne ha hb hout hout' r r' hr hr'
    obtain ⟨_, hsame, hjudged⟩ := results_judged b.variant counts
    cases hout.symm.trans hsame
    obtain ⟨_, hsame, hjudged'⟩ := results_judged a.variant counts
    cases hout'.symm.trans hsame
    obtain ⟨hsome, hnone⟩ := ((List.forall₂_iff_zip.mp hjudged).2 hr).vsControl_eq hne hb
    obtain ⟨hsome', hnone'⟩ := ((List.forall₂_iff_zip.mp hjudged').2 hr').vsControl_eq hne.symm ha
    by_cases hcomparable : Comparable a b
    · rw [hsome hcomparable, hsome' (comparable_comm.mp hcomparable), compared_comm]
      rfl
    · rw [hnone hcomparable, hnone' fun h => hcomparable (comparable_comm.mp h)]
      rfl
  · intro comparison hshown
    obtain ⟨c, k, rfl⟩ := hshown.exists_compared
    exact ⟨pValueOf_pos _, pValueOf_le_one _⟩
  · intro comparison comparison' hshown hshown' hz
    obtain ⟨c, k, rfl⟩ := hshown.exists_compared
    obtain ⟨c', k', rfl⟩ := hshown'.exists_compared
    have hfall := pValueOf_antitone hz
    refine ⟨hfall, ?_⟩
    intro hsignificant
    exact decide_eq_true (hfall.trans_lt (of_decide_eq_true hsignificant))

/-- Ten in a hundred against fifteen in a hundred. -/
def trial : List VariantCounts :=
  [⟨"off", 1000, 100⟩, ⟨"on", 1000, 150⟩]

/-- The two variants are compared, and the p-value is one. -/
theorem two_proportion_test_trial :
    ∃ (out : List (VariantResult ℝ)) (comparison : Comparison ℝ), results "off" trial = some out ∧
      (∃ r ∈ out, r.vsControl = some comparison) ∧ 0 < comparison.pValue ∧
        comparison.pValue ≤ 1 := by
  obtain ⟨hresults, _, hvalues, _⟩ := two_proportion_test
  obtain ⟨out, hout, hjudged⟩ := hresults "off" trial
  cases hjudged with
  | cons _ hrest =>
      cases hrest with
      | @cons _ r _ _ hon _ =>
          have hcomparable : Comparable ⟨"on", 1000, 150⟩ ⟨"off", 1000, 100⟩ := by
            refine ⟨?_, ?_, ?_, ?_⟩ <;> decide
          have hsome := (hon.isSome_iff (by decide)).mpr ⟨_, rfl, hcomparable⟩
          obtain ⟨comparison, hcomparison⟩ := Option.isSome_iff_exists.mp hsome
          have hshown : Shown comparison := ⟨"off", trial, _, hout, r,
            List.mem_cons_of_mem _ List.mem_cons_self, hcomparison⟩
          exact ⟨_, comparison, hout, ⟨r, List.mem_cons_of_mem _ List.mem_cons_self, hcomparison⟩,
            hvalues comparison hshown⟩

end FlagForge.Experiment
