/-
Module: FlagForge.Core.Experiment
Layer: Core
Purpose: The judgement of an experiment's counts: conversion rates with their intervals, and the
  two-proportion test of every variant against the control. Pure, from counts to conclusions, in the
  arithmetic of the caller.
Imports: FlagForge.Lib.Arithmetic
Trusted boundary: none
Main exports: VariantCounts, VariantResult, Experiment.results, Experiment.twoProportionZ
-/
import FlagForge.Lib.Arithmetic

namespace FlagForge

/-- Raw tallies for one variant, as stored. -/
structure VariantCounts where
  variant : String
  exposures : Nat
  conversions : Nat
deriving DecidableEq

/-- A 95 % Wilson score interval around a conversion rate. -/
structure ConfidenceInterval (F : Type) where
  low : F
  high : F

/-- A variant measured against the control. -/
structure Comparison (F : Type) where
  /-- Absolute difference in conversion rate, variant minus control. -/
  lift : F
  /-- Two-proportion z statistic, pooled variance. -/
  z : F
  /-- Two-sided p-value for "the rates are equal". -/
  pValue : F
  /-- Whether `pValue` clears the level. -/
  significant : Bool

/-- Everything the dashboard shows about one variant. -/
structure VariantResult (F : Type) where
  variant : String
  exposures : Nat
  conversions : Nat
  /-- Absent until the variant has an exposure. -/
  rate : Option F
  interval : Option (ConfidenceInterval F)
  /-- Absent for the control itself and while either side has no exposures. -/
  vsControl : Option (Comparison F)

namespace Experiment

open Arithmetic

variable {F : Type} [Arithmetic F]

/-- The significance threshold, as the conventional two-sided 95 %. -/
def alpha : F := 0.05

/-- z-score for a two-sided 95 % interval. -/
def z95 : F := 1.959963984540054

/-- The constant of that name in the standard library. -/
def sqrt2 : F := 1.41421356237309504880168872420969807856967187537694

/-- Clamped (conversions, exposures), or `none` without exposures. -/
def observed (c : VariantCounts) : Option (F × F) :=
  if c.exposures > 0 then
    some (ofCount (min c.conversions c.exposures), ofCount c.exposures)
  else none

/-- Wilson score interval for `rate` observed over `n` trials. -/
def wilson (rate n : F) : Option (ConfidenceInterval F) := do
  let z2 := z95 * z95
  let denominator := 1.0 + (← div z2 n)
  let center ← div (rate + (← div z2 (2.0 * n))) denominator
  let halfWidth := (← div z95 denominator) *
    (← sqrt ((← div (rate * (1.0 - rate)) n) + (← div z2 (4.0 * n * n))))
  let low ← clamp (center - halfWidth) 0.0 rate
  let high ← clamp (center + halfWidth) rate 1.0
  pure { low, high }

/-- Error function, by a polynomial of the fifth degree times a Gaussian. -/
def erf (x : F) : Option F := do
  let sign : F := if lt x 0.0 then -1.0 else 1.0
  let x := abs x
  let t ← div 1.0 (1.0 + 0.3275911 * x)
  let polynomial := t * (0.254829592 + t * (-0.284496736 + t * (1.421413741 +
    t * (-1.453152027 + t * 1.061405429))))
  pure (sign * (1.0 - polynomial * exp (-x * x)))

/-- Standard normal distribution function. -/
def phi (x : F) : Option F := do
  let e ← erf (← div x sqrt2)
  pure (0.5 * (1.0 + e))

/-- Pooled two-proportion z-test of `(x, n)` against the control's `(x, n)`. There is no comparison
    where the standard error is zero. -/
def twoProportionZ (own control : F × F) : Option (Option (Comparison F)) := do
  let (x1, n1) := own
  let (x2, n2) := control
  let pooled ← div (x1 + x2) (n1 + n2)
  let variance := pooled * (1.0 - pooled) * ((← div 1.0 n1) + (← div 1.0 n2))
  if le variance 0.0 then pure none
  else
    let lift := (← div x1 n1) - (← div x2 n2)
    let z ← div lift (← sqrt variance)
    let pValue := 2.0 * (1.0 - (← phi (abs z)))
    pure (some { lift, z, pValue, significant := lt pValue alpha })

/-- Comparing the control to itself would report certainty about nothing. -/
def vsControl (controlVariant : String) (control : Option (F × F)) (c : VariantCounts) :
    Option (Option (Comparison F)) :=
  if c.variant = controlVariant then some none
  else
    match observed c, control with
    | some own, some control => twoProportionZ own control
    | _, _ => some none

/-- What is shown of the rate, if there is one. -/
def estimate (own : Option (F × F)) : Option (Option F × Option (ConfidenceInterval F)) :=
  match own with
  | none => some (none, none)
  | some (x, n) => do
      let rate ← div x n
      let interval ← wilson rate n
      pure (some rate, some interval)

def result (controlVariant : String) (control : Option (F × F)) (c : VariantCounts) :
    Option (VariantResult F) := do
  let comparison ← vsControl controlVariant control c
  let (rate, interval) ← estimate (observed c)
  pure { variant := c.variant, exposures := c.exposures, conversions := c.conversions, rate
         interval, vsControl := comparison }

/-- The counts of the control, once it has an exposure. -/
def controlOf (controlVariant : String) (counts : List VariantCounts) : Option (F × F) :=
  (counts.find? (·.variant = controlVariant)).bind observed

/-- Judges every variant's counts against the control's. -/
def results (controlVariant : String) (counts : List VariantCounts) :
    Option (List (VariantResult F)) :=
  counts.mapM (result controlVariant (controlOf controlVariant counts))

end Experiment

end FlagForge
