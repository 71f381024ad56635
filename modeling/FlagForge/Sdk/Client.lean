/-
Module: FlagForge.Sdk.Client
Layer: Sdk
Purpose: What a client does with the snapshot it holds. Evaluating and tracking go through the running
  experiments and make record calls, which are listed here in the order in which they are made.
Imports: FlagForge.Core.Snapshot
Trusted boundary: none
Main exports: EventKind, Cell, evaluate, track, evaluate_records, track_records
-/
import FlagForge.Core.Snapshot

namespace FlagForge.Sdk

open Engine (Evaluation)

inductive EventKind where
  | exposure
  | conversion
deriving DecidableEq

/-- One counter cell's identity. -/
structure Cell where
  experimentKey : String
  variant : String
  kind : EventKind
deriving DecidableEq

section Calls

variable {Time : Type} (crates : Crates)

/-- The loop of `evaluate`: a decision under a running experiment is an exposure. -/
def exposures (flag variant : String) : List ExperimentSpec → List Cell
  | [] => []
  | experiment :: rest =>
      if experiment.flagKey = flag then
        ⟨experiment.key, variant, .exposure⟩ :: exposures flag variant rest
      else exposures flag variant rest

/-- The decision, and the record calls it makes. Without a snapshot there is no flag. -/
def evaluate (current : Option (EnvironmentSnapshot Time)) (flag : String) (context : EvaluationContext)
    (fallback : VariantValue) : Evaluation × List Cell :=
  match current with
  | some snapshot =>
      let evaluation := snapshot.evaluate crates flag context fallback
      (evaluation, evaluation.variant.elim [] fun variant =>
        exposures flag variant snapshot.experiments)
  | none => (.notFound flag fallback, [])

/-- What attributes a conversion: the flag of the experiment, evaluated for the context. -/
def attributed (snapshot : EnvironmentSnapshot Time) (context : EvaluationContext)
    (experiment : ExperimentSpec) : Option String :=
  (snapshot.evaluate crates experiment.flagKey context .null).variant

/-- The loop of `track`, over the experiments that are left. -/
def conversions (snapshot : EnvironmentSnapshot Time) (metric : String)
    (context : EvaluationContext) : List ExperimentSpec → List Cell
  | [] => []
  | experiment :: rest =>
      if experiment.metricKey ≠ metric then conversions snapshot metric context rest
      else
        match attributed crates snapshot context experiment with
        | some variant =>
            ⟨experiment.key, variant, .conversion⟩ :: conversions snapshot metric context rest
        | none => conversions snapshot metric context rest

/-- How many experiments counted the event, and the record calls. -/
def track (current : Option (EnvironmentSnapshot Time)) (metric : String)
    (context : EvaluationContext) : Nat × List Cell :=
  match current with
  | some snapshot =>
      let records := conversions crates snapshot metric context snapshot.experiments
      (records.length, records)
  | none => (0, [])

end Calls

section Records

variable {Time : Type} {crates : Crates}

theorem exposures_eq (flag variant : String) (experiments : List ExperimentSpec) :
    exposures flag variant experiments =
      (experiments.filter (·.flagKey = flag)).map fun x => ⟨x.key, variant, .exposure⟩ := by
  induction experiments with
  | nil => rfl
  | cons experiment rest ih =>
      by_cases hflag : experiment.flagKey = flag
      · rw [exposures, if_pos hflag, List.filter_cons_of_pos (by simpa using hflag), List.map_cons, ih]
      · rw [exposures, if_neg hflag, List.filter_cons_of_neg (by simpa using hflag), ih]

/-- One exposure for every running experiment on the flag, if a variant was resolved. -/
theorem evaluate_records {snapshot : EnvironmentSnapshot Time} {flag : String}
    {context : EvaluationContext} {fallback : VariantValue} :
    (evaluate crates (some snapshot) flag context fallback).2 =
      (evaluate crates (some snapshot) flag context fallback).1.variant.elim [] fun variant =>
        (snapshot.experiments.filter (·.flagKey = flag)).map fun x =>
          ⟨x.key, variant, .exposure⟩ := by
  simp only [evaluate, exposures_eq]

theorem conversions_eq {snapshot : EnvironmentSnapshot Time} {metric : String}
    {context : EvaluationContext} (experiments : List ExperimentSpec) :
    conversions crates snapshot metric context experiments =
      (experiments.filter (·.metricKey = metric)).filterMap fun x =>
        (attributed crates snapshot context x).map fun variant =>
          ⟨x.key, variant, .conversion⟩ := by
  induction experiments with
  | nil => rfl
  | cons experiment rest ih =>
      by_cases hmetric : experiment.metricKey = metric
      · rw [conversions, if_neg (not_not_intro hmetric),
          List.filter_cons_of_pos (by simpa using hmetric), List.filterMap_cons, ih]
        cases attributed crates snapshot context experiment with
        | none => rfl
        | some variant => rfl
      · rw [conversions, if_pos hmetric, List.filter_cons_of_neg (by simpa using hmetric), ih]

/-- One conversion for every running experiment that measures the metric and whose flag serves a
    variant to the context, and that variant. -/
theorem track_records {snapshot : EnvironmentSnapshot Time} {metric : String}
    {context : EvaluationContext} :
    (track crates (some snapshot) metric context).2 =
      (snapshot.experiments.filter (·.metricKey = metric)).filterMap fun x =>
        (attributed crates snapshot context x).map fun variant =>
          ⟨x.key, variant, .conversion⟩ :=
  conversions_eq snapshot.experiments

end Records

end FlagForge.Sdk
