/-
Module: FlagForge.Api.Results
Layer: Api
Purpose: The results of an experiment: every variant of its flag in the flag's order, then every other
  variant that was counted, with the sums of the stored counters, beside the hourly series of the last
  week in the same order.
Imports: FlagForge.Api.Handlers, FlagForge.Core.Significance, FlagForge.Storage.Tallies,
  Mathlib.Data.String.Basic
Trusted boundary: none
Main exports: ExperimentResults, inFlagOrder, seriesInFlagOrder, results, Faithful, results_view_exact
-/
import FlagForge.Api.Handlers
import FlagForge.Core.Significance
import FlagForge.Storage.Tallies
import Mathlib.Data.String.Basic

namespace FlagForge.Api.Results

open Grouping (arrange sortByName)
open Storage
open Storage.Sql (SqlError)

/-! ### The source -/

/-- A week, in microseconds. -/
def seriesWindow : Timestamp := 7 * 24 * 60 * 60 * 1000000

/-- An experiment next to its judged results, one entry per variant. -/
structure ExperimentResults (F : Type) where
  experiment : Storage.Experiment
  /-- In the flag's variant order, with zeroes for arms nobody has reached. -/
  results : List (VariantResult F)
  /-- Hourly tallies over the trailing week. Hours nobody recorded are absent, not zero. -/
  series : List VariantSeries

/-- The keys of the flag's variants. -/
def variantKeys (experiment : Storage.Experiment) : List String :=
  experiment.variants.map Variant.key

/-- Orders counts by the flag's variant list, zero-filling arms that have no counters yet and
    appending any variant of the counters that the flag no longer defines. -/
def inFlagOrder (experiment : Storage.Experiment) (counts : List VariantCounts) :
    List VariantCounts :=
  arrange VariantCounts.variant (fun key => [⟨key, 0, 0⟩]) (sortByName VariantCounts.variant)
    (variantKeys experiment) counts

/-- Arms without any point in the window are absent rather than zero-filled. -/
def seriesInFlagOrder (experiment : Storage.Experiment) (series : List VariantSeries) :
    List VariantSeries :=
  arrange VariantSeries.variant (fun _ => []) (sortByName VariantSeries.variant)
    (variantKeys experiment) series

/-- What is shown of an experiment that was found, given the answers to the two queries. There is no
    view where the arithmetic of the judgement is undefined. -/
def results {F : Type} [Arithmetic F] (experiment : Storage.Experiment)
    (totals : Except SqlError (List TotalRow)) (hours : Except SqlError (List HourRow)) :
    Except ApiError (Option (ExperimentResults F)) := do
  let counts ← (experimentCounts totals).mapError ApiError.ofStorage
  let series ← (hourlyCounts hours).mapError ApiError.ofStorage
  pure do
    let judged ←
      FlagForge.Experiment.results experiment.controlVariant (inFlagOrder experiment counts)
    pure { experiment, results := judged, series := seriesInFlagOrder experiment series }

/-! ### What is shown -/

/-- The view loses, invents and misorders nothing. -/
structure Faithful {F : Type} (experiment : Storage.Experiment) (rows windowed : List CounterRow)
    (view : ExperimentResults F) : Prop where
  experiment_eq : view.experiment = experiment
  order : ∃ others : List String,
    view.results.map VariantResult.variant = variantKeys experiment ++ others ∧
      others.Pairwise (· < ·) ∧
      ∀ v, v ∈ others ↔ v ∈ rows.map CounterRow.variant ∧ v ∉ variantKeys experiment
  once : (view.results.map VariantResult.variant).Nodup
  counted : ∀ r ∈ view.results,
    r.exposures = tallyOf .exposure (rows.filter (·.variant = r.variant)) ∧
      r.conversions = tallyOf .conversion (rows.filter (·.variant = r.variant))
  series : SeriesOf windowed view.series
  sameOrder : (view.series.map VariantSeries.variant).Sublist
    (view.results.map VariantResult.variant)

/-- A result repeats the counts it is judged by. -/
def Repeats {F : Type} (c : VariantCounts) (r : VariantResult F) : Prop :=
  r.variant = c.variant ∧ r.exposures = c.exposures ∧ r.conversions = c.conversions

section

variable {F : Type} [Arithmetic F] {experiment : Storage.Experiment} {rows windowed : List CounterRow}
  {counts : List VariantCounts} {series : List VariantSeries}

/-- What is shown of a variant repeats its counts. -/
theorem result_repeats {controlVariant : String} {control : Option (F × F)} {c : VariantCounts}
    {r : VariantResult F} (h : FlagForge.Experiment.result controlVariant control c = some r) :
    Repeats c r := by
  obtain ⟨_, _, h⟩ := Option.bind_eq_some_iff.mp h
  obtain ⟨_, _, h⟩ := Option.bind_eq_some_iff.mp h
  cases h
  exact ⟨rfl, rfl, rfl⟩

/-- In any arithmetic the results are of the counts, one for each in their order. -/
theorem results_repeat {controlVariant : String} {out : List (VariantResult F)}
    (h : FlagForge.Experiment.results controlVariant counts = some out) :
    List.Forall₂ Repeats counts out := by
  rw [FlagForge.Experiment.results] at h
  generalize (FlagForge.Experiment.controlOf controlVariant counts : Option (F × F)) = control at h
  induction counts generalizing out with
  | nil =>
      cases h
      exact .nil
  | cons c counts ih =>
      rw [List.mapM_cons] at h
      obtain ⟨r, hr, h⟩ := Option.bind_eq_some_iff.mp h
      obtain ⟨rest, hrest, h⟩ := Option.bind_eq_some_iff.mp h
      cases h
      exact .cons (result_repeats hr) (ih hrest)

omit [Arithmetic F] in
/-- So the variants are those of the counts, in their order. -/
theorem variants_of_repeats {out : List (VariantResult F)} (h : List.Forall₂ Repeats counts out) :
    out.map VariantResult.variant = counts.map VariantCounts.variant := by
  induction h with
  | nil => rfl
  | cons hc _ ih => rw [List.map_cons, List.map_cons, ih, hc.1]

omit [Arithmetic F] in
/-- And each count is shown. -/
theorem exists_of_repeats {out : List (VariantResult F)} (h : List.Forall₂ Repeats counts out)
    {r : VariantResult F} (hr : r ∈ out) : ∃ c ∈ counts, Repeats c r := by
  induction h with
  | nil => cases hr
  | cons hc _ ih =>
      rcases List.mem_cons.mp hr with rfl | hr
      · exact ⟨_, List.mem_cons_self, hc⟩
      · obtain ⟨c, hmem, hrepeats⟩ := ih hr
        exact ⟨c, List.mem_cons_of_mem _ hmem, hrepeats⟩

/-! ### The order -/

/-- The names of the counts in flag order. -/
theorem names_inFlagOrder (hkeys : (variantKeys experiment).Nodup) (h : TotalsOf rows counts) :
    ∃ others : List String, (inFlagOrder experiment counts).map VariantCounts.variant =
        variantKeys experiment ++ others ∧ others.Pairwise (· < ·) ∧
      ∀ v, v ∈ others ↔ v ∈ rows.map CounterRow.variant ∧ v ∉ variantKeys experiment := by
  obtain ⟨others, hnames, hascending, hmem⟩ :=
    @Grouping.names_arrange _ _ _ VariantCounts.variant (fun key => [⟨key, 0, 0⟩]) counts _ hkeys h.once
  have hasked : (variantKeys experiment).flatMap (fun k =>
      if k ∈ counts.map VariantCounts.variant then [k]
      else ([⟨k, 0, 0⟩] : List VariantCounts).map VariantCounts.variant) =
        variantKeys experiment := by
    simp
  refine ⟨others, ?_, hascending, fun v => ?_⟩
  · rw [inFlagOrder, hnames, hasked]
  · rw [hmem, h.variants]

/-- A variant without counters is shown with zeroes, which is what was counted of it. -/
theorem counted_inFlagOrder (hkeys : (variantKeys experiment).Nodup) (h : TotalsOf rows counts)
    {c : VariantCounts} (hc : c ∈ inFlagOrder experiment counts) (kind : CounterKind) :
    countOf c kind = tallyOf kind (rows.filter (·.variant = c.variant)) := by
  rcases Grouping.mem_arrange hkeys h.once Grouping.sortByName_perm hc with hc | ⟨k, _, hnone, hc⟩
  · exact h.value c hc kind
  · cases List.mem_singleton.mp hc
    have hempty : rows.filter (·.variant = k) = [] := by
      rw [List.filter_eq_nil_iff]
      intro row hrow hvariant
      exact hnone ((h.variants k).mpr (List.mem_map.mpr ⟨row, hrow, of_decide_eq_true hvariant⟩))
    rw [hempty]
    cases kind <;> rfl

/-- The names of the series in flag order. -/
theorem names_seriesInFlagOrder (hkeys : (variantKeys experiment).Nodup)
    (h : SeriesOf windowed series) :
    ∃ others : List String, (seriesInFlagOrder experiment series).map VariantSeries.variant =
        (variantKeys experiment).filter (· ∈ windowed.map CounterRow.variant) ++ others ∧
      others.Pairwise (· < ·) ∧
      ∀ v, v ∈ others ↔ v ∈ windowed.map CounterRow.variant ∧ v ∉ variantKeys experiment := by
  obtain ⟨others, hnames, hascending, hmem⟩ :=
    @Grouping.names_arrange _ _ _ VariantSeries.variant (fun _ => []) series _ hkeys h.once
  have hasked : ∀ keys : List String, keys.flatMap (fun k =>
      if k ∈ series.map VariantSeries.variant then [k]
      else ([] : List VariantSeries).map VariantSeries.variant) =
        keys.filter (· ∈ windowed.map CounterRow.variant) := by
    intro keys
    induction keys with
    | nil => rfl
    | cons k keys ih =>
        rw [List.flatMap_cons, List.filter_cons, ih]
        by_cases hk : k ∈ windowed.map CounterRow.variant
        · rw [if_pos ((h.variants k).mpr hk), if_pos (decide_eq_true hk)]
          rfl
        · rw [if_neg fun hmem => hk ((h.variants k).mp hmem), if_neg (by simpa using hk)]
          rfl
  refine ⟨others, ?_, hascending, fun v => ?_⟩
  · rw [seriesInFlagOrder, hnames, hasked]
  · rw [hmem, h.variants]

/-- The series are those of the window in any order. -/
theorem series_inFlagOrder (hkeys : (variantKeys experiment).Nodup) (h : SeriesOf windowed series)
    (honce : ((seriesInFlagOrder experiment series).map VariantSeries.variant).Nodup) :
    SeriesOf windowed (seriesInFlagOrder experiment series) := by
  obtain ⟨others, hnames, _, hmem⟩ := names_seriesInFlagOrder hkeys h
  refine ⟨honce, fun v => ?_, fun s hs => ?_⟩
  · rw [hnames, List.mem_append, hmem, List.mem_filter, decide_eq_true_eq]
    by_cases hv : v ∈ variantKeys experiment <;> simp [hv]
  · rcases Grouping.mem_arrange hkeys h.once Grouping.sortByName_perm hs with hs | ⟨_, _, _, hs⟩
    · exact h.points s hs
    · cases hs

/-- What ascends is part of whatever ascends and has all of it. -/
theorem sublist_of_ascending {xs ys : List String} (hxs : xs.Pairwise (· < ·))
    (hys : ys.Pairwise (· < ·)) (hsub : xs ⊆ ys) : xs.Sublist ys := by
  have hnodup : xs.Nodup := hxs.imp fun h => ne_of_lt h
  exact List.sublist_of_subperm_of_pairwise (List.subperm_of_subset hnodup hsub)
    (hxs.imp le_of_lt) (hys.imp le_of_lt)

/-- The judged counts and the series in flag order are a faithful view. -/
theorem faithful_of_results (hkeys : (variantKeys experiment).Nodup) (hcounts : TotalsOf rows counts)
    (hseries : SeriesOf windowed series) (hwindow : ∀ row ∈ windowed, row ∈ rows)
    {judged : List (VariantResult F)} (hjudged : FlagForge.Experiment.results
      experiment.controlVariant (inFlagOrder experiment counts) = some judged) :
    Faithful experiment rows windowed
      ⟨experiment, judged, seriesInFlagOrder experiment series⟩ := by
  have hrepeats := results_repeat hjudged
  have hvariants := variants_of_repeats hrepeats
  obtain ⟨others, hnames, hascending, hmem⟩ := names_inFlagOrder hkeys hcounts
  obtain ⟨others', hnames', hascending', hmem'⟩ := names_seriesInFlagOrder hkeys hseries
  have honce : (judged.map VariantResult.variant).Nodup := by
    rw [hvariants, hnames, List.nodup_append]
    refine ⟨hkeys, hascending.imp fun h => ne_of_lt h, ?_⟩
    rintro k hk v hv rfl
    exact ((hmem k).mp hv).2 hk
  have hsame : ((seriesInFlagOrder experiment series).map VariantSeries.variant).Sublist
      (judged.map VariantResult.variant) := by
    rw [hnames', hvariants, hnames]
    refine List.filter_sublist.append (sublist_of_ascending hascending' hascending ?_)
    intro v hv
    obtain ⟨hcounted, hnot⟩ := (hmem' v).mp hv
    obtain ⟨row, hrow, rfl⟩ := List.mem_map.mp hcounted
    exact (hmem _).mpr ⟨List.mem_map_of_mem (hwindow row hrow), hnot⟩
  refine ⟨rfl, ⟨others, hvariants.trans hnames, hascending, hmem⟩, honce, ?_, ?_, hsame⟩
  · intro r hr
    obtain ⟨c, hc, hvariant, hexposures, hconversions⟩ := exists_of_repeats hrepeats hr
    rw [hvariant, hexposures, hconversions]
    exact ⟨counted_inFlagOrder hkeys hcounts hc .exposure,
      counted_inFlagOrder hkeys hcounts hc .conversion⟩
  · exact series_inFlagOrder hkeys hseries (honce.sublist hsame)

/-- For every content of the counters and every order of rows that the database leaves open there is
    a view over the reals, and over any arithmetic a view is faithful to the counters. -/
theorem results_view_exact (le : String → String → Prop) (hrefl : ∀ a, le a a)
    (hanti : ∀ a b, le a b → le b a → a = b) (experiment : Storage.Experiment)
    (hkeys : (variantKeys experiment).Nodup) (counters : List CounterRow)
    (hsums : ∀ v kind,
      tallyOf kind ((rowsOf experiment.id counters).filter (·.variant = v)) < 2 ^ 63)
    (now : Timestamp) (totals : Except SqlError (List TotalRow))
    (hours : Except SqlError (List HourRow))
    (htotals : SelectsTotals le experiment.id counters totals)
    (hhours : SelectsHours le experiment.id (now - seriesWindow) counters hours) :
    (∃ view : ExperimentResults ℝ, results experiment totals hours = .ok (some view)) ∧
      ∀ (F : Type) [Arithmetic F], ∃ shown : Option (ExperimentResults F),
        results experiment totals hours = .ok shown ∧
        ∀ view, shown = some view → Faithful experiment (rowsOf experiment.id counters)
          (rowsSince experiment.id (now - seriesWindow) counters) view := by
  obtain ⟨counts, hcounts, hcounted⟩ := experimentCounts_spec htotals hsums
  obtain ⟨series, hseries, hpoints⟩ := hourlyCounts_spec hrefl hanti hhours
  have hwindow : ∀ row ∈ rowsSince experiment.id (now - seriesWindow) counters,
      row ∈ rowsOf experiment.id counters := fun row hrow => (List.mem_filter.mp hrow).1
  have hresults : ∀ (F : Type) [Arithmetic F], (results experiment totals hours :
      Except ApiError (Option (ExperimentResults F))) =
        .ok ((FlagForge.Experiment.results experiment.controlVariant
          (inFlagOrder experiment counts)).map fun judged =>
            ⟨experiment, judged, seriesInFlagOrder experiment series⟩) := by
    intro F _
    rw [results, hcounts, hseries]
    change Except.ok (Option.bind _ _) = _
    rw [Option.map_eq_bind]
    rfl
  constructor
  · obtain ⟨judged, hjudged, _⟩ := FlagForge.Experiment.results_judged experiment.controlVariant
      (inFlagOrder experiment counts)
    exact ⟨_, by rw [hresults, hjudged]; rfl⟩
  · intro F _
    refine ⟨_, hresults F, fun view hview => ?_⟩
    obtain ⟨judged, hjudged, rfl⟩ := Option.map_eq_some_iff.mp hview
    exact faithful_of_results hkeys hcounted hpoints hwindow hjudged

end

namespace Renamed

/-- The variant `new` was called `old` when it was first counted. -/
def checkout : Storage.Experiment where
  id := ⟨5⟩
  environmentId := ⟨2⟩
  flagId := ⟨3⟩
  key := "trial"
  name := "Trial"
  description := none
  metricKey := "sales"
  controlVariant := "on"
  state := .running
  startedAt := some 0
  stoppedAt := none
  version := 2
  createdAt := 0
  updatedAt := 0
  flagKey := "checkout"
  variants := [⟨"on", .bool true⟩, ⟨"new", .bool false⟩]

def counters : List CounterRow :=
  [⟨⟨5⟩, "old", .conversion, 0, 2⟩, ⟨⟨5⟩, "on", .exposure, 0, 3⟩, ⟨⟨5⟩, "on", .exposure, 3600, 4⟩]

end Renamed

/-- What was counted under the old name is shown too. -/
theorem results_view_exact_renamed :
    (∃ view : ExperimentResults ℝ, results Renamed.checkout
      (.ok [⟨"old", .conversion, 2⟩, ⟨"on", .exposure, 7⟩])
      (.ok (Renamed.counters.map HourRow.of)) = .ok (some view)) ∧
      ∀ (F : Type) [Arithmetic F], ∃ shown : Option (ExperimentResults F),
        results Renamed.checkout (.ok [⟨"old", .conversion, 2⟩, ⟨"on", .exposure, 7⟩])
          (.ok (Renamed.counters.map HourRow.of)) = .ok shown ∧
        ∀ view, shown = some view → Faithful Renamed.checkout (rowsOf ⟨5⟩ Renamed.counters)
          (rowsSince ⟨5⟩ (3600 - seriesWindow) Renamed.counters) view := by
  apply results_view_exact (· ≤ ·) le_refl (fun _ _ => le_antisymm) Renamed.checkout
    (by decide) Renamed.counters _ 3600
  · exact ⟨_, Gather.gathered_bySearch _, by decide +kernel, by rfl⟩
  · exact ⟨_, by decide +kernel, by decide +kernel, rfl⟩
  · intro v kind
    exact tallyOf_filter_le.trans_lt (by decide +kernel)

end FlagForge.Api.Results
