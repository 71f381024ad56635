/-
Module: FlagForge.Storage.Tallies
Layer: Storage
Purpose: The two reads of an experiment's counters: the totals of each variant, and its hourly tallies.
  The loops over the answers gather every row of the counters once, in whatever order the database
  leaves open.
Imports: FlagForge.Core.Experiment, FlagForge.Lib.Grouping, FlagForge.Storage.Counters
Trusted boundary: the collation of text is given
Main exports: SelectsTotals, SelectsHours, experimentCounts, hourlyCounts, TotalsOf, SeriesOf,
  experimentCounts_spec, hourlyCounts_spec
-/
import FlagForge.Core.Experiment
import FlagForge.Lib.Grouping
import FlagForge.Storage.Counters

namespace FlagForge.Storage

open Sql (SqlError)

/-- An experiment with what is joined from its flag. -/
structure Experiment extends ExperimentRow where
  flagKey : String
  variants : List Variant

/-- One hour of one variant. -/
structure SeriesPoint where
  hour : Timestamp
  exposures : Nat
  conversions : Nat
deriving DecidableEq

structure VariantSeries where
  variant : String
  points : List SeriesPoint
deriving DecidableEq

/-! ### The queries -/

/-- A row of the first query. -/
structure TotalRow where
  variant : String
  kind : CounterKind
  total : Int
deriving DecidableEq

/-- A row of the second. -/
structure HourRow where
  variant : String
  kind : CounterKind
  hour : Timestamp
  count : Int
deriving DecidableEq

/-- `WHERE experiment_id = $1` -/
def rowsOf (experimentId : Uuid) (counters : List CounterRow) : List CounterRow :=
  counters.filter (·.experimentId = experimentId)

/-- `AND hour >= $2` -/
def rowsSince (experimentId : Uuid) (since : Timestamp) (counters : List CounterRow) :
    List CounterRow :=
  (rowsOf experimentId counters).filter (since ≤ ·.hour)

/-- `GROUP BY variant, kind`, with the sum of the counts -/
def totalled : Gather CounterRow (String × CounterKind) TotalRow where
  key row := (row.variant, row.kind)
  name total := (total.variant, total.kind)
  fresh k := ⟨k.1, k.2, 0⟩
  add total row := { total with total := total.total + row.count }
  name_fresh _ := rfl
  name_add _ _ := rfl

def HourRow.of (row : CounterRow) : HourRow :=
  ⟨row.variant, row.kind, row.hour, row.count⟩

/-- What the database may answer to the first query: a row for each variant and kind, those of a
    variant in either order. A sum that is no `BIGINT` is an error. -/
def SelectsTotals (le : String → String → Prop) (experimentId : Uuid) (counters : List CounterRow)
    (answer : Except SqlError (List TotalRow)) : Prop :=
  ∃ rows, totalled.Gathered (rowsOf experimentId counters) rows ∧
    rows.Pairwise (fun a b => le a.variant b.variant) ∧
    answer = if ∀ row ∈ rows, row.total < 2 ^ 63 then .ok rows else .error .other

/-- What it may answer to the second: the rows of the window by variant and hour, those of an hour in
    either order. -/
def SelectsHours (le : String → String → Prop) (experimentId : Uuid) (since : Timestamp)
    (counters : List CounterRow) (answer : Except SqlError (List HourRow)) : Prop :=
  ∃ rows, rows.Perm ((rowsSince experimentId since counters).map HourRow.of) ∧
    rows.Pairwise (fun a b => le a.variant b.variant ∧ (le b.variant a.variant → a.hour ≤ b.hour)) ∧
    answer = .ok rows

/-! ### The loops -/

/-- `match row.kind { "exposure" => entry.exposures = total, _ => entry.conversions = total }`, where
    `total` is `u64::try_from(row.total).unwrap_or(0)` -/
def setTotal (entry : VariantCounts) (row : TotalRow) : VariantCounts :=
  match row.kind with
  | .exposure => { entry with exposures := row.total.toNat }
  | .conversion => { entry with conversions := row.total.toNat }

def byVariant : Gather TotalRow String VariantCounts where
  key := TotalRow.variant
  name := VariantCounts.variant
  fresh variant := ⟨variant, 0, 0⟩
  add := setTotal
  name_fresh _ := rfl
  name_add entry row := by cases h : row.kind <;> simp [setTotal, h]

/-- The entry of a row is searched for. -/
def countsOf (rows : List TotalRow) : List VariantCounts :=
  rows.foldl byVariant.bySearch []

def addCount (point : SeriesPoint) (row : HourRow) : SeriesPoint :=
  match row.kind with
  | .exposure => { point with exposures := point.exposures + row.count.toNat }
  | .conversion => { point with conversions := point.conversions + row.count.toNat }

def byHour : Gather HourRow Timestamp SeriesPoint where
  key := HourRow.hour
  name := SeriesPoint.hour
  fresh hour := ⟨hour, 0, 0⟩
  add := addCount
  name_fresh _ := rfl
  name_add point row := by cases h : row.kind <;> simp [addCount, h]

def bySeries : Gather HourRow String VariantSeries where
  key := HourRow.variant
  name := VariantSeries.variant
  fresh variant := ⟨variant, []⟩
  add series row := { series with points := byHour.onLast series.points row }
  name_fresh _ := rfl
  name_add _ _ := rfl

/-- The rows come by variant and hour: only the last series and its last point are looked at. -/
def seriesOf (rows : List HourRow) : List VariantSeries :=
  rows.foldl bySeries.onLast []

/-- Total exposures and conversions per variant, summed across every hour. -/
def experimentCounts (answer : Except SqlError (List TotalRow)) :
    Except StorageError (List VariantCounts) :=
  (answer.mapError fun _ => .database).map countsOf

/-- Hourly tallies per variant, oldest hour first. -/
def hourlyCounts (answer : Except SqlError (List HourRow)) :
    Except StorageError (List VariantSeries) :=
  (answer.mapError fun _ => .database).map seriesOf

/-! ### What is counted -/

/-- The sum of the rows of a kind. -/
def tallyOf (kind : CounterKind) (rows : List CounterRow) : Nat :=
  ((rows.filter (·.kind = kind)).map CounterRow.count).sum

def countOf (entry : VariantCounts) : CounterKind → Nat
  | .exposure => entry.exposures
  | .conversion => entry.conversions

def SeriesPoint.countOf (point : SeriesPoint) : CounterKind → Nat
  | .exposure => point.exposures
  | .conversion => point.conversions

def VariantSeries.countOf (series : VariantSeries) (kind : CounterKind) : Nat :=
  (series.points.map (·.countOf kind)).sum

/-- The counts are those of the rows: an entry for each variant that has a row, with the sums of its
    rows. -/
structure TotalsOf (rows : List CounterRow) (counts : List VariantCounts) : Prop where
  once : (counts.map VariantCounts.variant).Nodup
  variants : ∀ v, v ∈ counts.map VariantCounts.variant ↔ v ∈ rows.map CounterRow.variant
  value : ∀ c ∈ counts, ∀ kind, countOf c kind = tallyOf kind (rows.filter (·.variant = c.variant))

/-- The points are those of the rows: one for each hour that has a row, the hours ascending, with the
    sums of their rows. -/
structure PointsOf (rows : List CounterRow) (points : List SeriesPoint) : Prop where
  ascending : (points.map SeriesPoint.hour).Pairwise (· < ·)
  hours : ∀ h, h ∈ points.map SeriesPoint.hour ↔ h ∈ rows.map CounterRow.hour
  value : ∀ p ∈ points, ∀ kind, p.countOf kind = tallyOf kind (rows.filter (·.hour = p.hour))
  total : ∀ kind, (points.map (·.countOf kind)).sum = tallyOf kind rows

/-- The series are those of the rows. -/
structure SeriesOf (rows : List CounterRow) (series : List VariantSeries) : Prop where
  once : (series.map VariantSeries.variant).Nodup
  variants : ∀ v, v ∈ series.map VariantSeries.variant ↔ v ∈ rows.map CounterRow.variant
  points : ∀ s ∈ series, PointsOf (rows.filter (·.variant = s.variant)) s.points

/-! ### Sums over the answers -/

section Sum

variable {kind : CounterKind} {rows : List CounterRow}

/-- Rows of other kinds count nothing. -/
theorem tallyOf_eq : tallyOf kind rows =
    (rows.map fun row => if row.kind = kind then row.count else 0).sum := by
  induction rows with
  | nil => rfl
  | cons row rows ih =>
      rw [List.map_cons, List.sum_cons, ← ih, tallyOf, tallyOf]
      by_cases hkind : row.kind = kind <;> simp [hkind]

/-- A part of the rows counts no more than all of them. -/
theorem tallyOf_filter_le {p : CounterRow → Bool} :
    tallyOf kind (rows.filter p) ≤ (rows.map CounterRow.count).sum := by
  rw [tallyOf, List.filter_filter]
  exact (List.filter_sublist.map CounterRow.count).sum_le_sum fun _ _ => Nat.zero_le _

/-- The rows of a variant and kind that are one group. -/
theorem filter_key {v : String} : rows.filter (totalled.key · = (v, kind)) =
    (rows.filter (·.variant = v)).filter (·.kind = kind) := by
  rw [List.filter_filter]
  apply List.filter_congr
  intro row _
  simp [totalled, Bool.and_comm]

/-- A total is the sum of its counts. -/
theorem total_foldl (total : TotalRow) :
    (rows.foldl totalled.add total).total = total.total + ((rows.map CounterRow.count).sum : Nat) := by
  induction rows generalizing total with
  | nil => simp
  | cons row rows ih =>
      rw [List.foldl_cons, ih, List.map_cons, List.sum_cons, Nat.cast_add, ← Int.add_assoc]
      rfl

/-- The total of a group is the sum of its rows. -/
theorem total_entry {v : String} :
    (totalled.entry rows (v, kind)).total = tallyOf kind (rows.filter (·.variant = v)) := by
  rw [Gather.entry, total_foldl, filter_key, tallyOf]
  exact Int.zero_add _

end Sum

/-! ### The totals -/

section Totals

variable {kind : CounterKind} {rows : List CounterRow} {answer : List TotalRow} {x : Nat}

/-- An entry keeps what the last row of a kind has set. -/
theorem countOf_foldl {entry : VariantCounts}
    (h : ∀ row ∈ answer, row.kind = kind → row.total.toNat = x) :
    countOf (answer.foldl setTotal entry) kind =
      if answer.any (·.kind = kind) then x else countOf entry kind := by
  induction answer generalizing entry with
  | nil => rfl
  | cons row answer ih =>
      rw [List.foldl_cons, ih fun row hrow => h row (List.mem_cons_of_mem _ hrow), List.any_cons]
      by_cases hany : answer.any (·.kind = kind) = true
      · simp [hany]
      · have hset : countOf (setTotal entry row) kind =
            if row.kind = kind then row.total.toNat else countOf entry kind := by
          cases hrow : row.kind <;> cases kind <;> simp [setTotal, hrow, countOf]
        rw [if_neg hany, hset]
        by_cases hkind : row.kind = kind
        · simp [hkind, h row List.mem_cons_self hkind]
        · simp [hkind, hany]

/-- A group has the sum of its rows. -/
theorem total_of_gathered (h : totalled.Gathered rows answer) {total : TotalRow}
    (htotal : total ∈ answer) : total.total =
      tallyOf total.kind (rows.filter (·.variant = total.variant)) := by
  have hvalue := congrArg TotalRow.total (h.value total htotal)
  exact hvalue.trans total_entry

/-- The variants of the answer are those of the rows. -/
theorem mem_variants (h : totalled.Gathered rows answer) (v : String) :
    v ∈ answer.map TotalRow.variant ↔ v ∈ rows.map CounterRow.variant := by
  constructor
  · intro hv
    obtain ⟨total, htotal, rfl⟩ := List.mem_map.mp hv
    obtain ⟨row, hrow, hkey⟩ := List.mem_map.mp ((h.names _).mp (List.mem_map_of_mem htotal))
    exact List.mem_map.mpr ⟨row, hrow, congrArg Prod.fst hkey⟩
  · intro hv
    obtain ⟨row, hrow, rfl⟩ := List.mem_map.mp hv
    obtain ⟨total, htotal, hname⟩ := List.mem_map.mp ((h.names _).mpr (List.mem_map_of_mem hrow))
    exact List.mem_map.mpr ⟨total, htotal, congrArg Prod.fst hname⟩

/-- Nothing is counted of a variant and kind without a group. -/
theorem tallyOf_of_no_group (h : totalled.Gathered rows answer) {v : String}
    (hnone : ∀ total ∈ answer, total.variant = v → total.kind ≠ kind) :
    tallyOf kind (rows.filter (·.variant = v)) = 0 := by
  have hkey : (v, kind) ∉ rows.map totalled.key := by
    intro hmem
    obtain ⟨total, htotal, hname⟩ := List.mem_map.mp ((h.names _).mpr hmem)
    exact hnone total htotal (congrArg Prod.fst hname) (congrArg Prod.snd hname)
  have hentry := congrArg TotalRow.total (Gather.entry_of_not_mem hkey)
  rw [total_entry] at hentry
  exact Int.ofNat_eq_zero.mp hentry

/-- The loop by search, over the groups in any order. -/
theorem totalsOf_countsOf (h : totalled.Gathered rows answer) : TotalsOf rows (countsOf answer) := by
  have hgathered := @Gather.gathered_bySearch _ _ _ _ byVariant answer
  refine ⟨hgathered.once, fun v => (hgathered.names v).trans (mem_variants h v), ?_⟩
  intro c hc kind
  have hvalue := congrArg (countOf · kind) (hgathered.value c hc)
  have hgroups : ∀ row ∈ answer.filter (·.variant = c.variant), row.kind = kind →
      row.total.toNat = tallyOf kind (rows.filter (·.variant = c.variant)) := by
    intro row hrow hkind
    obtain ⟨hrow, hvariant⟩ := List.mem_filter.mp hrow
    rw [total_of_gathered h hrow, hkind, of_decide_eq_true hvariant, Int.toNat_natCast]
  refine hvalue.trans ((countOf_foldl hgroups).trans ?_)
  split
  · rfl
  · rename_i hnone
    have hzero : tallyOf kind (rows.filter (·.variant = c.variant)) = 0 := by
      apply tallyOf_of_no_group h
      intro total htotal hvariant hkind
      refine hnone (List.any_eq_true.mpr ⟨total, ?_, decide_eq_true hkind⟩)
      exact List.mem_filter.mpr ⟨htotal, decide_eq_true hvariant⟩
    rw [hzero]
    cases kind <;> rfl

end Totals

/-! ### The hours -/

section Hours

variable {kind : CounterKind} {rows : List CounterRow} {answer : List HourRow}
  {le : String → String → Prop}

/-- What a row of the answer adds. -/
def HourRow.weight (kind : CounterKind) (row : HourRow) : Nat :=
  if row.kind = kind then row.count.toNat else 0

/-- An hourly count is added to its point. -/
theorem countOf_addCount (point : SeriesPoint) (row : HourRow) :
    (byHour.add point row).countOf kind = point.countOf kind + row.weight kind := by
  change (addCount point row).countOf kind = _
  cases hrow : row.kind <;> cases kind <;>
    simp [addCount, hrow, SeriesPoint.countOf, HourRow.weight]

/-- The rows of the answer add up to those of the table. -/
theorem sum_weight (h : answer.Perm (rows.map HourRow.of)) :
    (answer.map (HourRow.weight kind)).sum = tallyOf kind rows := by
  rw [(h.map _).sum_eq, List.map_map, tallyOf_eq]
  rfl

theorem perm_filter {p : HourRow → Bool} (h : answer.Perm (rows.map HourRow.of)) :
    (answer.filter p).Perm ((rows.filter (p ∘ HourRow.of)).map HourRow.of) := by
  rw [← List.filter_map]
  exact h.filter p

/-- The loop over the rows of a variant. -/
theorem pointsOf_foldl (h : answer.Perm (rows.map HourRow.of))
    (hsorted : answer.Pairwise fun a b => a.hour ≤ b.hour) :
    PointsOf rows (answer.foldl byHour.onLast []) := by
  obtain ⟨hgathered, hnames⟩ := @Gather.gathered_onLast _ _ _ _ byHour answer (· ≤ ·)
    (fun _ _ => Int.le_antisymm) (List.pairwise_map.mpr hsorted)
  refine ⟨?_, ?_, ?_, ?_⟩
  · exact (hnames.and hgathered.once).imp fun h => lt_of_le_of_ne h.1 h.2
  · intro hour
    refine (hgathered.names hour).trans ?_
    rw [(h.map byHour.key).mem_iff, List.map_map]
    rfl
  · intro p hp kind
    have hvalue := congrArg (SeriesPoint.countOf · kind) (hgathered.value p hp)
    refine hvalue.trans ?_
    rw [Gather.entry]
    have hsum := @Gather.measure_foldl _ _ _ byHour (SeriesPoint.countOf · kind)
      (HourRow.weight kind) countOf_addCount (answer.filter (byHour.key · = byHour.name p))
      (byHour.fresh (byHour.name p))
    refine hsum.trans ?_
    rw [sum_weight (perm_filter h)]
    cases kind <;> exact Nat.zero_add _
  · intro kind
    have hsum := @Gather.sum_foldl_onLast _ _ _ _ byHour (SeriesPoint.countOf · kind)
      (HourRow.weight kind) (by cases kind <;> exact fun _ => rfl)
      (fun point row _ => countOf_addCount point row) answer []
    rw [hsum, sum_weight h]
    exact Nat.zero_add _

/-- Adding rows to a series adds them to its points. -/
theorem points_foldl (series : VariantSeries) :
    (answer.foldl bySeries.add series).points = answer.foldl byHour.onLast series.points := by
  induction answer generalizing series with
  | nil => rfl
  | cons row answer ih => exact ih _

/-- The loop over the rows in the order of variant and hour. -/
theorem seriesOf_spec (hrefl : ∀ a, le a a) (hanti : ∀ a b, le a b → le b a → a = b)
    (h : answer.Perm (rows.map HourRow.of))
    (hsorted : answer.Pairwise fun a b =>
      le a.variant b.variant ∧ (le b.variant a.variant → a.hour ≤ b.hour)) :
    SeriesOf rows (seriesOf answer) := by
  obtain ⟨hgathered, _⟩ := @Gather.gathered_onLast _ _ _ _ bySeries answer le hanti
    (List.pairwise_map.mpr (hsorted.imp And.left))
  refine ⟨hgathered.once, ?_, ?_⟩
  · intro v
    refine (hgathered.names v).trans ?_
    rw [(h.map bySeries.key).mem_iff, List.map_map]
    rfl
  · intro s hs
    have hpoints := congrArg VariantSeries.points (hgathered.value s hs)
    rw [Gather.entry, points_foldl] at hpoints
    rw [hpoints]
    refine pointsOf_foldl (@perm_filter rows answer (fun row => decide (row.variant = s.variant)) h) ?_
    refine (hsorted.filter _).imp_of_mem ?_
    intro a b ha hb hab
    have hvariant : b.variant = a.variant :=
      (of_decide_eq_true (List.mem_filter.mp hb).2).trans
        (of_decide_eq_true (List.mem_filter.mp ha).2).symm
    exact hab.2 (hvariant ▸ hrefl _)

end Hours

/-! ### The reads -/

section Read

variable {le : String → String → Prop} {experimentId : Uuid} {counters : List CounterRow}

/-- Whatever the database may answer to the first query is gathered to the totals of the rows. -/
theorem experimentCounts_spec {answer : Except SqlError (List TotalRow)}
    (h : SelectsTotals le experimentId counters answer)
    (hsums : ∀ v kind,
      tallyOf kind ((rowsOf experimentId counters).filter (·.variant = v)) < 2 ^ 63) :
    ∃ counts, experimentCounts answer = .ok counts ∧
      TotalsOf (rowsOf experimentId counters) counts := by
  obtain ⟨rows, hgathered, _, rfl⟩ := h
  have hfits : ∀ row ∈ rows, row.total < 2 ^ 63 := by
    intro row hrow
    rw [total_of_gathered hgathered hrow]
    exact_mod_cast hsums row.variant row.kind
  rw [if_pos hfits]
  exact ⟨_, rfl, totalsOf_countsOf hgathered⟩

/-- Whatever it may answer to the second is gathered to the series of the rows in the window. -/
theorem hourlyCounts_spec {since : Timestamp} {answer : Except SqlError (List HourRow)}
    (hrefl : ∀ a, le a a) (hanti : ∀ a b, le a b → le b a → a = b)
    (h : SelectsHours le experimentId since counters answer) :
    ∃ series, hourlyCounts answer = .ok series ∧
      SeriesOf (rowsSince experimentId since counters) series := by
  obtain ⟨rows, hperm, hsorted, rfl⟩ := h
  exact ⟨_, rfl, seriesOf_spec hrefl hanti hperm hsorted⟩

end Read

end FlagForge.Storage
