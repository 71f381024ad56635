/-
Module: FlagForge.Storage.Ingest
Layer: Storage
Purpose: A batch of increments from the program's side: the times of the program are not those that
  the database stores, so two cells of a batch may be one row. What the loops, the arrays, the join and
  the upsert make of the batch.
Imports: FlagForge.Lib.Counters, FlagForge.Lib.Grouping, FlagForge.Storage.Counters
Trusted boundary: `DurationRound::duration_trunc` of the chrono crate and the encoding of a time as
  `TIMESTAMPTZ` are given
Main exports: Clock, Delta, collapse, ingestCounters, names, sent, expected, Apart, Holds,
  holds_of_collapse, upsertCounters_spec
-/
import FlagForge.Lib.Counters
import FlagForge.Lib.Grouping
import FlagForge.Storage.Counters

namespace FlagForge.Storage

open Sql (SqlError)

namespace CounterKind

def asStr : CounterKind → String
  | .exposure => "exposure"
  | .conversion => "conversion"

/-- `CHECK (kind IN ('exposure', 'conversion'))` -/
def ofStr (text : String) : Option CounterKind :=
  if text = "exposure" then some .exposure
  else if text = "conversion" then some .conversion
  else none

@[simp] theorem ofStr_asStr (kind : CounterKind) : ofStr kind.asStr = some kind := by
  cases kind <;> decide

end CounterKind

namespace Ingest

/-! ### The source -/

/-- The time of the program, as other crates treat it. -/
structure Clock (Time : Type) where
  /-- `at.duration_trunc(TimeDelta::hours(1))` -/
  trunc : Time → Option Time
  /-- What a `TIMESTAMPTZ` keeps. -/
  stored : Time → Timestamp

/-- One increment of a batch. -/
structure Delta (Time : Type) where
  experimentKey : String
  variant : String
  kind : CounterKind
  happened : Time
  count : Nat

structure Cell (Time : Type) where
  experimentKey : String
  variant : String
  kind : CounterKind
  hour : Time
deriving DecidableEq

variable {Time : Type}

/-- `*cells.entry(cell).or_default() += count` -/
def perCell : Gather (Cell Time × Nat) (Cell Time) (Cell Time × Nat) where
  key := Prod.fst
  name := Prod.fst
  fresh cell := (cell, 0)
  add e r := (e.1, e.2 + r.2)
  name_fresh _ := rfl
  name_add _ _ := rfl

variable (clock : Clock Time)

/-- The loop over the deltas. -/
def collapse [DecidableEq Time] : List (Delta Time) → List (Cell Time × Nat) → Option (List (Cell Time × Nat))
  | [], cells => some cells
  | delta :: deltas, cells =>
      match clock.trunc delta.happened with
      | none => none
      | some hour =>
          collapse deltas (perCell.bySearch cells
            (⟨delta.experimentKey, delta.variant, delta.kind, hour⟩, delta.count))

/-- The order in which a hash map is iterated over. -/
structure Iteration (α : Type) where
  order : List α → List α
  perm : ∀ entries, (order entries).Perm entries

/-- The five arrays of the statement. -/
structure Columns where
  keys : List String
  variants : List String
  kinds : List String
  hours : List Timestamp
  counts : List Nat

/-- The loop over the cells. -/
def Columns.push (columns : Columns) (e : Cell Time × Nat) : Columns where
  keys := columns.keys ++ [e.1.experimentKey]
  variants := columns.variants ++ [e.1.variant]
  kinds := columns.kinds ++ [e.1.kind.asStr]
  hours := columns.hours ++ [clock.stored e.1.hour]
  counts := columns.counts ++ [e.2]

def columnsOf (cells : List (Cell Time × Nat)) : Columns :=
  cells.foldl (Columns.push clock) ⟨[], [], [], [], []⟩

/-- `UNNEST(…) AS d(experiment_key, variant, kind, hour, count)` -/
def Columns.unnest (columns : Columns) : List (String × String × String × Timestamp × Nat) :=
  columns.keys.zip (columns.variants.zip (columns.kinds.zip (columns.hours.zip columns.counts)))

def readRow : String × String × String × Timestamp × Nat → Option (Counting.DeltaCell × Nat)
  | (key, variant, kind, hour, count) =>
      (CounterKind.ofStr kind).map fun kind => (⟨key, variant, kind, hour⟩, count)

/-- A `TEXT` holds no NUL. -/
def storable (text : String) : Bool :=
  text.toList.all (· ≠ Char.ofNat 0)

/-- `INSERT … SELECT … JOIN … ON CONFLICT … DO UPDATE`. That a row is proposed twice is an error. -/
def insertRows (environmentId : Uuid) (cells : List (Counting.DeltaCell × Nat)) (m : Measured) :
    Except SqlError (Nat × Measured) :=
  if (cells.flatMap (Counting.joined environmentId m.db)).Pairwise fun a b => a.sameCell b = false then
    Counting.ingestCells environmentId cells m
  else .error .other

def insert (environmentId : Uuid) (columns : Columns) (m : Measured) :
    Except SqlError (Nat × Measured) :=
  if columns.keys.all storable && columns.variants.all storable then
    match columns.unnest.mapM readRow with
    | some cells => insertRows environmentId cells m
    | none => .error .other
  else .error .other

/-- Applies a batch of counter increments, and returns how many cells it wrote. The sums of a batch
    are those of an `i64` as long as they are in its range. -/
def ingestCounters [DecidableEq Time] (iteration : Iteration (Cell Time × Nat)) (environmentId : Uuid)
    (deltas : List (Delta Time)) (m : Measured) : Except StorageError Nat × Measured :=
  match collapse clock deltas [] with
  | none => (.error (.invalid "counter timestamp"), m)
  | some cells =>
      match insert environmentId (columnsOf clock (iteration.order cells)) m with
      | .ok (written, m') => (.ok written, m')
      | .error _ => (.error .database, m)

/-! ### What was sent -/

/-- The primary key. -/
structure CounterKey where
  experimentId : Uuid
  variant : String
  kind : CounterKind
  hour : Timestamp
deriving DecidableEq

def keyOf (row : CounterRow) : CounterKey :=
  ⟨row.experimentId, row.variant, row.kind, row.hour⟩

/-- The count of a cell, if it has a row. -/
def lookup (key : CounterKey) (counters : List CounterRow) : Option Nat :=
  (counters.find? (keyOf · = key)).map CounterRow.count

variable (environmentId : Uuid) (db : Db)

/-- Whether the experiment of that key is running. -/
def measures (experimentKey : String) (x : ExperimentRow) : Bool :=
  x.isFor environmentId experimentKey && x.state = .running

/-- Whether the increment is for the cell. -/
def names (key : CounterKey) (delta : Delta Time) : Bool :=
  (db.experiments.any fun x =>
      measures environmentId delta.experimentKey x && x.id = key.experimentId) &&
    delta.variant = key.variant && delta.kind = key.kind &&
      (clock.trunc delta.happened).map clock.stored = some key.hour

/-- The sum of the counts of the increments for a cell. -/
def sent (key : CounterKey) (deltas : List (Delta Time)) : Nat :=
  ((deltas.filter (names clock environmentId db key)).map Delta.count).sum

/-- What the cell is to have after the batch. -/
def expected (deltas : List (Delta Time)) (counters : List CounterRow) (key : CounterKey) :
    Option Nat :=
  if deltas.any (names clock environmentId db key) then
    some ((lookup key counters).getD 0 + sent clock environmentId db key deltas)
  else lookup key counters

/-! ### Collapsing -/

section Collapse

variable [DecidableEq Time] {clock} {deltas : List (Delta Time)} {cells : List (Cell Time × Nat)}

/-- The entry that a delta is added to, with what is added. -/
def increment (clock : Clock Time) (delta : Delta Time) : Option (Cell Time × Nat) :=
  (clock.trunc delta.happened).map fun hour =>
    (⟨delta.experimentKey, delta.variant, delta.kind, hour⟩, delta.count)

theorem collapse_some (h : ∀ d ∈ deltas, (clock.trunc d.happened).isSome = true) :
    collapse clock deltas cells =
      some ((deltas.filterMap (increment clock)).foldl perCell.bySearch cells) := by
  induction deltas generalizing cells with
  | nil => rfl
  | cons delta deltas ih =>
      obtain ⟨hour, hhour⟩ := Option.isSome_iff_exists.mp (h delta List.mem_cons_self)
      simp only [collapse, hhour]
      rw [ih fun d hd => h d (List.mem_cons_of_mem _ hd), List.filterMap_cons_some, List.foldl_cons]
      rw [increment, hhour, Option.map_some]

theorem collapse_none (h : ∃ d ∈ deltas, clock.trunc d.happened = none) :
    collapse clock deltas cells = none := by
  induction deltas generalizing cells with
  | nil =>
      obtain ⟨d, hd, _⟩ := h
      cases hd
  | cons delta deltas ih =>
      rw [collapse]
      cases hhour : clock.trunc delta.happened with
      | none => rfl
      | some hour =>
          apply ih
          obtain ⟨d, hd, hnone⟩ := h
          rcases List.mem_cons.mp hd with rfl | hd
          · rw [hhour] at hnone
            cases hnone
          · exact ⟨d, hd, hnone⟩

/-- The cells of a batch, which its increments are gathered in. -/
theorem gathered_collapse (h : ∀ d ∈ deltas, (clock.trunc d.happened).isSome = true) :
    ∃ cells, collapse clock deltas [] = some cells ∧
      perCell.Gathered (deltas.filterMap (increment clock)) cells ∧
      cells = (deltas.filterMap (increment clock)).foldl perCell.bySearch [] :=
  ⟨_, collapse_some h, Gather.gathered_bySearch _, rfl⟩

/-- What counts of the increments counts of the cells. -/
theorem sum_collapse (p : Cell Time → Bool) (increments : List (Cell Time × Nat)) :
    ((increments.foldl perCell.bySearch []).map fun e => if p e.1 then e.2 else 0).sum =
      (increments.map fun e => if p e.1 then e.2 else 0).sum := by
  have hsum := @Gather.sum_foldl_bySearch _ _ _ _ perCell (fun e => if p e.1 then e.2 else 0)
    (fun e : Cell Time × Nat => if p e.1 then e.2 else 0) ?_ ?_ increments []
  · exact hsum.trans (Nat.zero_add _)
  · intro cell
    exact ite_self 0
  · rintro ⟨cell, n⟩ ⟨other, k⟩ hname
    cases hname
    change (if p cell then n + k else 0) = (if p cell then n else 0) + if p cell then k else 0
    by_cases hp : p cell = true <;> simp [hp]

end Collapse

/-! ### The arrays -/

section Arrays

variable {clock} {cells : List (Cell Time × Nat)}

/-- The row of the arrays that a cell becomes. -/
def stored (clock : Clock Time) (e : Cell Time × Nat) : Counting.DeltaCell × Nat :=
  (⟨e.1.experimentKey, e.1.variant, e.1.kind, clock.stored e.1.hour⟩, e.2)

theorem foldl_push (columns : Columns) : cells.foldl (Columns.push clock) columns =
    ⟨columns.keys ++ cells.map (·.1.experimentKey), columns.variants ++ cells.map (·.1.variant),
      columns.kinds ++ cells.map (·.1.kind.asStr),
      columns.hours ++ cells.map (clock.stored ·.1.hour), columns.counts ++ cells.map (·.2)⟩ := by
  induction cells generalizing columns with
  | nil => simp
  | cons e cells ih => simp [ih, Columns.push]

theorem columnsOf_eq : columnsOf clock cells =
    ⟨cells.map (·.1.experimentKey), cells.map (·.1.variant), cells.map (·.1.kind.asStr),
      cells.map (clock.stored ·.1.hour), cells.map (·.2)⟩ :=
  foldl_push _

/-- The arrays are zipped back to the cells they were made of. -/
theorem readRow_unnest :
    (columnsOf clock cells).unnest.mapM readRow = some (cells.map (stored clock)) := by
  rw [columnsOf_eq, Columns.unnest]
  induction cells with
  | nil => rfl
  | cons e cells ih =>
      simp only [List.map_cons, List.zip_cons_cons, List.mapM_cons, readRow]
      rw [ih]
      simp [stored]

end Arrays

/-! ### The rows -/

/-- The primary key and the unique index of the experiments. -/
structure Indexed (db : Db) : Prop where
  ids : (db.experiments.map ExperimentRow.id).Nodup
  keys : (db.experiments.map fun x => (x.environmentId, x.key)).Nodup

section Rows

variable {clock} {environmentId} {db} {cells : List (Cell Time × Nat)} {e e' : Cell Time × Nat}
  {key : CounterKey} {x : ExperimentRow}

theorem measures_iff {experimentKey : String} : measures environmentId experimentKey x = true ↔
    x.environmentId = environmentId ∧ x.key = experimentKey ∧ x.state = .running := by
  simp [measures, and_assoc]

/-- The row that a cell is for an experiment. -/
def target (clock : Clock Time) (cell : Cell Time) (x : ExperimentRow) : CounterKey :=
  ⟨x.id, cell.variant, cell.kind, clock.stored cell.hour⟩

/-- Whether the cell is added to the row of that key. -/
def hits (clock : Clock Time) (environmentId : Uuid) (db : Db) (key : CounterKey)
    (cell : Cell Time) : Bool :=
  db.experiments.any fun x =>
    measures environmentId cell.experimentKey x && target clock cell x = key

theorem hits_iff {cell : Cell Time} : hits clock environmentId db key cell = true ↔
    ∃ x ∈ db.experiments, measures environmentId cell.experimentKey x = true ∧
      target clock cell x = key := by
  simp [hits, List.any_eq_true]

/-- The rows that the join makes of a cell. -/
def proposed (clock : Clock Time) (environmentId : Uuid) (db : Db) (e : Cell Time × Nat) :
    List CounterRow :=
  Counting.joined environmentId db (stored clock e)

theorem proposed_eq : proposed clock environmentId db e =
    (db.experiments.filter (measures environmentId e.1.experimentKey)).map fun x =>
      ⟨x.id, e.1.variant, e.1.kind, clock.stored e.1.hour, e.2⟩ :=
  rfl

theorem mem_keys_proposed : key ∈ (proposed clock environmentId db e).map keyOf ↔
    hits clock environmentId db key e.1 = true := by
  rw [hits_iff, proposed_eq, List.map_map, List.mem_map]
  constructor
  · rintro ⟨x, hx, rfl⟩
    obtain ⟨hx, hmeasures⟩ := List.mem_filter.mp hx
    exact ⟨x, hx, hmeasures, rfl⟩
  · rintro ⟨x, hx, hmeasures, rfl⟩
    exact ⟨x, List.mem_filter.mpr ⟨hx, hmeasures⟩, rfl⟩

/-- At most one experiment runs under a key. -/
theorem proposed_cases (h : Indexed db) : proposed clock environmentId db e = [] ∨
    ∃ row, proposed clock environmentId db e = [row] ∧ row.count = e.2 := by
  rw [proposed_eq]
  have hnodup : ((db.experiments.filter (measures environmentId e.1.experimentKey)).map
      fun x => (x.environmentId, x.key)).Nodup :=
    h.keys.sublist (List.filter_sublist.map _)
  cases hfilter : db.experiments.filter (measures environmentId e.1.experimentKey) with
  | nil => exact .inl rfl
  | cons x rest =>
      cases rest with
      | nil => exact .inr ⟨_, rfl, rfl⟩
      | cons y rest =>
          have hall : ∀ z ∈ x :: y :: rest,
              (z.environmentId, z.key) = (environmentId, e.1.experimentKey) := by
            intro z hz
            rw [← hfilter] at hz
            have := measures_iff.mp (List.mem_filter.mp hz).2
            rw [this.1, this.2.1]
          rw [hfilter, List.map_cons, List.nodup_cons] at hnodup
          refine absurd ?_ hnodup.1
          rw [hall x List.mem_cons_self,
            ← hall y (List.mem_cons_of_mem _ List.mem_cons_self)]
          exact List.mem_map_of_mem (f := fun z : ExperimentRow => (z.environmentId, z.key)) List.mem_cons_self

/-- What a row adds. -/
def addition (row : CounterRow) : CounterKey × Nat :=
  (keyOf row, row.count)

/-- A cell adds its count to the row that it hits. -/
theorem tally_proposed (h : Indexed db) :
    Counters.tally key ((proposed clock environmentId db e).map addition) =
      if hits clock environmentId db key e.1 then e.2 else 0 := by
  have hiff := @mem_keys_proposed _ clock environmentId db e key
  by_cases hhits : hits clock environmentId db key e.1 = true
  · rw [if_pos hhits]
    rcases @proposed_cases _ clock environmentId db e h with hrows | ⟨row, hrows, hcount⟩
    · rw [hrows] at hiff
      cases hiff.mpr hhits
    · rw [hrows] at hiff ⊢
      have hkey : key = keyOf row := List.mem_singleton.mp (hiff.mpr hhits)
      simp [addition, hkey, hcount]
  · rw [if_neg hhits]
    apply Counters.tally_eq_zero
    intro a ha hkey
    obtain ⟨row, hrow, rfl⟩ := List.mem_map.mp ha
    exact hhits (hiff.mp (List.mem_map.mpr ⟨row, hrow, hkey⟩))

theorem tally_flatMap (h : Indexed db) :
    Counters.tally key ((cells.flatMap (proposed clock environmentId db)).map addition) =
      (cells.map fun e => if hits clock environmentId db key e.1 then e.2 else 0).sum := by
  induction cells with
  | nil => rfl
  | cons e cells ih =>
      rw [List.flatMap_cons, List.map_append, Counters.tally_append, ih, tally_proposed h, List.map_cons,
        List.sum_cons]

theorem mem_keys_flatMap : key ∈ (cells.flatMap (proposed clock environmentId db)).map keyOf ↔
    ∃ e ∈ cells, hits clock environmentId db key e.1 = true := by
  rw [List.map_flatMap, List.mem_flatMap]
  exact exists_congr fun e => and_congr_right fun _ => mem_keys_proposed

theorem sameCell_eq {a b : CounterRow} : a.sameCell b = decide (keyOf a = keyOf b) := by
  rw [Bool.eq_iff_iff, Counting.sameCell_iff, decide_eq_true_eq, keyOf, keyOf, CounterKey.mk.injEq]

/-- The condition of the statement. -/
theorem pairwise_sameCell {rows : List CounterRow} :
    (rows.Pairwise fun a b => a.sameCell b = false) ↔ (rows.map keyOf).Nodup := by
  simp only [List.Nodup, List.pairwise_map, sameCell_eq, decide_eq_false_iff_not, ne_eq]

/-- Two cells have a row in common. -/
def Clash (clock : Clock Time) (environmentId : Uuid) (db : Db) (c c' : Cell Time) : Prop :=
  ∃ key, hits clock environmentId db key c = true ∧ hits clock environmentId db key c' = true

theorem Clash.symm {c c' : Cell Time} (h : Clash clock environmentId db c c') :
    Clash clock environmentId db c' c := by
  obtain ⟨key, hc, hc'⟩ := h
  exact ⟨key, hc', hc⟩

theorem nodup_keys_proposed (h : Indexed db) :
    ((proposed clock environmentId db e).map keyOf).Nodup := by
  rcases @proposed_cases _ clock environmentId db e h with hrows | ⟨row, hrows, _⟩
  · rw [hrows]
    exact List.nodup_nil
  · rw [hrows]
    exact List.nodup_singleton _

/-- No row is proposed twice if no two cells have a row in common. -/
theorem nodup_proposed_iff (h : Indexed db) (hdistinct : (cells.map Prod.fst).Nodup) :
    ((cells.flatMap (proposed clock environmentId db)).map keyOf).Nodup ↔
      ∀ e ∈ cells, ∀ e' ∈ cells, Clash clock environmentId db e.1 e'.1 → e.1 = e'.1 := by
  induction cells with
  | nil => simp
  | cons e cells ih =>
      obtain ⟨hfirst, hrest⟩ := List.nodup_cons.mp hdistinct
      rw [List.flatMap_cons, List.map_append, List.nodup_append, ih hrest]
      constructor
      · rintro ⟨_, hcells, hdisjoint⟩
        -- the first cell has no row in common with a later one
        have hapart : ∀ e' ∈ cells, ¬Clash clock environmentId db e.1 e'.1 := by
          rintro e' he' ⟨key, hhits, hhits'⟩
          exact hdisjoint key (mem_keys_proposed.mpr hhits) key
            (mem_keys_flatMap.mpr ⟨e', he', hhits'⟩) rfl
        intro a ha b hb hclash
        rcases List.mem_cons.mp ha with rfl | ha' <;> rcases List.mem_cons.mp hb with rfl | hb'
        · rfl
        · exact absurd hclash (hapart b hb')
        · exact absurd hclash.symm (hapart a ha')
        · exact hcells a ha' b hb' hclash
      · intro hcells
        refine ⟨nodup_keys_proposed h, fun a ha b hb => hcells a (List.mem_cons_of_mem _ ha) b
          (List.mem_cons_of_mem _ hb), ?_⟩
        rintro key hkey key' hkey' rfl
        obtain ⟨e', he', hhits'⟩ := mem_keys_flatMap.mp hkey'
        have hsame := hcells e List.mem_cons_self e' (List.mem_cons_of_mem _ he')
          ⟨key, mem_keys_proposed.mp hkey, hhits'⟩
        exact hfirst (hsame ▸ List.mem_map_of_mem he')

end Rows

/-! ### The upsert -/

section Upsert

variable {key : CounterKey} {row : CounterRow} {rows counters counters' : List CounterRow}

theorem lookup_append (hnone : counters.find? (keyOf · = keyOf row) = none) :
    lookup key (counters ++ [row]) =
      if key = keyOf row then some row.count else lookup key counters := by
  rw [lookup, List.find?_append]
  by_cases hkey : key = keyOf row
  · rw [if_pos hkey, hkey, hnone]
    simp
  · rw [if_neg hkey, lookup]
    have hother : [row].find? (keyOf · = key) = none := by
      simpa using fun h : keyOf row = key => hkey h.symm
    rw [hother, Option.or_none]

theorem lookup_replace {old new : CounterRow} (hold : counters.find? (keyOf · = keyOf row) = some old)
    (hnew : keyOf new = keyOf row) :
    lookup key (Table.replace (keyOf · = keyOf row) new counters) =
      if key = keyOf row then some new.count else lookup key counters := by
  by_cases hkey : key = keyOf row
  · rw [if_pos hkey, hkey, lookup, Table.find?_replace hold (decide_eq_true hnew)]
    rfl
  · rw [if_neg hkey, lookup, Table.find?_replace_of_disjoint, lookup]
    · exact decide_eq_false fun h => hkey (h.symm.trans hnew)
    · intro r _ hr
      exact decide_eq_false fun h => hkey (h.symm.trans (of_decide_eq_true hr))

/-- A row is added to the cell of its key. -/
theorem upsertCounter_spec (h : (lookup (keyOf row) counters).getD 0 + row.count < 2 ^ 63) :
    ∃ counters', Counting.upsertCounter row counters = .ok counters' ∧
      ∀ key, lookup key counters' =
        if key = keyOf row then some ((lookup (keyOf row) counters).getD 0 + row.count)
        else lookup key counters := by
  have hcell : (fun r : CounterRow => r.sameCell row) = fun r => decide (keyOf r = keyOf row) :=
    funext fun r => sameCell_eq
  rw [Counting.upsertCounter, hcell]
  cases hfind : counters.find? (fun r => decide (keyOf r = keyOf row)) with
  | none =>
      have hnone : lookup (keyOf row) counters = none := by rw [lookup, hfind]; rfl
      rw [hnone, Option.getD_none, Nat.zero_add] at h ⊢
      exact ⟨_, if_pos h, fun key => lookup_append hfind⟩
  | some old =>
      have hsome : lookup (keyOf row) counters = some old.count := by rw [lookup, hfind]; rfl
      have hold : keyOf old = keyOf row := by simpa using List.find?_some hfind
      rw [hsome, Option.getD_some] at h ⊢
      exact ⟨_, if_pos h, fun key => lookup_replace hfind hold⟩

theorem tally_cons : Counters.tally key ((row :: rows).map addition) =
    (if key = keyOf row then row.count else 0) + Counters.tally key (rows.map addition) := by
  rw [List.map_cons, Counters.tally_cons]
  congr 1
  exact if_congr eq_comm rfl rfl

/-- The rows are added to the cells of their keys, with whatever repetitions. -/
theorem upsertCounters_spec
    (h : ∀ key, (lookup key counters).getD 0 + Counters.tally key (rows.map addition) < 2 ^ 63) :
    ∃ counters', Counting.upsertCounters rows counters = .ok counters' ∧
      ∀ key, lookup key counters' =
        if key ∈ rows.map keyOf then
          some ((lookup key counters).getD 0 + Counters.tally key (rows.map addition))
        else lookup key counters := by
  induction rows generalizing counters with
  | nil => exact ⟨counters, rfl, fun key => by simp⟩
  | cons row rows ih =>
      have hself := h (keyOf row)
      rw [tally_cons, if_pos rfl, ← Nat.add_assoc] at hself
      obtain ⟨mid, hmid, hlookup⟩ := @upsertCounter_spec row counters (by omega)
      have hrest : ∀ key, (lookup key mid).getD 0 + Counters.tally key (rows.map addition) < 2 ^ 63 := by
        intro key
        have hkey := h key
        rw [tally_cons, ← Nat.add_assoc] at hkey
        rw [hlookup]
        by_cases hsame : key = keyOf row
        · rw [if_pos hsame, Option.getD_some, hsame]
          exact hself
        · rw [if_neg hsame, Nat.add_zero] at hkey
          rw [if_neg hsame]
          exact hkey
      obtain ⟨counters', hcounters', hafter⟩ := ih hrest
      refine ⟨counters', ?_, ?_⟩
      · rw [Counting.upsertCounters, hmid]
        exact hcounters'
      · intro key
        rw [hafter, hlookup, tally_cons, ← Nat.add_assoc]
        by_cases hsame : key = keyOf row
        · -- the sum so far, and the rest of the rows of that key if there are any
          rw [if_pos hsame, if_pos hsame, Option.getD_some, hsame]
          have hfirst : keyOf row ∈ (row :: rows).map keyOf := List.mem_cons_self
          rw [if_pos hfirst]
          by_cases hmem : keyOf row ∈ rows.map keyOf
          · rw [if_pos hmem]
          · have hnone : Counters.tally (keyOf row) (rows.map addition) = 0 := by
              apply Counters.tally_eq_zero
              intro a ha heq
              obtain ⟨r, hr, rfl⟩ := List.mem_map.mp ha
              exact hmem (List.mem_map.mpr ⟨r, hr, heq⟩)
            rw [if_neg hmem, hnone, Nat.add_zero]
        · have hiff : key ∈ (row :: rows).map keyOf ↔ key ∈ rows.map keyOf := by
            rw [List.map_cons, List.mem_cons, or_iff_right hsame]
          simp only [if_neg hsame, hiff, Nat.add_zero]

end Upsert

/-! ### A batch -/

/-- Every time can be truncated to its hour. -/
def Truncates (clock : Clock Time) (deltas : List (Delta Time)) : Prop :=
  ∀ d ∈ deltas, (clock.trunc d.happened).isSome = true

/-- No cell goes beyond the range of an `i64`. -/
def InRange (clock : Clock Time) (environmentId : Uuid) (deltas : List (Delta Time)) (m : Measured) :
    Prop :=
  ∀ key, (lookup key m.counters).getD 0 + sent clock environmentId m.db key deltas < 2 ^ 63

/-- The database can store the texts of the batch. -/
def Storable (deltas : List (Delta Time)) : Prop :=
  ∀ d ∈ deltas, storable d.experimentKey = true ∧ storable d.variant = true

/-- Increments of one running experiment, variant and kind whose hours are stored alike are of the
    same hour for the program. -/
def Apart (clock : Clock Time) (environmentId : Uuid) (db : Db) (deltas : List (Delta Time)) : Prop :=
  ∀ d ∈ deltas, ∀ d' ∈ deltas, d.experimentKey = d'.experimentKey → d.variant = d'.variant →
    d.kind = d'.kind → (∃ x ∈ db.experiments, measures environmentId d.experimentKey x = true) →
      ∀ hour hour', clock.trunc d.happened = some hour → clock.trunc d'.happened = some hour' →
        clock.stored hour = clock.stored hour' → hour = hour'

section Batch

variable {clock} {environmentId} {db} {deltas : List (Delta Time)} {m : Measured} {key : CounterKey}
  {cells : List (Cell Time × Nat)} {delta : Delta Time}

theorem increment_of_some {hour : Time} (h : clock.trunc delta.happened = some hour) :
    increment clock delta =
      some (⟨delta.experimentKey, delta.variant, delta.kind, hour⟩, delta.count) := by
  rw [increment, h, Option.map_some]

theorem hits_increment {hour : Time} (h : clock.trunc delta.happened = some hour) :
    hits clock environmentId db key ⟨delta.experimentKey, delta.variant, delta.kind, hour⟩ =
      names clock environmentId db key delta := by
  obtain ⟨experimentId, variant, kind, stored⟩ := key
  rw [Bool.eq_iff_iff, hits_iff, names, h]
  simp only [target, CounterKey.mk.injEq, Bool.and_eq_true, List.any_eq_true, decide_eq_true_eq,
    Option.map_some, Option.some.injEq]
  constructor
  · rintro ⟨x, hx, hmeasures, hid, hvariant, hkind, hstored⟩
    exact ⟨⟨⟨⟨x, hx, hmeasures, hid⟩, hvariant⟩, hkind⟩, hstored⟩
  · rintro ⟨⟨⟨⟨x, hx, hmeasures, hid⟩, hvariant⟩, hkind⟩, hstored⟩
    exact ⟨x, hx, hmeasures, hid, hvariant, hkind, hstored⟩

/-- The increments that hit a row are those for its cell. -/
theorem sum_increments (h : Truncates clock deltas) :
    ((deltas.filterMap (increment clock)).map fun e =>
      if hits clock environmentId db key e.1 then e.2 else 0).sum =
        sent clock environmentId db key deltas := by
  induction deltas with
  | nil => rfl
  | cons delta deltas ih =>
      obtain ⟨hour, hhour⟩ := Option.isSome_iff_exists.mp (h delta List.mem_cons_self)
      rw [List.filterMap_cons_some (increment_of_some hhour), List.map_cons, List.sum_cons,
        ih fun d hd => h d (List.mem_cons_of_mem _ hd), hits_increment hhour, sent, sent,
        List.filter_cons]
      by_cases hnames : names clock environmentId db key delta = true <;> simp [hnames]

/-- The cells of a batch are those of its deltas. -/
theorem mem_increments {cell : Cell Time} :
    cell ∈ (deltas.filterMap (increment clock)).map Prod.fst ↔
      ∃ d ∈ deltas, ∃ hour, clock.trunc d.happened = some hour ∧
        cell = ⟨d.experimentKey, d.variant, d.kind, hour⟩ := by
  constructor
  · intro hcell
    obtain ⟨e, he, rfl⟩ := List.mem_map.mp hcell
    obtain ⟨d, hd, hincrement⟩ := List.mem_filterMap.mp he
    obtain ⟨hour, hhour, rfl⟩ := Option.map_eq_some_iff.mp hincrement
    exact ⟨d, hd, hour, hhour, rfl⟩
  · rintro ⟨d, hd, hour, hhour, rfl⟩
    exact List.mem_map.mpr ⟨_, List.mem_filterMap.mpr ⟨d, hd, increment_of_some hhour⟩, rfl⟩

/-- What a hash map of the batch holds, in any order: one entry for each cell of the deltas, and for
    every row as much as was sent for it. -/
structure Holds (clock : Clock Time) (deltas : List (Delta Time)) (cells : List (Cell Time × Nat)) :
    Prop where
  distinct : (cells.map Prod.fst).Nodup
  mem_iff : ∀ cell, cell ∈ cells.map Prod.fst ↔ ∃ d ∈ deltas, ∃ hour,
    clock.trunc d.happened = some hour ∧ cell = ⟨d.experimentKey, d.variant, d.kind, hour⟩
  sum : ∀ environmentId db key,
    (cells.map fun e => if hits clock environmentId db key e.1 then e.2 else 0).sum =
      sent clock environmentId db key deltas

theorem holds_of_collapse [DecidableEq Time] (h : Truncates clock deltas)
    (iteration : Iteration (Cell Time × Nat)) :
    ∃ cells, collapse clock deltas [] = some cells ∧ Holds clock deltas (iteration.order cells) := by
  obtain ⟨cells, hcells, hgathered, hfold⟩ := gathered_collapse h
  have hperm := iteration.perm cells
  refine ⟨cells, hcells, (hperm.map _).nodup_iff.mpr hgathered.once, ?_, ?_⟩
  · intro cell
    rw [(hperm.map _).mem_iff, ← mem_increments]
    exact hgathered.names cell
  · intro environmentId db key
    rw [(hperm.map _).sum_eq, hfold, sum_collapse fun cell => hits clock environmentId db key cell,
      sum_increments h]

/-- A row is proposed for a key if some delta is for it. -/
theorem Holds.mem_keys (h : Holds clock deltas cells) (htruncates : Truncates clock deltas) :
    key ∈ (cells.flatMap (proposed clock environmentId db)).map keyOf ↔
      deltas.any (names clock environmentId db key) = true := by
  rw [mem_keys_flatMap, List.any_eq_true]
  constructor
  · rintro ⟨e, he, hhits⟩
    obtain ⟨d, hd, hour, hhour, hcell⟩ := (h.mem_iff e.1).mp (List.mem_map_of_mem he)
    rw [hcell, hits_increment hhour] at hhits
    exact ⟨d, hd, hhits⟩
  · rintro ⟨d, hd, hnames⟩
    obtain ⟨hour, hhour⟩ := Option.isSome_iff_exists.mp (htruncates d hd)
    obtain ⟨e, he, hcell⟩ := List.mem_map.mp ((h.mem_iff _).mpr ⟨d, hd, hour, hhour, rfl⟩)
    refine ⟨e, he, ?_⟩
    rw [hcell, hits_increment hhour]
    exact hnames

/-- Two cells have a row in common if they are of one running experiment, variant and kind, and their
    hours are stored alike. -/
theorem clash_iff (h : Indexed db) {c c' : Cell Time} : Clash clock environmentId db c c' ↔
    c.experimentKey = c'.experimentKey ∧ c.variant = c'.variant ∧ c.kind = c'.kind ∧
      (∃ x ∈ db.experiments, measures environmentId c.experimentKey x = true) ∧
        clock.stored c.hour = clock.stored c'.hour := by
  constructor
  · rintro ⟨key, hhits, hhits'⟩
    obtain ⟨x, hx, hmeasures, rfl⟩ := hits_iff.mp hhits
    obtain ⟨y, hy, hmeasures', htarget⟩ := hits_iff.mp hhits'
    obtain ⟨hid, hvariant, hkind, hstored⟩ := CounterKey.mk.inj htarget
    have hsame : y = x := List.inj_on_of_nodup_map h.ids hy hx hid
    rw [hsame] at hmeasures'
    have hkey := (measures_iff.mp hmeasures).2.1.symm.trans (measures_iff.mp hmeasures').2.1
    exact ⟨hkey, hvariant.symm, hkind.symm, ⟨x, hx, hmeasures⟩, hstored.symm⟩
  · rintro ⟨hkey, hvariant, hkind, ⟨x, hx, hmeasures⟩, hstored⟩
    refine ⟨target clock c x, hits_iff.mpr ⟨x, hx, hmeasures, rfl⟩, hits_iff.mpr ⟨x, hx, ?_, ?_⟩⟩
    · rw [← hkey]
      exact hmeasures
    · rw [target, target, hvariant, hkind, hstored]

/-- No row is proposed twice if the hours of the batch are kept apart. -/
theorem Holds.nodup_iff (h : Holds clock deltas cells) (hindexed : Indexed db) :
    ((cells.flatMap (proposed clock environmentId db)).map keyOf).Nodup ↔
      Apart clock environmentId db deltas := by
  rw [nodup_proposed_iff hindexed h.distinct]
  constructor
  · intro hcells d hd d' hd' hkey hvariant hkind hrunning hour hour' hhour hhour' hstored
    obtain ⟨e, he, hcell⟩ := List.mem_map.mp ((h.mem_iff _).mpr ⟨d, hd, hour, hhour, rfl⟩)
    obtain ⟨e', he', hcell'⟩ := List.mem_map.mp ((h.mem_iff _).mpr ⟨d', hd', hour', hhour', rfl⟩)
    have hsame := hcells e he e' he'
    rw [hcell, hcell', clash_iff hindexed] at hsame
    exact congrArg Cell.hour (hsame ⟨hkey, hvariant, hkind, hrunning, hstored⟩)
  · intro hapart e he e' he' hclash
    obtain ⟨d, hd, hour, hhour, hcell⟩ := (h.mem_iff e.1).mp (List.mem_map_of_mem he)
    obtain ⟨d', hd', hour', hhour', hcell'⟩ := (h.mem_iff e'.1).mp (List.mem_map_of_mem he')
    rw [hcell, hcell', clash_iff hindexed] at hclash
    obtain ⟨hkey, hvariant, hkind, hrunning, hstored⟩ := hclash
    have hsame := hapart d hd d' hd' hkey hvariant hkind hrunning hour hour' hhour hhour' hstored
    rw [hcell, hcell', Cell.mk.injEq]
    exact ⟨hkey, hvariant, hkind, hsame⟩

end Batch

end Ingest

end FlagForge.Storage
