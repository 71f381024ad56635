/-
Module: FlagForge.Storage.Arms
Layer: Storage
Purpose: What the arms of an experiment have counted over all hours. A batch adds to an arm of a running
  experiment what its increments name, however they fall into hours and rows, and no other statement
  changes it as long as the experiment is there.
Imports: FlagForge.Storage.Tallies, FlagForge.Storage.Ingest, FlagForge.Storage.Lifecycle,
  FlagForge.Storage.PrimaryKeys
Trusted boundary: as in FlagForge.Storage.Counters
Main exports: armTotal, RunsAs, CounterKeys, armTotal_ingest, indexed_exec
-/
import FlagForge.Storage.Tallies
import FlagForge.Storage.Ingest
import FlagForge.Storage.Lifecycle
import FlagForge.Storage.PrimaryKeys

namespace FlagForge.Storage

open Counters (tally)
open Ingest (Indexed keyOf sameCell_eq)
open Sql (Input)

/-- What one kind of counter shows of a variant, over all hours. -/
def armTotal (experimentId : Uuid) (variant : String) (kind : CounterKind)
    (counters : List CounterRow) : Nat :=
  tallyOf kind ((rowsOf experimentId counters).filter (·.variant = variant))

/-- The experiment runs in the environment, under the key. -/
def RunsAs (experimentId environmentId : Uuid) (key : String) (db : Db) : Prop :=
  ∃ x ∈ db.experiments, x.id = experimentId ∧ x.isFor environmentId key = true ∧ x.state = .running

instance (experimentId environmentId : Uuid) (key : String) (db : Db) :
    Decidable (RunsAs experimentId environmentId key db) :=
  inferInstanceAs (Decidable (∃ x ∈ db.experiments, _))

/-- The primary key of the counters. -/
def CounterKeys (counters : List CounterRow) : Prop :=
  (counters.map keyOf).Nodup

namespace Counting

/-- What a row adds to its arm. -/
def ofRow (row : CounterRow) : (Uuid × String × CounterKind) × Nat :=
  ((row.experimentId, row.variant, row.kind), row.count)

/-- What a cell of a batch adds to the arm it names. -/
def ofCell (e : DeltaCell × Nat) : (String × String × CounterKind) × Nat :=
  ((e.1.experimentKey, e.1.variant, e.1.kind), e.2)

def ofDelta (delta : CounterDelta) : (String × String × CounterKind) × Nat :=
  ((delta.experimentKey, delta.variant, delta.kind), delta.count)

end Counting

open Counting

variable {experimentId environmentId : Uuid} {key variant : String} {kind : CounterKind}
  {row : CounterRow} {rows counters counters' : List CounterRow} {db : Db} {m : Measured}

/-- An arm has what its rows add. -/
theorem armTotal_eq : armTotal experimentId variant kind counters =
    tally (experimentId, variant, kind) (counters.map ofRow) := by
  induction counters with
  | nil => rfl
  | cons row counters ih =>
      rw [List.map_cons, Counters.tally_cons, ← ih, armTotal, armTotal, tallyOf, tallyOf, rowsOf,
        rowsOf]
      by_cases hid : row.experimentId = experimentId
      · by_cases hvariant : row.variant = variant
        · by_cases hkind : row.kind = kind <;> simp [ofRow, hid, hvariant, hkind]
        · simp [ofRow, hid, hvariant]
      · simp [ofRow, hid]

/-! ### Upserts -/

/-- Adding to a counter leaves one counter for each cell. -/
theorem CounterKeys.upsert (h : CounterKeys counters) (hupsert : upsertCounter row counters = .ok counters') :
    CounterKeys counters' := by
  rcases upsertCounter_cases hupsert with ⟨old, hold, rfl⟩ | ⟨hnone, rfl⟩
  · have hfound := List.find?_some hold
    have hcell := Counting.sameCell_iff.mp hfound
    rw [CounterKeys, Table.map_replace]
    · exact h
    · intro c _ hc
      have hsame := Counting.sameCell_iff.mp hc
      simp only [keyOf, hsame.1, hsame.2.1, hsame.2.2.1, hsame.2.2.2, hcell.1, hcell.2.1,
        hcell.2.2.1, hcell.2.2.2]
  · rw [CounterKeys, List.map_append, List.nodup_append]
    refine ⟨h, List.nodup_singleton _, ?_⟩
    intro a ha b hb heq
    obtain ⟨c, hc, rfl⟩ := List.mem_map.mp ha
    rw [List.map_singleton, List.mem_singleton] at hb
    apply List.find?_eq_none.mp hnone c hc
    rw [sameCell_eq, decide_eq_true_eq, heq, hb]

/-- The one row of the cell has more by what is added to it. -/
theorem tally_replace {old : CounterRow} {arm : Uuid × String × CounterKind} (h : CounterKeys counters)
    (hold : counters.find? (·.sameCell row) = some old) :
    tally arm ((Table.replace (·.sameCell row) { old with count := old.count + row.count }
      counters).map ofRow) = tally arm (counters.map ofRow) + tally arm [ofRow row] := by
  induction counters with
  | nil => cases hold
  | cons first counters ih =>
      obtain ⟨hfirst, hrest⟩ := List.nodup_cons.mp h
      rw [List.find?_cons] at hold
      rw [Table.replace, List.map_cons, ← Table.replace]
      cases hcell : first.sameCell row with
      | true =>
          simp only [hcell, Option.some.injEq] at hold
          subst hold
          -- no other row is of the cell
          have hothers : Table.replace (·.sameCell row)
              { first with count := first.count + row.count } counters = counters := by
            rw [Table.replace]
            conv_rhs => rw [← List.map_id counters]
            apply List.map_congr_left
            intro c hc
            cases hother : c.sameCell row with
            | false => rfl
            | true =>
                rw [sameCell_eq, decide_eq_true_eq] at hcell hother
                exact absurd (List.mem_map.mpr ⟨c, hc, hother.trans hcell.symm⟩) hfirst
          have harm : (ofRow row).1 = (ofRow first).1 := by
            have hsame := Counting.sameCell_iff.mp hcell
            simp only [ofRow, hsame.1, hsame.2.1, hsame.2.2.1]
          rw [hothers]
          simp only [List.map_cons, Counters.tally_cons, Counters.tally_nil, harm, if_true]
          change (if (ofRow first).1 = arm then first.count + row.count else 0) + _ =
            (if (ofRow first).1 = arm then first.count else 0) + _ +
              ((if (ofRow first).1 = arm then row.count else 0) + 0)
          split <;> omega
      | false =>
          simp only [hcell] at hold
          rw [if_neg (by simp), List.map_cons, List.map_cons, Counters.tally_cons,
            Counters.tally_cons, ih hrest hold, Nat.add_assoc]

/-- It adds to its arm what it adds, and to no other. -/
theorem tally_upsert {arm : Uuid × String × CounterKind} (h : CounterKeys counters)
    (hupsert : upsertCounter row counters = .ok counters') :
    tally arm (counters'.map ofRow) = tally arm (counters.map ofRow) + tally arm [ofRow row] := by
  rcases upsertCounter_cases hupsert with ⟨old, hold, rfl⟩ | ⟨_, rfl⟩
  · exact tally_replace h hold
  · rw [List.map_append, Counters.tally_append, List.map_singleton]

/-- So does a batch leave one for each. -/
theorem CounterKeys.upserts (h : CounterKeys counters) (hupserts : upsertCounters rows counters = .ok counters') :
    CounterKeys counters' :=
  upsertCounters_invariant (I := CounterKeys) (fun _ _ _ _ hupsert hkeys => hkeys.upsert hupsert)
    hupserts h

/-- And adds to each arm the sum of what it sends there. -/
theorem tally_upserts {arm : Uuid × String × CounterKind} (h : CounterKeys counters)
    (hupserts : upsertCounters rows counters = .ok counters') :
    tally arm (counters'.map ofRow) = tally arm (counters.map ofRow) + tally arm (rows.map ofRow) := by
  induction rows generalizing counters with
  | nil =>
      cases hupserts
      rfl
  | cons row rows ih =>
      obtain ⟨mid, hmid, hrest⟩ := Sql.of_bind hupserts
      rw [ih (h.upsert hmid) hrest, tally_upsert h hmid, List.map_cons, Nat.add_assoc,
        Counters.tally_cons, Counters.tally_cons, Counters.tally_nil, Nat.add_zero]

/-! ### Batches -/

theorem tally_addTo {cell : DeltaCell} {count : Nat} {cells : List (DeltaCell × Nat)}
    {name : String × String × CounterKind} : tally name ((addTo cell count cells).map ofCell) =
      tally name (cells.map ofCell) + tally name [ofCell (cell, count)] := by
  induction cells with
  | nil => simp [addTo]
  | cons e cells ih =>
      rw [addTo]
      by_cases hcell : e.1 = cell
      · subst hcell
        rw [if_pos rfl]
        simp only [List.map_cons, ofCell, Counters.tally_cons, Counters.tally_nil]
        split <;> omega
      · rw [if_neg hcell, List.map_cons, List.map_cons, Counters.tally_cons, ih,
          @Counters.tally_cons _ _ _ (cells.map ofCell), Nat.add_assoc]

/-- Collapsing a batch to its cells takes nothing from an arm and adds nothing to it. -/
theorem tally_collapse {trunc : Timestamp → Option Timestamp} {deltas : List CounterDelta}
    {cells cells' : List (DeltaCell × Nat)} (name : String × String × CounterKind)
    (h : collapse trunc deltas cells = some cells') : tally name (cells'.map ofCell) =
      tally name (cells.map ofCell) + tally name (deltas.map ofDelta) := by
  induction deltas generalizing cells with
  | nil =>
      cases h
      rfl
  | cons delta deltas ih =>
      rw [collapse] at h
      split at h
      · cases h
      · rw [ih h, tally_addTo, List.map_cons, Nat.add_assoc, Counters.tally_cons,
          Counters.tally_cons, Counters.tally_nil, Nat.add_zero]
        rfl

/-- The one row that a list with distinct keys has for a condition. -/
theorem filter_eq_singleton {α κ : Type} {column : α → κ} {p : α → Bool} {rows : List α} {row : α}
    (hnodup : (rows.map column).Nodup) (hrow : row ∈ rows) (hp : p row = true)
    (honly : ∀ r ∈ rows, p r = true → column r = column row) : rows.filter p = [row] := by
  rw [← List.perm_singleton, List.perm_ext_iff_of_nodup (hnodup.of_map.filter p)
    (List.nodup_singleton row)]
  intro r
  rw [List.mem_filter, List.mem_singleton]
  constructor
  · rintro ⟨hr, hpr⟩
    exact List.inj_on_of_nodup_map hnodup hr hrow (honly r hr hpr)
  · rintro rfl
    exact ⟨hrow, hp⟩

/-- A cell adds to the arms of an experiment what it names them with, in their environment. -/
theorem tally_joined (hindexed : Indexed db) (hruns : RunsAs experimentId environmentId key db)
    (e : DeltaCell × Nat) (here : Uuid) :
    tally (experimentId, variant, kind) ((joined here db e).map ofRow) =
      if here = environmentId then tally (key, variant, kind) [ofCell e] else 0 := by
  obtain ⟨x, hx, hid, hfor, hrunning⟩ := hruns
  have hfor' : x.environmentId = environmentId ∧ x.key = key := by
    simpa [ExperimentRow.isFor] using hfor
  by_cases hnamed : here = environmentId ∧ e.1.experimentKey = key
  · obtain ⟨rfl, hkey⟩ := hnamed
    have honly : db.experiments.filter (fun y =>
        y.isFor here e.1.experimentKey && y.state = .running) = [x] := by
      apply filter_eq_singleton hindexed.keys hx
      · simp [hkey, hfor, hrunning]
      · intro y _ hy
        simp only [ExperimentRow.isFor, Bool.and_eq_true, decide_eq_true_eq] at hy
        rw [hy.1.1, hy.1.2, hfor'.1, hfor'.2, hkey]
    rw [if_pos rfl, joined, honly]
    simp [ofRow, ofCell, hid, hkey]
  · have hnone : tally (experimentId, variant, kind) ((joined here db e).map ofRow) = 0 := by
      apply Counters.tally_eq_zero
      intro a ha heq
      obtain ⟨row, hrow, rfl⟩ := List.mem_map.mp ha
      obtain ⟨y, hy, hyfor, _, rfl⟩ := mem_joined hrow
      have hsame : y = x := by
        apply List.inj_on_of_nodup_map hindexed.ids hy hx
        rw [hid]
        exact congrArg Prod.fst heq
      rw [hsame, ExperimentRow.isFor, Bool.and_eq_true, decide_eq_true_eq, decide_eq_true_eq,
        hfor'.1, hfor'.2] at hyfor
      exact hnamed ⟨hyfor.1.symm, hyfor.2.symm⟩
    rw [hnone]
    by_cases hhere : here = environmentId
    · have hkey : e.1.experimentKey ≠ key := fun hkey => hnamed ⟨hhere, hkey⟩
      rw [if_pos hhere]
      simp [ofCell, hkey]
    · rw [if_neg hhere]

/-- A batch adds to the arms of a running experiment what its cells name, if it is of the environment. -/
theorem armTotal_ingest (hindexed : Indexed m.db) (hkeys : CounterKeys m.counters)
    (hruns : RunsAs experimentId environmentId key m.db) {here : Uuid}
    {cells : List (DeltaCell × Nat)}
    (h : upsertCounters (cells.flatMap (joined here m.db)) m.counters = .ok counters) :
    armTotal experimentId variant kind counters = armTotal experimentId variant kind m.counters +
      if here = environmentId then tally (key, variant, kind) (cells.map ofCell) else 0 := by
  rw [armTotal_eq, armTotal_eq, tally_upserts hkeys h]
  congr 1
  clear h
  induction cells with
  | nil => simp
  | cons e cells ih =>
      rw [List.flatMap_cons, List.map_append, Counters.tally_append, ih,
        tally_joined hindexed hruns, List.map_cons]
      by_cases hhere : here = environmentId
      · rw [if_pos hhere, if_pos hhere, if_pos hhere, Counters.tally_cons, Counters.tally_cons,
          Counters.tally_nil, Nat.add_zero]
      · rw [if_neg hhere, if_neg hhere, if_neg hhere]

/-! ### Other statements -/

/-- The counters of an experiment that is still there stay as they are. -/
theorem armTotal_cascade (h : RunsAs experimentId environmentId key db) :
    armTotal experimentId variant kind (cascade db counters) =
      armTotal experimentId variant kind counters := by
  obtain ⟨x, hx, hid, _⟩ := h
  have hrows : rowsOf experimentId (cascade db counters) = rowsOf experimentId counters := by
    apply Table.filter_filter_of_imp
    intro c _ hc
    rw [List.any_eq_true]
    exact ⟨x, hx, decide_eq_true (hid.trans (of_decide_eq_true hc).symm)⟩
  rw [armTotal, armTotal, hrows]

/-- Statements keep the primary key and the unique index of the experiments. -/
theorem Change.indexed {input : Input} {s : Sql.Stmt} {db db' : Db}
    (hchange : Change input s db.experiments db'.experiments) (h : Indexed db) : Indexed db' := by
  have hunique : ∀ {p : ExperimentRow → Bool} {x : ExperimentRow} {environmentId : Uuid}
      {key : String}, db.experiments.find? p = some x →
      (∀ r, p r = true → r.isFor environmentId key = true) →
      ∀ r ∈ db.experiments, p r = true → r = x := by
    intro p x environmentId key hx hp r hr hpr
    have hxfor := hp x (List.find?_some hx)
    have hrfor := hp r hpr
    rw [ExperimentRow.isFor_iff] at hxfor hrfor
    apply List.inj_on_of_nodup_map h.keys hr (List.mem_of_find?_eq_some hx)
    rw [hxfor.1, hxfor.2, hrfor.1, hrfor.2]
  -- a row in the place of the one that is selected, with its identifier and its key
  have hreplaced : ∀ {p : ExperimentRow → Bool} {x y : ExperimentRow} {environmentId : Uuid}
      {key : String}, db.experiments.find? p = some x →
      (∀ r, p r = true → r.isFor environmentId key = true) →
      y.id = x.id → y.environmentId = x.environmentId → y.key = x.key →
      db'.experiments = Table.replace p y db.experiments → Indexed db' := by
    intro p x y environmentId key hx hp hid henvironment hkey hdb
    constructor
    · rw [hdb, Table.map_replace]
      · exact h.ids
      · intro r hr hpr
        rw [hunique hx hp r hr hpr, hid]
    · rw [hdb, Table.map_replace]
      · exact h.keys
      · intro r hr hpr
        rw [hunique hx hp r hr hpr, henvironment, hkey]
  cases hchange with
  | fewer hdb =>
      refine ⟨?_, ?_⟩
      · rw [hdb]
        exact (List.filter_sublist.map _).nodup h.ids
      · rw [hdb]
        exact (List.filter_sublist.map _).nodup h.keys
  | @created y _ hfresh _ hdb =>
      constructor
      · rw [hdb]
        exact nodup_map_concat h.ids fun x hx => (hfresh x hx).1
      · rw [hdb]
        apply nodup_map_concat h.keys
        intro x hx heq
        have hfor : x.isFor y.environmentId y.key = true :=
          ExperimentRow.isFor_iff.mpr ⟨congrArg Prod.fst heq, congrArg Prod.snd heq⟩
        rw [(hfresh x hx).2] at hfor
        cases hfor
  | updated hx hy hdb =>
      subst hy
      refine hreplaced hx (fun _ hr => hr) ?_ ?_ ?_ hdb <;> rfl
  | moved _ hx hy hdb =>
      subst hy
      refine hreplaced hx (fun r hr => (Bool.and_eq_true_iff.mp hr).1) ?_ ?_ ?_ hdb <;> rfl

/-- Keys of experiments stay unique. -/
theorem indexed_exec {input : Input} {s : Sql.Stmt} (h : Indexed db) :
    Indexed (Sql.exec input s db).2 :=
  Sql.exec_invariant (I := Indexed) (fun _ hw => (change hw).indexed h) h

end FlagForge.Storage
