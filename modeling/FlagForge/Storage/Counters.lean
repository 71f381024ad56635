/-
Module: FlagForge.Storage.Counters
Layer: Storage
Purpose: The counter table beside the other tables. A batch of increments is collapsed to one cell for
  each variant, kind and hour before the statement adds it to the counters of running experiments;
  counters go with the experiment they belong to.
Imports: FlagForge.Storage.Queries, FlagForge.Storage.Effects
Trusted boundary: `DurationRound::duration_trunc` of the chrono crate is given
Main exports: CounterRow, CounterDelta, Measured, Counting.collapse, Counting.exec, Counting.ingestCounters
-/
import FlagForge.Storage.Queries
import FlagForge.Storage.Effects

namespace FlagForge.Storage

open Sql (Input SqlError Written)

/-- What one kind of counter counts. -/
inductive CounterKind where
  /-- The flag was evaluated for a context while the experiment ran. -/
  | exposure
  /-- A tracked metric event attributed to a variant. -/
  | conversion
deriving DecidableEq

structure CounterRow where
  experimentId : Uuid
  variant : String
  kind : CounterKind
  hour : Timestamp
  count : Nat
deriving DecidableEq

/-- The primary key. -/
def CounterRow.sameCell (a b : CounterRow) : Bool :=
  a.experimentId = b.experimentId && a.variant = b.variant && a.kind = b.kind && a.hour = b.hour

/-- One increment of a batch. -/
structure CounterDelta where
  experimentKey : String
  variant : String
  kind : CounterKind
  happened : Timestamp
  count : Nat

/-- The tables with the counters. -/
structure Measured where
  db : Db
  counters : List CounterRow

namespace Counting

/-! ### Collapsing a batch -/

/-- The cell of a batch that a delta falls into. -/
structure DeltaCell where
  experimentKey : String
  variant : String
  kind : CounterKind
  hour : Timestamp
deriving DecidableEq

/-- `*cells.entry(cell).or_default() += count` -/
def addTo (cell : DeltaCell) (count : Nat) : List (DeltaCell × Nat) → List (DeltaCell × Nat)
  | [] => [(cell, count)]
  | e :: cells => if e.1 = cell then (e.1, e.2 + count) :: cells else e :: addTo cell count cells

/-- The loop over the deltas; a time that cannot be truncated to the hour is an error. The order of
    the cells is of no interest: with the times of the database no two of them go to one row. -/
def collapse (trunc : Timestamp → Option Timestamp) :
    List CounterDelta → List (DeltaCell × Nat) → Option (List (DeltaCell × Nat))
  | [], cells => some cells
  | delta :: deltas, cells =>
      match trunc delta.happened with
      | none => none
      | some hour =>
          collapse trunc deltas
            (addTo ⟨delta.experimentKey, delta.variant, delta.kind, hour⟩ delta.count cells)

/-! ### The statements -/

/-- The rows that the join makes of a cell. -/
def joined (environmentId : Uuid) (db : Db) (e : DeltaCell × Nat) : List CounterRow :=
  (db.experiments.filter fun x =>
    x.isFor environmentId e.1.experimentKey && x.state = .running).map fun x =>
      ⟨x.id, e.1.variant, e.1.kind, e.1.hour, e.2⟩

/-- `ON CONFLICT … DO UPDATE SET count = experiment_counters.count + EXCLUDED.count` -/
def upsertCounter (row : CounterRow) (counters : List CounterRow) :
    Except SqlError (List CounterRow) :=
  match counters.find? (·.sameCell row) with
  | some old =>
      if old.count + row.count < 2 ^ 63 then
        .ok (Table.replace (·.sameCell row) { old with count := old.count + row.count } counters)
      else .error .other
  | none => if row.count < 2 ^ 63 then .ok (counters ++ [row]) else .error .other

/-- The rows of one `INSERT … ON CONFLICT`, one after the other; the first that does not fit
    ends it. -/
def upsertCounters : List CounterRow → List CounterRow → Except SqlError (List CounterRow)
  | [], counters => .ok counters
  | row :: rows, counters => do
      let counters ← upsertCounter row counters
      upsertCounters rows counters

/-- Adds the cells to the counters of the environment's running experiments. -/
def ingestCells (environmentId : Uuid) (cells : List (DeltaCell × Nat)) (m : Measured) :
    Except SqlError (Nat × Measured) := do
  let rows := cells.flatMap (joined environmentId m.db)
  let counters ← upsertCounters rows m.counters
  pure (rows.length, { m with counters := counters })

/-- A counter goes when its experiment is deleted. -/
def cascade (db : Db) (counters : List CounterRow) : List CounterRow :=
  counters.filter fun c => db.experiments.any (·.id = c.experimentId)

inductive Stmt where
  | sql (s : Sql.Stmt)
  | ingest (environmentId : Uuid) (cells : List (DeltaCell × Nat))

def Stmt.Result : Stmt → Type
  | .sql s => s.Result
  | .ingest .. => Nat

abbrev Resp (s : Stmt) := Except SqlError s.Result

/-- The answer and the tables after the statement; an error leaves the tables as they were. -/
def exec (input : Input) (s : Stmt) (m : Measured) : Resp s × Measured :=
  match s with
  | .sql s =>
      let answer := Sql.exec input s m.db
      (answer.1, ⟨answer.2, cascade answer.2 m.counters⟩)
  | .ingest environmentId cells =>
      if input.fails then (.error .other, m)
      else
        match ingestCells environmentId cells m with
        | .ok written => (.ok written.1, written.2)
        | .error e => (.error e, m)

/-- Applies a batch of counter increments in one round trip, and returns how many cells it wrote.
    Deltas naming an experiment that is unknown or not running are dropped. -/
def ingestCounters (trunc : Timestamp → Option Timestamp) (environmentId : Uuid)
    (deltas : List CounterDelta) : Fallible Stmt Resp StorageError Nat :=
  match collapse trunc deltas [] with
  | none => throw (.invalid "counter timestamp")
  | some cells =>
      ExceptT.mk (.call (.ingest environmentId cells) fun r =>
        .done (r.mapError fun _ => .database))

/-! ### Effects -/

section Effect

variable {id environmentId : Uuid} {m m' : Measured} {row : CounterRow}
  {counters counters' rows : List CounterRow}

/-- The primary key of the counters. -/
theorem sameCell_iff {a b : CounterRow} : a.sameCell b = true ↔
    a.experimentId = b.experimentId ∧ a.variant = b.variant ∧ a.kind = b.kind ∧ a.hour = b.hour := by
  simp only [CounterRow.sameCell, Bool.and_eq_true, decide_eq_true_eq, and_assoc]

/-- A row is added to the counter of its cell, or makes one. -/
theorem upsertCounter_cases (h : upsertCounter row counters = .ok counters') :
    (∃ old, counters.find? (·.sameCell row) = some old ∧ counters' =
        Table.replace (·.sameCell row) { old with count := old.count + row.count } counters) ∨
      counters.find? (·.sameCell row) = none ∧ counters' = counters ++ [row] := by
  rw [upsertCounter] at h
  split at h
  · rename_i old hold
    split at h
    · cases h
      exact .inl ⟨old, hold, rfl⟩
    · cases h
  · rename_i hnone
    split at h
    · cases h
      exact .inr ⟨hnone, rfl⟩
    · cases h

/-- What every upsert of some rows keeps, all of them keep. -/
theorem upsertCounters_invariant {I : List CounterRow → Prop}
    (hstep : ∀ row ∈ rows, ∀ counters counters', upsertCounter row counters = .ok counters' →
      I counters → I counters') :
    ∀ {counters counters' : List CounterRow}, upsertCounters rows counters = .ok counters' →
      I counters → I counters' := by
  induction rows with
  | nil =>
      intro counters counters' h hI
      cases h
      exact hI
  | cons row rows ih =>
      intro counters counters' h hI
      obtain ⟨mid, hmid, h⟩ := Sql.of_bind h
      exact ih (fun row hrow => hstep row (List.mem_cons_of_mem _ hrow)) h
        (hstep row List.mem_cons_self _ _ hmid hI)

/-- The rows of a batch are of running experiments of its environment. -/
theorem mem_joined {db : Db} {e : DeltaCell × Nat} (h : row ∈ joined environmentId db e) :
    ∃ x ∈ db.experiments, x.isFor environmentId e.1.experimentKey = true ∧ x.state = .running ∧
      row = ⟨x.id, e.1.variant, e.1.kind, e.1.hour, e.2⟩ := by
  obtain ⟨x, hx, rfl⟩ := List.mem_map.mp h
  obtain ⟨hx, hrunning⟩ := List.mem_filter.mp hx
  simp only [Bool.and_eq_true, decide_eq_true_eq] at hrunning
  exact ⟨x, hx, hrunning.1, hrunning.2, rfl⟩

/-- What an ingest leaves, if it succeeds. -/
theorem ingestCells_cases {cells : List (DeltaCell × Nat)} {n : Nat}
    (h : ingestCells environmentId cells m = .ok (n, m')) : ∃ counters,
    upsertCounters (cells.flatMap (joined environmentId m.db)) m.counters = .ok counters ∧
      m' = { m with counters := counters } := by
  obtain ⟨counters, hcounters, h⟩ := Sql.of_bind h
  cases h
  exact ⟨counters, hcounters, rfl⟩

/-- A statement of the other tables does to them what it does, and cascades to the counters; a batch
    leaves the other tables alone. -/
theorem exec_cases (input : Input) (s : Stmt) (m : Measured) :
    (∃ t, s = .sql t ∧ (exec input s m).2 =
        ⟨(Sql.exec input t m.db).2, cascade (Sql.exec input t m.db).2 m.counters⟩) ∨
      (∃ environmentId cells, s = .ingest environmentId cells ∧ ((exec input s m).2 = m ∨
        ∃ counters, upsertCounters (cells.flatMap (joined environmentId m.db)) m.counters =
          .ok counters ∧ (exec input s m).2 = { m with counters := counters })) := by
  cases s with
  | sql t => exact .inl ⟨t, rfl, rfl⟩
  | ingest environmentId cells =>
      refine .inr ⟨environmentId, cells, rfl, ?_⟩
      simp only [exec]
      split
      · exact .inl rfl
      · split
        · rename_i written hwritten
          obtain ⟨counters, hcounters, hm⟩ := ingestCells_cases hwritten
          exact .inr ⟨counters, hcounters, hm⟩
        · exact .inl rfl

end Effect

end Counting

end FlagForge.Storage
