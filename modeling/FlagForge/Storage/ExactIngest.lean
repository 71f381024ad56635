/-
Module: FlagForge.Storage.ExactIngest
Layer: Storage
Purpose: Ingest adds exactly what was sent, in any order and in any division into batches, if and only
  if the database can store the texts of the batch and keeps its hours apart.
Imports: FlagForge.Storage.Ingest, Mathlib.Algebra.Order.BigOperators.Group.List,
  Mathlib.Algebra.Order.Group.Nat
Trusted boundary: as in FlagForge.Storage.Ingest
Main exports: Exact, ingest_exact_iff
-/
import FlagForge.Storage.Ingest
import Mathlib.Algebra.Order.BigOperators.Group.List
import Mathlib.Algebra.Order.Group.Nat

namespace FlagForge.Storage.Ingest

open Sql (SqlError)

/-- The tables after a batch: every cell has what it is to have, and the answer is the number of cells
    that some increment is for. -/
structure Added {Time : Type} (clock : Clock Time) (environmentId : Uuid) (deltas : List (Delta Time))
    (m : Measured) (written : Nat) (m' : Measured) : Prop where
  tables : m'.db = m.db
  cells : ∀ key, lookup key m'.counters = expected clock environmentId m.db deltas m.counters key
  written : ∃ keys : List CounterKey, keys.Nodup ∧
    (∀ key, key ∈ keys ↔ deltas.any (names clock environmentId m.db key) = true) ∧
      written = keys.length

/-- Ingest adds exactly what was sent. -/
structure Exact {Time : Type} [DecidableEq Time] (clock : Clock Time) (environmentId : Uuid)
    (deltas : List (Delta Time)) (m : Measured) : Prop where
  added : Truncates clock deltas → ∀ iteration, ∃ written m',
    ingestCounters clock iteration environmentId deltas m = (.ok written, m') ∧
      Added clock environmentId deltas m written m'
  once : ∀ iteration : Iteration (Cell Time × Nat), ∀ cells, collapse clock deltas [] = some cells →
    ((iteration.order cells).flatMap (proposed clock environmentId m.db)).Pairwise
      fun a b => a.sameCell b = false
  order : ∀ deltas', deltas.Perm deltas' → ∀ iteration iteration',
    (ingestCounters clock iteration environmentId deltas m).1 =
        (ingestCounters clock iteration' environmentId deltas' m).1 ∧
      ∀ key, lookup key (ingestCounters clock iteration environmentId deltas m).2.counters =
        lookup key (ingestCounters clock iteration' environmentId deltas' m).2.counters
  append : Truncates clock deltas → ∀ a b, deltas = a ++ b → ∀ iteration first second,
    ∃ written written' m' m'', ingestCounters clock first environmentId a m = (.ok written, m') ∧
      ingestCounters clock second environmentId b m' = (.ok written', m'') ∧
      ∀ key, lookup key m''.counters =
        lookup key (ingestCounters clock iteration environmentId deltas m).2.counters
  refused : ¬Truncates clock deltas → ∀ iteration,
    ingestCounters clock iteration environmentId deltas m = (.error (.invalid "counter timestamp"), m)

section

variable {Time : Type} {clock : Clock Time} {environmentId : Uuid}
  {deltas deltas' a b : List (Delta Time)} {m m' : Measured} {cells : List (Cell Time × Nat)}

/-! ### The statement -/

/-- The rows that are proposed to the counters. -/
theorem flatMap_joined : (cells.map (stored clock)).flatMap (Counting.joined environmentId m.db) =
    cells.flatMap (proposed clock environmentId m.db) :=
  List.flatMap_map _ _ _

/-- The texts of the arrays are those of the deltas. -/
theorem Holds.storable_iff (h : Holds clock deltas cells) (htruncates : Truncates clock deltas) :
    ((columnsOf clock cells).keys.all storable && (columnsOf clock cells).variants.all storable) =
      true ↔ Storable deltas := by
  rw [columnsOf_eq, Bool.and_eq_true, List.all_eq_true, List.all_eq_true]
  constructor
  · rintro ⟨hkeys, hvariants⟩ d hd
    obtain ⟨hour, hhour⟩ := Option.isSome_iff_exists.mp (htruncates d hd)
    obtain ⟨e, he, hcell⟩ := List.mem_map.mp ((h.mem_iff _).mpr ⟨d, hd, hour, hhour, rfl⟩)
    have hkey := hkeys _ (List.mem_map_of_mem (f := fun e : Cell Time × Nat => e.1.experimentKey) he)
    have hvariant := hvariants _ (List.mem_map_of_mem (f := fun e : Cell Time × Nat => e.1.variant) he)
    rw [hcell] at hkey hvariant
    exact ⟨hkey, hvariant⟩
  · intro hstorable
    constructor
    · intro text htext
      obtain ⟨e, he, rfl⟩ := List.mem_map.mp htext
      obtain ⟨d, hd, hour, _, hcell⟩ := (h.mem_iff e.1).mp (List.mem_map_of_mem he)
      rw [hcell]
      exact (hstorable d hd).1
    · intro text htext
      obtain ⟨e, he, rfl⟩ := List.mem_map.mp htext
      obtain ⟨d, hd, hour, _, hcell⟩ := (h.mem_iff e.1).mp (List.mem_map_of_mem he)
      rw [hcell]
      exact (hstorable d hd).2

/-- The statement adds what was sent if the texts can be stored and the hours are kept apart. -/
theorem insert_spec (hindexed : Indexed m.db) (htruncates : Truncates clock deltas)
    (hrange : InRange clock environmentId deltas m) (hstorable : Storable deltas)
    (hapart : Apart clock environmentId m.db deltas) (h : Holds clock deltas cells) :
    ∃ written m', insert environmentId (columnsOf clock cells) m = .ok (written, m') ∧
      Added clock environmentId deltas m written m' := by
  have hnodup := (h.nodup_iff hindexed).mpr hapart
  have htally : ∀ key, Counters.tally key
      ((cells.flatMap (proposed clock environmentId m.db)).map addition) =
        sent clock environmentId m.db key deltas := by
    intro key
    rw [tally_flatMap hindexed, h.sum]
  obtain ⟨counters, hcounters, hlookup⟩ := @upsertCounters_spec
    (cells.flatMap (proposed clock environmentId m.db)) m.counters fun key => by
      rw [htally]
      exact hrange key
  refine ⟨(cells.flatMap (proposed clock environmentId m.db)).length,
    { m with counters := counters }, ?_, rfl, ?_, ?_⟩
  · rw [insert, if_pos ((h.storable_iff htruncates).mpr hstorable), readRow_unnest]
    change insertRows environmentId (cells.map (stored clock)) m = _
    rw [insertRows, flatMap_joined, if_pos (pairwise_sameCell.mpr hnodup), Counting.ingestCells,
      flatMap_joined, hcounters]
    rfl
  · intro key
    rw [hlookup, htally, expected]
    exact if_congr (h.mem_keys htruncates) rfl rfl
  · exact ⟨_, hnodup, fun key => h.mem_keys htruncates, (List.length_map _).symm⟩

/-- What the statement checks before it writes anything. -/
theorem of_insert {written : Nat} (hindexed : Indexed m.db) (htruncates : Truncates clock deltas)
    (h : Holds clock deltas cells)
    (hinsert : insert environmentId (columnsOf clock cells) m = .ok (written, m')) :
    Storable deltas ∧ Apart clock environmentId m.db deltas := by
  rw [insert] at hinsert
  split at hinsert
  · rename_i hstorable
    rw [readRow_unnest] at hinsert
    change insertRows environmentId (cells.map (stored clock)) m = _ at hinsert
    rw [insertRows, flatMap_joined] at hinsert
    split at hinsert
    · rename_i hpairwise
      exact ⟨(h.storable_iff htruncates).mp hstorable,
        (h.nodup_iff hindexed).mp (pairwise_sameCell.mp hpairwise)⟩
    · cases hinsert
  · cases hinsert

/-! ### Any order -/

theorem exists_of_not_truncates (h : ¬Truncates clock deltas) :
    ∃ d ∈ deltas, clock.trunc d.happened = none := by
  by_contra hall
  apply h
  intro d hd
  rw [Option.isSome_iff_ne_none]
  exact fun hnone => hall ⟨d, hd, hnone⟩

/-- The number of cells is that of the keys that the increments are for. -/
theorem Added.written_eq {written written' : Nat} {m'' : Measured}
    (h : Added clock environmentId deltas m written m')
    (h' : Added clock environmentId deltas' m written' m'') (hperm : deltas.Perm deltas') :
    written = written' := by
  obtain ⟨keys, hnodup, hkeys, rfl⟩ := h.written
  obtain ⟨keys', hnodup', hkeys', rfl⟩ := h'.written
  apply List.Perm.length_eq
  rw [List.perm_ext_iff_of_nodup hnodup hnodup']
  intro key
  rw [hkeys, hkeys', List.any_eq_true, List.any_eq_true]
  simp only [hperm.mem_iff]

/-- What is expected does not depend on the order of the deltas. -/
theorem expected_perm (hperm : deltas.Perm deltas') (counters : List CounterRow) (key : CounterKey) :
    expected clock environmentId m.db deltas counters key =
      expected clock environmentId m.db deltas' counters key := by
  have hany : deltas.any (names clock environmentId m.db key) =
      deltas'.any (names clock environmentId m.db key) := by
    rw [Bool.eq_iff_iff, List.any_eq_true, List.any_eq_true]
    simp only [hperm.mem_iff]
  have hsent : sent clock environmentId m.db key deltas = sent clock environmentId m.db key deltas' :=
    ((hperm.filter _).map _).sum_eq
  rw [expected, expected, hany, hsent]

/-! ### Two batches -/

/-- What two batches send adds up. -/
theorem sent_append {db : Db} {key : CounterKey} : sent clock environmentId db key (a ++ b) =
    sent clock environmentId db key a + sent clock environmentId db key b := by
  rw [sent, List.filter_append, List.map_append, List.sum_append, sent, sent]

/-- A cell that no delta names is sent nothing. -/
theorem sent_eq_zero {db : Db} {key : CounterKey}
    (h : deltas.any (names clock environmentId db key) = false) :
    sent clock environmentId db key deltas = 0 := by
  have hnone : deltas.filter (names clock environmentId db key) = [] := by
    rw [List.filter_eq_nil_iff]
    intro d hd hnames
    rw [List.any_eq_false] at h
    exact h d hd hnames
  rw [sent, hnone]
  rfl

/-- What a cell is to have after two batches is what it is to have after both at once. -/
theorem expected_append {db : Db} {counters counters' : List CounterRow} {key : CounterKey}
    (h : lookup key counters' = expected clock environmentId db a counters key) :
    expected clock environmentId db b counters' key =
      expected clock environmentId db (a ++ b) counters key := by
  rw [expected, h, expected, expected, List.any_append, sent_append]
  cases ha : a.any (names clock environmentId db key) <;>
    cases hb : b.any (names clock environmentId db key)
  · simp
  · simp [sent_eq_zero ha]
  · simp [sent_eq_zero hb]
  · simp [Nat.add_assoc]

/-- After the first of two batches the range still holds for the second. -/
theorem InRange.second {written : Nat} (h : InRange clock environmentId (a ++ b) m)
    (hadded : Added clock environmentId a m written m') : InRange clock environmentId b m' := by
  intro key
  have hkey := h key
  rw [sent_append, ← Nat.add_assoc] at hkey
  rw [hadded.cells, hadded.tables, expected]
  split
  · exact hkey
  · rename_i hnone
    rw [sent_eq_zero (Bool.eq_false_iff.mpr hnone)] at hkey
    exact hkey

theorem InRange.first (h : InRange clock environmentId (a ++ b) m) :
    InRange clock environmentId a m := by
  intro key
  have hkey := h key
  rw [sent_append] at hkey
  omega

theorem Apart.of_subset {db : Db} (h : Apart clock environmentId db deltas)
    (hsub : ∀ d ∈ deltas', d ∈ deltas) : Apart clock environmentId db deltas' :=
  fun d hd d' hd' => h d (hsub d hd) d' (hsub d' hd')

/-- Where the database tells all hours apart, only the texts matter. -/
theorem apart_of_injective {db : Db} (h : Function.Injective clock.stored) :
    Apart clock environmentId db deltas :=
  fun _ _ _ _ _ _ _ _ _ _ _ _ hstored => h hstored

/-- A cell is sent no more than all deltas count. -/
theorem sent_le {db : Db} {key : CounterKey} :
    sent clock environmentId db key deltas ≤ (deltas.map Delta.count).sum :=
  (List.filter_sublist.map Delta.count).sum_le_sum fun _ _ => Nat.zero_le _

/-! ### The runs -/

variable [DecidableEq Time]

/-- A batch whose cells stay apart in the database adds to every cell what it sends there, in whatever
    order the map is iterated. -/
theorem added_of_apart (hindexed : Indexed m.db) (htruncates : Truncates clock deltas)
    (hrange : InRange clock environmentId deltas m) (hstorable : Storable deltas)
    (hapart : Apart clock environmentId m.db deltas) (iteration : Iteration (Cell Time × Nat)) :
    ∃ written m', ingestCounters clock iteration environmentId deltas m = (.ok written, m') ∧
      Added clock environmentId deltas m written m' := by
  obtain ⟨cells, hcells, hholds⟩ := holds_of_collapse htruncates iteration
  obtain ⟨written, m', hinsert, hadded⟩ :=
    insert_spec hindexed htruncates hrange hstorable hapart hholds
  refine ⟨written, m', ?_, hadded⟩
  simp only [ingestCounters, hcells, hinsert]

/-- A batch with a timestamp that cannot be truncated is refused and changes nothing. -/
theorem refused_of_not_truncates (h : ¬Truncates clock deltas)
    (iteration : Iteration (Cell Time × Nat)) :
    ingestCounters clock iteration environmentId deltas m =
      (.error (.invalid "counter timestamp"), m) := by
  rw [ingestCounters, collapse_none (exists_of_not_truncates h)]

/-- So an ingest is exact wherever the cells of a batch that truncates can be stored and stay apart. -/
theorem exact_of_apart (hindexed : Indexed m.db) (hrange : InRange clock environmentId deltas m)
    (h : Truncates clock deltas → Storable deltas ∧ Apart clock environmentId m.db deltas) :
    Exact clock environmentId deltas m := by
  by_cases htruncates : Truncates clock deltas
  · obtain ⟨hstorable, hapart⟩ := h htruncates
    have hadded := added_of_apart hindexed htruncates hrange hstorable hapart
    refine ⟨fun _ => hadded, ?_, ?_, ?_, fun hnot => absurd htruncates hnot⟩
    · intro iteration cells hcells
      obtain ⟨cells', hcells', hholds⟩ := holds_of_collapse htruncates iteration
      cases hcells.symm.trans hcells'
      exact pairwise_sameCell.mpr ((hholds.nodup_iff hindexed).mpr hapart)
    · intro deltas' hperm iteration iteration'
      have hmem : ∀ d ∈ deltas', d ∈ deltas := fun d hd => hperm.mem_iff.mpr hd
      have hrange' : InRange clock environmentId deltas' m := by
        intro key
        have hsent : sent clock environmentId m.db key deltas' =
            sent clock environmentId m.db key deltas := ((hperm.symm.filter _).map _).sum_eq
        rw [hsent]
        exact hrange key
      obtain ⟨written, m', hrun, hm'⟩ := hadded iteration
      obtain ⟨written', m'', hrun', hm''⟩ := added_of_apart hindexed
        (fun d hd => htruncates d (hmem d hd)) hrange' (fun d hd => hstorable d (hmem d hd))
        (hapart.of_subset hmem) iteration'
      rw [hrun, hrun']
      refine ⟨congrArg Except.ok (hm'.written_eq hm'' hperm), fun key => ?_⟩
      rw [hm'.cells, hm''.cells, expected_perm hperm]
    · rintro - a b rfl iteration first second
      have ha : ∀ d ∈ a, d ∈ a ++ b := fun d hd => List.mem_append_left b hd
      have hb : ∀ d ∈ b, d ∈ a ++ b := fun d hd => List.mem_append_right a hd
      obtain ⟨written, m', hrun, hm'⟩ := added_of_apart hindexed
        (fun d hd => htruncates d (ha d hd)) hrange.first (fun d hd => hstorable d (ha d hd))
        (hapart.of_subset ha) first
      obtain ⟨written', m'', hrun', hm''⟩ := @added_of_apart _ clock environmentId b m' _
        (hm'.tables ▸ hindexed) (fun d hd => htruncates d (hb d hd)) (hrange.second hm')
        (fun d hd => hstorable d (hb d hd)) (hm'.tables ▸ hapart.of_subset hb) second
      obtain ⟨_, both, hboth, hadded⟩ := hadded iteration
      refine ⟨written, written', m', m'', hrun, hrun', fun key => ?_⟩
      rw [hboth, hadded.cells, hm''.cells, hm'.tables]
      exact expected_append (hm'.cells key)
  · have hrefused := @refused_of_not_truncates _ clock environmentId deltas m _ htruncates
    refine ⟨fun hnot => absurd hnot htruncates, ?_, ?_, fun hnot => absurd hnot htruncates,
      fun _ => hrefused⟩
    · intro iteration cells hcells
      have hrun := hrefused iteration
      simp only [ingestCounters, hcells] at hrun
      split at hrun <;> cases hrun
    · intro deltas' hperm iteration iteration'
      have htruncates' : ¬Truncates clock deltas' :=
        fun hall => htruncates fun d hd => hall d (hperm.mem_iff.mp hd)
      rw [hrefused, refused_of_not_truncates htruncates']
      exact ⟨rfl, fun _ => rfl⟩

/-- Ingest adds exactly what was sent, in any order of increments and cells and in any division into
    batches, if and only if the texts can be stored and hours that are stored alike are one hour for
    the program. With a time that cannot be truncated nothing is added. -/
theorem ingest_exact_iff (clock : Clock Time) (environmentId : Uuid) (deltas : List (Delta Time))
    (m : Measured) (hindexed : Indexed m.db) (hrange : InRange clock environmentId deltas m) :
    Exact clock environmentId deltas m ↔
      (Truncates clock deltas → Storable deltas ∧ Apart clock environmentId m.db deltas) := by
  refine ⟨?_, exact_of_apart hindexed hrange⟩
  intro h htruncates
  obtain ⟨cells, hcells, hholds⟩ := holds_of_collapse htruncates ⟨id, fun _ => .refl _⟩
  obtain ⟨written, m', hrun, _⟩ := h.added htruncates ⟨id, fun _ => .refl _⟩
  simp only [ingestCounters, hcells] at hrun
  split at hrun
  · rename_i hinsert
    exact of_insert hindexed htruncates hholds hinsert
  · cases hrun

end

/-! ### Times that are stored as they are -/

section Own

variable {trunc : Timestamp → Option Timestamp} {environmentId : Uuid}
  {deltas : List (Delta Timestamp)} {cells : List (Cell Timestamp × Nat)} {m : Measured}

/-- The times of the database. -/
def own (trunc : Timestamp → Option Timestamp) : Clock Timestamp :=
  ⟨trunc, id⟩

def Delta.toCounterDelta (delta : Delta Timestamp) : CounterDelta :=
  ⟨delta.experimentKey, delta.variant, delta.kind, delta.happened, delta.count⟩

theorem bySearch_cons (first e : Cell Timestamp × Nat) : perCell.bySearch (first :: cells) e =
    if first.1 = e.1 then (first.1, first.2 + e.2) :: cells
    else first :: perCell.bySearch cells e :=
  rfl

theorem addTo_eq (e : Cell Timestamp × Nat) :
    Counting.addTo (stored (own trunc) e).1 e.2 (cells.map (stored (own trunc))) =
      (perCell.bySearch cells e).map (stored (own trunc)) := by
  induction cells with
  | nil => simp [Counting.addTo, Gather.bySearch, perCell, stored]
  | cons first cells ih =>
      have hsame : (stored (own trunc) first).1 = (stored (own trunc) e).1 ↔ first.1 = e.1 := by
        obtain ⟨⟨_, _, _, _⟩, _⟩ := first
        obtain ⟨⟨_, _, _, _⟩, _⟩ := e
        simp [stored, own]
      rw [List.map_cons, Counting.addTo, bySearch_cons]
      by_cases hcell : first.1 = e.1
      · rw [if_pos (hsame.mpr hcell), if_pos hcell]
        rfl
      · rw [if_neg fun h => hcell (hsame.mp h), if_neg hcell, List.map_cons, ih]

theorem collapse_eq : Counting.collapse trunc (deltas.map Delta.toCounterDelta)
    (cells.map (stored (own trunc))) =
      (collapse (own trunc) deltas cells).map (·.map (stored (own trunc))) := by
  induction deltas generalizing cells with
  | nil => rfl
  | cons delta deltas ih =>
      rw [List.map_cons, Counting.collapse, collapse]
      cases hhour : trunc delta.happened with
      | none => simp [Delta.toCounterDelta, own, hhour]
      | some hour =>
          have htrunc : (own trunc).trunc delta.happened = some hour := hhour
          simp only [Delta.toCounterDelta, hhour, htrunc]
          have hadd := @addTo_eq trunc cells
            (⟨delta.experimentKey, delta.variant, delta.kind, hour⟩, delta.count)
          rw [← ih, ← hadd]
          rfl

/-- Then the batch is ingested as the storage function ingests it. -/
theorem ingestCounters_eq (hindexed : Indexed m.db) (hstorable : Storable deltas) {input : Sql.Input}
    (hfails : input.fails = false) :
    Prog.runAlone Counting.exec (fun _ => input)
        (Counting.ingestCounters trunc environmentId (deltas.map Delta.toCounterDelta)).run m =
      ingestCounters (own trunc) ⟨id, fun _ => .refl _⟩ environmentId deltas m := by
  have hcollapse := @collapse_eq trunc deltas []
  rw [List.map_nil] at hcollapse
  rw [Counting.ingestCounters, hcollapse]
  by_cases htruncates : Truncates (own trunc) deltas
  · obtain ⟨cells, hcells, hordered⟩ := holds_of_collapse htruncates ⟨id, fun _ => .refl _⟩
    have hholds : Holds (own trunc) deltas cells := hordered
    have hchecked := (hholds.storable_iff htruncates).mpr hstorable
    have hapart : Apart (own trunc) environmentId m.db deltas := apart_of_injective fun _ _ => id
    have hnodup := pairwise_sameCell.mpr ((hholds.nodup_iff hindexed).mpr hapart)
    rw [← flatMap_joined] at hnodup
    have hinsert : insert environmentId (columnsOf (own trunc) cells) m =
        Counting.ingestCells environmentId (cells.map (stored (own trunc))) m := by
      change (if (columnsOf (own trunc) cells).keys.all storable &&
        (columnsOf (own trunc) cells).variants.all storable then _ else _) = _
      rw [if_pos hchecked, readRow_unnest]
      exact if_pos hnodup
    simp only [ingestCounters, hcells, Option.map_some, id_eq, hinsert]
    change Prog.runAlone Counting.exec _ (.call (.ingest environmentId _) _) m = _
    rw [Prog.runAlone]
    simp only [Counting.exec, hfails]
    cases Counting.ingestCells environmentId (cells.map (stored (own trunc))) m with
    | ok written => rfl
    | error e => rfl
  · have hnone : ∃ d ∈ deltas, (own trunc).trunc d.happened = none :=
      exists_of_not_truncates htruncates
    rw [refused_of_not_truncates htruncates, collapse_none hnone]
    rfl

end Own

/-! ### A leap second -/

/-- A time of the chrono crate: seconds since the epoch and nanoseconds, which are a leap second's from
    1,000,000,000 on. -/
structure Moment where
  seconds : Int
  nanoseconds : Nat
deriving DecidableEq

namespace Moment

def stamp (time : Moment) : Int :=
  time.seconds * 1000000000 + time.nanoseconds

/-- A subtraction of less than a second does not leave a leap second. -/
def minus (time : Moment) (span : Int) : Moment :=
  if 1000000000 ≤ time.nanoseconds ∧ span < 1000000000 then
    ⟨time.seconds, time.nanoseconds - span.toNat⟩
  else
    ⟨(time.stamp - span) / 1000000000, ((time.stamp - span) % 1000000000).toNat⟩

/-- The nanoseconds since the epoch have to fit an `i64`. -/
def trunc (time : Moment) : Option Moment :=
  if -2 ^ 63 ≤ time.stamp ∧ time.stamp < 2 ^ 63 then
    let span := time.stamp % 3600000000000
    if span = 0 then some time else some (time.minus span)
  else none

def clock : Clock Moment where
  trunc := trunc
  stored time := time.stamp / 1000

end Moment

namespace Leap

def trial : ExperimentRow where
  id := ⟨5⟩
  environmentId := ⟨2⟩
  flagId := ⟨3⟩
  key := "trial"
  name := "Trial"
  description := none
  metricKey := "sales"
  controlVariant := "on"
  state := .running
  startedAt := some 0
  stoppedAt := none
  version := 2
  createdAt := 0
  updatedAt := 0

def tables : Measured where
  db := { Db.empty with experiments := [trial] }
  counters := []

/-- An exposure at 10:59:60, a leap second, and one at 11:00:00. -/
def batch : List (Delta Moment) :=
  [⟨"trial", "on", .exposure, ⟨39599, 1000000000⟩, 1⟩, ⟨"trial", "on", .exposure, ⟨39600, 0⟩, 1⟩]

/-- An exposure at 11:00:00, and one of a variant that no `TEXT` can hold. -/
def unstorable : List (Delta Moment) :=
  [⟨"trial", "on", .exposure, ⟨39600, 0⟩, 1⟩,
    ⟨"trial", String.singleton (Char.ofNat 0), .exposure, ⟨39600, 0⟩, 1⟩]

/-- Exposures at 10:30 and 10:45, and one at 11:15. -/
def duplicates : List (Delta Moment) :=
  [⟨"trial", "on", .exposure, ⟨37800, 0⟩, 1⟩, ⟨"trial", "on", .exposure, ⟨40500, 0⟩, 3⟩,
    ⟨"trial", "on", .exposure, ⟨38700, 0⟩, 2⟩]

theorem truncates_batch : Truncates Moment.clock batch := by
  unfold Truncates
  decide

theorem truncates_unstorable : Truncates Moment.clock unstorable := by
  unfold Truncates
  decide

end Leap

/-- The leap second stays a time of its own, which the database stores as the next hour: the statement
    names one row twice, and the whole batch is lost. So it is with a text that cannot be stored. -/
theorem leap_second_loses_batch : ¬Exact Moment.clock ⟨2⟩ Leap.batch Leap.tables ∧
    ¬Exact Moment.clock ⟨2⟩ Leap.unstorable Leap.tables := by
  constructor
  · intro h
    obtain ⟨written, m', hrun, _⟩ := h.added Leap.truncates_batch ⟨id, fun _ => .refl _⟩
    have herror : (ingestCounters Moment.clock ⟨id, fun _ => .refl _⟩ ⟨2⟩ Leap.batch Leap.tables).1 =
        .error .database := by decide +kernel
    rw [hrun] at herror
    cases herror
  · intro h
    obtain ⟨written, m', hrun, _⟩ := h.added Leap.truncates_unstorable ⟨id, fun _ => .refl _⟩
    have herror : (ingestCounters Moment.clock ⟨id, fun _ => .refl _⟩ ⟨2⟩ Leap.unstorable
        Leap.tables).1 = .error .database := by decide +kernel
    rw [hrun] at herror
    cases herror

/-- Two exposures in one hour and one in the next are three increments for two cells. -/
theorem ingest_exact_iff_duplicates : Exact Moment.clock ⟨2⟩ Leap.duplicates Leap.tables ∧
    (ingestCounters Moment.clock ⟨id, fun _ => .refl _⟩ ⟨2⟩ Leap.duplicates Leap.tables).1 = .ok 2 := by
  have hindexed : Indexed Leap.tables.db := ⟨by decide +kernel, by decide +kernel⟩
  have hrange : InRange Moment.clock ⟨2⟩ Leap.duplicates Leap.tables := by
    intro key
    have hsent := @sent_le _ Moment.clock ⟨2⟩ Leap.duplicates Leap.tables.db key
    have htotal : (Leap.duplicates.map Delta.count).sum = 6 := by decide
    have hlookup : (lookup key Leap.tables.counters).getD 0 = 0 := rfl
    omega
  refine ⟨(ingest_exact_iff Moment.clock ⟨2⟩ Leap.duplicates Leap.tables hindexed hrange).mpr ?_,
    by decide +kernel⟩
  intro _
  refine ⟨by unfold Storable; decide, ?_⟩
  -- the hours are ten and eleven, which are stored apart
  have hhours : ∀ d ∈ Leap.duplicates, Moment.clock.trunc d.happened = some ⟨36000, 0⟩ ∨
      Moment.clock.trunc d.happened = some ⟨39600, 0⟩ := by decide
  intro d hd d' hd' _ _ _ _ hour hour' hhour hhour' hstored
  rcases hhours d hd with h | h <;> rcases hhours d' hd' with h' | h' <;>
    cases hhour.symm.trans h <;> cases hhour'.symm.trans h'
  · rfl
  · exact absurd hstored (by decide)
  · exact absurd hstored (by decide)
  · rfl

end FlagForge.Storage.Ingest
