/-
Module: FlagForge.Api.Cache
Layer: Api
Purpose: The snapshot cache of a node, over the database with its notify triggers. What is cached for
  an environment is what a load of the database returns, or the listener has yet to store what it
  loads for a notification; snapshots are stored in the order in which their loads began; and no get
  goes behind a refresh that has completed.
Imports: FlagForge.Lib.CacheReads, FlagForge.Storage.TornLoad, FlagForge.Storage.Contents
Trusted boundary: notifications of a commit are queued with it and taken in order; a new row's id is
  no other row's, past ones included
Main exports: snapshotStore, SnapshotCache, cached, cache_coherent
-/
import FlagForge.Lib.CacheReads
import FlagForge.Storage.TornLoad
import FlagForge.Storage.Contents

namespace FlagForge.Api

open Storage
open Storage.Sql (Input Stmt Written)
open Machine (Trace)
open NotifiedCache (Cache Move)

/-- What one of the reads of a load returns. -/
inductive Part where
  | environment (row : Option (String × String))
  | flags (flags : List Flag)
  | segments (segments : List SegmentRow)
  | experiments (experiments : List ExperimentSpec)

/-- The reads of `snapshot::load`, in turn. -/
def reads (environmentId : Uuid) : List (Db → Part) :=
  [fun db => .environment (Sql.selectSalt environmentId db),
    fun db => .flags (Sql.selectEnvironmentFlags environmentId db),
    fun db => .segments (Sql.selectSegments environmentId db),
    fun db => .experiments (Sql.selectRunningExperiments environmentId db)]

/-- What a load makes of what its reads have returned. -/
def cached (environmentId : Uuid) (now : Timestamp) :
    List Part → Option (EnvironmentSnapshot Timestamp)
  | [.environment row, .flags flags, .segments segments, .experiments experiments] =>
      row.map fun row => (EnvironmentSnapshot.new environmentId row.1 row.2 flags
        (segments.map SegmentRow.definition) now).withExperiments experiments
  | _ => none

/-- The environments that a trigger names are those of the project. -/
theorem mem_environmentIds {environmentId : Uuid} {db : Db} :
    environmentId ∈ db.environments.map EnvironmentRow.id ↔ Live environmentId db :=
  List.mem_map

/-- The database as the cache sees it. A commit notifies each environment once. -/
def snapshotStore : NotifyingStore Uuid Part Db (Input × Stmt) where
  keys db := db.environments.map EnvironmentRow.id
  reads := reads
  commit write db :=
    match write.2.run write.1 db with
    | .ok w => some (w.notified.eraseDups, w.db)
    | .error _ => none
  Good := Tidy
  Suits db write := Aimed write.2 db
  reads_ne _ := List.cons_ne_nil _ _
  good_commit := by
    intro write db notified db' hgood haimed hcommit
    split at hcommit
    next w hw =>
      cases hcommit
      exact hgood.run haimed hw
    next => cases hcommit
  silent := by
    intro write db notified db' environmentId hgood _ hcommit hlive hlive' hnot
    split at hcommit
    next w hw =>
      cases hcommit
      rw [List.mem_eraseDups] at hnot
      have hsame := sameReads_of_not_notified hgood hw (mem_environmentIds.mp hlive)
        (mem_environmentIds.mp hlive') hnot
      intro read hread
      simp only [reads, List.mem_cons, List.not_mem_nil, or_false] at hread
      rcases hread with rfl | rfl | rfl | rfl
      · exact congrArg Part.environment hsame.salt
      · exact congrArg Part.flags hsame.flags
      · exact congrArg Part.segments hsame.segments
      · exact congrArg Part.experiments hsame.experiments
    next => cases hcommit

/-- The cache, the database and everyone who uses them. -/
abbrev SnapshotCache := Cache Uuid Part Db

namespace SnapshotCache

abbrev Move := NotifiedCache.Move Uuid (Input × Stmt)

abbrev step : Move → SnapshotCache → Option SnapshotCache :=
  NotifiedCache.step snapshotStore

/-- A node starts with nothing cached. -/
abbrev start (db : Db) : SnapshotCache :=
  NotifiedCache.Cache.start snapshotStore db

/-- A commit is an aimed write, and a new environment's id is no other environment's, past ones
    included. -/
abbrev Keeps : SnapshotCache → Move → Prop :=
  NotifiedCache.Keeps snapshotStore

end SnapshotCache

section Snapshots

variable {environmentId : Uuid} {now : Timestamp} {db : Db}

/-- What is made of the reads is what `load` puts together (`load_among`), whatever states they find. -/
theorem cached_reads {env flags segments experiments : Db} :
    cached environmentId now [.environment (Sql.selectSalt environmentId env),
      .flags (Sql.selectEnvironmentFlags environmentId flags),
      .segments (Sql.selectSegments environmentId segments),
      .experiments (Sql.selectRunningExperiments environmentId experiments)] =
    assembled environmentId now env flags segments experiments :=
  rfl

/-- What a load makes of the rows of one state is what that state serves. -/
theorem cached_current : cached environmentId now
    (NotifiedCache.current snapshotStore environmentId db) = snapshotAt environmentId now db :=
  rfl

end Snapshots

/-- The reads of a load, each of a state of its own. -/
theorem assembled_of_found {environmentId : Uuid} (now : Timestamp)
    {states : List (NotifiedCache.Memory Uuid Part Db)} {floor : Nat} {parts : List Part}
    (h : List.Forall₂ (NotifiedCache.Found states floor) (reads environmentId) parts) :
    ∃ env ∈ states, ∃ flags ∈ states, ∃ segments ∈ states, ∃ experiments ∈ states,
      (floor ≤ env.commits ∧ floor ≤ flags.commits ∧ floor ≤ segments.commits ∧
        floor ≤ experiments.commits) ∧
      cached environmentId now parts =
        assembled environmentId now env.db flags.db segments.db experiments.db := by
  cases h with
  | cons henv h =>
  cases h with
  | cons hflags h =>
  cases h with
  | cons hsegments h =>
  cases h with
  | cons hexperiments h =>
  cases h
  obtain ⟨env, henv, henvCommits, rfl⟩ := henv
  obtain ⟨flags, hflags, hflagsCommits, rfl⟩ := hflags
  obtain ⟨segments, hsegments, hsegmentsCommits, rfl⟩ := hsegments
  obtain ⟨experiments, hexperiments, hexperimentsCommits, rfl⟩ := hexperiments
  exact ⟨env, henv, flags, hflags, segments, hsegments, experiments, hexperiments,
    ⟨henvCommits, hflagsCommits, hsegmentsCommits, hexperimentsCommits⟩, cached_reads⟩

/-- In every state of a node: what is cached for an environment that is there is what a load of the
    database returns, or a notification for it is queued, or the listener has yet to store what it
    loads for one; a snapshot is only replaced by one whose load began later; and what a get returns
    was read after all the commits that a refresh had seen when it began, of the refreshes that had
    completed when the get began. -/
theorem cache_coherent {db : Db} {s : SnapshotCache}
    {history : List (SnapshotCache × SnapshotCache.Move)} (hdb : Stored db)
    (h : Trace SnapshotCache.step (SnapshotCache.start db) history s)
    (hkeeps : ∀ e ∈ history, SnapshotCache.Keeps e.1 e.2) :
    (∀ environmentId i load now, Live environmentId s.memory.db →
      s.memory.map environmentId = some i → (s.memory.slots i).value = some load →
        cached environmentId now load.parts = snapshotAt environmentId now s.memory.db ∨
          environmentId ∈ s.queue ∨ (s.pc 0).Refreshes environmentId i) ∧
    (∀ later s', Trace SnapshotCache.step s later s' →
      ∀ i load, (s.memory.slots i).value = some load →
        ∃ load', (s'.memory.slots i).value = some load' ∧
          (load' = load ∨ load.number < load'.number)) ∧
    ∀ t floor environmentId load now, s.pc t = .returned floor environmentId (some load) →
      ∃ env ∈ NotifiedCache.visited history s, ∃ flags ∈ NotifiedCache.visited history s,
      ∃ segments ∈ NotifiedCache.visited history s,
      ∃ experiments ∈ NotifiedCache.visited history s,
        (floor ≤ env.commits ∧ floor ≤ flags.commits ∧ floor ≤ segments.commits ∧
          floor ≤ experiments.commits) ∧
        cached environmentId now load.parts =
          assembled environmentId now env.db flags.db segments.db experiments.db := by
  refine ⟨?_, ?_, ?_⟩
  · intro environmentId i load now hlive hi hload
    have hkey : environmentId ∈ snapshotStore.keys s.memory.db := mem_environmentIds.mpr hlive
    rcases NotifiedCache.coherent hdb.tidy h hkeeps hkey hi hload with hcurrent | hrest
    · left
      rw [hcurrent, cached_current]
    · exact .inr hrest
  · intro later s' hlater i load hload
    exact NotifiedCache.stored_in_order h hlater hload
  · intro t floor environmentId load now hpc
    exact assembled_of_found now (NotifiedCache.returned_reads h hpc)

/-! ### A flag is turned on in an environment that is cached -/

namespace Node

/-- The first get of the environment. -/
def warmUp : List SnapshotCache.Move :=
  .get 1 Trial.environmentId :: List.replicate 10 (.advance 1)

def warm : SnapshotCache :=
  (Machine.follow SnapshotCache.step warmUp (SnapshotCache.start Trial.flag)).getD
    (SnapshotCache.start Trial.flag)

def turnOn : SnapshotCache.Move :=
  .commit (Trial.tick ⟨4⟩, Trial.configure)

def turnedOn : SnapshotCache :=
  (SnapshotCache.step turnOn warm).getD warm

/-- Warming up writes nothing. -/
theorem warmUp_keeps {s : SnapshotCache} {move : SnapshotCache.Move} (h : move ∈ warmUp) :
    SnapshotCache.Keeps s move := by
  rcases List.mem_cons.mp h with rfl | h
  · trivial
  · rw [List.eq_of_mem_replicate h]
    trivial

/-- Turning a flag on keeps the tables stored. -/
theorem turnOn_keeps : SnapshotCache.Keeps warm turnOn := by
  refine ⟨Trial.configure_aimed, ?_⟩
  intro notified db' hcommit environmentId hlive
  cases hcommit
  exact .inl hlive

/-- What is cached goes stale with the commit, and the commit queues a notification. -/
theorem turnedOn_reached : ∃ history,
    Trace SnapshotCache.step (SnapshotCache.start Trial.flag) history turnedOn ∧
      ∀ e ∈ history, SnapshotCache.Keeps e.1 e.2 := by
  have hwarm : Machine.follow SnapshotCache.step warmUp (SnapshotCache.start Trial.flag) =
      some warm := rfl
  obtain ⟨history, htrace, hmoves⟩ := Machine.trace_of_follow hwarm
  refine ⟨(warm, turnOn) :: history, htrace.move rfl, ?_⟩
  rw [List.forall_mem_cons]
  refine ⟨turnOn_keeps, ?_⟩
  intro e he
  have hmove : e.2 ∈ warmUp.reverse := hmoves ▸ List.mem_map_of_mem he
  exact warmUp_keeps (List.mem_reverse.mp hmove)

end Node

/-- The snapshot from before the commit is still cached, and the notification is queued. -/
theorem cache_coherent_turnedOn : ∃ load,
    (Node.turnedOn.memory.slots 0).value = some load ∧
      (cached Trial.environmentId 0 load.parts =
        snapshotAt Trial.environmentId 0 Node.turnedOn.memory.db ∨
      Trial.environmentId ∈ Node.turnedOn.queue ∨
      (Node.turnedOn.pc 0).Refreshes Trial.environmentId 0) := by
  obtain ⟨history, htrace, hkeeps⟩ := Node.turnedOn_reached
  have hlive : Live Trial.environmentId Node.turnedOn.memory.db :=
    mem_environmentIds.mp List.mem_cons_self
  exact ⟨_, rfl, (cache_coherent Trial.flag_stored htrace hkeeps).1 Trial.environmentId 0 _ 0 hlive
    rfl rfl⟩

end FlagForge.Api
