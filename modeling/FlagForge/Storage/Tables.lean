/-
Module: FlagForge.Storage.Tables
Layer: Storage
Purpose: The tables of the schema as lists of typed rows. JSON columns hold the values they decode
  to, and so do the images in the audit log. Tables that no modelled statement reads (users, keys,
  counters) are left out.
Imports: FlagForge.Core.Snapshot, FlagForge.Lib.Table
Trusted boundary: none
Main exports: Db, FlagRow, ConfigRow, SegmentRow, EnvironmentRow, ExperimentRow, Image
-/
import FlagForge.Core.Snapshot
import FlagForge.Lib.Table

namespace FlagForge.Storage

open Json (StringSet)

/-- Microseconds since the epoch. -/
abbrev Timestamp := Int

structure ProjectRow where
  id : Uuid
  organizationId : Uuid
  key : String
  name : String
  description : Option String
  createdAt : Timestamp

structure EnvironmentRow where
  id : Uuid
  projectId : Uuid
  key : String
  name : String
  /-- Per environment, so that canaries are independent samples. -/
  salt : String
  isProduction : Bool
  createdAt : Timestamp

structure FlagRow where
  id : Uuid
  projectId : Uuid
  key : String
  name : String
  description : Option String
  /-- Shared by every environment of the project. -/
  variants : List Variant
  archived : Bool
  createdAt : Timestamp
  updatedAt : Timestamp

/-- A flag's configuration inside one environment. -/
structure ConfigRow where
  flagId : Uuid
  environmentId : Uuid
  enabled : Bool
  offVariant : String
  fallthrough : Distribution
  rules : List Rule
  version : Int64
  updatedAt : Timestamp

structure SegmentRow where
  id : Uuid
  environmentId : Uuid
  key : String
  name : String
  description : Option String
  included : StringSet
  excluded : StringSet
  rules : List SegmentRule
  version : Int64
  createdAt : Timestamp
  updatedAt : Timestamp

/-- The evaluation view of the row. -/
def SegmentRow.definition (row : SegmentRow) : Segment where
  key := row.key
  description := row.description
  included := row.included
  excluded := row.excluded
  rules := row.rules
  version := row.version

/-- Draft, running, stopped: one way. -/
inductive ExperimentState where
  | draft
  | running
  | stopped
deriving DecidableEq

def ExperimentState.asStr : ExperimentState → String
  | .draft => "draft"
  | .running => "running"
  | .stopped => "stopped"

structure ExperimentRow where
  id : Uuid
  environmentId : Uuid
  flagId : Uuid
  key : String
  name : String
  description : Option String
  metricKey : String
  controlVariant : String
  state : ExperimentState
  startedAt : Option Timestamp
  stoppedAt : Option Timestamp
  version : Int64
  createdAt : Timestamp
  updatedAt : Timestamp

/-- A row as an audit entry shows it. -/
inductive Image where
  | project (row : ProjectRow)
  /-- The salt is not shown. -/
  | environment (id projectId : Uuid) (key name : String) (isProduction : Bool)
      (createdAt : Timestamp)
  | flag (row : FlagRow)
  | config (row : ConfigRow)
  | segment (row : SegmentRow)
  /-- What is joined from the flag is left out. -/
  | experiment (row : ExperimentRow)

def EnvironmentRow.image (row : EnvironmentRow) : Image :=
  .environment row.id row.projectId row.key row.name row.isProduction row.createdAt

structure AuditRow where
  organizationId : Uuid
  actorUserId : Option Uuid
  actorEmail : String
  action : String
  resourceType : String
  resourceId : String
  environmentId : Option Uuid
  before : Option Image
  after : Option Image
  createdAt : Timestamp

/-- The committed rows. -/
structure Db where
  projects : List ProjectRow
  environments : List EnvironmentRow
  flags : List FlagRow
  flagConfigs : List ConfigRow
  segments : List SegmentRow
  experiments : List ExperimentRow
  auditLog : List AuditRow

/-- The store after the migrations. -/
def Db.empty : Db :=
  ⟨[], [], [], [], [], [], []⟩

/-- Whether the row configures the flag in the environment: the primary key of `flag_configs`. -/
def ConfigRow.isFor (flagId environmentId : Uuid) (row : ConfigRow) : Bool :=
  row.flagId = flagId && row.environmentId = environmentId

/-- Whether the row is the environment's segment of that key. -/
def SegmentRow.isFor (environmentId : Uuid) (key : String) (row : SegmentRow) : Bool :=
  row.environmentId = environmentId && row.key = key

/-- Whether the row is the environment's experiment of that key. -/
def ExperimentRow.isFor (environmentId : Uuid) (key : String) (row : ExperimentRow) : Bool :=
  row.environmentId = environmentId && row.key = key

/-- Whether the row is the project's flag of that key. -/
def FlagRow.isFor (projectId : Uuid) (key : String) (row : FlagRow) : Bool :=
  row.projectId = projectId && row.key = key

/-- Whether the row is the project's environment of that key. -/
def EnvironmentRow.isFor (projectId : Uuid) (key : String) (row : EnvironmentRow) : Bool :=
  row.projectId = projectId && row.key = key

@[simp] theorem ConfigRow.isFor_iff {flagId environmentId : Uuid} {row : ConfigRow} :
    row.isFor flagId environmentId = true ↔
      row.flagId = flagId ∧ row.environmentId = environmentId := by
  simp [isFor]

@[simp] theorem SegmentRow.isFor_iff {environmentId : Uuid} {key : String} {row : SegmentRow} :
    row.isFor environmentId key = true ↔ row.environmentId = environmentId ∧ row.key = key := by
  simp [isFor]

/-- A row is for one configuration only. -/
theorem ConfigRow.isFor_eq_false {flagId flagId' environmentId environmentId' : Uuid}
    {row : ConfigRow} (hrow : row.isFor flagId' environmentId' = true)
    (h : ¬(flagId' = flagId ∧ environmentId' = environmentId)) :
    row.isFor flagId environmentId = false := by
  rw [isFor_iff] at hrow
  rw [Bool.eq_false_iff, Ne, isFor_iff, hrow.1, hrow.2]
  exact h

/-- A row is for one segment only. -/
theorem SegmentRow.isFor_eq_false {environmentId environmentId' : Uuid} {key key' : String}
    {row : SegmentRow} (hrow : row.isFor environmentId' key' = true)
    (h : ¬(environmentId' = environmentId ∧ key' = key)) : row.isFor environmentId key = false := by
  rw [isFor_iff] at hrow
  rw [Bool.eq_false_iff, Ne, isFor_iff, hrow.1, hrow.2]
  exact h

@[simp] theorem ExperimentRow.isFor_iff {environmentId : Uuid} {key : String}
    {row : ExperimentRow} :
    row.isFor environmentId key = true ↔ row.environmentId = environmentId ∧ row.key = key := by
  simp [isFor]

@[simp] theorem FlagRow.isFor_iff {projectId : Uuid} {key : String} {row : FlagRow} :
    row.isFor projectId key = true ↔ row.projectId = projectId ∧ row.key = key := by
  simp [isFor]

@[simp] theorem EnvironmentRow.isFor_iff {projectId : Uuid} {key : String} {row : EnvironmentRow} :
    row.isFor projectId key = true ↔ row.projectId = projectId ∧ row.key = key := by
  simp [isFor]

end FlagForge.Storage
