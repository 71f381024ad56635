/-
Module: FlagForge.Storage.Queries
Layer: Storage
Purpose: The functions of the storage crate as fallible programs over SQL statements, with the
  errors they translate.
Imports: FlagForge.Storage.Statements, FlagForge.Lib.Interleaving
Trusted boundary: none
Main exports: Query, StorageError, findFlag, upsertConfig, updateSegment, deleteSegment, load
-/
import FlagForge.Storage.Statements
import FlagForge.Lib.Interleaving

namespace FlagForge.Storage

open Json (StringSet)
open Sql (Stmt Resp SqlError FlagPatch SegmentPatch NewAuditEntry)

/-- Storage errors, in terms the API layer maps to status codes. -/
inductive StorageError where
  | notFound (entity : String)
  | conflict (entity key : String)
  /-- The caller's expected version no longer matches. -/
  | versionConflict (entity : String) (expected : Int64)
  | invalid (entity : String)
  /-- A delete refused because something still points at the row. -/
  | inUse (entity key : String) (referencedBy : List String)
  /-- An operation that is only legal in some lifecycle state, attempted in another. -/
  | wrongState (entity key actual needed : String)
  | database
deriving DecidableEq

/-- Translates constraint violations into domain errors. -/
def StorageError.fromWrite (entity key : String) : SqlError → StorageError
  | .uniqueViolation => .conflict entity key
  | .foreignKeyViolation => .notFound entity
  | .checkViolation => .invalid entity
  | .other => .database

/-- A program over the database. -/
abbrev Query := Fallible Stmt Resp StorageError

/-- One statement, its errors translated by `onError`. -/
def query (s : Stmt) (onError : SqlError → StorageError) : Query s.Result :=
  ExceptT.mk (.call s fun r => .done (r.mapError onError))

/-- One statement whose errors are the database's own. -/
def plain (s : Stmt) : Query s.Result :=
  query s fun _ => .database

/-- No row is an error. -/
def orNotFound {α : Type} (entity : String) (row : Option α) : Query α :=
  ExceptT.mk (.done (row.elim (.error (.notFound entity)) .ok))

/-- No row deleted is an error. -/
def orNoneDeleted (entity : String) (deleted : Nat) : Query Unit :=
  ExceptT.mk (.done (if deleted = 0 then .error (.notFound entity) else .ok ()))

/-! ### Projects and environments -/

def createProject (organizationId : Uuid) (key name : String) (description : Option String) :
    Query ProjectRow :=
  query (.insertProject organizationId key name description) (.fromWrite "project" key)

def findProject (organizationId : Uuid) (key : String) : Query ProjectRow := do
  let row ← plain (.selectProject organizationId key)
  orNotFound "project" row

def deleteProject (organizationId : Uuid) (key : String) : Query Unit := do
  let deleted ← plain (.deleteProject organizationId key)
  orNoneDeleted "project" deleted

def createEnvironment (projectId : Uuid) (key name salt : String) (isProduction : Bool) :
    Query EnvironmentRow :=
  query (.createEnvironment projectId key name salt isProduction) (.fromWrite "environment" key)

def listEnvironments (projectId : Uuid) : Query (List EnvironmentRow) :=
  plain (.selectEnvironments projectId)

def findEnvironment (projectId : Uuid) (key : String) : Query EnvironmentRow := do
  let row ← plain (.selectEnvironment projectId key)
  orNotFound "environment" row

def deleteEnvironment (projectId : Uuid) (key : String) : Query Unit := do
  let deleted ← plain (.deleteEnvironment projectId key)
  orNoneDeleted "environment" deleted

/-! ### Flags -/

def createFlag (projectId : Uuid) (key name : String) (description : Option String)
    (variants : List Variant) (offVariant : String) (fallthrough : Distribution) :
    Query FlagRow :=
  query (.createFlag projectId key name description variants offVariant fallthrough)
    (.fromWrite "flag" key)

def findFlag (projectId : Uuid) (key : String) : Query FlagRow := do
  let row ← plain (.selectFlag projectId key)
  orNotFound "flag" row

/-- Partial update; an absent field leaves its column untouched. -/
def updateFlag (crates : Crates) (flagId : Uuid) (patch : FlagPatch) : Query FlagRow := do
  let row ← query (.updateFlag flagId patch) (.fromWrite "flag" (crates.uuidText flagId))
  orNotFound "flag" row

/-- A delete is refused while something still points at the row. -/
def refuseInUse (entity key : String) (referencing : List String) : Query Unit :=
  ExceptT.mk (.done (if referencing.isEmpty then .ok () else
    .error (.inUse entity key referencing)))

/-- Deletes a flag, refusing while any experiment still references it. -/
def deleteFlag (projectId : Uuid) (key : String) : Query Unit := do
  let flag ← findFlag projectId key
  let referencing ← plain (.selectExperimentsOfFlag flag.id)
  refuseInUse "flag" key referencing
  let deleted ← plain (.deleteFlag projectId key)
  orNoneDeleted "flag" deleted

def findConfig (flagId environmentId : Uuid) : Query ConfigRow := do
  let row ← plain (.selectConfig flagId environmentId)
  orNotFound "flag configuration" row

/-- No row came back: the version guard filtered the write out, so someone else wrote first. -/
def orConflict {α : Type} (entity : String) (expected : Int64) (row : Option α) : Query α :=
  ExceptT.mk (.done (row.elim (.error (.versionConflict entity expected)) .ok))

/-- Writes a flag's configuration for one environment, with optimistic concurrency when a version
    is expected. -/
def upsertConfig (crates : Crates) (flagId environmentId : Uuid) (enabled : Bool)
    (offVariant : String) (fallthrough : Distribution) (rules : List Rule)
    (expectedVersion : Option Int64) : Query ConfigRow := do
  let row ← query
    (.upsertConfig flagId environmentId enabled offVariant fallthrough rules expectedVersion)
    (.fromWrite "flag configuration" (crates.uuidText flagId))
  orConflict "flag configuration" (expectedVersion.getD 0) row

/-! ### Segments -/

def createSegment (environmentId : Uuid) (key name : String) (description : Option String) :
    Query SegmentRow :=
  query (.insertSegment environmentId key name description) (.fromWrite "segment" key)

def findSegment (environmentId : Uuid) (key : String) : Query SegmentRow := do
  let row ← plain (.selectSegment environmentId key)
  orNotFound "segment" row

/-- Refuses a copy that does not carry the expected version. -/
def checkVersion (entity : String) (expected : Option Int64) (version : Int64) : Query Unit :=
  ExceptT.mk (.done (match expected with
    | some expected =>
        if version = expected then .ok () else .error (.versionConflict entity expected)
    | none => .ok ()))

/-- Rewrites a segment's membership definition. The read tells a version mismatch from a missing
    segment; the update is guarded again. -/
def updateSegment (environmentId : Uuid) (key : String) (patch : SegmentPatch)
    (expectedVersion : Option Int64) : Query SegmentRow := do
  let current ← findSegment environmentId key
  checkVersion "segment" expectedVersion current.version
  let row ← query (.updateSegment environmentId key patch expectedVersion)
    (.fromWrite "segment" key)
  orConflict "segment" (expectedVersion.getD current.version) row

/-- Deletes a segment, refusing while any flag rule still references it. -/
def deleteSegment (environmentId : Uuid) (key : String) : Query Unit := do
  let referencing ← plain (.selectReferencingFlags environmentId key)
  refuseInUse "segment" key referencing
  let deleted ← plain (.deleteSegment environmentId key)
  orNoneDeleted "segment" deleted

/-- The keys defined in one environment. -/
def segmentKeys (environmentId : Uuid) : Query StringSet :=
  plain (.selectSegmentKeys environmentId)

/-! ### Experiments -/

def findExperiment (environmentId : Uuid) (key : String) : Query ExperimentRow := do
  let row ← plain (.selectExperiment environmentId key)
  orNotFound "experiment" row

def createExperiment (environmentId flagId : Uuid) (key name : String)
    (description : Option String) (metricKey controlVariant : String) : Query ExperimentRow := do
  query (.insertExperiment environmentId flagId key name description metricKey controlVariant)
    (.fromWrite "experiment" key)
  findExperiment environmentId key

/-- No row written is an error. -/
def orNoneWritten (entity : String) (written : Nat) : Query Unit :=
  ExceptT.mk (.done (if written = 0 then .error (.notFound entity) else .ok ()))

/-- Rewrites an experiment's presentation fields. -/
def updateExperiment (environmentId : Uuid) (key : String) (name : Option String)
    (description : Option (Option String)) : Query ExperimentRow := do
  let updated ← query (.updateExperiment environmentId key name description)
    (.fromWrite "experiment" key)
  orNoneWritten "experiment" updated
  findExperiment environmentId key

/-- Nothing moved: either the experiment is missing or it is in the wrong state. Reading it tells
    which. -/
def orWrongState (environmentId : Uuid) (key needed : String) (written : Nat) : Query Unit :=
  if written = 0 then do
    let current ← findExperiment environmentId key
    throw (.wrongState "experiment" key current.state.asStr needed)
  else pure ()

def transition (environmentId : Uuid) (key : String) (source target : ExperimentState) :
    Query ExperimentRow := do
  let updated ← plain (.transitionExperiment environmentId key source target)
  orWrongState environmentId key source.asStr updated
  findExperiment environmentId key

/-- Moves a draft to `running`. -/
def startExperiment (environmentId : Uuid) (key : String) : Query ExperimentRow :=
  transition environmentId key .draft .running

/-- Moves a running experiment to `stopped`, its terminal state. -/
def stopExperiment (environmentId : Uuid) (key : String) : Query ExperimentRow :=
  transition environmentId key .running .stopped

/-- Deletes an experiment; a running one is refused. -/
def deleteExperiment (environmentId : Uuid) (key : String) : Query Unit := do
  let deleted ← plain (.deleteExperiment environmentId key)
  orWrongState environmentId key "stopped (or still a draft)" deleted

/-! ### Snapshots and the audit log -/

/-- Loads everything one environment needs to answer evaluations: four reads, and the clock. -/
def load (environmentId : Uuid) (now : Timestamp) : Query (EnvironmentSnapshot Timestamp) := do
  let env ← plain (.selectSalt environmentId)
  let (key, salt) ← orNotFound "environment" env
  let flags ← plain (.selectEnvironmentFlags environmentId)
  let segments ← plain (.selectSegments environmentId)
  let experiments ← plain (.selectRunningExperiments environmentId)
  pure ((EnvironmentSnapshot.new environmentId key salt flags (segments.map SegmentRow.definition)
    now).withExperiments experiments)

def record (entry : NewAuditEntry) : Query Unit :=
  plain (.insertAudit entry)

end FlagForge.Storage
