/-
Module: FlagForge.Storage.Statements
Layer: Storage
Purpose: The SQL statements of the storage crate on the tables, each one atomic: constraints in the
  order the database checks them, the touch triggers, and the environment ids that the notify
  triggers put on the channel at commit. The two seeding transactions are one statement each here.
Imports: FlagForge.Storage.Tables, FlagForge.Core.Validate (the key constraint)
Trusted boundary: texts are ordered by code points, as under collation "C"
Main exports: Sql.Written, Sql.Stmt, Sql.Resp, Sql.Input, Sql.exec
-/
import FlagForge.Storage.Tables
import FlagForge.Core.Validate

namespace FlagForge.Storage.Sql

open Json (StringSet)

/-- What the database itself contributes to a statement: the identifier and the time it would
    generate, and whether it fails for a reason of its own (a lost connection, a text it cannot
    encode), in which case nothing changes. -/
structure Input where
  id : Uuid
  now : Timestamp
  fails : Bool

/-- Errors by the SQLSTATE the storage crate tells apart. -/
inductive SqlError where
  | uniqueViolation
  | foreignKeyViolation
  | checkViolation
  | other
deriving DecidableEq

/-- The outcome of a write: its value, the tables, and the notified environments. -/
structure Written (α : Type) where
  value : α
  db : Db
  notified : List Uuid

/-- A write that touches no row. -/
def unchanged {α : Type} (value : α) (db : Db) : Written α :=
  ⟨value, db, []⟩

/-- `CHECK (key ~ '^[a-zA-Z0-9._-]{1,128}$')` -/
def keyCheck (key : String) : Bool :=
  Validate.isValidKey key

/-- `CHECK (length(name) BETWEEN 1 AND 200)` -/
def nameCheck (name : String) : Bool :=
  1 ≤ name.toList.length && name.toList.length ≤ 200

/-- `OLD.version + 1`, unless it leaves the range of `BIGINT`. -/
def bumped (version : Int64) : Except SqlError Int64 :=
  if version = Int64.maxValue then .error .other else .ok (version + 1)

/-- The first constraint that does not hold. -/
def require (ok : Bool) (error : SqlError) : Except SqlError Unit :=
  if ok then .ok () else .error error

/-! ### Projects and environments -/

def selectProject (organizationId : Uuid) (key : String) (db : Db) : Option ProjectRow :=
  db.projects.find? fun p => p.organizationId = organizationId && p.key = key

def insertProject (input : Input) (organizationId : Uuid) (key name : String)
    (description : Option String) (db : Db) : Except SqlError (Written ProjectRow) := do
  require (keyCheck key && nameCheck name) .checkViolation
  require (db.projects.all fun p =>
    !(p.id = input.id || (p.organizationId = organizationId && p.key = key))) .uniqueViolation
  let row := { id := input.id, organizationId, key, name, description, createdAt := input.now }
  pure ⟨row, { db with projects := db.projects ++ [row] }, []⟩

/-- Whether some row belongs to the environment, so that deleting it notifies. -/
def hasRows (db : Db) (environmentId : Uuid) : Bool :=
  db.flagConfigs.any (·.environmentId = environmentId) ||
    db.segments.any (·.environmentId = environmentId) ||
    db.experiments.any (·.environmentId = environmentId)

/-- The tables without the selected environments and, by cascade, their rows. -/
def withoutEnvironments (p : EnvironmentRow → Bool) (db : Db) : Db :=
  let ids := (db.environments.filter p).map EnvironmentRow.id
  { db with
    environments := db.environments.filter fun e => !p e
    flagConfigs := db.flagConfigs.filter fun c => !ids.contains c.environmentId
    segments := db.segments.filter fun s => !ids.contains s.environmentId
    experiments := db.experiments.filter fun e => !ids.contains e.environmentId
    auditLog := db.auditLog.map fun a =>
      { a with environmentId := a.environmentId.filter fun id => !ids.contains id } }

/-- Cascades to environments first, then to flags, whose experiments restrict. -/
def deleteProject (organizationId : Uuid) (key : String) (db : Db) :
    Except SqlError (Written Nat) :=
  match selectProject organizationId key db with
  | none => .ok (unchanged 0 db)
  | some project => do
      let environments := db.environments.filter (·.projectId = project.id)
      let rest := withoutEnvironments (·.projectId = project.id) db
      let flags := (rest.flags.filter (·.projectId = project.id)).map FlagRow.id
      require (rest.experiments.all fun e => !flags.contains e.flagId) .foreignKeyViolation
      pure ⟨1,
        { rest with
          projects := rest.projects.filter (·.id ≠ project.id)
          flags := rest.flags.filter (·.projectId ≠ project.id)
          flagConfigs := rest.flagConfigs.filter fun c => !flags.contains c.flagId },
        (environments.map EnvironmentRow.id).filter (hasRows db)⟩

def selectEnvironment (projectId : Uuid) (key : String) (db : Db) : Option EnvironmentRow :=
  db.environments.find? (·.isFor projectId key)

/-- `ORDER BY is_production, key`. Here and in the other queries texts come in the order of their code
    points, that of collation "C". -/
def selectEnvironments (projectId : Uuid) (db : Db) : List EnvironmentRow :=
  Table.orderBy (fun a b => a.isProduction < b.isProduction ||
    (a.isProduction = b.isProduction && a.key ≤ b.key))
    (db.environments.filter (·.projectId = projectId))

/-- Inserts the environment's own row. -/
def insertEnvironment (input : Input) (projectId : Uuid) (key name salt : String)
    (isProduction : Bool) (db : Db) : Except SqlError EnvironmentRow := do
  require (keyCheck key && nameCheck name) .checkViolation
  require (db.environments.all fun e => !(e.id = input.id || e.isFor projectId key))
    .uniqueViolation
  require (db.projects.any (·.id = projectId)) .foreignKeyViolation
  pure { id := input.id, projectId, key, name, salt, isProduction, createdAt := input.now }

/-- The configurations of a flag, each with its environment. -/
def configsOf (flagId : Uuid) (db : Db) : List (EnvironmentRow × ConfigRow) :=
  db.flagConfigs.filterMap fun c =>
    if c.flagId = flagId then
      (db.environments.find? (·.id = c.environmentId)).map fun e => (e, c)
    else none

/-- `ORDER BY e.created_at, e.id LIMIT 1` -/
def referenceConfig (flagId : Uuid) (db : Db) : Option ConfigRow :=
  (Table.least (fun a b : EnvironmentRow × ConfigRow => a.1.createdAt < b.1.createdAt ||
    (a.1.createdAt = b.1.createdAt && a.1.id.bits ≤ b.1.id.bits)) (configsOf flagId db)).map
    Prod.snd

/-- The key of the `off` variant, or of the first one. -/
def defaultVariant (variants : List Variant) : Option String :=
  ((variants.find? (·.key = "off")).or variants.head?).map Variant.key

/-- What a flag is seeded with in a new environment: what its oldest configuration serves, or else
    its default variant. No variant at all is a `NULL` that the columns refuse. -/
def seededConfig (input : Input) (environmentId : Uuid) (flag : FlagRow) (db : Db) :
    Except SqlError ConfigRow := do
  let (offVariant, fallthrough) ←
    match referenceConfig flag.id db, defaultVariant flag.variants with
    | some reference, _ => pure (reference.offVariant, reference.fallthrough)
    | none, some variant => pure (variant, .fixed variant)
    | none, none => .error .other
  pure { flagId := flag.id, environmentId, enabled := false, offVariant, fallthrough, rules := []
         version := 1, updatedAt := input.now }

/-- Creates an environment and seeds every existing flag of the project into it, disabled. -/
def createEnvironment (input : Input) (projectId : Uuid) (key name salt : String)
    (isProduction : Bool) (db : Db) : Except SqlError (Written EnvironmentRow) := do
  let row ← insertEnvironment input projectId key name salt isProduction db
  let flags := db.flags.filter (·.projectId = projectId)
  let configs ← flags.mapM fun flag => seededConfig input row.id flag db
  -- an error of the seeding statement is not translated
  require (db.flagConfigs.all fun c => !configs.any (·.isFor c.flagId c.environmentId)) .other
  pure ⟨row,
    { db with
      environments := db.environments ++ [row]
      flagConfigs := db.flagConfigs ++ configs },
    configs.map ConfigRow.environmentId⟩

/-- An environment goes with its configurations, segments and experiments. -/
def deleteEnvironment (projectId : Uuid) (key : String) (db : Db) :
    Except SqlError (Written Nat) :=
  let ids := (db.environments.filter (·.isFor projectId key)).map EnvironmentRow.id
  pure ⟨ids.length, withoutEnvironments (·.isFor projectId key) db, ids.filter (hasRows db)⟩

/-! ### Flags -/

def selectFlag (projectId : Uuid) (key : String) (db : Db) : Option FlagRow :=
  db.flags.find? (·.isFor projectId key)

/-- The environments that the trigger on `flags` notifies. -/
def environmentIds (projectId : Uuid) (db : Db) : List Uuid :=
  (db.environments.filter (·.projectId = projectId)).map EnvironmentRow.id

/-- Inserts the flag's own row. -/
def insertFlag (input : Input) (projectId : Uuid) (key name : String)
    (description : Option String) (variants : List Variant) (db : Db) :
    Except SqlError FlagRow := do
  require (keyCheck key && nameCheck name) .checkViolation
  require (db.flags.all fun f => !(f.id = input.id || f.isFor projectId key)) .uniqueViolation
  require (db.projects.any (·.id = projectId)) .foreignKeyViolation
  pure { id := input.id, projectId, key, name, description, variants, archived := false
         createdAt := input.now, updatedAt := input.now }

/-- A flag's first configuration in an environment. -/
def firstConfig (input : Input) (flagId environmentId : Uuid) (offVariant : String)
    (fallthrough : Distribution) : ConfigRow where
  flagId := flagId
  environmentId := environmentId
  enabled := false
  offVariant := offVariant
  fallthrough := fallthrough
  rules := []
  version := 1
  updatedAt := input.now

/-- Creates a flag and seeds it, disabled, into every environment of the project. -/
def createFlag (input : Input) (projectId : Uuid) (key name : String)
    (description : Option String) (variants : List Variant) (offVariant : String)
    (fallthrough : Distribution) (db : Db) : Except SqlError (Written FlagRow) := do
  let row ← insertFlag input projectId key name description variants db
  let ids := environmentIds projectId db
  let configs := ids.map fun id => firstConfig input row.id id offVariant fallthrough
  require (db.flagConfigs.all fun c => !configs.any (·.isFor c.flagId c.environmentId)) .other
  pure ⟨row, { db with flags := db.flags ++ [row], flagConfigs := db.flagConfigs ++ configs },
    ids ++ ids⟩

/-- `None` leaves a column untouched; `some none` clears the description. -/
structure FlagPatch where
  name : Option String
  description : Option (Option String)
  variants : Option (List Variant)
  archived : Option Bool

def FlagPatch.apply (patch : FlagPatch) (now : Timestamp) (row : FlagRow) : FlagRow :=
  { row with
    name := patch.name.getD row.name
    description := patch.description.getD row.description
    variants := patch.variants.getD row.variants
    archived := patch.archived.getD row.archived
    updatedAt := now }

/-- Each column is what the patch says, or stays. -/
def updateFlag (input : Input) (flagId : Uuid) (patch : FlagPatch) (db : Db) :
    Except SqlError (Written (Option FlagRow)) :=
  match db.flags.find? (·.id = flagId) with
  | none => .ok (unchanged none db)
  | some old => do
      let row := patch.apply input.now old
      require (nameCheck row.name) .checkViolation
      pure ⟨some row, { db with flags := Table.replace (·.id = flagId) row db.flags },
        environmentIds row.projectId db⟩

/-- Cascades to configurations; an experiment that references the flag restricts. -/
def deleteFlag (projectId : Uuid) (key : String) (db : Db) : Except SqlError (Written Nat) := do
  let ids := (db.flags.filter (·.isFor projectId key)).map FlagRow.id
  require (db.experiments.all fun e => !ids.contains e.flagId) .foreignKeyViolation
  pure ⟨ids.length,
    { db with
      flags := db.flags.filter fun f => !f.isFor projectId key
      flagConfigs := db.flagConfigs.filter fun c => !ids.contains c.flagId },
    (if ids.isEmpty then [] else environmentIds projectId db) ++
      (db.flagConfigs.filter fun c => ids.contains c.flagId).map ConfigRow.environmentId⟩

def selectConfig (flagId environmentId : Uuid) (db : Db) : Option ConfigRow :=
  db.flagConfigs.find? (·.isFor flagId environmentId)

/-- Inserts the configuration or, unless another version is expected, replaces it. No row comes
    back when the version guard filters the update out. -/
def upsertConfig (input : Input) (flagId environmentId : Uuid) (enabled : Bool)
    (offVariant : String) (fallthrough : Distribution) (rules : List Rule)
    (expectedVersion : Option Int64) (db : Db) :
    Except SqlError (Written (Option ConfigRow)) :=
  match selectConfig flagId environmentId db with
  | none => do
      require (db.flags.any (·.id = flagId) && db.environments.any (·.id = environmentId))
        .foreignKeyViolation
      let row := { flagId, environmentId, enabled, offVariant, fallthrough, rules, version := 1
                   updatedAt := input.now }
      pure ⟨some row, { db with flagConfigs := db.flagConfigs ++ [row] }, [environmentId]⟩
  | some old =>
      if expectedVersion = none ∨ expectedVersion = some old.version then do
        let version ← bumped old.version
        let row := { flagId, environmentId, enabled, offVariant, fallthrough, rules, version
                     updatedAt := input.now }
        pure ⟨some row,
          { db with flagConfigs := Table.replace (·.isFor flagId environmentId) row db.flagConfigs },
          [environmentId]⟩
      else .ok (unchanged none db)

/-! ### Segments -/

def selectSegment (environmentId : Uuid) (key : String) (db : Db) : Option SegmentRow :=
  db.segments.find? (·.isFor environmentId key)

/-- The keys that a configuration may reference. -/
def selectSegmentKeys (environmentId : Uuid) (db : Db) : StringSet :=
  .ofList ((db.segments.filter (·.environmentId = environmentId)).map SegmentRow.key) compare

/-- `ORDER BY key` -/
def selectSegments (environmentId : Uuid) (db : Db) : List SegmentRow :=
  Table.orderBy (fun a b => a.key ≤ b.key) (db.segments.filter (·.environmentId = environmentId))

/-- A new segment is empty and at version one. -/
def insertSegment (input : Input) (environmentId : Uuid) (key name : String)
    (description : Option String) (db : Db) : Except SqlError (Written SegmentRow) := do
  require (keyCheck key && nameCheck name) .checkViolation
  require (db.segments.all fun s => !(s.id = input.id || s.isFor environmentId key))
    .uniqueViolation
  require (db.environments.any (·.id = environmentId)) .foreignKeyViolation
  let row := { id := input.id, environmentId, key, name, description, included := ∅, excluded := ∅
               rules := [], version := 1, createdAt := input.now, updatedAt := input.now }
  pure ⟨row, { db with segments := db.segments ++ [row] }, [environmentId]⟩

/-- `None` leaves a column untouched; `some none` clears the description. -/
structure SegmentPatch where
  name : Option String
  description : Option (Option String)
  included : Option StringSet
  excluded : Option StringSet
  rules : Option (List SegmentRule)

def SegmentPatch.apply (patch : SegmentPatch) (version : Int64) (now : Timestamp)
    (row : SegmentRow) : SegmentRow :=
  { row with
    name := patch.name.getD row.name
    description := patch.description.getD row.description
    included := patch.included.getD row.included
    excluded := patch.excluded.getD row.excluded
    rules := patch.rules.getD row.rules
    version := version
    updatedAt := now }

def updateSegment (input : Input) (environmentId : Uuid) (key : String) (patch : SegmentPatch)
    (expectedVersion : Option Int64) (db : Db) :
    Except SqlError (Written (Option SegmentRow)) :=
  match selectSegment environmentId key db with
  | none => .ok (unchanged none db)
  | some old =>
      if expectedVersion = none ∨ expectedVersion = some old.version then do
        let version ← bumped old.version
        let row := patch.apply version input.now old
        require (nameCheck row.name) .checkViolation
        pure ⟨some row,
          { db with segments := Table.replace (·.isFor environmentId key) row db.segments },
          [environmentId]⟩
      else .ok (unchanged none db)

def deleteSegment (environmentId : Uuid) (key : String) (db : Db) :
    Except SqlError (Written Nat) :=
  let deleted := db.segments.filter (·.isFor environmentId key)
  pure ⟨deleted.length, { db with segments := db.segments.filter fun s => !s.isFor environmentId key },
    deleted.map SegmentRow.environmentId⟩

/-- `c.rules @> [{"segments": {"any_of": [key]}}]`, or the same with `none_of`. -/
def references (segmentKey : String) (row : ConfigRow) : Bool :=
  row.rules.any fun rule =>
    match rule.segments with
    | some required => required.anyOf.contains segmentKey || required.noneOf.contains segmentKey
    | none => false

/-- The keys of the flags whose rules reference the segment, `ORDER BY f.key`: by code points. -/
def selectReferencingFlags (environmentId : Uuid) (segmentKey : String) (db : Db) : List String :=
  Table.orderBy (· ≤ ·) <|
    (db.flagConfigs.filter fun c =>
      c.environmentId = environmentId && references segmentKey c).flatMap fun c =>
        (db.flags.filter (·.id = c.flagId)).map FlagRow.key

/-! ### Experiments -/

def selectExperiment (environmentId : Uuid) (key : String) (db : Db) : Option ExperimentRow :=
  db.experiments.find? (·.isFor environmentId key)

/-- A new experiment is a draft. -/
def insertExperiment (input : Input) (environmentId flagId : Uuid) (key name : String)
    (description : Option String) (metricKey controlVariant : String) (db : Db) :
    Except SqlError (Written Unit) := do
  require (keyCheck key && nameCheck name && keyCheck metricKey) .checkViolation
  require (db.experiments.all fun e => !(e.id = input.id || e.isFor environmentId key))
    .uniqueViolation
  require (db.environments.any (·.id = environmentId) && db.flags.any (·.id = flagId))
    .foreignKeyViolation
  let row := { id := input.id, environmentId, flagId, key, name, description, metricKey
               controlVariant, state := .draft, startedAt := none, stoppedAt := none, version := 1
               createdAt := input.now, updatedAt := input.now }
  pure ⟨(), { db with experiments := db.experiments ++ [row] }, [environmentId]⟩

/-- An update of the experiment that `p` selects; the result counts the rows. -/
def modifyExperiment (input : Input) (p : ExperimentRow → Bool)
    (change : ExperimentRow → ExperimentRow) (db : Db) : Except SqlError (Written Nat) :=
  match db.experiments.find? p with
  | none => .ok (unchanged 0 db)
  | some old => do
      let version ← bumped old.version
      let row := { change old with version, updatedAt := input.now }
      require (nameCheck row.name) .checkViolation
      pure ⟨1, { db with experiments := Table.replace p row db.experiments }, [row.environmentId]⟩

def updateExperiment (input : Input) (environmentId : Uuid) (key : String) (name : Option String)
    (description : Option (Option String)) : Db → Except SqlError (Written Nat) :=
  modifyExperiment input (·.isFor environmentId key) fun row =>
    { row with name := name.getD row.name, description := description.getD row.description }

/-- Moves an experiment from one state to another, and stamps the time. -/
def transitionExperiment (input : Input) (environmentId : Uuid) (key : String)
    (source target : ExperimentState) : Db → Except SqlError (Written Nat) :=
  modifyExperiment input (fun row => row.isFor environmentId key && row.state = source) fun row =>
    { row with
      state := target
      startedAt := if target = .running then some input.now else row.startedAt
      stoppedAt := if target = .stopped then some input.now else row.stoppedAt }

/-- `AND state <> 'running'` -/
def deleteExperiment (environmentId : Uuid) (key : String) (db : Db) :
    Except SqlError (Written Nat) :=
  let p := fun row : ExperimentRow => row.isFor environmentId key && row.state ≠ .running
  let deleted := db.experiments.filter p
  pure ⟨deleted.length, { db with experiments := db.experiments.filter fun row => !p row },
    deleted.map ExperimentRow.environmentId⟩

/-- `ORDER BY env.key, e.key`, each as `environment/key`. -/
def selectExperimentsOfFlag (flagId : Uuid) (db : Db) : List String :=
  let rows := (db.experiments.filter (·.flagId = flagId)).flatMap fun e =>
    (db.environments.filter (·.id = e.environmentId)).map fun env => (env.key, e.key)
  (Table.orderBy (fun a b => a.1 < b.1 || (a.1 = b.1 && a.2 ≤ b.2)) rows).map fun keys =>
    s!"{keys.1}/{keys.2}"

/-! ### Snapshots -/

/-- The key and the salt of an environment. -/
def selectSalt (environmentId : Uuid) (db : Db) : Option (String × String) :=
  (db.environments.find? (·.id = environmentId)).map fun e => (e.key, e.salt)

/-- The engine's view of a flag and its configuration. -/
def configuredFlag (flag : FlagRow) (config : ConfigRow) : Flag where
  key := flag.key
  variants := flag.variants
  enabled := config.enabled
  offVariant := config.offVariant
  fallthrough := config.fallthrough
  rules := config.rules
  version := config.version

/-- Every unarchived flag with its configuration in the environment, in the order of the keys. -/
def selectEnvironmentFlags (environmentId : Uuid) (db : Db) : List Flag :=
  Table.orderBy (fun a b => a.key ≤ b.key) <|
    (db.flagConfigs.filter (·.environmentId = environmentId)).flatMap fun c =>
      (db.flags.filter fun f => f.id = c.flagId && !f.archived).map fun f => configuredFlag f c

/-- The running experiments of the environment, in the order of their keys. -/
def selectRunningExperiments (environmentId : Uuid) (db : Db) : List ExperimentSpec :=
  Table.orderBy (fun a b => a.key ≤ b.key) <|
    (db.experiments.filter fun e =>
      e.environmentId = environmentId && e.state = .running).flatMap fun e =>
        (db.flags.filter (·.id = e.flagId)).map fun f =>
          { key := e.key, flagKey := f.key, metricKey := e.metricKey
            controlVariant := e.controlVariant, version := e.version }

/-! ### The audit log -/

/-- An entry on its way into the log. -/
structure NewAuditEntry where
  organizationId : Uuid
  actorUserId : Option Uuid
  actorEmail : String
  action : String
  resourceType : String
  resourceId : String
  environmentId : Option Uuid
  before : Option Image
  after : Option Image

def insertAudit (input : Input) (entry : NewAuditEntry) (db : Db) :
    Except SqlError (Written Unit) := do
  require (entry.environmentId.all fun id => db.environments.any (·.id = id)) .foreignKeyViolation
  let row := { organizationId := entry.organizationId, actorUserId := entry.actorUserId
               actorEmail := entry.actorEmail, action := entry.action
               resourceType := entry.resourceType, resourceId := entry.resourceId
               environmentId := entry.environmentId, before := entry.before
               after := entry.after, createdAt := input.now }
  pure ⟨(), { db with auditLog := db.auditLog ++ [row] }, []⟩

/-! ### All statements -/

inductive Stmt where
  | selectProject (organizationId : Uuid) (key : String)
  | selectEnvironment (projectId : Uuid) (key : String)
  | selectEnvironments (projectId : Uuid)
  | selectFlag (projectId : Uuid) (key : String)
  | selectConfig (flagId environmentId : Uuid)
  | selectSegment (environmentId : Uuid) (key : String)
  | selectSegmentKeys (environmentId : Uuid)
  | selectReferencingFlags (environmentId : Uuid) (segmentKey : String)
  | selectExperiment (environmentId : Uuid) (key : String)
  | selectExperimentsOfFlag (flagId : Uuid)
  | selectSalt (environmentId : Uuid)
  | selectEnvironmentFlags (environmentId : Uuid)
  | selectSegments (environmentId : Uuid)
  | selectRunningExperiments (environmentId : Uuid)
  | insertProject (organizationId : Uuid) (key name : String) (description : Option String)
  | deleteProject (organizationId : Uuid) (key : String)
  | createEnvironment (projectId : Uuid) (key name salt : String) (isProduction : Bool)
  | deleteEnvironment (projectId : Uuid) (key : String)
  | createFlag (projectId : Uuid) (key name : String) (description : Option String)
      (variants : List Variant) (offVariant : String) (fallthrough : Distribution)
  | updateFlag (flagId : Uuid) (patch : FlagPatch)
  | deleteFlag (projectId : Uuid) (key : String)
  | upsertConfig (flagId environmentId : Uuid) (enabled : Bool) (offVariant : String)
      (fallthrough : Distribution) (rules : List Rule) (expectedVersion : Option Int64)
  | insertSegment (environmentId : Uuid) (key name : String) (description : Option String)
  | updateSegment (environmentId : Uuid) (key : String) (patch : SegmentPatch)
      (expectedVersion : Option Int64)
  | deleteSegment (environmentId : Uuid) (key : String)
  | insertExperiment (environmentId flagId : Uuid) (key name : String)
      (description : Option String) (metricKey controlVariant : String)
  | updateExperiment (environmentId : Uuid) (key : String) (name : Option String)
      (description : Option (Option String))
  | transitionExperiment (environmentId : Uuid) (key : String) (source target : ExperimentState)
  | deleteExperiment (environmentId : Uuid) (key : String)
  | insertAudit (entry : NewAuditEntry)

/-- What a successful statement returns. -/
def Stmt.Result : Stmt → Type
  | .selectProject .. => Option ProjectRow
  | .selectEnvironment .. => Option EnvironmentRow
  | .selectEnvironments .. => List EnvironmentRow
  | .selectFlag .. => Option FlagRow
  | .selectConfig .. => Option ConfigRow
  | .selectSegment .. => Option SegmentRow
  | .selectSegmentKeys .. => StringSet
  | .selectReferencingFlags .. => List String
  | .selectExperiment .. => Option ExperimentRow
  | .selectExperimentsOfFlag .. => List String
  | .selectSalt .. => Option (String × String)
  | .selectEnvironmentFlags .. => List Flag
  | .selectSegments .. => List SegmentRow
  | .selectRunningExperiments .. => List ExperimentSpec
  | .insertProject .. => ProjectRow
  | .createEnvironment .. => EnvironmentRow
  | .createFlag .. => FlagRow
  | .updateFlag .. => Option FlagRow
  | .upsertConfig .. => Option ConfigRow
  | .insertSegment .. => SegmentRow
  | .updateSegment .. => Option SegmentRow
  | .deleteProject .. | .deleteEnvironment .. | .deleteFlag .. | .deleteSegment ..
  | .updateExperiment .. | .transitionExperiment .. | .deleteExperiment .. => Nat
  | .insertExperiment .. | .insertAudit .. => Unit

/-- The answer to a statement. -/
abbrev Resp (s : Stmt) := Except SqlError s.Result

/-- What a statement that the database executes does. -/
def Stmt.run (input : Input) (s : Stmt) (db : Db) : Except SqlError (Written s.Result) :=
  match s with
  | .selectProject organizationId key => .ok (unchanged (Sql.selectProject organizationId key db) db)
  | .selectEnvironment projectId key => .ok (unchanged (Sql.selectEnvironment projectId key db) db)
  | .selectEnvironments projectId => .ok (unchanged (Sql.selectEnvironments projectId db) db)
  | .selectFlag projectId key => .ok (unchanged (Sql.selectFlag projectId key db) db)
  | .selectConfig flagId environmentId =>
      .ok (unchanged (Sql.selectConfig flagId environmentId db) db)
  | .selectSegment environmentId key => .ok (unchanged (Sql.selectSegment environmentId key db) db)
  | .selectSegmentKeys environmentId => .ok (unchanged (Sql.selectSegmentKeys environmentId db) db)
  | .selectReferencingFlags environmentId segmentKey =>
      .ok (unchanged (Sql.selectReferencingFlags environmentId segmentKey db) db)
  | .selectExperiment environmentId key =>
      .ok (unchanged (Sql.selectExperiment environmentId key db) db)
  | .selectExperimentsOfFlag flagId => .ok (unchanged (Sql.selectExperimentsOfFlag flagId db) db)
  | .selectSalt environmentId => .ok (unchanged (Sql.selectSalt environmentId db) db)
  | .selectEnvironmentFlags environmentId =>
      .ok (unchanged (Sql.selectEnvironmentFlags environmentId db) db)
  | .selectSegments environmentId => .ok (unchanged (Sql.selectSegments environmentId db) db)
  | .selectRunningExperiments environmentId =>
      .ok (unchanged (Sql.selectRunningExperiments environmentId db) db)
  | .insertProject organizationId key name description =>
      Sql.insertProject input organizationId key name description db
  | .deleteProject organizationId key => Sql.deleteProject organizationId key db
  | .createEnvironment projectId key name salt isProduction =>
      Sql.createEnvironment input projectId key name salt isProduction db
  | .deleteEnvironment projectId key => Sql.deleteEnvironment projectId key db
  | .createFlag projectId key name description variants offVariant fallthrough =>
      Sql.createFlag input projectId key name description variants offVariant fallthrough db
  | .updateFlag flagId patch => Sql.updateFlag input flagId patch db
  | .deleteFlag projectId key => Sql.deleteFlag projectId key db
  | .upsertConfig flagId environmentId enabled offVariant fallthrough rules expectedVersion =>
      Sql.upsertConfig input flagId environmentId enabled offVariant fallthrough rules
        expectedVersion db
  | .insertSegment environmentId key name description =>
      Sql.insertSegment input environmentId key name description db
  | .updateSegment environmentId key patch expectedVersion =>
      Sql.updateSegment input environmentId key patch expectedVersion db
  | .deleteSegment environmentId key => Sql.deleteSegment environmentId key db
  | .insertExperiment environmentId flagId key name description metricKey controlVariant =>
      Sql.insertExperiment input environmentId flagId key name description metricKey
        controlVariant db
  | .updateExperiment environmentId key name description =>
      Sql.updateExperiment input environmentId key name description db
  | .transitionExperiment environmentId key source target =>
      Sql.transitionExperiment input environmentId key source target db
  | .deleteExperiment environmentId key => Sql.deleteExperiment environmentId key db
  | .insertAudit entry => Sql.insertAudit input entry db

/-- A statement as the database executes it, or fails to. -/
def execute (input : Input) (s : Stmt) (db : Db) : Except SqlError (Written s.Result) :=
  if input.fails then .error .other else s.run input db

/-- The answer and the tables after the statement; an error leaves the tables as they were. -/
def exec (input : Input) (s : Stmt) (db : Db) : Resp s × Db :=
  match execute input s db with
  | .ok written => (.ok written.value, written.db)
  | .error e => (.error e, db)

end FlagForge.Storage.Sql
