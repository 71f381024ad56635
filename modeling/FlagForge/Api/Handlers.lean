/-
Module: FlagForge.Api.Handlers
Layer: Api
Purpose: The request handlers that write projects, environments, flags and segments, as fallible
  programs over SQL statements. Authentication is behind the caller, and cache refreshes only read
  and are modelled with the cache.
Imports: FlagForge.Storage.Queries
Trusted boundary: none
Main exports: ApiError, AuthUser, Request, handle
-/
import FlagForge.Storage.Queries

namespace FlagForge.Api

open Json (StringSet)
open Storage
open Storage.Sql (Stmt Resp FlagPatch SegmentPatch)
open Validate (ValidationIssue)

/-- API errors, by the response they become. -/
inductive ApiError where
  | badRequest (message : String)
  | forbidden (message : String)
  | notFound (entity : String)
  | conflict (message : String)
  /-- The request parsed but the configuration it describes is not evaluable. -/
  | unprocessable (issues : List ValidationIssue)
  | internal
deriving DecidableEq

/-- `From<StorageError>` -/
def ApiError.ofStorage : StorageError → ApiError
  | .notFound entity => .notFound entity
  | .conflict entity key => .conflict s!"{entity} `{key}` already exists"
  | .versionConflict entity expected =>
      .conflict s!"{entity} was modified by someone else (you were working from version {expected})"
  | .inUse entity key referencedBy =>
      let names := ", ".intercalate referencedBy
      .conflict s!"{entity} `{key}` is still referenced by {names}"
  | .wrongState entity key actual needed =>
      .conflict s!"{entity} `{key}` is {actual}; this operation needs it {needed}"
  | .invalid entity => .badRequest s!"{entity} failed a database constraint"
  | .database => .internal

/-- A request handler. -/
abbrev Handler := Fallible Stmt Resp ApiError

/-- A storage function, its errors as API errors. -/
def storage {α : Type} (q : Query α) : Handler α :=
  q.adapt ApiError.ofStorage

/-- A storage function whose error is of no interest. -/
def attempt {α : Type} (q : Query α) : Handler (Option α) :=
  ExceptT.mk (q.run.bind fun r => .done (.ok r.toOption))

/-- A computation without statements. -/
def check {α : Type} (r : Except ApiError α) : Handler α :=
  ExceptT.mk (.done r)

/-- Whatever the answer is, the handler continues, with the configuration if there is one. -/
theorem attempt_findConfig {α : Type} {flagId environmentId : Uuid}
    {f : Option ConfigRow → Handler α} :
    (attempt (findConfig flagId environmentId) >>= f).run =
      .call (.selectConfig flagId environmentId)
        fun r : Except Sql.SqlError (Option ConfigRow) => (f r.toOption.join).run := by
  refine congrArg (Prog.call (Stmt.selectConfig flagId environmentId)) (funext ?_)
  rintro (e | row)
  · rfl
  · cases row <;> rfl

/-! ### Callers -/

inductive Role where
  | owner
  | admin
  | member
  | viewer
deriving DecidableEq

/-- All but viewers may write. -/
def Role.canWrite : Role → Bool
  | .owner | .admin | .member => true
  | .viewer => false

/-- Owners and admins may delete and see the audit log. -/
def Role.canAdminister : Role → Bool
  | .owner | .admin => true
  | .member | .viewer => false

/-- An authenticated human (or machine acting as one). -/
structure AuthUser where
  userId : Uuid
  organizationId : Uuid
  email : String
  role : Role

namespace AuthUser

def requireWrite (caller : AuthUser) : Except ApiError Unit :=
  if caller.role.canWrite then .ok ()
  else .error (.forbidden "this role cannot modify configuration")

def requireAdmin (caller : AuthUser) : Except ApiError Unit :=
  if caller.role.canAdminister then .ok ()
  else .error (.forbidden "this action requires an owner or admin")

/-- Records what the caller did, with the images of what it changed. -/
def audit (caller : AuthUser) (action resourceType resourceId : String)
    (environmentId : Option Uuid) (before after : Option Image) : Handler Unit :=
  storage (record {
    organizationId := caller.organizationId
    actorUserId := some caller.userId
    actorEmail := caller.email
    action := action
    resourceType := resourceType
    resourceId := resourceId
    environmentId := environmentId
    before := before
    after := after })

end AuthUser

/-- Rejects identifiers the database would reject anyway, with a message that names the field. -/
def validKey (candidate field : String) : Except ApiError Unit :=
  if Validate.isValidKey candidate then .ok ()
  else .error (.badRequest
    s!"`{field}` must be 1-{Validate.maxKeyLen} characters of letters, digits, `.`, `_` or `-`")

/-- `s.trim()` -/
def trim (s : String) : String :=
  String.ofList
    (((s.toList.dropWhile Validate.isWhitespace).reverse.dropWhile Validate.isWhitespace).reverse)

variable (crates : Crates)

/-! ### Projects and environments -/

structure CreateProject where
  key : String
  name : String
  description : Option String

/-- `projects::create` -/
def createProject (caller : AuthUser) (body : CreateProject) : Handler ProjectRow := do
  check caller.requireWrite
  check (validKey body.key "key")
  let project ← storage
    (Storage.createProject caller.organizationId body.key (trim body.name) body.description)
  caller.audit "project.created" "project" project.key none none (some (.project project))
  pure project

/-- `projects::delete` -/
def deleteProject (caller : AuthUser) (projectKey : String) : Handler Unit := do
  check caller.requireAdmin
  storage (Storage.deleteProject caller.organizationId projectKey)
  caller.audit "project.deleted" "project" projectKey none none none

structure CreateEnvironment where
  key : String
  name : String
  isProduction : Bool

/-- `salt` is the fresh random salt the handler generates. -/
def createEnvironment (caller : AuthUser) (projectKey : String) (body : CreateEnvironment)
    (salt : String) : Handler EnvironmentRow := do
  check caller.requireWrite
  check (validKey body.key "key")
  let project ← storage (findProject caller.organizationId projectKey)
  let environment ← storage
    (Storage.createEnvironment project.id body.key (trim body.name) salt body.isProduction)
  caller.audit "environment.created" "environment" s!"{project.key}/{environment.key}"
    (some environment.id) none (some environment.image)
  pure environment

/-- `projects::delete_environment`: by the key within the project. -/
def deleteEnvironment (caller : AuthUser) (projectKey environmentKey : String) : Handler Unit := do
  check caller.requireAdmin
  let project ← storage (findProject caller.organizationId projectKey)
  let _ ← storage (findEnvironment project.id environmentKey)
  storage (Storage.deleteEnvironment project.id environmentKey)
  caller.audit "environment.deleted" "environment" s!"{projectKey}/{environmentKey}" none none none

/-! ### Flags -/

/-- The flag exactly as the engine would build it. -/
def candidate (key : String) (variants : List Variant) (offVariant : String)
    (fallthrough : Distribution) (rules : List Rule) : Flag where
  key := key
  variants := variants
  enabled := true
  offVariant := offVariant
  fallthrough := fallthrough
  rules := rules
  version := 0

/-- Runs the domain validator over the flag, turning issues into a response with field paths. -/
def validateEvaluable (key : String) (variants : List Variant) (offVariant : String)
    (fallthrough : Distribution) (rules : List Rule) : Except ApiError Flag :=
  let flag := candidate key variants offVariant fallthrough rules
  match Validate.validate crates flag with
  | .ok () => .ok flag
  | .error issues => .error (.unprocessable issues)

/-- Prefixes validation paths with the environment they came from. -/
def annotate (environmentKey : String) : ApiError → ApiError
  | .unprocessable issues =>
      .unprocessable (issues.map fun issue =>
        { issue with path := s!"environments.{environmentKey}.{issue.path}" })
  | other => other

structure CreateFlag where
  key : String
  name : String
  description : Option String
  /-- Defaults to the boolean `on`/`off` pair. -/
  variants : Option (List Variant)
  /-- Defaults to `off`. -/
  offVariant : Option String
  /-- Defaults to `on`. -/
  fallthrough : Option Distribution

/-- The conventional `on`/`off` variants. -/
def booleanVariants : List Variant :=
  [⟨"on", .bool true⟩, ⟨"off", .bool false⟩]

/-- `flags::create`: without variants in the body the flag has `on` and `off`. -/
def createFlag (caller : AuthUser) (projectKey : String) (body : CreateFlag) : Handler FlagRow := do
  check caller.requireWrite
  check (validKey body.key "key")
  let project ← storage (findProject caller.organizationId projectKey)
  let variants := body.variants.getD booleanVariants
  let offVariant := body.offVariant.getD "off"
  let fallthrough := body.fallthrough.getD (.fixed "on")
  let _ ← check (validateEvaluable crates body.key variants offVariant fallthrough [])
  let flag ← storage (Storage.createFlag project.id body.key (trim body.name) body.description
    variants offVariant fallthrough)
  caller.audit "flag.created" "flag" s!"{projectKey}/{flag.key}" none none (some (.flag flag))
  pure flag

structure UpdateFlag where
  name : Option String
  description : Option (Option String)
  variants : Option (List Variant)
  archived : Option Bool

/-- Every environment's configuration is validated again against the new variants. -/
def revalidate (existing : FlagRow) (variants : List Variant) : List EnvironmentRow → Handler Unit
  | [] => pure ()
  | environment :: environments => do
      let config ← storage (findConfig existing.id environment.id)
      let _ ← check ((validateEvaluable crates existing.key variants config.offVariant
        config.fallthrough config.rules).mapError (annotate environment.key))
      revalidate existing variants environments

/-- A patch that replaces the variants is checked in every environment of the project. -/
def checkVariants (project : ProjectRow) (existing : FlagRow) :
    Option (List Variant) → Handler Unit
  | none => pure ()
  | some variants => do
      let environments ← storage (listEnvironments project.id)
      revalidate crates existing variants environments

def updateFlag (caller : AuthUser) (projectKey flagKey : String) (body : UpdateFlag) :
    Handler FlagRow := do
  check caller.requireWrite
  let project ← storage (findProject caller.organizationId projectKey)
  let existing ← storage (findFlag project.id flagKey)
  checkVariants crates project existing body.variants
  let updated ← storage (Storage.updateFlag crates existing.id
    { name := body.name.map trim
      description := body.description
      variants := body.variants
      archived := body.archived })
  caller.audit "flag.updated" "flag" s!"{projectKey}/{flagKey}" none (some (.flag existing))
    (some (.flag updated))
  pure updated

/-- `flags::delete` -/
def deleteFlag (caller : AuthUser) (projectKey flagKey : String) : Handler Unit := do
  check caller.requireAdmin
  let project ← storage (findProject caller.organizationId projectKey)
  storage (Storage.deleteFlag project.id flagKey)
  caller.audit "flag.deleted" "flag" s!"{projectKey}/{flagKey}" none none none

structure UpdateConfig where
  enabled : Bool
  offVariant : String
  fallthrough : Distribution
  rules : List Rule
  expectedVersion : Option Int64

/-- A rule may only name a segment the environment defines. -/
def checkReferences (flag : Flag) (known : StringSet) : Except ApiError Unit :=
  (Validate.validateReferences flag known).mapError .unprocessable

def updateConfig (caller : AuthUser) (projectKey environmentKey flagKey : String)
    (body : UpdateConfig) : Handler ConfigRow := do
  check caller.requireWrite
  let project ← storage (findProject caller.organizationId projectKey)
  let environment ← storage (findEnvironment project.id environmentKey)
  let flag ← storage (findFlag project.id flagKey)
  let evaluable ← check (validateEvaluable crates flag.key flag.variants body.offVariant
    body.fallthrough body.rules)
  let known ← storage (segmentKeys environment.id)
  check (checkReferences evaluable known)
  -- the image for the audit entry; an error here is ignored
  let previous ← attempt (findConfig flag.id environment.id)
  let config ← storage (upsertConfig crates flag.id environment.id body.enabled body.offVariant
    body.fallthrough body.rules body.expectedVersion)
  caller.audit "flag.configured" "flag" s!"{projectKey}/{environmentKey}/{flagKey}"
    (some environment.id) (previous.map .config) (some (.config config))
  pure config

/-! ### Segments -/

structure CreateSegment where
  key : String
  name : String
  description : Option String

def createSegment (caller : AuthUser) (projectKey environmentKey : String)
    (body : CreateSegment) : Handler SegmentRow := do
  check caller.requireWrite
  check (validKey body.key "key")
  let project ← storage (findProject caller.organizationId projectKey)
  let environment ← storage (findEnvironment project.id environmentKey)
  let segment ← storage
    (Storage.createSegment environment.id body.key body.name body.description)
  caller.audit "segment.created" "segment" s!"{projectKey}/{environmentKey}/{body.key}"
    (some environment.id) none (some (.segment segment))
  pure segment

structure UpdateSegment where
  name : Option String
  description : Option (Option String)
  included : Option StringSet
  excluded : Option StringSet
  rules : Option (List SegmentRule)
  expectedVersion : Option Int64

/-- The columns the update writes. -/
def UpdateSegment.patch (body : UpdateSegment) : SegmentPatch where
  name := body.name
  description := body.description
  included := body.included
  excluded := body.excluded
  rules := body.rules

/-- The segment a patch would produce from the copy that was read. -/
def patchedSegment (previous : SegmentRow) (patch : SegmentPatch) : Segment where
  key := previous.key
  description := none
  included := patch.included.getD previous.included
  excluded := patch.excluded.getD previous.excluded
  rules := patch.rules.getD previous.rules
  version := previous.version

/-- Runs the domain validator over the segment the patch would produce. -/
def validateDecidable (previous : SegmentRow) (patch : SegmentPatch) : Except ApiError Unit :=
  (Validate.validateSegment crates (patchedSegment previous patch)).mapError .unprocessable

def updateSegment (caller : AuthUser) (projectKey environmentKey segmentKey : String)
    (body : UpdateSegment) : Handler SegmentRow := do
  check caller.requireWrite
  let project ← storage (findProject caller.organizationId projectKey)
  let environment ← storage (findEnvironment project.id environmentKey)
  let previous ← storage (findSegment environment.id segmentKey)
  check (validateDecidable crates previous body.patch)
  let segment ← storage
    (Storage.updateSegment environment.id segmentKey body.patch body.expectedVersion)
  caller.audit "segment.updated" "segment" s!"{projectKey}/{environmentKey}/{segmentKey}"
    (some environment.id) (some (.segment previous)) (some (.segment segment))
  pure segment

/-- `segments::delete`: storage refuses it while flags reference the segment. -/
def deleteSegment (caller : AuthUser) (projectKey environmentKey segmentKey : String) :
    Handler Unit := do
  check caller.requireWrite
  let project ← storage (findProject caller.organizationId projectKey)
  let environment ← storage (findEnvironment project.id environmentKey)
  let previous ← storage (findSegment environment.id segmentKey)
  storage (Storage.deleteSegment environment.id segmentKey)
  caller.audit "segment.deleted" "segment" s!"{projectKey}/{environmentKey}/{segmentKey}"
    (some environment.id) (some (.segment previous)) none

/-! ### Requests -/

/-- A request that writes. -/
inductive Request where
  | createProject (body : CreateProject)
  | deleteProject (projectKey : String)
  | createEnvironment (projectKey : String) (body : CreateEnvironment) (salt : String)
  | deleteEnvironment (projectKey environmentKey : String)
  | createFlag (projectKey : String) (body : CreateFlag)
  | updateFlag (projectKey flagKey : String) (body : UpdateFlag)
  | deleteFlag (projectKey flagKey : String)
  | updateConfig (projectKey environmentKey flagKey : String) (body : UpdateConfig)
  | createSegment (projectKey environmentKey : String) (body : CreateSegment)
  | updateSegment (projectKey environmentKey segmentKey : String) (body : UpdateSegment)
  | deleteSegment (projectKey environmentKey segmentKey : String)

/-- What the server runs for a request; only success or the error is kept of the response. -/
def handle (caller : AuthUser) : Request → Handler Unit
  | .createProject body => discard (createProject caller body)
  | .deleteProject projectKey => deleteProject caller projectKey
  | .createEnvironment projectKey body salt =>
      discard (createEnvironment caller projectKey body salt)
  | .deleteEnvironment projectKey environmentKey =>
      deleteEnvironment caller projectKey environmentKey
  | .createFlag projectKey body => discard (createFlag crates caller projectKey body)
  | .updateFlag projectKey flagKey body =>
      discard (updateFlag crates caller projectKey flagKey body)
  | .deleteFlag projectKey flagKey => deleteFlag caller projectKey flagKey
  | .updateConfig projectKey environmentKey flagKey body =>
      discard (updateConfig crates caller projectKey environmentKey flagKey body)
  | .createSegment projectKey environmentKey body =>
      discard (createSegment caller projectKey environmentKey body)
  | .updateSegment projectKey environmentKey segmentKey body =>
      discard (updateSegment crates caller projectKey environmentKey segmentKey body)
  | .deleteSegment projectKey environmentKey segmentKey =>
      deleteSegment caller projectKey environmentKey segmentKey
where
  discard {α : Type} (p : Handler α) : Handler Unit := do
    let _ ← p

end FlagForge.Api
