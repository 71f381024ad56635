/-
Module: FlagForge.Service.Endpoints
Layer: Service
Purpose: Every request of the service on the whole store, but for registration and login: those that
  read the configuration, the keys, the audit log and the results, those that issue and revoke SDK
  keys, those that an SDK sends, and beside them the requests that write the configuration.
Imports: FlagForge.Lib.Tenancy, FlagForge.Service.Store, FlagForge.Api.Experiments,
  FlagForge.Api.Events, FlagForge.Api.Results, FlagForge.Api.Tokens
Trusted boundary: `AuthUser` has verified the token of its caller; a snapshot is read from the store,
  as the cache does when it has none
Main exports: Endpoint, Refusal, Reply, Call, identify, serve
-/
import FlagForge.Lib.Tenancy
import FlagForge.Service.Store
import FlagForge.Api.Experiments
import FlagForge.Api.Events
import FlagForge.Api.Results
import FlagForge.Api.Tokens

namespace FlagForge.Service

open Storage
open Api
open Api.AuditPages (AuditQuery AuditPage LoggedRow)
open Engine (Evaluation)

/-- What a request is refused with. -/
inductive Refusal where
  | unauthorized (message : String)
  | api (e : ApiError)

/-- An endpoint: statements, and a result or the refusal that the response tells. -/
abbrev Endpoint := Fallible Stmt Resp Refusal

/-! ### Statements and storage functions -/

/-- A program on the tables, on the whole store. -/
def sql {α ε : Type} (p : Fallible Sql.Stmt Sql.Resp ε α) : Fallible Stmt Resp ε α :=
  ExceptT.mk (p.run.embed (fun s => .counted (.sql s)) fun _ r => r)

/-- A program on the tables with the counters, on the whole store. -/
def counted {α ε : Type} (p : Fallible Counting.Stmt Counting.Resp ε α) : Fallible Stmt Resp ε α :=
  ExceptT.mk (p.run.embed .counted fun _ r => r)

/-- One statement, its errors translated by `onError`. -/
def query (s : Stmt) (onError : Sql.SqlError → StorageError) :
    Fallible Stmt Resp StorageError s.Result :=
  ExceptT.mk (.call s fun r => .done (r.mapError onError))

/-- One statement whose errors are the database's own. -/
def plain (s : Stmt) : Fallible Stmt Resp StorageError s.Result :=
  query s fun _ => .database

/-- A storage function, its errors as responses. -/
def storage {α : Type} (q : Fallible Stmt Resp StorageError α) : Endpoint α :=
  q.adapt fun e => .api (ApiError.ofStorage e)

/-- A storage function on the tables. -/
def lookup {α : Type} (q : Query α) : Endpoint α :=
  storage (sql q)

/-- A handler on the tables. -/
def handler {α : Type} (h : Handler α) : Endpoint α :=
  (sql h).adapt .api

/-- A computation without statements. -/
def check {α : Type} (r : Except ApiError α) : Endpoint α :=
  ExceptT.mk (.done (r.mapError .api))

/-- What is missing is a reason to turn the caller away. -/
def orUnauthorized {α : Type} (message : String) (a : Option α) : Endpoint α :=
  ExceptT.mk (.done (a.elim (.error (.unauthorized message)) .ok))

/-- `experiments::find`, with the flag's key and variants. -/
def findJoinedExperiment (environmentId : Uuid) (key : String) :
    Fallible Stmt Resp StorageError Experiment := do
  let row ← plain (.selectJoinedExperiment environmentId key)
  sql (orNotFound "experiment" row)

def revokeApiKey (environmentId id : Uuid) : Fallible Stmt Resp StorageError Unit := do
  let updated ← plain (.revokeKey environmentId id)
  sql (orNoneWritten "api key" updated)

variable (crates : Crates) (sha256 : List UInt8 → Vector UInt8 32)

/-! ### Reading -/

/-- A reading request of a person. -/
inductive Consultation where
  | projects
  | project (projectKey : String)
  | environments (projectKey : String)
  | flags (projectKey : String) (includeArchived : Bool)
  | flag (projectKey flagKey : String)
  | config (projectKey environmentKey flagKey : String)
  | configured (projectKey environmentKey : String) (includeArchived : Bool)
  | segments (projectKey environmentKey : String)
  | segment (projectKey environmentKey segmentKey : String)
  | experiments (projectKey environmentKey : String)
  | experiment (projectKey environmentKey experimentKey : String)
  | results (projectKey environmentKey experimentKey : String) (now : Timestamp)
  | keys (projectKey environmentKey : String)
  | audit (query : AuditQuery)

/-- What a request is answered with. Of a write only the success is kept. -/
inductive Reply where
  | done
  | projects (rows : List ProjectRow)
  | project (row : ProjectRow)
  | environments (rows : List EnvironmentRow)
  | flags (rows : List FlagRow)
  | flag (row : FlagRow) (measuredBy : List String)
  | config (row : ConfigRow)
  | configured (rows : List (FlagRow × ConfigRow))
  | segments (rows : List SegmentRow)
  | segment (row : SegmentRow) (referencedBy : List String)
  | experiments (rows : List Experiment)
  | experiment (row : Experiment)
  /-- What the judgement is made from, in the order of the flag. -/
  | results (row : Experiment) (counts : List VariantCounts) (series : List VariantSeries)
  | keys (rows : List ApiKey)
  /-- The one and only response that contains the secret. -/
  | createdKey (key : ApiKey) (secret : String)
  | audit (page : AuditPage)
  | evaluations (environment : String) (version : Int64) (evaluations : List Evaluation)
  | evaluation (evaluation : Evaluation)
  | snapshot (snapshot : EnvironmentSnapshot Timestamp)
  | accepted (accepted received : Nat)

/-- The page of a log, and the cursor to the next one when it came back full. -/
def auditPage (limit : Int) (rows : List LoggedRow) : AuditPage :=
  let entries := rows.map LoggedRow.entry
  ⟨entries, if AuditPages.clampLimit limit ≤ entries.length then
    entries.getLast?.map AuditPages.AuditEntry.id else none⟩

/-- What is run for a request that only looks. -/
def consult (caller : AuthUser) : Consultation → Endpoint Reply
  | .projects => do
      let rows ← storage (plain (.selectProjects caller.organizationId))
      pure (.projects rows)
  | .project projectKey => do
      let project ← lookup (findProject caller.organizationId projectKey)
      pure (.project project)
  | .environments projectKey => do
      let project ← lookup (findProject caller.organizationId projectKey)
      let rows ← lookup (listEnvironments project.id)
      pure (.environments rows)
  | .flags projectKey includeArchived => do
      let project ← lookup (findProject caller.organizationId projectKey)
      let rows ← storage (plain (.selectFlags project.id includeArchived))
      pure (.flags rows)
  | .flag projectKey flagKey => do
      let project ← lookup (findProject caller.organizationId projectKey)
      let flag ← lookup (findFlag project.id flagKey)
      let measuredBy ← lookup (Storage.plain (.selectExperimentsOfFlag flag.id))
      pure (.flag flag measuredBy)
  | .config projectKey environmentKey flagKey => do
      let project ← lookup (findProject caller.organizationId projectKey)
      let environment ← lookup (findEnvironment project.id environmentKey)
      let flag ← lookup (findFlag project.id flagKey)
      let config ← lookup (findConfig flag.id environment.id)
      pure (.config config)
  | .configured projectKey environmentKey includeArchived => do
      let project ← lookup (findProject caller.organizationId projectKey)
      let environment ← lookup (findEnvironment project.id environmentKey)
      let rows ← storage (plain (.selectConfigured project.id environment.id includeArchived))
      pure (.configured rows)
  | .segments projectKey environmentKey => do
      let project ← lookup (findProject caller.organizationId projectKey)
      let environment ← lookup (findEnvironment project.id environmentKey)
      let rows ← lookup (Storage.plain (.selectSegments environment.id))
      pure (.segments rows)
  | .segment projectKey environmentKey segmentKey => do
      let project ← lookup (findProject caller.organizationId projectKey)
      let environment ← lookup (findEnvironment project.id environmentKey)
      let segment ← lookup (findSegment environment.id segmentKey)
      let referencedBy ← lookup
        (Storage.plain (.selectReferencingFlags environment.id segmentKey))
      pure (.segment segment referencedBy)
  | .experiments projectKey environmentKey => do
      let project ← lookup (findProject caller.organizationId projectKey)
      let environment ← lookup (findEnvironment project.id environmentKey)
      let rows ← storage (plain (.selectExperiments environment.id))
      pure (.experiments rows)
  | .experiment projectKey environmentKey experimentKey => do
      let project ← lookup (findProject caller.organizationId projectKey)
      let environment ← lookup (findEnvironment project.id environmentKey)
      let row ← storage (findJoinedExperiment environment.id experimentKey)
      pure (.experiment row)
  | .results projectKey environmentKey experimentKey now => do
      let project ← lookup (findProject caller.organizationId projectKey)
      let environment ← lookup (findEnvironment project.id environmentKey)
      let row ← storage (findJoinedExperiment environment.id experimentKey)
      let totals ← storage (plain (.selectTotals row.id))
      let hours ← storage (plain (.selectHours row.id (now - Results.seriesWindow)))
      pure (.results row (Results.inFlagOrder row (countsOf totals))
        (Results.seriesInFlagOrder row (seriesOf hours)))
  | .keys projectKey environmentKey => do
      check caller.requireAdmin
      let project ← lookup (findProject caller.organizationId projectKey)
      let environment ← lookup (findEnvironment project.id environmentKey)
      let rows ← storage (plain (.selectKeys environment.id))
      pure (.keys rows)
  | .audit query => do
      check caller.requireAdmin
      let limit := query.limit.getD AuditPages.defaultPageSize
      let rows ← storage (plain (.selectAudit caller.organizationId query.resourceType
        query.resourceId query.beforeId (AuditPages.clampLimit limit)))
      pure (.audit (auditPage limit rows))

/-! ### Issuing and revoking SDK keys -/

structure CreateKey where
  name : String
  scope : KeyScope

/-- A freshly minted key. -/
structure GeneratedKey where
  secret : String
  hash : String
  shown : String

/-- Characters of the full key kept for display. -/
def displayPrefixLen : Nat := 14

/-- The key made of random bytes. -/
def generate (scope : KeyScope) (bytes : Vector UInt8 32) : GeneratedKey :=
  let secret := secretOf scope bytes
  { secret, hash := hash sha256 secret, shown := String.ofList (secret.toList.take displayPrefixLen) }

/-- A request of a person about keys; `bytes` are the random bytes of the handler. -/
inductive KeyRequest where
  | create (projectKey environmentKey : String) (body : CreateKey) (bytes : Vector UInt8 32)
  | revoke (projectKey environmentKey : String) (keyId : Uuid)

namespace Keys

/-- `keys::create`: the secret is generated before the insertion, and only its hash is stored. -/
def create (caller : AuthUser) (projectKey environmentKey : String) (body : CreateKey)
    (bytes : Vector UInt8 32) : Endpoint Reply := do
  check caller.requireAdmin
  let project ← lookup (findProject caller.organizationId projectKey)
  let environment ← lookup (findEnvironment project.id environmentKey)
  let generated := generate sha256 body.scope bytes
  let name := trim body.name
  let key ← storage (query
    (.insertKey environment.id name generated.hash generated.shown body.scope)
    (.fromWrite "api key" name))
  handler (caller.audit "api_key.created" "api_key" (crates.uuidText key.id) (some environment.id)
    none none)
  pure (.createdKey key generated.secret)

/-- `keys::revoke`: within the environment that the keys of the request name. -/
def revoke (caller : AuthUser) (projectKey environmentKey : String) (keyId : Uuid) :
    Endpoint Reply := do
  check caller.requireAdmin
  let project ← lookup (findProject caller.organizationId projectKey)
  let environment ← lookup (findEnvironment project.id environmentKey)
  storage (revokeApiKey environment.id keyId)
  handler (caller.audit "api_key.revoked" "api_key" (crates.uuidText keyId) (some environment.id)
    none none)
  pure .done

end Keys

/-- What is run for a request about keys. -/
def handleKeys (caller : AuthUser) : KeyRequest → Endpoint Reply
  | .create projectKey environmentKey body bytes =>
      Keys.create crates sha256 caller projectKey environmentKey body bytes
  | .revoke projectKey environmentKey keyId =>
      Keys.revoke crates caller projectKey environmentKey keyId

/-! ### What an SDK asks -/

/-- Refuses absurd payloads before they become work. -/
def maxRequestedFlags : Nat := 1000

def maxContextAttributes : Nat := 100

structure EvaluateRequest where
  context : EvaluationContext
  /-- Restricts the response to these flags. -/
  flags : Option (List String)

structure EvaluateOneRequest where
  context : EvaluationContext
  /-- Returned when the flag does not exist here. -/
  default : Option VariantValue

/-- A context may have so many attributes. -/
def checkContext (context : EvaluationContext) : Except ApiError Unit :=
  if context.key.isEmpty then
    .error (.badRequest "context.key is required; it is what percentage rollouts bucket on")
  else if maxContextAttributes < context.attributes.size then
    .error (.badRequest s!"a context may carry at most {maxContextAttributes} attributes")
  else .ok ()

def checkRequested (flags : Option (List String)) : Except ApiError Unit :=
  if flags.any fun requested => maxRequestedFlags < requested.length then
    .error (.badRequest s!"at most {maxRequestedFlags} flags can be requested at once")
  else .ok ()

/-- Evaluates every flag in the environment. -/
def snapshotEvaluateAll (snapshot : EnvironmentSnapshot Timestamp) (context : EvaluationContext) :
    List Evaluation :=
  snapshot.flags.toList.map fun e => Engine.evaluate crates e.2 context snapshot.env

/-- The decisions of a request on a snapshot. -/
def evaluations (snapshot : EnvironmentSnapshot Timestamp) (body : EvaluateRequest) :
    List Evaluation :=
  match body.flags with
  | none => snapshotEvaluateAll crates snapshot body.context
  | some requested => requested.map fun key => snapshot.evaluate crates key body.context .null

/-- The key a request presents, resolved to its environment. -/
def identify (presented : Option String) : Endpoint KeyIdentity := do
  let presented ← orUnauthorized "missing SDK key" presented
  let _ ← orUnauthorized "not a valid SDK key" (claimedScope presented)
  let found ← storage (plain (.resolveKey (hash sha256 presented)))
  orUnauthorized "unknown or revoked SDK key" found

/-- A request of an SDK; `now` is the clock of the handler. -/
inductive SdkRequest where
  | evaluateAll (body : EvaluateRequest) (now : Timestamp)
  | evaluateOne (flagKey : String) (body : EvaluateOneRequest) (now : Timestamp)
  | snapshot (now : Timestamp)
  | ingest (events : List EventDelta) (now : Timestamp)

/-- A snapshot goes to server keys only. -/
def requireServer (scope : KeyScope) : Except ApiError Unit :=
  match scope with
  | .client => .error (.forbidden
      "client-scoped keys can evaluate but cannot download targeting rules")
  | .server => .ok ()

/-- What a request of an SDK does once its key is let in. A request that evaluates or downloads loads the
    snapshot from the store: it is answered as on a node that has nothing cached for the environment yet,
    or has just refreshed it. What the cache of a node holds between two loads is in `Api.Cache`. -/
def handleSdk (trunc : Timestamp → Option Timestamp) (identity : KeyIdentity) :
    SdkRequest → Endpoint Reply
  | .evaluateAll body now => do
      check (checkContext body.context)
      check (checkRequested body.flags)
      let snapshot ← lookup (load identity.environmentId now)
      pure (.evaluations snapshot.environmentKey snapshot.version (evaluations crates snapshot body))
  | .evaluateOne flagKey body now => do
      check (checkContext body.context)
      let snapshot ← lookup (load identity.environmentId now)
      pure (.evaluation (snapshot.evaluate crates flagKey body.context (body.default.getD .null)))
  | .snapshot now => do
      check (requireServer identity.scope)
      let snapshot ← lookup (load identity.environmentId now)
      pure (.snapshot snapshot)
  | .ingest events now => do
      let counts ← (counted (Events.ingest trunc now identity.environmentId events)).adapt .api
      pure (.accepted counts.1 counts.2)

/-! ### All requests -/

/-- A request as it reaches its handler, or the spawned task that records the use of a key. -/
inductive Call where
  | manage (caller : AuthUser) (request : Management)
  | consult (caller : AuthUser) (request : Consultation)
  | keys (caller : AuthUser) (request : KeyRequest)
  | sdk (presented : Option String) (request : SdkRequest)
  | touch (keyId : Uuid)

/-- What the server runs for a call. -/
def serve (trunc : Timestamp → Option Timestamp) : Call → Endpoint Reply
  | .manage caller request => do
      handler (Api.manage crates caller request)
      pure .done
  | .consult caller request => consult caller request
  | .keys caller request => handleKeys crates sha256 caller request
  | .sdk presented request => do
      let identity ← identify sha256 presented
      handleSdk crates trunc identity request
  | .touch keyId => do
      storage (plain (.touchKey keyId))
      pure .done

/-- The call as a program. -/
def program (trunc : Timestamp → Option Timestamp) (call : Call) :
    Prog Stmt Resp (Except Refusal Reply) :=
  (serve crates sha256 trunc call).run

end FlagForge.Service
