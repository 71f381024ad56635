/-
Module: FlagForge.Service.Commands
Layer: Service
Purpose: Whose statements write the configuration. Only management requests do, of callers whose role
  permits it, and what they write is what the request names by its keys within the organization of the
  caller.
Imports: FlagForge.Service.Endpoints, FlagForge.Lib.Tenancy
Trusted boundary: none
Main exports: Commands, handle_commands, Commanded, program_commanded
-/
import FlagForge.Service.Endpoints
import FlagForge.Lib.Tenancy

namespace FlagForge.Service

open Prog (Log)
open Fallible (Obeys Confined obeys_bind obeys_pure confined_pure confined_except confined_adapt
  confined_throw confined_seq)
open Storage
open Storage.Sql (SqlError)
open Api

/-! ### What a request writes -/

/-- The statements that write the configuration. -/
def configures : Sql.Stmt → Bool
  | .insertProject .. | .deleteProject .. | .createEnvironment .. | .deleteEnvironment ..
  | .createFlag .. | .updateFlag .. | .deleteFlag .. | .upsertConfig .. | .insertSegment ..
  | .updateSegment .. | .deleteSegment .. => true
  | _ => false

section

/-- What a thread was answered. -/
abbrev Found := (s : Sql.Stmt) → s.Result → Prop

variable (found : Found) (caller : AuthUser)

/-- The thread found this project under the key. -/
def FoundProject (projectKey : String) (project : ProjectRow) : Prop :=
  found (.selectProject caller.organizationId projectKey) (some project)

/-- The lookups of a request under its keys have answered with this project and this environment
    of it. -/
def FoundEnvironment (projectKey environmentKey : String) (project : ProjectRow)
    (environment : EnvironmentRow) : Prop :=
  FoundProject found caller projectKey project ∧
    found (.selectEnvironment project.id environmentKey) (some environment)

/-- They have answered with this project and this flag of it. -/
def FoundFlag (projectKey flagKey : String) (project : ProjectRow) (flag : FlagRow) : Prop :=
  FoundProject found caller projectKey project ∧
    found (.selectFlag project.id flagKey) (some flag)

/-- A statement that writes the configuration is what the request asks for: the caller may ask for it,
    and the rows it concerns were found under the keys that the request gives. -/
def Commands (request : Request) : Sql.Stmt → Prop
  | .insertProject organizationId key .. => caller.role.canWrite = true ∧
      organizationId = caller.organizationId ∧ ∃ body, request = .createProject body ∧ key = body.key
  | .deleteProject organizationId key => caller.role.canAdminister = true ∧
      organizationId = caller.organizationId ∧ request = .deleteProject key
  | .createEnvironment projectId key .. => caller.role.canWrite = true ∧
      ∃ projectKey body salt project, request = .createEnvironment projectKey body salt ∧
        key = body.key ∧ FoundProject found caller projectKey project ∧ projectId = project.id
  | .deleteEnvironment projectId key => caller.role.canAdminister = true ∧
      ∃ projectKey project, request = .deleteEnvironment projectKey key ∧
        FoundProject found caller projectKey project ∧ projectId = project.id
  | .createFlag projectId key .. => caller.role.canWrite = true ∧
      ∃ projectKey body project, request = .createFlag projectKey body ∧ key = body.key ∧
        FoundProject found caller projectKey project ∧ projectId = project.id
  | .updateFlag flagId _ => caller.role.canWrite = true ∧
      ∃ projectKey flagKey body project flag, request = .updateFlag projectKey flagKey body ∧
        FoundFlag found caller projectKey flagKey project flag ∧ flagId = flag.id
  | .deleteFlag projectId key => caller.role.canAdminister = true ∧
      ∃ projectKey project, request = .deleteFlag projectKey key ∧
        FoundProject found caller projectKey project ∧ projectId = project.id
  | .upsertConfig flagId environmentId .. => caller.role.canWrite = true ∧
      ∃ projectKey environmentKey flagKey body project environment flag,
        request = .updateConfig projectKey environmentKey flagKey body ∧
        FoundEnvironment found caller projectKey environmentKey project environment ∧
        FoundFlag found caller projectKey flagKey project flag ∧
        flagId = flag.id ∧ environmentId = environment.id
  | .insertSegment environmentId key .. => caller.role.canWrite = true ∧
      ∃ projectKey environmentKey body project environment,
        request = .createSegment projectKey environmentKey body ∧ key = body.key ∧
        FoundEnvironment found caller projectKey environmentKey project environment ∧
        environmentId = environment.id
  | .updateSegment environmentId key .. => caller.role.canWrite = true ∧
      ∃ projectKey environmentKey body project environment,
        request = .updateSegment projectKey environmentKey key body ∧
        FoundEnvironment found caller projectKey environmentKey project environment ∧
        environmentId = environment.id
  | .deleteSegment environmentId key => caller.role.canWrite = true ∧
      ∃ projectKey environmentKey project environment,
        request = .deleteSegment projectKey environmentKey key ∧
        FoundEnvironment found caller projectKey environmentKey project environment ∧
        environmentId = environment.id
  | _ => True

end

section Handlers

variable {crates : Crates} {caller : AuthUser}

/-- What the request asks for, as far as its log tells. -/
def Asked (caller : AuthUser) (request : Request) (log : Log Sql.Stmt Sql.Resp) (s : Sql.Stmt) :
    Prop :=
  Commands (Answered log) caller request s

/-- The handler keeps to what its request asks for, whatever it is answered. -/
abbrev Keeps {α : Type} (caller : AuthUser) (request : Request) (log : Log Sql.Stmt Sql.Resp)
    (h : Handler α) : Prop :=
  Obeys (Asked caller request) anyResult log h

theorem canWrite_of_requireWrite (h : caller.requireWrite = .ok ()) :
    caller.role.canWrite = true := by
  rw [AuthUser.requireWrite] at h
  split at h
  · assumption
  · cases h

theorem canAdminister_of_requireAdmin (h : caller.requireAdmin = .ok ()) :
    caller.role.canAdminister = true := by
  rw [AuthUser.requireAdmin] at h
  split at h
  · assumption
  · cases h

/-- A read needs no command. -/
theorem commands_of_isRead {found : Found} {request : Request} {s : Sql.Stmt}
    (h : s.isRead = true) : Commands found caller request s := by
  cases s <;> first | exact trivial | cases h

/-- An audit entry ends a handler. -/
theorem keeps_audited {α : Type} {request : Request} {log : Log Sql.Stmt Sql.Resp} {a : α}
    {action resourceType resourceId : String} {environmentId : Option Uuid}
    {before after : Option Image} : Keeps caller request log
      (caller.audit action resourceType resourceId environmentId before after >>= fun _ => pure a) := by
  apply obeys_bind
  apply obeys_audit (fun _ => trivial)
  intro _
  exact obeys_pure trivial

/-- A project is inserted by a caller who may write, under their organization and with the key that was
    asked for. -/
theorem createProject_commands (body : CreateProject) :
    Keeps caller (.createProject body) [] (createProject caller body) := by
  apply obeys_check
  intro _ hallowed
  apply obeys_check
  intro _ _
  apply obeys_storage
  apply obeys_query
  · exact ⟨canWrite_of_requireWrite hallowed, rfl, body, rfl, rfl⟩
  · intro project
    exact keeps_audited

/-- The project is deleted that the request names in the caller's organization. -/
theorem deleteProject_commands (projectKey : String) :
    Keeps caller (.deleteProject projectKey) [] (deleteProject caller projectKey) := by
  apply obeys_check
  intro _ hallowed
  apply obeys_storage
  apply obeys_deleteProject ⟨canAdminister_of_requireAdmin hallowed, rfl, rfl⟩
  intro _
  exact obeys_audit (fun _ => trivial) fun _ => trivial

/-- The environment is made in the project that was found under the request's key. -/
theorem createEnvironment_commands (projectKey : String) (body : CreateEnvironment) (salt : String) :
    Keeps caller (.createEnvironment projectKey body salt) []
      (createEnvironment caller projectKey body salt) := by
  apply obeys_check
  intro _ hallowed
  apply obeys_check
  intro _ _
  apply obeys_storage
  apply obeys_findProject trivial
  intro project
  apply obeys_storage
  apply obeys_query
  · exact ⟨canWrite_of_requireWrite hallowed, projectKey, body, salt, project, rfl, rfl,
    answered_head, rfl⟩
  · intro environment
    exact keeps_audited

/-- The environment is deleted that was found in that project. -/
theorem deleteEnvironment_commands (projectKey environmentKey : String) :
    Keeps caller (.deleteEnvironment projectKey environmentKey) []
      (deleteEnvironment caller projectKey environmentKey) := by
  apply obeys_check
  intro _ hallowed
  apply obeys_storage
  apply obeys_findProject trivial
  intro project
  apply obeys_storage
  apply obeys_findEnvironment trivial
  intro environment
  apply obeys_storage
  apply obeys_deleteEnvironment ⟨canAdminister_of_requireAdmin hallowed, projectKey, project, rfl,
    answered_head.later, rfl⟩
  intro _
  exact obeys_audit (fun _ => trivial) fun _ => trivial

/-- The flag is made in the project that was found, with the key that was asked for. -/
theorem createFlag_commands (projectKey : String) (body : CreateFlag) :
    Keeps caller (.createFlag projectKey body) [] (createFlag crates caller projectKey body) := by
  apply obeys_check
  intro _ hallowed
  apply obeys_check
  intro _ _
  apply obeys_storage
  apply obeys_findProject trivial
  intro project
  apply obeys_check
  intro flag _
  apply obeys_storage
  apply obeys_query
  · exact ⟨canWrite_of_requireWrite hallowed, projectKey, body, project, rfl, rfl,
    answered_head, rfl⟩
  · intro row
    exact keeps_audited

/-- The flag that is written is the one that was found. -/
theorem updateFlag_commands (projectKey flagKey : String) (body : UpdateFlag) :
    Keeps caller (.updateFlag projectKey flagKey body) []
      (updateFlag crates caller projectKey flagKey body) := by
  apply obeys_updateFlagHandler
  · exact fun _ _ => commands_of_isRead
  · exact fun _ _ => trivial
  · intro log flagId patch hallowed _ _ hchecked
    obtain ⟨_, project, flag, hproject, hflag, rfl, _⟩ := hchecked
    exact ⟨canWrite_of_requireWrite hallowed, projectKey, flagKey, body, project, flag, rfl,
      ⟨hproject, hflag⟩, rfl⟩

/-- The flag is deleted under the request's key in the project that was found. -/
theorem deleteFlag_commands (projectKey flagKey : String) :
    Keeps caller (.deleteFlag projectKey flagKey) [] (deleteFlag caller projectKey flagKey) := by
  apply obeys_check
  intro _ hallowed
  apply obeys_storage
  apply obeys_findProject trivial
  intro project
  apply obeys_storage
  apply obeys_deleteFlag trivial (fun _ => trivial)
  · exact fun row => ⟨canAdminister_of_requireAdmin hallowed, projectKey, project, rfl,
      answered_head.later.later, rfl⟩
  · intro _
    exact obeys_audit (fun _ => trivial) fun _ => trivial

/-- The configuration that is written is that of the flag and the environment that were found. -/
theorem updateConfig_commands (projectKey environmentKey flagKey : String) (body : UpdateConfig) :
    Keeps caller (.updateConfig projectKey environmentKey flagKey body) []
      (updateConfig crates caller projectKey environmentKey flagKey body) := by
  apply obeys_check
  intro _ hallowed
  apply obeys_storage
  apply obeys_findProject trivial
  intro project
  apply obeys_storage
  apply obeys_findEnvironment trivial
  intro environment
  apply obeys_storage
  apply obeys_findFlag trivial
  intro flag
  apply obeys_check
  intro evaluable _
  apply obeys_storage
  apply obeys_plain trivial
  intro known
  apply obeys_check
  intro _ _
  apply obeys_attempt_findConfig trivial
  intro r image
  apply obeys_storage
  apply obeys_upsertConfig
  · refine ⟨canWrite_of_requireWrite hallowed, projectKey, environmentKey, flagKey, body, project,
      environment, flag, rfl, ⟨?_, ?_⟩, ⟨?_, ?_⟩, rfl, rfl⟩ <;> simp [FoundProject, Answered]
  · intro row
    exact keeps_audited

/-- The segment is made in the environment that was found. -/
theorem createSegment_commands (projectKey environmentKey : String) (body : CreateSegment) :
    Keeps caller (.createSegment projectKey environmentKey body) []
      (createSegment caller projectKey environmentKey body) := by
  apply obeys_check
  intro _ hallowed
  apply obeys_check
  intro _ _
  apply obeys_storage
  apply obeys_findProject trivial
  intro project
  apply obeys_storage
  apply obeys_findEnvironment trivial
  intro environment
  apply obeys_storage
  apply obeys_query
  · exact ⟨canWrite_of_requireWrite hallowed, projectKey, environmentKey, body, project,
    environment, rfl, rfl, ⟨answered_head.later, answered_head⟩, rfl⟩
  · intro segment
    exact keeps_audited

/-- The segment is written that the request names in the environment that was found. -/
theorem updateSegment_commands (projectKey environmentKey segmentKey : String)
    (body : UpdateSegment) :
    Keeps caller (.updateSegment projectKey environmentKey segmentKey body) []
      (updateSegment crates caller projectKey environmentKey segmentKey body) := by
  apply obeys_check
  intro _ hallowed
  apply obeys_storage
  apply obeys_findProject trivial
  intro project
  apply obeys_storage
  apply obeys_findEnvironment trivial
  intro environment
  apply obeys_storage
  apply obeys_findSegment trivial
  intro previous
  apply obeys_check
  intro _ _
  apply obeys_storage
  apply obeys_updateSegment trivial
  · intro current
    exact ⟨canWrite_of_requireWrite hallowed, projectKey, environmentKey, body, project, environment,
      rfl, ⟨answered_head.later.later.later, answered_head.later.later⟩, rfl⟩
  · intro log segment
    exact keeps_audited

/-- The segment is deleted there. -/
theorem deleteSegment_commands (projectKey environmentKey segmentKey : String) :
    Keeps caller (.deleteSegment projectKey environmentKey segmentKey) []
      (deleteSegment caller projectKey environmentKey segmentKey) := by
  apply obeys_check
  intro _ hallowed
  apply obeys_storage
  apply obeys_findProject trivial
  intro project
  apply obeys_storage
  apply obeys_findEnvironment trivial
  intro environment
  apply obeys_storage
  apply obeys_findSegment trivial
  intro segment
  apply obeys_storage
  apply obeys_deleteSegment trivial
  · exact ⟨canWrite_of_requireWrite hallowed, projectKey, environmentKey, project, environment, rfl,
      ⟨answered_head.later.later.later, answered_head.later.later⟩, rfl⟩
  · intro _
    exact obeys_audit (fun _ => trivial) fun _ => trivial

/-- What the response leaves out changes no statement. -/
theorem discard_commands {request : Request} {α : Type} {p : Handler α}
    (h : Keeps caller request [] p) : Keeps caller request [] (handle.discard p) := by
  apply obeys_bind
  apply Prog.Obeys.mono _ h
  intro log r _ a _
  exact obeys_pure trivial

/-- Every handler writes what its request names. -/
theorem handle_commands (request : Request) : Keeps caller request [] (handle crates caller request) := by
  cases request with
  | createProject body => exact discard_commands (createProject_commands body)
  | deleteProject projectKey => exact deleteProject_commands projectKey
  | createEnvironment projectKey body salt =>
      exact discard_commands (createEnvironment_commands projectKey body salt)
  | deleteEnvironment projectKey environmentKey =>
      exact deleteEnvironment_commands projectKey environmentKey
  | createFlag projectKey body => exact discard_commands (createFlag_commands projectKey body)
  | updateFlag projectKey flagKey body =>
      exact discard_commands (updateFlag_commands projectKey flagKey body)
  | deleteFlag projectKey flagKey => exact deleteFlag_commands projectKey flagKey
  | updateConfig projectKey environmentKey flagKey body =>
      exact discard_commands (updateConfig_commands projectKey environmentKey flagKey body)
  | createSegment projectKey environmentKey body =>
      exact discard_commands (createSegment_commands projectKey environmentKey body)
  | updateSegment projectKey environmentKey segmentKey body =>
      exact discard_commands (updateSegment_commands projectKey environmentKey segmentKey body)
  | deleteSegment projectKey environmentKey segmentKey =>
      exact deleteSegment_commands projectKey environmentKey segmentKey

end Handlers

/-! ### Requests that write no configuration -/

section Idle

variable {crates : Crates} {sha256 : List UInt8 → Vector UInt8 32}
  {trunc : Timestamp → Option Timestamp} {α β ε : Type}

/-- A program on the tables that writes no configuration. -/
abbrev IdleSql (p : Fallible Sql.Stmt Sql.Resp ε α) : Prop :=
  Confined (fun _ _ => True) (fun s => configures s = false) (fun _ => True) p

theorem idleSql_bind {p : Fallible Sql.Stmt Sql.Resp ε α} {f : α → Fallible Sql.Stmt Sql.Resp ε β}
    (hp : IdleSql p) (hf : ∀ a, IdleSql (f a)) : IdleSql (p >>= f) :=
  confined_seq hp fun a _ => hf a

theorem idleSql_query {s : Sql.Stmt} {onError : SqlError → StorageError}
    (hs : configures s = false) : IdleSql (Storage.query s onError) :=
  ⟨hs, fun _ _ _ _ => trivial⟩

theorem idleSql_except {r : Except ε α} :
    IdleSql (ExceptT.mk (.done r) : Fallible Sql.Stmt Sql.Resp ε α) :=
  confined_except fun _ _ => trivial

theorem idleSql_pure {a : α} : IdleSql (pure a : Fallible Sql.Stmt Sql.Resp ε α) :=
  confined_pure trivial

theorem idleSql_findExperiment {environmentId : Uuid} {key : String} :
    IdleSql (findExperiment environmentId key) :=
  idleSql_bind (idleSql_query rfl) fun _ => idleSql_except

theorem idleSql_orWrongState {environmentId : Uuid} {key needed : String} {written : Nat} :
    IdleSql (orWrongState environmentId key needed written) := by
  rw [orWrongState]
  split
  · exact idleSql_bind idleSql_findExperiment fun _ => confined_throw
  · exact idleSql_pure

/-- The requests about experiments write no flag, segment or environment. -/
theorem handleExperiment_idle {caller : AuthUser} {request : ExperimentRequest} :
    IdleSql (handleExperiment caller request) := by
  -- a request about experiments is a sequence of checks, lookups and statements on experiments
  cases request <;>
    repeat' first
      | exact idleSql_pure
      | exact idleSql_except
      | exact idleSql_orWrongState
      | exact idleSql_query rfl
      | refine idleSql_bind ?_ fun _ => ?_
      | refine confined_adapt ?_

/-- A program on the whole store that writes no configuration. -/
abbrev Idle (p : Fallible Stmt Resp ε α) : Prop :=
  Confined (fun _ _ => True) (fun s => ∀ t, s = .counted (.sql t) → configures t = false)
    (fun _ => True) p

theorem idle_bind {p : Fallible Stmt Resp ε α} {f : α → Fallible Stmt Resp ε β} (hp : Idle p)
    (hf : ∀ a, Idle (f a)) : Idle (p >>= f) :=
  confined_seq hp fun a _ => hf a

theorem idle_pure {a : α} : Idle (pure a : Fallible Stmt Resp ε α) :=
  confined_pure trivial

theorem idle_except {r : Except ε α} : Idle (ExceptT.mk (.done r) : Fallible Stmt Resp ε α) :=
  confined_except fun _ _ => trivial

theorem idle_sql {p : Fallible Sql.Stmt Sql.Resp ε α} (hp : IdleSql p) : Idle (sql p) := by
  refine Prog.confined_embed (f := fun s => Stmt.counted (.sql s)) ?_ (fun _ _ _ => trivial) hp
  intro s hs t heq
  cases heq
  exact hs

/-- A statement beyond the tables. -/
theorem idle_query {s : Stmt} {onError : SqlError → StorageError}
    (hs : ∀ t, s ≠ .counted (.sql t)) : Idle (query s onError) :=
  ⟨fun t heq => absurd heq (hs t), fun _ _ _ _ => trivial⟩

theorem idle_lookup {q : Query α} (hq : IdleSql q) : Idle (lookup q) :=
  confined_adapt (idle_sql hq)

theorem idle_joinedExperiment {environmentId : Uuid} {key : String} :
    Idle (storage (findJoinedExperiment environmentId key)) := by
  refine confined_adapt (idle_bind (idle_query ?_) fun _ => idle_sql idleSql_except)
  intro t h
  cases h

/-- Nor do the lists. -/
theorem consult_idle {caller : AuthUser} {request : Consultation} : Idle (consult caller request) := by
  cases request <;>
    repeat' first
      | exact idle_pure
      | exact idle_except
      | exact idle_joinedExperiment
      | exact idleSql_except
      | exact idleSql_query rfl
      | refine idleSql_bind ?_ fun _ => ?_
      | refine idle_bind ?_ fun _ => ?_
      | refine idle_lookup ?_
      | refine confined_adapt (idle_query fun t h => ?_); cases h

/-- Nor do those about keys. -/
theorem handleKeys_idle {caller : AuthUser} {request : KeyRequest} :
    Idle (handleKeys crates sha256 caller request) := by
  cases request <;>
    repeat' first
      | exact idle_pure
      | exact idle_except
      | exact idleSql_except
      | exact idle_sql idleSql_except
      | exact idleSql_query rfl
      | refine idleSql_bind ?_ fun _ => ?_
      | refine idle_bind ?_ fun _ => ?_
      | refine idle_lookup ?_
      | refine idle_query fun t h => ?_; cases h
      | refine confined_adapt (idle_sql ?_)
      | refine confined_adapt ?_

/-- Nor do those with a key. -/
theorem handleSdk_idle {identity : KeyIdentity} {request : SdkRequest} :
    Idle (handleSdk crates trunc identity request) := by
  cases request with
  | ingest events now =>
      refine idle_bind (confined_adapt ?_) fun _ => idle_pure
      refine Prog.confined_embed (f := Stmt.counted) (R := fun _ _ => True)
        (G := fun s => ∀ t, s = .sql t → configures t = false) ?_ (fun _ _ _ => trivial) ?_
      · intro s hs t heq
        cases heq
        exact hs t rfl
      · refine confined_seq (P := fun _ => True) (confined_except fun _ _ => trivial) fun deltas _ => ?_
        refine confined_seq (P := fun _ => True) (confined_adapt ?_) fun _ _ => confined_pure trivial
        rw [Counting.ingestCounters]
        split
        · exact confined_throw
        · refine ⟨fun t heq => ?_, fun _ _ _ _ => trivial⟩
          cases heq
  | evaluateAll body now | evaluateOne flagKey body now | snapshot now =>
      repeat' first
        | exact idle_pure
        | exact idle_except
        | exact idleSql_pure
        | exact idleSql_except
        | exact idleSql_query rfl
        | refine idleSql_bind ?_ fun _ => ?_
        | refine idle_bind ?_ fun _ => ?_
        | refine idle_lookup ?_

/-- Nor does telling whose key was presented, which writes its last use. -/
theorem identify_idle {presented : Option String} : Idle (identify sha256 presented) := by
  refine idle_bind idle_except fun _ => idle_bind idle_except fun _ => ?_
  refine idle_bind (confined_adapt (idle_query fun t h => ?_)) fun _ => idle_except
  cases h

end Idle

/-! ### Whose statements write the configuration -/

/-- What a thread was answered by the tables. -/
def FoundIn (log : Log Stmt Resp) : Found :=
  fun s v => (⟨.counted (.sql s), .ok v⟩ : (s : Stmt) × Resp s) ∈ log

/-- A statement that writes the configuration is what a management request asks for. -/
def Commanded (call : Call) (log : Log Stmt Resp) (s : Stmt) : Prop :=
  ∀ t, s = .counted (.sql t) → configures t = true →
    ∃ caller request, call = .manage caller (.configuration request) ∧
      Commands (FoundIn log) caller request t

section Commanded

variable {crates : Crates} {sha256 : List UInt8 → Vector UInt8 32}
  {trunc : Timestamp → Option Timestamp}

/-- More answers do no harm. -/
theorem Commands.mono {found found' : Found} {caller : AuthUser} {request : Request} {s : Sql.Stmt}
    (hfound : ∀ s v, found s v → found' s v) (h : Commands found caller request s) :
    Commands found' caller request s := by
  cases s with
  | createEnvironment =>
      obtain ⟨hrole, projectKey, body, salt, project, hrequest, hkey, hproject, hid⟩ := h
      exact ⟨hrole, projectKey, body, salt, project, hrequest, hkey, hfound _ _ hproject, hid⟩
  | deleteEnvironment | deleteFlag =>
      obtain ⟨hrole, projectKey, project, hrequest, hproject, hid⟩ := h
      exact ⟨hrole, projectKey, project, hrequest, hfound _ _ hproject, hid⟩
  | createFlag =>
      obtain ⟨hrole, projectKey, body, project, hrequest, hkey, hproject, hid⟩ := h
      exact ⟨hrole, projectKey, body, project, hrequest, hkey, hfound _ _ hproject, hid⟩
  | updateFlag =>
      obtain ⟨hrole, projectKey, flagKey, body, project, flag, hrequest, hflag, hid⟩ := h
      exact ⟨hrole, projectKey, flagKey, body, project, flag, hrequest,
        ⟨hfound _ _ hflag.1, hfound _ _ hflag.2⟩, hid⟩
  | upsertConfig =>
      obtain ⟨hrole, projectKey, environmentKey, flagKey, body, project, environment, flag, hrequest,
        henvironment, hflag, hids⟩ := h
      exact ⟨hrole, projectKey, environmentKey, flagKey, body, project, environment, flag, hrequest,
        ⟨hfound _ _ henvironment.1, hfound _ _ henvironment.2⟩,
        ⟨hfound _ _ hflag.1, hfound _ _ hflag.2⟩, hids⟩
  | insertSegment =>
      obtain ⟨hrole, projectKey, environmentKey, body, project, environment, hrequest, hkey,
        henvironment, hid⟩ := h
      exact ⟨hrole, projectKey, environmentKey, body, project, environment, hrequest, hkey,
        ⟨hfound _ _ henvironment.1, hfound _ _ henvironment.2⟩, hid⟩
  | updateSegment =>
      obtain ⟨hrole, projectKey, environmentKey, body, project, environment, hrequest,
        henvironment, hid⟩ := h
      exact ⟨hrole, projectKey, environmentKey, body, project, environment, hrequest,
        ⟨hfound _ _ henvironment.1, hfound _ _ henvironment.2⟩, hid⟩
  | deleteSegment =>
      obtain ⟨hrole, projectKey, environmentKey, project, environment, hrequest,
        henvironment, hid⟩ := h
      exact ⟨hrole, projectKey, environmentKey, project, environment, hrequest,
        ⟨hfound _ _ henvironment.1, hfound _ _ henvironment.2⟩, hid⟩
  | _ => exact h

/-- A request for the configuration, on the whole store. -/
theorem configuration_commanded {caller : AuthUser} {request : Request} :
    Prog.Obeys (Commanded (.manage caller (.configuration request))) (fun _ _ => True) []
      (sql (handle crates caller request)).run := by
  refine Prog.obeys_embed (f := fun s => Stmt.counted (.sql s))
    (M := fun log log' => ∀ s v, Answered log s v → FoundIn log' s v) ?_ ?_ ?_ ?_
    (handle_commands request)
  · intro log log' s r hmatches t v hanswered
    rcases List.mem_cons.mp hanswered with heq | hold
    · cases heq
      exact List.mem_cons_self
    · exact List.mem_cons_of_mem _ (hmatches t v hold)
  · intro log log' s hmatches hasked t heq _
    cases heq
    exact ⟨caller, request, rfl, Commands.mono hmatches hasked⟩
  · exact fun _ _ _ => trivial
  · intro s v hanswered
    cases hanswered

/-- A program without such writes has nothing to be commanded. -/
theorem commanded_of_idle {call : Call} {α : Type} {p : Endpoint α} (h : Idle p) :
    Prog.Obeys (Commanded call) (fun _ _ => True) [] p.run := by
  refine Prog.Obeys.imp ?_ (fun _ _ _ => trivial) (Prog.Confined.obeys h)
  intro _ s hs t heq hconfigures
  rw [hs t heq] at hconfigures
  cases hconfigures

/-- Whatever a call is answered, what it writes of the configuration was asked for. -/
theorem program_commanded (call : Call) : Prog.Obeys (Commanded call) (fun _ _ => True) []
    (program crates sha256 trunc call) := by
  cases call with
  | manage caller request =>
      cases request with
      | configuration request =>
          refine Prog.obeys_bind (Prog.obeys_bind ?_)
          refine Prog.Obeys.mono ?_ configuration_commanded
          rintro log (a | e) _ <;> exact trivial
      | experiment request =>
          exact commanded_of_idle (idle_bind (confined_adapt (idle_sql handleExperiment_idle))
            fun _ => idle_pure)
  | consult caller request => exact commanded_of_idle consult_idle
  | keys caller request => exact commanded_of_idle handleKeys_idle
  | sdk presented request =>
      exact commanded_of_idle (idle_bind identify_idle fun _ => handleSdk_idle)
  | touch keyId =>
      refine commanded_of_idle (idle_bind (confined_adapt (idle_query fun t h => ?_)) fun _ => idle_pure)
      cases h

end Commanded

end FlagForge.Service
