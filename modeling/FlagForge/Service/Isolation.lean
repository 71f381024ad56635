/-
Module: FlagForge.Service.Isolation
Layer: Service
Purpose: The organizations do not see each other. Every request issues statements of the organization it
  is made for, whatever it is answered, so in any interleaving of requests the ones of an organization
  run as they would alone on what the organization has, and nobody else's change it.
Imports: FlagForge.Service.Tenants, FlagForge.Service.Endpoints, FlagForge.Api.ClientKey (a hash for the
  two shops)
Trusted boundary: an identifier that the database generates is not generated twice, nor is a key; the
  numbers of audit entries come from one sequence of all organizations and are given
Main exports: Call.owner, Call.Fits, program_confined, Generated, organization_runs_alone,
  foreign_statements_unobservable
-/
import FlagForge.Service.Tenants
import FlagForge.Service.Endpoints
import FlagForge.Api.ClientKey

namespace FlagForge.Service

open Fallible (Confined confined_bind confined_pure confined_throw confined_seq confined_except
  confined_adapt)
open Storage
open Storage.Sql (SqlError NewAuditEntry)
open Api

/-! ### Storage functions -/

section Queries

variable {a : Assignment} {organizationId projectId environmentId flagId : Uuid} {key : String}
  {α : Type}

/-- One statement: it has to be allowed, and of its answers only those count that the relation
    lets in. -/
theorem confined_query {G : Sql.Stmt → Prop} {R : (s : Sql.Stmt) → Sql.Resp s → Prop} {s : Sql.Stmt}
    {onError : SqlError → StorageError} {Q : s.Result → Prop} (hs : G s)
    (hQ : ∀ value, R s (.ok value) → Q value) : Confined R G Q (Storage.query s onError) := by
  refine ⟨hs, fun r hr value hvalue => ?_⟩
  cases r with
  | error e => cases hvalue
  | ok value' =>
      cases hvalue
      exact hQ _ hr

/-- A statement whose answer is of no interest. -/
theorem confined_statement {s : Sql.Stmt} {onError : SqlError → StorageError}
    (hs : a.SqlOwn organizationId s) :
    Confined (SqlAnswer a organizationId) (a.SqlOwn organizationId) (fun _ => True)
      (Storage.query s onError) :=
  confined_query hs fun _ _ => trivial

/-- Where no row is found the program ends; where one is found, it is that row. -/
theorem confined_orNotFound {G : Sql.Stmt → Prop} {R : (s : Sql.Stmt) → Sql.Resp s → Prop}
    {entity : String} {row : Option α} {Q : α → Prop} (hQ : ∀ b, row = some b → Q b) :
    Confined R G Q (Storage.orNotFound entity row) := by
  apply confined_except
  intro b hb
  cases row with
  | none => cases hb
  | some b' =>
      cases hb
      exact hQ _ rfl

/-- A project that is found under the organization is the organization's. -/
theorem confined_findProject : Confined (SqlAnswer a organizationId) (a.SqlOwn organizationId)
    (fun p => a.id p.id = organizationId) (findProject organizationId key) :=
  confined_seq (confined_query (s := .selectProject organizationId key) (Q := fun row =>
    ∀ p : ProjectRow, row = some p → a.id p.id = organizationId) rfl fun _ h => h)
    fun _ h => confined_orNotFound h

/-- An environment that is found in a project of the organization is the organization's. -/
theorem confined_findEnvironment (hproject : a.id projectId = organizationId) :
    Confined (SqlAnswer a organizationId) (a.SqlOwn organizationId)
      (fun e => a.id e.id = organizationId) (findEnvironment projectId key) :=
  confined_seq (confined_query (s := .selectEnvironment projectId key) (Q := fun row =>
    ∀ e : EnvironmentRow, row = some e → a.id e.id = organizationId) hproject fun _ h => h)
    fun _ h => confined_orNotFound h

/-- So is a flag that is found in one of its projects. -/
theorem confined_findFlag (hproject : a.id projectId = organizationId) :
    Confined (SqlAnswer a organizationId) (a.SqlOwn organizationId)
      (fun f => a.id f.id = organizationId) (findFlag projectId key) :=
  confined_seq (confined_query (s := .selectFlag projectId key) (Q := fun row =>
    ∀ f : FlagRow, row = some f → a.id f.id = organizationId) hproject fun _ h => h)
    fun _ h => confined_orNotFound h

/-- A row that is looked up by what the organization has. -/
theorem confined_find {s : Sql.Stmt} {entity : String} (hs : a.SqlOwn organizationId s)
    (f : s.Result → Option α) : Confined (SqlAnswer a organizationId) (a.SqlOwn organizationId)
      (fun _ => True) (Storage.plain s >>= fun row => Storage.orNotFound entity (f row)) :=
  confined_seq (confined_statement hs) fun _ _ => confined_orNotFound fun _ _ => trivial

theorem confined_findConfig (henvironment : a.id environmentId = organizationId)
    (hflag : a.id flagId = organizationId) :
    Confined (SqlAnswer a organizationId) (a.SqlOwn organizationId) (fun _ => True)
      (findConfig flagId environmentId) :=
  confined_find (s := .selectConfig flagId environmentId) ⟨hflag, henvironment⟩ id

theorem confined_findSegment (henvironment : a.id environmentId = organizationId) :
    Confined (SqlAnswer a organizationId) (a.SqlOwn organizationId) (fun _ => True)
      (findSegment environmentId key) :=
  confined_find (s := .selectSegment environmentId key) henvironment id

/-- The experiments of an environment of the organization are its own to ask for. -/
theorem confined_findExperiment (henvironment : a.id environmentId = organizationId) :
    Confined (SqlAnswer a organizationId) (a.SqlOwn organizationId) (fun _ => True)
      (findExperiment environmentId key) :=
  confined_find (s := .selectExperiment environmentId key) henvironment id

/-- Telling why an experiment was not written takes a look at the same experiment. -/
theorem confined_orWrongState {needed : String} {written : Nat}
    (henvironment : a.id environmentId = organizationId) :
    Confined (SqlAnswer a organizationId) (a.SqlOwn organizationId) (fun _ => True)
      (orWrongState environmentId key needed written) := by
  rw [orWrongState]
  split
  · exact confined_seq (confined_findExperiment henvironment) fun _ _ => confined_throw
  · exact confined_pure trivial

/-- Starting and stopping an experiment stay in its environment. -/
theorem confined_transition {source target : ExperimentState}
    (henvironment : a.id environmentId = organizationId) :
    Confined (SqlAnswer a organizationId) (a.SqlOwn organizationId) (fun _ => True)
      (Storage.transition environmentId key source target) := by
  refine confined_seq (confined_statement (s := .transitionExperiment environmentId key source target)
    henvironment) fun _ _ => ?_
  refine confined_seq (confined_orWrongState henvironment) fun _ _ => ?_
  exact confined_findExperiment henvironment

/-- Loading a snapshot asks for nothing but the rows of its environment. -/
theorem confined_load {now : Timestamp} (henvironment : a.id environmentId = organizationId) :
    Confined (SqlAnswer a organizationId) (a.SqlOwn organizationId) (fun _ => True)
      (load environmentId now) := by
  refine confined_seq (confined_statement (s := .selectSalt environmentId) henvironment)
    fun _ _ => ?_
  refine confined_seq (confined_orNotFound (Q := fun _ => True) fun _ _ => trivial) fun _ _ => ?_
  refine confined_seq (confined_statement (s := .selectEnvironmentFlags environmentId) henvironment)
    fun _ _ => ?_
  refine confined_seq (confined_statement (s := .selectSegments environmentId) henvironment)
    fun _ _ => ?_
  refine confined_seq (confined_statement (s := .selectRunningExperiments environmentId)
    henvironment) fun _ _ => ?_
  exact confined_pure trivial

end Queries

/-! ### Handlers -/

section Handlers

variable {a : Assignment} {crates : Crates} {caller : AuthUser} {α β : Type}
  {projectKey environmentKey flagKey : String}

/-- The statements of the caller's organization, answered with what it has. -/
abbrev Kept (a : Assignment) (caller : AuthUser) (Q : α → Prop) (h : Handler α) : Prop :=
  Confined (SqlAnswer a caller.organizationId) (a.SqlOwn caller.organizationId) Q h

/-- A check asks for nothing. -/
theorem kept_check {r : Except ApiError α} {f : α → Handler β} {Q : β → Prop}
    (h : ∀ b, Kept a caller Q (f b)) : Kept a caller Q (Api.check r >>= f) :=
  confined_seq (confined_except fun _ _ => trivial) fun b (_ : True) => h b

/-- A storage function, and the rest of the handler for every result that it may have. -/
theorem kept_storage {q : Query α} {f : α → Handler β} {P : α → Prop} {Q : β → Prop}
    (hq : Confined (SqlAnswer a caller.organizationId) (a.SqlOwn caller.organizationId) P q)
    (h : ∀ b, P b → Kept a caller Q (f b)) : Kept a caller Q (Api.storage q >>= f) :=
  confined_seq (confined_adapt hq) h

/-- An entry in the audit log is the caller's, also where it names an environment of theirs. -/
theorem kept_audit {action resourceType resourceId : String} {environmentId : Option Uuid}
    {before after : Option Image} (h : ∀ id ∈ environmentId, a.id id = caller.organizationId) :
    Kept a caller (fun _ => True)
      (caller.audit action resourceType resourceId environmentId before after) :=
  confined_adapt (confined_statement ⟨rfl, h⟩)

theorem kept_audit_of_some {action resourceType resourceId : String} {environmentId : Uuid}
    {before after : Option Image} (h : a.id environmentId = caller.organizationId) :
    Kept a caller (fun _ => True)
      (caller.audit action resourceType resourceId (some environmentId) before after) := by
  apply kept_audit
  intro id hid
  cases hid
  exact h

theorem kept_audit_of_none {action resourceType resourceId : String} {before after : Option Image} :
    Kept a caller (fun _ => True)
      (caller.audit action resourceType resourceId none before after) :=
  kept_audit fun _ h => by cases h

/-- The handler goes on in any case, whatever was found. -/
theorem kept_attempt {q : Query α} {f : Option α → Handler β} {P : α → Prop} {Q : β → Prop}
    (hq : Confined (SqlAnswer a caller.organizationId) (a.SqlOwn caller.organizationId) P q)
    (h : ∀ b, Kept a caller Q (f b)) : Kept a caller Q (attempt q >>= f) := by
  refine confined_seq (P := fun _ => True) ?_ fun b _ => h b
  apply Prog.confined_bind
  exact Prog.Confined.mono (fun _ _ _ _ => trivial) hq

/-- After a project is found, the handler goes on with one of the caller's organization. -/
theorem kept_project {f : ProjectRow → Handler β} {Q : β → Prop}
    (h : ∀ p, a.id p.id = caller.organizationId → Kept a caller Q (f p)) :
    Kept a caller Q (Api.storage (findProject caller.organizationId projectKey) >>= f) :=
  kept_storage confined_findProject h

/-- After an environment is found in such a project, with one of theirs. -/
theorem kept_environment {projectId : Uuid} {f : EnvironmentRow → Handler β} {Q : β → Prop}
    (hproject : a.id projectId = caller.organizationId)
    (h : ∀ e, a.id e.id = caller.organizationId → Kept a caller Q (f e)) :
    Kept a caller Q (Api.storage (findEnvironment projectId environmentKey) >>= f) :=
  kept_storage (confined_findEnvironment hproject) h

/-- After a flag is found in such a project, with one of theirs. -/
theorem kept_flag {projectId : Uuid} {f : FlagRow → Handler β} {Q : β → Prop}
    (hproject : a.id projectId = caller.organizationId)
    (h : ∀ flag, a.id flag.id = caller.organizationId → Kept a caller Q (f flag)) :
    Kept a caller Q (Api.storage (findFlag projectId flagKey) >>= f) :=
  kept_storage (confined_findFlag hproject) h

/-- What the response carries besides success or the error asks for nothing. -/
theorem kept_discard {h : Handler α} (hh : Kept a caller (fun _ => True) h) :
    Kept a caller (fun _ => True) (handle.discard h) :=
  confined_seq hh fun _ _ => confined_pure trivial

theorem kept_pure {b : α} : Kept a caller (fun _ => True) (pure b) :=
  confined_pure trivial

/-- Re-validating the configurations asks for those of the flag in environments of the caller's
    organization. -/
theorem kept_revalidate {flag : FlagRow} {variants : List Variant}
    (hflag : a.id flag.id = caller.organizationId) : ∀ {environments : List EnvironmentRow},
      (∀ e ∈ environments, a.id e.id = caller.organizationId) →
        Kept a caller (fun _ => True) (revalidate crates flag variants environments)
  | [], _ => kept_pure
  | e :: environments, h => by
      refine kept_storage (confined_findConfig (h e List.mem_cons_self) hflag) fun _ _ => ?_
      refine kept_check fun _ => ?_
      exact kept_revalidate hflag fun e he => h e (List.mem_cons_of_mem _ he)

/-- The check of new variants goes through the environments of the flag's project. -/
theorem kept_checkVariants {project : ProjectRow} {flag : FlagRow} {variants : Option (List Variant)}
    (hproject : a.id project.id = caller.organizationId)
    (hflag : a.id flag.id = caller.organizationId) :
    Kept a caller (fun _ => True) (checkVariants crates project flag variants) := by
  cases variants with
  | none => exact kept_pure
  | some variants =>
      refine kept_storage (P := fun rows : List EnvironmentRow =>
        ∀ e ∈ rows, a.id e.id = caller.organizationId) ?_ fun _ h => kept_revalidate hflag h
      exact confined_query (s := .selectEnvironments project.id) hproject fun _ h => h

/-- A write, the entry in the audit log, and the row that is returned. -/
theorem kept_written {s : Sql.Stmt} {onError : SqlError → StorageError} {f : s.Result → Handler β}
    {Q : β → Prop} (hs : a.SqlOwn caller.organizationId s) (h : ∀ b, Kept a caller Q (f b)) :
    Kept a caller Q (Api.storage (Storage.query s onError) >>= f) :=
  kept_storage (confined_statement hs) fun b (_ : True) => h b

theorem kept_returned {h : Handler Unit} {b : β} (hh : Kept a caller (fun _ => True) h) :
    Kept a caller (fun _ => True) (h >>= fun _ => pure b) :=
  confined_seq hh fun _ _ => kept_pure

/-! One lemma for each endpoint that does more than check, write and note. -/

/-- The entry about a new environment names the environment that was made. -/
theorem createEnvironment_kept {body : CreateEnvironment} {salt : String} :
    Kept a caller (fun _ => True) (handle crates caller (.createEnvironment projectKey body salt)) := by
  apply kept_discard
  refine kept_check fun _ => kept_check fun _ => kept_project fun project hproject => ?_
  refine kept_storage (confined_query (s := .createEnvironment ..) hproject fun _ h => h)
    fun _ henvironment => ?_
  exact kept_returned (kept_audit_of_some henvironment)

/-- The environment is looked up in the project first, and deleted there. -/
theorem deleteEnvironment_kept :
    Kept a caller (fun _ => True)
      (handle crates caller (.deleteEnvironment projectKey environmentKey)) := by
  refine kept_check fun _ => kept_project fun project hproject => ?_
  refine kept_environment hproject fun _ _ => ?_
  refine kept_storage (confined_seq (confined_statement (s := .deleteEnvironment ..) hproject)
    fun _ _ => confined_except fun _ _ => trivial) fun _ (_ : True) => ?_
  exact kept_audit_of_none

/-- The environments whose configurations are checked against the new variants are the project's. -/
theorem updateFlag_kept {body : UpdateFlag} :
    Kept a caller (fun _ => True) (handle crates caller (.updateFlag projectKey flagKey body)) := by
  apply kept_discard
  refine kept_check fun _ => kept_project fun project hproject => ?_
  refine kept_flag hproject fun flag hflag => ?_
  refine confined_seq (kept_checkVariants hproject hflag) fun _ _ => ?_
  refine kept_storage (confined_seq (confined_statement (s := .updateFlag ..) hflag)
    fun _ _ => confined_orNotFound fun _ _ => trivial) fun _ (_ : True) => ?_
  exact kept_returned kept_audit_of_none

/-- The experiments that are looked for are those of the project's flag. -/
theorem deleteFlag_kept :
    Kept a caller (fun _ => True) (handle crates caller (.deleteFlag projectKey flagKey)) := by
  refine kept_check fun _ => kept_project fun project hproject => ?_
  refine kept_storage (P := fun _ => True) ?_ fun _ _ => kept_audit_of_none
  refine confined_seq (confined_findFlag hproject) fun flag hflag => ?_
  refine confined_seq (confined_statement (s := .selectExperimentsOfFlag ..) hflag)
    fun _ _ => ?_
  refine confined_seq (confined_except fun _ _ => trivial) fun _ (_ : True) => ?_
  refine confined_seq (confined_statement (s := .deleteFlag ..) hproject) fun _ _ => ?_
  exact confined_except fun _ _ => trivial

/-- The configuration that is written is that of a flag and an environment of one project. -/
theorem updateConfig_kept {body : UpdateConfig} :
    Kept a caller (fun _ => True)
      (handle crates caller (.updateConfig projectKey environmentKey flagKey body)) := by
  apply kept_discard
  refine kept_check fun _ => kept_project fun project hproject => ?_
  refine kept_environment hproject fun environment henvironment => ?_
  refine kept_flag hproject fun flag hflag => kept_check fun _ => ?_
  refine kept_written (s := .selectSegmentKeys ..) henvironment fun _ => kept_check fun _ => ?_
  refine kept_attempt (confined_findConfig henvironment hflag) fun _ => ?_
  refine kept_storage (confined_seq (confined_statement (s := .upsertConfig ..)
    ⟨hflag, henvironment⟩) fun _ _ => confined_except fun _ _ => trivial) fun _ (_ : True) => ?_
  exact kept_returned (kept_audit_of_some henvironment)

/-- The segment is read twice, before and after its content is checked, both times in its
    environment. -/
theorem updateSegment_kept {segmentKey : String} {body : UpdateSegment} :
    Kept a caller (fun _ => True)
      (handle crates caller (.updateSegment projectKey environmentKey segmentKey body)) := by
  apply kept_discard
  refine kept_check fun _ => kept_project fun project hproject => ?_
  refine kept_environment hproject fun environment henvironment => ?_
  refine kept_storage (confined_findSegment henvironment) fun _ _ => kept_check fun _ => ?_
  refine kept_storage (P := fun _ => True) ?_ fun _ _ =>
    kept_returned (kept_audit_of_some henvironment)
  refine confined_seq (confined_findSegment henvironment) fun _ _ => ?_
  refine confined_seq (confined_except fun _ _ => trivial) fun _ (_ : True) => ?_
  refine confined_seq (confined_statement (s := .updateSegment ..) henvironment) fun _ _ => ?_
  exact confined_except fun _ _ => trivial

/-- The flags that are asked for references to the segment are those of its environment. -/
theorem deleteSegment_kept {segmentKey : String} :
    Kept a caller (fun _ => True)
      (handle crates caller (.deleteSegment projectKey environmentKey segmentKey)) := by
  refine kept_check fun _ => kept_project fun project hproject => ?_
  refine kept_environment hproject fun environment henvironment => ?_
  refine kept_storage (confined_findSegment henvironment) fun _ _ => ?_
  refine kept_storage (P := fun _ => True) ?_ fun _ _ => kept_audit_of_some henvironment
  refine confined_seq (confined_statement (s := .selectReferencingFlags ..) henvironment)
    fun _ _ => ?_
  refine confined_seq (confined_except fun _ _ => trivial) fun _ (_ : True) => ?_
  refine confined_seq (confined_statement (s := .deleteSegment ..) henvironment) fun _ _ => ?_
  exact confined_except fun _ _ => trivial

/-- The statements of every request about the configuration ask only for what is the caller's, as long
    as the answers that they go on with are about what was asked. -/
theorem handle_kept {request : Request} :
    Kept a caller (fun _ => True) (handle crates caller request) := by
  cases request with
  | createProject body =>
      apply kept_discard
      refine kept_check fun _ => kept_check fun _ => ?_
      refine kept_written (s := .insertProject ..) rfl fun _ => ?_
      exact kept_returned kept_audit_of_none
  | deleteProject projectKey =>
      refine kept_check fun _ => ?_
      refine kept_storage (confined_seq (confined_statement (s := .deleteProject ..) rfl)
        fun _ _ => confined_except fun _ _ => trivial) fun _ (_ : True) => ?_
      exact kept_audit_of_none
  | createEnvironment projectKey body salt => exact createEnvironment_kept
  | deleteEnvironment projectKey environmentKey => exact deleteEnvironment_kept
  | createFlag projectKey body =>
      apply kept_discard
      refine kept_check fun _ => kept_check fun _ => kept_project fun project hproject => ?_
      refine kept_check fun _ => kept_written (s := .createFlag ..) hproject fun _ => ?_
      exact kept_returned kept_audit_of_none
  | updateFlag projectKey flagKey body => exact updateFlag_kept
  | deleteFlag projectKey flagKey => exact deleteFlag_kept
  | updateConfig projectKey environmentKey flagKey body => exact updateConfig_kept
  | createSegment projectKey environmentKey body =>
      apply kept_discard
      refine kept_check fun _ => kept_check fun _ => kept_project fun project hproject => ?_
      refine kept_environment hproject fun environment henvironment => ?_
      refine kept_written (s := .insertSegment ..) henvironment fun _ => ?_
      exact kept_returned (kept_audit_of_some henvironment)
  | updateSegment projectKey environmentKey segmentKey body => exact updateSegment_kept
  | deleteSegment projectKey environmentKey segmentKey => exact deleteSegment_kept

/-- So do those of every request about experiments. -/
theorem handleExperiment_kept {request : ExperimentRequest} :
    Kept a caller (fun _ => True) (handleExperiment caller request) := by
  cases request with
  | create projectKey environmentKey body =>
      apply kept_discard
      refine kept_check fun _ => kept_check fun _ => kept_check fun _ => ?_
      refine kept_project fun project hproject => ?_
      refine kept_environment hproject fun environment henvironment => ?_
      refine kept_flag hproject fun flag hflag => kept_check fun _ => ?_
      refine kept_storage (confined_seq (confined_statement (s := .insertExperiment ..)
        ⟨hflag, henvironment⟩) fun _ _ => confined_findExperiment henvironment) fun _ _ => ?_
      exact kept_returned (kept_audit_of_some henvironment)
  | update projectKey environmentKey experimentKey body =>
      apply kept_discard
      refine kept_check fun _ => kept_project fun project hproject => ?_
      refine kept_environment hproject fun environment henvironment => ?_
      refine kept_storage (confined_findExperiment henvironment) fun _ _ => ?_
      refine kept_storage (P := fun _ => True) ?_ fun _ _ =>
        kept_returned (kept_audit_of_some henvironment)
      refine confined_seq (confined_statement (s := .updateExperiment ..) henvironment)
        fun _ _ => ?_
      refine confined_seq (confined_except fun _ _ => trivial) fun _ (_ : True) => ?_
      exact confined_findExperiment henvironment
  | start projectKey environmentKey experimentKey
  | stop projectKey environmentKey experimentKey =>
      apply kept_discard
      refine kept_check fun _ => kept_project fun project hproject => ?_
      refine kept_environment hproject fun environment henvironment => ?_
      refine kept_storage (confined_transition henvironment) fun _ _ => ?_
      exact kept_returned (kept_audit_of_some henvironment)
  | delete projectKey environmentKey experimentKey =>
      refine kept_check fun _ => kept_project fun project hproject => ?_
      refine kept_environment hproject fun environment henvironment => ?_
      refine kept_storage (confined_findExperiment henvironment) fun _ _ => ?_
      refine kept_storage (P := fun _ => True) ?_ fun _ _ => kept_audit_of_some henvironment
      refine confined_seq (confined_statement (s := .deleteExperiment ..) henvironment)
        fun _ _ => ?_
      exact confined_orWrongState henvironment

end Handlers

/-! ### Endpoints -/

section Endpoints

variable {a : Assignment} {organizationId : Uuid} {crates : Crates}
  {sha256 : List UInt8 → Vector UInt8 32} {trunc : Timestamp → Option Timestamp} {α β ε : Type}
  {projectKey environmentKey : String}

/-- The statements of the organization, on the whole store. -/
abbrev Stays (a : Assignment) (organizationId : Uuid) (Q : α → Prop) (p : Fallible Stmt Resp ε α) :
    Prop :=
  Confined (a.Answer organizationId) (a.Own organizationId) Q p

/-- A program of the configuration's statements is one of the service. -/
theorem stays_sql {p : Fallible Sql.Stmt Sql.Resp ε α} {Q : α → Prop}
    (h : Confined (SqlAnswer a organizationId) (a.SqlOwn organizationId) Q p) :
    Stays a organizationId Q (sql p) :=
  Prog.confined_embed (f := fun s => Stmt.counted (.sql s)) (R := SqlAnswer a organizationId)
    (G := a.SqlOwn organizationId) (fun _ h => h) (fun _ _ h => h) h

/-- So is one of the statements on counters. -/
theorem stays_counted {p : Fallible Counting.Stmt Counting.Resp ε α} {Q : α → Prop}
    (h : Confined (fun _ _ => True) (fun s => a.Own organizationId (.counted s)) Q p) :
    Stays a organizationId Q (counted p) :=
  Prog.confined_embed (f := Stmt.counted) (R := fun _ _ => True)
    (G := fun s => a.Own organizationId (.counted s)) (fun _ h => h) (fun _ _ _ => trivial) h

/-- A look at the configuration, and the rest of the endpoint for every row that it may find. -/
theorem stays_lookup {q : Query α} {f : α → Endpoint β} {P : α → Prop} {Q : β → Prop}
    (hq : Confined (SqlAnswer a organizationId) (a.SqlOwn organizationId) P q)
    (h : ∀ b, P b → Stays a organizationId Q (f b)) : Stays a organizationId Q (lookup q >>= f) :=
  confined_seq (confined_adapt (stays_sql hq)) h

theorem stays_query {s : Stmt} {onError : SqlError → StorageError} {Q : s.Result → Prop}
    (hs : a.Own organizationId s) (hQ : ∀ value, a.Answer organizationId s (.ok value) → Q value) :
    Stays a organizationId Q (query s onError) := by
  refine ⟨hs, fun r hr value hvalue => ?_⟩
  cases r with
  | error e => cases hvalue
  | ok value' =>
      cases hvalue
      exact hQ _ hr

/-- A storage function of the service, and the rest of the endpoint. -/
theorem stays_storage {q : Fallible Stmt Resp StorageError α} {f : α → Endpoint β} {P : α → Prop}
    {Q : β → Prop} (hq : Stays a organizationId P q) (h : ∀ b, P b → Stays a organizationId Q (f b)) :
    Stays a organizationId Q (storage q >>= f) :=
  confined_seq (confined_adapt hq) h

/-- A statement whose answer is of no interest. -/
theorem stays_statement {s : Stmt} {onError : SqlError → StorageError} {f : s.Result → Endpoint β}
    {Q : β → Prop} (hs : a.Own organizationId s) (h : ∀ b, Stays a organizationId Q (f b)) :
    Stays a organizationId Q (storage (query s onError) >>= f) :=
  stays_storage (stays_query hs fun _ _ => trivial) fun b (_ : True) => h b

theorem stays_check {r : Except ApiError α} {f : α → Endpoint β} {Q : β → Prop}
    (h : ∀ b, Stays a organizationId Q (f b)) : Stays a organizationId Q (check r >>= f) :=
  confined_seq (confined_except fun _ _ => trivial) fun b (_ : True) => h b

theorem stays_orUnauthorized {message : String} {found : Option α} {f : α → Endpoint β} {Q : β → Prop}
    (h : ∀ b, found = some b → Stays a organizationId Q (f b)) :
    Stays a organizationId Q (orUnauthorized message found >>= f) := by
  refine confined_seq (confined_except (Q := fun b => found = some b) ?_) h
  intro b hb
  cases found with
  | none => cases hb
  | some b' =>
      cases hb
      rfl

theorem stays_pure {b : α} : Stays a organizationId (fun _ => True) (pure b : Endpoint α) :=
  confined_pure trivial

/-- After a project is found under the organization, the endpoint goes on with one of its own. -/
theorem stays_project {f : ProjectRow → Endpoint β} {Q : β → Prop}
    (h : ∀ p, a.id p.id = organizationId → Stays a organizationId Q (f p)) :
    Stays a organizationId Q (lookup (findProject organizationId projectKey) >>= f) :=
  stays_lookup confined_findProject h

/-- After an environment is found in a project of the organization, with one of its own. -/
theorem stays_environment {projectId : Uuid} {f : EnvironmentRow → Endpoint β} {Q : β → Prop}
    (hproject : a.id projectId = organizationId)
    (h : ∀ e, a.id e.id = organizationId → Stays a organizationId Q (f e)) :
    Stays a organizationId Q (lookup (findEnvironment projectId environmentKey) >>= f) :=
  stays_lookup (confined_findEnvironment hproject) h

/-- A handler of the configuration runs inside the service as it runs alone. -/
theorem stays_handler {h : Handler α} {f : α → Endpoint β} {Q : β → Prop} {caller : AuthUser}
    (hh : Kept a caller (fun _ => True) h) (hf : ∀ b, Stays a caller.organizationId Q (f b)) :
    Stays a caller.organizationId Q (handler h >>= f) :=
  confined_seq (confined_adapt (stays_sql hh)) fun b _ => hf b

/-- An experiment that is found in an environment of the organization is its own. -/
theorem stays_joinedExperiment {environmentId : Uuid} {key : String} {f : Experiment → Endpoint β}
    {Q : β → Prop} (henvironment : a.id environmentId = organizationId)
    (h : ∀ x, a.id x.id = organizationId → Stays a organizationId Q (f x)) :
    Stays a organizationId Q (storage (findJoinedExperiment environmentId key) >>= f) := by
  refine stays_storage (P := fun x : Experiment => a.id x.id = organizationId) ?_ h
  refine confined_seq (stays_query (s := .selectJoinedExperiment environmentId key)
    (Q := fun row => ∀ x : Experiment, row = some x → a.id x.id = organizationId) henvironment
    fun _ h => h) fun _ h => ?_
  exact stays_sql (confined_orNotFound h)

/-- The lists and the results ask only for what is the caller's. -/
theorem consult_stays {caller : AuthUser} {request : Consultation} :
    Stays a caller.organizationId (fun _ => True) (consult caller request) := by
  cases request with
  | projects => exact stays_statement (s := .selectProjects ..) rfl fun _ => stays_pure
  | project projectKey => exact stays_project fun _ _ => stays_pure
  | environments projectKey =>
      refine stays_project fun project hproject => ?_
      exact stays_lookup (confined_statement (s := .selectEnvironments ..) hproject)
        fun _ _ => stays_pure
  | flags projectKey includeArchived =>
      refine stays_project fun project hproject => ?_
      exact stays_statement (s := .selectFlags ..) hproject fun _ => stays_pure
  | flag projectKey flagKey =>
      refine stays_project fun project hproject => ?_
      refine stays_lookup (confined_findFlag hproject) fun flag hflag => ?_
      exact stays_lookup (confined_statement (s := .selectExperimentsOfFlag ..) hflag)
        fun _ _ => stays_pure
  | config projectKey environmentKey flagKey =>
      refine stays_project fun project hproject => ?_
      refine stays_environment hproject fun environment henvironment => ?_
      refine stays_lookup (confined_findFlag hproject) fun flag hflag => ?_
      exact stays_lookup (confined_findConfig henvironment hflag) fun _ _ => stays_pure
  | configured projectKey environmentKey includeArchived =>
      refine stays_project fun project hproject => ?_
      refine stays_environment hproject fun environment henvironment => ?_
      exact stays_statement (s := .selectConfigured ..) ⟨hproject, henvironment⟩ fun _ => stays_pure
  | segments projectKey environmentKey =>
      refine stays_project fun project hproject => ?_
      refine stays_environment hproject fun environment henvironment => ?_
      exact stays_lookup (confined_statement (s := .selectSegments ..) henvironment)
        fun _ _ => stays_pure
  | segment projectKey environmentKey segmentKey =>
      refine stays_project fun project hproject => ?_
      refine stays_environment hproject fun environment henvironment => ?_
      refine stays_lookup (confined_findSegment henvironment) fun _ _ => ?_
      exact stays_lookup (confined_statement (s := .selectReferencingFlags ..) henvironment)
        fun _ _ => stays_pure
  | experiments projectKey environmentKey =>
      refine stays_project fun project hproject => ?_
      refine stays_environment hproject fun environment henvironment => ?_
      exact stays_statement (s := .selectExperiments ..) henvironment fun _ => stays_pure
  | experiment projectKey environmentKey experimentKey =>
      refine stays_project fun project hproject => ?_
      refine stays_environment hproject fun environment henvironment => ?_
      exact stays_joinedExperiment henvironment fun _ _ => stays_pure
  | results projectKey environmentKey experimentKey now =>
      refine stays_project fun project hproject => ?_
      refine stays_environment hproject fun environment henvironment => ?_
      refine stays_joinedExperiment henvironment fun x hx => ?_
      refine stays_statement (s := .selectTotals ..) hx fun _ => ?_
      exact stays_statement (s := .selectHours ..) hx fun _ => stays_pure
  | keys projectKey environmentKey =>
      refine stays_check fun _ => stays_project fun project hproject => ?_
      refine stays_environment hproject fun environment henvironment => ?_
      exact stays_statement (s := .selectKeys ..) henvironment fun _ => stays_pure
  | audit query =>
      refine stays_check fun _ => ?_
      exact stays_statement (s := .selectAudit ..) rfl fun _ => stays_pure

/-- The requests about keys ask only for the keys of the caller's environments, and the key that is
    made has a hash that is theirs. -/
theorem handleKeys_stays {caller : AuthUser} {request : KeyRequest}
    (hfits : ∀ projectKey environmentKey body bytes,
      request = .create projectKey environmentKey body bytes →
        a.keyHash (generate sha256 body.scope bytes).hash = caller.organizationId) :
    Stays a caller.organizationId (fun _ => True) (handleKeys crates sha256 caller request) := by
  cases request with
  | create projectKey environmentKey body bytes =>
      refine stays_check fun _ => stays_project fun project hproject => ?_
      refine stays_environment hproject fun environment henvironment => ?_
      refine stays_statement (s := .insertKey ..) ⟨henvironment, hfits _ _ _ _ rfl⟩ fun _ => ?_
      exact stays_handler (kept_audit_of_some henvironment) fun _ => stays_pure
  | revoke projectKey environmentKey keyId =>
      refine stays_check fun _ => stays_project fun project hproject => ?_
      refine stays_environment hproject fun environment henvironment => ?_
      refine stays_storage (P := fun _ => True) ?_ fun _ _ =>
        stays_handler (kept_audit_of_some henvironment) fun _ => stays_pure
      refine confined_seq (stays_query (s := .revokeKey ..) henvironment fun _ _ => trivial)
        fun _ (_ : True) => ?_
      exact stays_sql (confined_except fun _ _ => trivial)

/-- A request with a key asks only for what is of the organization of the key's environment. -/
theorem handleSdk_stays {identity : KeyIdentity} {request : SdkRequest}
    (h : a.id identity.environmentId = organizationId) :
    Stays a organizationId (fun _ => True) (handleSdk crates trunc identity request) := by
  cases request with
  | evaluateAll body now =>
      refine stays_check fun _ => stays_check fun _ => ?_
      exact stays_lookup (confined_load h) fun _ _ => stays_pure
  | evaluateOne flagKey body now =>
      refine stays_check fun _ => ?_
      exact stays_lookup (confined_load h) fun _ _ => stays_pure
  | snapshot now =>
      refine stays_check fun _ => ?_
      exact stays_lookup (confined_load h) fun _ _ => stays_pure
  | ingest events now =>
      refine confined_seq (P := fun _ => True) (confined_adapt (stays_counted ?_))
        fun _ _ => stays_pure
      refine confined_seq (confined_except fun _ _ => trivial) fun deltas (_ : True) => ?_
      refine confined_seq (confined_adapt (Q := fun _ => True) ?_) fun _ _ => confined_pure trivial
      rw [Counting.ingestCounters]
      split
      · exact confined_throw
      · exact ⟨h, fun _ _ _ _ => trivial⟩

/-- The key that is presented stands for an environment of its organization. -/
theorem identify_stays {presented : Option String} :
    Stays a (a.keyHash (hash sha256 (presented.getD "")))
      (fun identity => a.id identity.environmentId = a.keyHash (hash sha256 (presented.getD "")))
      (identify sha256 presented) := by
  refine stays_orUnauthorized fun secret hsecret => ?_
  refine stays_orUnauthorized fun scope _ => ?_
  subst hsecret
  refine stays_storage (stays_query (s := .resolveKey (hash sha256 secret)) rfl fun _ h => h)
    fun found hfound => ?_
  apply confined_except
  intro identity hidentity
  cases found with
  | none => cases hidentity
  | some identity' =>
      cases hidentity
      exact hfound _ rfl

end Endpoints

/-! ### Calls -/

/-- The organization a call is made for. -/
def Call.owner (a : Assignment) (sha256 : List UInt8 → Vector UInt8 32) : Call → Uuid
  | .manage caller _ | .consult caller _ | .keys caller _ => caller.organizationId
  | .sdk presented _ => a.keyHash (hash sha256 (presented.getD ""))
  | .touch keyId => a.id keyId

/-- A key that the call generates is the caller's. -/
def Call.Fits (a : Assignment) (sha256 : List UInt8 → Vector UInt8 32) : Call → Prop
  | .keys caller (.create _ _ body bytes) =>
      a.keyHash (generate sha256 body.scope bytes).hash = caller.organizationId
  | _ => True

section Calls

variable {a : Assignment} {crates : Crates} {sha256 : List UInt8 → Vector UInt8 32}
  {trunc : Timestamp → Option Timestamp}

/-- Every request issues statements of the organization that it is made for. -/
theorem serve_stays {call : Call} (hfits : call.Fits a sha256) :
    Stays a (call.owner a sha256) (fun _ => True) (serve crates sha256 trunc call) := by
  cases call with
  | manage caller request =>
      refine stays_handler ?_ fun _ => stays_pure
      cases request with
      | configuration request => exact handle_kept
      | experiment request => exact handleExperiment_kept
  | consult caller request => exact consult_stays
  | keys caller request =>
      apply handleKeys_stays
      rintro _ _ _ _ rfl
      exact hfits
  | sdk presented request =>
      exact confined_seq identify_stays fun _ h => handleSdk_stays h
  | touch keyId => exact stays_statement (s := .touchKey keyId) rfl fun _ => stays_pure

/-- Whatever is called, the program asks for nothing but what is the organization's on whose behalf it
    runs. -/
theorem program_confined {call : Call} (hfits : call.Fits a sha256) :
    (tenancy a).Confines (Call.owner a sha256) (program crates sha256 trunc) call :=
  Prog.Confined.mono (fun _ _ => trivial) (serve_stays hfits)

end Calls

/-- What the database generated for a call is the owner's of the call. -/
def Generated (a : Assignment) (sha256 : List UInt8 → Vector UInt8 32) (calls : List Call)
    (events : List (Pool.Event Stmt Store Input)) : Prop :=
  ∀ e ∈ events, ∀ call, calls[e.thread]? = some call → e.stmt.generates = true →
    a.id e.input.id = call.owner a sha256

/-! ### Two shops

Ann's organization has a project. Bob's creates one of the same key while she reads hers. -/

namespace TwoShops

def ann : AuthUser := ⟨⟨1⟩, ⟨0⟩, "ann@shop.test", .viewer⟩

def bob : AuthUser := ⟨⟨2⟩, ⟨1⟩, "bob@shop.test", .owner⟩

def store : Store := ⟨⟨⟨[⟨⟨10⟩, ⟨0⟩, "shop", "Ann's", none, 0⟩], [], [], [], [], [], []⟩, []⟩, [], []⟩

/-- Identifiers from 100 on are Bob's. -/
def assignment : Assignment := ⟨fun id => if id.bits < 100 then ⟨0⟩ else ⟨1⟩, fun _ => ⟨0⟩⟩

def reads : Call := .consult ann .projects

def creates : Call := .manage bob (.configuration (.createProject ⟨"shop", "Bob's", none⟩))

/-- What the database contributes to a statement that inserts. -/
def input (id : BitVec 128) : Input := ⟨⟨⟨id⟩, 1, false⟩, 7⟩

def answer (call : Call) : Prog Stmt Resp (Except Refusal Reply) :=
  program .plain firstBytes (fun _ => none) call

/-- Bob's insert, Ann's query, Bob's audit entry. -/
def actions : List (Pool.Action Stmt Resp (Except Refusal Reply) Input) :=
  [.spawn (answer reads), .spawn (answer creates), .run 1 (input 100), .run 0 (input 0),
    .run 1 (input 0)]

def events : List (Pool.Event Stmt Store Input) :=
  Pool.history exec actions ⟨store, []⟩

def after : Pool Stmt Resp (Except Refusal Reply) Store :=
  Pool.runSchedule exec actions ⟨store, []⟩

/-- What was executed for Ann. -/
def annEvents : List (Pool.Event Stmt Store Input) :=
  events.filter (Tenancy.ownEvent (Call.owner assignment firstBytes) ⟨0⟩ [reads, creates])

theorem length_annEvents : annEvents.length = 1 := by decide +kernel

theorem traced : Pool.Traced exec store ([reads, creates].map answer) events after := by
  have h : Pool.Traced exec store ([] ++ Pool.started actions) (events ++ []) after :=
    .schedule .start
  rwa [List.nil_append, List.append_nil] at h

theorem apart : assignment.Apart store where
  separate := by constructor <;> decide
  counter c hc := by cases hc
  key k hk := by cases hk
  keyId k hk := by cases hk
  keyHash k hk := by cases hk
  numbered := rfl

theorem fits : ∀ call ∈ [reads, creates], call.Fits assignment firstBytes := by
  intro call hcall
  rcases List.mem_pair.mp hcall with rfl | rfl <;> trivial

theorem generated : Generated assignment firstBytes [reads, creates] events := by
  have hall : events.all (fun e => !e.stmt.generates || [reads, creates][e.thread]?.all fun call =>
      assignment.id e.input.id = call.owner assignment firstBytes) = true := by decide +kernel
  intro e he call hcall hgenerates
  have hthis := List.all_eq_true.mp hall e he
  rw [hgenerates, hcall] at hthis
  simpa using hthis

end TwoShops

/-! ### Runs -/

section Runs

variable {a : Assignment} {crates : Crates} {sha256 : List UInt8 → Vector UInt8 32}
  {trunc : Timestamp → Option Timestamp} {initial : Store} {calls : List Call}
  {events : List (Pool.Event Stmt Store Input)}
  {pool : Pool Stmt Resp (Except Refusal Reply) Store}

/-- In any interleaving of requests, those of an organization run as they would with nobody else there:
    on what the organization has, with the same statements, and with the same answers. The statements
    of the run alone get the same inputs. So they get the same numbers of audit entries, which the
    database takes from one sequence for all organizations; a run alone on a database of its own would
    number its entries without the gaps that other organizations leave. -/
theorem organization_runs_alone (organizationId : Uuid)
    (h : Pool.Traced exec initial (calls.map (program crates sha256 trunc)) events pool)
    (hinitial : a.Apart initial) (hfits : ∀ call ∈ calls, call.Fits a sha256)
    (hgenerated : Generated a sha256 calls events) :
    ∃ seen, Pool.Traced exec (a.storeView organizationId initial)
        ((calls.filter fun call => call.owner a sha256 = organizationId).map
          (program crates sha256 trunc)) seen
        ⟨a.storeView organizationId pool.db,
          Tenancy.select (Call.owner a sha256) organizationId calls pool.threads⟩ ∧
      seen.map Tenancy.content =
        (events.filter (Tenancy.ownEvent (Call.owner a sha256) organizationId calls)).map fun e =>
          (e.input, e.stmt, a.storeView organizationId e.before) :=
  (tenancy a).projected h hinitial rfl (fun call hcall => program_confined (hfits call hcall))
    hgenerated

/-- Ann's query runs as if Bob were not there. -/
theorem organization_runs_alone_shops :
    ∃ seen, Pool.Traced exec (TwoShops.assignment.storeView ⟨0⟩ TwoShops.store)
        (([TwoShops.reads, TwoShops.creates].filter fun call =>
          call.owner TwoShops.assignment firstBytes = ⟨0⟩).map TwoShops.answer) seen
        ⟨TwoShops.assignment.storeView ⟨0⟩ TwoShops.after.db,
          Tenancy.select (Call.owner TwoShops.assignment firstBytes) ⟨0⟩
            [TwoShops.reads, TwoShops.creates] TwoShops.after.threads⟩ ∧
      seen.map Tenancy.content =
        (TwoShops.events.filter (Tenancy.ownEvent (Call.owner TwoShops.assignment firstBytes) ⟨0⟩
          [TwoShops.reads, TwoShops.creates])).map fun e =>
            (e.input, e.stmt, TwoShops.assignment.storeView ⟨0⟩ e.before) :=
  organization_runs_alone ⟨0⟩ TwoShops.traced TwoShops.apart TwoShops.fits TwoShops.generated

/-- Statements of other organizations can be left out of a run wherever they stand. Every statement of
    the organization is answered as it was in the run, by a store whose part of the organization is what
    it was there, and so is that part in the end. Both runs hand the same identifiers, times and audit
    numbers to the statements that they have in common. -/
theorem foreign_statements_unobservable (organizationId : Uuid)
    (h : Pool.Traced exec initial (calls.map (program crates sha256 trunc)) events pool)
    (hinitial : a.Apart initial) (hfits : ∀ call ∈ calls, call.Fits a sha256)
    (hgenerated : Generated a sha256 calls events) {kept : List (Pool.Event Stmt Store Input)}
    (hkept : Tenancy.Thinned (Tenancy.ownEvent (Call.owner a sha256) organizationId calls) kept
      events) :
    a.storeView organizationId (Pool.replay exec initial kept) =
        a.storeView organizationId pool.db ∧
      ∀ later e earlier, kept = later ++ e :: earlier →
        Tenancy.ownEvent (Call.owner a sha256) organizationId calls e = true →
          (exec e.input e.stmt (Pool.replay exec initial earlier)).1 = e.answer exec ∧
            a.storeView organizationId (Pool.replay exec initial earlier) =
              a.storeView organizationId e.before :=
  Tenancy.thinned h hinitial rfl (fun call hcall => program_confined (hfits call hcall)) hgenerated
    hkept

/-- Ann's query is answered as it was, and what she has is what she had, without any of Bob's
    statements. -/
theorem foreign_statements_unobservable_shops :
    TwoShops.assignment.storeView ⟨0⟩ (Pool.replay exec TwoShops.store TwoShops.annEvents) =
        TwoShops.assignment.storeView ⟨0⟩ TwoShops.after.db ∧
      ∃ e, TwoShops.annEvents = [e] ∧ (exec e.input e.stmt TwoShops.store).1 = e.answer exec := by
  obtain ⟨hend, hanswers⟩ := foreign_statements_unobservable ⟨0⟩ TwoShops.traced TwoShops.apart
    TwoShops.fits TwoShops.generated Tenancy.Thinned.filter
  obtain ⟨e, he⟩ := List.length_eq_one_iff.mp TwoShops.length_annEvents
  have hmem : e ∈ TwoShops.annEvents := by
    rw [he]
    exact List.mem_singleton_self e
  exact ⟨hend, e, he, (hanswers [] e [] he (List.mem_filter.mp hmem).2).1⟩

end Runs

end FlagForge.Service
