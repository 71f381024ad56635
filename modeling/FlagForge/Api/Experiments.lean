/-
Module: FlagForge.Api.Experiments
Layer: Api
Purpose: The request handlers that write experiments, beside those that write the configuration, and
  the rules of the storage functions that they call.
Imports: FlagForge.Api.Obligations
Trusted boundary: none
Main exports: ExperimentRequest, handleExperiment, Management, manage, administer, obeys_transition
-/
import FlagForge.Api.Obligations

namespace FlagForge.Api

open Prog (Log)
open Fallible (Obeys obeys_bind obeys_pure obeys_except)
open Storage
open Storage.Sql (Stmt Resp Input exec)

/-! ### Handlers -/

structure CreateExperiment where
  key : String
  name : String
  description : Option String
  /-- The flag whose variants are being compared. -/
  flagKey : String
  metricKey : String
  /-- The baseline variant. -/
  controlVariant : String

/-- Presentation fields only. -/
structure UpdateExperiment where
  name : Option String
  description : Option (Option String)

/-- The flag is served, and the control is one of its variants. -/
def checkMeasurable (flag : FlagRow) (body : CreateExperiment) : Except ApiError Unit :=
  if flag.archived then
    let flagKey := body.flagKey
    .error (.badRequest
      s!"flag `{flagKey}` is archived; an experiment would measure traffic it no longer serves")
  else if flag.variants.any (·.key = body.controlVariant) then .ok ()
  else
    let control := body.controlVariant
    let flagKey := body.flagKey
    let keys := ", ".intercalate (flag.variants.map Variant.key)
    .error (.badRequest s!"`{control}` is not a variant of `{flagKey}` (it has: {keys})")

namespace Experiments

/-- `experiments::create`: the flag has to be one that can be measured against the control. -/
def create (caller : AuthUser) (projectKey environmentKey : String) (body : CreateExperiment) :
    Handler ExperimentRow := do
  check caller.requireWrite
  check (validKey body.key "key")
  check (validKey body.metricKey "metric_key")
  let project ← storage (findProject caller.organizationId projectKey)
  let environment ← storage (findEnvironment project.id environmentKey)
  let flag ← storage (findFlag project.id body.flagKey)
  check (checkMeasurable flag body)
  let experiment ← storage (createExperiment environment.id flag.id body.key body.name
    body.description body.metricKey body.controlVariant)
  let experimentKey := body.key
  caller.audit "experiment.created" "experiment" s!"{projectKey}/{environmentKey}/{experimentKey}"
    (some environment.id) none (some (.experiment experiment))
  pure experiment

/-- `experiments::update`: the experiment is read before and after. -/
def update (caller : AuthUser) (projectKey environmentKey experimentKey : String)
    (body : UpdateExperiment) : Handler ExperimentRow := do
  check caller.requireWrite
  let project ← storage (findProject caller.organizationId projectKey)
  let environment ← storage (findEnvironment project.id environmentKey)
  let previous ← storage (findExperiment environment.id experimentKey)
  let experiment ← storage
    (updateExperiment environment.id experimentKey body.name body.description)
  caller.audit "experiment.updated" "experiment" s!"{projectKey}/{environmentKey}/{experimentKey}"
    (some environment.id) (some (.experiment previous)) (some (.experiment experiment))
  pure experiment

/-- `start` and `stop`. The cache is refreshed before the entry is written. -/
def transition (caller : AuthUser) (projectKey environmentKey experimentKey : String)
    (move : Uuid → String → Query ExperimentRow) (action : String) : Handler ExperimentRow := do
  check caller.requireWrite
  let project ← storage (findProject caller.organizationId projectKey)
  let environment ← storage (findEnvironment project.id environmentKey)
  let experiment ← storage (move environment.id experimentKey)
  caller.audit action "experiment" s!"{projectKey}/{environmentKey}/{experimentKey}"
    (some environment.id) none (some (.experiment experiment))
  pure experiment

/-- `experiments::start`, from draft. -/
def start (caller : AuthUser) (projectKey environmentKey experimentKey : String) :
    Handler ExperimentRow :=
  transition caller projectKey environmentKey experimentKey startExperiment "experiment.started"

/-- `experiments::stop`, from running. -/
def stop (caller : AuthUser) (projectKey environmentKey experimentKey : String) :
    Handler ExperimentRow :=
  transition caller projectKey environmentKey experimentKey stopExperiment "experiment.stopped"

/-- `experiments::delete`, unless it is running. -/
def delete (caller : AuthUser) (projectKey environmentKey experimentKey : String) :
    Handler Unit := do
  check caller.requireWrite
  let project ← storage (findProject caller.organizationId projectKey)
  let environment ← storage (findEnvironment project.id environmentKey)
  let previous ← storage (findExperiment environment.id experimentKey)
  storage (deleteExperiment environment.id experimentKey)
  caller.audit "experiment.deleted" "experiment" s!"{projectKey}/{environmentKey}/{experimentKey}"
    (some environment.id) (some (.experiment previous)) none

end Experiments

/-- A request that writes experiments. -/
inductive ExperimentRequest where
  | create (projectKey environmentKey : String) (body : CreateExperiment)
  | update (projectKey environmentKey experimentKey : String) (body : UpdateExperiment)
  | start (projectKey environmentKey experimentKey : String)
  | stop (projectKey environmentKey experimentKey : String)
  | delete (projectKey environmentKey experimentKey : String)

/-- What the server runs for a request about experiments. -/
def handleExperiment (caller : AuthUser) : ExperimentRequest → Handler Unit
  | .create projectKey environmentKey body =>
      handle.discard (Experiments.create caller projectKey environmentKey body)
  | .update projectKey environmentKey experimentKey body =>
      handle.discard (Experiments.update caller projectKey environmentKey experimentKey body)
  | .start projectKey environmentKey experimentKey =>
      handle.discard (Experiments.start caller projectKey environmentKey experimentKey)
  | .stop projectKey environmentKey experimentKey =>
      handle.discard (Experiments.stop caller projectKey environmentKey experimentKey)
  | .delete projectKey environmentKey experimentKey =>
      Experiments.delete caller projectKey environmentKey experimentKey

/-- A management request that writes. -/
inductive Management where
  | configuration (request : Request)
  | experiment (request : ExperimentRequest)

/-- What it runs for any request of the console. -/
def manage (crates : Crates) (caller : AuthUser) : Management → Handler Unit
  | .configuration request => handle crates caller request
  | .experiment request => handleExperiment caller request

/-- A management request alone on the database. -/
def administer (crates : Crates) (inputs : Nat → Input) (caller : AuthUser) (request : Management)
    (db : Db) : Except ApiError Unit × Db :=
  Prog.runAlone exec inputs (manage crates caller request).run db

/-! ### Rules -/

section

variable {P : Log Stmt Resp → Stmt → Prop} {log : Log Stmt Resp} {environmentId : Uuid} {key : String}

/-- Looking an experiment up is one read. -/
theorem obeys_findExperiment {Q : Log Stmt Resp → ExperimentRow → Prop}
    (hs : P log (.selectExperiment environmentId key))
    (hQ : ∀ row, Q (entry (.selectExperiment environmentId key) (.ok (some row)) :: log) row) :
    Obeys P Q log (findExperiment environmentId key) := by
  apply obeys_bind
  apply obeys_plain hs
  intro result
  apply obeys_orNotFound
  intro row hrow
  rw [hrow]
  exact hQ row

/-- The experiment is read again after its insert. -/
theorem obeys_createExperiment {flagId : Uuid} {name : String} {description : Option String}
    {metricKey controlVariant : String} {Q : Log Stmt Resp → ExperimentRow → Prop}
    (hs : P log
      (.insertExperiment environmentId flagId key name description metricKey controlVariant))
    (hread : ∀ log, P log (.selectExperiment environmentId key)) (hQ : ∀ log row, Q log row) :
    Obeys P Q log (createExperiment environmentId flagId key name description metricKey
      controlVariant) := by
  apply obeys_bind
  apply obeys_query hs
  intro _
  exact obeys_findExperiment (hread _) fun row => hQ _ row

theorem obeys_orNoneWritten {entity : String} {written : Nat} {Q : Log Stmt Resp → Unit → Prop}
    (hQ : Q log ()) : Obeys P Q log (orNoneWritten entity written) :=
  obeys_except fun _ _ => hQ

/-- Writing an experiment is one write, and a read of what it has become. -/
theorem obeys_updateExperiment {name : Option String} {description : Option (Option String)}
    {Q : Log Stmt Resp → ExperimentRow → Prop}
    (hs : P log (.updateExperiment environmentId key name description))
    (hread : ∀ log, P log (.selectExperiment environmentId key)) (hQ : ∀ log row, Q log row) :
    Obeys P Q log (updateExperiment environmentId key name description) := by
  apply obeys_bind
  apply obeys_query hs
  intro updated
  apply obeys_bind
  apply obeys_orNoneWritten
  exact obeys_findExperiment (hread _) fun row => hQ _ row

/-- Why nothing was written is told by a read. -/
theorem obeys_orWrongState {needed : String} {written : Nat} {Q : Log Stmt Resp → Unit → Prop}
    (hread : ∀ log, P log (.selectExperiment environmentId key)) (hQ : Q log ()) :
    Obeys P Q log (orWrongState environmentId key needed written) := by
  rw [orWrongState]
  split
  · apply obeys_bind
    apply obeys_findExperiment (hread _)
    intro row
    exact Fallible.obeys_throw
  · exact obeys_pure hQ

/-- Starting and stopping are one guarded write. -/
theorem obeys_transition {source target : ExperimentState}
    {Q : Log Stmt Resp → ExperimentRow → Prop}
    (hs : P log (.transitionExperiment environmentId key source target))
    (hread : ∀ log, P log (.selectExperiment environmentId key)) (hQ : ∀ log row, Q log row) :
    Obeys P Q log (transition environmentId key source target) := by
  apply obeys_bind
  apply obeys_plain hs
  intro updated
  apply obeys_bind
  apply obeys_orWrongState hread
  exact obeys_findExperiment (hread _) fun row => hQ _ row

/-- So is deleting. -/
theorem obeys_deleteExperiment {Q : Log Stmt Resp → Unit → Prop}
    (hs : P log (.deleteExperiment environmentId key))
    (hread : ∀ log, P log (.selectExperiment environmentId key)) (hQ : ∀ log, Q log ()) :
    Obeys P Q log (deleteExperiment environmentId key) := by
  apply obeys_bind
  apply obeys_plain hs
  intro deleted
  exact obeys_orWrongState hread (hQ _)

end

end FlagForge.Api
