/-
Module: FlagForge.Api.Measurable
Layer: Api
Purpose: Management requests one after another. Creating an experiment checks that it can be measured;
  it stays so as long as no patch of a flag archives it under an experiment that is not stopped, or
  takes the control away.
Imports: FlagForge.Api.Experiments, FlagForge.Api.Sequential, FlagForge.Storage.Measurable
Trusted boundary: none
Main exports: SparesExperiments, Managed, manage_held, managed_measurable
-/
import FlagForge.Api.Experiments
import FlagForge.Api.Sequential
import FlagForge.Storage.Measurable

namespace FlagForge.Api

open Prog (Log)
open Fallible (Obeys obeys_bind obeys_pure)
open Storage
open Storage.Sql (Stmt Resp Input Written FlagPatch exec)

variable (crates : Crates)

/-- The variants suit the configuration of the flag in every environment of the project. -/
def Replaceable (project : ProjectRow) (flag : FlagRow) (variants : List Variant) (db : Db) : Prop :=
  ∀ environment ∈ Sql.selectEnvironments project.id db, ∃ config,
    Sql.selectConfig flag.id environment.id db = some config ∧
      Validate.validate crates (candidate flag.key variants config.offVariant config.fallthrough
        config.rules) = .ok ()

/-- A patch that passes its checks neither archives a flag under an experiment that is not stopped,
    nor takes the control away. -/
def SparesExperiments (caller : AuthUser) (request : Management) (db : Db) : Prop :=
  match request with
  | .configuration (.updateFlag projectKey flagKey body) =>
      ∀ project flag, caller.requireWrite = .ok () →
        Sql.selectProject caller.organizationId projectKey db = some project →
        Sql.selectFlag project.id flagKey db = some flag →
        (∀ variants, body.variants = some variants → Replaceable crates project flag variants db) →
          ∀ x ∈ db.experiments, x.flagId = flag.id → x.state ≠ .stopped →
            body.archived ≠ some true ∧
              ∀ variants, body.variants = some variants → ∃ v ∈ variants, v.key = x.controlVariant
  | _ => True

/-- The states that management requests lead to from the empty store, whatever they return. -/
inductive Managed : Db → Prop where
  | empty : Managed Db.empty
  | serve {db : Db} (h : Managed db) (inputs : Nat → Input) (caller : AuthUser)
      (request : Management) (hspares : SparesExperiments crates caller request db) :
      Managed (administer crates inputs caller request db).2

/-! ### Obligations -/

/-- The flag and the environment of a new experiment were looked up in one project, and the flag can
    be measured. -/
structure Draftable (environmentId flagId : Uuid) (controlVariant : String)
    (log : Log Stmt Resp) : Prop where
  onlyReads : OnlyReads log
  measures : ∃ (projectId : Uuid) (environmentKey flagKey : String) (environment : EnvironmentRow)
      (flag : FlagRow),
    Answered log (.selectEnvironment projectId environmentKey) (some environment) ∧
    environment.id = environmentId ∧
    Answered log (.selectFlag projectId flagKey) (some flag) ∧ flag.id = flagId ∧
    Measures flag controlVariant

/-- What is known when a management request issues a statement. -/
def Held (caller : AuthUser) (request : Management) (log : Log Stmt Resp) (s : Stmt) : Prop :=
  match request, s with
  | .configuration (.updateFlag projectKey flagKey body), .updateFlag flagId patch =>
      caller.requireWrite = .ok () ∧ OnlyReads log ∧ patch.archived = body.archived ∧
        PatchChecked crates caller projectKey flagKey body flagId patch log
  | .configuration request, s => Justified crates caller request log s
  | .experiment _, .insertExperiment environmentId flagId _ _ _ _ controlVariant =>
      Draftable environmentId flagId controlVariant log
  | .experiment _, .transitionExperiment _ _ source target => Kind source target
  | .experiment _, .updateExperiment .. => True
  | .experiment _, .deleteExperiment .. => True
  | .experiment _, .insertAudit _ => True
  | .experiment _, s => s.isRead = true

variable {crates} {caller : AuthUser}

/-- A PATCH of a flag writes only what its caller may write and its checks have let through. -/
theorem updateFlag_held (projectKey flagKey : String) (body : UpdateFlag) :
    Obeys (Held crates caller (.configuration (.updateFlag projectKey flagKey body))) anyResult []
      (updateFlag crates caller projectKey flagKey body) := by
  apply obeys_updateFlagHandler
  · intro log s hread
    cases s <;> first | rfl | cases hread
  · exact fun _ _ => trivial
  · exact fun _ _ _ hallowed honly harchived hchecked => ⟨hallowed, honly, harchived, hchecked⟩

/-- A control that passes the check can be measured. -/
theorem measures_of_check {flag : FlagRow} {body : CreateExperiment}
    (h : checkMeasurable flag body = .ok ()) : Measures flag body.controlVariant := by
  rw [checkMeasurable] at h
  split at h
  · cases h
  · rename_i hserved
    split at h
    · rename_i hcontrol
      obtain ⟨v, hv, hkey⟩ := List.any_eq_true.mp hcontrol
      exact ⟨Bool.eq_false_iff.mpr hserved, v, hv, of_decide_eq_true hkey⟩
    · cases h

theorem create_held (projectKey environmentKey : String) (body : CreateExperiment) :
    Obeys (Held crates caller (.experiment (.create projectKey environmentKey body))) anyResult []
      (Experiments.create caller projectKey environmentKey body) := by
  apply obeys_check
  intro _ _
  apply obeys_check
  intro _ _
  apply obeys_check
  intro _ _
  apply obeys_storage
  apply obeys_findProject rfl
  intro project
  apply obeys_storage
  apply obeys_findEnvironment rfl
  intro environment
  apply obeys_storage
  apply obeys_findFlag rfl
  intro flag
  apply obeys_check
  intro _ hmeasurable
  apply obeys_storage
  apply obeys_createExperiment
  · refine ⟨by simp [OnlyReads, Stmt.isRead], project.id, environmentKey, body.flagKey, environment,
      flag, ?_, rfl, ?_, rfl, measures_of_check hmeasurable⟩ <;> simp [Answered]
  · exact fun _ => rfl
  · intro log experiment
    apply obeys_bind
    apply obeys_audit (fun _ => trivial)
    intro _
    exact obeys_pure trivial

theorem update_held (projectKey environmentKey experimentKey : String) (body : UpdateExperiment) :
    Obeys (Held crates caller (.experiment (.update projectKey environmentKey experimentKey body)))
      anyResult [] (Experiments.update caller projectKey environmentKey experimentKey body) := by
  apply obeys_check
  intro _ _
  apply obeys_storage
  apply obeys_findProject rfl
  intro project
  apply obeys_storage
  apply obeys_findEnvironment rfl
  intro environment
  apply obeys_storage
  apply obeys_findExperiment rfl
  intro previous
  apply obeys_storage
  apply obeys_updateExperiment
  · exact trivial
  · exact fun _ => rfl
  · intro log experiment
    apply obeys_bind
    apply obeys_audit (fun _ => trivial)
    intro _
    exact obeys_pure trivial

/-- Experiments are started and stopped, and not moved otherwise. -/
theorem transition_held {request : ExperimentRequest} {source target : ExperimentState}
    (hkind : Kind source target) (projectKey environmentKey experimentKey action : String) :
    Obeys (Held crates caller (.experiment request)) anyResult []
      (Experiments.transition caller projectKey environmentKey experimentKey
        (fun environmentId key => transition environmentId key source target) action) := by
  apply obeys_check
  intro _ _
  apply obeys_storage
  apply obeys_findProject rfl
  intro project
  apply obeys_storage
  apply obeys_findEnvironment rfl
  intro environment
  apply obeys_storage
  apply obeys_transition
  · exact hkind
  · exact fun _ => rfl
  · intro log experiment
    apply obeys_bind
    apply obeys_audit (fun _ => trivial)
    intro _
    exact obeys_pure trivial

theorem delete_held (projectKey environmentKey experimentKey : String) :
    Obeys (Held crates caller (.experiment (.delete projectKey environmentKey experimentKey)))
      anyResult [] (Experiments.delete caller projectKey environmentKey experimentKey) := by
  apply obeys_check
  intro _ _
  apply obeys_storage
  apply obeys_findProject rfl
  intro project
  apply obeys_storage
  apply obeys_findEnvironment rfl
  intro environment
  apply obeys_storage
  apply obeys_findExperiment rfl
  intro experiment
  apply obeys_storage
  apply obeys_deleteExperiment
  · exact trivial
  · exact fun _ => rfl
  · intro _
    exact obeys_audit (fun _ => trivial) fun _ => trivial

theorem discard_held {request : Management} {α : Type} {p : Handler α}
    (h : Obeys (Held crates caller request) anyResult [] p) :
    Obeys (Held crates caller request) anyResult [] (handle.discard p) := by
  apply obeys_bind
  apply Prog.Obeys.mono _ h
  intro log r _ a _
  exact obeys_pure trivial

/-- No management request issues a statement that is not held. -/
theorem manage_held (request : Management) :
    Obeys (Held crates caller request) anyResult [] (manage crates caller request) := by
  cases request with
  | configuration request =>
      cases request with
      | updateFlag projectKey flagKey body =>
          exact discard_held (updateFlag_held projectKey flagKey body)
      | _ => exact handle_justified _
  | experiment request =>
      cases request with
      | create projectKey environmentKey body =>
          exact discard_held (create_held projectKey environmentKey body)
      | update projectKey environmentKey experimentKey body =>
          exact discard_held (update_held projectKey environmentKey experimentKey body)
      | start projectKey environmentKey experimentKey =>
          exact discard_held (transition_held .start projectKey environmentKey experimentKey _)
      | stop projectKey environmentKey experimentKey =>
          exact discard_held (transition_held .stop projectKey environmentKey experimentKey _)
      | delete projectKey environmentKey experimentKey =>
          exact delete_held projectKey environmentKey experimentKey

/-! ### One request keeps experiments measurable -/

section Request

variable {request : Management} {start db : Db} {log : Log Stmt Resp}

/-- The flag and the environment of a new experiment are stored, in one project. -/
theorem Draftable.placed {environmentId flagId : Uuid} {controlVariant : String}
    (h : Draftable environmentId flagId controlVariant log)
    (hcurrent : Prog.Current exec (fun s => s.isRead = true) start log db) :
    ∃ f ∈ db.flags, f.id = flagId ∧ Measures f controlVariant ∧
      ∃ e ∈ db.environments, e.id = environmentId ∧ e.projectId = f.projectId := by
  obtain ⟨projectId, environmentKey, flagKey, environment, flag, henvironment, heid, hflag, hid,
    hmeasures⟩ := h.measures
  have hfoundFlag := current_flag hcurrent h.onlyReads hflag
  have hfoundEnvironment := current_environment hcurrent h.onlyReads henvironment
  refine ⟨flag, List.mem_of_find?_eq_some hfoundFlag, hid, hmeasures, environment,
    List.mem_of_find?_eq_some hfoundEnvironment, heid, ?_⟩
  rw [(EnvironmentRow.isFor_iff.mp (List.find?_some hfoundEnvironment)).1,
    (FlagRow.isFor_iff.mp (List.find?_some hfoundFlag)).1]

/-- New variants that were checked suit every configuration that was read. -/
theorem Revalidated.replaceable {project : ProjectRow} {flag : FlagRow} {variants : List Variant}
    (h : Revalidated crates project flag variants log)
    (hcurrent : Prog.Current exec (fun s => s.isRead = true) start log db) :
    Replaceable crates project flag variants db := by
  obtain ⟨environments, hlisted, hconfigs⟩ := h.listed
  intro environment henvironment
  rw [current_environments hcurrent h.onlyReads hlisted] at henvironment
  obtain ⟨config, hconfig⟩ := hconfigs environment henvironment
  exact ⟨config, current_config hcurrent h.onlyReads hconfig, h.valid environment.id config hconfig⟩

/-- A patch that was checked spares the experiments on its flag if the request does. -/
theorem patch_spares {projectKey flagKey : String} {body : UpdateFlag} {flagId : Uuid}
    {patch : FlagPatch} (hallowed : caller.requireWrite = .ok ()) (honly : OnlyReads log)
    (harchived : patch.archived = body.archived)
    (hchecked : PatchChecked crates caller projectKey flagKey body flagId patch log)
    (hcurrent : Prog.Current exec (fun s => s.isRead = true) start log db)
    (hspares : SparesExperiments crates caller (.configuration (.updateFlag projectKey flagKey body))
      start) :
    ∀ x ∈ db.experiments, x.flagId = flagId → x.state ≠ .stopped → Spares patch x.controlVariant := by
  obtain ⟨hvariants, project, flag, hproject, hflag, hid, hrevalidated⟩ := hchecked
  obtain ⟨rfl, _⟩ := hcurrent honly
  intro x hx hflagId hstate
  rw [Spares, harchived, hvariants]
  apply hspares project flag hallowed (current_project hcurrent honly hproject)
    (current_flag hcurrent honly hflag) _ x hx (hflagId.trans hid.symm) hstate
  exact fun variants hbody => (hrevalidated variants hbody).replaceable hcurrent

/-- An upsert that is held names a flag and an environment of one project. -/
theorem aimed_of_held {s : Stmt} (h : Linked db) (hheld : Held crates caller request log s)
    (hcurrent : Prog.Current exec (fun s => s.isRead = true) start log db) : Aimed s db := by
  cases s with
  | upsertConfig flagId environmentId enabled offVariant fallthrough rules expectedVersion =>
      cases request with
      | configuration request =>
          have hjustified : Justified crates caller request log (.upsertConfig flagId environmentId
              enabled offVariant fallthrough rules expectedVersion) := by
            cases request with
            | updateFlag => cases hheld
            | _ => exact hheld
          exact config_aimed h hcurrent hjustified.upsertConfig
      | experiment => cases hheld
  | _ => trivial

/-- A statement that is held is sparing if the request spares experiments. -/
theorem sparing_of_held {s : Stmt} (hheld : Held crates caller request log s)
    (hcurrent : Prog.Current exec (fun s => s.isRead = true) start log db)
    (hspares : SparesExperiments crates caller request start) : Sparing s db := by
  cases s with
  | updateFlag flagId patch =>
      cases request with
      | configuration request =>
          cases request with
          | updateFlag projectKey flagKey body =>
              obtain ⟨hallowed, honly, harchived, hchecked⟩ := hheld
              exact patch_spares hallowed honly harchived hchecked hcurrent hspares
          | _ => cases hheld
      | experiment => cases hheld
  | insertExperiment =>
      cases request with
      | configuration request => cases request <;> cases hheld
      | experiment => exact Draftable.placed hheld hcurrent
  | transitionExperiment =>
      cases request with
      | configuration request => cases request <;> cases hheld
      | experiment => exact hheld
  | _ => trivial

/-- A request that spares experiments keeps them measurable. -/
theorem administer_measurable {inputs : Nat → Input} (h : Measurable db)
    (hspares : SparesExperiments crates caller request db) :
    Measurable (administer crates inputs caller request db).2 := by
  apply Prog.runAlone_invariant (fun _ _ _ => Sql.exec_of_isRead) _ inputs (manage_held request)
    Prog.current_nil h
  intro log s db input hheld hcurrent h
  apply Sql.exec_invariant _ h
  intro w hw
  exact h.run (aimed_of_held h.toLinked hheld hcurrent) (sparing_of_held hheld hcurrent hspares) hw

/-- So the tables stay measurable under any requests. -/
theorem Managed.measurable (h : Managed crates db) : Measurable db := by
  induction h with
  | empty => exact .empty
  | serve _ inputs caller request hspares ih => exact administer_measurable ih hspares

end Request

/-! ### A shop with an experiment -/

namespace Shop

/-- Ten identifiers for each request. -/
def administered : Nat → List Management → Db → List (Except ApiError Unit) × Db
  | _, [], db => ([], db)
  | first, request :: requests, db =>
      let out := administer .plain (inputs first) owner request db
      let rest := administered (first + 10) requests out.2
      (out.1 :: rest.1, rest.2)

/-- The boolean flag is served live, and `on` is the control of the experiment on it. -/
def launch : List Management :=
  [.configuration openShop, .configuration addLive, .configuration addCheckout,
    .experiment (.create "shop" "live" ⟨"trial", "Trial", none, "checkout", "sales", "on"⟩),
    .experiment (.start "shop" "live" "trial")]

def launched : Db :=
  (administered 1 launch .empty).2

def archiveCheckout : Management :=
  .configuration (.updateFlag "shop" "checkout" ⟨none, none, none, some true⟩)

theorem launched_managed : Managed .plain launched :=
  ((((Managed.empty.serve (inputs 1) owner (.configuration openShop) trivial).serve (inputs 11) owner
    (.configuration addLive) trivial).serve (inputs 21) owner (.configuration addCheckout)
      trivial).serve (inputs 31) owner (.experiment _) trivial).serve (inputs 41) owner
        (.experiment _) trivial

end Shop

/-- Every experiment that is not stopped is on a flag that is served in the environment of the
    experiment, and its control is one of the variants of the flag. -/
theorem managed_measurable {db : Db} (h : Managed crates db) :
    ∀ x ∈ db.experiments, x.state ≠ .stopped →
      ∃ f ∈ db.flags, f.id = x.flagId ∧ f.archived = false ∧
        (∃ v ∈ f.variants, v.key = x.controlVariant) ∧
        ∃ flag ∈ Sql.selectEnvironmentFlags x.environmentId db,
          flag.key = f.key ∧ flag.variants = f.variants := by
  intro x hx hstate
  obtain ⟨f, hf, hid, ⟨hserved, hcontrol⟩, hsnapshot⟩ := h.measurable.served hx hstate
  exact ⟨f, hf, hid, hserved, hcontrol, hsnapshot⟩

/-- The experiment of the shop is on a flag that is served. -/
theorem managed_measurable_launched : ∃ x ∈ Shop.launched.experiments, x.state = .running ∧
    ∃ f ∈ Shop.launched.flags, f.id = x.flagId ∧ f.archived = false := by
  have hrunning : Shop.launched.experiments.any (·.state = .running) = true := by decide
  obtain ⟨x, hx, hstate⟩ := List.any_eq_true.mp hrunning
  have hstate : x.state = .running := of_decide_eq_true hstate
  obtain ⟨f, hf, hid, hserved, _⟩ := managed_measurable Shop.launched_managed x hx (by simp [hstate])
  exact ⟨x, hx, hstate, f, hf, hid, hserved⟩

/-- All six requests succeed, and the running experiment is on an archived flag. -/
theorem archived_under_experiment :
    (Shop.administered 1 (Shop.launch ++ [Shop.archiveCheckout]) .empty).1 =
      [.ok (), .ok (), .ok (), .ok (), .ok (), .ok ()] ∧
    ∃ x ∈ (Shop.administered 1 (Shop.launch ++ [Shop.archiveCheckout]) .empty).2.experiments,
      x.state = .running ∧
      ∀ f ∈ (Shop.administered 1 (Shop.launch ++ [Shop.archiveCheckout]) .empty).2.flags,
        f.id = x.flagId → f.archived = true := by
  refine ⟨by decide, ?_⟩
  have hrunning : (Shop.administered 1 (Shop.launch ++ [Shop.archiveCheckout])
      .empty).2.experiments.any (·.state = .running) = true := by decide
  have harchived : (Shop.administered 1 (Shop.launch ++ [Shop.archiveCheckout]) .empty).2.flags.all
      (·.archived) = true := by decide
  obtain ⟨x, hx, hstate⟩ := List.any_eq_true.mp hrunning
  exact ⟨x, hx, of_decide_eq_true hstate, fun f hf _ => List.all_eq_true.mp harchived f hf⟩

end FlagForge.Api
