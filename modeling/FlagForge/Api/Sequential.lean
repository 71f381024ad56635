/-
Module: FlagForge.Api.Sequential
Layer: Api
Purpose: Requests served one after another. The store stays sound, so that every stored flag is
  evaluable in every environment of its project and a new environment can be created, as long as no
  request replaces the variants of a flag that is configured nowhere by variants that no flag may
  have.
Imports: FlagForge.Api.Server (the shop), FlagForge.Storage.Sound
Trusted boundary: none
Main exports: Permitted, Reached, Reached.sound, reached_flags_evaluable
-/
import FlagForge.Api.Server
import FlagForge.Storage.Sound

namespace FlagForge.Api

open Prog (Log)
open Fallible (Obeys)
open Storage
open Storage.Sql (Stmt Resp Input Written exec)
open Validate (VariantsShape ConfigShape validate_eq_ok_iff)

variable (crates : Crates)

/-- A request alone on the database. -/
def serve (inputs : Nat → Input) (caller : AuthUser) (request : Request) (db : Db) :
    Except ApiError Unit × Db :=
  Prog.runAlone exec inputs (handle crates caller request).run db

/-- Variants that are replaced while the project of the flag has no environment are variants that a
    flag may have. -/
def Permitted (caller : AuthUser) (request : Request) (db : Db) : Prop :=
  match request with
  | .updateFlag projectKey flagKey body =>
      ∀ variants, body.variants = some variants →
        ∀ project flag, Sql.selectProject caller.organizationId projectKey db = some project →
          Sql.selectFlag project.id flagKey db = some flag →
          (∀ environment ∈ db.environments, environment.projectId ≠ project.id) →
            VariantsShape variants
  | _ => True

/-- The states that requests lead to from the empty store, whatever they return. -/
inductive Reached : Db → Prop where
  | empty : Reached Db.empty
  | serve {db : Db} (h : Reached db) (inputs : Nat → Input) (caller : AuthUser)
      (request : Request) (hpermitted : Permitted caller request db) :
      Reached (serve crates inputs caller request db).2

variable {crates} {caller : AuthUser} {request : Request}

/-! ### Answers of the store as it is -/

/-- What a read returned when nothing has been written since. -/
theorem current_answer {start db : Db} {log : Log Stmt Resp} {s : Stmt} {result : s.Result}
    (hcurrent : Prog.Current exec (fun s => s.isRead = true) start log db) (honly : OnlyReads log)
    (h : Answered log s result) :
    db = start ∧ ∃ input, s.run input start = .ok (Sql.unchanged result start) := by
  obtain ⟨hdb, hanswers⟩ := hcurrent honly
  obtain ⟨input, hinput⟩ := hanswers _ h
  obtain ⟨w, hw, hvalue, _⟩ := Sql.run_of_exec_ok hinput.symm
  obtain ⟨value, hread⟩ := Sql.run_of_isRead input start (honly _ h)
  obtain rfl := Except.ok.inj (hread.symm.trans hw)
  have heq : value = result := hvalue
  exact ⟨hdb, input, heq ▸ hread⟩

section

variable {db start : Db} {log : Log Stmt Resp}
  (hcurrent : Prog.Current exec (fun s => s.isRead = true) start log db) (honly : OnlyReads log)

include hcurrent honly

/-- A read of a project answers what is stored. -/
theorem current_project {organizationId : Uuid} {key : String} {row : Option ProjectRow}
    (h : Answered log (.selectProject organizationId key) row) :
    Sql.selectProject organizationId key db = row := by
  obtain ⟨rfl, input, hrun⟩ := current_answer hcurrent honly h
  cases hrun
  rfl

/-- So does one of an environment. -/
theorem current_environment {projectId : Uuid} {key : String} {row : Option EnvironmentRow}
    (h : Answered log (.selectEnvironment projectId key) row) :
    Sql.selectEnvironment projectId key db = row := by
  obtain ⟨rfl, input, hrun⟩ := current_answer hcurrent honly h
  cases hrun
  rfl

/-- And one of the environments of a project. -/
theorem current_environments {projectId : Uuid} {rows : List EnvironmentRow}
    (h : Answered log (.selectEnvironments projectId) rows) :
    Sql.selectEnvironments projectId db = rows := by
  obtain ⟨rfl, input, hrun⟩ := current_answer hcurrent honly h
  cases hrun
  rfl

theorem current_flag {projectId : Uuid} {key : String} {row : Option FlagRow}
    (h : Answered log (.selectFlag projectId key) row) : Sql.selectFlag projectId key db = row := by
  obtain ⟨rfl, input, hrun⟩ := current_answer hcurrent honly h
  cases hrun
  rfl

theorem current_config {flagId environmentId : Uuid} {row : Option ConfigRow}
    (h : Answered log (.selectConfig flagId environmentId) row) :
    Sql.selectConfig flagId environmentId db = row := by
  obtain ⟨rfl, input, hrun⟩ := current_answer hcurrent honly h
  cases hrun
  rfl

end

/-! ### One request keeps the store sound -/

/-- New variants that were checked suit every configuration of the flag. -/
theorem patch_suits {projectKey flagKey : String} {body : UpdateFlag} {flagId : Uuid}
    {patch : Sql.FlagPatch} {db start : Db} {log : Log Stmt Resp} (h : Sound crates db)
    (hpermitted : Permitted caller (.updateFlag projectKey flagKey body) start)
    (hcurrent : Prog.Current exec (fun s => s.isRead = true) start log db)
    (hchecked : PatchChecked crates caller projectKey flagKey body flagId patch log) :
    ∀ variants, patch.variants = some variants → ∀ f ∈ db.flags, f.id = flagId →
      VariantsShape variants ∧ ∀ c ∈ db.flagConfigs, c.flagId = flagId →
        ConfigShape crates (variants.map Variant.key) c.offVariant c.fallthrough c.rules := by
  intro variants hpatch f hf hid
  obtain ⟨hbody, project, flag, hproject, hflag, hflagId, hrevalidated⟩ := hchecked
  have hvariants := hbody.symm.trans hpatch
  obtain ⟨honly, ⟨environments, hlisted, hconfigs⟩, hvalid⟩ := hrevalidated variants hvariants
  obtain ⟨rfl, _⟩ := hcurrent honly
  have hfound := current_flag hcurrent honly hflag
  -- the flag that was looked up is the one that is patched
  have hthis : f = flag :=
    h.flagIds f hf flag (List.mem_of_find?_eq_some hfound) (hid.trans hflagId.symm)
  have hin : f.projectId = project.id := by
    rw [hthis]
    exact (FlagRow.isFor_iff.mp (List.find?_some hfound)).1
  -- in every environment of the project, the stored configuration was checked
  have hchecked : ∀ e ∈ db.environments, e.projectId = project.id → ∃ config ∈ db.flagConfigs,
      config.isFor flagId e.id = true ∧ Validate.FlagShape crates
        (candidate flag.key variants config.offVariant config.fallthrough config.rules) := by
    intro e he hproject
    have hmem : e ∈ environments := by
      rw [← current_environments hcurrent honly hlisted]
      exact Table.mem_orderBy.mpr (List.mem_filter.mpr ⟨he, by simpa using hproject⟩)
    obtain ⟨config, hconfig⟩ := hconfigs e hmem
    have hstored := current_config hcurrent honly hconfig
    rw [hflagId] at hstored
    exact ⟨config, List.mem_of_find?_eq_some hstored, List.find?_some hstored,
      (validate_eq_ok_iff crates).mp (hvalid e.id config hconfig)⟩
  constructor
  · by_cases hsome : ∃ e ∈ db.environments, e.projectId = project.id
    · obtain ⟨e, he, heproject⟩ := hsome
      obtain ⟨_, _, _, hshape⟩ := hchecked e he heproject
      exact hshape.variants
    · exact hpermitted variants hvariants project flag (current_project hcurrent honly hproject)
        hfound fun e he heproject => hsome ⟨e, he, heproject⟩
  · intro c hc hflagc
    obtain ⟨e, he, heid⟩ := h.configEnvironment c hc
    have heproject := h.sameProject c hc f hf (hid.trans hflagc.symm) e he heid
    obtain ⟨config, hconfig, hfor, hshape⟩ := hchecked e he (heproject.trans hin)
    rw [ConfigRow.isFor_iff] at hfor
    have hsame : config = c := h.configKeys config hconfig c hc (hfor.1.trans hflagc.symm)
      (hfor.2.trans heid)
    rw [← hsame]
    exact hshape.config

/-- A configuration that was checked is for a flag and an environment that were looked up in one
    project. -/
theorem config_aimed {flagId environmentId : Uuid} {offVariant : String}
    {fallthrough : Distribution} {rules : List Rule} {db start : Db} {log : Log Stmt Resp}
    (h : Linked db) (hcurrent : Prog.Current exec (fun s => s.isRead = true) start log db)
    (hchecked : Configurable crates flagId environmentId offVariant fallthrough rules log) :
    ∀ f ∈ db.flags, f.id = flagId → ∀ e ∈ db.environments, e.id = environmentId →
      e.projectId = f.projectId := by
  intro f hf hid e he heid'
  obtain ⟨honly, ⟨projectId, environmentKey, flagKey, environment, flag, henvironment, heid, hflag,
    hflagId, _⟩, _⟩ := hchecked
  have hfoundFlag := current_flag hcurrent honly hflag
  have hfoundEnvironment := current_environment hcurrent honly henvironment
  have hthis : f = flag :=
    h.flagIds f hf flag (List.mem_of_find?_eq_some hfoundFlag) (hid.trans hflagId.symm)
  have hsame : e = environment := h.environmentIds e he environment
    (List.mem_of_find?_eq_some hfoundEnvironment) (heid'.trans heid.symm)
  rw [hsame, hthis, (EnvironmentRow.isFor_iff.mp (List.find?_some hfoundEnvironment)).1,
    (FlagRow.isFor_iff.mp (List.find?_some hfoundFlag)).1]

/-- A configuration that was checked suits its flag. -/
theorem config_suits {flagId environmentId : Uuid} {offVariant : String}
    {fallthrough : Distribution} {rules : List Rule} {db start : Db} {log : Log Stmt Resp}
    (h : Sound crates db)
    (hcurrent : Prog.Current exec (fun s => s.isRead = true) start log db)
    (hchecked : Configurable crates flagId environmentId offVariant fallthrough rules log) :
    ∀ f ∈ db.flags, f.id = flagId → ConfigShape crates f.variantKeys offVariant fallthrough rules := by
  intro f hf hid
  obtain ⟨honly, ⟨_, _, _, _, flag, _, _, hflag, hflagId, hvalid⟩, _⟩ := hchecked
  have hfoundFlag := current_flag hcurrent honly hflag
  rw [h.flagIds f hf flag (List.mem_of_find?_eq_some hfoundFlag) (hid.trans hflagId.symm)]
  exact ((validate_eq_ok_iff crates).mp hvalid).config

/-- A statement that is justified by current answers keeps the store sound. -/
theorem exec_sound {start db : Db} {log : Log Stmt Resp} {s : Stmt} {input : Input}
    (hjustified : Justified crates caller request log s)
    (hcurrent : Prog.Current exec (fun s => s.isRead = true) start log db)
    (hpermitted : Permitted caller request start) (h : Sound crates db) :
    Sound crates (exec input s db).2 := by
  apply Sql.exec_invariant _ h
  intro w hw
  cases s with
  | insertProject =>
      obtain ⟨_, rfl⟩ := Sql.insertProject_cases hw
      exact h.congr rfl rfl rfl
  | deleteProject => exact h.deleteProject hw
  | createEnvironment => exact h.createEnvironment hw
  | deleteEnvironment => exact h.deleteEnvironment hw
  | createFlag =>
      have hshape := (validate_eq_ok_iff crates).mp hjustified.createFlag
      exact h.createFlag hshape.key hshape.variants hshape.config hw
  | updateFlag =>
      obtain ⟨projectKey, flagKey, body, rfl, hchecked⟩ := hjustified.updateFlag
      exact h.updateFlag (patch_suits h hpermitted hcurrent hchecked) hw
  | deleteFlag => exact h.deleteFlag hw
  | upsertConfig =>
      have hchecked := hjustified.upsertConfig
      exact h.upsertConfig (config_aimed h.toLinked hcurrent hchecked)
        (config_suits h hcurrent hchecked) hw
  | insertSegment =>
      obtain ⟨_, _, _, rfl⟩ := Sql.insertSegment_cases hw
      exact h.congr rfl rfl rfl
  | updateSegment =>
      rcases Sql.updateSegment_cases hw with ⟨_, _, _, _, _, _, rfl⟩ | ⟨rfl, _⟩
      · exact h.congr rfl rfl rfl
      · exact h
  | deleteSegment =>
      obtain ⟨hdb, _⟩ := Sql.deleteSegment_cases hw
      rw [hdb]
      exact h.congr rfl rfl rfl
  | insertAudit =>
      obtain ⟨_, rfl⟩ := Sql.insertAudit_cases hw
      exact h.congr rfl rfl rfl
  | insertExperiment | updateExperiment | transitionExperiment | deleteExperiment =>
      cases request <;> exact absurd hjustified Bool.false_ne_true
  | _ =>
      cases hw
      exact h

/-- A request that is permitted keeps the store sound. -/
theorem serve_sound {inputs : Nat → Input} {db : Db} (hpermitted : Permitted caller request db)
    (h : Sound crates db) : Sound crates (serve crates inputs caller request db).2 :=
  Prog.runAlone_invariant (fun _ _ _ => Sql.exec_of_isRead)
    (fun _ _ _ _ hjustified hcurrent h => exec_sound hjustified hcurrent hpermitted h) inputs
    (handle_justified request) Prog.current_nil h

/-- What the requests lead to is sound. -/
theorem Reached.sound {db : Db} (h : Reached crates db) : Sound crates db := by
  induction h with
  | empty => exact .empty
  | serve _ inputs caller request hpermitted ih => exact serve_sound hpermitted ih

/-! ### Environments can be created -/

/-- In a sound store, a caller who may write creates an environment with a fresh valid key and a
    valid name, as long as the database neither fails nor repeats an identifier. -/
theorem createEnvironment_succeeds {inputs : Nat → Input} {db : Db} {projectKey salt : String}
    {body : CreateEnvironment} {project : ProjectRow} (h : Sound crates db)
    (hfails : ∀ n, (inputs n).fails = false) (hwrite : caller.requireWrite = .ok ())
    (hproject : Sql.selectProject caller.organizationId projectKey db = some project)
    (hkey : Validate.isValidKey body.key = true)
    (hfresh : Sql.selectEnvironment project.id body.key db = none)
    (hname : Sql.nameCheck (trim body.name) = true)
    (hid : ∀ e ∈ db.environments, e.id ≠ (inputs 1).id) :
    (serve crates inputs caller (.createEnvironment projectKey body salt) db).1 = .ok () := by
  obtain ⟨w, hw, hmem⟩ := h.createEnvironment_succeeds
    ⟨project, List.mem_of_find?_eq_some hproject, rfl⟩ hkey hfresh hname hid
  have hfound : exec (inputs 0) (.selectProject caller.organizationId projectKey) db =
      (.ok (some project), db) := by
    rw [← hproject]
    exact Sql.exec_of_run_ok (s := .selectProject caller.organizationId projectKey) (hfails 0) rfl
  have hcreated := Sql.exec_of_run_ok (s := .createEnvironment project.id body.key (trim body.name)
    salt body.isProduction) (hfails 1) hw
  let entry : Sql.NewAuditEntry := ⟨caller.organizationId, some caller.userId, caller.email,
    "environment.created", "environment", s!"{project.key}/{w.value.key}", some w.value.id, none,
    some w.value.image⟩
  obtain ⟨audited, haudited⟩ : ∃ audited, Sql.insertAudit (inputs 2) entry w.db = .ok audited :=
    Sql.insertAudit_succeeds rfl ⟨w.value, hmem, rfl⟩
  have hrecorded := Sql.exec_of_run_ok (s := .insertAudit entry) (hfails 2) haudited
  have hvalid : validKey body.key "key" = .ok () := by rw [validKey, if_pos hkey]
  simp only [serve, handle, handle.discard, createEnvironment, hwrite, hvalid]
  -- the three statements of the request in turn: the project, the environment, the entry
  change (Prog.runAlone exec inputs
    (.call (.selectProject caller.organizationId projectKey) _) db).1 = _
  rw [Prog.runAlone, hfound]
  change (Prog.runAlone exec _ (.call (.createEnvironment project.id body.key (trim body.name)
    salt body.isProduction) _) db).1 = _
  rw [Prog.runAlone, hcreated]
  change (Prog.runAlone exec _ (.call (.insertAudit entry) _) w.db).1 = _
  rw [Prog.runAlone, hrecorded]
  rfl

/-- Every stored flag has variants that can be served, every flag is configured in every environment
    of its project by a configuration that passes validation, and a further environment can be
    created. -/
theorem reached_flags_evaluable {db : Db} (h : Reached crates db) :
    (∀ flag ∈ db.flags, flag.variants ≠ [] ∧
      (∀ variant ∈ flag.variants, Validate.isValidKey variant.key = true) ∧
      (flag.variants.map Variant.key).Nodup) ∧
    (∀ flag ∈ db.flags, ∀ environment ∈ db.environments, environment.projectId = flag.projectId →
      ∃ config, Sql.selectConfig flag.id environment.id db = some config ∧
        Validate.validate crates (candidate flag.key flag.variants config.offVariant
          config.fallthrough config.rules) = .ok ()) ∧
    ∀ (inputs : Nat → Input) (caller : AuthUser) (projectKey salt : String)
      (body : CreateEnvironment) (project : ProjectRow), (∀ n, (inputs n).fails = false) →
      caller.requireWrite = .ok () →
      Sql.selectProject caller.organizationId projectKey db = some project →
      Validate.isValidKey body.key = true → Sql.selectEnvironment project.id body.key db = none →
      Sql.nameCheck (trim body.name) = true →
      (∀ e ∈ db.environments, e.id ≠ (inputs 1).id) →
        (serve crates inputs caller (.createEnvironment projectKey body salt) db).1 = .ok () := by
  have hsound := h.sound
  refine ⟨?_, ?_, ?_⟩
  · intro flag hflag
    obtain ⟨_, hshape⟩ := hsound.flagShape flag hflag
    exact ⟨hshape.nonempty, hshape.keys, hshape.distinct⟩
  · intro flag hflag environment henvironment hproject
    obtain ⟨config, hfound⟩ := Option.isSome_iff_exists.mp (List.find?_isSome.mpr
      (hsound.configured flag hflag environment henvironment hproject))
    have hfor := ConfigRow.isFor_iff.mp (List.find?_some hfound)
    obtain ⟨hkey, hvariants⟩ := hsound.flagShape flag hflag
    have hconfig := hsound.configShape config (List.mem_of_find?_eq_some hfound) flag hflag
      hfor.1.symm
    exact ⟨config, hfound, (validate_eq_ok_iff crates).mpr ⟨hkey, hvariants, hconfig⟩⟩
  · intro _ _ _ _ _ _ hfails hwrite hproject hkey hfresh hname hid
    exact createEnvironment_succeeds hsound hfails hwrite hproject hkey hfresh hname hid

/-! ### The shop from its first day -/

namespace Shop

def openShop : Request := .createProject ⟨"shop", "Shop", none⟩

def addCheckout : Request := .createFlag "shop" ⟨"checkout", "Checkout", none, none, none, none⟩

def addLive : Request := .createEnvironment "shop" ⟨"live", "Live", false⟩ "salt"

/-- Nothing is left to serve. -/
def dropVariants : Request := .updateFlag "shop" "checkout" ⟨none, none, some [], none⟩

/-- A fresh identifier for every statement of every request. -/
def inputs (first : Nat) : Nat → Input := fun n => ⟨⟨BitVec.ofNat 128 (first + n)⟩, n, false⟩

/-- The project, and a flag without any environment. -/
def opened : Db :=
  (serve .plain (inputs 20) owner addCheckout (serve .plain (inputs 1) owner openShop .empty).2).2

def emptied : Db := (serve .plain (inputs 30) owner dropVariants opened).2

end Shop

/-- Three requests in a row succeed; the flag is left without variants, and its project can get no
    environment any more. -/
theorem emptied_not_evaluable :
    (serve .plain (Shop.inputs 1) Shop.owner Shop.openShop .empty).1 = .ok () ∧
    (serve .plain (Shop.inputs 20) Shop.owner Shop.addCheckout
      (serve .plain (Shop.inputs 1) Shop.owner Shop.openShop .empty).2).1 = .ok () ∧
    (serve .plain (Shop.inputs 30) Shop.owner Shop.dropVariants Shop.opened).1 = .ok () ∧
    (∃ flag ∈ Shop.emptied.flags, flag.variants = []) ∧
    (serve .plain (Shop.inputs 40) Shop.owner Shop.addLive Shop.emptied).1 ≠ .ok () := by
  have hflags : Shop.emptied.flags.any (·.variants.isEmpty) = true := by decide
  obtain ⟨flag, hflag, hempty⟩ := List.any_eq_true.mp hflags
  exact ⟨by decide, by decide, by decide, ⟨flag, hflag, List.isEmpty_iff.mp hempty⟩, by decide⟩

/-- The flag that was created before the first environment can be served, and the environment can be
    created. -/
theorem reached_flags_evaluable_opened :
    (∀ flag ∈ Shop.opened.flags, flag.variants ≠ []) ∧
    (serve .plain (Shop.inputs 30) Shop.owner Shop.addLive Shop.opened).1 = .ok () := by
  have hopened : Reached .plain Shop.opened :=
    .serve (.serve .empty (Shop.inputs 1) Shop.owner Shop.openShop trivial) (Shop.inputs 20)
      Shop.owner Shop.addCheckout trivial
  obtain ⟨hvariants, _, hcreates⟩ := reached_flags_evaluable hopened
  refine ⟨fun flag hflag => (hvariants flag hflag).1, ?_⟩
  apply hcreates (Shop.inputs 30) Shop.owner "shop" "salt" ⟨"live", "Live", false⟩ Shop.project
  · exact fun n => rfl
  · decide
  · rfl
  · decide
  · rfl
  · decide
  · exact fun e he => by cases he

end FlagForge.Api
