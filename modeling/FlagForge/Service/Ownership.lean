/-
Module: FlagForge.Service.Ownership
Layer: Service
Purpose: Which organization a row belongs to, and what the SQL statements of an organization see of the
  whole store. Identifiers are assigned to organizations; a statement whose identifiers are all
  assigned to one organization answers from the rows of that organization, and writes only those.
Imports: FlagForge.Lib.Tenancy, FlagForge.Storage.Effects
Trusted boundary: an identifier that the database generates is not generated twice
Main exports: Assignment, Assignment.view, Separate, SqlOwn, Sees, sql_sees
-/
import FlagForge.Lib.Tenancy
import FlagForge.Storage.Effects

namespace FlagForge.Service

open Storage
open Storage.Sql (Input Stmt SqlError Written NewAuditEntry require)

/-- The organization that each identifier and each hash of an SDK key belongs to. -/
structure Assignment where
  id : Uuid → Uuid
  keyHash : String → Uuid

namespace Assignment

variable (a : Assignment) (organizationId : Uuid)

/-- The rows of an organization: those of its projects, and its audit entries. -/
def view (db : Db) : Db where
  projects := db.projects.filter (·.organizationId = organizationId)
  environments := db.environments.filter fun e => a.id e.projectId = organizationId
  flags := db.flags.filter fun f => a.id f.projectId = organizationId
  flagConfigs := db.flagConfigs.filter fun c => a.id c.environmentId = organizationId
  segments := db.segments.filter fun s => a.id s.environmentId = organizationId
  experiments := db.experiments.filter fun x => a.id x.environmentId = organizationId
  auditLog := db.auditLog.filter (·.organizationId = organizationId)

/-- Every row is in one organization with all that it refers to. -/
structure Separate (db : Db) : Prop where
  project : ∀ p ∈ db.projects, a.id p.id = p.organizationId
  environment : ∀ e ∈ db.environments, a.id e.id = a.id e.projectId
  flag : ∀ f ∈ db.flags, a.id f.id = a.id f.projectId
  config : ∀ c ∈ db.flagConfigs, a.id c.flagId = a.id c.environmentId
  segment : ∀ s ∈ db.segments, a.id s.id = a.id s.environmentId
  experiment : ∀ x ∈ db.experiments, a.id x.id = a.id x.environmentId
  measured : ∀ x ∈ db.experiments, a.id x.flagId = a.id x.environmentId
  audit : ∀ r ∈ db.auditLog, ∀ id ∈ r.environmentId, a.id id = r.organizationId

/-- The statement names identifiers of the organization only. -/
def SqlOwn : Stmt → Prop
  | .selectProject id _ | .insertProject id .. | .deleteProject id _ => id = organizationId
  | .selectEnvironment projectId _ | .selectEnvironments projectId | .selectFlag projectId _
  | .createEnvironment projectId .. | .deleteEnvironment projectId _ | .createFlag projectId ..
  | .deleteFlag projectId _ => a.id projectId = organizationId
  | .selectExperimentsOfFlag flagId | .updateFlag flagId _ => a.id flagId = organizationId
  | .selectConfig flagId environmentId | .upsertConfig flagId environmentId ..
  | .insertExperiment environmentId flagId .. =>
      a.id flagId = organizationId ∧ a.id environmentId = organizationId
  | .selectSegment environmentId _ | .selectSegmentKeys environmentId
  | .selectReferencingFlags environmentId _ | .selectExperiment environmentId _
  | .selectSalt environmentId | .selectEnvironmentFlags environmentId | .selectSegments environmentId
  | .selectRunningExperiments environmentId | .insertSegment environmentId ..
  | .updateSegment environmentId .. | .deleteSegment environmentId _
  | .updateExperiment environmentId .. | .transitionExperiment environmentId ..
  | .deleteExperiment environmentId _ => a.id environmentId = organizationId
  | .insertAudit entry => entry.organizationId = organizationId ∧
      ∀ id ∈ entry.environmentId, a.id id = organizationId

end Assignment

/-- The statements that insert a row with an identifier of the database. -/
def sqlGenerates : Stmt → Bool
  | .insertProject .. | .createEnvironment .. | .createFlag .. | .insertSegment ..
  | .insertExperiment .. => true
  | _ => false

variable {a : Assignment} {organizationId : Uuid} {db : Db} {input : Input}

/-- The statement does to the organization's rows what it does to all of them, and answers alike. -/
def Sees (a : Assignment) (organizationId : Uuid) (input : Input) (s : Stmt) (db : Db) : Prop :=
  (fun w => (w.value, w.db)) <$> s.run input (a.view organizationId db) =
    (fun w => (w.value, a.view organizationId w.db)) <$> s.run input db

/-- A statement that sees the organization's part only does the same there: it answers alike and leaves
    that part of what it leaves. -/
theorem exec_of_sees {s : Stmt} (h : Sees a organizationId input s db) :
    Sql.exec input s (a.view organizationId db) =
      ((Sql.exec input s db).1, a.view organizationId (Sql.exec input s db).2) := by
  rw [Sees] at h
  rw [Sql.exec, Sql.exec, Sql.execute, Sql.execute]
  cases input.fails with
  | true => rfl
  | false =>
      simp only [Bool.false_eq_true, if_false]
      cases hview : s.run input (a.view organizationId db) with
      | error e =>
          cases hall : s.run input db with
          | error e' =>
              rw [hview, hall] at h
              cases h
              rfl
          | ok w =>
              rw [hview, hall] at h
              cases h
      | ok w =>
          cases hall : s.run input db with
          | error e =>
              rw [hview, hall] at h
              cases h
          | ok w' =>
              rw [hview, hall] at h
              obtain ⟨hvalue, hdb⟩ := Prod.mk.inj (Except.ok.inj h)
              simp only [hvalue, hdb]

/-! ### Reads -/

/-- A read sees the part only if what it reads is the same there. -/
theorem sees_of_read {s : Stmt} {f : Db → s.Result}
    (hrun : ∀ db, s.run input db = .ok (Sql.unchanged (f db) db))
    (h : f (a.view organizationId db) = f db) : Sees a organizationId input s db := by
  rw [Sees, hrun, hrun, h]
  rfl

section Reads

variable {projectId environmentId flagId : Uuid} {key : String}

/-- A project of the organization is found in its part. -/
theorem selectProject_view : Sql.selectProject organizationId key (a.view organizationId db) =
    Sql.selectProject organizationId key db := by
  apply Part.find?_eq
  intro p _ h
  simp only [Bool.and_eq_true] at h
  exact h.1

theorem selectEnvironment_view (h : a.id projectId = organizationId) :
    Sql.selectEnvironment projectId key (a.view organizationId db) =
      Sql.selectEnvironment projectId key db := by
  apply Part.find?_eq
  intro e _ he
  simpa [(EnvironmentRow.isFor_iff.mp he).1] using h

/-- The environments of one of its projects are all in its part. -/
theorem filter_environments_view (h : a.id projectId = organizationId) :
    (a.view organizationId db).environments.filter (·.projectId = projectId) =
      db.environments.filter (·.projectId = projectId) := by
  apply Part.filter_eq
  intro e _ he
  simpa [of_decide_eq_true he] using h

/-- So are the flags of one of its projects. -/
theorem filter_flags_view (h : a.id projectId = organizationId) :
    (a.view organizationId db).flags.filter (·.projectId = projectId) =
      db.flags.filter (·.projectId = projectId) := by
  apply Part.filter_eq
  intro f _ hf
  simpa [of_decide_eq_true hf] using h

theorem selectFlag_view (h : a.id projectId = organizationId) :
    Sql.selectFlag projectId key (a.view organizationId db) = Sql.selectFlag projectId key db := by
  apply Part.find?_eq
  intro f _ hf
  simpa [(FlagRow.isFor_iff.mp hf).1] using h

theorem selectConfig_view (h : a.id environmentId = organizationId) :
    Sql.selectConfig flagId environmentId (a.view organizationId db) =
      Sql.selectConfig flagId environmentId db := by
  apply Part.find?_eq
  intro c _ hc
  simpa [(ConfigRow.isFor_iff.mp hc).2] using h

theorem selectSegment_view (h : a.id environmentId = organizationId) :
    Sql.selectSegment environmentId key (a.view organizationId db) =
      Sql.selectSegment environmentId key db := by
  apply Part.find?_eq
  intro s _ hs
  simpa [(SegmentRow.isFor_iff.mp hs).1] using h

/-- The segments of one of its environments are all in its part. -/
theorem filter_segments_view (h : a.id environmentId = organizationId) :
    (a.view organizationId db).segments.filter (·.environmentId = environmentId) =
      db.segments.filter (·.environmentId = environmentId) := by
  apply Part.filter_eq
  intro s _ hs
  simpa [of_decide_eq_true hs] using h

/-- So is every selection of configurations within one of its environments. -/
theorem filter_configs_view (h : a.id environmentId = organizationId) {p : ConfigRow → Bool}
    (hp : ∀ c, p c = true → c.environmentId = environmentId) :
    (a.view organizationId db).flagConfigs.filter p = db.flagConfigs.filter p := by
  apply Part.filter_eq
  intro c _ hc
  simpa [hp c hc] using h

theorem selectEnvironments_view (h : a.id projectId = organizationId) :
    Sql.selectEnvironments projectId (a.view organizationId db) =
      Sql.selectEnvironments projectId db := by
  rw [Sql.selectEnvironments, Sql.selectEnvironments, filter_environments_view h]

theorem selectSegmentKeys_view (h : a.id environmentId = organizationId) :
    Sql.selectSegmentKeys environmentId (a.view organizationId db) =
      Sql.selectSegmentKeys environmentId db := by
  rw [Sql.selectSegmentKeys, Sql.selectSegmentKeys, filter_segments_view h]

theorem selectSegments_view (h : a.id environmentId = organizationId) :
    Sql.selectSegments environmentId (a.view organizationId db) =
      Sql.selectSegments environmentId db := by
  rw [Sql.selectSegments, Sql.selectSegments, filter_segments_view h]

theorem selectExperiment_view (h : a.id environmentId = organizationId) :
    Sql.selectExperiment environmentId key (a.view organizationId db) =
      Sql.selectExperiment environmentId key db := by
  apply Part.find?_eq
  intro x _ hx
  simpa [(ExperimentRow.isFor_iff.mp hx).1] using h

variable (hseparate : a.Separate db)
include hseparate

theorem environment_view (h : a.id environmentId = organizationId) :
    (a.view organizationId db).environments.find? (·.id = environmentId) =
      db.environments.find? (·.id = environmentId) := by
  apply Part.find?_eq
  intro e he hid
  rw [decide_eq_true_eq] at hid ⊢
  rw [← hseparate.environment e he, hid, h]

theorem selectSalt_view (h : a.id environmentId = organizationId) :
    Sql.selectSalt environmentId (a.view organizationId db) = Sql.selectSalt environmentId db := by
  rw [Sql.selectSalt, Sql.selectSalt, environment_view hseparate h]

/-- The flags that are joined by their identifier. -/
theorem joined_flags_view (flagId : Uuid) {p : FlagRow → Bool} (h : a.id flagId = organizationId)
    (hp : ∀ f, p f = true → f.id = flagId) :
    (a.view organizationId db).flags.filter p = db.flags.filter p := by
  apply Part.filter_eq
  intro f hf hselected
  rw [decide_eq_true_eq, ← hseparate.flag f hf, hp f hselected, h]

theorem project_view (h : a.id projectId = organizationId) :
    (a.view organizationId db).projects.any (·.id = projectId) =
      db.projects.any (·.id = projectId) := by
  apply Part.any_eq
  intro p hp hid
  rw [decide_eq_true_eq] at hid ⊢
  rw [← hseparate.project p hp, hid, h]

theorem anyEnvironment_view (h : a.id environmentId = organizationId) :
    (a.view organizationId db).environments.any (·.id = environmentId) =
      db.environments.any (·.id = environmentId) := by
  apply Part.any_eq
  intro e he hid
  rw [decide_eq_true_eq] at hid ⊢
  rw [← hseparate.environment e he, hid, h]

theorem flag_view (h : a.id flagId = organizationId) :
    (a.view organizationId db).flags.any (·.id = flagId) = db.flags.any (·.id = flagId) := by
  apply Part.any_eq
  intro f hf hid
  rw [decide_eq_true_eq] at hid ⊢
  rw [← hseparate.flag f hf, hid, h]

theorem experiment_view {id : Uuid} (h : a.id id = organizationId) :
    (a.view organizationId db).experiments.any (·.id = id) = db.experiments.any (·.id = id) := by
  apply Part.any_eq
  intro x hx hid
  rw [decide_eq_true_eq] at hid ⊢
  rw [← hseparate.experiment x hx, hid, h]

/-- Which flags reference a segment is told from the part alone: the configurations of an environment
    and their flags are of one organization. -/
theorem selectReferencingFlags_view (h : a.id environmentId = organizationId) :
    Sql.selectReferencingFlags environmentId key (a.view organizationId db) =
      Sql.selectReferencingFlags environmentId key db := by
  rw [Sql.selectReferencingFlags, Sql.selectReferencingFlags,
    filter_configs_view h fun c hc => by simp only [Bool.and_eq_true, decide_eq_true_eq] at hc; exact hc.1]
  congr 1
  apply List.flatMap_congr
  intro c hc
  obtain ⟨hc, hselected⟩ := List.mem_filter.mp hc
  simp only [Bool.and_eq_true, decide_eq_true_eq] at hselected
  rw [joined_flags_view hseparate c.flagId]
  · rw [hseparate.config c hc, hselected.1, h]
  · exact fun f hf => of_decide_eq_true hf

/-- The flags that a snapshot is made of are in the part. -/
theorem selectEnvironmentFlags_view (h : a.id environmentId = organizationId) :
    Sql.selectEnvironmentFlags environmentId (a.view organizationId db) =
      Sql.selectEnvironmentFlags environmentId db := by
  rw [Sql.selectEnvironmentFlags, Sql.selectEnvironmentFlags,
    filter_configs_view h fun c hc => of_decide_eq_true hc]
  congr 1
  apply List.flatMap_congr
  intro c hc
  obtain ⟨hc, hselected⟩ := List.mem_filter.mp hc
  rw [joined_flags_view hseparate c.flagId]
  · rw [hseparate.config c hc, of_decide_eq_true hselected, h]
  · intro f hf
    simp only [Bool.and_eq_true, decide_eq_true_eq] at hf
    exact hf.1

/-- So are the running experiments. -/
theorem selectRunningExperiments_view (h : a.id environmentId = organizationId) :
    Sql.selectRunningExperiments environmentId (a.view organizationId db) =
      Sql.selectRunningExperiments environmentId db := by
  have hrows : (a.view organizationId db).experiments.filter (fun x =>
      x.environmentId = environmentId && x.state = .running) = db.experiments.filter fun x =>
      x.environmentId = environmentId && x.state = .running := by
    apply Part.filter_eq
    intro x _ hx
    simp only [Bool.and_eq_true, decide_eq_true_eq] at hx ⊢
    rw [hx.1, h]
  rw [Sql.selectRunningExperiments, Sql.selectRunningExperiments, hrows]
  congr 1
  apply List.flatMap_congr
  intro x hx
  obtain ⟨hx, hselected⟩ := List.mem_filter.mp hx
  simp only [Bool.and_eq_true, decide_eq_true_eq] at hselected
  rw [joined_flags_view hseparate x.flagId]
  · rw [hseparate.measured x hx, hselected.1, h]
  · exact fun f hf => of_decide_eq_true hf

/-- The experiments that hold a flag are in the part, with their environments. -/
theorem selectExperimentsOfFlag_view (h : a.id flagId = organizationId) :
    Sql.selectExperimentsOfFlag flagId (a.view organizationId db) =
      Sql.selectExperimentsOfFlag flagId db := by
  have hrows : (a.view organizationId db).experiments.filter (·.flagId = flagId) =
      db.experiments.filter (·.flagId = flagId) := by
    apply Part.filter_eq
    intro x hx hflag
    rw [decide_eq_true_eq] at hflag ⊢
    rw [← hseparate.measured x hx, hflag, h]
  have hjoined : (db.experiments.filter (·.flagId = flagId)).flatMap (fun x =>
      ((a.view organizationId db).environments.filter (·.id = x.environmentId)).map fun env =>
        (env.key, x.key)) =
      (db.experiments.filter (·.flagId = flagId)).flatMap fun x =>
        (db.environments.filter (·.id = x.environmentId)).map fun env => (env.key, x.key) := by
    apply List.flatMap_congr
    intro x hx
    obtain ⟨hx, hflag⟩ := List.mem_filter.mp hx
    congr 1
    apply Part.filter_eq
    intro e he hid
    rw [decide_eq_true_eq] at hid hflag ⊢
    rw [← hseparate.environment e he, hid, ← hseparate.measured x hx, hflag, h]
  simp only [Sql.selectExperimentsOfFlag, hrows, hjoined]

end Reads

/-! ### Writes -/

section Writes

variable {projectId environmentId flagId : Uuid} {key name : String}

/-- The value and the tables of a write, and what the organization has of them. -/
abbrev outcome {α : Type} (w : Written α) : α × Db :=
  (w.value, w.db)

abbrev ownOutcome (a : Assignment) (organizationId : Uuid) {α : Type} (w : Written α) : α × Db :=
  (w.value, a.view organizationId w.db)

/-- Keys of projects are unique within an organization, so a new one is refused in the part as in the
    whole; identifiers that are generated are the organization's. -/
theorem insertProject_view {description : Option String} (hseparate : a.Separate db)
    (hid : a.id input.id = organizationId) :
    outcome <$> Sql.insertProject input organizationId key name description
        (a.view organizationId db) =
      ownOutcome a organizationId <$>
        Sql.insertProject input organizationId key name description db := by
  have hunique : ((a.view organizationId db).projects.all fun p =>
      !(p.id = input.id || (p.organizationId = organizationId && p.key = key))) =
      db.projects.all fun p =>
        !(p.id = input.id || (p.organizationId = organizationId && p.key = key)) := by
    apply Part.all_eq
    intro p hp h
    simp only [Bool.not_eq_false', Bool.or_eq_true, Bool.and_eq_true, decide_eq_true_eq] at h ⊢
    rcases h with h | h
    · rw [← hseparate.project p hp, h, hid]
    · exact h.1
  simp only [Sql.insertProject, hunique, map_bind, map_pure]
  congr 1
  funext _
  congr 1
  funext _
  simp [outcome, ownOutcome, Assignment.view]

/-- Without environments of the organization. -/
theorem withoutEnvironments_view {p : EnvironmentRow → Bool}
    (hp : ∀ e ∈ db.environments, p e = true → a.id e.projectId = organizationId) :
    Sql.withoutEnvironments p (a.view organizationId db) =
      a.view organizationId (Sql.withoutEnvironments p db) := by
  have hids : (db.environments.filter fun e => decide (a.id e.projectId = organizationId)).filter p =
      db.environments.filter p := Part.filter_eq fun e he h => by simpa using hp e he h
  simp only [Sql.withoutEnvironments, Assignment.view, hids, List.filter_map]
  congr 1
  · exact Part.filter_comm
  · exact Part.filter_comm
  · exact Part.filter_comm
  · exact Part.filter_comm

/-- A project takes the same rows along in the part. -/
theorem deleteProject_view (hseparate : a.Separate db) :
    outcome <$> Sql.deleteProject organizationId key (a.view organizationId db) =
      ownOutcome a organizationId <$> Sql.deleteProject organizationId key db := by
  rw [Sql.deleteProject, Sql.deleteProject, selectProject_view]
  cases hproject : Sql.selectProject organizationId key db with
  | none => rfl
  | some project =>
      have hmem := List.mem_of_find?_eq_some hproject
      have hselected := List.find?_some hproject
      simp only [Bool.and_eq_true, decide_eq_true_eq] at hselected
      have hown : a.id project.id = organizationId :=
        (hseparate.project project hmem).trans hselected.1
      have hrest : Sql.withoutEnvironments (·.projectId = project.id) (a.view organizationId db) =
          a.view organizationId (Sql.withoutEnvironments (·.projectId = project.id) db) :=
        withoutEnvironments_view fun e _ he => by rw [of_decide_eq_true he, hown]
      have hflags : (a.view organizationId
          (Sql.withoutEnvironments (·.projectId = project.id) db)).flags.filter
            (·.projectId = project.id) =
          (Sql.withoutEnvironments (·.projectId = project.id) db).flags.filter
            (·.projectId = project.id) := filter_flags_view hown
      have hrestrict : ((a.view organizationId
          (Sql.withoutEnvironments (·.projectId = project.id) db)).experiments.all fun x =>
            !((db.flags.filter (·.projectId = project.id)).map FlagRow.id).contains x.flagId) =
          (Sql.withoutEnvironments (·.projectId = project.id) db).experiments.all fun x =>
            !((db.flags.filter (·.projectId = project.id)).map FlagRow.id).contains x.flagId := by
        apply Part.all_eq
        intro x hx h
        rw [Bool.not_eq_false', List.contains_iff_mem] at h
        obtain ⟨f, hf, hid⟩ := List.mem_map.mp h
        obtain ⟨hf, hfproject⟩ := List.mem_filter.mp hf
        rw [decide_eq_true_eq, ← hseparate.measured x (List.mem_filter.mp hx).1, ← hid,
          hseparate.flag f hf, of_decide_eq_true hfproject, hown]
      have hflags' : ((Sql.withoutEnvironments (·.projectId = project.id) db).flags.filter
          (·.projectId = project.id)) = db.flags.filter (·.projectId = project.id) := rfl
      simp only [hrest, hflags, hflags', hrestrict, map_bind, map_pure]
      congr 1
      funext _
      simp [outcome, ownOutcome, Assignment.view, Bool.and_comm]

/-- The constraints on a new environment look at rows of its project only. -/
theorem insertEnvironment_view {salt : String} {isProduction : Bool} (hseparate : a.Separate db)
    (hid : a.id input.id = organizationId) (hproject : a.id projectId = organizationId) :
    Sql.insertEnvironment input projectId key name salt isProduction (a.view organizationId db) =
      Sql.insertEnvironment input projectId key name salt isProduction db := by
  have hunique : ((a.view organizationId db).environments.all fun e =>
      !(e.id = input.id || e.isFor projectId key)) =
      db.environments.all fun e => !(e.id = input.id || e.isFor projectId key) := by
    apply Part.all_eq
    intro e he h
    rw [Bool.not_eq_false', Bool.or_eq_true, decide_eq_true_eq, EnvironmentRow.isFor_iff] at h
    rw [decide_eq_true_eq]
    rcases h with h | h
    · rw [← hseparate.environment e he, h, hid]
    · rw [h.1, hproject]
  have hforeign := project_view hseparate hproject
  rw [Sql.insertEnvironment, Sql.insertEnvironment, hunique, hforeign]

/-- The configuration that a new environment's is seeded from is of the same flag. -/
theorem referenceConfig_view (hseparate : a.Separate db) (hflag : a.id flagId = organizationId) :
    Sql.referenceConfig flagId (a.view organizationId db) = Sql.referenceConfig flagId db := by
  have hconfigs : Sql.configsOf flagId (a.view organizationId db) = Sql.configsOf flagId db := by
    have hjoined : Sql.configsOf flagId (a.view organizationId db) =
        (a.view organizationId db).flagConfigs.filterMap fun c =>
          if c.flagId = flagId then
            (db.environments.find? (·.id = c.environmentId)).map fun e => (e, c)
          else none := by
      apply List.filterMap_congr
      intro c hc
      have hmem := (List.mem_filter.mp hc).1
      by_cases hthis : c.flagId = flagId
      · rw [environment_view hseparate]
        rw [← hseparate.config c hmem, hthis, hflag]
      · rw [if_neg hthis, if_neg hthis]
    rw [hjoined]
    apply Part.filterMap_eq
    intro c hc hsome
    by_cases hthis : c.flagId = flagId
    · rw [decide_eq_true_eq, ← hseparate.config c hc, hthis, hflag]
    · rw [if_neg hthis] at hsome
      cases hsome
  rw [Sql.referenceConfig, Sql.referenceConfig, hconfigs]

theorem mapM_congr {α β : Type} {f g : α → Except SqlError β} : ∀ {xs : List α},
    (∀ x ∈ xs, f x = g x) → xs.mapM f = xs.mapM g
  | [], _ => rfl
  | x :: xs, h => by
      rw [List.mapM_cons, List.mapM_cons, h x List.mem_cons_self,
        mapM_congr fun x hx => h x (List.mem_cons_of_mem _ hx)]

/-- Making an environment seeds the same configurations in the part. -/
theorem createEnvironment_view {salt : String} {isProduction : Bool} (hseparate : a.Separate db)
    (hid : a.id input.id = organizationId) (hproject : a.id projectId = organizationId) :
    outcome <$> Sql.createEnvironment input projectId key name salt isProduction
        (a.view organizationId db) =
      ownOutcome a organizationId <$>
        Sql.createEnvironment input projectId key name salt isProduction db := by
  rw [Sql.createEnvironment, Sql.createEnvironment, insertEnvironment_view hseparate hid hproject]
  cases hrow : Sql.insertEnvironment input projectId key name salt isProduction db with
  | error e => rfl
  | ok row =>
      obtain ⟨_, _, hvalue⟩ := Sql.insertEnvironment_cases hrow
      have hseeds : (db.flags.filter (·.projectId = projectId)).mapM (fun flag =>
          Sql.seededConfig input row.id flag (a.view organizationId db)) =
          (db.flags.filter (·.projectId = projectId)).mapM fun flag =>
            Sql.seededConfig input row.id flag db := by
        apply mapM_congr
        intro flag hflag
        obtain ⟨hflag, hselected⟩ := List.mem_filter.mp hflag
        rw [Sql.seededConfig, Sql.seededConfig, referenceConfig_view hseparate]
        rw [hseparate.flag flag hflag, of_decide_eq_true hselected, hproject]
      simp only [bind, Except.bind, filter_flags_view hproject, hseeds]
      cases hconfigs : (db.flags.filter (·.projectId = projectId)).mapM fun flag =>
          Sql.seededConfig input row.id flag db with
      | error e => rfl
      | ok configs =>
          have hown : ∀ c ∈ configs, a.id c.environmentId = organizationId := by
            intro c hc
            obtain ⟨flag, _, hseeded⟩ := (Sql.of_mapM hconfigs).1 c hc
            rw [(Sql.seededConfig_cases hseeded).1, hvalue]
            exact hid
          have hnew : ((a.view organizationId db).flagConfigs.all fun c =>
              !configs.any (·.isFor c.flagId c.environmentId)) =
              db.flagConfigs.all fun c => !configs.any (·.isFor c.flagId c.environmentId) := by
            apply Part.all_eq
            intro c _ h
            rw [Bool.not_eq_false', List.any_eq_true] at h
            obtain ⟨c', hc', hfor⟩ := h
            rw [decide_eq_true_eq, ← (ConfigRow.isFor_iff.mp hfor).2, hown c' hc']
          have hdb : a.view organizationId { db with
                environments := db.environments ++ [row]
                flagConfigs := db.flagConfigs ++ configs } =
              { a.view organizationId db with
                environments := (a.view organizationId db).environments ++ [row]
                flagConfigs := (a.view organizationId db).flagConfigs ++ configs } := by
            rw [Assignment.view, Part.append_eq (by simpa [hvalue] using hproject),
              Part.append_eq (by simpa using hown)]
            rfl
          simp only [hnew]
          cases db.flagConfigs.all fun c => !configs.any (·.isFor c.flagId c.environmentId) with
          | false => rfl
          | true => exact congrArg Except.ok (Prod.ext rfl hdb.symm)

/-- An environment takes the same rows along in the part. -/
theorem deleteEnvironment_view (hproject : a.id projectId = organizationId) :
    outcome <$> Sql.deleteEnvironment projectId key (a.view organizationId db) =
      ownOutcome a organizationId <$> Sql.deleteEnvironment projectId key db := by
  have hown : ∀ e ∈ db.environments, e.isFor projectId key = true →
      a.id e.projectId = organizationId := by
    intro e _ he
    rw [(EnvironmentRow.isFor_iff.mp he).1, hproject]
  have hselected : (a.view organizationId db).environments.filter (·.isFor projectId key) =
      db.environments.filter (·.isFor projectId key) :=
    Part.filter_eq fun e he h => by simpa using hown e he h
  rw [Sql.deleteEnvironment, Sql.deleteEnvironment, withoutEnvironments_view hown, hselected]
  rfl

/-- The constraints on a new flag look at the flags of its project. -/
theorem insertFlag_view {description : Option String} {variants : List Variant}
    (hseparate : a.Separate db) (hid : a.id input.id = organizationId)
    (hproject : a.id projectId = organizationId) :
    Sql.insertFlag input projectId key name description variants (a.view organizationId db) =
      Sql.insertFlag input projectId key name description variants db := by
  have hunique : ((a.view organizationId db).flags.all fun f =>
      !(f.id = input.id || f.isFor projectId key)) =
      db.flags.all fun f => !(f.id = input.id || f.isFor projectId key) := by
    apply Part.all_eq
    intro f hf h
    rw [Bool.not_eq_false', Bool.or_eq_true, decide_eq_true_eq, FlagRow.isFor_iff] at h
    rw [decide_eq_true_eq]
    rcases h with h | h
    · rw [← hseparate.flag f hf, h, hid]
    · rw [h.1, hproject]
  have hforeign := project_view hseparate hproject
  rw [Sql.insertFlag, Sql.insertFlag, hunique, hforeign]

/-- Making a flag seeds a configuration in the same environments. -/
theorem createFlag_view {description : Option String} {variants : List Variant}
    {offVariant : String} {fallthrough : Distribution} (hseparate : a.Separate db)
    (hid : a.id input.id = organizationId) (hproject : a.id projectId = organizationId) :
    outcome <$> Sql.createFlag input projectId key name description variants offVariant fallthrough
        (a.view organizationId db) =
      ownOutcome a organizationId <$>
        Sql.createFlag input projectId key name description variants offVariant fallthrough db := by
  rw [Sql.createFlag, Sql.createFlag, insertFlag_view hseparate hid hproject]
  cases hrow : Sql.insertFlag input projectId key name description variants db with
  | error e => rfl
  | ok row =>
      obtain ⟨_, _, hvalue⟩ := Sql.insertFlag_cases hrow
      have hids : Sql.environmentIds projectId (a.view organizationId db) =
          Sql.environmentIds projectId db := by
        rw [Sql.environmentIds, Sql.environmentIds, filter_environments_view hproject]
      simp only [bind, Except.bind, hids]
      generalize hconfigs : (Sql.environmentIds projectId db).map (fun id =>
        Sql.firstConfig input row.id id offVariant fallthrough) = configs
      have hown : ∀ c ∈ configs, a.id c.environmentId = organizationId := by
        intro c hc
        rw [← hconfigs] at hc
        obtain ⟨id, hmem, rfl⟩ := List.mem_map.mp hc
        obtain ⟨e, he, rfl⟩ := List.mem_map.mp hmem
        obtain ⟨he, hselected⟩ := List.mem_filter.mp he
        exact (hseparate.environment e he).trans (by rw [of_decide_eq_true hselected, hproject])
      have hnew : ((a.view organizationId db).flagConfigs.all fun c =>
          !configs.any (·.isFor c.flagId c.environmentId)) =
          db.flagConfigs.all fun c => !configs.any (·.isFor c.flagId c.environmentId) := by
        apply Part.all_eq
        intro c _ h
        rw [Bool.not_eq_false', List.any_eq_true] at h
        obtain ⟨c', hc', hfor⟩ := h
        rw [decide_eq_true_eq, ← (ConfigRow.isFor_iff.mp hfor).2, hown c' hc']
      have hdb : a.view organizationId { db with
            flags := db.flags ++ [row]
            flagConfigs := db.flagConfigs ++ configs } =
          { a.view organizationId db with
            flags := (a.view organizationId db).flags ++ [row]
            flagConfigs := (a.view organizationId db).flagConfigs ++ configs } := by
        rw [Assignment.view, Part.append_eq (by simpa [hvalue] using hproject),
          Part.append_eq (by simpa using hown)]
        rfl
      simp only [hnew]
      cases db.flagConfigs.all fun c => !configs.any (·.isFor c.flagId c.environmentId) with
      | false => rfl
      | true => exact congrArg Except.ok (Prod.ext rfl hdb.symm)

theorem updateFlag_view {patch : Sql.FlagPatch} (hseparate : a.Separate db)
    (hflag : a.id flagId = organizationId) :
    outcome <$> Sql.updateFlag input flagId patch (a.view organizationId db) =
      ownOutcome a organizationId <$> Sql.updateFlag input flagId patch db := by
  have hown : ∀ f ∈ db.flags, decide (f.id = flagId) = true →
      decide (a.id f.projectId = organizationId) = true := by
    intro f hf hid
    rw [decide_eq_true_eq, ← hseparate.flag f hf, of_decide_eq_true hid, hflag]
  have hfound : (a.view organizationId db).flags.find? (·.id = flagId) =
      db.flags.find? (·.id = flagId) := Part.find?_eq hown
  rw [Sql.updateFlag, Sql.updateFlag, hfound]
  cases hold : db.flags.find? (·.id = flagId) with
  | none => rfl
  | some old =>
      have hrow : decide (a.id (patch.apply input.now old).projectId = organizationId) = true :=
        hown old (List.mem_of_find?_eq_some hold) (by simpa using List.find?_some hold)
      simp only [map_bind, map_pure]
      congr 1
      funext _
      simp only [outcome, ownOutcome, Assignment.view, Part.replace_eq hown hrow]

/-- A flag is held back by the same experiments. -/
theorem deleteFlag_view (hseparate : a.Separate db) (hproject : a.id projectId = organizationId) :
    outcome <$> Sql.deleteFlag projectId key (a.view organizationId db) =
      ownOutcome a organizationId <$> Sql.deleteFlag projectId key db := by
  have hselected : (a.view organizationId db).flags.filter (·.isFor projectId key) =
      db.flags.filter (·.isFor projectId key) := by
    apply Part.filter_eq
    intro f _ hf
    simpa [(FlagRow.isFor_iff.mp hf).1] using hproject
  have hrestrict : ((a.view organizationId db).experiments.all fun x =>
      !((db.flags.filter (·.isFor projectId key)).map FlagRow.id).contains x.flagId) =
      db.experiments.all fun x =>
        !((db.flags.filter (·.isFor projectId key)).map FlagRow.id).contains x.flagId := by
    apply Part.all_eq
    intro x hx h
    rw [Bool.not_eq_false', List.contains_iff_mem] at h
    obtain ⟨f, hf, hid⟩ := List.mem_map.mp h
    obtain ⟨hf, hfor⟩ := List.mem_filter.mp hf
    rw [decide_eq_true_eq, ← hseparate.measured x hx, ← hid, hseparate.flag f hf,
      (FlagRow.isFor_iff.mp hfor).1, hproject]
  simp only [Sql.deleteFlag, hselected, hrestrict, map_bind, map_pure]
  congr 1
  funext _
  simp [outcome, ownOutcome, Assignment.view, Bool.and_comm]

/-- A configuration is written over the same row, with the same version. -/
theorem upsertConfig_view {enabled : Bool} {offVariant : String} {fallthrough : Distribution}
    {rules : List Rule} {expectedVersion : Option Int64} (hseparate : a.Separate db)
    (hflag : a.id flagId = organizationId) (henvironment : a.id environmentId = organizationId) :
    outcome <$> Sql.upsertConfig input flagId environmentId enabled offVariant fallthrough rules
        expectedVersion (a.view organizationId db) =
      ownOutcome a organizationId <$> Sql.upsertConfig input flagId environmentId enabled offVariant
        fallthrough rules expectedVersion db := by
  rw [Sql.upsertConfig, Sql.upsertConfig, selectConfig_view henvironment]
  cases hfound : Sql.selectConfig flagId environmentId db with
  | none =>
      have hforeign : ((a.view organizationId db).flags.any (·.id = flagId) &&
          (a.view organizationId db).environments.any (·.id = environmentId)) =
          (db.flags.any (·.id = flagId) && db.environments.any (·.id = environmentId)) := by
        rw [flag_view hseparate hflag, anyEnvironment_view hseparate henvironment]
      simp only [hforeign, map_bind, map_pure]
      congr 1
      funext _
      simp [outcome, ownOutcome, Assignment.view, henvironment]
  | some old =>
      simp only []
      split
      · simp only [map_bind, map_pure]
        congr 1
        funext version
        simp only [outcome, ownOutcome, Assignment.view]
        rw [Part.replace_eq]
        · intro c _ hc
          rw [(ConfigRow.isFor_iff.mp hc).2, henvironment, decide_eq_true_eq]
        · rw [henvironment, decide_eq_true_eq]
      · rfl

theorem insertSegment_view {description : Option String} (hseparate : a.Separate db)
    (hid : a.id input.id = organizationId) (henvironment : a.id environmentId = organizationId) :
    outcome <$> Sql.insertSegment input environmentId key name description
        (a.view organizationId db) =
      ownOutcome a organizationId <$>
        Sql.insertSegment input environmentId key name description db := by
  have hunique : ((a.view organizationId db).segments.all fun s =>
      !(s.id = input.id || s.isFor environmentId key)) =
      db.segments.all fun s => !(s.id = input.id || s.isFor environmentId key) := by
    apply Part.all_eq
    intro s hs h
    rw [Bool.not_eq_false', Bool.or_eq_true, decide_eq_true_eq, SegmentRow.isFor_iff] at h
    rw [decide_eq_true_eq]
    rcases h with h | h
    · rw [← hseparate.segment s hs, h, hid]
    · rw [h.1, henvironment]
  simp only [Sql.insertSegment, hunique, anyEnvironment_view hseparate henvironment, map_bind,
    map_pure]
  congr 1
  funext _
  congr 1
  funext _
  congr 1
  funext _
  simp [outcome, ownOutcome, Assignment.view, henvironment]

theorem updateSegment_view {patch : Sql.SegmentPatch} {expectedVersion : Option Int64}
    (henvironment : a.id environmentId = organizationId) :
    outcome <$> Sql.updateSegment input environmentId key patch expectedVersion
        (a.view organizationId db) =
      ownOutcome a organizationId <$>
        Sql.updateSegment input environmentId key patch expectedVersion db := by
  rw [Sql.updateSegment, Sql.updateSegment, selectSegment_view henvironment]
  cases hfound : Sql.selectSegment environmentId key db with
  | none => rfl
  | some old =>
      have hold := SegmentRow.isFor_iff.mp (List.find?_some hfound)
      simp only []
      split
      · simp only [map_bind, map_pure]
        congr 1
        funext version
        congr 1
        funext _
        simp only [outcome, ownOutcome, Assignment.view]
        rw [Part.replace_eq]
        · intro s _ hs
          rw [(SegmentRow.isFor_iff.mp hs).1, henvironment, decide_eq_true_eq]
        · rw [decide_eq_true_eq, ← henvironment, ← hold.1]
          rfl
      · rfl

theorem deleteSegment_view (henvironment : a.id environmentId = organizationId) :
    outcome <$> Sql.deleteSegment environmentId key (a.view organizationId db) =
      ownOutcome a organizationId <$> Sql.deleteSegment environmentId key db := by
  have hselected : (a.view organizationId db).segments.filter (·.isFor environmentId key) =
      db.segments.filter (·.isFor environmentId key) := by
    apply Part.filter_eq
    intro s _ hs
    simpa [(SegmentRow.isFor_iff.mp hs).1] using henvironment
  rw [Sql.deleteSegment, Sql.deleteSegment, hselected]
  simp [outcome, ownOutcome, Assignment.view, Bool.and_comm]

/-- A new experiment needs its environment and its flag, which are both in the part. -/
theorem insertExperiment_view {description : Option String} {metricKey controlVariant : String}
    (hseparate : a.Separate db) (hid : a.id input.id = organizationId)
    (hflag : a.id flagId = organizationId) (henvironment : a.id environmentId = organizationId) :
    outcome <$> Sql.insertExperiment input environmentId flagId key name description metricKey
        controlVariant (a.view organizationId db) =
      ownOutcome a organizationId <$> Sql.insertExperiment input environmentId flagId key name
        description metricKey controlVariant db := by
  have hunique : ((a.view organizationId db).experiments.all fun x =>
      !(x.id = input.id || x.isFor environmentId key)) =
      db.experiments.all fun x => !(x.id = input.id || x.isFor environmentId key) := by
    apply Part.all_eq
    intro x hx h
    rw [Bool.not_eq_false', Bool.or_eq_true, decide_eq_true_eq, ExperimentRow.isFor_iff] at h
    rw [decide_eq_true_eq]
    rcases h with h | h
    · rw [← hseparate.experiment x hx, h, hid]
    · rw [h.1, henvironment]
  simp only [Sql.insertExperiment, hunique, anyEnvironment_view hseparate henvironment,
    flag_view hseparate hflag, map_bind, map_pure]
  congr 1
  funext _
  congr 1
  funext _
  congr 1
  funext _
  simp [outcome, ownOutcome, Assignment.view, henvironment]

/-- Updates of experiments of the organization. -/
theorem modifyExperiment_view {p : ExperimentRow → Bool} {change : ExperimentRow → ExperimentRow}
    (hp : ∀ x, p x = true → a.id x.environmentId = organizationId)
    (hchange : ∀ x, (change x).environmentId = x.environmentId) :
    outcome <$> Sql.modifyExperiment input p change (a.view organizationId db) =
      ownOutcome a organizationId <$> Sql.modifyExperiment input p change db := by
  have hown : ∀ x ∈ db.experiments, p x = true →
      decide (a.id x.environmentId = organizationId) = true := by
    intro x _ hx
    rw [decide_eq_true_eq]
    exact hp x hx
  have hfound : (a.view organizationId db).experiments.find? p = db.experiments.find? p :=
    Part.find?_eq hown
  rw [Sql.modifyExperiment, Sql.modifyExperiment, hfound]
  cases hold : db.experiments.find? p with
  | none => rfl
  | some old =>
      simp only [map_bind, map_pure]
      congr 1
      funext version
      congr 1
      funext _
      simp only [outcome, ownOutcome, Assignment.view]
      rw [Part.replace_eq hown]
      rw [decide_eq_true_eq, hchange]
      exact hp old (List.find?_some hold)

theorem deleteExperiment_view (henvironment : a.id environmentId = organizationId) :
    outcome <$> Sql.deleteExperiment environmentId key (a.view organizationId db) =
      ownOutcome a organizationId <$> Sql.deleteExperiment environmentId key db := by
  have hselected : (a.view organizationId db).experiments.filter (fun row =>
      row.isFor environmentId key && row.state ≠ .running) = db.experiments.filter fun row =>
      row.isFor environmentId key && row.state ≠ .running := by
    apply Part.filter_eq
    intro x _ hx
    rw [Bool.and_eq_true, ExperimentRow.isFor_iff] at hx
    simpa [hx.1.1] using henvironment
  simp only [Sql.deleteExperiment, hselected]
  simp only [map_pure, outcome, ownOutcome, Assignment.view, Part.filter_comm]

/-- An entry of the organization goes in in the part as in the whole. -/
theorem insertAudit_view {entry : NewAuditEntry} (hseparate : a.Separate db)
    (horganization : entry.organizationId = organizationId)
    (henvironment : ∀ id ∈ entry.environmentId, a.id id = organizationId) :
    outcome <$> Sql.insertAudit input entry (a.view organizationId db) =
      ownOutcome a organizationId <$> Sql.insertAudit input entry db := by
  have hforeign : (entry.environmentId.all fun id =>
      (a.view organizationId db).environments.any (·.id = id)) =
      entry.environmentId.all fun id => db.environments.any (·.id = id) := by
    cases hentry : entry.environmentId with
    | none => rfl
    | some id =>
        rw [Option.all_some, Option.all_some, anyEnvironment_view hseparate]
        exact henvironment id hentry
  simp only [Sql.insertAudit, hforeign, map_bind, map_pure]
  congr 1
  funext _
  simp [outcome, ownOutcome, Assignment.view, horganization]

end Writes

/-- A statement of an organization sees its rows only. -/
theorem sql_sees {s : Stmt} (hown : a.SqlOwn organizationId s)
    (hid : sqlGenerates s = true → a.id input.id = organizationId) (hseparate : a.Separate db) :
    Sees a organizationId input s db := by
  cases s with
  | selectProject id key =>
      cases hown
      exact sees_of_read (f := Sql.selectProject organizationId key) (fun _ => rfl)
        selectProject_view
  | selectEnvironment projectId key =>
      exact sees_of_read (f := Sql.selectEnvironment projectId key) (fun _ => rfl)
        (selectEnvironment_view hown)
  | selectEnvironments projectId =>
      exact sees_of_read (f := Sql.selectEnvironments projectId) (fun _ => rfl)
        (selectEnvironments_view hown)
  | selectFlag projectId key =>
      exact sees_of_read (f := Sql.selectFlag projectId key) (fun _ => rfl) (selectFlag_view hown)
  | selectConfig flagId environmentId =>
      exact sees_of_read (f := Sql.selectConfig flagId environmentId) (fun _ => rfl)
        (selectConfig_view hown.2)
  | selectSegment environmentId key =>
      exact sees_of_read (f := Sql.selectSegment environmentId key) (fun _ => rfl)
        (selectSegment_view hown)
  | selectSegmentKeys environmentId =>
      exact sees_of_read (f := Sql.selectSegmentKeys environmentId) (fun _ => rfl)
        (selectSegmentKeys_view hown)
  | selectReferencingFlags environmentId key =>
      exact sees_of_read (f := Sql.selectReferencingFlags environmentId key) (fun _ => rfl)
        (selectReferencingFlags_view hseparate hown)
  | selectExperiment environmentId key =>
      exact sees_of_read (f := Sql.selectExperiment environmentId key) (fun _ => rfl)
        (selectExperiment_view hown)
  | selectExperimentsOfFlag flagId =>
      exact sees_of_read (f := Sql.selectExperimentsOfFlag flagId) (fun _ => rfl)
        (selectExperimentsOfFlag_view hseparate hown)
  | selectSalt environmentId =>
      exact sees_of_read (f := Sql.selectSalt environmentId) (fun _ => rfl)
        (selectSalt_view hseparate hown)
  | selectEnvironmentFlags environmentId =>
      exact sees_of_read (f := Sql.selectEnvironmentFlags environmentId) (fun _ => rfl)
        (selectEnvironmentFlags_view hseparate hown)
  | selectSegments environmentId =>
      exact sees_of_read (f := Sql.selectSegments environmentId) (fun _ => rfl)
        (selectSegments_view hown)
  | selectRunningExperiments environmentId =>
      exact sees_of_read (f := Sql.selectRunningExperiments environmentId) (fun _ => rfl)
        (selectRunningExperiments_view hseparate hown)
  | insertProject id =>
      cases hown
      exact insertProject_view hseparate (hid rfl)
  | deleteProject id =>
      cases hown
      exact deleteProject_view hseparate
  | createEnvironment => exact createEnvironment_view hseparate (hid rfl) hown
  | deleteEnvironment => exact deleteEnvironment_view hown
  | createFlag => exact createFlag_view hseparate (hid rfl) hown
  | updateFlag => exact updateFlag_view hseparate hown
  | deleteFlag => exact deleteFlag_view hseparate hown
  | upsertConfig => exact upsertConfig_view hseparate hown.1 hown.2
  | insertSegment => exact insertSegment_view hseparate (hid rfl) hown
  | updateSegment => exact updateSegment_view hown
  | deleteSegment => exact deleteSegment_view hown
  | insertExperiment => exact insertExperiment_view hseparate (hid rfl) hown.1 hown.2
  | updateExperiment environmentId =>
      apply modifyExperiment_view
      · intro x hx
        rw [(ExperimentRow.isFor_iff.mp hx).1]
        exact hown
      · exact fun _ => rfl
  | transitionExperiment environmentId =>
      apply modifyExperiment_view
      · intro x hx
        rw [Bool.and_eq_true, ExperimentRow.isFor_iff] at hx
        rw [hx.1.1]
        exact hown
      · exact fun _ => rfl
  | deleteExperiment => exact deleteExperiment_view hown
  | insertAudit => exact insertAudit_view hseparate hown.1 hown.2

end FlagForge.Service
