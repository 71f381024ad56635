/-
Module: FlagForge.Service.Separation
Layer: Service
Purpose: A SQL statement of an organization changes only the rows of that organization, and leaves every
  row in one organization with all that it refers to.
Imports: FlagForge.Service.Ownership
Trusted boundary: an identifier that the database generates is not generated twice
Main exports: Changes, Changes.spared, Changes.separate, sql_changes, SqlAnswer, sql_answer
-/
import FlagForge.Service.Ownership

namespace FlagForge.Service

open Storage
open Storage.Sql (Input Stmt Resp SqlError Written NewAuditEntry)

/-- From one state of the tables to the other, only rows of the organization have changed. -/
structure Changes (a : Assignment) (organizationId : Uuid) (db db' : Db) : Prop where
  projects : Part.Changed (fun p => p.organizationId = organizationId)
    (fun p => a.id p.id = p.organizationId) db.projects db'.projects
  environments : Part.Changed (fun e => a.id e.projectId = organizationId)
    (fun e => a.id e.id = a.id e.projectId) db.environments db'.environments
  flags : Part.Changed (fun f => a.id f.projectId = organizationId)
    (fun f => a.id f.id = a.id f.projectId) db.flags db'.flags
  flagConfigs : Part.Changed (fun c => a.id c.environmentId = organizationId)
    (fun c => a.id c.flagId = a.id c.environmentId) db.flagConfigs db'.flagConfigs
  segments : Part.Changed (fun s => a.id s.environmentId = organizationId)
    (fun s => a.id s.id = a.id s.environmentId) db.segments db'.segments
  experiments : Part.Changed (fun x => a.id x.environmentId = organizationId)
    (fun x => a.id x.id = a.id x.environmentId ∧ a.id x.flagId = a.id x.environmentId)
    db.experiments db'.experiments
  auditLog : Part.Changed (fun r => r.organizationId = organizationId)
    (fun r => ∀ id ∈ r.environmentId, a.id id = r.organizationId) db.auditLog db'.auditLog

namespace Changes

variable {a : Assignment} {organizationId : Uuid} {db db' : Db}

/-- Nothing has changed. -/
theorem refl : Changes a organizationId db db :=
  ⟨.refl, .refl, .refl, .refl, .refl, .refl, .refl⟩

/-- Other organizations have what they had. -/
theorem spared {other : Uuid} (h : Changes a organizationId db db') (hother : other ≠ organizationId) :
    a.view other db' = a.view other db := by
  have apart : ∀ x : Uuid, decide (x = other) = true → decide (x = organizationId) = false := by
    intro x hx
    rw [of_decide_eq_true hx]
    exact decide_eq_false hother
  rw [Assignment.view, Assignment.view, h.projects.outside _ fun _ => apart _,
    h.environments.outside _ fun _ => apart _, h.flags.outside _ fun _ => apart _,
    h.flagConfigs.outside _ fun _ => apart _, h.segments.outside _ fun _ => apart _,
    h.experiments.outside _ fun _ => apart _, h.auditLog.outside _ fun _ => apart _]

/-- What a statement of one organization changes leaves the tables divided: each row stays with the
    organization of the rows that it refers to. -/
theorem separate (h : Changes a organizationId db db') (hseparate : a.Separate db) :
    a.Separate db' where
  project := h.projects.keeps hseparate.project
  environment := h.environments.keeps hseparate.environment
  flag := h.flags.keeps hseparate.flag
  config := h.flagConfigs.keeps hseparate.config
  segment := h.segments.keeps hseparate.segment
  experiment x hx := (h.experiments.keeps (fun x hx =>
    ⟨hseparate.experiment x hx, hseparate.measured x hx⟩) x hx).1
  measured x hx := (h.experiments.keeps (fun x hx =>
    ⟨hseparate.experiment x hx, hseparate.measured x hx⟩) x hx).2
  audit := h.auditLog.keeps hseparate.audit

end Changes

section

variable {a : Assignment} {organizationId projectId environmentId flagId : Uuid} {db : Db}
  {input : Input} {key name : String}

theorem insertProject_changes {description : Option String} {w : Written ProjectRow}
    (hid : a.id input.id = organizationId)
    (hw : Sql.insertProject input organizationId key name description db = .ok w) :
    Changes a organizationId db w.db := by
  obtain ⟨_, rfl⟩ := Sql.insertProject_cases hw
  refine { Changes.refl with projects := .append ?_ }
  intro p hp
  cases List.mem_singleton.mp hp
  exact ⟨by simp, hid⟩

/-- Environments of the organization take their rows along. -/
theorem withoutEnvironments_changes {p : EnvironmentRow → Bool} (hseparate : a.Separate db)
    (hp : ∀ e ∈ db.environments, p e = true → a.id e.projectId = organizationId) :
    Changes a organizationId db (Sql.withoutEnvironments p db) := by
  have hids : ∀ id, ((db.environments.filter p).map EnvironmentRow.id).contains id = true →
      a.id id = organizationId := by
    intro id h
    obtain ⟨e, he, rfl⟩ := List.mem_map.mp (List.contains_iff_mem.mp h)
    obtain ⟨he, hselected⟩ := List.mem_filter.mp he
    rw [hseparate.environment e he]
    exact hp e he hselected
  refine ⟨.refl, .delete ?_, .refl, .delete ?_, .delete ?_, .delete ?_, .map ?_ ?_ ?_⟩
  · intro e he h
    rw [Bool.not_eq_false'] at h
    simpa using hp e he h
  · intro c _ h
    rw [Bool.not_eq_false'] at h
    simpa using hids _ h
  · intro s _ h
    rw [Bool.not_eq_false'] at h
    simpa using hids _ h
  · intro x _ h
    rw [Bool.not_eq_false'] at h
    simpa using hids _ h
  · intro r hr h
    have hsame : r.environmentId.filter (fun id =>
        !((db.environments.filter p).map EnvironmentRow.id).contains id) = r.environmentId := by
      cases henvironment : r.environmentId with
      | none => rfl
      | some id =>
          rw [Option.filter_some, if_pos]
          rw [Bool.not_eq_true', Bool.eq_false_iff]
          intro hcontained
          rw [decide_eq_false_iff_not, ← hseparate.audit r hr id henvironment] at h
          exact h (hids id hcontained)
    rw [hsame]
  · exact fun _ => rfl
  · intro r h id hmem
    exact h id (Option.mem_filter_iff.mp hmem).1

/-- A project takes along rows of its own organization only. -/
theorem deleteProject_changes {w : Written Nat} (hseparate : a.Separate db)
    (hw : Sql.deleteProject organizationId key db = .ok w) : Changes a organizationId db w.db := by
  rw [Sql.deleteProject] at hw
  split at hw
  · cases hw
    exact .refl
  · rename_i project hproject
    have hmem := List.mem_of_find?_eq_some hproject
    have hselected := List.find?_some hproject
    simp only [Bool.and_eq_true, decide_eq_true_eq] at hselected
    have hown : a.id project.id = organizationId :=
      (hseparate.project project hmem).trans hselected.1
    obtain ⟨_, hw⟩ := Sql.of_require hw
    cases hw
    have hrest := withoutEnvironments_changes (p := fun e => e.projectId = project.id) hseparate
      fun e _ he => by rw [of_decide_eq_true he, hown]
    refine { hrest with
      projects := hrest.projects.trans (.delete ?_)
      flags := hrest.flags.trans (.delete ?_)
      flagConfigs := hrest.flagConfigs.trans (.delete ?_) }
    · intro p hp h
      simp only [ne_eq, decide_not, Bool.not_eq_false', decide_eq_true_eq] at h
      rw [decide_eq_true_eq, ← hseparate.project p hp, h, hown]
    · intro f _ h
      simp only [ne_eq, decide_not, Bool.not_eq_false', decide_eq_true_eq] at h
      rw [decide_eq_true_eq, h, hown]
    · intro c hc h
      rw [Bool.not_eq_false', List.contains_iff_mem] at h
      obtain ⟨f, hf, hid⟩ := List.mem_map.mp h
      obtain ⟨hf, hfor⟩ := List.mem_filter.mp hf
      rw [decide_eq_true_eq, ← hseparate.config c (List.mem_filter.mp hc).1, ← hid,
        hseparate.flag f hf, of_decide_eq_true hfor, hown]

/-- The configurations that are seeded are of flags of the same project. -/
theorem createEnvironment_changes {salt : String} {isProduction : Bool}
    {w : Written EnvironmentRow} (hseparate : a.Separate db) (hid : a.id input.id = organizationId)
    (hproject : a.id projectId = organizationId)
    (hw : Sql.createEnvironment input projectId key name salt isProduction db = .ok w) :
    Changes a organizationId db w.db := by
  obtain ⟨configs, hrow, hconfigs, hdb⟩ := Sql.createEnvironment_cases hw
  obtain ⟨_, _, hvalue⟩ := Sql.insertEnvironment_cases hrow
  rw [hdb]
  refine { Changes.refl with environments := .append ?_, flagConfigs := .append ?_ }
  · intro e he
    cases List.mem_singleton.mp he
    rw [hvalue]
    exact ⟨by simpa using hproject, hid.trans hproject.symm⟩
  · intro c hc
    obtain ⟨f, hf, hseeded⟩ := (Sql.of_mapM hconfigs).1 c hc
    obtain ⟨hf, hselected⟩ := List.mem_filter.mp hf
    rw [(Sql.seededConfig_cases hseeded).1, hvalue]
    refine ⟨decide_eq_true hid, ?_⟩
    exact (hseparate.flag f hf).trans (by
      rw [of_decide_eq_true hselected, hproject]
      exact hid.symm)

/-- The configurations that are seeded are in environments of the same project. -/
theorem createFlag_changes {description : Option String} {variants : List Variant}
    {offVariant : String} {fallthrough : Distribution} {w : Written FlagRow}
    (hseparate : a.Separate db) (hid : a.id input.id = organizationId)
    (hproject : a.id projectId = organizationId)
    (hw : Sql.createFlag input projectId key name description variants offVariant fallthrough db =
      .ok w) : Changes a organizationId db w.db := by
  obtain ⟨hrow, hdb⟩ := Sql.createFlag_cases hw
  obtain ⟨_, _, hvalue⟩ := Sql.insertFlag_cases hrow
  rw [hdb]
  refine { Changes.refl with flags := .append ?_, flagConfigs := .append ?_ }
  · intro f hf
    cases List.mem_singleton.mp hf
    rw [hvalue]
    exact ⟨by simpa using hproject, hid.trans hproject.symm⟩
  · intro c hc
    obtain ⟨id, hmem, rfl⟩ := List.mem_map.mp hc
    obtain ⟨e, he, rfl⟩ := List.mem_map.mp hmem
    obtain ⟨he, hselected⟩ := List.mem_filter.mp he
    have hown : a.id e.id = organizationId := by
      rw [hseparate.environment e he, of_decide_eq_true hselected, hproject]
    refine ⟨decide_eq_true hown, ?_⟩
    rw [hvalue]
    exact hid.trans hown.symm

theorem updateFlag_changes {patch : Sql.FlagPatch} {w : Written (Option FlagRow)}
    (hseparate : a.Separate db) (hflag : a.id flagId = organizationId)
    (hw : Sql.updateFlag input flagId patch db = .ok w) : Changes a organizationId db w.db := by
  rcases Sql.updateFlag_cases hw with rfl | ⟨old, hold, rfl⟩
  · exact .refl
  · have hown : ∀ f ∈ db.flags, decide (f.id = flagId) = true → a.id f.projectId = organizationId := by
      intro f hf hid
      rw [← hseparate.flag f hf, of_decide_eq_true hid, hflag]
    have hmem := List.mem_of_find?_eq_some hold
    refine { Changes.refl with flags := .replace ?_ ?_ ?_ }
    · exact fun f hf hid => by simpa using hown f hf hid
    · exact decide_eq_true (hown old hmem (by simpa using List.find?_some hold))
    · exact hseparate.flag old hmem

/-- A flag of a project of the organization takes along its own configurations. -/
theorem deleteFlag_changes {w : Written Nat} (hseparate : a.Separate db)
    (hproject : a.id projectId = organizationId) (hw : Sql.deleteFlag projectId key db = .ok w) :
    Changes a organizationId db w.db := by
  rw [(Sql.deleteFlag_cases hw).2.1]
  refine { Changes.refl with flags := .delete ?_, flagConfigs := .delete ?_ }
  · intro f _ h
    rw [Bool.not_eq_false', FlagRow.isFor_iff] at h
    simpa [h.1] using hproject
  · intro c hc h
    rw [Bool.not_eq_false', List.contains_iff_mem] at h
    obtain ⟨f, hf, hid⟩ := List.mem_map.mp h
    obtain ⟨hf, hfor⟩ := List.mem_filter.mp hf
    rw [decide_eq_true_eq, ← hseparate.config c hc, ← hid, hseparate.flag f hf,
      (FlagRow.isFor_iff.mp hfor).1, hproject]

/-- A configuration is written for a flag and an environment of the organization. -/
theorem upsertConfig_changes {enabled : Bool} {offVariant : String} {fallthrough : Distribution}
    {rules : List Rule} {expectedVersion : Option Int64} {w : Written (Option ConfigRow)}
    (hflag : a.id flagId = organizationId) (henvironment : a.id environmentId = organizationId)
    (hw : Sql.upsertConfig input flagId environmentId enabled offVariant fallthrough rules
      expectedVersion db = .ok w) : Changes a organizationId db w.db := by
  rcases Sql.upsertConfig_cases hw with ⟨row, hrow, _, _, _, rfl⟩ | ⟨old, row, _, _, _, hrow, rfl⟩ |
    ⟨_, _, _, rfl⟩
  · refine { Changes.refl with flagConfigs := .append ?_ }
    intro c hc
    cases List.mem_singleton.mp hc
    rw [hrow]
    exact ⟨decide_eq_true henvironment, hflag.trans henvironment.symm⟩
  · refine { Changes.refl with flagConfigs := .replace ?_ ?_ ?_ }
    · intro c _ hc
      simpa [(ConfigRow.isFor_iff.mp hc).2] using henvironment
    · rw [hrow]
      exact decide_eq_true henvironment
    · rw [hrow]
      exact hflag.trans henvironment.symm
  · exact .refl

theorem insertSegment_changes {description : Option String} {w : Written SegmentRow}
    (hid : a.id input.id = organizationId) (henvironment : a.id environmentId = organizationId)
    (hw : Sql.insertSegment input environmentId key name description db = .ok w) :
    Changes a organizationId db w.db := by
  obtain ⟨_, _, _, rfl⟩ := Sql.insertSegment_cases hw
  refine { Changes.refl with segments := .append ?_ }
  intro s hs
  cases List.mem_singleton.mp hs
  exact ⟨by simpa using henvironment, hid.trans henvironment.symm⟩

theorem updateSegment_changes {patch : Sql.SegmentPatch} {expectedVersion : Option Int64}
    {w : Written (Option SegmentRow)} (hseparate : a.Separate db)
    (henvironment : a.id environmentId = organizationId)
    (hw : Sql.updateSegment input environmentId key patch expectedVersion db = .ok w) :
    Changes a organizationId db w.db := by
  rcases Sql.updateSegment_cases hw with ⟨old, row, hold, _, _, rfl, rfl⟩ | ⟨rfl, _⟩
  · have hfor := (SegmentRow.isFor_iff.mp (List.find?_some hold)).1
    refine { Changes.refl with segments := .replace ?_ ?_ ?_ }
    · intro s _ hs
      simpa [(SegmentRow.isFor_iff.mp hs).1] using henvironment
    · simpa [Sql.SegmentPatch.apply, hfor] using henvironment
    · exact hseparate.segment old (List.mem_of_find?_eq_some hold)
  · exact .refl

theorem deleteSegment_changes {w : Written Nat} (henvironment : a.id environmentId = organizationId)
    (hw : Sql.deleteSegment environmentId key db = .ok w) : Changes a organizationId db w.db := by
  rw [(Sql.deleteSegment_cases hw).1]
  refine { Changes.refl with segments := .delete ?_ }
  intro s _ h
  rw [Bool.not_eq_false', SegmentRow.isFor_iff] at h
  simpa [h.1] using henvironment

/-- An experiment refers to a flag and an environment of the organization. -/
theorem insertExperiment_changes {description : Option String} {metricKey controlVariant : String}
    {w : Written Unit} (hid : a.id input.id = organizationId) (hflag : a.id flagId = organizationId)
    (henvironment : a.id environmentId = organizationId)
    (hw : Sql.insertExperiment input environmentId flagId key name description metricKey
      controlVariant db = .ok w) : Changes a organizationId db w.db := by
  obtain ⟨row, hrow, _, _, _, rfl⟩ := Sql.insertExperiment_cases hw
  refine { Changes.refl with experiments := .append ?_ }
  intro x hx
  cases List.mem_singleton.mp hx
  rw [hrow]
  exact ⟨by simpa using henvironment, hid.trans henvironment.symm, hflag.trans henvironment.symm⟩

/-- A change to experiments that keeps what they refer to stays in the organization if its selection
    does. -/
theorem modifyExperiment_changes {p : ExperimentRow → Bool} {change : ExperimentRow → ExperimentRow}
    {w : Written Nat} (hseparate : a.Separate db)
    (hp : ∀ x, p x = true → a.id x.environmentId = organizationId)
    (hchange : ∀ x, (change x).id = x.id ∧ (change x).environmentId = x.environmentId ∧
      (change x).flagId = x.flagId)
    (hw : Sql.modifyExperiment input p change db = .ok w) : Changes a organizationId db w.db := by
  rcases Sql.modifyExperiment_cases hw with rfl | ⟨old, row, hold, _, hrow, rfl⟩
  · exact .refl
  · have hmem := List.mem_of_find?_eq_some hold
    obtain ⟨hid, henvironment, hflag⟩ := hchange old
    refine { Changes.refl with experiments := .replace ?_ ?_ ?_ }
    · intro x _ hx
      simpa using hp x hx
    · rw [hrow]
      simpa [henvironment] using hp old (List.find?_some hold)
    · simp only [hrow, hid, henvironment, hflag]
      exact ⟨hseparate.experiment old hmem, hseparate.measured old hmem⟩

theorem updateExperiment_changes {name : Option String} {description : Option (Option String)}
    {w : Written Nat} (hseparate : a.Separate db) (henvironment : a.id environmentId = organizationId)
    (hw : Sql.updateExperiment input environmentId key name description db = .ok w) :
    Changes a organizationId db w.db := by
  refine modifyExperiment_changes (p := (·.isFor environmentId key)) hseparate ?_ ?_ hw
  · intro x hx
    rw [(ExperimentRow.isFor_iff.mp hx).1]
    exact henvironment
  · exact fun _ => ⟨rfl, rfl, rfl⟩

theorem transitionExperiment_changes {source target : ExperimentState} {w : Written Nat}
    (hseparate : a.Separate db) (henvironment : a.id environmentId = organizationId)
    (hw : Sql.transitionExperiment input environmentId key source target db = .ok w) :
    Changes a organizationId db w.db := by
  refine modifyExperiment_changes
    (p := fun row => row.isFor environmentId key && row.state = source) hseparate ?_ ?_ hw
  · intro x hx
    rw [Bool.and_eq_true, ExperimentRow.isFor_iff] at hx
    rw [hx.1.1]
    exact henvironment
  · exact fun _ => ⟨rfl, rfl, rfl⟩

theorem deleteExperiment_changes {w : Written Nat}
    (henvironment : a.id environmentId = organizationId)
    (hw : Sql.deleteExperiment environmentId key db = .ok w) : Changes a organizationId db w.db := by
  rw [(Sql.deleteExperiment_cases hw).1]
  refine { Changes.refl with experiments := .delete ?_ }
  intro x _ h
  rw [Bool.not_eq_false', Bool.and_eq_true, ExperimentRow.isFor_iff] at h
  simpa [h.1.1] using henvironment

/-- An entry is written under the organization, about one of its environments or none. -/
theorem insertAudit_changes {entry : NewAuditEntry} {w : Written Unit}
    (horganization : entry.organizationId = organizationId)
    (henvironment : ∀ id ∈ entry.environmentId, a.id id = organizationId)
    (hw : Sql.insertAudit input entry db = .ok w) : Changes a organizationId db w.db := by
  obtain ⟨_, hw⟩ := Sql.of_require hw
  cases hw
  refine { Changes.refl with auditLog := .append ?_ }
  intro r hr
  cases List.mem_singleton.mp hr
  refine ⟨by simpa using horganization, fun id hid => ?_⟩
  exact (henvironment id hid).trans horganization.symm

end

variable {a : Assignment} {organizationId : Uuid} {db : Db} {input : Input} {s : Stmt}

/-- A committed write of the organization changes nothing of another's, and refers to nothing of
    another's. -/
theorem run_changes {w : Written s.Result} (hown : a.SqlOwn organizationId s)
    (hid : sqlGenerates s = true → a.id input.id = organizationId) (hseparate : a.Separate db)
    (hw : s.run input db = .ok w) : Changes a organizationId db w.db := by
  cases s with
  | insertProject id =>
      cases hown
      exact insertProject_changes (hid rfl) hw
  | deleteProject id =>
      cases hown
      exact deleteProject_changes hseparate hw
  | createEnvironment => exact createEnvironment_changes hseparate (hid rfl) hown hw
  | deleteEnvironment projectId key =>
      rw [(Sql.deleteEnvironment_cases hw).1]
      apply withoutEnvironments_changes hseparate
      intro e _ he
      rw [(EnvironmentRow.isFor_iff.mp he).1]
      exact hown
  | createFlag => exact createFlag_changes hseparate (hid rfl) hown hw
  | updateFlag => exact updateFlag_changes hseparate hown hw
  | deleteFlag => exact deleteFlag_changes hseparate hown hw
  | upsertConfig => exact upsertConfig_changes hown.1 hown.2 hw
  | insertSegment => exact insertSegment_changes (hid rfl) hown hw
  | updateSegment => exact updateSegment_changes hseparate hown hw
  | deleteSegment => exact deleteSegment_changes hown hw
  | insertExperiment => exact insertExperiment_changes (hid rfl) hown.1 hown.2 hw
  | updateExperiment => exact updateExperiment_changes hseparate hown hw
  | transitionExperiment => exact transitionExperiment_changes hseparate hown hw
  | deleteExperiment => exact deleteExperiment_changes hown hw
  | insertAudit => exact insertAudit_changes hown.1 hown.2 hw
  | _ =>
      cases hw
      exact .refl

/-- A statement of an organization changes rows of the organization only. -/
theorem sql_changes (hown : a.SqlOwn organizationId s)
    (hid : sqlGenerates s = true → a.id input.id = organizationId)
    (hseparate : a.Separate db) : Changes a organizationId db (Sql.exec input s db).2 := by
  rcases Sql.exec_db_cases input s db with heq | ⟨w, hw, heq⟩
  · rw [heq]
    exact .refl
  · rw [heq]
    exact run_changes hown hid hseparate hw

/-! ### Answers -/

/-- The identifiers that an answer hands to the caller are the organization's. -/
def SqlAnswer (a : Assignment) (organizationId : Uuid) : (s : Stmt) → Resp s → Prop
  | .selectProject .., .ok (row : Option ProjectRow) => ∀ p, row = some p → a.id p.id = organizationId
  | .selectEnvironment .., .ok (row : Option EnvironmentRow) =>
      ∀ e, row = some e → a.id e.id = organizationId
  | .selectEnvironments .., .ok (rows : List EnvironmentRow) =>
      ∀ e ∈ rows, a.id e.id = organizationId
  | .selectFlag .., .ok (row : Option FlagRow) => ∀ f, row = some f → a.id f.id = organizationId
  | .createEnvironment .., .ok (row : EnvironmentRow) => a.id row.id = organizationId
  | _, _ => True

/-- The rows that it answers with are the organization's. -/
theorem sql_answer (hown : a.SqlOwn organizationId s)
    (hid : sqlGenerates s = true → a.id input.id = organizationId)
    (hseparate : a.Separate db) : SqlAnswer a organizationId s (Sql.exec input s db).1 := by
  cases hanswer : (Sql.exec input s db).1 with
  | error e => cases s <;> trivial
  | ok value =>
      obtain ⟨w, hw, rfl, _⟩ := Sql.run_of_exec_ok hanswer
      cases s with
      | selectProject id key =>
          cases hw
          intro p hp
          have hselected := List.find?_some hp
          simp only [Bool.and_eq_true, decide_eq_true_eq] at hselected
          rw [hseparate.project p (List.mem_of_find?_eq_some hp), hselected.1]
          exact hown
      | selectEnvironment projectId key =>
          cases hw
          intro e he
          rw [hseparate.environment e (List.mem_of_find?_eq_some he),
            (EnvironmentRow.isFor_iff.mp (List.find?_some he)).1]
          exact hown
      | selectEnvironments projectId =>
          cases hw
          intro e he
          obtain ⟨he, hselected⟩ := List.mem_filter.mp (Table.mem_orderBy.mp he)
          rw [hseparate.environment e he, of_decide_eq_true hselected]
          exact hown
      | selectFlag projectId key =>
          cases hw
          intro f hf
          rw [hseparate.flag f (List.mem_of_find?_eq_some hf),
            (FlagRow.isFor_iff.mp (List.find?_some hf)).1]
          exact hown
      | createEnvironment =>
          obtain ⟨_, hrow, _, _⟩ := Sql.createEnvironment_cases hw
          obtain ⟨_, _, hvalue⟩ := Sql.insertEnvironment_cases hrow
          exact (congrArg (fun e : EnvironmentRow => a.id e.id) hvalue).trans (hid rfl)
      | _ => trivial

end FlagForge.Service
