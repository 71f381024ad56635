/-
Module: FlagForge.Storage.Covered
Layer: Storage
Purpose: Every flag is configured in every environment of its project, whatever is written: creating
  either side seeds the pairs, and a configuration goes with its flag or its environment only.
Imports: FlagForge.Storage.Linked
Trusted boundary: none
Main exports: Covered, Covered.run
-/
import FlagForge.Storage.Linked

namespace FlagForge.Storage

open Sql (Input Written Stmt FlagPatch)

/-- The tables are linked, and every pair of a flag and an environment of one project has its row. -/
structure Covered (db : Db) : Prop extends Linked db where
  configured : ∀ f ∈ db.flags, ∀ e ∈ db.environments, e.projectId = f.projectId →
    ∃ c ∈ db.flagConfigs, c.isFor f.id e.id = true

namespace Covered

variable {db : Db}

theorem empty : Covered Db.empty := by
  refine ⟨.empty, ?_⟩
  intro f hf
  cases hf

/-- Other tables do not matter. -/
theorem congr {db' : Db} (h : Covered db) (hflags : db'.flags = db.flags)
    (henvironments : db'.environments = db.environments)
    (hconfigs : db'.flagConfigs = db.flagConfigs) : Covered db' := by
  refine ⟨h.toLinked.congr hflags henvironments hconfigs, ?_⟩
  rw [hflags, henvironments, hconfigs]
  exact h.configured

/-! ### Deletes -/

/-- Environments take their configurations along. -/
theorem withoutEnvironments (h : Covered db) (p : EnvironmentRow → Bool) :
    Covered (Sql.withoutEnvironments p db) := by
  refine ⟨h.toLinked.withoutEnvironments p, ?_⟩
  intro f hf e he hproject
  obtain ⟨c, hc, hfor⟩ := h.configured f hf e (List.mem_filter.mp he).1 hproject
  have hstays := Table.mem_cascade h.environmentIds he hc (ConfigRow.isFor_iff.mp hfor).2
  exact ⟨c, hstays, hfor⟩

/-- Flags take their configurations along. -/
theorem withoutFlags (h : Covered db) (p : FlagRow → Bool) :
    Covered { db with
      flags := db.flags.filter fun f => !p f
      flagConfigs := db.flagConfigs.filter fun c =>
        !((db.flags.filter p).map FlagRow.id).contains c.flagId } := by
  refine ⟨h.toLinked.withoutFlags p, ?_⟩
  intro f hf e he hproject
  obtain ⟨c, hc, hfor⟩ := h.configured f (List.mem_filter.mp hf).1 e he hproject
  have hstays := Table.mem_cascade h.flagIds hf hc (ConfigRow.isFor_iff.mp hfor).1
  exact ⟨c, hstays, hfor⟩

theorem deleteProject {organizationId : Uuid} {key : String} {w : Written Nat}
    (h : Covered db) (hw : Sql.deleteProject organizationId key db = .ok w) : Covered w.db := by
  rcases Sql.deleteProject_cases hw with rfl | ⟨project, _, _, hdb⟩
  · exact h
  · rw [hdb]
    refine ((h.withoutEnvironments (·.projectId = project.id)).withoutFlags
      (·.projectId = project.id)).congr ?_ rfl rfl
    simp [Sql.withoutEnvironments]

/-! ### Writes -/

section

variable {input : Input} {projectId : Uuid}

/-- A new flag is seeded in every environment of its project. -/
theorem createFlag {key name : String} {description : Option String} {variants : List Variant}
    {offVariant : String} {fallthrough : Distribution} {w : Written FlagRow} (h : Covered db)
    (hw : Sql.createFlag input projectId key name description variants offVariant fallthrough db =
      .ok w) : Covered w.db := by
  obtain ⟨hrow, hdb⟩ := Sql.createFlag_cases hw
  obtain ⟨_, _, hvalue⟩ := Sql.insertFlag_cases hrow
  have hflags : w.db.flags = db.flags ++ [w.value] := by rw [hdb]
  have henvironments : w.db.environments = db.environments := by rw [hdb]
  refine ⟨h.toLinked.createFlag hw, ?_⟩
  intro f hf e he hproject
  rw [hflags] at hf
  rw [henvironments] at he
  rcases List.mem_append.mp hf with hf | hf
  · obtain ⟨c, hc, hfor⟩ := h.configured f hf e he hproject
    exact ⟨c, (mem_createFlag hw).mpr (.inl hc), hfor⟩
  · cases List.mem_singleton.mp hf
    have hsame : e.projectId = projectId := by rw [hproject, hvalue]
    exact ⟨_, (mem_createFlag hw).mpr (.inr ⟨e, he, hsame, rfl⟩), by simp [Sql.firstConfig]⟩

/-- A new environment is seeded with every flag of its project. -/
theorem createEnvironment {key name salt : String} {isProduction : Bool}
    {w : Written EnvironmentRow} (h : Covered db)
    (hw : Sql.createEnvironment input projectId key name salt isProduction db = .ok w) :
    Covered w.db := by
  obtain ⟨_, hrow, hmapped, hdb⟩ := Sql.createEnvironment_cases hw
  obtain ⟨_, _, hvalue⟩ := Sql.insertEnvironment_cases hrow
  have hflags : w.db.flags = db.flags := by rw [hdb]
  have henvironments : w.db.environments = db.environments ++ [w.value] := by rw [hdb]
  refine ⟨h.toLinked.createEnvironment hw, ?_⟩
  rw [hflags, henvironments]
  intro f hf e he hsame
  rcases List.mem_append.mp he with he | he
  · obtain ⟨c, hc, hfor⟩ := h.configured f hf e he hsame
    exact ⟨c, (mem_createEnvironment hw).mpr (.inl hc), hfor⟩
  · cases List.mem_singleton.mp he
    have hproject : f.projectId = projectId := by rw [← hsame, hvalue]
    have hin : f ∈ db.flags.filter (·.projectId = projectId) :=
      List.mem_filter.mpr ⟨hf, by simpa using hproject⟩
    obtain ⟨c, _, hseeded⟩ := (Sql.of_mapM hmapped).2 f hin
    exact ⟨c, (mem_createEnvironment hw).mpr (.inr ⟨f, hf, hproject, hseeded⟩),
      ConfigRow.isFor_iff.mpr (seededConfig_ids hseeded)⟩

/-- A patch moves no flag to another project. -/
theorem updateFlag {flagId : Uuid} {patch : FlagPatch} {w : Written (Option FlagRow)}
    (h : Covered db) (hw : Sql.updateFlag input flagId patch db = .ok w) : Covered w.db := by
  have hlinked := h.toLinked.updateFlag hw
  rcases Sql.updateFlag_cases hw with rfl | ⟨old, hold, rfl⟩
  · exact h
  · refine ⟨hlinked, ?_⟩
    intro f hf e he hproject
    rcases Table.mem_replace hf with rfl | ⟨hf, _⟩
    · exact h.configured old (List.mem_of_find?_eq_some hold) e he hproject
    · exact h.configured f hf e he hproject

/-- An upsert replaces a configuration by one of the same pair. -/
theorem upsertConfig {flagId environmentId : Uuid} {enabled : Bool} {offVariant : String}
    {fallthrough : Distribution} {rules : List Rule} {expectedVersion : Option Int64}
    {w : Written (Option ConfigRow)} (h : Covered db)
    (hproject : ∀ f ∈ db.flags, f.id = flagId → ∀ e ∈ db.environments, e.id = environmentId →
      e.projectId = f.projectId)
    (hw : Sql.upsertConfig input flagId environmentId enabled offVariant fallthrough rules
      expectedVersion db = .ok w) : Covered w.db := by
  have hlinked := h.toLinked.upsertConfig hproject hw
  rcases Sql.upsertConfig_db hw with hdb | ⟨row, version, configs, hrow, hdb, _, hmem, _⟩
  · rw [hdb]
    exact h
  · rw [hdb] at hlinked ⊢
    refine ⟨hlinked, ?_⟩
    intro f hf e he hsame
    obtain ⟨c, hc, hfor⟩ := h.configured f hf e he hsame
    by_cases hreplaced : c.isFor flagId environmentId = true
    · refine ⟨row, (hmem row).mpr (.inl rfl), ?_⟩
      rw [ConfigRow.isFor_iff] at hfor hreplaced ⊢
      rw [hrow]
      exact ⟨hreplaced.1.symm.trans hfor.1, hreplaced.2.symm.trans hfor.2⟩
    · exact ⟨c, (hmem c).mpr (.inr ⟨hc, Bool.eq_false_iff.mpr hreplaced⟩), hfor⟩

end

/-- Every statement leaves every pair configured. -/
theorem run {input : Input} {s : Stmt} {w : Written s.Result} (h : Covered db)
    (haimed : Aimed s db) (hw : s.run input db = .ok w) : Covered w.db := by
  cases s with
  | deleteProject => exact h.deleteProject hw
  | createEnvironment => exact h.createEnvironment hw
  | deleteEnvironment =>
      rw [(Sql.deleteEnvironment_cases hw).1]
      exact h.withoutEnvironments _
  | createFlag => exact h.createFlag hw
  | updateFlag => exact h.updateFlag hw
  | deleteFlag =>
      rw [(Sql.deleteFlag_cases hw).2.1]
      exact h.withoutFlags _
  | upsertConfig => exact h.upsertConfig haimed hw
  | insertProject =>
      obtain ⟨_, rfl⟩ := Sql.insertProject_cases hw
      exact h.congr rfl rfl rfl
  | insertSegment =>
      obtain ⟨_, _, _, rfl⟩ := Sql.insertSegment_cases hw
      exact h.congr rfl rfl rfl
  | updateSegment =>
      rcases Sql.updateSegment_cases hw with ⟨_, _, _, _, _, _, rfl⟩ | ⟨rfl, _⟩
      · exact h.congr rfl rfl rfl
      · exact h
  | deleteSegment =>
      rw [(Sql.deleteSegment_cases hw).1]
      exact h.congr rfl rfl rfl
  | insertExperiment =>
      obtain ⟨_, _, _, _, _, rfl⟩ := Sql.insertExperiment_cases hw
      exact h.congr rfl rfl rfl
  | updateExperiment | transitionExperiment =>
      rcases Sql.modifyExperiment_cases hw with rfl | ⟨_, _, _, _, _, rfl⟩
      · exact h
      · exact h.congr rfl rfl rfl
  | deleteExperiment =>
      rw [(Sql.deleteExperiment_cases hw).1]
      exact h.congr rfl rfl rfl
  | insertAudit =>
      obtain ⟨_, rfl⟩ := Sql.insertAudit_cases hw
      exact h.congr rfl rfl rfl
  | _ =>
      cases hw
      exact h

end Covered

end FlagForge.Storage
