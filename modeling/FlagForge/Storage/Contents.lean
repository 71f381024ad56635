/-
Module: FlagForge.Storage.Contents
Layer: Storage
Purpose: What a snapshot of an environment reads, and that the notify triggers miss nothing: a write
  that does not notify an environment changes none of its reads.
Imports: FlagForge.Storage.Tidy, FlagForge.Storage.Queries
Trusted boundary: none
Main exports: SameReads, sameReads_of_not_notified
-/
import FlagForge.Storage.Tidy
import FlagForge.Storage.Queries

namespace FlagForge.Storage

open Sql (Input Written Stmt)

/-- The four reads of a load return the same. -/
structure SameReads (environmentId : Uuid) (db db' : Db) : Prop where
  salt : Sql.selectSalt environmentId db' = Sql.selectSalt environmentId db
  flags : Sql.selectEnvironmentFlags environmentId db' = Sql.selectEnvironmentFlags environmentId db
  segments : Sql.selectSegments environmentId db' = Sql.selectSegments environmentId db
  experiments : Sql.selectRunningExperiments environmentId db' =
    Sql.selectRunningExperiments environmentId db

/-- Whether the environment is there. -/
def Live (environmentId : Uuid) (db : Db) : Prop :=
  ∃ e ∈ db.environments, e.id = environmentId

section Reads

variable {environmentId : Uuid} {db db' : Db}

theorem SameReads.refl : SameReads environmentId db db :=
  ⟨rfl, rfl, rfl, rfl⟩

/-- The flags are read from the environment's configurations and the flags they are of. -/
theorem selectEnvironmentFlags_congr
    (hconfigs : db'.flagConfigs.filter (·.environmentId = environmentId) =
      db.flagConfigs.filter (·.environmentId = environmentId))
    (hflags : ∀ c ∈ db.flagConfigs, c.environmentId = environmentId →
      db'.flags.filter (fun f => f.id = c.flagId && !f.archived) =
        db.flags.filter fun f => f.id = c.flagId && !f.archived) :
    Sql.selectEnvironmentFlags environmentId db' = Sql.selectEnvironmentFlags environmentId db := by
  rw [Sql.selectEnvironmentFlags, Sql.selectEnvironmentFlags, hconfigs]
  congr 1
  apply List.flatMap_congr
  intro c hc
  obtain ⟨hc, henvironment⟩ := List.mem_filter.mp hc
  rw [hflags c hc (by simpa using henvironment)]

theorem selectSegments_congr
    (hsegments : db'.segments.filter (·.environmentId = environmentId) =
      db.segments.filter (·.environmentId = environmentId)) :
    Sql.selectSegments environmentId db' = Sql.selectSegments environmentId db := by
  rw [Sql.selectSegments, Sql.selectSegments, hsegments]

/-- The experiments are read with the keys of their flags. -/
theorem selectRunningExperiments_congr
    (hexperiments : db'.experiments.filter (fun x =>
        x.environmentId = environmentId && x.state = .running) =
      db.experiments.filter fun x => x.environmentId = environmentId && x.state = .running)
    (hflags : ∀ x ∈ db.experiments, x.environmentId = environmentId →
      (db'.flags.filter (·.id = x.flagId)).map FlagRow.key =
        (db.flags.filter (·.id = x.flagId)).map FlagRow.key) :
    Sql.selectRunningExperiments environmentId db' =
      Sql.selectRunningExperiments environmentId db := by
  rw [Sql.selectRunningExperiments, Sql.selectRunningExperiments, hexperiments]
  congr 1
  apply List.flatMap_congr
  intro x hx
  obtain ⟨hx, henvironment⟩ := List.mem_filter.mp hx
  have hkeys := hflags x hx (by simp at henvironment; exact henvironment.1)
  -- a specification takes nothing but the key from the flag
  have hmap : ∀ flags : List FlagRow,
      (flags.map fun f => (⟨x.key, f.key, x.metricKey, x.controlVariant, x.version⟩ :
        ExperimentSpec)) = (flags.map FlagRow.key).map fun key =>
          ⟨x.key, key, x.metricKey, x.controlVariant, x.version⟩ := by
    intro flags
    rw [List.map_map]
    rfl
  rw [hmap, hmap, hkeys]

/-- Environments are only added and removed. -/
theorem selectSalt_of_append {row : EnvironmentRow} (hlive : Live environmentId db)
    (henvironments : db'.environments = db.environments ++ [row]) :
    Sql.selectSalt environmentId db' = Sql.selectSalt environmentId db := by
  obtain ⟨e, he, hid⟩ := hlive
  have hfound : (db.environments.find? (·.id = environmentId)).isSome = true :=
    List.find?_isSome.mpr ⟨e, he, by simpa using hid⟩
  rw [Sql.selectSalt, Sql.selectSalt, henvironments, List.find?_append,
    Option.or_of_isSome hfound]

theorem selectSalt_of_subset (h : Linked db) (hlive : Live environmentId db')
    (henvironments : ∀ e ∈ db'.environments, e ∈ db.environments) :
    Sql.selectSalt environmentId db' = Sql.selectSalt environmentId db := by
  obtain ⟨e, he, hid⟩ := hlive
  obtain ⟨row, hrow⟩ := Option.isSome_iff_exists.mp (List.find?_isSome.mpr
    ⟨e, he, by simpa using hid⟩ : (db'.environments.find? (·.id = environmentId)).isSome = true)
  obtain ⟨row', hrow'⟩ := Option.isSome_iff_exists.mp (List.find?_isSome.mpr
    ⟨e, henvironments e he, by simpa using hid⟩ :
      (db.environments.find? (·.id = environmentId)).isSome = true)
  have hids : row.id = row'.id := by
    have hid := List.find?_some hrow
    have hid' := List.find?_some hrow'
    simp only [decide_eq_true_eq] at hid hid'
    exact hid.trans hid'.symm
  have hsame := h.environmentIds row (henvironments row (List.mem_of_find?_eq_some hrow)) row'
    (List.mem_of_find?_eq_some hrow') hids
  rw [Sql.selectSalt, Sql.selectSalt, hrow, hrow', hsame]

end Reads

/-! ### Writes that do not notify -/

section Writes

variable {environmentId : Uuid} {db : Db} {input : Input}

/-- Where an environment stays, deleting environments does not concern it. -/
theorem sameReads_withoutEnvironments {p : EnvironmentRow → Bool} (h : Linked db)
    (hlive : Live environmentId (Sql.withoutEnvironments p db)) :
    SameReads environmentId db (Sql.withoutEnvironments p db) := by
  have hlive' := hlive
  obtain ⟨e, he, hid⟩ := hlive'
  obtain ⟨he, hp⟩ := List.mem_filter.mp he
  have hkept : ((db.environments.filter p).map EnvironmentRow.id).contains environmentId = false :=
    hid ▸ Table.not_contains_key h.environmentIds he (by simpa using hp)
  constructor
  case salt => exact selectSalt_of_subset h hlive fun e he => (List.mem_filter.mp he).1
  case flags =>
    refine selectEnvironmentFlags_congr ?_ fun _ _ _ => rfl
    apply Table.filter_filter_of_imp
    intro c _ henvironment
    rw [decide_eq_true_eq] at henvironment
    rw [henvironment, hkept]
    rfl
  case segments =>
    apply selectSegments_congr
    apply Table.filter_filter_of_imp
    intro c _ henvironment
    rw [decide_eq_true_eq] at henvironment
    rw [henvironment, hkept]
    rfl
  case experiments =>
    refine selectRunningExperiments_congr ?_ fun _ _ _ => rfl
    apply Table.filter_filter_of_imp
    intro x _ henvironment
    rw [Bool.and_eq_true, decide_eq_true_eq] at henvironment
    rw [henvironment.1, hkept]
    rfl

/-- Deleting another project leaves the environment's reads. -/
theorem sameReads_deleteProject {organizationId : Uuid} {key : String} {w : Written Nat}
    (h : Tidy db) (hw : Sql.deleteProject organizationId key db = .ok w)
    (hlive : Live environmentId w.db) : SameReads environmentId db w.db := by
  have hrestrict := Sql.deleteProject_restricts hw
  rcases Sql.deleteProject_cases hw with rfl | ⟨project, _, _, hdb⟩
  · exact .refl
  have hlive' : Live environmentId (Sql.withoutEnvironments (·.projectId = project.id) db) := by
    rw [hdb] at hlive
    exact hlive
  have hrest := sameReads_withoutEnvironments h.toLinked hlive'
  obtain ⟨e, he, hid⟩ := hlive'
  obtain ⟨he, hother⟩ := List.mem_filter.mp he
  -- the environment is of another project, and so are the flags that are configured in it
  have hflag : ∀ c ∈ db.flagConfigs, c.environmentId = environmentId → ∀ f ∈ db.flags,
      f.id = c.flagId → f.projectId ≠ project.id := by
    intro c hc henvironment f hf hfid heq
    have hsame := h.sameProject c hc f hf hfid e he (hid.trans henvironment.symm)
    simp [hsame, heq] at hother
  constructor
  case salt => exact hdb ▸ hrest.salt
  case flags =>
    rw [← hrest.flags, hdb]
    apply selectEnvironmentFlags_congr
    · apply Table.filter_filter_of_imp
      intro c hc henvironment
      have hmem := (List.mem_filter.mp hc).1
      rw [Bool.not_eq_true', Bool.eq_false_iff, Ne, List.contains_iff_mem]
      intro hdoomed
      obtain ⟨f, hf, hfid⟩ := List.mem_map.mp hdoomed
      obtain ⟨hf, hproject⟩ := List.mem_filter.mp hf
      exact hflag c hmem (by simpa using henvironment) f hf hfid (by simpa using hproject)
    · intro c hc henvironment
      apply Table.filter_filter_of_imp
      intro f hf hselected
      rw [Bool.and_eq_true, decide_eq_true_eq] at hselected
      have hmem := (List.mem_filter.mp hc).1
      simpa using hflag c hmem henvironment f hf hselected.1
  case segments => exact hdb ▸ hrest.segments
  case experiments =>
    have hexperiments : w.db.experiments =
        (Sql.withoutEnvironments (·.projectId = project.id) db).experiments := by rw [hdb]
    have hflags : w.db.flags = db.flags.filter (·.projectId ≠ project.id) := by rw [hdb]
    rw [← hrest.experiments]
    refine selectRunningExperiments_congr (by rw [hexperiments]) fun x hx _ => ?_
    congr 1
    rw [hflags]
    apply Table.filter_filter_of_imp
    intro f hf hfid
    have hkept := hrestrict x (hexperiments ▸ hx) f hf (by simpa using hfid)
    rw [hflags] at hkept
    exact (List.mem_filter.mp hkept).2

/-- So does making another environment. -/
theorem sameReads_createEnvironment {projectId : Uuid} {key name salt : String}
    {isProduction : Bool} {w : Written EnvironmentRow}
    (hw : Sql.createEnvironment input projectId key name salt isProduction db = .ok w)
    (hlive : Live environmentId db) : SameReads environmentId db w.db := by
  obtain ⟨configs, hrow, hmapped, hdb⟩ := Sql.createEnvironment_cases hw
  obtain ⟨hfresh, _, hvalue⟩ := Sql.insertEnvironment_cases hrow
  have hother : w.value.id ≠ environmentId := by
    obtain ⟨e, he, hid⟩ := hlive
    rw [hvalue, ← hid]
    exact (hfresh e he).1.symm
  have hseeds : configs.filter (·.environmentId = environmentId) = [] := by
    rw [List.filter_eq_nil_iff]
    intro c hc
    obtain ⟨f, _, hseeded⟩ := (Sql.of_mapM hmapped).1 c hc
    simpa [(seededConfig_ids hseeded).2] using hother
  constructor
  case salt => exact selectSalt_of_append hlive (by rw [hdb])
  case flags =>
    rw [hdb]
    refine selectEnvironmentFlags_congr ?_ fun _ _ _ => rfl
    rw [List.filter_append, hseeds, List.append_nil]
  case segments =>
    rw [hdb]
    exact selectSegments_congr rfl
  case experiments =>
    rw [hdb]
    exact selectRunningExperiments_congr rfl fun _ _ _ => rfl

/-- A new flag that does not notify the environment has no configuration there, and does not show. -/
theorem sameReads_createFlag {projectId : Uuid} {key name : String} {description : Option String}
    {variants : List Variant} {offVariant : String} {fallthrough : Distribution}
    {w : Written FlagRow} (h : Tidy db)
    (hw : Sql.createFlag input projectId key name description variants offVariant fallthrough db =
      .ok w) (hnot : environmentId ∉ w.notified) : SameReads environmentId db w.db := by
  obtain ⟨hrow, hdb⟩ := Sql.createFlag_cases hw
  obtain ⟨hfresh, _, hvalue⟩ := Sql.insertFlag_cases hrow
  have hold := h.toLinked.flagId_ne_of_insertFlag hrow
  have hids : environmentId ∉ Sql.environmentIds projectId db := by
    rw [hdb] at hnot
    exact fun hmem => hnot (List.mem_append_left _ hmem)
  rw [hdb]
  constructor
  case salt => rfl
  case flags =>
    apply selectEnvironmentFlags_congr
    · have hseeds : ((Sql.environmentIds projectId db).map fun id =>
          Sql.firstConfig input w.value.id id offVariant fallthrough).filter
            (·.environmentId = environmentId) = [] := by
        rw [List.filter_eq_nil_iff]
        intro c hc
        obtain ⟨id, hid, rfl⟩ := List.mem_map.mp hc
        rw [decide_eq_true_eq]
        intro heq
        exact hids (heq ▸ hid)
      rw [List.filter_append, hseeds, List.append_nil]
    · intro c hc _
      apply Table.filter_append_of_neg
      simp [(hold c hc).symm]
  case segments => rfl
  case experiments =>
    refine selectRunningExperiments_congr rfl fun x hx _ => ?_
    rw [Table.filter_append_of_neg]
    obtain ⟨f, hf, hid⟩ := h.experimentFlag x hx
    rw [decide_eq_false_iff_not, hvalue, ← hid]
    exact (hfresh f hf).1.symm

/-- Nor does a change of such a flag. -/
theorem sameReads_updateFlag {flagId : Uuid} {patch : Sql.FlagPatch} {w : Written (Option FlagRow)}
    (h : Tidy db) (hw : Sql.updateFlag input flagId patch db = .ok w)
    (hlive : Live environmentId db) (hnot : environmentId ∉ w.notified) :
    SameReads environmentId db w.db := by
  rcases Sql.updateFlag_cases hw with rfl | ⟨old, hold, rfl⟩
  · exact .refl
  have hmem := List.mem_of_find?_eq_some hold
  have hid : old.id = flagId := by simpa using List.find?_some hold
  obtain ⟨e, he, heid⟩ := hlive
  have hother : e.projectId ≠ old.projectId := by
    intro heq
    apply hnot
    rw [← heid]
    exact List.mem_map_of_mem (List.mem_filter.mpr ⟨he, by simpa using heq⟩)
  constructor
  case salt => rfl
  case flags =>
    refine selectEnvironmentFlags_congr rfl fun c hc henvironment => ?_
    have hne : flagId ≠ c.flagId := fun heq =>
      hother (h.sameProject c hc old hmem (hid.trans heq) e he (heid.trans henvironment.symm))
    apply Table.filter_replace_of_disjoint
    · simp [Sql.FlagPatch.apply, hid, hne]
    · intro f _ hfid
      rw [decide_eq_true_eq] at hfid
      simp [hfid, hne]
  case segments => rfl
  case experiments =>
    refine selectRunningExperiments_congr rfl fun x _ _ => ?_
    have hrows : ∀ f ∈ db.flags, decide (f.id = flagId) = true → f = old := by
      intro f hf hfid
      exact h.flagIds f hf old hmem ((decide_eq_true_eq.mp hfid).trans hid.symm)
    rw [Table.filter_replace_of_same, Table.map_replace]
    · intro f hf hfid
      rw [hrows f (List.mem_filter.mp hf).1 hfid]
      rfl
    · intro f hf hfid
      rw [hrows f hf hfid]
      rfl

/-- Nor does its deletion. -/
theorem sameReads_deleteFlag {projectId : Uuid} {key : String} {w : Written Nat}
    (hw : Sql.deleteFlag projectId key db = .ok w) (hnot : environmentId ∉ w.notified) :
    SameReads environmentId db w.db := by
  obtain ⟨hrestrict, hdb, hnotified⟩ := Sql.deleteFlag_cases hw
  -- a configuration in the environment is not of a flag that is deleted
  have hkept : ∀ c ∈ db.flagConfigs, c.environmentId = environmentId →
      ((db.flags.filter (·.isFor projectId key)).map FlagRow.id).contains c.flagId = false := by
    intro c hc henvironment
    rw [Bool.eq_false_iff]
    intro hdoomed
    apply hnot
    rw [hnotified, ← henvironment]
    exact List.mem_append_right _ (List.mem_map_of_mem (List.mem_filter.mpr ⟨hc, hdoomed⟩))
  rw [hdb]
  constructor
  case salt => rfl
  case flags =>
    apply selectEnvironmentFlags_congr
    · apply Table.filter_filter_of_imp
      intro c hc henvironment
      rw [hkept c hc (by simpa using henvironment)]
      rfl
    · intro c hc henvironment
      apply Table.filter_filter_of_imp
      intro f hf hselected
      rw [Bool.and_eq_true, decide_eq_true_eq] at hselected
      rw [Bool.not_eq_true', Bool.eq_false_iff]
      intro hdoomed
      have hcontained : ((db.flags.filter (·.isFor projectId key)).map FlagRow.id).contains f.id =
          true := Table.contains_key hf hdoomed
      rw [hselected.1, hkept c hc henvironment] at hcontained
      cases hcontained
  case segments => rfl
  case experiments =>
    refine selectRunningExperiments_congr rfl fun x hx _ => ?_
    congr 1
    apply Table.filter_filter_of_imp
    intro f hf hfid
    rw [Bool.not_eq_true', Bool.eq_false_iff]
    exact fun hdoomed => hrestrict x hx f hf hdoomed (by simpa using hfid)

/-- Nor does a configuration that notifies another environment. -/
theorem sameReads_upsertConfig {flagId environmentId' : Uuid} {enabled : Bool}
    {offVariant : String} {fallthrough : Distribution} {rules : List Rule}
    {expectedVersion : Option Int64} {w : Written (Option ConfigRow)}
    (hw : Sql.upsertConfig input flagId environmentId' enabled offVariant fallthrough rules
      expectedVersion db = .ok w) (hnot : environmentId ∉ w.notified) :
    SameReads environmentId db w.db := by
  rcases Sql.upsertConfig_cases hw with ⟨row, hrow, _, _, _, rfl⟩ |
    ⟨old, row, _, _, _, hrow, rfl⟩ | ⟨_, _, _, rfl⟩
  · have hother : row.environmentId ≠ environmentId := by
      simpa [hrow, Sql.writtenConfig, eq_comm] using hnot
    refine ⟨rfl, selectEnvironmentFlags_congr ?_ fun _ _ _ => rfl, rfl, rfl⟩
    exact Table.filter_append_of_neg (by simpa using hother)
  · have hother : environmentId' ≠ environmentId := by simpa [eq_comm] using hnot
    refine ⟨rfl, selectEnvironmentFlags_congr ?_ fun _ _ _ => rfl, rfl, rfl⟩
    apply Table.filter_replace_of_disjoint
    · simpa [hrow, Sql.writtenConfig] using hother
    · intro c _ hfor
      rw [(ConfigRow.isFor_iff.mp hfor).2]
      simpa using hother
  · exact .refl

/-- Nor does an experiment that notifies another. -/
theorem sameReads_modifyExperiment (environmentId' : Uuid) {p : ExperimentRow → Bool}
    {change : ExperimentRow → ExperimentRow} {w : Written Nat}
    (hp : ∀ x, p x = true → x.environmentId = environmentId')
    (hchange : ∀ x, (change x).environmentId = x.environmentId)
    (hw : Sql.modifyExperiment input p change db = .ok w) (hnot : environmentId ∉ w.notified) :
    SameReads environmentId db w.db := by
  rcases Sql.modifyExperiment_cases hw with rfl | ⟨old, row, hold, _, hrow, rfl⟩
  · exact .refl
  have hin : row.environmentId = environmentId' := by
    rw [hrow]
    exact (hchange old).trans (hp old (List.find?_some hold))
  have hother : environmentId' ≠ environmentId := by simpa [hin, eq_comm] using hnot
  refine ⟨rfl, rfl, rfl, selectRunningExperiments_congr ?_ fun _ _ _ => rfl⟩
  apply Table.filter_replace_of_disjoint
  · simp [hin, hother]
  · intro x _ hx
    simp [hp x hx, hother]

/-- The triggers miss nothing: a write that does not notify a live environment changes none of its
    reads. -/
theorem sameReads_of_not_notified {s : Stmt} {w : Written s.Result} (h : Tidy db)
    (hw : s.run input db = .ok w) (hlive : Live environmentId db)
    (hlive' : Live environmentId w.db) (hnot : environmentId ∉ w.notified) :
    SameReads environmentId db w.db := by
  cases s with
  | insertProject =>
      obtain ⟨_, rfl⟩ := Sql.insertProject_cases hw
      exact ⟨rfl, rfl, rfl, rfl⟩
  | deleteProject => exact sameReads_deleteProject h hw hlive'
  | createEnvironment => exact sameReads_createEnvironment hw hlive
  | deleteEnvironment =>
      rw [(Sql.deleteEnvironment_cases hw).1] at hlive' ⊢
      exact sameReads_withoutEnvironments h.toLinked hlive'
  | createFlag => exact sameReads_createFlag h hw hnot
  | updateFlag => exact sameReads_updateFlag h hw hlive hnot
  | deleteFlag => exact sameReads_deleteFlag hw hnot
  | upsertConfig => exact sameReads_upsertConfig hw hnot
  | insertSegment =>
      obtain ⟨_, _, _, rfl⟩ := Sql.insertSegment_cases hw
      refine ⟨rfl, rfl, selectSegments_congr (Table.filter_append_of_neg ?_), rfl⟩
      simpa [eq_comm] using hnot
  | updateSegment =>
      rcases Sql.updateSegment_cases hw with ⟨old, row, hold, _, _, hrow, rfl⟩ | ⟨rfl, _⟩
      · refine ⟨rfl, rfl, selectSegments_congr (Table.filter_replace_of_disjoint ?_ ?_), rfl⟩
        · have hin : row.environmentId = old.environmentId := by rw [hrow]; rfl
          rw [hin, (SegmentRow.isFor_iff.mp (List.find?_some hold)).1]
          simpa [eq_comm] using hnot
        · intro t _ hfor
          rw [(SegmentRow.isFor_iff.mp hfor).1]
          simpa [eq_comm] using hnot
      · exact .refl
  | deleteSegment =>
      obtain ⟨hdb, hnotified⟩ := Sql.deleteSegment_cases hw
      rw [hdb]
      refine ⟨rfl, rfl, selectSegments_congr (Table.filter_filter_of_imp ?_), rfl⟩
      intro t ht henvironment
      rw [Bool.not_eq_true', Bool.eq_false_iff]
      intro hdoomed
      apply hnot
      rw [hnotified, ← decide_eq_true_eq.mp henvironment]
      exact List.mem_map_of_mem (List.mem_filter.mpr ⟨ht, hdoomed⟩)
  | insertExperiment =>
      obtain ⟨row, hrow, _, _, _, rfl⟩ := Sql.insertExperiment_cases hw
      refine ⟨rfl, rfl, rfl, selectRunningExperiments_congr (Table.filter_append_of_neg ?_)
        fun _ _ _ => rfl⟩
      rw [hrow]
      simp
  | updateExperiment environmentId' =>
      refine sameReads_modifyExperiment environmentId' ?_ ?_ hw hnot
      · exact fun x hx => (ExperimentRow.isFor_iff.mp hx).1
      · exact fun _ => rfl
  | transitionExperiment environmentId' =>
      refine sameReads_modifyExperiment environmentId' ?_ ?_ hw hnot
      · exact fun x hx => (ExperimentRow.isFor_iff.mp (Bool.and_eq_true_iff.mp hx).1).1
      · exact fun _ => rfl
  | deleteExperiment =>
      obtain ⟨hdb, hnotified⟩ := Sql.deleteExperiment_cases hw
      rw [hdb]
      refine ⟨rfl, rfl, rfl, selectRunningExperiments_congr (Table.filter_filter_of_imp ?_)
        fun _ _ _ => rfl⟩
      intro x hx hselected
      rw [Bool.not_eq_true', Bool.eq_false_iff]
      intro hdoomed
      apply hnot
      rw [Bool.and_eq_true, decide_eq_true_eq] at hselected
      rw [hnotified, ← hselected.1]
      exact List.mem_map_of_mem (List.mem_filter.mpr ⟨hx, hdoomed⟩)
  | insertAudit =>
      obtain ⟨_, rfl⟩ := Sql.insertAudit_cases hw
      exact ⟨rfl, rfl, rfl, rfl⟩
  | _ =>
      cases hw
      exact .refl

end Writes

end FlagForge.Storage
