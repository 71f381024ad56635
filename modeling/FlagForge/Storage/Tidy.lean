/-
Module: FlagForge.Storage.Tidy
Layer: Storage
Purpose: What holds of the tables whatever has been written: besides the links, the keys of flags and
  segments, the flags of experiments, and versions that start at one and count up.
Imports: FlagForge.Storage.Linked
Trusted boundary: none
Main exports: Tidy, Tidy.run, Stored, Stored.tidy
-/
import FlagForge.Storage.Linked

namespace FlagForge.Storage

open Sql (Input Written Stmt)

/-- Besides the links: what the unique indexes hold, whose flags the experiments have, and positive
    versions. -/
structure Tidy (db : Db) : Prop extends Linked db where
  flagKeys : ∀ f ∈ db.flags, ∀ g ∈ db.flags, f.projectId = g.projectId → f.key = g.key → f = g
  segmentKeys : ∀ s ∈ db.segments, ∀ t ∈ db.segments, s.environmentId = t.environmentId →
    s.key = t.key → s = t
  experimentKeys : ∀ x ∈ db.experiments, ∀ y ∈ db.experiments, x.environmentId = y.environmentId →
    x.key = y.key → x = y
  experimentFlag : ∀ x ∈ db.experiments, ∃ f ∈ db.flags, f.id = x.flagId
  configVersions : ∀ c ∈ db.flagConfigs, 0 < c.version
  segmentVersions : ∀ s ∈ db.segments, 0 < s.version
  experimentVersions : ∀ x ∈ db.experiments, 0 < x.version

/-- The states that committed writes lead to from the empty store. -/
inductive Stored : Db → Prop where
  | empty : Stored Db.empty
  | write {db : Db} {input : Input} {s : Stmt} {w : Written s.Result} (h : Stored db)
      (haimed : Aimed s db) (hw : s.run input db = .ok w) : Stored w.db

/-- A statement is a committed write or changes nothing. -/
theorem Stored.exec {db : Db} {input : Input} {s : Stmt} (h : Stored db) (haimed : Aimed s db) :
    Stored (Sql.exec input s db).2 := by
  rcases Sql.exec_db_cases input s db with heq | ⟨w, hw, heq⟩
  · rw [heq]
    exact h
  · rw [heq]
    exact .write h haimed hw

/-- Versions start at one. -/
theorem first_pos : (0 : Int64) < 1 := by
  decide

/-- A version that is bumped stays positive. -/
theorem pos_bumped {version : Int64} (h : version ≠ Int64.maxValue) (hpos : 0 < version) :
    0 < version + 1 := by
  rw [Int64.lt_iff_toInt_lt] at hpos ⊢
  rw [Sql.toInt_bumped h]
  omega

namespace Tidy

variable {db : Db}

theorem empty : Tidy Db.empty := by
  refine ⟨.empty, ?_, ?_, ?_, ?_, ?_, ?_, ?_⟩ <;> intro x hx <;> cases hx

/-- Fewer rows stay tidy as long as they stay linked and the experiments that are left keep their
    flag. -/
theorem of_subset {db' : Db} (h : Tidy db) (hlinked : Linked db')
    (hflags : ∀ f ∈ db'.flags, f ∈ db.flags) (hconfigs : ∀ c ∈ db'.flagConfigs, c ∈ db.flagConfigs)
    (hsegments : ∀ s ∈ db'.segments, s ∈ db.segments)
    (hexperiments : ∀ x ∈ db'.experiments, x ∈ db.experiments ∧ ∃ f ∈ db'.flags, f.id = x.flagId) :
    Tidy db' where
  toLinked := hlinked
  flagKeys f hf g hg := h.flagKeys f (hflags f hf) g (hflags g hg)
  segmentKeys s hs t ht := h.segmentKeys s (hsegments s hs) t (hsegments t ht)
  experimentKeys x hx y hy := h.experimentKeys x (hexperiments x hx).1 y (hexperiments y hy).1
  experimentFlag x hx := (hexperiments x hx).2
  configVersions c hc := h.configVersions c (hconfigs c hc)
  segmentVersions s hs := h.segmentVersions s (hsegments s hs)
  experimentVersions x hx := h.experimentVersions x (hexperiments x hx).1

/-- What a write to the experiments has to keep. -/
theorem withExperiments {experiments : List ExperimentRow} (h : Tidy db)
    (hkeys : ∀ x ∈ experiments, ∀ y ∈ experiments, x.environmentId = y.environmentId →
      x.key = y.key → x = y)
    (hflag : ∀ x ∈ experiments, ∃ f ∈ db.flags, f.id = x.flagId)
    (hversions : ∀ x ∈ experiments, 0 < x.version) : Tidy { db with experiments } :=
  ⟨h.toLinked.congr rfl rfl rfl, h.flagKeys, h.segmentKeys, hkeys, hflag, h.configVersions,
    h.segmentVersions, hversions⟩

/-- What a write to the segments has to keep. -/
theorem withSegments {segments : List SegmentRow} (h : Tidy db)
    (hkeys : ∀ s ∈ segments, ∀ t ∈ segments, s.environmentId = t.environmentId → s.key = t.key →
      s = t) (hversions : ∀ s ∈ segments, 0 < s.version) : Tidy { db with segments } :=
  ⟨h.toLinked.congr rfl rfl rfl, h.flagKeys, hkeys, h.experimentKeys, h.experimentFlag,
    h.configVersions, hversions, h.experimentVersions⟩

/-- What a write to the configurations has to keep. -/
theorem withConfigs {flagConfigs : List ConfigRow} (h : Tidy db)
    (hlinked : Linked { db with flagConfigs }) (hversions : ∀ c ∈ flagConfigs, 0 < c.version) :
    Tidy { db with flagConfigs } :=
  ⟨hlinked, h.flagKeys, h.segmentKeys, h.experimentKeys, h.experimentFlag, hversions,
    h.segmentVersions, h.experimentVersions⟩

/-- Environments take their rows along. -/
theorem withoutEnvironments {p : EnvironmentRow → Bool} (h : Tidy db)
    (hlinked : Linked (Sql.withoutEnvironments p db)) : Tidy (Sql.withoutEnvironments p db) := by
  apply h.of_subset hlinked
  · exact fun f hf => hf
  · exact fun c hc => (List.mem_filter.mp hc).1
  · exact fun s hs => (List.mem_filter.mp hs).1
  · exact fun x hx => ⟨(List.mem_filter.mp hx).1, h.experimentFlag x (List.mem_filter.mp hx).1⟩

section

variable {input : Input}

/-- A project is not deleted while an experiment would lose its flag. -/
theorem deleteProject {organizationId : Uuid} {key : String} {w : Written Nat} (h : Tidy db)
    (hlinked : Linked w.db) (hw : Sql.deleteProject organizationId key db = .ok w) : Tidy w.db := by
  have hrestrict := Sql.deleteProject_restricts hw
  rcases Sql.deleteProject_cases hw with rfl | ⟨project, _, _, hdb⟩
  · exact h
  apply h.of_subset hlinked
  · rw [hdb]
    exact fun f hf => (List.mem_filter.mp hf).1
  · rw [hdb]
    exact fun c hc => (List.mem_filter.mp (List.mem_filter.mp hc).1).1
  · rw [hdb]
    exact fun s hs => (List.mem_filter.mp hs).1
  · intro x hx
    have hmem : x ∈ db.experiments := by
      rw [hdb] at hx
      exact (List.mem_filter.mp hx).1
    obtain ⟨f, hf, hid⟩ := h.experimentFlag x hmem
    exact ⟨hmem, f, hrestrict x hx f hf hid, hid⟩

/-- The configurations that are seeded for a new environment are at their first version. -/
theorem createEnvironment {projectId : Uuid} {key name salt : String} {isProduction : Bool}
    {w : Written EnvironmentRow} (h : Tidy db) (hlinked : Linked w.db)
    (hw : Sql.createEnvironment input projectId key name salt isProduction db = .ok w) : Tidy w.db := by
  obtain ⟨_, _, _, hdb⟩ := Sql.createEnvironment_cases hw
  have hflags : w.db.flags = db.flags := by rw [hdb]
  refine ⟨hlinked, ?_, ?_, ?_, ?_, ?_, ?_, ?_⟩
  · exact hflags ▸ h.flagKeys
  · rw [hdb]
    exact h.segmentKeys
  · rw [hdb]
    exact h.experimentKeys
  · rw [hdb]
    exact h.experimentFlag
  · intro c hc
    rcases (mem_createEnvironment hw).mp hc with hc | ⟨f, _, _, hseeded⟩
    · exact h.configVersions c hc
    · rw [(Sql.seededConfig_cases hseeded).1]
      exact first_pos
  · rw [hdb]
    exact h.segmentVersions
  · rw [hdb]
    exact h.experimentVersions

/-- The key of a new flag is new in its project; its configurations are at their first version. -/
theorem createFlag {projectId : Uuid} {key name : String} {description : Option String}
    {variants : List Variant} {offVariant : String} {fallthrough : Distribution}
    {w : Written FlagRow} (h : Tidy db) (hlinked : Linked w.db)
    (hw : Sql.createFlag input projectId key name description variants offVariant fallthrough db =
      .ok w) : Tidy w.db := by
  obtain ⟨hrow, hdb⟩ := Sql.createFlag_cases hw
  obtain ⟨hfresh, _, hvalue⟩ := Sql.insertFlag_cases hrow
  have hflags : w.db.flags = db.flags ++ [w.value] := by rw [hdb]
  refine ⟨hlinked, ?_, ?_, ?_, ?_, ?_, ?_, ?_⟩
  · rw [hflags]
    refine Table.pairs_append h.flagKeys fun f hf hproject hkey => ?_
    rw [hvalue] at hproject hkey
    exact Bool.eq_false_iff.mp (hfresh f hf).2 (FlagRow.isFor_iff.mpr ⟨hproject, hkey⟩)
  · rw [hdb]
    exact h.segmentKeys
  · rw [hdb]
    exact h.experimentKeys
  · intro x hx
    rw [hflags]
    rw [hdb] at hx
    obtain ⟨f, hf, hid⟩ := h.experimentFlag x hx
    exact ⟨f, List.mem_append_left _ hf, hid⟩
  · intro c hc
    rcases (mem_createFlag hw).mp hc with hc | ⟨e, _, _, rfl⟩
    · exact h.configVersions c hc
    · exact first_pos
  · rw [hdb]
    exact h.segmentVersions
  · rw [hdb]
    exact h.experimentVersions

/-- A flag that is written keeps its identifier and its key. -/
theorem updateFlag {flagId : Uuid} {patch : Sql.FlagPatch} {w : Written (Option FlagRow)}
    (h : Tidy db) (hlinked : Linked w.db) (hw : Sql.updateFlag input flagId patch db = .ok w) :
    Tidy w.db := by
  rcases Sql.updateFlag_cases hw with rfl | ⟨old, hold, rfl⟩
  · exact h
  have hmem := List.mem_of_find?_eq_some hold
  have hid : old.id = flagId := by simpa using List.find?_some hold
  refine ⟨hlinked, ?_, h.segmentKeys, h.experimentKeys, ?_, h.configVersions, h.segmentVersions,
    h.experimentVersions⟩
  · intro f hf g hg hproject hkey
    rcases Table.mem_replace hf with rfl | ⟨hf, hne⟩ <;>
      rcases Table.mem_replace hg with rfl | ⟨hg, hne'⟩
    · rfl
    · rw [← h.flagKeys old hmem g hg hproject hkey] at hne'
      simp [hid] at hne'
    · rw [h.flagKeys f hf old hmem hproject hkey] at hne
      simp [hid] at hne
    · exact h.flagKeys f hf g hg hproject hkey
  · intro x hx
    obtain ⟨f, hf, hfid⟩ := h.experimentFlag x hx
    by_cases hthis : f.id = flagId
    · exact ⟨patch.apply input.now old, Table.mem_replace_self hold,
        hid.trans (hthis.symm.trans hfid)⟩
    · exact ⟨f, Table.mem_replace_of_ne hf (by simpa using hthis), hfid⟩

/-- A flag that an experiment is on is not deleted. -/
theorem deleteFlag {projectId : Uuid} {key : String} {w : Written Nat} (h : Tidy db)
    (hlinked : Linked w.db) (hw : Sql.deleteFlag projectId key db = .ok w) : Tidy w.db := by
  obtain ⟨hrestrict, hdb, _⟩ := Sql.deleteFlag_cases hw
  rw [hdb] at hlinked ⊢
  apply h.of_subset hlinked
  · exact fun f hf => (List.mem_filter.mp hf).1
  · exact fun c hc => (List.mem_filter.mp hc).1
  · exact fun s hs => hs
  · intro x hx
    obtain ⟨f, hf, hid⟩ := h.experimentFlag x hx
    refine ⟨hx, f, List.mem_filter.mpr ⟨hf, ?_⟩, hid⟩
    rw [Bool.not_eq_true', Bool.eq_false_iff]
    exact fun hdeleted => hrestrict x hx f hf hdeleted hid

/-- A configuration comes in at its first version or has it bumped. -/
theorem upsertConfig {flagId environmentId : Uuid} {enabled : Bool} {offVariant : String}
    {fallthrough : Distribution} {rules : List Rule} {expectedVersion : Option Int64}
    {w : Written (Option ConfigRow)} (h : Tidy db) (hlinked : Linked w.db)
    (hw : Sql.upsertConfig input flagId environmentId enabled offVariant fallthrough rules
      expectedVersion db = .ok w) : Tidy w.db := by
  rcases Sql.upsertConfig_cases hw with ⟨row, hrow, _, _, _, rfl⟩ |
    ⟨old, row, hold, _, hmax, hrow, rfl⟩ | ⟨_, _, _, rfl⟩
  · refine h.withConfigs hlinked fun c hc => ?_
    rcases List.mem_append.mp hc with hc | hc
    · exact h.configVersions c hc
    · cases List.mem_singleton.mp hc
      rw [hrow]
      exact first_pos
  · refine h.withConfigs hlinked fun c hc => ?_
    rcases Table.mem_replace hc with rfl | ⟨hc, _⟩
    · rw [hrow]
      exact pos_bumped hmax (h.configVersions old (List.mem_of_find?_eq_some hold))
    · exact h.configVersions c hc
  · exact h

/-- The key of a new segment is new in its environment. -/
theorem insertSegment {environmentId : Uuid} {key name : String} {description : Option String}
    {w : Written SegmentRow} (h : Tidy db)
    (hw : Sql.insertSegment input environmentId key name description db = .ok w) : Tidy w.db := by
  obtain ⟨_, hfresh, _, rfl⟩ := Sql.insertSegment_cases hw
  apply h.withSegments
  · exact Table.pairs_append h.segmentKeys fun t ht hsame hkey =>
      Bool.eq_false_iff.mp (hfresh t ht).2 (SegmentRow.isFor_iff.mpr ⟨hsame, hkey⟩)
  · intro t ht
    rcases List.mem_append.mp ht with ht | ht
    · exact h.segmentVersions t ht
    · cases List.mem_singleton.mp ht
      exact first_pos

/-- A segment that is written keeps its key and has its version bumped. -/
theorem updateSegment {environmentId : Uuid} {key : String} {patch : Sql.SegmentPatch}
    {expectedVersion : Option Int64} {w : Written (Option SegmentRow)} (h : Tidy db)
    (hw : Sql.updateSegment input environmentId key patch expectedVersion db = .ok w) :
    Tidy w.db := by
  rcases Sql.updateSegment_cases hw with ⟨old, row, hold, _, hmax, hrow, rfl⟩ | ⟨rfl, _⟩
  · have hmem := List.mem_of_find?_eq_some hold
    have hfor := SegmentRow.isFor_iff.mp (List.find?_some hold)
    have hsame : row.environmentId = environmentId ∧ row.key = key := by
      rw [hrow]
      exact hfor
    apply h.withSegments
    · intro s hs t ht henvironment hkey
      rcases Table.mem_replace hs with rfl | ⟨hs, hne⟩ <;>
        rcases Table.mem_replace ht with rfl | ⟨ht, hne'⟩
      · rfl
      · rw [hsame.1] at henvironment
        rw [hsame.2] at hkey
        simp [SegmentRow.isFor, henvironment, hkey] at hne'
      · rw [hsame.1] at henvironment
        rw [hsame.2] at hkey
        simp [SegmentRow.isFor, henvironment, hkey] at hne
      · exact h.segmentKeys s hs t ht henvironment hkey
    · intro s hs
      rcases Table.mem_replace hs with rfl | ⟨hs, _⟩
      · rw [hrow]
        exact pos_bumped hmax (h.segmentVersions old hmem)
      · exact h.segmentVersions s hs
  · exact h

theorem deleteSegment {environmentId : Uuid} {key : String} {w : Written Nat} (h : Tidy db)
    (hw : Sql.deleteSegment environmentId key db = .ok w) : Tidy w.db := by
  rw [(Sql.deleteSegment_cases hw).1]
  apply h.withSegments
  · exact fun s hs t ht => h.segmentKeys s (List.mem_filter.mp hs).1 t (List.mem_filter.mp ht).1
  · exact fun s hs => h.segmentVersions s (List.mem_filter.mp hs).1

/-- The key of a new experiment is new in its environment, and its flag is there. -/
theorem insertExperiment {environmentId flagId : Uuid} {key name : String} {description : Option String}
    {metricKey controlVariant : String} {w : Written Unit} (h : Tidy db)
    (hw : Sql.insertExperiment input environmentId flagId key name description metricKey controlVariant
      db = .ok w) : Tidy w.db := by
  obtain ⟨row, hrow, hfresh, _, hflag, rfl⟩ := Sql.insertExperiment_cases hw
  apply h.withExperiments
  · refine Table.pairs_append h.experimentKeys fun x hx hsame hkey => ?_
    rw [hrow] at hsame hkey
    exact Bool.eq_false_iff.mp (hfresh x hx).2 (ExperimentRow.isFor_iff.mpr ⟨hsame, hkey⟩)
  · intro x hx
    rcases List.mem_append.mp hx with hx | hx
    · exact h.experimentFlag x hx
    · cases List.mem_singleton.mp hx
      rw [hrow]
      exact hflag
  · intro x hx
    rcases List.mem_append.mp hx with hx | hx
    · exact h.experimentVersions x hx
    · cases List.mem_singleton.mp hx
      rw [hrow]
      exact first_pos

/-- An experiment that is written keeps its key and its flag. -/
theorem modifyExperiment {p : ExperimentRow → Bool} {change : ExperimentRow → ExperimentRow}
    {w : Written Nat} (h : Tidy db) (hflag : ∀ x, (change x).flagId = x.flagId)
    (hkey : ∀ x, (change x).environmentId = x.environmentId ∧ (change x).key = x.key)
    (hw : Sql.modifyExperiment input p change db = .ok w) : Tidy w.db := by
  rcases Sql.modifyExperiment_cases hw with rfl | ⟨old, row, hold, hmax, hrow, rfl⟩
  · exact h
  have hmem := List.mem_of_find?_eq_some hold
  have hsame : row.environmentId = old.environmentId ∧ row.key = old.key := by
    rw [hrow]
    exact hkey old
  apply h.withExperiments
  · intro x hx y hy henvironment hkeys
    rcases Table.mem_replace hx with rfl | ⟨hold', hne⟩ <;>
      rcases Table.mem_replace hy with rfl | ⟨hy, hne'⟩
    · rfl
    · rw [← h.experimentKeys old hmem y hy (hsame.1.symm.trans henvironment)
        (hsame.2.symm.trans hkeys), List.find?_some hold] at hne'
      cases hne'
    · rw [h.experimentKeys x hold' old hmem (henvironment.trans hsame.1) (hkeys.trans hsame.2),
        List.find?_some hold] at hne
      cases hne
    · exact h.experimentKeys x hold' y hy henvironment hkeys
  · intro x hx
    rcases Table.mem_replace hx with rfl | ⟨hx, _⟩
    · rw [hrow, hflag]
      exact h.experimentFlag old hmem
    · exact h.experimentFlag x hx
  · intro x hx
    rcases Table.mem_replace hx with rfl | ⟨hx, _⟩
    · rw [hrow]
      exact pos_bumped hmax (h.experimentVersions old hmem)
    · exact h.experimentVersions x hx

theorem deleteExperiment {environmentId : Uuid} {key : String} {w : Written Nat} (h : Tidy db)
    (hw : Sql.deleteExperiment environmentId key db = .ok w) : Tidy w.db := by
  rw [(Sql.deleteExperiment_cases hw).1]
  apply h.withExperiments
  · exact fun x hx y hy => h.experimentKeys x (List.mem_filter.mp hx).1 y (List.mem_filter.mp hy).1
  · exact fun x hx => h.experimentFlag x (List.mem_filter.mp hx).1
  · exact fun x hx => h.experimentVersions x (List.mem_filter.mp hx).1

end

/-- Every statement leaves the tables tidy. -/
theorem run {input : Input} {s : Stmt} {w : Written s.Result} (h : Tidy db) (haimed : Aimed s db)
    (hw : s.run input db = .ok w) : Tidy w.db := by
  have hlinked := h.toLinked.run haimed hw
  cases s with
  | insertProject =>
      obtain ⟨_, rfl⟩ := Sql.insertProject_cases hw
      exact ⟨hlinked, h.flagKeys, h.segmentKeys, h.experimentKeys, h.experimentFlag, h.configVersions,
        h.segmentVersions, h.experimentVersions⟩
  | deleteProject organizationId key => exact h.deleteProject hlinked hw
  | createEnvironment => exact h.createEnvironment hlinked hw
  | deleteEnvironment =>
      have hdb := (Sql.deleteEnvironment_cases hw).1
      rw [hdb] at hlinked ⊢
      exact h.withoutEnvironments hlinked
  | createFlag => exact h.createFlag hlinked hw
  | updateFlag => exact h.updateFlag hlinked hw
  | deleteFlag => exact h.deleteFlag hlinked hw
  | upsertConfig => exact h.upsertConfig hlinked hw
  | insertSegment => exact h.insertSegment hw
  | updateSegment => exact h.updateSegment hw
  | deleteSegment => exact h.deleteSegment hw
  | insertExperiment => exact h.insertExperiment hw
  | updateExperiment | transitionExperiment =>
      refine h.modifyExperiment ?_ ?_ hw
      · exact fun _ => rfl
      · exact fun _ => ⟨rfl, rfl⟩
  | deleteExperiment => exact h.deleteExperiment hw
  | insertAudit =>
      obtain ⟨_, rfl⟩ := Sql.insertAudit_cases hw
      exact ⟨hlinked, h.flagKeys, h.segmentKeys, h.experimentKeys, h.experimentFlag, h.configVersions,
        h.segmentVersions, h.experimentVersions⟩
  | _ =>
      cases hw
      exact h

end Tidy

/-- So whatever has been written, the tables are tidy. -/
theorem Stored.tidy {db : Db} (h : Stored db) : Tidy db := by
  induction h with
  | empty => exact .empty
  | write _ haimed hw ih => exact ih.run haimed hw

end FlagForge.Storage
