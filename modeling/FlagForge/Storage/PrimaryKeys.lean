/-
Module: FlagForge.Storage.PrimaryKeys
Layer: Storage
Purpose: The primary keys of flags, environments and configurations: no table lists a key twice, in
  every state that committed writes lead to.
Imports: FlagForge.Storage.Seeding (the key of a configuration), FlagForge.Storage.Tidy
Trusted boundary: none
Main exports: PrimaryKeys, Stored.primaryKeys
-/
import FlagForge.Storage.Seeding
import FlagForge.Storage.Tidy

namespace FlagForge.Storage

open Sql (Stmt Input Written)

structure PrimaryKeys (db : Db) : Prop where
  flagIds : (db.flags.map FlagRow.id).Nodup
  environmentIds : (db.environments.map EnvironmentRow.id).Nodup
  configKeys : (db.flagConfigs.map ConfigRow.key).Nodup

/-- Rows that are appended list no key twice if they do not among themselves and are new. -/
theorem nodup_map_append {α κ : Type} {key : α → κ} {rows new : List α}
    (hrows : (rows.map key).Nodup) (hnew : (new.map key).Nodup)
    (hfresh : ∀ r ∈ rows, ∀ r' ∈ new, key r ≠ key r') : ((rows ++ new).map key).Nodup := by
  rw [List.map_append]
  apply List.nodup_append.mpr
  refine ⟨hrows, hnew, ?_⟩
  intro a ha b hb
  obtain ⟨r, hr, rfl⟩ := List.mem_map.mp ha
  obtain ⟨r', hr', rfl⟩ := List.mem_map.mp hb
  exact hfresh r hr r' hr'

theorem nodup_map_concat {α κ : Type} {key : α → κ} {rows : List α} {row : α}
    (hrows : (rows.map key).Nodup) (hfresh : ∀ r ∈ rows, key r ≠ key row) :
    ((rows ++ [row]).map key).Nodup := by
  have hnew : ([row].map key).Nodup := List.nodup_singleton (key row)
  apply nodup_map_append hrows hnew
  intro r hr r' hr'
  rw [List.mem_singleton.mp hr']
  exact hfresh r hr

namespace PrimaryKeys

variable {db : Db} {input : Input}

theorem empty : PrimaryKeys Db.empty :=
  ⟨List.nodup_nil, List.nodup_nil, List.nodup_nil⟩

/-- Fewer rows list no key twice. -/
theorem of_sublist {db' : Db} (h : PrimaryKeys db) (hflags : db'.flags.Sublist db.flags)
    (henvironments : db'.environments.Sublist db.environments)
    (hconfigs : db'.flagConfigs.Sublist db.flagConfigs) : PrimaryKeys db' :=
  ⟨(hflags.map _).nodup h.flagIds, (henvironments.map _).nodup h.environmentIds,
    (hconfigs.map _).nodup h.configKeys⟩

theorem deleteProject {organizationId : Uuid} {key : String} {w : Written Nat} (h : PrimaryKeys db)
    (hw : Sql.deleteProject organizationId key db = .ok w) : PrimaryKeys w.db := by
  rcases Sql.deleteProject_cases hw with rfl | ⟨project, _, _, hdb⟩
  · exact h
  rw [hdb]
  apply h.of_sublist
  · exact List.filter_sublist
  · exact List.filter_sublist
  · exact List.filter_sublist.trans List.filter_sublist

/-- The seeds of a new environment have a flag each. -/
theorem createEnvironment {projectId : Uuid} {key name salt : String} {isProduction : Bool}
    {w : Written EnvironmentRow} (h : PrimaryKeys db) (hlinked : Linked db)
    (hw : Sql.createEnvironment input projectId key name salt isProduction db = .ok w) :
    PrimaryKeys w.db := by
  obtain ⟨configs, hrow, hmapped, hdb⟩ := Sql.createEnvironment_cases hw
  obtain ⟨hfresh, _, hvalue⟩ := Sql.insertEnvironment_cases hrow
  have hkeys : configs.map ConfigRow.key =
      ((db.flags.filter (·.projectId = projectId)).map FlagRow.id).map fun id => (id, w.value.id) := by
    rw [List.map_map]
    apply Sql.map_of_mapM _ hmapped
    intro f c hc
    obtain ⟨hflag, henvironment⟩ := seededConfig_ids hc
    rw [ConfigRow.key, hflag, henvironment]
    rfl
  rw [hdb]
  constructor
  case flagIds => exact h.flagIds
  case environmentIds =>
    apply nodup_map_concat h.environmentIds
    intro e he
    rw [hvalue]
    exact (hfresh e he).1
  case configKeys =>
    apply nodup_map_append h.configKeys
    · rw [hkeys]
      apply ((List.filter_sublist.map _).nodup h.flagIds).map
      intro a b heq
      exact congrArg Prod.fst heq
    · intro c hc d hd heq
      obtain ⟨hfrom, _⟩ := Sql.of_mapM hmapped
      obtain ⟨f, _, hseeded⟩ := hfrom d hd
      have henvironment : c.environmentId = w.value.id :=
        (congrArg Prod.snd heq).trans (seededConfig_ids hseeded).2
      exact hlinked.environmentId_ne_of_insertEnvironment hrow c hc henvironment

/-- The configurations of a new flag have an environment each. -/
theorem createFlag {projectId : Uuid} {key name : String} {description : Option String}
    {variants : List Variant} {offVariant : String} {fallthrough : Distribution}
    {w : Written FlagRow} (h : PrimaryKeys db) (hlinked : Linked db)
    (hw : Sql.createFlag input projectId key name description variants offVariant fallthrough db =
      .ok w) : PrimaryKeys w.db := by
  obtain ⟨hrow, hdb⟩ := Sql.createFlag_cases hw
  obtain ⟨hfresh, _, hvalue⟩ := Sql.insertFlag_cases hrow
  have hnew : ∀ f ∈ db.flags, f.id ≠ w.value.id := by
    intro f hf
    rw [hvalue]
    exact (hfresh f hf).1
  have hids : (Sql.environmentIds projectId db).Nodup :=
    (List.filter_sublist.map _).nodup h.environmentIds
  rw [hdb]
  constructor
  case flagIds => exact nodup_map_concat h.flagIds hnew
  case environmentIds => exact h.environmentIds
  case configKeys =>
    apply nodup_map_append h.configKeys
    · rw [List.map_map]
      apply hids.map
      intro a b heq
      exact congrArg Prod.snd heq
    · intro c hc d hd heq
      obtain ⟨id, _, rfl⟩ := List.mem_map.mp hd
      obtain ⟨f, hf, hid⟩ := hlinked.configFlag c hc
      exact hnew f hf (hid.trans (congrArg Prod.fst heq))

theorem upsertConfig {flagId environmentId : Uuid} {enabled : Bool} {offVariant : String}
    {fallthrough : Distribution} {rules : List Rule} {expectedVersion : Option Int64}
    {w : Written (Option ConfigRow)} (h : PrimaryKeys db)
    (hw : Sql.upsertConfig input flagId environmentId enabled offVariant fallthrough rules
      expectedVersion db = .ok w) : PrimaryKeys w.db := by
  rcases Sql.upsertConfig_cases hw with ⟨row, hrow, hnone, _, _, rfl⟩ |
    ⟨old, row, hold, _, _, hrow, rfl⟩ | ⟨_, _, _, rfl⟩
  · refine ⟨h.flagIds, h.environmentIds, ?_⟩
    apply nodup_map_concat h.configKeys
    intro c hc heq
    rw [hrow] at heq
    obtain ⟨hflag, henvironment⟩ := Prod.mk.inj heq
    exact List.find?_eq_none.mp hnone c hc (ConfigRow.isFor_iff.mpr ⟨hflag, henvironment⟩)
  · refine ⟨h.flagIds, h.environmentIds, ?_⟩
    change ((Table.replace (·.isFor flagId environmentId) row db.flagConfigs).map
      ConfigRow.key).Nodup
    rw [Table.map_replace]
    · exact h.configKeys
    · intro c _ hfor
      obtain ⟨hflag, henvironment⟩ := ConfigRow.isFor_iff.mp hfor
      rw [hrow, ConfigRow.key, hflag, henvironment]
      rfl
  · exact h

/-- Every statement keeps the keys. -/
theorem run {s : Stmt} {w : Written s.Result} (h : PrimaryKeys db) (hlinked : Linked db)
    (hw : s.run input db = .ok w) : PrimaryKeys w.db := by
  cases s with
  | insertProject =>
      obtain ⟨_, rfl⟩ := Sql.insertProject_cases hw
      exact ⟨h.flagIds, h.environmentIds, h.configKeys⟩
  | deleteProject => exact h.deleteProject hw
  | createEnvironment => exact h.createEnvironment hlinked hw
  | deleteEnvironment =>
      rw [(Sql.deleteEnvironment_cases hw).1]
      exact h.of_sublist (List.Sublist.refl _) List.filter_sublist List.filter_sublist
  | createFlag => exact h.createFlag hlinked hw
  | updateFlag flagId patch =>
      rcases Sql.updateFlag_cases hw with rfl | ⟨old, hold, rfl⟩
      · exact h
      · refine ⟨?_, h.environmentIds, h.configKeys⟩
        change ((Table.replace (·.id = flagId) (patch.apply input.now old) db.flags).map
          FlagRow.id).Nodup
        rw [Table.map_replace]
        · exact h.flagIds
        · intro f _ hf
          have hid : old.id = flagId := by simpa using List.find?_some hold
          exact (of_decide_eq_true hf).trans hid.symm
  | deleteFlag =>
      rw [(Sql.deleteFlag_cases hw).2.1]
      exact h.of_sublist List.filter_sublist (List.Sublist.refl _) List.filter_sublist
  | upsertConfig => exact h.upsertConfig hw
  | insertSegment =>
      obtain ⟨_, _, _, rfl⟩ := Sql.insertSegment_cases hw
      exact ⟨h.flagIds, h.environmentIds, h.configKeys⟩
  | updateSegment =>
      rcases Sql.updateSegment_cases hw with ⟨_, _, _, _, _, _, rfl⟩ | ⟨rfl, _⟩
      · exact ⟨h.flagIds, h.environmentIds, h.configKeys⟩
      · exact h
  | deleteSegment =>
      rw [(Sql.deleteSegment_cases hw).1]
      exact ⟨h.flagIds, h.environmentIds, h.configKeys⟩
  | insertExperiment =>
      obtain ⟨_, _, _, _, _, rfl⟩ := Sql.insertExperiment_cases hw
      exact ⟨h.flagIds, h.environmentIds, h.configKeys⟩
  | updateExperiment | transitionExperiment =>
      rcases Sql.modifyExperiment_cases hw with rfl | ⟨_, _, _, _, _, rfl⟩
      · exact h
      · exact ⟨h.flagIds, h.environmentIds, h.configKeys⟩
  | deleteExperiment =>
      rw [(Sql.deleteExperiment_cases hw).1]
      exact ⟨h.flagIds, h.environmentIds, h.configKeys⟩
  | insertAudit =>
      obtain ⟨_, rfl⟩ := Sql.insertAudit_cases hw
      exact ⟨h.flagIds, h.environmentIds, h.configKeys⟩
  | _ =>
      cases hw
      exact h

end PrimaryKeys

theorem Stored.primaryKeys {db : Db} (h : Stored db) : PrimaryKeys db := by
  induction h with
  | empty => exact .empty
  | write hstored _ hw ih => exact ih.run hstored.tidy.toLinked hw

end FlagForge.Storage
