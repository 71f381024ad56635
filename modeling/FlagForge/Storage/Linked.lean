/-
Module: FlagForge.Storage.Linked
Layer: Storage
Purpose: How flags, environments and configurations refer to each other. The unique indexes, the
  foreign keys and the triggers see to it, whatever is written, except that an upsert has to name a
  flag and an environment of one project.
Imports: FlagForge.Storage.Effects
Trusted boundary: none
Main exports: Linked, Aimed, Linked.run
-/
import FlagForge.Storage.Effects

namespace FlagForge.Storage

open Sql (Input Written Stmt FlagPatch)

/-- Identifiers and keys tell rows apart, and a configuration is of a stored flag in a stored
    environment of its project. -/
structure Linked (db : Db) : Prop where
  flagIds : ∀ f ∈ db.flags, ∀ g ∈ db.flags, f.id = g.id → f = g
  environmentIds : ∀ e ∈ db.environments, ∀ e' ∈ db.environments, e.id = e'.id → e = e'
  configKeys : ∀ c ∈ db.flagConfigs, ∀ d ∈ db.flagConfigs, c.flagId = d.flagId →
    c.environmentId = d.environmentId → c = d
  configFlag : ∀ c ∈ db.flagConfigs, ∃ f ∈ db.flags, f.id = c.flagId
  configEnvironment : ∀ c ∈ db.flagConfigs, ∃ e ∈ db.environments, e.id = c.environmentId
  sameProject : ∀ c ∈ db.flagConfigs, ∀ f ∈ db.flags, f.id = c.flagId →
    ∀ e ∈ db.environments, e.id = c.environmentId → e.projectId = f.projectId

/-- An upsert names a flag and an environment of one project; its callers look both up in one. -/
def Aimed (s : Stmt) (db : Db) : Prop :=
  match s with
  | .upsertConfig flagId environmentId .. =>
      ∀ f ∈ db.flags, f.id = flagId → ∀ e ∈ db.environments, e.id = environmentId →
        e.projectId = f.projectId
  | _ => True

/-! ### What the seeding statements add -/

section

variable {db : Db} {input : Input} {projectId : Uuid}

theorem mem_createFlag {key name : String} {description : Option String} {variants : List Variant}
    {offVariant : String} {fallthrough : Distribution} {w : Written FlagRow}
    (hw : Sql.createFlag input projectId key name description variants offVariant fallthrough db =
      .ok w) {c : ConfigRow} : c ∈ w.db.flagConfigs ↔ c ∈ db.flagConfigs ∨
        ∃ e ∈ db.environments, e.projectId = projectId ∧
          c = Sql.firstConfig input w.value.id e.id offVariant fallthrough := by
  rw [(Sql.createFlag_cases hw).2, List.mem_append]
  apply or_congr Iff.rfl
  constructor
  · intro hc
    obtain ⟨id, hmem, rfl⟩ := List.mem_map.mp hc
    obtain ⟨e, he, rfl⟩ := List.mem_map.mp hmem
    obtain ⟨he, hproject⟩ := List.mem_filter.mp he
    exact ⟨e, he, by simpa using hproject, rfl⟩
  · intro hc
    obtain ⟨e, he, hproject, rfl⟩ := hc
    exact List.mem_map_of_mem (List.mem_map_of_mem (List.mem_filter.mpr
      ⟨he, by simpa using hproject⟩))

theorem mem_createEnvironment {key name salt : String} {isProduction : Bool}
    {w : Written EnvironmentRow}
    (hw : Sql.createEnvironment input projectId key name salt isProduction db = .ok w)
    {c : ConfigRow} : c ∈ w.db.flagConfigs ↔ c ∈ db.flagConfigs ∨
      ∃ f ∈ db.flags, f.projectId = projectId ∧
        Sql.seededConfig input w.value.id f db = .ok c := by
  obtain ⟨configs, _, hmapped, hdb⟩ := Sql.createEnvironment_cases hw
  obtain ⟨hfrom, hto⟩ := Sql.of_mapM hmapped
  rw [hdb, List.mem_append]
  apply or_congr Iff.rfl
  constructor
  · intro hc
    obtain ⟨f, hf, hseeded⟩ := hfrom c hc
    obtain ⟨hf, hproject⟩ := List.mem_filter.mp hf
    exact ⟨f, hf, by simpa using hproject, hseeded⟩
  · intro hc
    obtain ⟨f, hf, hproject, hseeded⟩ := hc
    obtain ⟨d, hd, hseeded'⟩ := hto f (List.mem_filter.mpr ⟨hf, by simpa using hproject⟩)
    cases hseeded.symm.trans hseeded'
    exact hd

/-- A seed is of its flag, and in the new environment. -/
theorem seededConfig_ids {environmentId : Uuid} {flag : FlagRow} {c : ConfigRow}
    (h : Sql.seededConfig input environmentId flag db = .ok c) :
    c.flagId = flag.id ∧ c.environmentId = environmentId := by
  rw [(Sql.seededConfig_cases h).1]
  exact ⟨rfl, rfl⟩

end

namespace Linked

variable {db : Db}

theorem empty : Linked Db.empty := by
  constructor <;> intro x hx <;> cases hx

/-- Other tables do not matter. -/
theorem congr {db' : Db} (h : Linked db) (hflags : db'.flags = db.flags)
    (henvironments : db'.environments = db.environments)
    (hconfigs : db'.flagConfigs = db.flagConfigs) : Linked db' := by
  obtain ⟨_, environments, flags, configs, _, _, _⟩ := db'
  cases hflags
  cases henvironments
  cases hconfigs
  exact ⟨h.flagIds, h.environmentIds, h.configKeys, h.configFlag, h.configEnvironment,
    h.sameProject⟩

/-! ### Deletes -/

/-- Fewer rows stay linked as long as the configurations that are left keep their flag and their
    environment. -/
theorem of_subset {db' : Db} (h : Linked db) (hflags : ∀ f ∈ db'.flags, f ∈ db.flags)
    (henvironments : ∀ e ∈ db'.environments, e ∈ db.environments)
    (hconfigs : ∀ c ∈ db'.flagConfigs, c ∈ db.flagConfigs)
    (hflag : ∀ c ∈ db'.flagConfigs, ∃ f ∈ db'.flags, f.id = c.flagId)
    (henvironment : ∀ c ∈ db'.flagConfigs, ∃ e ∈ db'.environments, e.id = c.environmentId) :
    Linked db' where
  flagIds f hf g hg := h.flagIds f (hflags f hf) g (hflags g hg)
  environmentIds e he e' he' := h.environmentIds e (henvironments e he) e' (henvironments e' he')
  configKeys c hc d hd := h.configKeys c (hconfigs c hc) d (hconfigs d hd)
  configFlag := hflag
  configEnvironment := henvironment
  sameProject c hc f hf hid e he := h.sameProject c (hconfigs c hc) f (hflags f hf) hid e
    (henvironments e he)

/-- Environments take their configurations along. -/
theorem withoutEnvironments (h : Linked db) (p : EnvironmentRow → Bool) :
    Linked (Sql.withoutEnvironments p db) := by
  apply h.of_subset
  · exact fun f hf => hf
  · exact fun e he => (List.mem_filter.mp he).1
  · exact fun c hc => (List.mem_filter.mp hc).1
  · exact fun c hc => h.configFlag c (List.mem_filter.mp hc).1
  · exact fun c hc => Table.exists_of_cascade h.configEnvironment hc

/-- Flags take their configurations along. -/
theorem withoutFlags (h : Linked db) (p : FlagRow → Bool) :
    Linked { db with
      flags := db.flags.filter fun f => !p f
      flagConfigs := db.flagConfigs.filter fun c =>
        !((db.flags.filter p).map FlagRow.id).contains c.flagId } := by
  apply h.of_subset
  · exact fun f hf => (List.mem_filter.mp hf).1
  · exact fun e he => he
  · exact fun c hc => (List.mem_filter.mp hc).1
  · exact fun c hc => Table.exists_of_cascade h.configFlag hc
  · exact fun c hc => h.configEnvironment c (List.mem_filter.mp hc).1

theorem deleteProject {organizationId : Uuid} {key : String} {w : Written Nat}
    (h : Linked db) (hw : Sql.deleteProject organizationId key db = .ok w) : Linked w.db := by
  rcases Sql.deleteProject_cases hw with rfl | ⟨project, _, _, hdb⟩
  · exact h
  · rw [hdb]
    refine ((h.withoutEnvironments (·.projectId = project.id)).withoutFlags
      (·.projectId = project.id)).congr ?_ rfl rfl
    simp [Sql.withoutEnvironments]

/-! ### Writes -/

section

variable {input : Input} {projectId : Uuid}

/-- The identifier of a new flag is not one that a configuration refers to. -/
theorem flagId_ne_of_insertFlag {key name : String} {description : Option String}
    {variants : List Variant} {row : FlagRow} (h : Linked db)
    (hrow : Sql.insertFlag input projectId key name description variants db = .ok row) :
    ∀ c ∈ db.flagConfigs, c.flagId ≠ row.id := by
  obtain ⟨hfresh, _, hvalue⟩ := Sql.insertFlag_cases hrow
  intro c hc heq
  obtain ⟨f, hf, hid⟩ := h.configFlag c hc
  apply (hfresh f hf).1
  rw [hid, heq, hvalue]

/-- The identifier of a new environment is not one that a configuration refers to. -/
theorem environmentId_ne_of_insertEnvironment {key name salt : String} {isProduction : Bool}
    {row : EnvironmentRow} (h : Linked db)
    (hrow : Sql.insertEnvironment input projectId key name salt isProduction db = .ok row) :
    ∀ c ∈ db.flagConfigs, c.environmentId ≠ row.id := by
  obtain ⟨hfresh, _, hvalue⟩ := Sql.insertEnvironment_cases hrow
  intro c hc heq
  obtain ⟨e, he, hid⟩ := h.configEnvironment c hc
  apply (hfresh e he).1
  rw [hid, heq, hvalue]

theorem createFlag {key name : String} {description : Option String} {variants : List Variant}
    {offVariant : String} {fallthrough : Distribution} {w : Written FlagRow} (h : Linked db)
    (hw : Sql.createFlag input projectId key name description variants offVariant fallthrough db =
      .ok w) : Linked w.db := by
  obtain ⟨hrow, hdb⟩ := Sql.createFlag_cases hw
  obtain ⟨hfresh, _, hvalue⟩ := Sql.insertFlag_cases hrow
  have hnew : ∀ f ∈ db.flags, f.id ≠ w.value.id := fun f hf => by
    rw [hvalue]
    exact (hfresh f hf).1
  have hold := h.flagId_ne_of_insertFlag hrow
  have hflags : w.db.flags = db.flags ++ [w.value] := by rw [hdb]
  have henvironments : w.db.environments = db.environments := by rw [hdb]
  constructor
  case flagIds =>
    rw [hflags]
    exact Table.keys_append h.flagIds hnew
  case environmentIds =>
    rw [henvironments]
    exact h.environmentIds
  case configKeys =>
    intro c hc d hd hflag henvironment
    rcases (mem_createFlag hw).mp hc with hc | ⟨e, _, _, rfl⟩ <;>
      rcases (mem_createFlag hw).mp hd with hd | ⟨e', _, _, rfl⟩
    · exact h.configKeys c hc d hd hflag henvironment
    · exact absurd hflag (hold c hc)
    · exact absurd hflag.symm (hold d hd)
    · have hids : e.id = e'.id := henvironment
      rw [hids]
  case configFlag =>
    intro c hc
    rw [hflags]
    rcases (mem_createFlag hw).mp hc with hc | ⟨e, _, _, rfl⟩
    · obtain ⟨f, hf, hid⟩ := h.configFlag c hc
      exact ⟨f, List.mem_append_left _ hf, hid⟩
    · exact ⟨w.value, List.mem_append_right _ List.mem_cons_self, rfl⟩
  case configEnvironment =>
    intro c hc
    rw [henvironments]
    rcases (mem_createFlag hw).mp hc with hc | ⟨e, he, _, rfl⟩
    · exact h.configEnvironment c hc
    · exact ⟨e, he, rfl⟩
  case sameProject =>
    rw [hflags, henvironments]
    intro c hc f hf hid e he heid
    rcases (mem_createFlag hw).mp hc with hc | ⟨e', he', hproject, rfl⟩ <;>
      rcases List.mem_append.mp hf with hf | hf
    · exact h.sameProject c hc f hf hid e he heid
    · cases List.mem_singleton.mp hf
      exact absurd hid.symm (hold c hc)
    · exact absurd hid (hnew f hf)
    · cases List.mem_singleton.mp hf
      rw [h.environmentIds e he e' he' heid, hproject, hvalue]

theorem createEnvironment {key name salt : String} {isProduction : Bool}
    {w : Written EnvironmentRow} (h : Linked db)
    (hw : Sql.createEnvironment input projectId key name salt isProduction db = .ok w) :
    Linked w.db := by
  obtain ⟨_, hrow, _, hdb⟩ := Sql.createEnvironment_cases hw
  obtain ⟨hfresh, _, hvalue⟩ := Sql.insertEnvironment_cases hrow
  have hnew : ∀ e ∈ db.environments, e.id ≠ w.value.id := fun e he => by
    rw [hvalue]
    exact (hfresh e he).1
  have hproject : w.value.projectId = projectId := by rw [hvalue]
  have hold := h.environmentId_ne_of_insertEnvironment hrow
  have hflags : w.db.flags = db.flags := by rw [hdb]
  have henvironments : w.db.environments = db.environments ++ [w.value] := by rw [hdb]
  constructor
  case flagIds =>
    rw [hflags]
    exact h.flagIds
  case environmentIds =>
    rw [henvironments]
    exact Table.keys_append h.environmentIds hnew
  case configKeys =>
    intro c hc d hd hflag henvironment
    rcases (mem_createEnvironment hw).mp hc with hc | ⟨f, hf, _, hseeded⟩ <;>
      rcases (mem_createEnvironment hw).mp hd with hd | ⟨g, hg, _, hseeded'⟩
    · exact h.configKeys c hc d hd hflag henvironment
    · exact absurd (henvironment.trans (seededConfig_ids hseeded').2) (hold c hc)
    · exact absurd (henvironment.symm.trans (seededConfig_ids hseeded).2) (hold d hd)
    · have hids : f.id = g.id :=
        (seededConfig_ids hseeded).1.symm.trans (hflag.trans (seededConfig_ids hseeded').1)
      rw [h.flagIds f hf g hg hids, hseeded'] at hseeded
      exact (Except.ok.inj hseeded).symm
  case configFlag =>
    intro c hc
    rw [hflags]
    rcases (mem_createEnvironment hw).mp hc with hc | ⟨f, hf, _, hseeded⟩
    · exact h.configFlag c hc
    · exact ⟨f, hf, (seededConfig_ids hseeded).1.symm⟩
  case configEnvironment =>
    intro c hc
    rw [henvironments]
    rcases (mem_createEnvironment hw).mp hc with hc | ⟨f, _, _, hseeded⟩
    · obtain ⟨e, he, heid⟩ := h.configEnvironment c hc
      exact ⟨e, List.mem_append_left _ he, heid⟩
    · exact ⟨w.value, List.mem_append_right _ List.mem_cons_self, (seededConfig_ids hseeded).2.symm⟩
  case sameProject =>
    rw [hflags, henvironments]
    intro c hc f hf hfid e he heid
    rcases (mem_createEnvironment hw).mp hc with hc | ⟨g, hg, hsame, hseeded⟩ <;>
      rcases List.mem_append.mp he with he | he
    · exact h.sameProject c hc f hf hfid e he heid
    · cases List.mem_singleton.mp he
      exact absurd heid.symm (hold c hc)
    · exact absurd (heid.trans (seededConfig_ids hseeded).2) (hnew e he)
    · cases List.mem_singleton.mp he
      rw [hproject, h.flagIds f hf g hg (hfid.trans (seededConfig_ids hseeded).1), hsame]

/-- A patched flag stands where the flag stood. -/
theorem updateFlag {flagId : Uuid} {patch : FlagPatch} {w : Written (Option FlagRow)}
    (h : Linked db) (hw : Sql.updateFlag input flagId patch db = .ok w) : Linked w.db := by
  rcases Sql.updateFlag_cases hw with rfl | ⟨old, hold, rfl⟩
  · exact h
  have hmem := List.mem_of_find?_eq_some hold
  have hid : old.id = flagId := by simpa using List.find?_some hold
  -- a row of the new table stands for a row of the old one
  have hrow : ∀ f ∈ Table.replace (·.id = flagId) (patch.apply input.now old) db.flags,
      ∃ f' ∈ db.flags, f'.id = f.id ∧ f'.projectId = f.projectId ∧
        (f = f' ∧ f.id ≠ flagId ∨ f = patch.apply input.now old) := by
    intro f hf
    rcases Table.mem_replace hf with rfl | ⟨hf, hother⟩
    · exact ⟨old, hmem, rfl, rfl, .inr rfl⟩
    · exact ⟨f, hf, rfl, rfl, .inl ⟨rfl, by simpa using hother⟩⟩
  constructor
  case flagIds =>
    intro f hf g hg heq
    obtain ⟨f', _, _, _, hfrom⟩ := hrow f hf
    obtain ⟨g', _, _, _, hgfrom⟩ := hrow g hg
    rcases hfrom with ⟨rfl, hne⟩ | rfl <;> rcases hgfrom with ⟨rfl, hne'⟩ | rfl
    · exact h.flagIds f (by assumption) g (by assumption) heq
    · exact absurd (heq.trans hid) hne
    · exact absurd (heq.symm.trans hid) hne'
    · rfl
  case environmentIds => exact h.environmentIds
  case configKeys => exact h.configKeys
  case configFlag =>
    intro c hc
    obtain ⟨f, hf, hfid⟩ := h.configFlag c hc
    by_cases hthis : f.id = flagId
    · exact ⟨patch.apply input.now old, Table.mem_replace_self hold,
        hid.trans (hthis.symm.trans hfid)⟩
    · exact ⟨f, Table.mem_replace_of_ne hf (by simpa using hthis), hfid⟩
  case configEnvironment => exact h.configEnvironment
  case sameProject =>
    intro c hc f hf hfid e he heid
    obtain ⟨f', hf', hid', hproject, _⟩ := hrow f hf
    rw [← hproject]
    exact h.sameProject c hc f' hf' (hid'.trans hfid) e he heid

/-- Of an upsert that is aimed at one project. -/
theorem upsertConfig {flagId environmentId : Uuid} {enabled : Bool} {offVariant : String}
    {fallthrough : Distribution} {rules : List Rule} {expectedVersion : Option Int64}
    {w : Written (Option ConfigRow)} (h : Linked db)
    (hproject : ∀ f ∈ db.flags, f.id = flagId → ∀ e ∈ db.environments, e.id = environmentId →
      e.projectId = f.projectId)
    (hw : Sql.upsertConfig input flagId environmentId enabled offVariant fallthrough rules
      expectedVersion db = .ok w) : Linked w.db := by
  rcases Sql.upsertConfig_db hw with hdb | ⟨row, version, configs, hrow, hdb, _, hmem, hnew⟩
  · rw [hdb]
    exact h
  rw [hdb]
  have hflagId : row.flagId = flagId := by rw [hrow]; rfl
  have henvironmentId : row.environmentId = environmentId := by rw [hrow]; rfl
  -- the flag and the environment are there, be it for a row that is replaced or for a first one
  have hkeys : (∃ f ∈ db.flags, f.id = flagId) ∧ ∃ e ∈ db.environments, e.id = environmentId := by
    cases hfound : Sql.selectConfig flagId environmentId db with
    | none => exact hnew hfound
    | some old =>
        have hold := List.mem_of_find?_eq_some hfound
        have hfor := ConfigRow.isFor_iff.mp (List.find?_some hfound)
        rw [← hfor.1, ← hfor.2]
        exact ⟨h.configFlag old hold, h.configEnvironment old hold⟩
  constructor
  case flagIds => exact h.flagIds
  case environmentIds => exact h.environmentIds
  case configKeys =>
    intro c hc d hd hflag henvironment
    rcases (hmem c).mp hc with rfl | ⟨hc, hother⟩ <;> rcases (hmem d).mp hd with rfl | ⟨hd, hother'⟩
    · rfl
    · rw [← hflagId, ← henvironmentId, hflag, henvironment] at hother'
      simp [ConfigRow.isFor] at hother'
    · rw [← hflagId, ← henvironmentId, ← hflag, ← henvironment] at hother
      simp [ConfigRow.isFor] at hother
    · exact h.configKeys c hc d hd hflag henvironment
  case configFlag =>
    intro c hc
    rcases (hmem c).mp hc with rfl | ⟨hc, _⟩
    · rw [hflagId]
      exact hkeys.1
    · exact h.configFlag c hc
  case configEnvironment =>
    intro c hc
    rcases (hmem c).mp hc with rfl | ⟨hc, _⟩
    · rw [henvironmentId]
      exact hkeys.2
    · exact h.configEnvironment c hc
  case sameProject =>
    intro c hc f hf hfid e he heid
    rcases (hmem c).mp hc with rfl | ⟨hc, _⟩
    · exact hproject f hf (hfid.trans hflagId) e he (heid.trans henvironmentId)
    · exact h.sameProject c hc f hf hfid e he heid

end

/-- Every statement leaves the tables linked. -/
theorem run {input : Input} {s : Stmt} {w : Written s.Result} (h : Linked db) (haimed : Aimed s db)
    (hw : s.run input db = .ok w) : Linked w.db := by
  cases s with
  | insertProject =>
      obtain ⟨_, rfl⟩ := Sql.insertProject_cases hw
      exact h.congr rfl rfl rfl
  | deleteProject => exact h.deleteProject hw
  | createEnvironment => exact h.createEnvironment hw
  | deleteEnvironment =>
      rw [(Sql.deleteEnvironment_cases hw).1]
      exact h.withoutEnvironments _
  | createFlag => exact h.createFlag hw
  | updateFlag => exact h.updateFlag hw
  | deleteFlag =>
      rw [(Sql.deleteFlag_cases hw).2.1]
      exact h.withoutFlags _
  | upsertConfig => exact h.upsertConfig haimed hw
  | insertSegment =>
      obtain ⟨_, _, _, rfl⟩ := Sql.insertSegment_cases hw
      exact h.congr rfl rfl rfl
  | updateSegment =>
      rcases Sql.updateSegment_cases hw with ⟨_, _, _, _, _, _, rfl⟩ | ⟨rfl, _⟩
      · exact h.congr rfl rfl rfl
      · exact h
  | deleteSegment =>
      rw [(Sql.deleteSegment_cases hw).1]
      exact h.congr rfl rfl rfl
  | insertExperiment =>
      obtain ⟨_, _, _, _, _, rfl⟩ := Sql.insertExperiment_cases hw
      exact h.congr rfl rfl rfl
  | updateExperiment | transitionExperiment =>
      rcases Sql.modifyExperiment_cases hw with rfl | ⟨_, _, _, _, _, rfl⟩
      · exact h
      · exact h.congr rfl rfl rfl
  | deleteExperiment =>
      rw [(Sql.deleteExperiment_cases hw).1]
      exact h.congr rfl rfl rfl
  | insertAudit =>
      obtain ⟨_, rfl⟩ := Sql.insertAudit_cases hw
      exact h.congr rfl rfl rfl
  | _ =>
      cases hw
      exact h

end Linked

end FlagForge.Storage
