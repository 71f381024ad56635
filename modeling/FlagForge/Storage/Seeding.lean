/-
Module: FlagForge.Storage.Seeding
Layer: Storage
Purpose: A flag is configured in every environment of its project, as long as no create_flag reads
  the environments while a create_environment that has read the flags is still open, nor the other
  way round. Overlapping otherwise, the two miss each other's row.
Imports: FlagForge.Storage.ReadCommitted
Trusted boundary: none
Main exports: Configured, Tx.Ready, Tx.Apart, keepsConfigured, every_pair_configured
-/
import FlagForge.Storage.ReadCommitted

namespace FlagForge.Storage

open Sql (Input)

/-- The primary key of `flag_configs`. -/
def ConfigRow.key (row : ConfigRow) : Uuid × Uuid :=
  (row.flagId, row.environmentId)

/-- The keys are unique, the references hold, and in the project each flag is configured in each
    environment. -/
structure Configured (projectId : Uuid) (db : Db) : Prop where
  flagIds : (db.flags.map FlagRow.id).Nodup
  environmentIds : (db.environments.map EnvironmentRow.id).Nodup
  configKeys : (db.flagConfigs.map ConfigRow.key).Nodup
  configFlag : ∀ c ∈ db.flagConfigs, ∃ f ∈ db.flags, f.id = c.flagId
  configEnvironment : ∀ c ∈ db.flagConfigs, ∃ e ∈ db.environments, e.id = c.environmentId
  configured : ∀ f ∈ db.flags, ∀ e ∈ db.environments, f.projectId = projectId →
    e.projectId = projectId → ∃ c ∈ db.flagConfigs, c.isFor f.id e.id = true

/-- In the project, each flag has exactly one configuration in each environment. -/
theorem Configured.count_eq_one {projectId : Uuid} {db : Db} (h : Configured projectId db)
    {f : FlagRow} {e : EnvironmentRow} (hf : f ∈ db.flags) (he : e ∈ db.environments)
    (hfproject : f.projectId = projectId) (heproject : e.projectId = projectId) :
    db.flagConfigs.countP (·.isFor f.id e.id) = 1 := by
  obtain ⟨c, hc, hfor⟩ := h.configured f hf e he hfproject heproject
  have hkey : c.key = (f.id, e.id) := by
    obtain ⟨hflag, henvironment⟩ := ConfigRow.isFor_iff.mp hfor
    rw [ConfigRow.key, hflag, henvironment]
  have hmem : (f.id, e.id) ∈ db.flagConfigs.map ConfigRow.key :=
    List.mem_map.mpr ⟨c, hc, hkey⟩
  have hcount := List.count_eq_one_of_mem h.configKeys hmem
  rw [List.count, List.countP_map] at hcount
  rw [← hcount]
  apply List.countP_congr
  intro d _
  simp [ConfigRow.key]

namespace Tx

/-- The rows that its seeding statement has selected. -/
def configs (tx : Tx) : List ConfigRow :=
  match tx.seeding with
  | .pending => []
  | .selected configs | .inserted configs => configs

/-- What an open transaction promises: its own row is new, and once it has selected, the selected
    rows pair its own row with all that are committed. -/
structure Ready (projectId : Uuid) (db : Db) (tx : Tx) : Prop where
  flags : ∀ f ∈ tx.flags, ∀ g ∈ db.flags, g.id ≠ f.id
  environments : ∀ e ∈ tx.environments, ∀ e' ∈ db.environments, e'.id ≠ e.id
  keys : (tx.configs.map ConfigRow.key).Nodup
  own : ∀ c ∈ tx.configs, (∃ f ∈ tx.flags, f.id = c.flagId) ∨
    ∃ e ∈ tx.environments, e.id = c.environmentId
  pairs : tx.hasSelected = true → ∀ f ∈ (tx.visible db).flags, ∀ e ∈ (tx.visible db).environments,
    f.projectId = projectId → e.projectId = projectId → f ∈ tx.flags ∨ e ∈ tx.environments →
      ∃ c ∈ tx.configs, c.isFor f.id e.id = true
  referenced : tx.referenced db tx.inserted = true

/-- What two open transactions promise: their rows differ, and when both have selected, they are of
    one kind. -/
structure Apart (a b : Tx) : Prop where
  flags : ∀ f ∈ a.flags, ∀ g ∈ b.flags, f.id ≠ g.id
  environments : ∀ e ∈ a.environments, ∀ e' ∈ b.environments, e.id ≠ e'.id
  kinds : a.hasSelected = true → b.hasSelected = true → a.own.isFlag = b.own.isFlag

/-- A transaction selects only while those of the other kind that have selected are closed. -/
def SelectsApart (tx : Tx) (_ : Db) (others : List Tx) : Prop :=
  tx.seeding = .pending → ∀ other ∈ others, other.hasSelected = true →
    other.own.isFlag = tx.own.isFlag

theorem Apart.symm {a b : Tx} (h : Apart a b) : Apart b a where
  flags f hf g hg heq := h.flags g hg f hf heq.symm
  environments e he e' he' heq := h.environments e' he' e he heq.symm
  kinds hb ha := (h.kinds ha hb).symm

variable {projectId : Uuid} {db : Db} {tx : Tx}

theorem isFlag_of_mem {f : FlagRow} (h : f ∈ tx.flags) : tx.own.isFlag = true := by
  obtain ⟨_, own, _⟩ := tx
  cases own with
  | flag => rfl
  | environment => cases h

theorem isFlag_of_mem_environments {e : EnvironmentRow} (h : e ∈ tx.environments) :
    tx.own.isFlag = false := by
  obtain ⟨_, own, _⟩ := tx
  cases own with
  | flag => cases h
  | environment => rfl

theorem nodup_flags : (tx.flags.map FlagRow.id).Nodup := by
  obtain ⟨_, own, _⟩ := tx
  cases own with
  | flag => exact List.nodup_singleton _
  | environment => exact List.nodup_nil

theorem nodup_environments : (tx.environments.map EnvironmentRow.id).Nodup := by
  obtain ⟨_, own, _⟩ := tx
  cases own with
  | flag => exact List.nodup_nil
  | environment => exact List.nodup_singleton _

theorem referenced_iff {configs : List ConfigRow} : tx.referenced db configs = true ↔
    ∀ c ∈ configs, (∃ f ∈ (tx.visible db).flags, f.id = c.flagId) ∧
      ∃ e ∈ (tx.visible db).environments, e.id = c.environmentId := by
  simp [referenced]

/-! ### Steps of others -/

/-- A commit in between is harmless when both promises hold. -/
theorem Ready.commit {other : Tx} (h : Ready projectId db other) (happart : Apart tx other)
    (hselected : tx.hasSelected = true) : Ready projectId (tx.visible db) other where
  flags f hf g hg := by
    rcases List.mem_append.mp hg with hg | hg
    · exact h.flags f hf g hg
    · exact happart.flags g hg f hf
  environments e he e' he' := by
    rcases List.mem_append.mp he' with he' | he'
    · exact h.environments e he e' he'
    · exact happart.environments e' he' e he
  keys := h.keys
  own := h.own
  pairs hother f hf e he hfproject heproject hown := by
    have hkinds := happart.kinds hselected hother
    -- the row that was committed is on neither side of the pair
    have hnotFlag : f ∉ tx.flags := by
      intro hmem
      rcases hown with hown | hown
      · exact happart.flags f hmem f hown rfl
      · rw [isFlag_of_mem hmem, isFlag_of_mem_environments hown] at hkinds
        cases hkinds
    have hnotEnvironment : e ∉ tx.environments := by
      intro hmem
      rcases hown with hown | hown
      · rw [isFlag_of_mem_environments hmem, isFlag_of_mem hown] at hkinds
        cases hkinds
      · exact happart.environments e hmem e hown rfl
    apply h.pairs hother f _ e _ hfproject heproject hown
    · rcases List.mem_append.mp hf with hf | hf
      · exact List.mem_append_left _ ((List.mem_append.mp hf).resolve_right hnotFlag)
      · exact List.mem_append_right _ hf
    · rcases List.mem_append.mp he with he | he
      · exact List.mem_append_left _ ((List.mem_append.mp he).resolve_right hnotEnvironment)
      · exact List.mem_append_right _ he
  referenced := by
    have hbefore := referenced_iff.mp h.referenced
    apply referenced_iff.mpr
    intro c hc
    obtain ⟨⟨f, hf, hflag⟩, e, he, henvironment⟩ := hbefore c hc
    refine ⟨⟨f, ?_, hflag⟩, e, ?_, henvironment⟩
    · rcases List.mem_append.mp hf with hf | hf
      · exact List.mem_append_left _ (List.mem_append_left _ hf)
      · exact List.mem_append_right _ hf
    · rcases List.mem_append.mp he with he | he
      · exact List.mem_append_left _ (List.mem_append_left _ he)
      · exact List.mem_append_right _ he

/-- A delete in between is harmless when no inserted row references what is deleted. -/
theorem Ready.delete {db' : Db} (h : Ready projectId db tx) (hflags : ∀ f ∈ db'.flags, f ∈ db.flags)
    (henvironments : ∀ e ∈ db'.environments, e ∈ db.environments)
    (hflag : ∀ c ∈ tx.inserted, ∀ f ∈ db.flags, f.id = c.flagId → f ∈ db'.flags)
    (henvironment : ∀ c ∈ tx.inserted, ∀ e ∈ db.environments, e.id = c.environmentId →
      e ∈ db'.environments) : Ready projectId db' tx where
  flags f hf g hg := h.flags f hf g (hflags g hg)
  environments e he e' he' := h.environments e he e' (henvironments e' he')
  keys := h.keys
  own := h.own
  pairs hselected f hf e he := by
    apply h.pairs hselected f _ e _
    · rcases List.mem_append.mp hf with hf | hf
      · exact List.mem_append_left _ (hflags f hf)
      · exact List.mem_append_right _ hf
    · rcases List.mem_append.mp he with he | he
      · exact List.mem_append_left _ (henvironments e he)
      · exact List.mem_append_right _ he
  referenced := by
    have hbefore := referenced_iff.mp h.referenced
    apply referenced_iff.mpr
    intro c hc
    obtain ⟨⟨f, hf, hfid⟩, e, he, heid⟩ := hbefore c hc
    refine ⟨⟨f, ?_, hfid⟩, e, ?_, heid⟩
    · rcases List.mem_append.mp hf with hf | hf
      · exact List.mem_append_left _ (hflag c hc f hf hfid)
      · exact List.mem_append_right _ hf
    · rcases List.mem_append.mp he with he | he
      · exact List.mem_append_left _ (henvironment c hc e he heid)
      · exact List.mem_append_right _ he

/-! ### Own steps -/

/-- What `create_flag` selects pairs its flag with every environment. -/
theorem Ready.selectEnvironments {input : Input} {row : FlagRow} {offVariant : String}
    {fallthrough : Distribution} {seeding : Seeding} {configs : List ConfigRow}
    (h : Ready projectId db ⟨input, .flag row offVariant fallthrough, seeding⟩)
    (hdb : Configured projectId db)
    (hselect : select projectId ⟨input, .flag row offVariant fallthrough, seeding⟩ db =
      .ok configs) :
    Ready projectId db ⟨input, .flag row offVariant fallthrough, .selected configs⟩ := by
  have hids : Sql.environmentIds projectId
      (visible ⟨input, .flag row offVariant fallthrough, seeding⟩ db) =
        Sql.environmentIds projectId db := by
    simp [Sql.environmentIds, Tx.visible, Tx.environments]
  rw [select, hids] at hselect
  cases hselect
  have hnodup : (Sql.environmentIds projectId db).Nodup :=
    (List.Sublist.map _ List.filter_sublist).nodup hdb.environmentIds
  constructor
  case flags => exact h.flags
  case environments => exact h.environments
  case keys =>
    rw [configs, List.map_map]
    apply hnodup.map
    intro a b heq
    exact congrArg Prod.snd heq
  case own =>
    intro c hc
    obtain ⟨id, _, rfl⟩ := List.mem_map.mp hc
    exact .inl ⟨row, List.mem_cons_self, rfl⟩
  case pairs =>
    intro _ f hf e he _ heproject hown
    have hrow : f = row := by
      rcases hown with hown | hown
      · exact List.mem_singleton.mp hown
      · cases hown
    have hmem : e ∈ db.environments := (List.mem_append.mp he).resolve_right List.not_mem_nil
    refine ⟨Sql.firstConfig input row.id e.id offVariant fallthrough, ?_, ?_⟩
    · exact List.mem_map_of_mem (List.mem_map_of_mem (List.mem_filter.mpr
        ⟨hmem, by simpa using heproject⟩))
    · rw [hrow]
      simp [Sql.firstConfig]
  case referenced => rfl

/-- What `create_environment` selects pairs its environment with every flag. -/
theorem Ready.selectFlags {input : Input} {row : EnvironmentRow} {seeding : Seeding}
    {configs : List ConfigRow} (h : Ready projectId db ⟨input, .environment row, seeding⟩)
    (hdb : Configured projectId db)
    (hselect : select projectId ⟨input, .environment row, seeding⟩ db = .ok configs) :
    Ready projectId db ⟨input, .environment row, .selected configs⟩ := by
  obtain ⟨hfrom, hto⟩ := Sql.of_mapM hselect
  have hflags : (visible ⟨input, .environment row, seeding⟩ db).flags = db.flags :=
    List.append_nil _
  have hkeys : configs.map ConfigRow.key = ((db.flags.filter (·.projectId = projectId)).map
      FlagRow.id).map fun id => (id, row.id) := by
    rw [List.map_map, ← hflags]
    apply Sql.map_of_mapM _ hselect
    intro f c hc
    rw [(Sql.seededConfig_cases hc).1]
    rfl
  have hnodup : ((db.flags.filter (·.projectId = projectId)).map FlagRow.id).Nodup :=
    (List.Sublist.map _ List.filter_sublist).nodup hdb.flagIds
  constructor
  case flags => exact h.flags
  case environments => exact h.environments
  case keys =>
    change (configs.map ConfigRow.key).Nodup
    rw [hkeys]
    apply hnodup.map
    intro a b heq
    exact congrArg Prod.fst heq
  case own =>
    intro c hc
    obtain ⟨f, _, hseeded⟩ := hfrom c hc
    refine .inr ⟨row, List.mem_cons_self, ?_⟩
    rw [(Sql.seededConfig_cases hseeded).1]
    rfl
  case pairs =>
    intro _ f hf e he hfproject _ hown
    have hrow : e = row := by
      rcases hown with hown | hown
      · cases hown
      · exact List.mem_singleton.mp hown
    obtain ⟨c, hc, hseeded⟩ := hto f (List.mem_filter.mpr ⟨hf, by simpa using hfproject⟩)
    refine ⟨c, hc, ?_⟩
    rw [(Sql.seededConfig_cases hseeded).1, hrow]
    simp [Sql.firstConfig]
  case referenced => rfl

/-- The commit of a transaction that has inserted its rows. -/
theorem Ready.visible (h : Ready projectId db tx) (hdb : Configured projectId db)
    (hinserted : tx.inserted = tx.configs) (hselected : tx.hasSelected = true) :
    Configured projectId (tx.visible db) := by
  have hreferenced := referenced_iff.mp h.referenced
  constructor
  case flagIds =>
    change ((db.flags ++ tx.flags).map FlagRow.id).Nodup
    rw [List.map_append]
    apply List.nodup_append.mpr
    refine ⟨hdb.flagIds, nodup_flags, ?_⟩
    intro a ha b hb
    obtain ⟨g, hg, rfl⟩ := List.mem_map.mp ha
    obtain ⟨f, hf, rfl⟩ := List.mem_map.mp hb
    exact h.flags f hf g hg
  case environmentIds =>
    change ((db.environments ++ tx.environments).map EnvironmentRow.id).Nodup
    rw [List.map_append]
    apply List.nodup_append.mpr
    refine ⟨hdb.environmentIds, nodup_environments, ?_⟩
    intro a ha b hb
    obtain ⟨e', he', rfl⟩ := List.mem_map.mp ha
    obtain ⟨e, he, rfl⟩ := List.mem_map.mp hb
    exact h.environments e he e' he'
  case configKeys =>
    change ((db.flagConfigs ++ tx.inserted).map ConfigRow.key).Nodup
    rw [List.map_append, hinserted]
    apply List.nodup_append.mpr
    refine ⟨hdb.configKeys, h.keys, ?_⟩
    intro a ha b hb heq
    obtain ⟨d, hd, rfl⟩ := List.mem_map.mp ha
    obtain ⟨c, hc, rfl⟩ := List.mem_map.mp hb
    obtain ⟨hflag, henvironment⟩ := Prod.mk.inj heq
    -- the key names the transaction's own row, which no committed row references
    rcases h.own c hc with ⟨f, hf, hid⟩ | ⟨e, he, hid⟩
    · obtain ⟨g, hg, hgid⟩ := hdb.configFlag d hd
      exact h.flags f hf g hg (hgid.trans (hflag.trans hid.symm))
    · obtain ⟨e', he', hid'⟩ := hdb.configEnvironment d hd
      exact h.environments e he e' he' (hid'.trans (henvironment.trans hid.symm))
  case configFlag =>
    intro c hc
    rcases List.mem_append.mp hc with hc | hc
    · obtain ⟨f, hf, hid⟩ := hdb.configFlag c hc
      exact ⟨f, List.mem_append_left _ hf, hid⟩
    · exact (hreferenced c hc).1
  case configEnvironment =>
    intro c hc
    rcases List.mem_append.mp hc with hc | hc
    · obtain ⟨e, he, hid⟩ := hdb.configEnvironment c hc
      exact ⟨e, List.mem_append_left _ he, hid⟩
    · exact (hreferenced c hc).2
  case configured =>
    intro f hf e he hfproject heproject
    by_cases hown : f ∈ tx.flags ∨ e ∈ tx.environments
    · obtain ⟨c, hc, hfor⟩ := h.pairs hselected f hf e he hfproject heproject hown
      exact ⟨c, List.mem_append_right _ (hinserted ▸ hc), hfor⟩
    · have hold := (List.mem_append.mp hf).resolve_right fun hmem => hown (.inl hmem)
      have hold' := (List.mem_append.mp he).resolve_right fun hmem => hown (.inr hmem)
      obtain ⟨c, hc, hfor⟩ := hdb.configured f hold e hold' hfproject heproject
      exact ⟨c, List.mem_append_left _ hc, hfor⟩

section

variable {input : Input} {own : Own}

/-- With nothing selected, only the own row matters. -/
theorem ready_of_pending
    (hflags : ∀ f ∈ flags ⟨input, own, .pending⟩, ∀ g ∈ db.flags, g.id ≠ f.id)
    (henvironments : ∀ e ∈ environments ⟨input, own, .pending⟩, ∀ e' ∈ db.environments,
      e'.id ≠ e.id) : Ready projectId db ⟨input, own, .pending⟩ where
  flags := hflags
  environments := henvironments
  keys := List.nodup_nil
  own c hc := by cases hc
  pairs hselected := by cases hselected
  referenced := rfl

/-- Transactions whose rows have new identifiers are apart. -/
theorem apart_of_pending {other : Tx}
    (hflags : ∀ f ∈ flags ⟨input, own, .pending⟩, ∀ g ∈ other.flags, f.id ≠ g.id)
    (henvironments : ∀ e ∈ environments ⟨input, own, .pending⟩, ∀ e' ∈ other.environments,
      e.id ≠ e'.id) : Apart ⟨input, own, .pending⟩ other where
  flags := hflags
  environments := henvironments
  kinds hselected := by cases hselected

end

/-- A transaction that begins has a new row. -/
theorem ready_of_start {b : Begin} {opened : List Tx} (h : b.start projectId db opened = some tx) :
    Ready projectId db tx ∧ ∀ other ∈ opened, Apart tx other := by
  cases b with
  | createFlag input key name description variants offVariant fallthrough =>
      obtain ⟨row, hrow, h⟩ := Option.bind_eq_some_iff.mp h
      split at h
      · cases h
      · rename_i hothers
        cases h
        obtain ⟨hfresh, _, hvalue⟩ := Sql.insertFlag_cases (ok_of_toOption hrow)
        have hid : row.id = input.id := by rw [hvalue]
        constructor
        · apply ready_of_pending _ (fun e he => by cases he)
          intro f hf g hg
          cases List.mem_singleton.mp hf
          rw [hid]
          exact (hfresh g hg).1
        · intro other hother
          apply apart_of_pending _ (fun e he => by cases he)
          intro f hf g hg heq
          cases List.mem_singleton.mp hf
          apply hothers
          exact List.any_eq_true.mpr ⟨other, hother, List.any_eq_true.mpr ⟨g, hg, by simp [heq]⟩⟩
  | createEnvironment input key name salt isProduction =>
      obtain ⟨row, hrow, h⟩ := Option.bind_eq_some_iff.mp h
      split at h
      · cases h
      · rename_i hothers
        cases h
        obtain ⟨hfresh, _, hvalue⟩ := Sql.insertEnvironment_cases (ok_of_toOption hrow)
        have hid : row.id = input.id := by rw [hvalue]
        constructor
        · apply ready_of_pending (fun f hf => by cases hf)
          intro e he e' he'
          cases List.mem_singleton.mp he
          rw [hid]
          exact (hfresh e' he').1
        · intro other hother
          apply apart_of_pending (fun f hf => by cases hf)
          intro e he e' he' heq
          cases List.mem_singleton.mp he
          apply hothers
          exact List.any_eq_true.mpr
            ⟨other, hother, List.any_eq_true.mpr ⟨e', he', by simp [heq]⟩⟩

/-- One more statement of the seeding. -/
theorem Ready.advance {tx' : Tx} {others : List Tx} (h : Ready projectId db tx)
    (hdb : Configured projectId db) (hothers : ∀ other ∈ others, Apart tx other)
    (hguard : SelectsApart tx db others) (hadvance : tx.advance projectId db others = some tx') :
    Ready projectId db tx' ∧ ∀ other ∈ others, Apart tx' other := by
  obtain ⟨input, own, seeding⟩ := tx
  cases seeding with
  | pending =>
      obtain ⟨configs, hselect, rfl⟩ := Option.map_eq_some_iff.mp hadvance
      refine ⟨?_, fun other hother => ⟨(hothers other hother).flags,
        (hothers other hother).environments, fun _ hselected =>
          (hguard rfl other hother hselected).symm⟩⟩
      cases own with
      | flag => exact h.selectEnvironments hdb (ok_of_toOption hselect)
      | environment => exact h.selectFlags hdb (ok_of_toOption hselect)
  | selected configs =>
      simp only [Tx.advance] at hadvance
      split at hadvance
      · rename_i hchecked
        cases hadvance
        have hreferenced := (Bool.and_eq_true_iff.mp hchecked).1
        refine ⟨⟨h.flags, h.environments, h.keys, h.own, h.pairs, hreferenced⟩,
          fun other hother => ⟨(hothers other hother).flags, (hothers other hother).environments,
            (hothers other hother).kinds⟩⟩
      · cases hadvance
  | inserted => cases hadvance

/-- What a transaction that commits leaves. -/
theorem commit_cases {db' : Db} (h : tx.commit db = some db') :
    db' = tx.visible db ∧ tx.inserted = tx.configs ∧ tx.hasSelected = true := by
  obtain ⟨_, _, seeding⟩ := tx
  cases seeding with
  | pending | selected => cases h
  | inserted =>
      cases h
      exact ⟨rfl, rfl, rfl⟩

end Tx

/-! ### Deletes -/

/-- Fewer rows stay configured as long as those that are left keep their references and their
    configurations. -/
theorem Configured.of_sublist {projectId : Uuid} {db db' : Db} (h : Configured projectId db)
    (hflags : db'.flags.Sublist db.flags) (henvironments : db'.environments.Sublist db.environments)
    (hconfigs : db'.flagConfigs.Sublist db.flagConfigs)
    (hflag : ∀ c ∈ db'.flagConfigs, ∃ f ∈ db'.flags, f.id = c.flagId)
    (henvironment : ∀ c ∈ db'.flagConfigs, ∃ e ∈ db'.environments, e.id = c.environmentId)
    (hkept : ∀ f ∈ db'.flags, ∀ e ∈ db'.environments, ∀ c ∈ db.flagConfigs,
      c.isFor f.id e.id = true → c ∈ db'.flagConfigs) : Configured projectId db' where
  flagIds := (hflags.map _).nodup h.flagIds
  environmentIds := (henvironments.map _).nodup h.environmentIds
  configKeys := (hconfigs.map _).nodup h.configKeys
  configFlag := hflag
  configEnvironment := henvironment
  configured f hf e he hfproject heproject := by
    obtain ⟨c, hc, hfor⟩ := h.configured f (hflags.subset hf) e (henvironments.subset he) hfproject
      heproject
    exact ⟨c, hkept f hf e he c hc hfor, hfor⟩

/-- A delete that does not have to wait. -/
theorem Delete.run_configured {d : Delete} {projectId : Uuid} {db db' : Db} {opened : List Tx}
    (hdb : Configured projectId db) (hopened : ∀ tx ∈ opened, Tx.Ready projectId db tx)
    (h : d.run projectId db opened = some db') :
    Configured projectId db' ∧ ∀ tx ∈ opened, Tx.Ready projectId db' tx := by
  have hflagIds : ∀ f ∈ db.flags, ∀ g ∈ db.flags, f.id = g.id → f = g :=
    fun f hf g hg => List.inj_on_of_nodup_map hdb.flagIds hf hg
  have henvironmentIds : ∀ e ∈ db.environments, ∀ e' ∈ db.environments, e.id = e'.id → e = e' :=
    fun e he e' he' => List.inj_on_of_nodup_map hdb.environmentIds he he'
  cases d with
  | flag key =>
      simp only [Delete.run] at h
      split at h
      · cases h
      · rename_i hfree
        obtain ⟨w, hw, rfl⟩ := Option.map_eq_some_iff.mp h
        obtain ⟨_, hdeleted, _⟩ := Sql.deleteFlag_cases (ok_of_toOption hw)
        rw [hdeleted]
        constructor
        · refine hdb.of_sublist ?_ ?_ ?_ ?_ ?_ ?_
          · exact List.filter_sublist
          · exact .refl _
          · exact List.filter_sublist
          · exact fun c hc => Table.exists_of_cascade hdb.configFlag hc
          · exact fun c hc => hdb.configEnvironment c (List.mem_filter.mp hc).1
          · exact fun f hf e he c hc hfor =>
              Table.mem_cascade hflagIds hf hc (ConfigRow.isFor_iff.mp hfor).1
        · intro tx htx
          refine (hopened tx htx).delete (fun f hf => (List.mem_filter.mp hf).1) (fun e he => he)
            ?_ (fun c hc e he _ => he)
          intro c hc f hf hid
          refine List.mem_filter.mpr ⟨hf, ?_⟩
          cases hdoomed : f.isFor projectId key with
          | false => rfl
          | true =>
              refine absurd (List.any_eq_true.mpr ⟨tx, htx, List.any_eq_true.mpr ⟨c, hc, ?_⟩⟩) hfree
              rw [← hid]
              exact Table.contains_key hf hdoomed
  | environment key =>
      simp only [Delete.run] at h
      split at h
      · cases h
      · rename_i hfree
        obtain ⟨w, hw, rfl⟩ := Option.map_eq_some_iff.mp h
        obtain ⟨hdeleted, _⟩ := Sql.deleteEnvironment_cases (ok_of_toOption hw)
        rw [hdeleted]
        constructor
        · refine hdb.of_sublist ?_ ?_ ?_ ?_ ?_ ?_
          · exact .refl _
          · exact List.filter_sublist
          · exact List.filter_sublist
          · exact fun c hc => hdb.configFlag c (List.mem_filter.mp hc).1
          · exact fun c hc => Table.exists_of_cascade hdb.configEnvironment hc
          · exact fun f hf e he c hc hfor =>
              Table.mem_cascade henvironmentIds he hc (ConfigRow.isFor_iff.mp hfor).2
        · intro tx htx
          refine (hopened tx htx).delete (fun f hf => hf) (fun e he => (List.mem_filter.mp he).1)
            (fun c hc f hf _ => hf) ?_
          intro c hc e he hid
          refine List.mem_filter.mpr ⟨he, ?_⟩
          cases hdoomed : e.isFor projectId key with
          | false => simp [hdoomed]
          | true =>
              refine absurd (List.any_eq_true.mpr ⟨tx, htx, List.any_eq_true.mpr ⟨c, hc, ?_⟩⟩) hfree
              rw [← hid]
              exact Table.contains_key he hdoomed

/-! ### Runs -/

/-- No step of the transactions breaks what they promise. -/
theorem keepsConfigured (projectId : Uuid) : Keeps (transactions projectId) Tx.SelectsApart
    (Configured projectId) (Tx.Ready projectId) Tx.Apart where
  symm h := h.symm
  start _ h := Tx.ready_of_start h
  advance hdb h hothers hguard hadvance := h.advance hdb hothers hguard hadvance
  commit hdb h hcommit := by
    obtain ⟨rfl, hinserted, hselected⟩ := Tx.commit_cases hcommit
    exact ⟨h.visible hdb hinserted hselected,
      fun other hother hready => hready.commit hother hselected⟩
  direct hdb hopened h := Delete.run_configured hdb hopened h

/-- From a project in which every flag is configured in every environment, transactions that select
    apart lead to such projects only, whatever is still open. -/
theorem every_pair_configured {projectId : Uuid} {db : Db} {s : Sessions Db Tx}
    (hdb : Configured projectId db)
    (hruns : Sessions.Runs (transactions projectId) Tx.SelectsApart ⟨db, []⟩ s) :
    ∀ f ∈ s.db.flags, ∀ e ∈ s.db.environments, f.projectId = projectId → e.projectId = projectId →
      s.db.flagConfigs.countP (·.isFor f.id e.id) = 1 := by
  have hstart : Keeps.Holds (Configured projectId) (Tx.Ready projectId) Tx.Apart ⟨db, []⟩ :=
    ⟨hdb, (fun tx htx => by cases htx), .nil⟩
  have hconfigured := ((keepsConfigured projectId).runs hruns hstart).1
  exact fun f hf e he => hconfigured.count_eq_one hf he

/-! ### A race in an empty project -/

namespace Race

def project : ProjectRow := ⟨⟨1⟩, ⟨0⟩, "shop", "Shop", none, 0⟩

def bare : Db := { Db.empty with projects := [project] }

def addCheckout : Begin :=
  .createFlag ⟨⟨3⟩, 0, false⟩ "checkout" "Checkout" none [⟨"on", .bool true⟩, ⟨"off", .bool false⟩]
    "off" (.fixed "on")

def addLive : Begin := .createEnvironment ⟨⟨2⟩, 0, false⟩ "live" "Live" "salt" false

theorem bare_configured : Configured project.id bare := by
  constructor
  case flagIds | environmentIds | configKeys => exact List.nodup_nil
  all_goals
    intro _ hmem
    cases hmem

/-- Both read the other table before either commits. -/
def overlapping : List (Sessions.Choice Begin Delete) :=
  [.start addCheckout, .start addLive, .advance 0, .advance 1, .advance 0, .advance 1, .commit 0,
    .commit 0]

/-- The environment first, and then the flag. -/
def inTurn : List (Sessions.Choice Begin Delete) :=
  alone addLive ++ (alone addCheckout ++ [])

/-- The state after a schedule. -/
def after (choices : List (Sessions.Choice Begin Delete)) : Sessions Db Tx :=
  (Sessions.follow (transactions project.id) choices ⟨bare, []⟩).getD ⟨bare, []⟩

end Race

/-- Both transactions commit, and the flag is not configured in the environment. -/
theorem overlapping_not_configured :
    Configured Race.project.id Race.bare ∧
    Sessions.Runs (transactions Race.project.id) (fun _ _ _ => True) ⟨Race.bare, []⟩
      (Race.after Race.overlapping) ∧
    (Race.after Race.overlapping).opened = [] ∧
    ∃ f ∈ (Race.after Race.overlapping).db.flags,
      ∃ e ∈ (Race.after Race.overlapping).db.environments,
        f.projectId = Race.project.id ∧ e.projectId = Race.project.id ∧
        (Race.after Race.overlapping).db.flagConfigs.countP (·.isFor f.id e.id) = 0 := by
  have hfollow : Sessions.follow (transactions Race.project.id) Race.overlapping ⟨Race.bare, []⟩ =
      some (Race.after Race.overlapping) := rfl
  refine ⟨Race.bare_configured, Sessions.runs_of_follow Sessions.allowed_unguarded hfollow, rfl, ?_⟩
  exact ⟨_, List.mem_cons_self, _, List.mem_cons_self, rfl, rfl, rfl⟩

/-- The schedule without an overlap is one of the runs that the theorem is about. -/
theorem every_pair_configured_inTurn :
    ∃ f ∈ (Race.after Race.inTurn).db.flags, ∃ e ∈ (Race.after Race.inTurn).db.environments,
      (Race.after Race.inTurn).db.flagConfigs.countP (·.isFor f.id e.id) = 1 := by
  have hfollow : Sessions.follow (transactions Race.project.id) Race.inTurn ⟨Race.bare, []⟩ =
      some (Race.after Race.inTurn) := rfl
  have hruns : Sessions.Runs (transactions Race.project.id) Tx.SelectsApart ⟨Race.bare, []⟩
      (Race.after Race.inTurn) := by
    apply Sessions.runs_of_follow _ hfollow
    apply allowed_alone
    · exact fun _ _ _ _ hother => by cases hother
    · exact fun _ => allowed_alone (fun _ _ _ _ hother => by cases hother) fun _ => trivial
  exact ⟨_, List.mem_cons_self, _, List.mem_cons_self,
    every_pair_configured Race.bare_configured hruns _ List.mem_cons_self _ List.mem_cons_self
      rfl rfl⟩

end FlagForge.Storage
