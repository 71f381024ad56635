/-
Module: FlagForge.Storage.Sound
Layer: Storage
Purpose: The invariant behind evaluable flags: the tables are linked, every flag is configured in
  every environment of its project, and every configuration is right for the variants of its flag.
  Deletes keep it as they are; the other writes keep it when what they write was checked.
Imports: FlagForge.Storage.Covered
Trusted boundary: none
Main exports: Sound, Sound.createFlag, Sound.createEnvironment, Sound.updateFlag, Sound.upsertConfig
-/
import FlagForge.Storage.Covered

namespace FlagForge.Storage

open Sql (Input Written FlagPatch)
open Validate (VariantsShape ConfigShape)

variable (crates : Crates)

/-- The keys a configuration may name. -/
def FlagRow.variantKeys (flag : FlagRow) : List String :=
  flag.variants.map Variant.key

/-- What holds of the tables between requests. -/
structure Sound (db : Db) : Prop extends Linked db where
  flagShape : ∀ f ∈ db.flags, Validate.isValidKey f.key = true ∧ VariantsShape f.variants
  configured : ∀ f ∈ db.flags, ∀ e ∈ db.environments, e.projectId = f.projectId →
    ∃ c ∈ db.flagConfigs, c.isFor f.id e.id = true
  configShape : ∀ c ∈ db.flagConfigs, ∀ f ∈ db.flags, f.id = c.flagId →
    ConfigShape crates f.variantKeys c.offVariant c.fallthrough c.rules

namespace Sound

variable {crates} {db : Db}

theorem empty : Sound crates Db.empty := by
  refine ⟨.empty, ?_, ?_, ?_⟩ <;> intro x hx <;> cases hx

theorem covered (h : Sound crates db) : Covered db :=
  ⟨h.toLinked, h.configured⟩

/-- Other tables do not matter. -/
theorem congr {db' : Db} (h : Sound crates db) (hflags : db'.flags = db.flags)
    (henvironments : db'.environments = db.environments)
    (hconfigs : db'.flagConfigs = db.flagConfigs) : Sound crates db' := by
  obtain ⟨_, environments, flags, configs, _, _, _⟩ := db'
  cases hflags
  cases henvironments
  cases hconfigs
  exact ⟨h.toLinked.congr rfl rfl rfl, h.flagShape, h.configured, h.configShape⟩

/-! ### Deletes -/

/-- Fewer rows stay sound as long as every pair that is left is configured. -/
theorem of_subset {db' : Db} (h : Sound crates db) (hcovered : Covered db')
    (hflags : ∀ f ∈ db'.flags, f ∈ db.flags)
    (hconfigs : ∀ c ∈ db'.flagConfigs, c ∈ db.flagConfigs) : Sound crates db' where
  toLinked := hcovered.toLinked
  flagShape f hf := h.flagShape f (hflags f hf)
  configured := hcovered.configured
  configShape c hc f hf := h.configShape c (hconfigs c hc) f (hflags f hf)

/-- Environments take their configurations along. -/
theorem withoutEnvironments (h : Sound crates db) (p : EnvironmentRow → Bool) :
    Sound crates (Sql.withoutEnvironments p db) := by
  apply h.of_subset (h.covered.withoutEnvironments p)
  · exact fun f hf => hf
  · exact fun c hc => (List.mem_filter.mp hc).1

/-- Flags take their configurations along. -/
theorem withoutFlags (h : Sound crates db) (p : FlagRow → Bool) :
    Sound crates { db with
      flags := db.flags.filter fun f => !p f
      flagConfigs := db.flagConfigs.filter fun c =>
        !((db.flags.filter p).map FlagRow.id).contains c.flagId } := by
  apply h.of_subset (h.covered.withoutFlags p)
  · exact fun f hf => (List.mem_filter.mp hf).1
  · exact fun c hc => (List.mem_filter.mp hc).1

/-- Deleting an environment leaves the rest sound. -/
theorem deleteEnvironment {projectId : Uuid} {key : String} {w : Written Nat}
    (h : Sound crates db) (hw : Sql.deleteEnvironment projectId key db = .ok w) :
    Sound crates w.db := by
  rw [(Sql.deleteEnvironment_cases hw).1]
  exact h.withoutEnvironments _

/-- So does deleting a flag. -/
theorem deleteFlag {projectId : Uuid} {key : String} {w : Written Nat}
    (h : Sound crates db) (hw : Sql.deleteFlag projectId key db = .ok w) : Sound crates w.db := by
  rw [(Sql.deleteFlag_cases hw).2.1]
  exact h.withoutFlags _

/-- And a project. -/
theorem deleteProject {organizationId : Uuid} {key : String} {w : Written Nat}
    (h : Sound crates db) (hw : Sql.deleteProject organizationId key db = .ok w) :
    Sound crates w.db := by
  rcases Sql.deleteProject_cases hw with rfl | ⟨project, _, _, hdb⟩
  · exact h
  · rw [hdb]
    refine ((h.withoutEnvironments (·.projectId = project.id)).withoutFlags
      (·.projectId = project.id)).congr ?_ rfl rfl
    simp [Sql.withoutEnvironments]

/-! ### Flags -/

/-- A flag that was checked starts out sound in every environment of its project. -/
theorem createFlag {input : Input} {projectId : Uuid} {key name : String}
    {description : Option String} {variants : List Variant} {offVariant : String}
    {fallthrough : Distribution} {w : Written FlagRow} (h : Sound crates db)
    (hkey : Validate.isValidKey key = true) (hvariants : VariantsShape variants)
    (hconfig : ConfigShape crates (variants.map Variant.key) offVariant fallthrough [])
    (hw : Sql.createFlag input projectId key name description variants offVariant fallthrough db =
      .ok w) : Sound crates w.db := by
  obtain ⟨hrow, hdb⟩ := Sql.createFlag_cases hw
  obtain ⟨hfresh, _, hvalue⟩ := Sql.insertFlag_cases hrow
  have hold := h.toLinked.flagId_ne_of_insertFlag hrow
  have hflags : w.db.flags = db.flags ++ [w.value] := by rw [hdb]
  refine ⟨h.toLinked.createFlag hw, ?_, (h.covered.createFlag hw).configured, ?_⟩
  · intro f hf
    rw [hflags] at hf
    rcases List.mem_append.mp hf with hf | hf
    · exact h.flagShape f hf
    · cases List.mem_singleton.mp hf
      rw [hvalue]
      exact ⟨hkey, hvariants⟩
  · intro c hc f hf hid
    rw [hflags] at hf
    rcases (mem_createFlag hw).mp hc with hc | ⟨e', _, _, rfl⟩ <;>
      rcases List.mem_append.mp hf with hf | hf
    · exact h.configShape c hc f hf hid
    · cases List.mem_singleton.mp hf
      exact absurd hid.symm (hold c hc)
    · refine absurd (hid.trans ?_) (hfresh f hf).1
      rw [hvalue]
      rfl
    · cases List.mem_singleton.mp hf
      rw [FlagRow.variantKeys, hvalue]
      exact hconfig

/-- Variants that suit every configuration of the flag may replace those it has. -/
theorem updateFlag {input : Input} {flagId : Uuid} {patch : FlagPatch}
    {w : Written (Option FlagRow)} (h : Sound crates db)
    (hpatch : ∀ variants, patch.variants = some variants → ∀ f ∈ db.flags, f.id = flagId →
      VariantsShape variants ∧ ∀ c ∈ db.flagConfigs, c.flagId = flagId →
        ConfigShape crates (variants.map Variant.key) c.offVariant c.fallthrough c.rules)
    (hw : Sql.updateFlag input flagId patch db = .ok w) : Sound crates w.db := by
  have hcovered := h.covered.updateFlag hw
  rcases Sql.updateFlag_cases hw with rfl | ⟨old, hold, rfl⟩
  · exact h
  have hmem := List.mem_of_find?_eq_some hold
  have hid : old.id = flagId := by simpa using List.find?_some hold
  -- a row of the new table is an old one, or the patched one in the place of the old one
  have hrow : ∀ f ∈ Table.replace (·.id = flagId) (patch.apply input.now old) db.flags,
      f ∈ db.flags ∨ f = patch.apply input.now old := by
    intro f hf
    rcases Table.mem_replace hf with rfl | ⟨hf, _⟩
    · exact .inr rfl
    · exact .inl hf
  refine ⟨hcovered.toLinked, ?_, hcovered.configured, ?_⟩
  · intro f hf
    rcases hrow f hf with hf | rfl
    · exact h.flagShape f hf
    · obtain ⟨hvalid, hshape⟩ := h.flagShape old hmem
      refine ⟨hvalid, ?_⟩
      cases hvariants : patch.variants with
      | none => simpa [FlagPatch.apply, hvariants] using hshape
      | some variants =>
          simpa [FlagPatch.apply, hvariants] using (hpatch variants hvariants old hmem hid).1
  · intro c hc f hf hfid
    rcases hrow f hf with hf | rfl
    · exact h.configShape c hc f hf hfid
    · cases hvariants : patch.variants with
      | none =>
          simpa [FlagPatch.apply, FlagRow.variantKeys, hvariants] using
            h.configShape c hc old hmem hfid
      | some variants =>
          have hflag : c.flagId = flagId := hfid.symm.trans hid
          simpa [FlagPatch.apply, FlagRow.variantKeys, hvariants] using
            (hpatch variants hvariants old hmem hid).2 c hc hflag

/-! ### Configurations -/

/-- A configuration that suits the flag, in an environment of its project, may be written. -/
theorem upsertConfig {input : Input} {flagId environmentId : Uuid} {enabled : Bool}
    {offVariant : String} {fallthrough : Distribution} {rules : List Rule}
    {expectedVersion : Option Int64} {w : Written (Option ConfigRow)} (h : Sound crates db)
    (hproject : ∀ f ∈ db.flags, f.id = flagId → ∀ e ∈ db.environments, e.id = environmentId →
      e.projectId = f.projectId)
    (hshape : ∀ f ∈ db.flags, f.id = flagId →
      ConfigShape crates f.variantKeys offVariant fallthrough rules)
    (hw : Sql.upsertConfig input flagId environmentId enabled offVariant fallthrough rules
      expectedVersion db = .ok w) : Sound crates w.db := by
  have hcovered := h.covered.upsertConfig hproject hw
  rcases Sql.upsertConfig_db hw with hdb | ⟨row, version, configs, hrow, hdb, _, hmem, _⟩
  · rw [hdb]
    exact h
  rw [hdb] at hcovered ⊢
  refine ⟨hcovered.toLinked, h.flagShape, hcovered.configured, ?_⟩
  · intro c hc f hf hfid
    rcases (hmem c).mp hc with rfl | ⟨hc, _⟩
    · rw [hrow] at hfid ⊢
      exact hshape f hf hfid
    · exact h.configShape c hc f hf hfid

/-! ### Environments -/

/-- A new environment starts out with a sound configuration of every flag of its project. -/
theorem createEnvironment {input : Input} {projectId : Uuid} {key name salt : String}
    {isProduction : Bool} {w : Written EnvironmentRow} (h : Sound crates db)
    (hw : Sql.createEnvironment input projectId key name salt isProduction db = .ok w) :
    Sound crates w.db := by
  obtain ⟨_, _, _, hdb⟩ := Sql.createEnvironment_cases hw
  have hflags : w.db.flags = db.flags := by rw [hdb]
  refine ⟨h.toLinked.createEnvironment hw, ?_, (h.covered.createEnvironment hw).configured, ?_⟩
  · rw [hflags]
    exact h.flagShape
  · rw [hflags]
    intro c hc f hf hfid
    rcases (mem_createEnvironment hw).mp hc with hc | ⟨g, hg, _, hseeded⟩
    · exact h.configShape c hc f hf hfid
    · rw [h.flagIds f hf g hg (hfid.trans (seededConfig_ids hseeded).1)]
      obtain ⟨hfirst, hserved⟩ := Sql.seededConfig_cases hseeded
      have hrules : c.rules = [] := by rw [hfirst]; rfl
      rw [hrules]
      rcases hserved with ⟨reference, href, hoff, hfall⟩ | ⟨variant, _, hvariant, hoff, hfall⟩
      · obtain ⟨hmem, hflag⟩ := Sql.mem_of_referenceConfig href
        rw [hoff, hfall]
        exact (h.configShape reference hmem g hg hflag.symm).withoutRules
      · have hdefined := Sql.mem_of_defaultVariant hvariant
        rw [hoff, hfall]
        exact ⟨hdefined, .fixed hdefined, .nil, fun rule hrule => by cases hrule⟩

/-- A new environment with a fresh valid key and a valid name can always be created. -/
theorem createEnvironment_succeeds {input : Input} {projectId : Uuid} {key name salt : String}
    {isProduction : Bool} (h : Sound crates db) (hproject : ∃ p ∈ db.projects, p.id = projectId)
    (hkey : Validate.isValidKey key = true)
    (hfresh : Sql.selectEnvironment projectId key db = none) (hname : Sql.nameCheck name = true)
    (hid : ∀ e ∈ db.environments, e.id ≠ input.id) :
    ∃ w, Sql.createEnvironment input projectId key name salt isProduction db = .ok w ∧
      w.value ∈ w.db.environments := by
  have hunused : ∀ e ∈ db.environments, e.isFor projectId key = false :=
    fun e he => Bool.eq_false_iff.mpr (List.find?_eq_none.mp hfresh e he)
  obtain ⟨row, hrow⟩ : ∃ row,
      Sql.insertEnvironment input projectId key name salt isProduction db = .ok row := by
    refine ⟨⟨input.id, projectId, key, name, salt, isProduction, input.now⟩, ?_⟩
    have hunique : (db.environments.all fun e => !(e.id = input.id || e.isFor projectId key)) =
        true := List.all_eq_true.mpr fun e he => by simp [hid e he, hunused e he]
    have hforeign : (db.projects.any (·.id = projectId)) = true := by simpa using hproject
    simp only [Sql.insertEnvironment, Sql.keyCheck, hkey, hname, hunique, hforeign, Sql.require,
      Bool.and_self, if_true]
    rfl
  have hrowId : row.id = input.id := by rw [(Sql.insertEnvironment_cases hrow).2.2]
  -- every flag of the project has a configuration to copy, or at least a variant to serve
  obtain ⟨configs, hconfigs⟩ : ∃ configs, (db.flags.filter (·.projectId = projectId)).mapM
      (fun flag => Sql.seededConfig input row.id flag db) = .ok configs := by
    apply Sql.mapM_of_forall
    intro flag hflag
    have hnonempty := (h.flagShape flag (List.mem_filter.mp hflag).1).2.nonempty
    obtain ⟨variant, hvariant⟩ := Sql.exists_defaultVariant hnonempty
    cases hreference : Sql.referenceConfig flag.id db with
    | none => exact ⟨_, by rw [Sql.seededConfig, hreference, hvariant]; rfl⟩
    | some reference => exact ⟨_, by rw [Sql.seededConfig, hreference]; rfl⟩
  have hdisjoint : (db.flagConfigs.all fun c =>
      !configs.any (·.isFor c.flagId c.environmentId)) = true := by
    apply List.all_eq_true.mpr
    intro c hc
    obtain ⟨e, he, heid⟩ := h.configEnvironment c hc
    rw [Bool.not_eq_true', List.any_eq_false]
    intro seed hseed hfor
    obtain ⟨flag, _, hseeded⟩ := (Sql.of_mapM hconfigs).1 seed hseed
    have hseedId : seed.environmentId = row.id := by
      rw [(Sql.seededConfig_cases hseeded).1]
      rfl
    rw [ConfigRow.isFor_iff, hseedId, hrowId] at hfor
    exact hid e he (heid.trans hfor.2.symm)
  refine ⟨⟨row,
    { db with
      environments := db.environments ++ [row]
      flagConfigs := db.flagConfigs ++ configs },
    configs.map ConfigRow.environmentId⟩, ?_, List.mem_append_right _ List.mem_cons_self⟩
  rw [Sql.createEnvironment, hrow]
  change (((db.flags.filter (·.projectId = projectId)).mapM
    fun flag => Sql.seededConfig input row.id flag db) >>= _) = _
  rw [hconfigs]
  change (Sql.require _ _ >>= _) = _
  rw [hdisjoint]
  rfl

end Sound

end FlagForge.Storage
