/-
Module: FlagForge.Storage.Measurable
Layer: Storage
Purpose: Whether an experiment that is not stopped is on a flag that is served in its environment, with a
  control among the variants of the flag. Statements keep it, as long as a patch of a flag spares the
  experiments on it and an experiment is drafted on such a flag.
Imports: FlagForge.Storage.Covered, FlagForge.Storage.Lifecycle
Trusted boundary: none
Main exports: Measures, Placed, Measurable, Sparing, Measurable.run, Measurable.served
-/
import FlagForge.Storage.Covered
import FlagForge.Storage.Lifecycle

namespace FlagForge.Storage

open Sql (Stmt Input Written FlagPatch)

/-- The flag is served and has the control. -/
def Measures (f : FlagRow) (controlVariant : String) : Prop :=
  f.archived = false ∧ ∃ v ∈ f.variants, v.key = controlVariant

/-- The flag of the experiment can be measured, in the project of its environment. -/
def Placed (db : Db) (x : ExperimentRow) : Prop :=
  ∃ f ∈ db.flags, f.id = x.flagId ∧ Measures f x.controlVariant ∧
    ∃ e ∈ db.environments, e.id = x.environmentId ∧ e.projectId = f.projectId

/-- Every pair is configured, and every experiment that is not stopped can be measured. -/
structure Measurable (db : Db) : Prop extends Covered db where
  placed : ∀ x ∈ db.experiments, x.state ≠ .stopped → Placed db x

/-- The patch archives no flag under the control, and keeps it. -/
def Spares (patch : FlagPatch) (controlVariant : String) : Prop :=
  patch.archived ≠ some true ∧
    ∀ variants, patch.variants = some variants → ∃ v ∈ variants, v.key = controlVariant

/-- What a statement needs so that experiments stay measurable. -/
def Sparing (s : Stmt) (db : Db) : Prop :=
  match s with
  | .updateFlag flagId patch => ∀ x ∈ db.experiments, x.flagId = flagId → x.state ≠ .stopped →
      Spares patch x.controlVariant
  | .insertExperiment environmentId flagId _ _ _ _ controlVariant =>
      ∃ f ∈ db.flags, f.id = flagId ∧ Measures f controlVariant ∧
        ∃ e ∈ db.environments, e.id = environmentId ∧ e.projectId = f.projectId
  | .transitionExperiment _ _ source target => Kind source target
  | _ => True

/-! ### Statements -/

/-- What a statement makes of the flags. A flag that an experiment measures is not taken away. -/
inductive FlagChange (input : Input) (s : Stmt) (before after : Db) : Prop where
  | fewer {p : FlagRow → Bool} (h : after.flags = before.flags.filter p)
      (hstays : ∀ x ∈ after.experiments, ∀ f ∈ before.flags, f.id = x.flagId → f ∈ after.flags)
  | created {row : FlagRow} (hfresh : ∀ f ∈ before.flags, f.id ≠ row.id)
      (h : after.flags = before.flags ++ [row])
  | patched {flagId : Uuid} {patch : FlagPatch} {old : FlagRow} (hs : s = .updateFlag flagId patch)
      (hold : before.flags.find? (·.id = flagId) = some old)
      (h : after.flags =
        Table.replace (·.id = flagId) (patch.apply input.now old) before.flags)
      (hexperiments : after.experiments = before.experiments)

section Statement

variable {input : Input} {s : Stmt} {db db' : Db}

theorem FlagChange.same (h : db'.flags = db.flags) : FlagChange input s db db' := by
  apply FlagChange.fewer (p := fun _ => true)
  · rw [List.filter_true]
    exact h
  · intro x _ f hf _
    rw [h]
    exact hf

theorem flagChange {w : Written s.Result} (hw : s.run input db = .ok w) :
    FlagChange input s db w.db := by
  cases s with
  | insertProject =>
      obtain ⟨_, rfl⟩ := Sql.insertProject_cases hw
      exact .same rfl
  | deleteProject =>
      have hrestrict := Sql.deleteProject_restricts hw
      rcases Sql.deleteProject_cases hw with rfl | ⟨project, _, _, hdb⟩
      · exact .same rfl
      · exact .fewer (by rw [hdb]) hrestrict
  | createEnvironment =>
      obtain ⟨_, _, _, hdb⟩ := Sql.createEnvironment_cases hw
      exact .same (by rw [hdb])
  | deleteEnvironment => exact .same (by rw [(Sql.deleteEnvironment_cases hw).1]; rfl)
  | createFlag =>
      obtain ⟨hrow, hdb⟩ := Sql.createFlag_cases hw
      obtain ⟨hfresh, _, hvalue⟩ := Sql.insertFlag_cases hrow
      refine .created (?_ : ∀ f ∈ db.flags, f.id ≠ w.value.id) (by rw [hdb])
      intro f hf
      rw [hvalue]
      exact (hfresh f hf).1
  | updateFlag flagId patch =>
      rcases Sql.updateFlag_cases hw with rfl | ⟨old, hold, rfl⟩
      · exact .same rfl
      · exact .patched rfl hold rfl rfl
  | deleteFlag =>
      obtain ⟨hrestrict, hdb, _⟩ := Sql.deleteFlag_cases hw
      rw [hdb]
      refine .fewer rfl ?_
      intro x hx f hf hid
      refine List.mem_filter.mpr ⟨hf, ?_⟩
      rw [Bool.not_eq_true', Bool.eq_false_iff]
      exact fun hdeleted => hrestrict x hx f hf hdeleted hid
  | upsertConfig =>
      rcases Sql.upsertConfig_cases hw with ⟨_, _, _, _, _, rfl⟩ | ⟨_, _, _, _, _, _, rfl⟩ |
        ⟨_, _, _, rfl⟩
      · exact .same rfl
      · exact .same rfl
      · exact .same rfl
  | insertSegment =>
      obtain ⟨_, _, _, rfl⟩ := Sql.insertSegment_cases hw
      exact .same rfl
  | updateSegment =>
      rcases Sql.updateSegment_cases hw with ⟨_, _, _, _, _, _, rfl⟩ | ⟨rfl, _⟩
      · exact .same rfl
      · exact .same rfl
  | deleteSegment => exact .same (by rw [(Sql.deleteSegment_cases hw).1])
  | insertExperiment =>
      obtain ⟨_, _, _, _, _, rfl⟩ := Sql.insertExperiment_cases hw
      exact .same rfl
  | updateExperiment | transitionExperiment =>
      rcases Sql.modifyExperiment_cases hw with rfl | ⟨_, _, _, _, _, rfl⟩
      · exact .same rfl
      · exact .same rfl
  | deleteExperiment => exact .same (by rw [(Sql.deleteExperiment_cases hw).1])
  | insertAudit =>
      obtain ⟨_, rfl⟩ := Sql.insertAudit_cases hw
      exact .same rfl
  | _ =>
      cases hw
      exact .same rfl

/-- A flag that can be measured still can be, after a statement that spares its experiments. -/
theorem measures_after {x : ExperimentRow} {f : FlagRow} (hchange : FlagChange input s db db')
    (hids : ∀ f ∈ db.flags, ∀ g ∈ db.flags, f.id = g.id → f = g) (hx : x ∈ db'.experiments)
    (hspares : ∀ flagId patch, s = .updateFlag flagId patch → x.flagId = flagId →
      Spares patch x.controlVariant)
    (hf : f ∈ db.flags) (hid : f.id = x.flagId) (hmeasures : Measures f x.controlVariant) :
    ∃ g ∈ db'.flags, g.id = x.flagId ∧ Measures g x.controlVariant ∧ g.projectId = f.projectId := by
  obtain ⟨hserved, hcontrol⟩ := hmeasures
  cases hchange with
  | fewer _ hstays => exact ⟨f, hstays x hx f hf hid, hid, ⟨hserved, hcontrol⟩, rfl⟩
  | created _ hafter =>
      rw [hafter]
      exact ⟨f, List.mem_append_left _ hf, hid, ⟨hserved, hcontrol⟩, rfl⟩
  | @patched flagId patch old hs hold hafter _ =>
      rw [hafter]
      have hfound := List.find?_some hold
      have holdId : old.id = flagId := of_decide_eq_true hfound
      by_cases hthis : f.id = flagId
      · obtain ⟨harchived, hvariants⟩ := hspares flagId patch hs (hid.symm.trans hthis)
        obtain rfl := hids f hf old (List.mem_of_find?_eq_some hold) (hthis.trans holdId.symm)
        refine ⟨patch.apply input.now f, Table.mem_replace_self hold, hid, ⟨?_, ?_⟩, rfl⟩
        · change patch.archived.getD f.archived = false
          cases hpatch : patch.archived with
          | none => exact hserved
          | some archived =>
              cases archived with
              | false => rfl
              | true => exact absurd hpatch harchived
        · change ∃ v ∈ patch.variants.getD f.variants, v.key = x.controlVariant
          cases hpatch : patch.variants with
          | none => exact hcontrol
          | some variants => exact hvariants variants hpatch
      · refine ⟨f, Table.mem_replace_of_ne hf ?_, hid, ⟨hserved, hcontrol⟩, rfl⟩
        exact decide_eq_false hthis

/-- An environment with an experiment is not deleted without it. -/
theorem environment_stays {x : ExperimentRow} {e : EnvironmentRow} {w : Written s.Result}
    (hw : s.run input db = .ok w) (hx : x ∈ w.db.experiments) (he : e ∈ db.environments)
    (hid : e.id = x.environmentId) : e ∈ w.db.environments := by
  cases s with
  | deleteProject =>
      rcases Sql.deleteProject_cases hw with rfl | ⟨project, _, _, hdb⟩
      · exact he
      · rw [hdb] at hx ⊢
        exact Table.mem_of_cascade he hx hid
  | createEnvironment =>
      obtain ⟨_, _, _, hdb⟩ := Sql.createEnvironment_cases hw
      rw [hdb]
      exact List.mem_append_left _ he
  | deleteEnvironment =>
      rw [(Sql.deleteEnvironment_cases hw).1] at hx ⊢
      exact Table.mem_of_cascade he hx hid
  | insertProject =>
      obtain ⟨_, rfl⟩ := Sql.insertProject_cases hw
      exact he
  | createFlag =>
      rw [(Sql.createFlag_cases hw).2]
      exact he
  | updateFlag =>
      rcases Sql.updateFlag_cases hw with rfl | ⟨_, _, rfl⟩
      · exact he
      · exact he
  | deleteFlag =>
      rw [(Sql.deleteFlag_cases hw).2.1]
      exact he
  | upsertConfig =>
      rcases Sql.upsertConfig_db hw with hdb | ⟨_, _, _, _, hdb, _⟩
      · rw [hdb]
        exact he
      · rw [hdb]
        exact he
  | insertSegment =>
      obtain ⟨_, _, _, rfl⟩ := Sql.insertSegment_cases hw
      exact he
  | updateSegment =>
      rcases Sql.updateSegment_cases hw with ⟨_, _, _, _, _, _, rfl⟩ | ⟨rfl, _⟩
      · exact he
      · exact he
  | deleteSegment =>
      rw [(Sql.deleteSegment_cases hw).1]
      exact he
  | insertExperiment =>
      obtain ⟨_, _, _, _, _, rfl⟩ := Sql.insertExperiment_cases hw
      exact he
  | updateExperiment | transitionExperiment =>
      rcases Sql.modifyExperiment_cases hw with rfl | ⟨_, _, _, _, _, rfl⟩
      · exact he
      · exact he
  | deleteExperiment =>
      rw [(Sql.deleteExperiment_cases hw).1]
      exact he
  | insertAudit =>
      obtain ⟨_, rfl⟩ := Sql.insertAudit_cases hw
      exact he
  | _ =>
      cases hw
      exact he

/-! ### The invariant -/

namespace Measurable

theorem empty : Measurable Db.empty := by
  refine ⟨.empty, ?_⟩
  intro x hx
  cases hx

/-- An experiment on a flag that a statement spares stays measurable. -/
theorem placed_after {x y : ExperimentRow} {w : Written s.Result} (h : Covered db)
    (hw : s.run input db = .ok w) (hy : y ∈ w.db.experiments)
    (hsame : y.flagId = x.flagId ∧ y.environmentId = x.environmentId ∧
      y.controlVariant = x.controlVariant)
    (hspares : ∀ flagId patch, s = .updateFlag flagId patch → x.flagId = flagId →
      Spares patch x.controlVariant)
    (hx : Placed db x) : Placed w.db y := by
  obtain ⟨hflagId, henvironmentId, hcontrol⟩ := hsame
  obtain ⟨f, hf, hid, hmeasures, e, he, heid, hproject⟩ := hx
  rw [← hflagId] at hid
  rw [← hcontrol] at hmeasures
  obtain ⟨g, hg, hgid, hgmeasures, hgproject⟩ := measures_after (flagChange hw) h.flagIds hy
    (fun flagId patch hs hthis => hcontrol ▸ hspares flagId patch hs (hflagId ▸ hthis)) hf hid
    hmeasures
  have hlocated := heid.trans henvironmentId.symm
  exact ⟨g, hg, hgid, hgmeasures, e, environment_stays hw hy he hlocated, hlocated,
    hproject.trans hgproject.symm⟩

/-- A sparing statement keeps experiments measurable. -/
theorem run {w : Written s.Result} (h : Measurable db) (haimed : Aimed s db)
    (hsparing : Sparing s db) (hw : s.run input db = .ok w) : Measurable w.db := by
  refine ⟨h.toCovered.run haimed hw, ?_⟩
  -- experiments that could be measured before
  have hafter : ∀ y ∈ w.db.experiments, ∀ x ∈ db.experiments, x.state ≠ .stopped →
      y.flagId = x.flagId ∧ y.environmentId = x.environmentId ∧
        y.controlVariant = x.controlVariant → Placed w.db y := by
    intro y hy x hx hstate hsame
    apply placed_after h.toCovered hw hy hsame _ (h.placed x hx hstate)
    intro flagId patch hs hid
    subst hs
    exact hsparing x hx hid hstate
  intro y hy hstate
  have hmem := hy
  cases change hw with
  | fewer hexperiments =>
      rw [hexperiments] at hmem
      exact hafter y hy y (List.mem_filter.mp hmem).1 hstate ⟨rfl, rfl, rfl⟩
  | created hs _ _ hexperiments =>
      rw [hexperiments] at hmem
      rcases List.mem_append.mp hmem with hmem | hmem
      · exact hafter y hy y hmem hstate ⟨rfl, rfl, rfl⟩
      · -- the new experiment is on a flag that was checked
        obtain rfl := List.mem_singleton.mp hmem
        subst hs
        exact placed_after h.toCovered hw hy ⟨rfl, rfl, rfl⟩ nofun hsparing
  | @updated x z _ _ _ _ _ hx hz hexperiments =>
      rw [hexperiments] at hmem
      rcases Table.mem_replace hmem with rfl | ⟨hmem, _⟩
      · rw [hz] at hstate
        apply hafter y hy x (List.mem_of_find?_eq_some hx) hstate
        rw [hz]
        exact ⟨rfl, rfl, rfl⟩
      · exact hafter y hy y hmem hstate ⟨rfl, rfl, rfl⟩
  | @moved x z _ _ source target _ hs hx hz hexperiments =>
      rw [hexperiments] at hmem
      rcases Table.mem_replace hmem with rfl | ⟨hmem, _⟩
      · -- no experiment moves that is stopped already
        subst hs
        have hfound := List.find?_some hx
        have hsource : x.state = source := by simpa using (Bool.and_eq_true_iff.mp hfound).2
        have hrunning : x.state ≠ .stopped := by
          rw [hsource]
          cases hsparing with
          | start => exact nofun
          | stop => exact nofun
        apply hafter y hy x (List.mem_of_find?_eq_some hx) hrunning
        rw [hz]
        exact ⟨rfl, rfl, rfl⟩
      · exact hafter y hy y hmem hstate ⟨rfl, rfl, rfl⟩

/-- The snapshot of its environment serves the flag of an experiment, with the control. -/
theorem served {x : ExperimentRow} (h : Measurable db) (hx : x ∈ db.experiments)
    (hstate : x.state ≠ .stopped) :
    ∃ f ∈ db.flags, f.id = x.flagId ∧ Measures f x.controlVariant ∧
      ∃ flag ∈ Sql.selectEnvironmentFlags x.environmentId db,
        flag.key = f.key ∧ flag.variants = f.variants := by
  obtain ⟨f, hf, hid, hmeasures, e, he, heid, hproject⟩ := h.placed x hx hstate
  obtain ⟨c, hc, hfor⟩ := h.configured f hf e he hproject
  obtain ⟨hflagId, henvironmentId⟩ := ConfigRow.isFor_iff.mp hfor
  refine ⟨f, hf, hid, hmeasures, Sql.configuredFlag f c, ?_, rfl, rfl⟩
  simp only [Sql.selectEnvironmentFlags, Table.mem_orderBy, List.mem_flatMap, List.mem_map,
    List.mem_filter, decide_eq_true_eq, Bool.and_eq_true, Bool.not_eq_true']
  exact ⟨c, ⟨hc, henvironmentId.trans heid⟩, f, ⟨hf, hflagId.symm, hmeasures.1⟩, rfl⟩

end Measurable

end Statement

end FlagForge.Storage
