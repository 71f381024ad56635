/-
Module: FlagForge.Api.VariantRace
Layer: Api
Purpose: Edits of one flag's variants and of its configurations at the same time. Each handler
  validates against rows it read and writes another table, so the stored flag stays evaluable as
  long as nothing that was checked is overtaken before the write.
Imports: FlagForge.Api.Server
Trusted boundary: none
Main exports: FlagEvaluable, EditsFlag, NotOvertaken, flag_stays_evaluable
-/
import FlagForge.Api.Server

namespace FlagForge.Api

open Prog (Log)
open Storage
open Storage.Sql (Stmt Resp Input Written FlagPatch configuredFlag)
open Validate (FlagShape ConfigShape VariantsShape namedVariants validate_eq_ok_iff)

variable (crates : Crates)

/-- Every stored configuration of the flag is valid with the stored variants. -/
def FlagEvaluable (flagId : Uuid) (db : Db) : Prop :=
  ∀ flag ∈ db.flags, flag.id = flagId → ∀ config ∈ db.flagConfigs, config.flagId = flagId →
    Validate.validate crates (configuredFlag flag config) = .ok ()

instance {flagId : Uuid} {db : Db} : Decidable (FlagEvaluable crates flagId db) := by
  unfold FlagEvaluable
  infer_instance

/-- `PATCH` of a flag and `PUT` of a configuration. -/
def EditsFlag : Request → Prop
  | .updateFlag .. | .updateConfig .. => True
  | _ => False

/-- The variants that a stored configuration serves. -/
def servedVariants (config : ConfigRow) : List String :=
  namedVariants config.offVariant config.fallthrough config.rules

/-- What a request that writes about the flag checked is not overtaken: a configuration goes in only
    while the variants it serves, which the request saw, are still the flag's; variants go in only
    while the configurations serve no more variants than those that the request saw. -/
def NotOvertaken (flagId : Uuid) (log : Log Stmt Resp) (s : Stmt) (db : Db) : Prop :=
  match s with
  | .upsertConfig flagId' environmentId _ offVariant fallthrough rules expectedVersion =>
      flagId' = flagId → Sql.Writable flagId environmentId expectedVersion db →
        ∀ projectId key (seen : FlagRow), Answered log (.selectFlag projectId key) (some seen) →
          seen.id = flagId → ∀ variant ∈ namedVariants offVariant fallthrough rules,
            variant ∈ seen.variants.map Variant.key →
              ∀ flag ∈ db.flags, flag.id = flagId → variant ∈ flag.variants.map Variant.key
  | .updateFlag flagId' patch =>
      flagId' = flagId → patch.variants.isSome →
        ∀ config ∈ db.flagConfigs, config.flagId = flagId → ∀ variant ∈ servedVariants config,
          ∃ environmentId, ∃ seen : ConfigRow,
            Answered log (.selectConfig flagId environmentId) (some seen) ∧
              variant ∈ servedVariants seen
  | _ => True

variable {crates}

/-- The variant half of a flag that some configuration makes valid. -/
theorem FlagEvaluable.shape {flagId : Uuid} {db : Db} (h : FlagEvaluable crates flagId db)
    (hconfigured : ∃ config ∈ db.flagConfigs, config.flagId = flagId) {flag : FlagRow}
    (hflag : flag ∈ db.flags) (hid : flag.id = flagId) :
    Validate.isValidKey flag.key = true ∧ VariantsShape flag.variants := by
  obtain ⟨config, hconfig, hfor⟩ := hconfigured
  have hshape := (validate_eq_ok_iff crates).mp (h flag hflag hid config hconfig hfor)
  exact ⟨hshape.key, hshape.variants⟩

/-- A configuration that was checked and not overtaken keeps the flag evaluable. -/
theorem upsertConfig_evaluable {flagId flagId' environmentId : Uuid} {enabled : Bool}
    {offVariant : String} {fallthrough : Distribution} {rules : List Rule}
    {expectedVersion : Option Int64} {log : Log Stmt Resp} {db : Db} {input : Input}
    {w : Written (Option ConfigRow)}
    (hchecked : Configurable crates flagId' environmentId offVariant fallthrough rules log)
    (hfresh : NotOvertaken flagId log (.upsertConfig flagId' environmentId enabled offVariant
      fallthrough rules expectedVersion) db)
    (hw : Sql.upsertConfig input flagId' environmentId enabled offVariant fallthrough rules
      expectedVersion db = .ok w)
    (hconfigured : ∃ config ∈ db.flagConfigs, config.flagId = flagId)
    (h : FlagEvaluable crates flagId db) :
    (∃ config ∈ w.db.flagConfigs, config.flagId = flagId) ∧ FlagEvaluable crates flagId w.db := by
  rcases Sql.upsertConfig_db hw with hdb | ⟨row, version, configs, hrow, hdb, hwritable, hmem, _⟩
  · rw [hdb]
    exact ⟨hconfigured, h⟩
  rw [hdb]
  constructor
  · obtain ⟨config, hconfig, hfor⟩ := hconfigured
    cases hreplaced : config.isFor flagId' environmentId with
    | true =>
        refine ⟨row, (hmem row).mpr (.inl rfl), ?_⟩
        rw [hrow]
        exact (ConfigRow.isFor_iff.mp hreplaced).1.symm.trans hfor
    | false => exact ⟨config, (hmem config).mpr (.inr ⟨hconfig, hreplaced⟩), hfor⟩
  · intro flag hflag hid config hconfig hfor
    rcases (hmem config).mp hconfig with rfl | ⟨hconfig, _⟩
    · -- the row that is written is valid with the flag as it is stored
      obtain ⟨projectId, _, key, _, seen, _, _, hseen, hseenId, hvalid⟩ := hchecked.evaluable
      have hshape := (validate_eq_ok_iff crates).mp hvalid
      obtain ⟨hkey, hvariants⟩ := h.shape hconfigured hflag hid
      rw [hrow] at hfor ⊢
      have hflagId : flagId' = flagId := hfor
      apply (validate_eq_ok_iff crates).mpr
      refine ⟨hkey, hvariants, hshape.config.over ?_⟩
      intro variant hvariant
      exact hfresh hflagId (hflagId ▸ hwritable) projectId key seen hseen (hseenId.trans hflagId)
        variant hvariant (hshape.config.named variant hvariant) flag hflag hid
    · exact h flag hflag hid config hconfig hfor

/-- Variants that were checked and not overtaken keep the flag evaluable. -/
theorem updateFlag_evaluable {caller : AuthUser} {projectKey flagKey : String} {body : UpdateFlag}
    {flagId flagId' : Uuid} {patch : FlagPatch} {log : Log Stmt Resp} {db : Db} {input : Input}
    {w : Written (Option FlagRow)}
    (hchecked : PatchChecked crates caller projectKey flagKey body flagId' patch log)
    (hfresh : NotOvertaken flagId log (.updateFlag flagId' patch) db)
    (hw : Sql.updateFlag input flagId' patch db = .ok w) (h : FlagEvaluable crates flagId db) :
    w.db.flagConfigs = db.flagConfigs ∧ FlagEvaluable crates flagId w.db := by
  rcases Sql.updateFlag_cases hw with rfl | ⟨old, hold, rfl⟩
  · exact ⟨rfl, h⟩
  · refine ⟨rfl, ?_⟩
    intro flag hflag hid config hconfig hfor
    rcases Table.mem_replace hflag with rfl | ⟨hflag, _⟩
    · have holdId : old.id = flagId' := by simpa using List.find?_some hold
      have hflagId : flagId' = flagId := holdId.symm.trans hid
      have hstored := h old (List.mem_of_find?_eq_some hold) hid config hconfig hfor
      cases hpatch : patch.variants with
      | none => simpa [configuredFlag, FlagPatch.apply, hpatch] using hstored
      | some variants =>
          have hshape := (validate_eq_ok_iff crates).mp hstored
          obtain ⟨hbody, project, seenFlag, _, _, hseenFlagId, hrevalidated⟩ := hchecked
          have hvalid := (hrevalidated variants (hbody.symm.trans hpatch)).valid
          have hseen := hfresh hflagId (by simp [hpatch]) config hconfig hfor
          have hvariant : ∀ variant ∈ servedVariants config,
              VariantsShape variants ∧ variant ∈ variants.map Variant.key := by
            intro variant hvariant
            obtain ⟨environmentId, seen, hanswered, hnamed⟩ := hseen variant hvariant
            have hseenShape := (validate_eq_ok_iff crates).mp
              (hvalid environmentId seen (by
                rw [hseenFlagId, hflagId]
                exact hanswered))
            exact ⟨hseenShape.variants, hseenShape.config.named variant hnamed⟩
          apply (validate_eq_ok_iff crates).mpr
          simp only [configuredFlag, FlagPatch.apply, hpatch, Option.getD_some]
          exact ⟨hshape.key, (hvariant _ List.mem_cons_self).1,
            hshape.config.over fun variant hmem => (hvariant variant hmem).2⟩
    · exact h flag hflag hid config hconfig hfor

/-- While no check is overtaken, a flag that has a configuration and is evaluable stays evaluable,
    after every statement of every run of edits: neither new variants nor new configurations, validated
    against each other before they are written, leave it with a variant that is not defined. -/
theorem flag_stays_evaluable {flagId : Uuid} {db : Db} {server : Server}
    (hconfigured : ∃ config ∈ db.flagConfigs, config.flagId = flagId)
    (hevaluable : FlagEvaluable crates flagId db)
    (h : Serves crates EditsFlag (NotOvertaken flagId) ⟨db, []⟩ server) :
    FlagEvaluable crates flagId server.db := by
  refine (h.invariant (I := fun db =>
    (∃ config ∈ db.flagConfigs, config.flagId = flagId) ∧ FlagEvaluable crates flagId db)
    ?_ ⟨hconfigured, hevaluable⟩).2
  rintro caller request log s db input w hkind hchecked hread hfresh hw ⟨hconfigured, h⟩
  cases s with
  | upsertConfig => exact upsertConfig_evaluable hchecked.upsertConfig hfresh hw hconfigured h
  | updateFlag =>
      obtain ⟨projectKey, flagKey, body, _, hchecked⟩ := hchecked.updateFlag
      obtain ⟨hconfigs, h⟩ := updateFlag_evaluable hchecked hfresh hw h
      exact ⟨by rw [hconfigs]; exact hconfigured, h⟩
  | insertAudit =>
      obtain ⟨row, rfl⟩ := Sql.insertAudit_cases hw
      exact ⟨hconfigured, h⟩
  | _ =>
      cases request <;> first | exact hkind.elim | exact absurd hread.symm Bool.false_ne_true |
        exact absurd hchecked Bool.false_ne_true

/-! ### A race in the shop -/

namespace Shop

/-- Serves the third variant to everyone. -/
def serveBeta : Request :=
  .updateConfig "shop" "live" "checkout" ⟨true, "off", .fixed "beta", [], some 1⟩

/-- Removes the third variant, which no stored configuration serves. -/
def dropBeta : Request :=
  .updateFlag "shop" "checkout" ⟨none, none, some onOff, none⟩

/-- The one that serves the variant checks it, the other one removes it, and the first one writes. -/
def servedThenDropped : Schedule :=
  [.spawn (ask serveBeta), .spawn (ask dropBeta)] ++ List.replicate 5 (.run 0 tick) ++
    List.replicate 6 (.run 1 tick) ++ List.replicate 2 (.run 0 tick)

/-- With only the one that serves the variant, nothing is overtaken. -/
def servedOnly : Schedule :=
  .spawn (ask serveBeta) :: List.replicate 7 (.run 0 tick)

end Shop

/-- Both requests succeed, and the flag that every environment could evaluate is left with a
    configuration that serves a variant it no longer has. -/
theorem servedThenDropped_not_evaluable :
    (∃ config ∈ Shop.store.flagConfigs, config.flagId = Shop.checkout.id) ∧
    FlagEvaluable .plain Shop.checkout.id Shop.store ∧
    Serves .plain EditsFlag Pool.unguarded ⟨Shop.store, []⟩
      (Pool.runSchedule Sql.exec Shop.servedThenDropped ⟨Shop.store, []⟩) ∧
    ¬ FlagEvaluable .plain Shop.checkout.id
      (Pool.runSchedule Sql.exec Shop.servedThenDropped ⟨Shop.store, []⟩).db := by
  refine ⟨by decide, by decide, ?_, by decide⟩
  apply Pool.runSchedule_runs
  exact ⟨⟨Shop.owner, Shop.serveBeta, trivial, rfl⟩, ⟨Shop.owner, Shop.dropBeta, trivial, rfl⟩,
    Pool.follows_unguarded (by simp [Pool.Action.Admissible])⟩

/-- The schedule without a race is one of the runs that the theorem is about. -/
theorem flag_stays_evaluable_servedOnly : FlagEvaluable .plain Shop.checkout.id
    (Pool.runSchedule Sql.exec Shop.servedOnly ⟨Shop.store, []⟩).db := by
  refine @flag_stays_evaluable _ _ Shop.store _ (by decide) (by decide)
    (Pool.runSchedule_runs ?_)
  refine ⟨⟨Shop.owner, Shop.serveBeta, trivial, rfl⟩, trivial, trivial, trivial, trivial, trivial,
    ?_, trivial, trivial⟩
  intro _ _ projectId key seen hseen _
  have : seen = Shop.checkout := by
    rcases hseen with _ | ⟨_, _ | ⟨_, _ | ⟨_, _ | ⟨_, _ | ⟨_, ⟨⟩⟩⟩⟩⟩⟩
    rfl
  subst this
  decide

end FlagForge.Api
