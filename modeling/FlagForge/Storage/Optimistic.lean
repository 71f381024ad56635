/-
Module: FlagForge.Storage.Optimistic
Layer: Storage
Purpose: Optimistic concurrency on flag configurations and on segments. The upsert filters on the
  version, the segment update reads it first and filters again, the touch triggers move it up; along
  the lifetime of a row no update is lost, whoever writes and in whatever order.
Imports: FlagForge.Lib.Versioned, FlagForge.Storage.Effects, FlagForge.Storage.Queries
Trusted boundary: none
Main exports: configVersions, segmentVersions, LosesNoUpdate, writers_lose_no_update
-/
import FlagForge.Lib.Versioned
import FlagForge.Storage.Effects
import FlagForge.Storage.Queries

namespace FlagForge.Storage

open Prog (Log)
open Pool (Event Traced)
open Sql (Stmt Resp SqlError Input Written SegmentPatch exec)

/-- The configuration of a flag in an environment. -/
def configVersions (flagId environmentId : Uuid) : VersionedRow Stmt Resp Db ConfigRow where
  find := Sql.selectConfig flagId environmentId
  version row := row.version.toInt
  write
    | .upsertConfig flagId' environmentId' _ _ _ _ expectedVersion, .ok (some row) =>
        if flagId' = flagId ∧ environmentId' = environmentId then
          some (expectedVersion.map Int64.toInt, row)
        else none
    | _, _ => none

/-- The segment of an environment with some key. -/
def segmentVersions (environmentId : Uuid) (key : String) :
    VersionedRow Stmt Resp Db SegmentRow where
  find := Sql.selectSegment environmentId key
  version row := row.version.toInt
  write
    | .updateSegment environmentId' key' _ expectedVersion, .ok (some row) =>
        if environmentId' = environmentId ∧ key' = key then
          some (expectedVersion.map Int64.toInt, row)
        else none
    | _, _ => none

/-! ### Every statement is steady -/

section Steady

variable {ρ : Type} {R : VersionedRow Stmt Resp Db ρ}

/-- A statement that fails is steady, and so is one whose success is. -/
theorem steady_of_run (herror : ∀ s error, R.write s (.error error) = none)
    (hrun : ∀ input s db w, s.run input db = .ok w →
      ∀ old new, R.find db = some old → R.find w.db = some new →
        match R.write s (.ok w.value) with
        | some (expected, row) => row = new ∧ R.version new = R.version old + 1 ∧
            ∀ v, expected = some v → R.version old = v
        | none => new = old) (e : Event Stmt Db Input) : R.Steady exec e := by
  obtain ⟨thread, input, s, db⟩ := e
  intro old new hold hnew
  rw [VersionedRow.writeOf]
  rw [Event.after] at hnew
  simp only [Event.answer] at hold hnew ⊢
  cases hanswer : (exec input s db).1 with
  | ok value =>
      obtain ⟨w, hw, rfl, hdb⟩ := Sql.run_of_exec_ok hanswer
      rw [hdb] at hnew
      exact hrun input s db w hw old new hold hnew
  | error error =>
      rw [herror]
      have hdb : (exec input s db).2 = db := Sql.db_of_exec_error hanswer
      rw [hdb, hold] at hnew
      exact (Option.some.inj hnew).symm

/-- A configuration survives a filter that looks at its flag or at its environment only. -/
theorem config_of_filter {flagId environmentId : Uuid} {q : ConfigRow → Bool}
    {configs : List ConfigRow} {old new : ConfigRow}
    (hq : ∀ a b : ConfigRow, a.isFor flagId environmentId = true →
      b.isFor flagId environmentId = true → q a = q b)
    (hold : configs.find? (·.isFor flagId environmentId) = some old)
    (hnew : (configs.filter q).find? (·.isFor flagId environmentId) = some new) : new = old := by
  rw [Table.find?_of_filter hq hnew] at hold
  exact Option.some.inj hold

theorem find?_append_eq {α : Type} {p : α → Bool} {rows more : List α} {old new : α}
    (hold : rows.find? p = some old) (hnew : (rows ++ more).find? p = some new) : new = old := by
  rw [List.find?_append, hold] at hnew
  exact (Option.some.inj hnew).symm

/-- No statement but the upsert changes a configuration that it leaves in the table. -/
theorem config_unchanged {flagId environmentId : Uuid} {input : Input} {s : Stmt} {db : Db}
    {w : Written s.Result} {old new : ConfigRow}
    (hs : ∀ flagId environmentId enabled offVariant fallthrough rules expectedVersion, s ≠
      .upsertConfig flagId environmentId enabled offVariant fallthrough rules expectedVersion)
    (hw : s.run input db = .ok w) (hold : Sql.selectConfig flagId environmentId db = some old)
    (hnew : Sql.selectConfig flagId environmentId w.db = some new) : new = old := by
  have hsame : w.db.flagConfigs = db.flagConfigs → new = old := by
    intro heq
    rw [Sql.selectConfig, heq, ← Sql.selectConfig, hold] at hnew
    exact (Option.some.inj hnew).symm
  have halike : ∀ ids : List Uuid, ∀ a b : ConfigRow, a.isFor flagId environmentId = true →
      b.isFor flagId environmentId = true →
      (!ids.contains a.flagId) = (!ids.contains b.flagId) ∧
        (!ids.contains a.environmentId) = (!ids.contains b.environmentId) := by
    intro ids a b ha hb
    rw [ConfigRow.isFor_iff] at ha hb
    rw [ha.1, ha.2, hb.1, hb.2]
    exact ⟨rfl, rfl⟩
  cases s with
  | insertProject =>
      obtain ⟨_, rfl⟩ := Sql.insertProject_cases hw
      exact hsame rfl
  | deleteProject =>
      rcases Sql.deleteProject_cases hw with rfl | ⟨project, _, _, hdb⟩
      · exact hsame rfl
      · rw [hdb] at hnew
        have hkept := Table.find?_of_filter (fun a b ha hb => (halike _ a b ha hb).1) hnew
        exact config_of_filter (fun a b ha hb => (halike _ a b ha hb).2) hold hkept
  | createEnvironment =>
      obtain ⟨configs, _, _, heq⟩ := Sql.createEnvironment_cases hw
      rw [heq] at hnew
      exact find?_append_eq hold hnew
  | deleteEnvironment =>
      obtain ⟨hdb, _⟩ := Sql.deleteEnvironment_cases hw
      rw [hdb] at hnew
      exact config_of_filter (fun a b ha hb => (halike _ a b ha hb).2) hold hnew
  | createFlag =>
      obtain ⟨_, heq⟩ := Sql.createFlag_cases hw
      rw [heq] at hnew
      exact find?_append_eq hold hnew
  | updateFlag =>
      rcases Sql.updateFlag_cases hw with rfl | ⟨_, _, rfl⟩ <;> exact hsame rfl
  | deleteFlag =>
      obtain ⟨_, hdb, _⟩ := Sql.deleteFlag_cases hw
      rw [hdb] at hnew
      exact config_of_filter (fun a b ha hb => (halike _ a b ha hb).1) hold hnew
  | upsertConfig => exact absurd rfl (hs _ _ _ _ _ _ _)
  | insertSegment =>
      obtain ⟨_, _, _, rfl⟩ := Sql.insertSegment_cases hw
      exact hsame rfl
  | updateSegment =>
      rcases Sql.updateSegment_cases hw with ⟨_, _, _, _, _, _, rfl⟩ | ⟨rfl, _⟩ <;> exact hsame rfl
  | deleteSegment => exact hsame (by rw [(Sql.deleteSegment_cases hw).1])
  | insertExperiment =>
      obtain ⟨_, _, _, _, _, rfl⟩ := Sql.insertExperiment_cases hw
      exact hsame rfl
  | updateExperiment | transitionExperiment =>
      rcases Sql.modifyExperiment_cases hw with rfl | ⟨_, _, _, _, _, rfl⟩ <;> exact hsame rfl
  | deleteExperiment => exact hsame (by rw [(Sql.deleteExperiment_cases hw).1])
  | insertAudit =>
      obtain ⟨_, rfl⟩ := Sql.insertAudit_cases hw
      exact hsame rfl
  | _ =>
      cases hw
      exact hsame rfl

/-- Every statement is steady on every configuration. -/
theorem config_steady (flagId environmentId : Uuid) (e : Event Stmt Db Input) :
    (configVersions flagId environmentId).Steady exec e := by
  apply steady_of_run
  · intro s error
    cases s <;> rfl
  · intro input s db w hw old new hold hnew
    by_cases hs : ∃ flagId environmentId enabled offVariant fallthrough rules expectedVersion, s =
        .upsertConfig flagId environmentId enabled offVariant fallthrough rules expectedVersion
    · obtain ⟨flagId', environmentId', enabled, offVariant, fallthrough, rules, expectedVersion,
        rfl⟩ := hs
      rcases Sql.upsertConfig_cases hw with ⟨row, _, hnone, _, _, rfl⟩ |
        ⟨stored, row, hstored, hguard, hmax, hrow, rfl⟩ | ⟨_, _, _, rfl⟩
      · -- an insert cannot be of a row that is there
        have hother : ¬(flagId' = flagId ∧ environmentId' = environmentId) := by
          rintro ⟨rfl, rfl⟩
          exact absurd (hnone.symm.trans hold) (by simp)
        simp only [configVersions, hother, if_false]
        exact find?_append_eq hold hnew
      · by_cases hthis : flagId' = flagId ∧ environmentId' = environmentId
        · obtain ⟨rfl, rfl⟩ := hthis
          have hselected : row.isFor flagId' environmentId' = true := by simp [hrow, Sql.writtenConfig]
          have hfound := Table.find?_replace hstored hselected
          cases hstored.symm.trans hold
          cases hfound.symm.trans hnew
          simp only [configVersions, and_self, if_true]
          refine ⟨trivial, ?_, ?_⟩
          · rw [hrow]
            exact Sql.toInt_bumped hmax
          · rintro v hv
            rcases hguard with hguard | hguard <;> rw [hguard] at hv <;> cases hv
            rfl
        · simp only [configVersions, hthis, if_false]
          have hdisjoint : ∀ r ∈ db.flagConfigs, r.isFor flagId' environmentId' = true →
              r.isFor flagId environmentId = false :=
            fun r _ hr => ConfigRow.isFor_eq_false hr hthis
          have hselected : row.isFor flagId' environmentId' = true := by
            simp [hrow, Sql.writtenConfig]
          have hrow' := ConfigRow.isFor_eq_false hselected hthis
          have hfound := Table.find?_replace_of_disjoint hrow' hdisjoint
          exact Option.some.inj (hnew.symm.trans (hfound.trans hold))
      · exact Option.some.inj (hnew.symm.trans hold)
    · have hwrite : (configVersions flagId environmentId).write s (.ok w.value) = none := by
        cases s <;> first | rfl | exact absurd ⟨_, _, _, _, _, _, _, rfl⟩ hs
      rw [hwrite]
      exact config_unchanged (fun f e b o d r v heq => hs ⟨f, e, b, o, d, r, v, heq⟩) hw hold hnew

/-- No statement but the update changes a segment that it leaves in the table. -/
theorem segment_unchanged {environmentId : Uuid} {key : String} {input : Input} {s : Stmt} {db : Db}
    {w : Written s.Result} {old new : SegmentRow}
    (hs : ∀ environmentId key patch expectedVersion, s ≠
      .updateSegment environmentId key patch expectedVersion)
    (hw : s.run input db = .ok w) (hold : Sql.selectSegment environmentId key db = some old)
    (hnew : Sql.selectSegment environmentId key w.db = some new) : new = old := by
  have hsame : w.db.segments = db.segments → new = old := by
    intro heq
    rw [Sql.selectSegment, heq, ← Sql.selectSegment, hold] at hnew
    exact (Option.some.inj hnew).symm
  have hfilter : ∀ q : SegmentRow → Bool, w.db.segments = db.segments.filter q →
      (∀ a b : SegmentRow, a.isFor environmentId key = true → b.isFor environmentId key = true →
        q a = q b) → new = old := by
    intro q heq hq
    rw [Sql.selectSegment, heq] at hnew
    exact Option.some.inj ((Table.find?_of_filter hq hnew).symm.trans hold)
  have halike : ∀ ids : List Uuid, ∀ a b : SegmentRow, a.isFor environmentId key = true →
      b.isFor environmentId key = true →
      (!ids.contains a.environmentId) = (!ids.contains b.environmentId) := by
    intro ids a b ha hb
    rw [SegmentRow.isFor_iff] at ha hb
    rw [ha.1, hb.1]
  cases s with
  | insertProject =>
      obtain ⟨_, rfl⟩ := Sql.insertProject_cases hw
      exact hsame rfl
  | deleteProject =>
      rcases Sql.deleteProject_cases hw with rfl | ⟨project, _, _, hdb⟩
      · exact hsame rfl
      · exact hfilter _ (by rw [hdb]; rfl) (halike _)
  | createEnvironment =>
      obtain ⟨_, _, _, heq⟩ := Sql.createEnvironment_cases hw
      exact hsame (by rw [heq])
  | deleteEnvironment => exact hfilter _ (by rw [(Sql.deleteEnvironment_cases hw).1]; rfl) (halike _)
  | createFlag => exact hsame (by rw [(Sql.createFlag_cases hw).2])
  | updateFlag =>
      rcases Sql.updateFlag_cases hw with rfl | ⟨_, _, rfl⟩ <;> exact hsame rfl
  | deleteFlag => exact hsame (by rw [(Sql.deleteFlag_cases hw).2.1])
  | upsertConfig =>
      rcases Sql.upsertConfig_db hw with hdb | ⟨_, _, _, _, hdb, _⟩ <;> exact hsame (by rw [hdb])
  | insertSegment =>
      obtain ⟨_, _, _, rfl⟩ := Sql.insertSegment_cases hw
      exact find?_append_eq hold hnew
  | updateSegment => exact absurd rfl (hs _ _ _ _)
  | deleteSegment environmentId' key' =>
      refine hfilter _ (by rw [(Sql.deleteSegment_cases hw).1]) ?_
      intro a b ha hb
      rw [SegmentRow.isFor_iff] at ha hb
      simp [SegmentRow.isFor, ha.1, ha.2, hb.1, hb.2]
  | insertExperiment =>
      obtain ⟨_, _, _, _, _, rfl⟩ := Sql.insertExperiment_cases hw
      exact hsame rfl
  | updateExperiment | transitionExperiment =>
      rcases Sql.modifyExperiment_cases hw with rfl | ⟨_, _, _, _, _, rfl⟩ <;> exact hsame rfl
  | deleteExperiment => exact hsame (by rw [(Sql.deleteExperiment_cases hw).1])
  | insertAudit =>
      obtain ⟨_, rfl⟩ := Sql.insertAudit_cases hw
      exact hsame rfl
  | _ =>
      cases hw
      exact hsame rfl

/-- Every statement is steady on every segment. -/
theorem segment_steady (environmentId : Uuid) (key : String) (e : Event Stmt Db Input) :
    (segmentVersions environmentId key).Steady exec e := by
  apply steady_of_run
  · intro s error
    cases s <;> rfl
  · intro input s db w hw old new hold hnew
    by_cases hs : ∃ environmentId key patch expectedVersion, s =
        .updateSegment environmentId key patch expectedVersion
    · obtain ⟨environmentId', key', patch, expectedVersion, rfl⟩ := hs
      rcases Sql.updateSegment_cases hw with ⟨stored, row, hstored, hguard, hmax, hrow, rfl⟩ |
        ⟨rfl, _⟩
      · have hfor := List.find?_some hstored
        have hselected : row.isFor environmentId' key' = true := by
          rw [hrow]
          exact hfor
        by_cases hthis : environmentId' = environmentId ∧ key' = key
        · obtain ⟨rfl, rfl⟩ := hthis
          have hfound := Table.find?_replace hstored hselected
          cases hstored.symm.trans hold
          cases hfound.symm.trans hnew
          simp only [segmentVersions, and_self, if_true]
          refine ⟨trivial, ?_, ?_⟩
          · rw [hrow]
            exact Sql.toInt_bumped hmax
          · rintro v hv
            rcases hguard with hguard | hguard <;> rw [hguard] at hv <;> cases hv
            rfl
        · simp only [segmentVersions, hthis, if_false]
          have hdisjoint : ∀ r : SegmentRow, r.isFor environmentId' key' = true →
              r.isFor environmentId key = false := fun r hr => SegmentRow.isFor_eq_false hr hthis
          have hfound := Table.find?_replace_of_disjoint (hdisjoint row hselected)
            fun r (_ : r ∈ db.segments) hr => hdisjoint r hr
          exact Option.some.inj (hnew.symm.trans (hfound.trans hold))
      · exact Option.some.inj (hnew.symm.trans hold)
    · have hwrite : (segmentVersions environmentId key).write s (.ok w.value) = none := by
        cases s <;> first | rfl | exact absurd ⟨_, _, _, _, rfl⟩ hs
      rw [hwrite]
      exact segment_unchanged (fun e k p v heq => hs ⟨e, k, p, v, heq⟩) hw hold hnew

end Steady

/-! ### Writers -/

/-- Wherever the statement gets this answer, it has changed nothing. -/
def Harmless (e : (s : Stmt) × Resp s) : Prop :=
  ∀ input db, (exec input e.1 db).1 = e.2 → (exec input e.1 db).2 = db

theorem harmless_of_isRead {s : Stmt} {r : Resp s} (h : s.isRead = true) : Harmless ⟨s, r⟩ :=
  fun _ _ _ => Sql.exec_of_isRead h

/-- An upsert that returns no row was filtered out. -/
theorem harmless_upsertConfig {flagId environmentId : Uuid} {enabled : Bool} {offVariant : String}
    {fallthrough : Distribution} {rules : List Rule} {expectedVersion : Option Int64} :
    Harmless ⟨.upsertConfig flagId environmentId enabled offVariant fallthrough rules
      expectedVersion, .ok (none : Option ConfigRow)⟩ := by
  intro input db h
  obtain ⟨w, hw, hvalue, hdb⟩ := Sql.run_of_exec_ok h
  rw [hdb]
  rcases Sql.upsertConfig_cases hw with ⟨_, _, _, _, _, rfl⟩ | ⟨_, _, _, _, _, _, rfl⟩ |
    ⟨_, _, _, rfl⟩
  · cases hvalue
  · cases hvalue
  · rfl

/-- An update that returns no row was filtered out. -/
theorem harmless_updateSegment {environmentId : Uuid} {key : String} {patch : SegmentPatch}
    {expectedVersion : Option Int64} :
    Harmless ⟨.updateSegment environmentId key patch expectedVersion,
      .ok (none : Option SegmentRow)⟩ := by
  intro input db h
  obtain ⟨w, hw, hvalue, hdb⟩ := Sql.run_of_exec_ok h
  rw [hdb]
  rcases Sql.updateSegment_cases hw with ⟨_, _, _, _, _, _, rfl⟩ | ⟨rfl, _⟩
  · cases hvalue
  · rfl

/-- A program that ends with the version of the row it wrote, or with an error. -/
abbrev Writer := Prog Stmt Resp (Except StorageError Int64)

/-- A call of `upsert_config`. -/
def configWrite (crates : Crates) (flagId environmentId : Uuid) (enabled : Bool)
    (offVariant : String) (fallthrough : Distribution) (rules : List Rule)
    (expectedVersion : Option Int64) : Writer :=
  (do
    let row ← upsertConfig crates flagId environmentId enabled offVariant fallthrough rules
      expectedVersion
    pure row.version : Query Int64).run

/-- A call of `update_segment`. -/
def segmentWrite (environmentId : Uuid) (key : String) (patch : SegmentPatch)
    (expectedVersion : Option Int64) : Writer :=
  (do
    let row ← updateSegment environmentId key patch expectedVersion
    pure row.version : Query Int64).run

/-- A write that returns a version has written, expecting what it was told to, the row with that
    version; a write that returns a version conflict has changed nothing. -/
def Truthful {ρ : Type} (R : VersionedRow Stmt Resp Db ρ) (expectedVersion : Option Int64)
    (log : Log Stmt Resp) (result : Except StorageError Int64) : Prop :=
  (∀ version, result = .ok version → ∃ e ∈ log, ∃ row,
      R.write e.1 e.2 = some (expectedVersion.map Int64.toInt, row) ∧
        R.version row = version.toInt) ∧
    ∀ entity version, result = .error (.versionConflict entity version) → ∀ e ∈ log, Harmless e

section

variable {ρ : Type} {R : VersionedRow Stmt Resp Db ρ} {expectedVersion : Option Int64}
  {log : Log Stmt Resp}

theorem truthful_error {error : StorageError}
    (h : ∀ entity version, error ≠ .versionConflict entity version) :
    Truthful R expectedVersion log (.error error) :=
  ⟨fun _ heq => (nomatch heq), fun entity version heq =>
    absurd (Except.error.inj heq) (h entity version)⟩

theorem truthful_conflict {error : StorageError} (h : ∀ e ∈ log, Harmless e) :
    Truthful R expectedVersion log (.error error) :=
  ⟨fun _ heq => (nomatch heq), fun _ _ _ => h⟩

theorem fromWrite_ne_versionConflict (entity key : String) (error : SqlError) (entity' : String)
    (version : Int64) : StorageError.fromWrite entity key error ≠ .versionConflict entity' version := by
  cases error <;> exact StorageError.noConfusion

end

theorem configWrite_truthful (crates : Crates) (flagId environmentId : Uuid) (enabled : Bool)
    (offVariant : String) (fallthrough : Distribution) (rules : List Rule)
    (expectedVersion : Option Int64) :
    Prog.Obeys (fun _ _ => True) (Truthful (configVersions flagId environmentId) expectedVersion) []
      (configWrite crates flagId environmentId enabled offVariant fallthrough rules
        expectedVersion) := by
  refine ⟨trivial, ?_⟩
  intro answer
  cases answer with
  | error error => exact truthful_error (fromWrite_ne_versionConflict _ _ error)
  | ok row =>
      cases row with
      | none =>
          apply truthful_conflict
          intro e he
          cases List.mem_singleton.mp he
          exact harmless_upsertConfig
      | some row =>
          constructor
          · intro version heq
            cases heq
            exact ⟨_, List.mem_cons_self, row, by simp [configVersions], rfl⟩
          · intro entity version heq
            cases heq

/-- The first check passes, or it is a version conflict. -/
theorem checkVersion_cases (entity : String) (expected : Option Int64) (version : Int64) :
    checkVersion entity expected version = pure () ∨
      ∃ e, checkVersion entity expected version = throw (.versionConflict entity e) := by
  cases expected with
  | none => exact .inl rfl
  | some expected =>
      by_cases h : version = expected
      · exact .inl (by rw [checkVersion, if_pos h]; rfl)
      · exact .inr ⟨expected, by rw [checkVersion, if_neg h]; rfl⟩

/-- The read does no harm, and the update is guarded again, so a conflict at either is harmless. -/
theorem segmentWrite_truthful (environmentId : Uuid) (key : String) (patch : SegmentPatch)
    (expectedVersion : Option Int64) :
    Prog.Obeys (fun _ _ => True) (Truthful (segmentVersions environmentId key) expectedVersion) []
      (segmentWrite environmentId key patch expectedVersion) := by
  refine ⟨trivial, ?_⟩
  intro answer
  cases answer with
  | error error => exact truthful_error fun _ _ => StorageError.noConfusion
  | ok current =>
      cases current with
      | none => exact truthful_error fun _ _ => StorageError.noConfusion
      | some current =>
          have hread : ∀ e ∈ ([⟨.selectSegment environmentId key, .ok (some current)⟩] :
              Log Stmt Resp), Harmless e := by
            intro e he
            cases List.mem_singleton.mp he
            exact harmless_of_isRead rfl
          change Prog.Obeys _ _ _ ((do
            checkVersion "segment" expectedVersion current.version
            let row ← query (.updateSegment environmentId key patch expectedVersion)
              (.fromWrite "segment" key)
            orConflict "segment" (expectedVersion.getD current.version) row : Query SegmentRow) >>=
              fun row => (pure row.version : Query Int64)).run
          rcases checkVersion_cases "segment" expectedVersion current.version with h | ⟨v, h⟩
          · rw [h]
            refine ⟨trivial, ?_⟩
            intro answer
            cases answer with
            | error error => exact truthful_error (fromWrite_ne_versionConflict _ _ error)
            | ok row =>
                cases row with
                | none =>
                    apply truthful_conflict
                    intro e he
                    rcases List.mem_cons.mp he with rfl | he
                    · exact harmless_updateSegment
                    · exact hread e he
                | some row =>
                    constructor
                    · intro version heq
                      cases heq
                      exact ⟨_, List.mem_cons_self, row, by simp [segmentVersions], rfl⟩
                    · intro entity version heq
                      cases heq
          · rw [h]
            exact truthful_conflict hread

/-- What optimistic concurrency promises about one row: along every stretch of the history during
    which the row is there no update is lost, a writer that succeeds has made the write it reports,
    and a writer that reports a conflict has changed nothing. -/
structure LosesNoUpdate {ρ : Type} (R : VersionedRow Stmt Resp Db ρ)
    (writes : Option Int64 → Writer → Prop) (origins : List Writer)
    (events : List (Event Stmt Db Input)) (pool : Pool Stmt Resp (Except StorageError Int64) Db) :
    Prop where
  lifetimes : ∀ later life earlier, events = later ++ life ++ earlier → life ≠ [] →
    (∀ e ∈ life, (R.find e.before).isSome ∧ (R.find (e.after exec)).isSome) →
      ∃ first last, R.Lifetime exec life first last ∧ R.KeepsUpdates exec life first last
  successes : ∀ i p t expectedVersion version, origins[i]? = some p → writes expectedVersion p →
    pool.threads[i]? = some t → t.prog = .done (.ok version) →
      ∃ e ∈ events, e.thread = i ∧ ∃ row,
        R.writeOf exec e = some (expectedVersion.map Int64.toInt, row) ∧
          R.version row = version.toInt
  conflicts : ∀ i p t expectedVersion entity version, origins[i]? = some p →
    writes expectedVersion p → pool.threads[i]? = some t →
    t.prog = .done (.error (.versionConflict entity version)) →
      ∀ e ∈ events, e.thread = i → e.after exec = e.before

theorem losesNoUpdate {ρ : Type} {R : VersionedRow Stmt Resp Db ρ}
    {writes : Option Int64 → Writer → Prop} {initial : Db} {origins : List Writer}
    {events : List (Event Stmt Db Input)} {pool : Pool Stmt Resp (Except StorageError Int64) Db}
    (hsteady : ∀ e : Event Stmt Db Input, R.Steady exec e)
    (htruthful : ∀ expectedVersion p, writes expectedVersion p →
      Prog.Obeys (fun _ _ => True) (Truthful R expectedVersion) [] p)
    (h : Traced exec initial origins events pool) : LosesNoUpdate R writes origins events pool := by
  constructor
  · rintro later life earlier rfl hne halive
    have hchain : life.IsChain fun later earlier => later.before = earlier.after exec :=
      (h.chained.left_of_append).right_of_append
    obtain ⟨first, last, hlife, _⟩ := VersionedRow.lifetime_of_alive hchain halive hne
    exact ⟨first, last, hlife, hlife.keepsUpdates fun e _ => hsteady e⟩
  · intro i p t expectedVersion version hp hwrites ht hdone
    obtain ⟨hsuccess, _⟩ := h.result hp ht hdone (htruthful _ _ hwrites)
    obtain ⟨entry, hentry, row, hwrite, hversion⟩ := hsuccess version rfl
    obtain ⟨e, he, rfl⟩ := List.mem_map.mp hentry
    obtain ⟨hmem, hthread⟩ := List.mem_filter.mp he
    exact ⟨e, hmem, by simpa using hthread, row, hwrite, hversion⟩
  · intro i p t expectedVersion entity version hp hwrites ht hdone e he hthread
    obtain ⟨_, hconflict⟩ := h.result hp ht hdone (htruthful _ _ hwrites)
    have hlearned := List.mem_map_of_mem (f := Event.learned exec)
      (List.mem_filter.mpr ⟨he, by simpa using hthread⟩ : e ∈ Traced.eventsOf i events)
    exact hconflict entity version rfl _ hlearned e.input e.before rfl

/-- The calls of `upsert_config` for one configuration. -/
def WritesConfig (crates : Crates) (flagId environmentId : Uuid) (expectedVersion : Option Int64)
    (p : Writer) : Prop :=
  ∃ enabled offVariant fallthrough rules, p =
    configWrite crates flagId environmentId enabled offVariant fallthrough rules expectedVersion

/-- The calls of `update_segment` for one segment. -/
def WritesSegment (environmentId : Uuid) (key : String) (expectedVersion : Option Int64)
    (p : Writer) : Prop :=
  ∃ patch, p = segmentWrite environmentId key patch expectedVersion

/-- Whatever the writers are, and whatever else works on the database at the same time: no update of
    a configuration is lost, and none of a segment. -/
theorem writers_lose_no_update (crates : Crates) {initial : Db} {origins : List Writer}
    {events : List (Event Stmt Db Input)} {pool : Pool Stmt Resp (Except StorageError Int64) Db}
    (h : Traced exec initial origins events pool) :
    (∀ flagId environmentId, LosesNoUpdate (configVersions flagId environmentId)
      (WritesConfig crates flagId environmentId) origins events pool) ∧
    ∀ environmentId key, LosesNoUpdate (segmentVersions environmentId key)
      (WritesSegment environmentId key) origins events pool := by
  constructor
  · intro flagId environmentId
    apply losesNoUpdate (config_steady flagId environmentId) _ h
    rintro expectedVersion p ⟨enabled, offVariant, fallthrough, rules, rfl⟩
    exact configWrite_truthful crates flagId environmentId enabled offVariant fallthrough rules
      expectedVersion
  · intro environmentId key
    apply losesNoUpdate (segment_steady environmentId key) _ h
    rintro expectedVersion p ⟨patch, rfl⟩
    exact segmentWrite_truthful environmentId key patch expectedVersion

/-! ### Two writers who expect the same version -/

/-- One configuration, at its first version. -/
def oneConfig : Db :=
  { Db.empty with flagConfigs := [⟨⟨3⟩, ⟨2⟩, true, "off", .fixed "on", [], 1, 0⟩] }

def turnOff : Writer :=
  configWrite .plain ⟨3⟩ ⟨2⟩ false "off" (.fixed "on") [] (some 1)

def serveOff : Writer :=
  configWrite .plain ⟨3⟩ ⟨2⟩ true "off" (.fixed "off") [] (some 1)

def bothWritten : Pool Stmt Resp (Except StorageError Int64) Db :=
  Pool.runSchedule exec
    [.spawn turnOff, .spawn serveOff, .run 0 ⟨⟨10⟩, 1, false⟩, .run 1 ⟨⟨11⟩, 2, false⟩] ⟨oneConfig, []⟩

/-- The second one gets the conflict. -/
example : (bothWritten.threads.map fun t => match t.prog with
    | .done result => some result
    | .call .. => none) =
      [some (.ok 2), some (.error (.versionConflict "flag configuration" 1))] := by
  decide

theorem writers_lose_no_update_bothWritten : ∃ events : List (Event Stmt Db Input),
    events.map Event.thread = [1, 0] ∧
    LosesNoUpdate (configVersions ⟨3⟩ ⟨2⟩) (WritesConfig .plain ⟨3⟩ ⟨2⟩) [turnOff, serveOff] events
      bothWritten := by
  have hstarted : Traced exec oneConfig [turnOff, serveOff] []
      ⟨oneConfig, [] ++ ⟨[], turnOff⟩ :: [⟨[], serveOff⟩]⟩ := .spawn serveOff (.spawn turnOff .start)
  have hfirst : Traced exec oneConfig [turnOff, serveOff] _ ⟨_, [_] ++ ⟨[], serveOff⟩ :: []⟩ :=
    hstarted.run ⟨⟨10⟩, 1, false⟩
  have hsecond := hfirst.run ⟨⟨11⟩, 2, false⟩
  exact ⟨_, rfl, (writers_lose_no_update .plain hsecond).1 _ _⟩

end FlagForge.Storage
