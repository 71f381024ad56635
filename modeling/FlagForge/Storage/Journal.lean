/-
Module: FlagForge.Storage.Journal
Layer: Storage
Purpose: The tables as a store with a journal, the audit log. A write of the configuration leaves the
  log alone, and one that reports no row leaves everything alone.
Imports: FlagForge.Storage.Effects, FlagForge.Storage.Queries, FlagForge.Lib.Faults
Trusted boundary: none
Main exports: Db.configuration, journaled, writes_of_keepsLog, records_insertAudit
-/
import FlagForge.Storage.Effects
import FlagForge.Storage.Queries
import FlagForge.Lib.Faults

namespace FlagForge.Storage

open Sql (Stmt Input SqlError Written FlagPatch SegmentPatch NewAuditEntry exec)

/-- The rows of all tables but the audit log. -/
def Db.configuration (db : Db) : Db :=
  { db with auditLog := [] }

/-- What the database contributes to a statement when it does not fail. -/
def Sql.Input.spare (input : Input) : Input :=
  { input with fails := false }

theorem Sql.exec_spare (input : Input) (s : Stmt) (db : Db) :
    exec input s db = exec input.spare s db ∨ ∃ e, (exec input s db).1 = .error e := by
  obtain ⟨id, now, fails⟩ := input
  cases fails with
  | false => exact .inl rfl
  | true => exact .inr ⟨.other, rfl⟩

/-- The tables, with the audit log as the journal. -/
def journaled : JournaledStore Stmt Stmt.Result SqlError Db Input Db AuditRow where
  exec := exec
  rows := Db.configuration
  journal := Db.auditLog
  spare := Sql.Input.spare
  ext := by
    intro db db' hrows hlog
    obtain ⟨_, _, _, _, _, _, _⟩ := db
    obtain ⟨_, _, _, _, _, _, _⟩ := db'
    cases hrows
    cases hlog
    rfl
  exec_error := Sql.db_of_exec_error
  exec_spare := Sql.exec_spare

theorem reads_of_isRead {s : Stmt} (h : s.isRead = true) : journaled.Reads s :=
  fun _ _ => Sql.exec_of_isRead h

/-! ### Writes -/

/-- The statements that leave the audit log alone. Deleting an environment takes it out of the
    entries about it. -/
def Sql.Stmt.keepsLog : Stmt → Bool
  | .deleteProject .. | .deleteEnvironment .. | .insertAudit .. => false
  | _ => true

section

variable {input : Input} {s : Stmt} {db : Db}

theorem auditLog_run {w : Written s.Result} (h : s.keepsLog = true) (hw : s.run input db = .ok w) :
    w.db.auditLog = db.auditLog := by
  cases s with
  | deleteProject | deleteEnvironment | insertAudit => cases h
  | insertProject =>
      obtain ⟨_, rfl⟩ := Sql.insertProject_cases hw
      rfl
  | createEnvironment =>
      obtain ⟨_, _, _, hdb⟩ := Sql.createEnvironment_cases hw
      rw [hdb]
  | createFlag => rw [(Sql.createFlag_cases hw).2]
  | updateFlag =>
      rcases Sql.updateFlag_cases hw with rfl | ⟨_, _, rfl⟩
      · rfl
      · rfl
  | deleteFlag => rw [(Sql.deleteFlag_cases hw).2.1]
  | upsertConfig =>
      rcases Sql.upsertConfig_db hw with hdb | ⟨_, _, _, _, hdb, _⟩
      · rw [hdb]
      · rw [hdb]
  | insertSegment =>
      obtain ⟨_, _, _, rfl⟩ := Sql.insertSegment_cases hw
      rfl
  | updateSegment =>
      rcases Sql.updateSegment_cases hw with ⟨_, _, _, _, _, _, rfl⟩ | ⟨rfl, _⟩
      · rfl
      · rfl
  | deleteSegment => rw [(Sql.deleteSegment_cases hw).1]
  | insertExperiment =>
      obtain ⟨_, _, _, _, _, rfl⟩ := Sql.insertExperiment_cases hw
      rfl
  | updateExperiment | transitionExperiment =>
      rcases Sql.modifyExperiment_cases hw with rfl | ⟨_, _, _, _, _, rfl⟩
      · rfl
      · rfl
  | deleteExperiment => rw [(Sql.deleteExperiment_cases hw).1]
  | _ =>
      cases hw
      rfl

theorem writes_of_keepsLog (h : s.keepsLog = true) : journaled.Writes s :=
  fun _ _ => Sql.exec_invariant (I := fun db' => db'.auditLog = _)
    (fun _ hw => auditLog_run h hw) rfl

/-- The row that an entry becomes. -/
def Sql.NewAuditEntry.row (entry : NewAuditEntry) (now : Timestamp) : AuditRow where
  organizationId := entry.organizationId
  actorUserId := entry.actorUserId
  actorEmail := entry.actorEmail
  action := entry.action
  resourceType := entry.resourceType
  resourceId := entry.resourceId
  environmentId := entry.environmentId
  before := entry.before
  after := entry.after
  createdAt := now

theorem records_insertAudit {entry : NewAuditEntry} {expected : AuditRow → Prop}
    (h : ∀ now, expected (entry.row now)) : journaled.Records expected (.insertAudit entry) := by
  have hrun : ∀ {input : Input} {db : Db} {w : Written Unit},
      Sql.insertAudit input entry db = .ok w →
        w.db = { db with auditLog := db.auditLog ++ [entry.row input.now] } := by
    intro input db w hw
    obtain ⟨_, hw⟩ := Sql.of_require hw
    cases hw
    rfl
  intro input db
  constructor
  · rcases Sql.exec_db_cases input (.insertAudit entry) db with hdb | ⟨w, hw, hdb⟩
    · exact congrArg Db.configuration hdb
    · refine (congrArg Db.configuration hdb).trans ?_
      rw [hrun hw]
      rfl
  · intro v hanswer
    obtain ⟨w, hw, _, hdb⟩ := Sql.run_of_exec_ok hanswer
    refine ⟨entry.row input.now, h _, ?_⟩
    refine (congrArg Db.auditLog hdb).trans ?_
    rw [hrun hw]
    rfl

end

/-! ### Writes that report no row -/

namespace Sql

section

variable {input : Input} {db : Db}

theorem updateFlag_none {flagId : Uuid} {patch : FlagPatch} {w : Written (Option FlagRow)}
    (hw : updateFlag input flagId patch db = .ok w) (h : w.value = none) : w.db = db := by
  rcases updateFlag_cases hw with rfl | ⟨_, _, rfl⟩
  · rfl
  · cases h

theorem upsertConfig_none {flagId environmentId : Uuid} {enabled : Bool} {offVariant : String}
    {fallthrough : Distribution} {rules : List Rule} {expectedVersion : Option Int64}
    {w : Written (Option ConfigRow)}
    (hw : upsertConfig input flagId environmentId enabled offVariant fallthrough rules
      expectedVersion db = .ok w) (h : w.value = none) : w.db = db := by
  rcases upsertConfig_cases hw with ⟨_, _, _, _, _, rfl⟩ | ⟨_, _, _, _, _, _, rfl⟩ | ⟨_, _, _, rfl⟩
  · cases h
  · cases h
  · rfl

theorem updateSegment_none {environmentId : Uuid} {key : String} {patch : SegmentPatch}
    {expectedVersion : Option Int64} {w : Written (Option SegmentRow)}
    (hw : updateSegment input environmentId key patch expectedVersion db = .ok w)
    (h : w.value = none) : w.db = db := by
  rcases updateSegment_cases hw with ⟨_, _, _, _, _, _, rfl⟩ | ⟨rfl, _⟩
  · cases h
  · rfl

theorem modifyExperiment_zero {p : ExperimentRow → Bool} {change : ExperimentRow → ExperimentRow}
    {w : Written Nat} (hw : modifyExperiment input p change db = .ok w) (h : w.value = 0) :
    w.db = db := by
  rcases modifyExperiment_cases hw with rfl | ⟨_, _, _, _, _, rfl⟩
  · rfl
  · cases h

theorem deleteFlag_zero {projectId : Uuid} {key : String} {w : Written Nat}
    (hw : deleteFlag projectId key db = .ok w) (h : w.value = 0) : w.db = db := by
  obtain ⟨_, hw⟩ := of_require hw
  cases hw
  have hnone : db.flags.filter (·.isFor projectId key) = [] := by simpa using h
  simp only [Table.filter_not_of_none hnone, hnone, List.map_nil, List.contains_nil, Bool.not_false,
    List.filter_true]

theorem deleteSegment_zero {environmentId : Uuid} {key : String} {w : Written Nat}
    (hw : deleteSegment environmentId key db = .ok w) (h : w.value = 0) : w.db = db := by
  cases hw
  have hnone : db.segments.filter (·.isFor environmentId key) = [] := List.length_eq_zero_iff.mp h
  simp only [Table.filter_not_of_none hnone]

theorem deleteExperiment_zero {environmentId : Uuid} {key : String} {w : Written Nat}
    (hw : deleteExperiment environmentId key db = .ok w) (h : w.value = 0) : w.db = db := by
  cases hw
  have hnone : (db.experiments.filter fun row =>
      row.isFor environmentId key && row.state ≠ .running) = [] := List.length_eq_zero_iff.mp h
  simp only [Table.filter_not_of_none hnone]

/-! An experiment that was written is found. -/

theorem selectExperiment_inserted {environmentId flagId : Uuid} {key name : String}
    {description : Option String} {metricKey controlVariant : String} {w : Written Unit}
    (hw : insertExperiment input environmentId flagId key name description metricKey controlVariant
      db = .ok w) : selectExperiment environmentId key w.db ≠ none := by
  obtain ⟨row, hrow, _, _, _, rfl⟩ := insertExperiment_cases hw
  intro hnone
  apply List.find?_eq_none.mp hnone row (List.mem_append_right _ List.mem_cons_self)
  rw [hrow]
  exact ExperimentRow.isFor_iff.mpr ⟨rfl, rfl⟩

/-- A change keeps the key and the environment. -/
theorem selectExperiment_modified {environmentId : Uuid} {key : String} {p : ExperimentRow → Bool}
    {change : ExperimentRow → ExperimentRow} {w : Written Nat}
    (hp : ∀ row, p row = true → row.isFor environmentId key = true)
    (hchange : ∀ row, (change row).environmentId = row.environmentId ∧ (change row).key = row.key)
    (hw : modifyExperiment input p change db = .ok w) (h : w.value ≠ 0) :
    selectExperiment environmentId key w.db ≠ none := by
  rcases modifyExperiment_cases hw with rfl | ⟨old, row, hold, _, hrow, rfl⟩
  · exact absurd rfl h
  · intro hnone
    apply List.find?_eq_none.mp hnone row (Table.mem_replace_self hold)
    have hfor := ExperimentRow.isFor_iff.mp (hp old (List.find?_some hold))
    rw [hrow]
    exact ExperimentRow.isFor_iff.mpr
      ⟨(hchange old).1.trans hfor.1, (hchange old).2.trans hfor.2⟩

theorem selectExperiment_updated {environmentId : Uuid} {key : String} {name : Option String}
    {description : Option (Option String)} {w : Written Nat}
    (hw : updateExperiment input environmentId key name description db = .ok w) (h : w.value ≠ 0) :
    selectExperiment environmentId key w.db ≠ none := by
  apply selectExperiment_modified _ _ hw h
  · exact fun _ hp => hp
  · exact fun _ => ⟨rfl, rfl⟩

theorem selectExperiment_moved {environmentId : Uuid} {key : String}
    {source target : ExperimentState} {w : Written Nat}
    (hw : transitionExperiment input environmentId key source target db = .ok w)
    (h : w.value ≠ 0) : selectExperiment environmentId key w.db ≠ none := by
  apply selectExperiment_modified _ _ hw h
  · exact fun _ hp => (Bool.and_eq_true_iff.mp hp).1
  · exact fun _ => ⟨rfl, rfl⟩

end

end Sql

end FlagForge.Storage
