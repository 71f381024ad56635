/-
Module: FlagForge.Storage.AuditImages
Layer: Storage
Purpose: Configurations and segments as rows whose changes the audit log shows. The statements of the
  requests that replace them either write the row, one version above the row they replace, or leave
  it alone, and the log only grows.
Imports: FlagForge.Lib.ChangeLog, FlagForge.Storage.Journal, FlagForge.Storage.Optimistic
Trusted boundary: none
Main exports: configEntries, segmentEntries, Audits, audits_config, audits_segment, trail_perm
-/
import FlagForge.Lib.ChangeLog
import FlagForge.Storage.Journal
import FlagForge.Storage.Optimistic

namespace FlagForge.Storage

open Pool (Event Traced)
open Sql (Stmt Resp SqlError Input Written SegmentPatch NewAuditEntry exec)

/-! ### Images -/

/-- The configuration that the image shows, if it is the one of the flag in the environment. -/
def Image.configOf (flagId environmentId : Uuid) : Image → Option ConfigRow
  | .config row => if row.isFor flagId environmentId then some row else none
  | _ => none

/-- The segment that the image shows, if it is the environment's segment of that key. -/
def Image.segmentOf (environmentId : Uuid) (key : String) : Image → Option SegmentRow
  | .segment row => if row.isFor environmentId key then some row else none
  | _ => none

/-- The image before, and the row after, if that is a row in question. -/
def changed {ρ : Type} (rowOf : Image → Option ρ) (before after : Option Image) :
    Option (Option Image × ρ) :=
  (after.bind rowOf).map fun row => (before, row)

/-- The entry that a statement recorded. -/
def recorded : (s : Stmt) → Resp s → Option NewAuditEntry
  | .insertAudit entry, .ok _ => some entry
  | _, _ => none

/-- The configuration of a flag in an environment, and the audit entries about it. -/
def configEntries (flagId environmentId : Uuid) : NotedRow Stmt Resp Db ConfigRow Image where
  toVersionedRow := configVersions flagId environmentId
  image := .config
  read
    | .selectConfig flagId' environmentId', .ok row =>
        if flagId' = flagId ∧ environmentId' = environmentId then some row else none
    | _, _ => none
  note s r := (recorded s r).bind fun entry =>
    changed (Image.configOf flagId environmentId) entry.before entry.after

/-- The segment of an environment with some key, and the audit entries about it. -/
def segmentEntries (environmentId : Uuid) (key : String) :
    NotedRow Stmt Resp Db SegmentRow Image where
  toVersionedRow := segmentVersions environmentId key
  image := .segment
  read
    | .selectSegment environmentId' key', .ok row =>
        if environmentId' = environmentId ∧ key' = key then some row else none
    | _, _ => none
  note s r := (recorded s r).bind fun entry =>
    changed (Image.segmentOf environmentId key) entry.before entry.after

/-- The statements of the requests that replace configurations and segments. -/
def Sql.Stmt.isPut : Stmt → Bool
  | .upsertConfig .. | .updateSegment .. | .insertAudit .. => true
  | s => s.isRead

/-- What the entries about a row have to do with the statements. -/
structure Audits {ρ : Type} (A : NotedRow Stmt Resp Db ρ Image) (rowOf : Image → Option ρ) :
    Prop where
  injective : Function.Injective A.image
  note_eq : ∀ s r, A.note s r =
    (recorded s r).bind fun entry => changed rowOf entry.before entry.after
  unwritten : ∀ s r, s.isRead = true ∨ (∃ entry, s = .insertAudit entry) → A.write s r = none
  refusedConfig : ∀ flagId environmentId enabled offVariant fallthrough rules expectedVersion,
    A.write (.upsertConfig flagId environmentId enabled offVariant fallthrough rules expectedVersion)
      (.ok (none : Option ConfigRow)) = none
  refusedSegment : ∀ environmentId key patch expectedVersion,
    A.write (.updateSegment environmentId key patch expectedVersion)
      (.ok (none : Option SegmentRow)) = none
  exact : ∀ e : Event Stmt Db Input, e.stmt.isPut = true → A.Exact exec e
  current : ∀ (e : Event Stmt Db Input) copy, A.readOf exec e = some copy → A.find e.before = copy

section

variable {ρ : Type} {A : NotedRow Stmt Resp Db ρ Image}

/-- What a successful statement does to the row. -/
def ExactRun (A : NotedRow Stmt Resp Db ρ Image) {s : Stmt} (db : Db) (w : Written s.Result) : Prop :=
  match A.write s (.ok w.value) with
  | some (_, row) => A.find w.db = some row ∧
      ∀ old, A.find db = some old → A.version row = A.version old + 1
  | none => A.find w.db = A.find db

/-- A statement that fails is exact, and so is one whose success is. -/
theorem exact_of_run (herror : ∀ s error, A.write s (.error error) = none)
    (hrun : ∀ (input : Input) (s : Stmt) (db : Db) (w : Written s.Result), s.isPut = true →
      s.run input db = .ok w → ExactRun A db w) (e : Event Stmt Db Input) (hput : e.stmt.isPut = true) :
    A.Exact exec e := by
  obtain ⟨thread, input, s, db⟩ := e
  rw [NotedRow.Exact, VersionedRow.writeOf]
  simp only [Event.answer, Event.after]
  cases hanswer : (exec input s db).1 with
  | ok value =>
      obtain ⟨w, hw, rfl, hdb⟩ := Sql.run_of_exec_ok hanswer
      rw [hdb]
      exact hrun input s db w hput hw
  | error error =>
      rw [herror]
      exact congrArg A.find (Sql.db_of_exec_error hanswer)

end

/-- An upsert writes the configuration, or leaves every other one alone. -/
theorem config_run (flagId environmentId : Uuid) (input : Input) (s : Stmt) (db : Db)
    (w : Written s.Result) (hput : s.isPut = true) (hw : s.run input db = .ok w) :
    ExactRun (configEntries flagId environmentId) db w := by
  cases s with
  | upsertConfig flagId' environmentId' enabled offVariant fallthrough rules expectedVersion =>
      have hselected : ∀ {row : ConfigRow} {version : Int64}, row = Sql.writtenConfig input flagId'
          environmentId' enabled offVariant fallthrough rules version →
            row.isFor flagId' environmentId' = true := by
        rintro row version rfl
        simp [Sql.writtenConfig]
      by_cases hthis : flagId' = flagId ∧ environmentId' = environmentId
      · obtain ⟨rfl, rfl⟩ := hthis
        rcases Sql.upsertConfig_cases hw with ⟨row, hrow, hnone, _, _, rfl⟩ |
          ⟨stored, row, hstored, _, hmax, hrow, rfl⟩ | ⟨_, _, _, rfl⟩
        · simp only [ExactRun, configEntries, configVersions, and_self, if_true]
          constructor
          · have hfound := hselected hrow
            rw [Sql.selectConfig] at hnone ⊢
            simp [hnone, hfound]
          · simp [hnone]
        · simp only [ExactRun, configEntries, configVersions, and_self, if_true]
          refine ⟨Table.find?_replace hstored (hselected hrow), ?_⟩
          intro old hold
          cases hstored.symm.trans hold
          rw [hrow]
          exact Sql.toInt_bumped hmax
        · exact rfl
      · have hother : ∀ r : ConfigRow, r.isFor flagId' environmentId' = true →
            r.isFor flagId environmentId = false := fun r hr => ConfigRow.isFor_eq_false hr hthis
        rcases Sql.upsertConfig_cases hw with ⟨row, hrow, _, _, _, rfl⟩ |
          ⟨_, row, _, _, _, hrow, rfl⟩ | ⟨_, _, _, rfl⟩
        · simp only [ExactRun, configEntries, configVersions, hthis, if_false]
          simp [Sql.selectConfig, hother row (hselected hrow)]
        · simp only [ExactRun, configEntries, configVersions, hthis, if_false]
          exact Table.find?_replace_of_disjoint (hother row (hselected hrow))
            fun r _ hr => hother r hr
        · exact rfl
  | updateSegment =>
      rcases Sql.updateSegment_cases hw with ⟨_, _, _, _, _, _, rfl⟩ | ⟨rfl, _⟩ <;> exact rfl
  | insertAudit =>
      obtain ⟨_, rfl⟩ := Sql.insertAudit_cases hw
      exact rfl
  | _ =>
      first
      | exact absurd hput Bool.false_ne_true
      | cases hw
        exact rfl

/-- An update writes the segment, or leaves every other one alone. -/
theorem segment_run (environmentId : Uuid) (key : String) (input : Input) (s : Stmt) (db : Db)
    (w : Written s.Result) (hput : s.isPut = true) (hw : s.run input db = .ok w) :
    ExactRun (segmentEntries environmentId key) db w := by
  cases s with
  | updateSegment environmentId' key' patch expectedVersion =>
      rcases Sql.updateSegment_cases hw with ⟨stored, row, hstored, _, hmax, hrow, rfl⟩ | ⟨rfl, _⟩
      · have hselected : row.isFor environmentId' key' = true := by
          have hfor := SegmentRow.isFor_iff.mp (List.find?_some hstored)
          simp [hrow, Sql.SegmentPatch.apply, hfor]
        by_cases hthis : environmentId' = environmentId ∧ key' = key
        · obtain ⟨rfl, rfl⟩ := hthis
          simp only [ExactRun, segmentEntries, segmentVersions, and_self, if_true]
          refine ⟨Table.find?_replace hstored hselected, ?_⟩
          intro old hold
          cases hstored.symm.trans hold
          rw [hrow]
          exact Sql.toInt_bumped hmax
        · have hother : ∀ r : SegmentRow, r.isFor environmentId' key' = true →
              r.isFor environmentId key = false := fun r hr => SegmentRow.isFor_eq_false hr hthis
          simp only [ExactRun, segmentEntries, segmentVersions, hthis, if_false]
          exact Table.find?_replace_of_disjoint (hother row hselected) fun r _ hr => hother r hr
      · exact rfl
  | upsertConfig =>
      rcases Sql.upsertConfig_cases hw with ⟨_, _, _, _, _, rfl⟩ | ⟨_, _, _, _, _, _, rfl⟩ |
        ⟨_, _, _, rfl⟩ <;> exact rfl
  | insertAudit =>
      obtain ⟨_, rfl⟩ := Sql.insertAudit_cases hw
      exact rfl
  | _ =>
      first
      | exact absurd hput Bool.false_ne_true
      | cases hw
        exact rfl

/-- The entries of PUTs on a configuration show its rows. -/
theorem audits_config (flagId environmentId : Uuid) :
    Audits (configEntries flagId environmentId) (Image.configOf flagId environmentId) where
  injective := fun _ _ heq => Image.config.inj heq
  note_eq := fun _ _ => rfl
  unwritten := by
    intro s r h
    cases s <;> first | rfl | simp [Stmt.isRead] at h
  refusedConfig := fun _ _ _ _ _ _ _ => rfl
  refusedSegment := fun _ _ _ _ => rfl
  exact := by
    apply exact_of_run
    · intro s error
      cases s <;> rfl
    · exact config_run flagId environmentId
  current := by
    rintro ⟨thread, input, s, db⟩ copy hread
    cases s with
    | selectConfig flagId' environmentId' =>
        simp only [NotedRow.readOf, Event.answer, configEntries] at hread
        cases hanswer : (exec input (.selectConfig flagId' environmentId') db).1 with
        | error error => simp [hanswer] at hread
        | ok row =>
            obtain ⟨w, hw, rfl, _⟩ := Sql.run_of_exec_ok hanswer
            cases hw
            simp only [hanswer, Option.ite_none_right_eq_some] at hread
            obtain ⟨⟨rfl, rfl⟩, hcopy⟩ := hread
            exact Option.some.inj hcopy
    | _ => cases hread

/-- Those of PUTs on a segment show its rows. -/
theorem audits_segment (environmentId : Uuid) (key : String) :
    Audits (segmentEntries environmentId key) (Image.segmentOf environmentId key) where
  injective := fun _ _ heq => Image.segment.inj heq
  note_eq := fun _ _ => rfl
  unwritten := by
    intro s r h
    cases s <;> first | rfl | simp [Stmt.isRead] at h
  refusedConfig := fun _ _ _ _ _ _ _ => rfl
  refusedSegment := fun _ _ _ _ => rfl
  exact := by
    apply exact_of_run
    · intro s error
      cases s <;> rfl
    · exact segment_run environmentId key
  current := by
    rintro ⟨thread, input, s, db⟩ copy hread
    cases s with
    | selectSegment environmentId' key' =>
        simp only [NotedRow.readOf, Event.answer, segmentEntries] at hread
        cases hanswer : (exec input (.selectSegment environmentId' key') db).1 with
        | error error => simp [hanswer] at hread
        | ok row =>
            obtain ⟨w, hw, rfl, _⟩ := Sql.run_of_exec_ok hanswer
            cases hw
            simp only [hanswer, Option.ite_none_right_eq_some] at hread
            obtain ⟨⟨rfl, rfl⟩, hcopy⟩ := hread
            exact Option.some.inj hcopy
    | _ => cases hread

/-! ### The trail -/

/-- The row that an event added to the log. -/
def loggedRow (e : Event Stmt Db Input) : Option AuditRow :=
  (recorded e.stmt (e.answer exec)).map fun entry => entry.row e.input.now

/-- The changes that the entries show. -/
def changesIn {ρ : Type} (rowOf : Image → Option ρ) (log : List AuditRow) :
    List (Option Image × ρ) :=
  log.filterMap fun row => changed rowOf row.before row.after

/-- The entries that were added since the beginning. -/
def trail (initial db : Db) : List AuditRow :=
  db.auditLog.drop initial.auditLog.length

/-- A statement of a PUT appends its entry, if it is one. -/
theorem auditLog_after {e : Event Stmt Db Input} (hput : e.stmt.isPut = true) :
    (e.after exec).auditLog = e.before.auditLog ++ (loggedRow e).toList := by
  obtain ⟨thread, input, s, db⟩ := e
  simp only [loggedRow, Event.answer, Event.after]
  cases hanswer : (exec input s db).1 with
  | error error =>
      have hnone : recorded s (.error error) = none := by cases s <;> rfl
      simp [hnone, Sql.db_of_exec_error hanswer]
  | ok value =>
      obtain ⟨w, hw, rfl, hdb⟩ := Sql.run_of_exec_ok hanswer
      rw [hdb]
      cases s with
      | insertAudit entry =>
          obtain ⟨_, hw⟩ := Sql.of_require hw
          cases hw
          rfl
      | _ =>
          first
          | exact absurd hput Bool.false_ne_true
          | simpa [recorded] using auditLog_run rfl hw

section

variable {α ρ : Type} {A : NotedRow Stmt Resp Db ρ Image} {rowOf : Image → Option ρ} {initial : Db}
variable {origins : List (Prog Stmt Resp α)} {events : List (Event Stmt Db Input)}
variable {pool : Pool Stmt Resp α Db}

/-- So the log of a run is what it was and the entries in the order of the events. -/
theorem auditLog_of_traced (h : Traced exec initial origins events pool)
    (hputs : ∀ e ∈ events, e.stmt.isPut = true) :
    pool.db.auditLog = initial.auditLog ++ (events.filterMap loggedRow).reverse := by
  induction h with
  | start => simp
  | spawn p _ ih => exact ih hputs
  | @run origins events db before after log s k input _ ih =>
      have hlog := ih fun e he => hputs e (List.mem_cons_of_mem _ he)
      have hafter := auditLog_after (hputs ⟨before.length, input, s, db⟩ List.mem_cons_self)
      simp only [Event.after] at hafter
      rw [hafter, hlog, List.filterMap_cons]
      cases loggedRow ⟨before.length, input, s, db⟩ <;> simp

/-- The changes that the new entries show are those that were noted. -/
theorem trail_perm (haudits : Audits A rowOf) (h : Traced exec initial origins events pool)
    (hputs : ∀ e ∈ events, e.stmt.isPut = true) :
    (changesIn rowOf (trail initial pool.db)).Perm (events.filterMap (A.noteOf exec)) := by
  have hnote : ∀ e : Event Stmt Db Input, A.noteOf exec e =
      (loggedRow e).bind fun row => changed rowOf row.before row.after := by
    intro e
    simp [NotedRow.noteOf, haudits.note_eq, loggedRow, Option.bind_map, NewAuditEntry.row]
  have htrail : trail initial pool.db = (events.filterMap loggedRow).reverse := by
    rw [trail, auditLog_of_traced h hputs, List.drop_left]
  rw [changesIn, htrail, List.filterMap_reverse, List.filterMap_filterMap, funext hnote]
  exact List.reverse_perm _

/-- An answer that the database can give, and that is not a failure. -/
def Genuine (e : (s : Stmt) × Resp s) : Prop :=
  ∃ input db value, (exec input e.1 db).1 = .ok value ∧ e.2 = .ok value

theorem Genuine.ok {s : Stmt} {r : Resp s} (h : Genuine ⟨s, r⟩) : ∃ value, r = .ok value := by
  obtain ⟨_, _, value, _, hvalue⟩ := h
  exact ⟨value, hvalue⟩

/-- A configuration that an upsert returns is the one it is for. -/
theorem isFor_of_genuine_upsert {flagId environmentId : Uuid} {enabled : Bool} {offVariant : String}
    {fallthrough : Distribution} {rules : List Rule} {expectedVersion : Option Int64}
    {row : ConfigRow} (h : Genuine ⟨.upsertConfig flagId environmentId enabled offVariant fallthrough
      rules expectedVersion, .ok (some row)⟩) :
    row.flagId = flagId ∧ row.environmentId = environmentId := by
  obtain ⟨input, db, value, hanswer, heq⟩ := h
  cases heq
  obtain ⟨w, hw, hvalue, _⟩ := Sql.run_of_exec_ok hanswer
  rcases Sql.upsertConfig_cases hw with ⟨_, hrow, _, _, _, rfl⟩ | ⟨_, _, _, _, _, hrow, rfl⟩ |
    ⟨_, _, _, rfl⟩ <;> cases hvalue <;> rw [hrow] <;> exact ⟨rfl, rfl⟩

/-- A segment that an update returns is the one it is for. -/
theorem isFor_of_genuine_update {environmentId : Uuid} {key : String} {patch : SegmentPatch}
    {expectedVersion : Option Int64} {row : SegmentRow}
    (h : Genuine ⟨.updateSegment environmentId key patch expectedVersion, .ok (some row)⟩) :
    row.environmentId = environmentId ∧ row.key = key := by
  obtain ⟨input, db, value, hanswer, heq⟩ := h
  cases heq
  obtain ⟨w, hw, hvalue, _⟩ := Sql.run_of_exec_ok hanswer
  rcases Sql.updateSegment_cases hw with ⟨old, _, hold, _, _, hrow, rfl⟩ | ⟨rfl, _⟩
  · have hfor := SegmentRow.isFor_iff.mp (List.find?_some hold)
    cases hvalue
    rw [hrow]
    exact hfor
  · cases hvalue

/-- What is known of the entries about a row: unless somebody writes the row between a read and a
    write of it by one thread, each shows the row that was written and the row that was replaced; and
    when all is done, that is so, and the entries are a chain in the order of their versions, only
    if nobody does. Nobody does if the threads run one after another. -/
structure KeepsTrail (A : NotedRow Stmt Resp Db ρ Image) (rowOf : Image → Option ρ) (initial : Db)
    (events : List (Event Stmt Db Input)) (pool : Pool Stmt Resp α Db) : Prop where
  entries : (changesIn rowOf (trail initial pool.db)).Perm (events.filterMap (A.noteOf exec))
  faithful : A.Undisturbed exec events → A.Faithful exec events
  chained_iff : (∀ t ∈ pool.threads, ∃ a, t.prog = .done a) →
    (A.Faithful exec events ∧ A.Chained (changesIn rowOf (trail initial pool.db)) ↔
      A.Undisturbed exec events)
  serial : events.Pairwise (fun later earlier => earlier.thread ≤ later.thread) →
    A.Undisturbed exec events

/-- In a run of such programs the entries tell every change of a resource, in the order
    of the changes. -/
theorem keepsTrail (haudits : Audits A rowOf) (h : Traced exec initial origins events pool)
    (hputs : ∀ p ∈ origins, Prog.Obeys (fun _ s => s.isPut = true) (fun _ _ => True) [] p)
    (hwriters : ∀ p ∈ origins, A.Writer Genuine [] p)
    (hok : ∀ e ∈ events, ∃ value, e.answer exec = .ok value) :
    KeepsTrail A rowOf initial events pool := by
  have hput : ∀ e ∈ events, e.stmt.isPut = true := by
    intro e he
    obtain ⟨later, earlier, hevents⟩ := List.append_of_mem he
    exact h.justified hputs hevents
  have hgenuine : ∀ e ∈ events, Genuine (e.learned exec) := by
    intro e he
    obtain ⟨value, hvalue⟩ := hok e he
    exact ⟨e.input, e.before, value, hvalue, hvalue⟩
  have hperm := trail_perm haudits h hput
  have hkept := NotedRow.kept_of_traced h hwriters hgenuine (fun e he => haudits.exact e (hput e he))
    fun e _ => haudits.current e
  refine ⟨hperm, hkept.faithful, fun hfinished => ?_, hkept.undisturbed_of_serial⟩
  have hnoted := NotedRow.allNoted_of_finished h hwriters hgenuine hfinished
  constructor
  · rintro ⟨hfaithful, _⟩
    exact hkept.undisturbed haudits.injective hnoted hfaithful
  · intro hundisturbed
    have hfaithful := hkept.faithful hundisturbed
    refine ⟨hfaithful, fun sorted hsorted => ?_⟩
    exact hkept.chained hnoted hfaithful sorted (hsorted.trans hperm)

end

end FlagForge.Storage
