/-
Module: FlagForge.Api.Audited
Layer: Api
Purpose: Requests whose statements may fail. A request that changes flags, configurations, segments or
  experiments writes once and audits the write by a statement of its own, so it is all or nothing
  exactly if no statement fails after the write.
Imports: FlagForge.Api.Experiments, FlagForge.Api.Server (the shop), FlagForge.Storage.Journal
Trusted boundary: none
Main exports: mention, Mentions, manage_commits, Audited, NoLateFault, audited_iff
-/
import FlagForge.Api.Experiments
import FlagForge.Api.Server
import FlagForge.Storage.Journal

namespace FlagForge.Api

open JournaledStore
open Storage
open Storage.Sql (Stmt Resp Input SqlError Written)

/-! ### Entries -/

/-- What an audit entry says about a request. -/
structure Mention where
  action : String
  resourceType : String
  resourceId : String

/-- The entry of a request that changes flags, configurations, segments or experiments. -/
def mention : Management → Option Mention
  | .configuration (.createFlag projectKey body) =>
      some ⟨"flag.created", "flag", s!"{projectKey}/{body.key}"⟩
  | .configuration (.updateFlag projectKey flagKey _) =>
      some ⟨"flag.updated", "flag", s!"{projectKey}/{flagKey}"⟩
  | .configuration (.deleteFlag projectKey flagKey) =>
      some ⟨"flag.deleted", "flag", s!"{projectKey}/{flagKey}"⟩
  | .configuration (.updateConfig projectKey environmentKey flagKey _) =>
      some ⟨"flag.configured", "flag", s!"{projectKey}/{environmentKey}/{flagKey}"⟩
  | .configuration (.createSegment projectKey environmentKey body) =>
      some ⟨"segment.created", "segment", s!"{projectKey}/{environmentKey}/{body.key}"⟩
  | .configuration (.updateSegment projectKey environmentKey segmentKey _) =>
      some ⟨"segment.updated", "segment", s!"{projectKey}/{environmentKey}/{segmentKey}"⟩
  | .configuration (.deleteSegment projectKey environmentKey segmentKey) =>
      some ⟨"segment.deleted", "segment", s!"{projectKey}/{environmentKey}/{segmentKey}"⟩
  | .configuration _ => none
  | .experiment (.create projectKey environmentKey body) =>
      some ⟨"experiment.created", "experiment", s!"{projectKey}/{environmentKey}/{body.key}"⟩
  | .experiment (.update projectKey environmentKey experimentKey _) =>
      some ⟨"experiment.updated", "experiment", s!"{projectKey}/{environmentKey}/{experimentKey}"⟩
  | .experiment (.start projectKey environmentKey experimentKey) =>
      some ⟨"experiment.started", "experiment", s!"{projectKey}/{environmentKey}/{experimentKey}"⟩
  | .experiment (.stop projectKey environmentKey experimentKey) =>
      some ⟨"experiment.stopped", "experiment", s!"{projectKey}/{environmentKey}/{experimentKey}"⟩
  | .experiment (.delete projectKey environmentKey experimentKey) =>
      some ⟨"experiment.deleted", "experiment", s!"{projectKey}/{environmentKey}/{experimentKey}"⟩

/-- The row says that the caller did it, in the caller's organization. -/
structure Mentions (caller : AuthUser) (m : Mention) (row : AuditRow) : Prop where
  organization : row.organizationId = caller.organizationId
  actor : row.actorUserId = some caller.userId ∧ row.actorEmail = caller.email
  action : row.action = m.action
  resource : row.resourceType = m.resourceType ∧ row.resourceId = m.resourceId

/-! ### Rules -/

section Rules

variable {α β γ : Type} {expected : AuditRow → Prop} {db : Db} {f : α → Handler β}

/-- A storage function in two steps. -/
theorem storage_bind (q : Query γ) (g : γ → Query α) :
    (storage (q >>= g) >>= f) = (storage q >>= fun a => storage (g a) >>= f) := by
  have hprog : ∀ p : Prog Stmt Resp (Except StorageError γ),
      (storage (ExceptT.mk p >>= g) >>= f) =
        (storage (ExceptT.mk p) >>= fun a => storage (g a) >>= f) := by
    intro p
    induction p with
    | done r => cases r <;> rfl
    | call s k ih => exact congrArg (Prog.call s) (funext ih)
  exact hprog q

/-- Two storage functions in a row are judged as one. -/
theorem commits_steps {q : Query γ} {g : γ → Query α}
    (h : journaled.Commits expected db (storage q >>= fun a => storage (g a) >>= f).run) :
    journaled.Commits expected db (storage (q >>= g) >>= f).run :=
  (storage_bind q g).symm ▸ h

/-- A check commits nothing. -/
theorem commits_check {r : Except ApiError α} (h : ∀ a, journaled.Commits expected db (f a).run) :
    journaled.Commits expected db (check r >>= f).run :=
  commits_bind (.done fun a _ => h a)

/-- A storage function that only looks, and the rest for every result. -/
theorem commits_storage {q : Query α}
    (h : journaled.Looks db (fun a => journaled.Commits expected db (f a).run) q.run) :
    journaled.Commits expected db (storage q >>= f).run :=
  commits_bind (looks_adapt h)

/-! Reads before the write. -/

/-- A read only looks. -/
theorem looks_plain {s : Stmt} {Q : s.Result → Prop} (hs : s.isRead = true) (hQ : ∀ v, Q v) :
    journaled.Looks db Q (plain s).run :=
  .read (reads_of_isRead hs) (fun _ => ⟨_, rfl⟩) fun _ _ _ => .done fun _ _ => hQ _

/-- Ending with `NotFound` commits nothing. -/
theorem looks_orNotFound {entity : String} {row : Option γ} {Q : γ → Prop} (hQ : ∀ a, Q a) :
    journaled.Looks db Q (orNotFound entity row).run :=
  .done fun a _ => hQ a

/-- A row that is looked up. -/
theorem commits_find {s : Stmt} {row : s.Result → Option α} {entity : String}
    (hs : s.isRead = true) (h : ∀ a, journaled.Commits expected db (f a).run) :
    journaled.Commits expected db
      (storage (do let result ← plain s; orNotFound entity (row result)) >>= f).run :=
  commits_storage (looks_bind (looks_plain hs fun _ => looks_orNotFound h))

/-- A read, and the rest for every value. -/
theorem commits_plain {s : Stmt} {f : s.Result → Handler β} (hs : s.isRead = true)
    (h : ∀ v, journaled.Commits expected db (f v).run) :
    journaled.Commits expected db (storage (plain s) >>= f).run :=
  commits_storage (looks_plain hs h)

/-- A storage computation without statements. -/
theorem commits_pure {r : Except StorageError α}
    (h : ∀ a, journaled.Commits expected db (f a).run) :
    journaled.Commits expected db (storage (ExceptT.mk (.done r)) >>= f).run :=
  commits_storage (.done fun a _ => h a)

/-- A read whose answer does not matter to the rows. -/
theorem commits_attempt {flagId environmentId : Uuid} {f : Option ConfigRow → Handler β}
    (halike : ∀ image image', journaled.Alike db (f image).run (f image').run)
    (h : ∀ image, journaled.Commits expected db (f image).run) :
    journaled.Commits expected db (attempt (findConfig flagId environmentId) >>= f).run := by
  rw [attempt_findConfig]
  exact .skip (reads_of_isRead rfl) (fun r r' => halike _ _) fun r => h _

/-! The write, and what comes after it. -/

/-- A write: where it has changed something, the entry has to follow; where it has not, the handler may
    end. -/
theorem commits_query {s : Stmt} {onError : SqlError → StorageError} {f : s.Result → Handler β}
    (hs : s.keepsLog = true) (hok : ∀ input w, s.run input db = .ok w →
      w.db = db ∧ journaled.Quits (f w.value).run ∨
        journaled.Closes expected w.db (f w.value).run) :
    journaled.Commits expected db (storage (query s onError) >>= f).run := by
  refine .write (writes_of_keepsLog hs) (fun _ => .done _) ?_
  intro input v hanswer
  obtain ⟨w, hw, rfl, hdb⟩ := Sql.run_of_exec_ok hanswer
  have hafter : (journaled.exec input s db).2 = w.db := hdb
  rw [hafter]
  exact hok input w hw

/-- After the write only such functions may stand before the entry as find what they look for. -/
theorem closes_storage {q : Query α}
    (h : journaled.Finds db (fun a => journaled.Closes expected db (f a).run) q.run) :
    journaled.Closes expected db (storage q >>= f).run :=
  closes_bind (finds_adapt h)

/-- A storage function that ends in an error ends the handler. -/
theorem quits_storage {q : Query α} (h : journaled.Quits q.run) :
    journaled.Quits (storage q >>= f).run :=
  quits_bind (quits_adapt h)

/-- An experiment that is there is found. -/
theorem finds_findExperiment {environmentId : Uuid} {key : String} {Q : ExperimentRow → Prop}
    (hfound : Sql.selectExperiment environmentId key db ≠ none) (hQ : ∀ row, Q row) :
    journaled.Finds db Q (findExperiment environmentId key).run := by
  refine finds_bind (.read (reads_of_isRead rfl) (fun _ => ⟨_, rfl⟩) ?_)
  intro input v hanswer
  obtain ⟨w, hw, rfl, _⟩ := Sql.run_of_exec_ok (s := .selectExperiment environmentId key) hanswer
  obtain ⟨row, hrow⟩ := Option.ne_none_iff_exists'.mp hfound
  cases hw
  refine .done ?_
  change journaled.Finds db Q
    (orNotFound "experiment" (Sql.selectExperiment environmentId key db)).run
  rw [hrow]
  exact .done (hQ row)

/-- The entry closes the handler, whether it is written or not. -/
theorem closes_audit {caller : AuthUser} {m : Mention} {environmentId : Option Uuid}
    {before after : Option Image} :
    journaled.Closes (Mentions caller m) db
      (caller.audit m.action m.resourceType m.resourceId environmentId before after).run :=
  .record (records_insertAudit fun _ => ⟨rfl, ⟨rfl, rfl⟩, rfl, ⟨rfl, rfl⟩⟩) (fun _ => ⟨_, rfl⟩)
    fun v => ⟨v, rfl⟩

end Rules

/-! ### Writes -/

section Writes

variable {β : Type} {expected : AuditRow → Prop} {db : Db} (crates : Crates)

/-- Updating a flag is one write, refused without effect if the flag is not there. -/
theorem commits_updateFlag {flagId : Uuid} {patch : Sql.FlagPatch} {f : FlagRow → Handler β}
    (h : ∀ db row, journaled.Closes expected db (f row).run) :
    journaled.Commits expected db (storage (Storage.updateFlag crates flagId patch) >>= f).run := by
  apply commits_steps
  apply commits_query rfl
  intro input w hw
  cases hrow : w.value with
  | none => exact .inl ⟨Sql.updateFlag_none hw hrow, .done _⟩
  | some row => exact .inr (h w.db row)

/-- Writing a configuration is one write, refused without effect on a conflict of versions. -/
theorem commits_upsertConfig {flagId environmentId : Uuid} {enabled : Bool} {offVariant : String}
    {fallthrough : Distribution} {rules : List Rule} {expectedVersion : Option Int64}
    {f : ConfigRow → Handler β} (h : ∀ db row, journaled.Closes expected db (f row).run) :
    journaled.Commits expected db (storage (Storage.upsertConfig crates flagId environmentId enabled
      offVariant fallthrough rules expectedVersion) >>= f).run := by
  apply commits_steps
  apply commits_query rfl
  intro input w hw
  cases hrow : w.value with
  | none => exact .inl ⟨Sql.upsertConfig_none hw hrow, .done _⟩
  | some row => exact .inr (h w.db row)

/-- The rows after the upsert do not depend on what comes after it. -/
theorem alike_upsertConfig {flagId environmentId : Uuid} {enabled : Bool} {offVariant : String}
    {fallthrough : Distribution} {rules : List Rule} {expectedVersion : Option Int64}
    {f f' : ConfigRow → Handler β} (h : ∀ db row, journaled.Closes expected db (f row).run)
    (h' : ∀ db row, journaled.Closes expected db (f' row).run) :
    journaled.Alike db
      (storage (Storage.upsertConfig crates flagId environmentId enabled offVariant fallthrough rules
        expectedVersion) >>= f).run
      (storage (Storage.upsertConfig crates flagId environmentId enabled offVariant fallthrough rules
        expectedVersion) >>= f').run := by
  apply alike_call
  intro input
  cases (journaled.exec input (.upsertConfig flagId environmentId enabled offVariant fallthrough
    rules expectedVersion) db).1 with
  | error e => exact fun _ => rfl
  | ok row =>
      cases row with
      | none => exact fun _ => rfl
      | some row => exact (h _ row).alike (h' _ row)

/-- So is writing a segment, after a look at it. -/
theorem commits_updateSegment {environmentId : Uuid} {key : String} {patch : Sql.SegmentPatch}
    {expectedVersion : Option Int64} {f : SegmentRow → Handler β}
    (h : ∀ db row, journaled.Closes expected db (f row).run) :
    journaled.Commits expected db
      (storage (Storage.updateSegment environmentId key patch expectedVersion) >>= f).run := by
  apply commits_steps
  apply commits_find rfl
  intro current
  apply commits_steps
  apply commits_pure
  intro _
  apply commits_steps
  apply commits_query rfl
  intro input w hw
  cases hrow : w.value with
  | none => exact .inl ⟨Sql.updateSegment_none hw hrow, .done _⟩
  | some row => exact .inr (h w.db row)

/-- A delete that reports no row. -/
theorem commits_orNoneDeleted {s : Stmt} {count : s.Result → Nat} {onError : SqlError → StorageError}
    {entity : String} {f : Unit → Handler β} (hs : s.keepsLog = true)
    (hnone : ∀ input w, s.run input db = .ok w → count w.value = 0 → w.db = db)
    (h : ∀ db, journaled.Closes expected db (f ()).run) :
    journaled.Commits expected db (storage (query s onError) >>= fun deleted =>
      storage (orNoneDeleted entity (count deleted)) >>= f).run := by
  apply commits_query hs
  intro input w hw
  by_cases hzero : count w.value = 0
  · refine .inl ⟨hnone input w hw hzero, ?_⟩
    rw [orNoneDeleted, if_pos hzero]
    exact .done _
  · rw [orNoneDeleted, if_neg hzero]
    exact .inr (h w.db)

/-- A flag with experiments is not deleted, and then nothing has changed. -/
theorem commits_deleteFlag {projectId : Uuid} {key : String} {f : Unit → Handler β}
    (h : ∀ db, journaled.Closes expected db (f ()).run) :
    journaled.Commits expected db (storage (Storage.deleteFlag projectId key) >>= f).run := by
  apply commits_steps
  apply commits_find rfl
  intro flag
  apply commits_steps
  apply commits_plain rfl
  intro referencing
  apply commits_steps
  apply commits_pure
  intro _
  apply commits_steps
  exact commits_orNoneDeleted (s := .deleteFlag projectId key) rfl
    (fun _ _ => Sql.deleteFlag_zero) h

/-- A segment that is referenced is not deleted, and then nothing has changed. -/
theorem commits_deleteSegment {environmentId : Uuid} {key : String} {f : Unit → Handler β}
    (h : ∀ db, journaled.Closes expected db (f ()).run) :
    journaled.Commits expected db
      (storage (Storage.deleteSegment environmentId key) >>= f).run := by
  apply commits_steps
  apply commits_plain rfl
  intro referencing
  apply commits_steps
  apply commits_pure
  intro _
  apply commits_steps
  exact commits_orNoneDeleted (s := .deleteSegment environmentId key) rfl
    (fun _ _ => Sql.deleteSegment_zero) h

/-- A new experiment is inserted and then read back: the read finds it. -/
theorem commits_createExperiment {environmentId flagId : Uuid} {key name : String}
    {description : Option String} {metricKey controlVariant : String}
    {f : ExperimentRow → Handler β} (h : ∀ db row, journaled.Closes expected db (f row).run) :
    journaled.Commits expected db (storage (createExperiment environmentId flagId key name description
      metricKey controlVariant) >>= f).run := by
  apply commits_steps
  apply commits_query rfl
  intro input w hw
  right
  exact closes_storage (finds_findExperiment (Sql.selectExperiment_inserted hw) (h w.db))

/-- So is one that is written. -/
theorem commits_updateExperiment {environmentId : Uuid} {key : String} {name : Option String}
    {description : Option (Option String)} {f : ExperimentRow → Handler β}
    (h : ∀ db row, journaled.Closes expected db (f row).run) :
    journaled.Commits expected db
      (storage (updateExperiment environmentId key name description) >>= f).run := by
  apply commits_steps
  apply commits_query rfl
  intro input (w : Written Nat) hw
  rw [storage_bind]
  simp only [orNoneWritten]
  by_cases hzero : w.value = 0
  · rw [if_pos hzero]
    exact .inl ⟨Sql.modifyExperiment_zero hw hzero, .done _⟩
  · rw [if_neg hzero]
    right
    have hfound := Sql.selectExperiment_updated hw hzero
    apply closes_storage
    exact .done (closes_storage (finds_findExperiment hfound (h w.db)))

/-- Where nothing was written, the experiment is read for the error. -/
theorem quits_orWrongState {environmentId : Uuid} {key needed : String} {written : Nat}
    (h : written = 0) : journaled.Quits (orWrongState environmentId key needed written).run := by
  rw [orWrongState, if_pos h]
  refine .read (s := .selectExperiment environmentId key) (reads_of_isRead rfl) ?_
  intro r
  cases r with
  | error e => exact .done _
  | ok row =>
      cases row with
      | none => exact .done _
      | some row => exact .done _

/-- And one that is started or stopped, if it was in the state for it. -/
theorem commits_transition {environmentId : Uuid} {key : String} {source target : ExperimentState}
    {f : ExperimentRow → Handler β} (h : ∀ db row, journaled.Closes expected db (f row).run) :
    journaled.Commits expected db
      (storage (transition environmentId key source target) >>= f).run := by
  apply commits_steps
  apply commits_query rfl
  intro input (w : Written Nat) hw
  rw [storage_bind]
  by_cases hzero : w.value = 0
  · exact .inl ⟨Sql.modifyExperiment_zero hw hzero, quits_storage (quits_orWrongState hzero)⟩
  · simp only [orWrongState, if_neg hzero]
    right
    have hfound := Sql.selectExperiment_moved hw hzero
    apply closes_storage
    exact .done (closes_storage (finds_findExperiment hfound (h w.db)))

/-- Deleting an experiment that is not there, or is running, changes nothing. -/
theorem commits_deleteExperiment {environmentId : Uuid} {key : String} {f : Unit → Handler β}
    (h : ∀ db, journaled.Closes expected db (f ()).run) :
    journaled.Commits expected db (storage (deleteExperiment environmentId key) >>= f).run := by
  apply commits_steps
  apply commits_query rfl
  intro input (w : Written Nat) hw
  by_cases hzero : w.value = 0
  · exact .inl ⟨Sql.deleteExperiment_zero hw hzero, quits_storage (quits_orWrongState hzero)⟩
  · simp only [orWrongState, if_neg hzero]
    exact .inr (h w.db)

end Writes

/-! ### Handlers -/

section Handlers

variable {crates : Crates} {caller : AuthUser} {db : Db}

/-- An entry, and then the result. -/
theorem closes_audited {α : Type} {m : Mention} {environmentId : Option Uuid}
    {before after : Option Image} {a : α} :
    journaled.Closes (Mentions caller m) db (do
      caller.audit m.action m.resourceType m.resourceId environmentId before after
      pure a : Handler α).run :=
  closes_map closes_audit

/-- Re-validating the configurations only looks. -/
theorem looks_revalidate {existing : FlagRow} {variants : List Variant} {Q : Unit → Prop}
    (hQ : Q ()) : ∀ environments : List EnvironmentRow,
      journaled.Looks db Q (revalidate crates existing variants environments).run
  | [] => .done fun _ _ => hQ
  | environment :: environments => by
      apply looks_bind
      apply looks_adapt
      apply looks_bind
      apply looks_plain rfl
      intro row
      apply looks_orNotFound
      intro config
      apply looks_bind
      exact .done fun _ _ => looks_revalidate hQ environments

/-- So does the check of new variants. -/
theorem looks_checkVariants {project : ProjectRow} {existing : FlagRow} {Q : Unit → Prop}
    (hQ : Q ()) : ∀ patched : Option (List Variant),
      journaled.Looks db Q (checkVariants crates project existing patched).run
  | none => .done fun _ _ => hQ
  | some variants => by
      apply looks_bind
      apply looks_adapt
      apply looks_plain (s := .selectEnvironments project.id) rfl
      intro environments
      exact looks_revalidate hQ environments

theorem createFlag_commits (projectKey : String) (body : CreateFlag) :
    journaled.Commits (Mentions caller ⟨"flag.created", "flag", s!"{projectKey}/{body.key}"⟩) db
      (createFlag crates caller projectKey body).run := by
  apply commits_check
  intro _
  apply commits_check
  intro _
  apply commits_find rfl
  intro project
  apply commits_check
  intro _
  apply commits_query rfl
  intro input w hw
  have hkey : w.value.key = body.key := by
    rw [(Sql.insertFlag_cases (Sql.createFlag_cases hw).1).2.2]
  right
  rw [← hkey]
  exact closes_audited

/-- A PATCH of a flag that was written has its entry, whatever it changed. -/
theorem updateFlag_commits (projectKey flagKey : String) (body : UpdateFlag) :
    journaled.Commits (Mentions caller ⟨"flag.updated", "flag", s!"{projectKey}/{flagKey}"⟩) db
      (updateFlag crates caller projectKey flagKey body).run := by
  apply commits_check
  intro _
  apply commits_find rfl
  intro project
  apply commits_find rfl
  intro existing
  apply commits_bind
  apply looks_checkVariants
  apply commits_updateFlag
  intro db row
  exact closes_audited

/-- A deleted flag has its entry. -/
theorem deleteFlag_commits (projectKey flagKey : String) :
    journaled.Commits (Mentions caller ⟨"flag.deleted", "flag", s!"{projectKey}/{flagKey}"⟩) db
      (deleteFlag caller projectKey flagKey).run := by
  apply commits_check
  intro _
  apply commits_find rfl
  intro project
  apply commits_deleteFlag
  intro db
  exact closes_audit

/-- A PUT on a configuration that was written has its entry. -/
theorem updateConfig_commits (projectKey environmentKey flagKey : String) (body : UpdateConfig) :
    journaled.Commits (Mentions caller
        ⟨"flag.configured", "flag", s!"{projectKey}/{environmentKey}/{flagKey}"⟩) db
      (updateConfig crates caller projectKey environmentKey flagKey body).run := by
  apply commits_check
  intro _
  apply commits_find rfl
  intro project
  apply commits_find rfl
  intro environment
  apply commits_find rfl
  intro flag
  apply commits_check
  intro evaluable
  apply commits_plain rfl
  intro known
  apply commits_check
  intro _
  apply commits_attempt
  · intro image image'
    apply alike_upsertConfig
    · intro db row
      exact closes_audited (m := ⟨"flag.configured", "flag", _⟩)
    · intro db row
      exact closes_audited
  · intro image
    apply commits_upsertConfig
    intro db row
    exact closes_audited

theorem createSegment_commits (projectKey environmentKey : String) (body : CreateSegment) :
    journaled.Commits (Mentions caller
        ⟨"segment.created", "segment", s!"{projectKey}/{environmentKey}/{body.key}"⟩) db
      (createSegment caller projectKey environmentKey body).run := by
  apply commits_check
  intro _
  apply commits_check
  intro _
  apply commits_find rfl
  intro project
  apply commits_find rfl
  intro environment
  apply commits_query rfl
  intro input w _
  exact .inr closes_audited

/-- So has a PUT on a segment. -/
theorem updateSegment_commits (projectKey environmentKey segmentKey : String)
    (body : UpdateSegment) :
    journaled.Commits (Mentions caller
        ⟨"segment.updated", "segment", s!"{projectKey}/{environmentKey}/{segmentKey}"⟩) db
      (updateSegment crates caller projectKey environmentKey segmentKey body).run := by
  apply commits_check
  intro _
  apply commits_find rfl
  intro project
  apply commits_find rfl
  intro environment
  apply commits_find rfl
  intro previous
  apply commits_check
  intro _
  apply commits_updateSegment
  intro db row
  exact closes_audited

theorem deleteSegment_commits (projectKey environmentKey segmentKey : String) :
    journaled.Commits (Mentions caller
        ⟨"segment.deleted", "segment", s!"{projectKey}/{environmentKey}/{segmentKey}"⟩) db
      (deleteSegment caller projectKey environmentKey segmentKey).run := by
  apply commits_check
  intro _
  apply commits_find rfl
  intro project
  apply commits_find rfl
  intro environment
  apply commits_find rfl
  intro previous
  apply commits_deleteSegment
  intro db
  exact closes_audit

theorem createExperiment_commits (projectKey environmentKey : String) (body : CreateExperiment) :
    journaled.Commits (Mentions caller
        ⟨"experiment.created", "experiment", s!"{projectKey}/{environmentKey}/{body.key}"⟩) db
      (Experiments.create caller projectKey environmentKey body).run := by
  apply commits_check
  intro _
  apply commits_check
  intro _
  apply commits_check
  intro _
  apply commits_find rfl
  intro project
  apply commits_find rfl
  intro environment
  apply commits_find rfl
  intro flag
  apply commits_check
  intro _
  apply commits_createExperiment
  intro db row
  exact closes_audited

theorem updateExperiment_commits (projectKey environmentKey experimentKey : String)
    (body : UpdateExperiment) :
    journaled.Commits (Mentions caller
        ⟨"experiment.updated", "experiment", s!"{projectKey}/{environmentKey}/{experimentKey}"⟩) db
      (Experiments.update caller projectKey environmentKey experimentKey body).run := by
  apply commits_check
  intro _
  apply commits_find rfl
  intro project
  apply commits_find rfl
  intro environment
  apply commits_find rfl
  intro previous
  apply commits_updateExperiment
  intro db row
  exact closes_audited

/-- Starting and stopping write the entry under their own action. -/
theorem transition_commits (projectKey environmentKey experimentKey action : String)
    (source target : ExperimentState) :
    journaled.Commits (Mentions caller
        ⟨action, "experiment", s!"{projectKey}/{environmentKey}/{experimentKey}"⟩) db
      (Experiments.transition caller projectKey environmentKey experimentKey
        (fun environmentId key => transition environmentId key source target) action).run := by
  apply commits_check
  intro _
  apply commits_find rfl
  intro project
  apply commits_find rfl
  intro environment
  apply commits_transition
  intro db row
  exact closes_audited

theorem deleteExperiment_commits (projectKey environmentKey experimentKey : String) :
    journaled.Commits (Mentions caller
        ⟨"experiment.deleted", "experiment", s!"{projectKey}/{environmentKey}/{experimentKey}"⟩) db
      (Experiments.delete caller projectKey environmentKey experimentKey).run := by
  apply commits_check
  intro _
  apply commits_find rfl
  intro project
  apply commits_find rfl
  intro environment
  apply commits_find rfl
  intro previous
  apply commits_deleteExperiment
  intro db
  exact closes_audit

/-- Whatever the request, it reads, writes once and audits the write. -/
theorem manage_commits {request : Management} {m : Mention} (h : mention request = some m) :
    journaled.Commits (Mentions caller m) db (manage crates caller request).run := by
  cases request with
  | configuration request =>
      cases request with
      | createFlag projectKey body =>
          cases h
          exact commits_map (createFlag_commits projectKey body)
      | updateFlag projectKey flagKey body =>
          cases h
          exact commits_map (updateFlag_commits projectKey flagKey body)
      | deleteFlag projectKey flagKey =>
          cases h
          exact deleteFlag_commits projectKey flagKey
      | updateConfig projectKey environmentKey flagKey body =>
          cases h
          exact commits_map (updateConfig_commits projectKey environmentKey flagKey body)
      | createSegment projectKey environmentKey body =>
          cases h
          exact commits_map (createSegment_commits projectKey environmentKey body)
      | updateSegment projectKey environmentKey segmentKey body =>
          cases h
          exact commits_map (updateSegment_commits projectKey environmentKey segmentKey body)
      | deleteSegment projectKey environmentKey segmentKey =>
          cases h
          exact deleteSegment_commits projectKey environmentKey segmentKey
      | createProject | deleteProject | createEnvironment | deleteEnvironment => cases h
  | experiment request =>
      cases request with
      | create projectKey environmentKey body =>
          cases h
          exact commits_map (createExperiment_commits projectKey environmentKey body)
      | update projectKey environmentKey experimentKey body =>
          cases h
          exact commits_map (updateExperiment_commits projectKey environmentKey experimentKey body)
      | start projectKey environmentKey experimentKey =>
          cases h
          exact commits_map (transition_commits projectKey environmentKey experimentKey _ _ _)
      | stop projectKey environmentKey experimentKey =>
          cases h
          exact commits_map (transition_commits projectKey environmentKey experimentKey _ _ _)
      | delete projectKey environmentKey experimentKey =>
          cases h
          exact deleteExperiment_commits projectKey environmentKey experimentKey

end Handlers

/-- Either the configuration is as before, or the whole change is there, as it is when no statement
    fails, and one entry that says so. A request that is answered with an error has changed nothing. -/
def Audited (crates : Crates) (inputs : Nat → Input) (caller : AuthUser) (request : Management)
    (m : Mention) (db : Db) : Prop :=
  let out := administer crates inputs caller request db
  (out.2.configuration = db.configuration ∨
    out.2.configuration =
      (administer crates (fun n => (inputs n).spare) caller request db).2.configuration ∧
    ∃ row, Mentions caller m row ∧ out.2.auditLog = db.auditLog ++ [row]) ∧
  ∀ e, out.1 = .error e → out.2 = db

/-- The statements that a request executes, with the states they find. -/
def executed (crates : Crates) (inputs : Nat → Input) (caller : AuthUser) (request : Management)
    (db : Db) : List (JournaledStore.Event Stmt Input Db) :=
  journaled.events inputs (manage crates caller request).run db

/-- No statement of the request fails after one that has changed the configuration. -/
def NoLateFault (crates : Crates) (inputs : Nat → Input) (caller : AuthUser) (request : Management)
    (db : Db) : Prop :=
  (executed crates inputs caller request db).Pairwise fun x y =>
    (Sql.exec x.input x.stmt x.found).2.configuration ≠ x.found.configuration →
      ¬∃ e, (Sql.exec y.input y.stmt y.found).1 = .error e

/-- A change is audited, or did not happen, exactly if no statement fails after the write: the write
    commits on its own, so a fault between it and the entry leaves a change that nobody recorded. -/
theorem audited_iff {crates : Crates} {caller : AuthUser} {inputs : Nat → Input}
    {request : Management} {m : Mention} {db : Db} (h : mention request = some m) :
    Audited crates inputs caller request m db ↔ NoLateFault crates inputs caller request db :=
  (manage_commits h).atomic_iff inputs

/-! ### A configuration in the shop -/

namespace Shop

def switchOff : Management :=
  .configuration (.updateConfig "shop" "live" "checkout" ⟨false, "off", .fixed "on", [], some 1⟩)

def switched : Mention := ⟨"flag.configured", "flag", "shop/live/checkout"⟩

/-- Only the seventh statement fails: the entry. -/
def faulty : Nat → Input := fun n => { tick with fails := n = 6 }

/-- The versions of the configurations. -/
def versions (db : Db) : List Int64 :=
  db.flagConfigs.map ConfigRow.version

end Shop

/-- Without faults, switching the flag off is audited. -/
theorem audited_iff_switched :
    Audited .plain (fun _ => Shop.tick) Shop.owner Shop.switchOff Shop.switched Shop.store := by
  apply (audited_iff rfl).mpr
  have hok : (executed .plain (fun _ => Shop.tick) Shop.owner Shop.switchOff Shop.store).all
      (fun x => (Sql.exec x.input x.stmt x.found).1.isOk) = true := by decide
  apply List.pairwise_of_forall_mem_list
  intro x _ y hy _ hfails
  obtain ⟨e, he⟩ := hfails
  have hanswer := List.all_eq_true.mp hok y hy
  rw [he] at hanswer
  cases hanswer

/-- The request is answered with an error, and the flag is switched off without an entry. -/
theorem switched_unaudited :
    (administer .plain Shop.faulty Shop.owner Shop.switchOff Shop.store).1 = .error .internal ∧
    Shop.versions (administer .plain Shop.faulty Shop.owner Shop.switchOff Shop.store).2 = [2] ∧
    Shop.versions Shop.store = [1] ∧
    (administer .plain Shop.faulty Shop.owner Shop.switchOff Shop.store).2.auditLog.length = 0 ∧
    ¬Audited .plain Shop.faulty Shop.owner Shop.switchOff Shop.switched Shop.store := by
  have herror : (administer .plain Shop.faulty Shop.owner Shop.switchOff Shop.store).1 =
      .error .internal := by decide
  have hversions : Shop.versions
      (administer .plain Shop.faulty Shop.owner Shop.switchOff Shop.store).2 = [2] := by decide
  refine ⟨herror, hversions, by decide, by decide, ?_⟩
  intro haudited
  rw [haudited.2 _ herror] at hversions
  cases hversions

end FlagForge.Api
