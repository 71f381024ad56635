/-
Module: FlagForge.Service.Tenants
Layer: Service
Purpose: The organizations as tenants of the whole store. Beside its rows in the tables an organization
  has the counters of its experiments, the numbers of its audit entries and the keys of its
  environments, and the statements that name what it has see and change nothing else.
Imports: FlagForge.Service.Separation, FlagForge.Service.Store, FlagForge.Storage.Journal
Trusted boundary: an identifier that the database generates is not generated twice
Main exports: Assignment.storeView, Apart, Own, Answer, tenancy
-/
import FlagForge.Service.Separation
import FlagForge.Service.Store
import FlagForge.Storage.Journal

namespace FlagForge.Service

open Storage
open Storage.Sql (SqlError require nameCheck)
open Storage.Counting (upsertCounter upsertCounters ingestCells cascade)
open Api.AuditPages (LoggedRow)

namespace Assignment

variable (a : Assignment) (organizationId : Uuid)

/-- What an organization has of the store. -/
def storeView (store : Store) : Store where
  db := a.view organizationId store.db
  counters := store.counters.filter fun c => a.id c.experimentId = organizationId
  serials := Tenancy.select AuditRow.organizationId organizationId store.db.auditLog store.serials
  keys := store.keys.filter fun k => a.id k.environmentId = organizationId

/-- Rows, counters and keys are in one organization with what they refer to, which exists, and the
    entries of the audit log are numbered. -/
structure Apart (store : Store) : Prop where
  separate : a.Separate store.db
  counter : ∀ c ∈ store.counters, ∃ x ∈ store.db.experiments, x.id = c.experimentId
  key : ∀ k ∈ store.keys, ∃ e ∈ store.db.environments, e.id = k.environmentId
  keyId : ∀ k ∈ store.keys, a.id k.id = a.id k.environmentId
  keyHash : ∀ k ∈ store.keys, a.keyHash k.keyHash = a.id k.environmentId
  numbered : store.db.auditLog.length = store.serials.length

/-- The statement names what the organization has. -/
def Own : Stmt → Prop
  | .counted (.sql s) => a.SqlOwn organizationId s
  | .counted (.ingest id _) | .selectFlags id _ | .selectExperiments id
  | .selectJoinedExperiment id _ | .selectTotals id | .selectHours id _ | .selectKeys id
  | .touchKey id => a.id id = organizationId
  | .selectConfigured projectId environmentId _ =>
      a.id projectId = organizationId ∧ a.id environmentId = organizationId
  | .selectProjects id | .selectAudit id .. => id = organizationId
  | .insertKey environmentId _ keyHash .. =>
      a.id environmentId = organizationId ∧ a.keyHash keyHash = organizationId
  | .revokeKey environmentId _ => a.id environmentId = organizationId
  | .resolveKey keyHash => a.keyHash keyHash = organizationId

/-- What an answer hands to the caller is the organization's. -/
def Answer : (s : Stmt) → Resp s → Prop
  | .counted (.sql s), r => SqlAnswer a organizationId s r
  | .selectJoinedExperiment .., .ok (row : Option Experiment) =>
      ∀ x, row = some x → a.id x.id = organizationId
  | .resolveKey _, .ok (found : Option KeyIdentity) =>
      ∀ identity, found = some identity → a.id identity.environmentId = organizationId
  | _, _ => True

end Assignment

/-- The statements that insert a row with an identifier of the database. -/
def Stmt.generates : Stmt → Bool
  | .counted (.sql s) => sqlGenerates s
  | .insertKey .. => true
  | _ => false

/-! ### Counters -/

section Counters

variable {a : Assignment} {organizationId environmentId : Uuid} {db : Db}

/-- Adding to a counter of the organization does to its counters what it does to them among all. -/
theorem upsertCounter_view {row : CounterRow} (hrow : a.id row.experimentId = organizationId)
    (counters : List CounterRow) :
    upsertCounter row (counters.filter fun c => a.id c.experimentId = organizationId) =
      (fun rows : List CounterRow => rows.filter fun c => a.id c.experimentId = organizationId) <$>
        upsertCounter row counters := by
  have hown : ∀ c ∈ counters, c.sameCell row = true →
      decide (a.id c.experimentId = organizationId) = true := by
    intro c _ hc
    rw [decide_eq_true_eq, (Counting.sameCell_iff.mp hc).1, hrow]
  rw [upsertCounter, upsertCounter, Part.find?_eq hown]
  cases hold : counters.find? (·.sameCell row) with
  | none =>
      simp only []
      split
      · exact congrArg Except.ok (Part.append_eq (by simpa using hrow)).symm
      · rfl
  | some old =>
      simp only []
      split
      · refine congrArg Except.ok (Part.replace_eq hown ?_).symm
        have hsame := List.find?_some hold
        exact hown old (List.mem_of_find?_eq_some hold) hsame
      · rfl

/-- So does a batch of them, which may fail half-way: it fails alike. -/
theorem upsertCounters_view {rows : List CounterRow}
    (hrows : ∀ row ∈ rows, a.id row.experimentId = organizationId) : ∀ counters : List CounterRow,
    upsertCounters rows (counters.filter fun c => a.id c.experimentId = organizationId) =
      (fun rows : List CounterRow => rows.filter fun c => a.id c.experimentId = organizationId) <$>
        upsertCounters rows counters := by
  induction rows with
  | nil => exact fun _ => rfl
  | cons row rows ih =>
      intro counters
      rw [upsertCounters, upsertCounters, upsertCounter_view (hrows row List.mem_cons_self)]
      cases upsertCounter row counters with
      | error e => rfl
      | ok counters => exact ih (fun row hrow => hrows row (List.mem_cons_of_mem _ hrow)) counters

/-- The experiment that a delta is joined with is found in the organization's part as in the whole. -/
theorem joined_view {e : Counting.DeltaCell × Nat} (h : a.id environmentId = organizationId) :
    Counting.joined environmentId (a.view organizationId db) e =
      Counting.joined environmentId db e := by
  rw [Counting.joined, Counting.joined]
  congr 1
  apply Part.filter_eq
  intro x _ hx
  rw [Bool.and_eq_true, ExperimentRow.isFor_iff] at hx
  rw [decide_eq_true_eq, hx.1.1, h]

/-- A delta of an environment of the organization is counted for one of its experiments. -/
theorem joined_own {cells : List (Counting.DeltaCell × Nat)} (hseparate : a.Separate db)
    (h : a.id environmentId = organizationId) {row : CounterRow}
    (hrow : row ∈ cells.flatMap (Counting.joined environmentId db)) :
    a.id row.experimentId = organizationId ∧ ∃ x ∈ db.experiments, x.id = row.experimentId := by
  obtain ⟨e, _, hrow⟩ := List.mem_flatMap.mp hrow
  obtain ⟨x, hx, hfor, _, rfl⟩ := Counting.mem_joined hrow
  refine ⟨?_, x, hx, rfl⟩
  rw [hseparate.experiment x hx, (ExperimentRow.isFor_iff.mp hfor).1, h]

/-- The counters that go with their experiments are those of the part, in the part. -/
theorem cascade_view {counters : List CounterRow} (hseparate : a.Separate db) :
    cascade (a.view organizationId db) (counters.filter fun c =>
        a.id c.experimentId = organizationId) =
      (cascade db counters).filter fun c => a.id c.experimentId = organizationId := by
  apply Part.filter_congr
  intro c _ hc
  exact experiment_view hseparate (of_decide_eq_true hc)

end Counters

/-! ### The numbers of the audit entries -/

section Serials

variable {a : Assignment} {organizationId : Uuid}

/-- A statement appends a numbered entry, or leaves the entries to their organizations. -/
theorem log_cases (input : Input) (s : Counting.Stmt) (m : Measured) :
    (∃ f : AuditRow → AuditRow, (∀ r, (f r).organizationId = r.organizationId) ∧
        (Counting.exec input.toInput s m).2.db.auditLog = m.db.auditLog.map f ∧
        ∀ serials, numbered input.serial s (Counting.exec input.toInput s m).1 serials = serials) ∨
      ∃ entry row, s = .sql (.insertAudit entry) ∧ row.organizationId = entry.organizationId ∧
        (Counting.exec input.toInput s m).2.db.auditLog = m.db.auditLog ++ [row] ∧
        ∀ serials, numbered input.serial s (Counting.exec input.toInput s m).1 serials =
          serials ++ [input.serial] := by
  have hsame : ∀ {db : Db}, db.auditLog = m.db.auditLog →
      (∀ r : AuditRow, (id r).organizationId = r.organizationId) ∧
        db.auditLog = m.db.auditLog.map id := fun h => ⟨fun _ => rfl, h.trans (List.map_id _).symm⟩
  have hcascaded : ∀ (p : EnvironmentRow → Bool) (db : Db), ∃ f : AuditRow → AuditRow,
      (∀ r, (f r).organizationId = r.organizationId) ∧
        (Sql.withoutEnvironments p db).auditLog = db.auditLog.map f :=
    fun p db => ⟨fun r => { r with environmentId := r.environmentId.filter fun id =>
      !((db.environments.filter p).map EnvironmentRow.id).contains id }, fun _ => rfl, rfl⟩
  rcases Counting.exec_cases input.toInput s m with ⟨t, rfl, hm⟩ | ⟨environmentId, cells, rfl, hm⟩
  · by_cases hinsert : ∃ entry, t = .insertAudit entry
    · obtain ⟨entry, rfl⟩ := hinsert
      cases hanswer : (Sql.exec input.toInput (.insertAudit entry) m.db).1 with
      | error e =>
          obtain ⟨hf, hlog⟩ := hsame (congrArg Db.auditLog (Sql.db_of_exec_error hanswer))
          refine .inl ⟨id, hf, hlog, fun serials => ?_⟩
          simp only [Counting.exec, hanswer, numbered]
      | ok value =>
          obtain ⟨w, hw, _, hdb⟩ := Sql.run_of_exec_ok hanswer
          obtain ⟨_, hw⟩ := Sql.of_require hw
          cases hw
          refine .inr ⟨entry, _, rfl, rfl, congrArg Db.auditLog hdb, fun serials => ?_⟩
          simp only [Counting.exec, hanswer, numbered]
    · have hnumbered : ∀ serials, numbered input.serial (.sql t)
          (Counting.exec input.toInput (.sql t) m).1 serials = serials := by
        intro serials
        cases t with
        | insertAudit entry => exact absurd ⟨entry, rfl⟩ hinsert
        | _ => rfl
      suffices h : ∃ f : AuditRow → AuditRow, (∀ r, (f r).organizationId = r.organizationId) ∧
          (Sql.exec input.toInput t m.db).2.auditLog = m.db.auditLog.map f by
        obtain ⟨f, hf, hlog⟩ := h
        exact .inl ⟨f, hf, hlog, hnumbered⟩
      rcases Sql.exec_db_cases input.toInput t m.db with hdb | ⟨w, hw, hdb⟩
      · exact ⟨id, hsame (congrArg Db.auditLog hdb)⟩
      · rw [hdb]
        cases hkeeps : t.keepsLog with
        | true => exact ⟨id, hsame (auditLog_run hkeeps hw)⟩
        | false =>
            cases t with
            | insertAudit entry => exact absurd ⟨entry, rfl⟩ hinsert
            | deleteProject organizationId key =>
                rcases Sql.deleteProject_cases hw with rfl | ⟨project, _, _, hdb⟩
                · exact ⟨id, hsame rfl⟩
                · rw [hdb]
                  exact hcascaded _ _
            | deleteEnvironment projectId key =>
                rw [(Sql.deleteEnvironment_cases hw).1]
                exact hcascaded _ _
            | _ => cases hkeeps
  · refine .inl ⟨id, ?_⟩
    have hlog : (Counting.exec input.toInput (.ingest environmentId cells) m).2.db.auditLog =
        m.db.auditLog := by
      rcases hm with hm | ⟨_, _, hm⟩
      · rw [hm]
      · rw [hm]
    exact ⟨(hsame hlog).1, (hsame hlog).2, fun _ => rfl⟩

end Serials

/-! ### What an organization sees -/

section Sees

variable {a : Assignment} {organizationId environmentId : Uuid} {input : Input} {store : Store}
  {α : Type}

/-- The statement does to what the organization has what it does to the store, and answers alike. -/
def SeesStore (a : Assignment) (organizationId : Uuid) (input : Input) (s : Stmt) (store : Store) :
    Prop :=
  exec input s (a.storeView organizationId store) =
    ((exec input s store).1, a.storeView organizationId (exec input s store).2)

/-- A read that finds the same answers the same. -/
theorem read_sees {answer answer' : Except SqlError α} (h : answer' = answer) :
    read input answer' (a.storeView organizationId store) =
      ((read input answer store).1, a.storeView organizationId (read input answer store).2) := by
  rw [h]
  rfl

/-- A write that comes to the organization's part of what it comes to leaves that part. -/
theorem write_sees {outcome outcome' : Except SqlError (α × Store)}
    (h : outcome' = (fun o => (o.1, a.storeView organizationId o.2)) <$> outcome) :
    write input outcome' (a.storeView organizationId store) =
      ((write input outcome store).1, a.storeView organizationId (write input outcome store).2) := by
  rw [h]
  cases hfails : input.fails with
  | true => simp only [write, hfails, if_true]
  | false =>
      cases outcome with
      | ok o => simp [write, hfails]
      | error e => simp [write, hfails]

/-- So does a write that cannot fail. -/
theorem write_sees_ok {f : Store → α × Store} (h : f (a.storeView organizationId store) =
    ((f store).1, a.storeView organizationId (f store).2)) :
    write input (.ok (f (a.storeView organizationId store))) (a.storeView organizationId store) =
      ((write input (.ok (f store)) store).1,
        a.storeView organizationId (write input (.ok (f store)) store).2) := by
  apply write_sees
  exact congrArg Except.ok h

/-- The statements on counters and configuration see the organization's part only,
    counters included. -/
theorem counted_sees {s : Counting.Stmt} (hown : a.Own organizationId (.counted s))
    (hid : Stmt.generates (.counted s) = true → a.id input.id = organizationId) (hapart : a.Apart store) :
    Counting.exec input.toInput s (a.storeView organizationId store).toMeasured =
      ((Counting.exec input.toInput s store.toMeasured).1,
        ⟨a.view organizationId (Counting.exec input.toInput s store.toMeasured).2.db,
          (Counting.exec input.toInput s store.toMeasured).2.counters.filter fun c =>
            a.id c.experimentId = organizationId⟩) := by
  cases s with
  | sql t =>
      have hsql := exec_of_sees (sql_sees hown hid hapart.separate)
      have hseparate := (sql_changes hown hid hapart.separate).separate hapart.separate
      simp only [Counting.exec, Assignment.storeView, hsql, cascade_view hseparate]
  | ingest environmentId cells =>
      have hcells : cells.flatMap (Counting.joined environmentId (a.view organizationId store.db)) =
          cells.flatMap (Counting.joined environmentId store.db) := by
        apply List.flatMap_congr
        exact fun e _ => joined_view hown
      have hrows : ∀ row ∈ cells.flatMap (Counting.joined environmentId store.db),
          a.id row.experimentId = organizationId :=
        fun row hrow => (joined_own hapart.separate hown hrow).1
      simp only [Counting.exec, ingestCells, Assignment.storeView, hcells, upsertCounters_view hrows]
      cases input.fails with
      | true => rfl
      | false =>
          cases upsertCounters (cells.flatMap (Counting.joined environmentId store.db))
            store.counters <;> rfl

theorem counted_view {s : Counting.Stmt} (hown : a.Own organizationId (.counted s))
    (hid : Stmt.generates (.counted s) = true → a.id input.id = organizationId) (hapart : a.Apart store) :
    SeesStore a organizationId input (.counted s) store := by
  have hcounted := counted_sees hown hid hapart
  have hkeys : cascadeKeys (a.view organizationId (Counting.exec input.toInput s
        store.toMeasured).2.db) (store.keys.filter fun k => a.id k.environmentId = organizationId) =
      (cascadeKeys (Counting.exec input.toInput s store.toMeasured).2.db store.keys).filter fun k =>
        a.id k.environmentId = organizationId := by
    apply Part.filter_congr
    intro k _ hk
    refine anyEnvironment_view ?_ (of_decide_eq_true hk)
    cases s with
    | sql t => exact (sql_changes hown hid hapart.separate).separate hapart.separate
    | ingest environmentId cells =>
        rcases Counting.exec_cases input.toInput (.ingest environmentId cells) store.toMeasured with
          ⟨_, h, _⟩ | ⟨_, _, _, hm | ⟨_, _, hm⟩⟩
        · cases h
        · rw [hm]
          exact hapart.separate
        · rw [hm]
          exact hapart.separate
  have hserials : numbered input.serial s (Counting.exec input.toInput s store.toMeasured).1
        (Tenancy.select AuditRow.organizationId organizationId store.db.auditLog store.serials) =
      Tenancy.select AuditRow.organizationId organizationId
        (Counting.exec input.toInput s store.toMeasured).2.db.auditLog
        (numbered input.serial s (Counting.exec input.toInput s store.toMeasured).1
          store.serials) := by
    rcases log_cases input s store.toMeasured with
      ⟨f, hf, hlog, hnumbered⟩ | ⟨entry, row, rfl, hrow, hlog, hnumbered⟩
    · rw [hnumbered, hnumbered, hlog, Tenancy.select_map hf]
    · rw [hnumbered, hnumbered, hlog, Tenancy.select_append hapart.numbered,
        Tenancy.select_cons_own (hrow.trans hown.1)]
      rfl
  rw [SeesStore]
  simp only [exec, countedStore, hcounted]
  simp only [Assignment.storeView, hserials, hkeys]

/-- An experiment of the organization is joined with its flag in the part as in the whole. -/
theorem withFlag_view {x : ExperimentRow} (hseparate : a.Separate store.db)
    (hflag : a.id x.flagId = organizationId) :
    withFlag (a.view organizationId store.db) x = withFlag store.db x := by
  rw [withFlag, withFlag, joined_flags_view hseparate x.flagId hflag fun f hf => of_decide_eq_true hf]

/-- So is every experiment of a selection within the organization. -/
theorem withFlag_flatMap_view {p : ExperimentRow → Bool} (hseparate : a.Separate store.db)
    (hp : ∀ x, p x = true → a.id x.environmentId = organizationId) :
    ((a.view organizationId store.db).experiments.filter p).flatMap
        (withFlag (a.view organizationId store.db)) =
      (store.db.experiments.filter p).flatMap (withFlag store.db) := by
  have hrows : (a.view organizationId store.db).experiments.filter p =
      store.db.experiments.filter p := by
    apply Part.filter_eq
    intro x _ hx
    rw [decide_eq_true_eq]
    exact hp x hx
  rw [hrows]
  apply List.flatMap_congr
  intro x hx
  obtain ⟨hx, hselected⟩ := List.mem_filter.mp hx
  exact withFlag_view hseparate ((hseparate.measured x hx).trans (hp x hselected))

/-- The organization's part of the audit log has its own entries, with the numbers that they have. -/
theorem log_view : (a.storeView organizationId store).log =
    store.log.filter fun r => r.row.organizationId = organizationId :=
  Tenancy.zipWith_select (f := LoggedRow.mk) (p := fun r => r.row.organizationId = organizationId)
    fun _ _ => rfl

/-- The counters of an experiment of the organization are all in its part. -/
theorem rowsOf_view {experimentId : Uuid} {counters : List CounterRow}
    (h : a.id experimentId = organizationId) :
    rowsOf experimentId (counters.filter fun c => a.id c.experimentId = organizationId) =
      rowsOf experimentId counters := by
  apply Part.filter_eq
  intro c _ hc
  rw [decide_eq_true_eq, of_decide_eq_true hc, h]

/-- The configured flags of a project of the organization are all in its part. -/
theorem selectConfigured_view {projectId : Uuid} {includeArchived : Bool}
    (hproject : a.id projectId = organizationId) (henvironment : a.id environmentId = organizationId) :
    selectConfigured projectId environmentId includeArchived (a.view organizationId store.db) =
      selectConfigured projectId environmentId includeArchived store.db := by
  have hflags : (a.view organizationId store.db).flags.filter (fun f =>
      f.projectId = projectId && (includeArchived || !f.archived)) = store.db.flags.filter fun f =>
      f.projectId = projectId && (includeArchived || !f.archived) := by
    apply Part.filter_eq
    intro f _ hf
    rw [Bool.and_eq_true, decide_eq_true_eq] at hf
    rw [decide_eq_true_eq, hf.1, hproject]
  rw [selectConfigured, selectConfigured, hflags]
  congr 1
  apply List.flatMap_congr
  intro f _
  rw [filter_configs_view henvironment fun c hc => (ConfigRow.isFor_iff.mp hc).2]

/-- A new key whose hash is the organization's is inserted, or refused, in the part as in the whole: a
    hash that another organization's key has is not its own. -/
theorem insertKey_view {name keyHash shown : String} {scope : Api.KeyScope}
    (hid : a.id input.id = organizationId) (henvironment : a.id environmentId = organizationId)
    (hhash : a.keyHash keyHash = organizationId) (hapart : a.Apart store) :
    insertKey input environmentId name keyHash shown scope (a.storeView organizationId store) =
      (fun o => (o.1, a.storeView organizationId o.2)) <$>
        insertKey input environmentId name keyHash shown scope store := by
  have hunique : ((a.storeView organizationId store).keys.all fun k =>
      !(k.id = input.id || k.keyHash = keyHash)) =
      store.keys.all fun k => !(k.id = input.id || k.keyHash = keyHash) := by
    apply Part.all_eq
    intro k hk h
    rw [Bool.not_eq_false', Bool.or_eq_true, decide_eq_true_eq, decide_eq_true_eq] at h
    rw [decide_eq_true_eq]
    rcases h with h | h
    · rw [← hapart.keyId k hk, h, hid]
    · rw [← hapart.keyHash k hk, h, hhash]
  have hforeign : ((a.storeView organizationId store).db.environments.any (·.id = environmentId)) =
      store.db.environments.any (·.id = environmentId) :=
    anyEnvironment_view hapart.separate henvironment
  simp only [insertKey, hunique, hforeign, map_bind, map_pure]
  congr 1
  funext _
  congr 1
  funext _
  congr 1
  funext _
  simp [Assignment.storeView, henvironment]

/-- Revoking a key of an environment of the organization finds it in the part. -/
theorem revokeKey_view {id : Uuid} (henvironment : a.id environmentId = organizationId) :
    revokeKey input environmentId id (a.storeView organizationId store) =
      ((revokeKey input environmentId id store).1,
        a.storeView organizationId (revokeKey input environmentId id store).2) := by
  have hselected : (store.keys.filter fun k => a.id k.environmentId = organizationId).filter
      (fun k => k.id = id && k.environmentId = environmentId) =
      store.keys.filter fun k => k.id = id && k.environmentId = environmentId := by
    apply Part.filter_eq
    intro k _ hk
    simp only [Bool.and_eq_true, decide_eq_true_eq] at hk
    rw [decide_eq_true_eq, hk.2, henvironment]
  have hkeys : (store.keys.filter fun k => a.id k.environmentId = organizationId).map (fun k =>
        if k.id = id && k.environmentId = environmentId then k.revoke input.now else k) =
      (store.keys.map fun k => if k.id = id && k.environmentId = environmentId then
        k.revoke input.now else k).filter fun k => a.id k.environmentId = organizationId := by
    apply Part.filter_map
    intro k
    split <;> rfl
  simp only [revokeKey, hselected, Assignment.storeView, hkeys]

/-- Noting the use of a key does the same in the part, where it finds the key or not. -/
theorem touchKey_view {id : Uuid} :
    touchKey input id (a.storeView organizationId store) =
      ((touchKey input id store).1, a.storeView organizationId (touchKey input id store).2) := by
  have hkeys : (store.keys.filter fun k => a.id k.environmentId = organizationId).map (fun k =>
        if k.id = id && k.stale input.now then { k with lastUsedAt := some input.now } else k) =
      (store.keys.map fun k => if k.id = id && k.stale input.now then
        { k with lastUsedAt := some input.now } else k).filter fun k =>
          a.id k.environmentId = organizationId := by
    apply Part.filter_map
    intro k
    split <;> rfl
  simp only [touchKey, Assignment.storeView, hkeys]

/-- A presented key of the organization is looked up in the part as in the whole. -/
theorem resolveKey_view {keyHash : String} (hhash : a.keyHash keyHash = organizationId)
    (hapart : a.Apart store) : resolveKey keyHash (a.storeView organizationId store) =
      resolveKey keyHash store := by
  have hkeys : (a.storeView organizationId store).keys.filter (fun k =>
      k.keyHash = keyHash && k.revokedAt.isNone) = store.keys.filter fun k =>
      k.keyHash = keyHash && k.revokedAt.isNone := by
    apply Part.filter_eq
    intro k hk h
    rw [Bool.and_eq_true, decide_eq_true_eq] at h
    rw [decide_eq_true_eq, ← hapart.keyHash k hk, h.1, hhash]
  rw [resolveKey, resolveKey, hkeys]
  congr 1
  apply List.flatMap_congr
  intro k hk
  obtain ⟨hk, h⟩ := List.mem_filter.mp hk
  rw [Bool.and_eq_true, decide_eq_true_eq] at h
  have henvironment : a.id k.environmentId = organizationId := by
    rw [← hapart.keyHash k hk, h.1, hhash]
  have henvironments : (a.storeView organizationId store).db.environments.filter
      (·.id = k.environmentId) = store.db.environments.filter (·.id = k.environmentId) := by
    apply Part.filter_eq
    intro e he h
    rw [decide_eq_true_eq, ← hapart.separate.environment e he, of_decide_eq_true h, henvironment]
  rw [henvironments]
  apply List.flatMap_congr
  intro e he
  obtain ⟨he, h⟩ := List.mem_filter.mp he
  congr 1
  apply Part.filter_eq
  intro p hp hselected
  rw [decide_eq_true_eq, ← hapart.separate.project p hp, of_decide_eq_true hselected,
    ← hapart.separate.environment e he, of_decide_eq_true h, henvironment]

/-- A statement of an organization sees what the organization has only. -/
theorem store_sees {s : Stmt} (hown : a.Own organizationId s)
    (hid : s.generates = true → a.id input.id = organizationId) (hapart : a.Apart store) :
    SeesStore a organizationId input s store := by
  cases s with
  | counted s => exact counted_view hown hid hapart
  | selectProjects id =>
      cases hown
      apply read_sees
      exact congrArg (fun rows => Except.ok (Table.orderBy _ rows)) (Part.filter_eq fun _ _ h => h)
  | selectFlags projectId includeArchived =>
      apply read_sees
      refine congrArg (fun rows => Except.ok (Table.orderBy _ rows)) (Part.filter_eq ?_)
      intro f _ hf
      rw [Bool.and_eq_true, decide_eq_true_eq] at hf
      rw [decide_eq_true_eq, hf.1]
      exact hown
  | selectConfigured projectId environmentId includeArchived =>
      exact read_sees (congrArg Except.ok (selectConfigured_view hown.1 hown.2))
  | selectExperiments environmentId =>
      apply read_sees
      refine congrArg (fun rows => Except.ok (Table.orderBy _ rows)) ?_
      apply withFlag_flatMap_view hapart.separate
      intro x hx
      rw [of_decide_eq_true hx]
      exact hown
  | selectJoinedExperiment environmentId key =>
      apply read_sees
      refine congrArg (fun rows : List Experiment => Except.ok rows.head?) ?_
      apply withFlag_flatMap_view hapart.separate
      intro x hx
      rw [(ExperimentRow.isFor_iff.mp hx).1]
      exact hown
  | selectTotals experimentId =>
      apply read_sees
      have hrows : rowsOf experimentId (a.storeView organizationId store).counters =
          rowsOf experimentId store.counters := rowsOf_view hown
      rw [selectTotals, selectTotals, hrows]
  | selectHours experimentId since =>
      apply read_sees
      simp only [selectHours, rowsSince, Assignment.storeView, rowsOf_view hown]
  | selectAudit id resourceType resourceId beforeId limit =>
      cases hown
      apply read_sees
      rw [Api.AuditPages.selectAudit, Api.AuditPages.selectAudit, log_view, Part.filter_eq]
      intro r _ h
      simp only [Api.AuditPages.selects, Bool.and_eq_true] at h
      exact h.1.1.1
  | insertKey environmentId name keyHash shown scope =>
      exact write_sees (insertKey_view (hid rfl) hown.1 hown.2 hapart)
  | selectKeys environmentId =>
      apply read_sees
      refine congrArg (fun rows => Except.ok ((Table.orderBy _ rows).map KeyRow.apiKey))
        (Part.filter_eq ?_)
      intro k _ hk
      rw [decide_eq_true_eq, of_decide_eq_true hk]
      exact hown
  | revokeKey environmentId id =>
      exact write_sees_ok (f := revokeKey input environmentId id) (revokeKey_view hown)
  | resolveKey keyHash => exact read_sees (congrArg Except.ok (resolveKey_view hown hapart))
  | touchKey id =>
      exact write_sees_ok (f := touchKey input id) touchKey_view

end Sees

/-! ### What an organization changes -/

/-- From one state of the store to the other, only what the organization has changed. -/
structure StoreChanges (a : Assignment) (organizationId : Uuid) (store store' : Store) : Prop where
  tables : Changes a organizationId store.db store'.db
  counters : Part.Changed (fun c => a.id c.experimentId = organizationId) (fun _ => True)
    store.counters store'.counters
  keys : Part.Changed (fun k => a.id k.environmentId = organizationId)
    (fun k => a.id k.id = a.id k.environmentId ∧ a.keyHash k.keyHash = a.id k.environmentId)
    store.keys store'.keys
  serials : ∀ other, other ≠ organizationId →
    Tenancy.select AuditRow.organizationId other store'.db.auditLog store'.serials =
      Tenancy.select AuditRow.organizationId other store.db.auditLog store.serials
  counter : ∀ c ∈ store'.counters, ∃ x ∈ store'.db.experiments, x.id = c.experimentId
  key : ∀ k ∈ store'.keys, ∃ e ∈ store'.db.environments, e.id = k.environmentId
  numbered : store'.db.auditLog.length = store'.serials.length

namespace StoreChanges

variable {a : Assignment} {organizationId : Uuid} {store store' : Store}

theorem refl (h : a.Apart store) : StoreChanges a organizationId store store :=
  ⟨.refl, .refl, .refl, fun _ _ => rfl, h.counter, h.key, h.numbered⟩

/-- Other organizations have what they had. -/
theorem spared {other : Uuid} (h : StoreChanges a organizationId store store')
    (hother : other ≠ organizationId) : a.storeView other store' = a.storeView other store := by
  have apart : ∀ x : Uuid, decide (x = other) = true → decide (x = organizationId) = false := by
    intro x hx
    rw [of_decide_eq_true hx]
    exact decide_eq_false hother
  rw [Assignment.storeView, Assignment.storeView, h.tables.spared hother,
    h.counters.outside _ fun _ => apart _, h.keys.outside _ fun _ => apart _, h.serials other hother]

/-- What a statement of one organization changes leaves the store divided among the organizations. -/
theorem apart (h : StoreChanges a organizationId store store') (hapart : a.Apart store) :
    a.Apart store' where
  separate := h.tables.separate hapart.separate
  counter := h.counter
  key := h.key
  keyId k hk := (h.keys.keeps (fun k hk => ⟨hapart.keyId k hk, hapart.keyHash k hk⟩) k hk).1
  keyHash k hk := (h.keys.keeps (fun k hk => ⟨hapart.keyId k hk, hapart.keyHash k hk⟩) k hk).2
  numbered := h.numbered

end StoreChanges

section Changes

variable {a : Assignment} {organizationId environmentId : Uuid} {input : Input} {store : Store}

/-- The experiments of other organizations are still there. -/
theorem experiment_spared {db db' : Db} {x : ExperimentRow} (hseparate : a.Separate db)
    (hchanges : Changes a organizationId db db') (hx : x ∈ db.experiments)
    (hforeign : a.id x.id ≠ organizationId) : x ∈ db'.experiments := by
  have hview := congrArg Db.experiments (hchanges.spared hforeign)
  have hmem : x ∈ (a.view (a.id x.id) db).experiments :=
    List.mem_filter.mpr ⟨hx, decide_eq_true (hseparate.experiment x hx).symm⟩
  rw [← hview] at hmem
  exact (List.mem_filter.mp hmem).1

/-- Another organization's environment is still there. -/
theorem environment_spared {db db' : Db} {e : EnvironmentRow} (hseparate : a.Separate db)
    (hchanges : Changes a organizationId db db') (he : e ∈ db.environments)
    (hforeign : a.id e.id ≠ organizationId) : e ∈ db'.environments := by
  have hview := congrArg Db.environments (hchanges.spared hforeign)
  have hmem : e ∈ (a.view (a.id e.id) db).environments :=
    List.mem_filter.mpr ⟨he, decide_eq_true (hseparate.environment e he).symm⟩
  rw [← hview] at hmem
  exact (List.mem_filter.mp hmem).1

/-- A batch of counters of the organization changes no others. -/
theorem upsertCounters_changes {rows counters counters' : List CounterRow}
    (hrows : ∀ row ∈ rows, a.id row.experimentId = organizationId)
    (h : upsertCounters rows counters = .ok counters') :
    Part.Changed (fun c => a.id c.experimentId = organizationId) (fun _ => True) counters
      counters' := by
  refine Counting.upsertCounters_invariant (I := Part.Changed _ _ counters) ?_ h .refl
  intro row hrow mid mid' hstep hchanged
  apply hchanged.trans
  have hown : ∀ c ∈ mid, c.sameCell row = true →
      decide (a.id c.experimentId = organizationId) = true := by
    intro c _ hc
    rw [decide_eq_true_eq, (Counting.sameCell_iff.mp hc).1, hrows row hrow]
  rcases Counting.upsertCounter_cases hstep with ⟨old, hold, rfl⟩ | ⟨_, rfl⟩
  · have hsame := List.find?_some hold
    exact .replace hown (hown old (List.mem_of_find?_eq_some hold) hsame) trivial
  · apply Part.Changed.append
    intro c hc
    cases List.mem_singleton.mp hc
    exact ⟨decide_eq_true (hrows row hrow), trivial⟩

/-- The counters keep their experiments, and the new ones have theirs. -/
theorem upsertCounters_counter {rows counters counters' : List CounterRow} {p : Uuid → Prop}
    (hrows : ∀ row ∈ rows, p row.experimentId) (hcounters : ∀ c ∈ counters, p c.experimentId)
    (h : upsertCounters rows counters = .ok counters') : ∀ c ∈ counters', p c.experimentId := by
  refine Counting.upsertCounters_invariant (I := fun cs => ∀ c ∈ cs, p c.experimentId) ?_ h hcounters
  intro row hrow mid mid' hstep hmid c hc
  rcases Counting.upsertCounter_cases hstep with ⟨old, hold, rfl⟩ | ⟨_, rfl⟩
  · rcases Table.mem_replace hc with rfl | ⟨hc, _⟩
    · exact hmid old (List.mem_of_find?_eq_some hold)
    · exact hmid c hc
  · rcases List.mem_append.mp hc with hc | hc
    · exact hmid c hc
    · cases List.mem_singleton.mp hc
      exact hrows row hrow

/-- A statement on counters changes the configuration of its organization only. -/
theorem counting_changes {s : Counting.Stmt} (hown : a.Own organizationId (.counted s))
    (hid : Stmt.generates (.counted s) = true → a.id input.id = organizationId) (hapart : a.Apart store) :
    Changes a organizationId store.db (Counting.exec input.toInput s store.toMeasured).2.db := by
  rcases Counting.exec_cases input.toInput s store.toMeasured with
    ⟨t, rfl, hm⟩ | ⟨environmentId, cells, rfl, hm | ⟨counters, _, hm⟩⟩
  · exact sql_changes hown hid hapart.separate
  · rw [hm]
    exact .refl
  · rw [hm]
    exact .refl

/-- And the counters of its organization only. -/
theorem counted_changes {s : Counting.Stmt} (hown : a.Own organizationId (.counted s))
    (hid : Stmt.generates (.counted s) = true → a.id input.id = organizationId) (hapart : a.Apart store) :
    StoreChanges a organizationId store (countedStore input s store) := by
  have htables := counting_changes hown hid hapart
  have hcounters : Part.Changed (fun c => a.id c.experimentId = organizationId) (fun _ => True)
        store.counters (Counting.exec input.toInput s store.toMeasured).2.counters ∧
      ∀ c ∈ (Counting.exec input.toInput s store.toMeasured).2.counters,
        ∃ x ∈ (Counting.exec input.toInput s store.toMeasured).2.db.experiments,
          x.id = c.experimentId := by
    rcases Counting.exec_cases input.toInput s store.toMeasured with
      ⟨t, rfl, hm⟩ | ⟨environmentId, cells, rfl, hm | ⟨counters, hupserts, hm⟩⟩
    · constructor
      · apply Part.Changed.delete
        intro c hc hgone
        obtain ⟨x, hx, hid⟩ := hapart.counter c hc
        by_contra hforeign
        rw [decide_eq_true_eq, ← hid] at hforeign
        have hkept := experiment_spared hapart.separate htables hx hforeign
        have hany : (Counting.exec input.toInput (.sql t) store.toMeasured).2.db.experiments.any
            (·.id = c.experimentId) = true := List.any_eq_true.mpr ⟨x, hkept, decide_eq_true hid⟩
        cases hany.symm.trans hgone
      · intro c hc
        obtain ⟨x, hx, hid⟩ := List.any_eq_true.mp (List.mem_filter.mp hc).2
        exact ⟨x, hx, of_decide_eq_true hid⟩
    · rw [hm]
      exact ⟨.refl, hapart.counter⟩
    · rw [hm]
      constructor
      · exact upsertCounters_changes
          (fun row hrow => (joined_own hapart.separate hown hrow).1) hupserts
      · exact upsertCounters_counter (p := fun id => ∃ x ∈ store.db.experiments, x.id = id)
          (fun row hrow => (joined_own hapart.separate hown hrow).2) hapart.counter hupserts
  refine ⟨htables, hcounters.1, .delete ?_, ?_, hcounters.2, ?_, ?_⟩
  · intro k hk hgone
    obtain ⟨e, he, hid⟩ := hapart.key k hk
    by_contra hforeign
    rw [decide_eq_true_eq, ← hid] at hforeign
    have hkept := environment_spared hapart.separate htables he hforeign
    have hany : (Counting.exec input.toInput s store.toMeasured).2.db.environments.any
        (·.id = k.environmentId) = true := List.any_eq_true.mpr ⟨e, hkept, decide_eq_true hid⟩
    cases hany.symm.trans hgone
  · intro other hother
    simp only [countedStore]
    rcases log_cases input s store.toMeasured with
      ⟨f, hf, hlog, hnumbered⟩ | ⟨entry, row, rfl, hrow, hlog, hnumbered⟩
    · rw [hnumbered, hlog, Tenancy.select_map hf]
    · have hforeign : row.organizationId ≠ other := by
        rw [hrow, hown.1]
        exact Ne.symm hother
      rw [hnumbered, hlog, Tenancy.select_append hapart.numbered,
        Tenancy.select_cons_foreign hforeign]
      simp [Tenancy.select]
  · intro k hk
    obtain ⟨e, he, hid⟩ := List.any_eq_true.mp (List.mem_filter.mp hk).2
    exact ⟨e, he, of_decide_eq_true hid⟩
  · simp only [countedStore]
    rcases log_cases input s store.toMeasured with
      ⟨f, _, hlog, hnumbered⟩ | ⟨_, _, _, _, hlog, hnumbered⟩
    · rw [hnumbered, hlog, List.length_map]
      exact hapart.numbered
    · rw [hnumbered, hlog, List.length_append, List.length_append]
      exact congrArg (· + 1) hapart.numbered

/-- A write of keys. -/
theorem keys_changes {keys : List KeyRow} (hapart : a.Apart store)
    (hkeys : Part.Changed (fun k => a.id k.environmentId = organizationId)
      (fun k => a.id k.id = a.id k.environmentId ∧ a.keyHash k.keyHash = a.id k.environmentId)
      store.keys keys)
    (hkey : ∀ k ∈ keys, ∃ e ∈ store.db.environments, e.id = k.environmentId) :
    StoreChanges a organizationId store { store with keys } :=
  ⟨.refl, .refl, hkeys, fun _ _ => rfl, hapart.counter, hkey, hapart.numbered⟩

/-- A new key is one of its organization. -/
theorem insertKey_changes {name keyHash shown : String} {scope : Api.KeyScope}
    {o : ApiKey × Store} (hid : a.id input.id = organizationId)
    (henvironment : a.id environmentId = organizationId) (hhash : a.keyHash keyHash = organizationId)
    (hapart : a.Apart store)
    (h : insertKey input environmentId name keyHash shown scope store = .ok o) :
    StoreChanges a organizationId store o.2 := by
  obtain ⟨_, h⟩ := Sql.of_require h
  obtain ⟨_, h⟩ := Sql.of_require h
  obtain ⟨hforeign, h⟩ := Sql.of_require h
  cases h
  apply keys_changes hapart
  · apply Part.Changed.append
    intro k hk
    cases List.mem_singleton.mp hk
    exact ⟨decide_eq_true henvironment, hid.trans henvironment.symm, hhash.trans henvironment.symm⟩
  · intro k hk
    rcases List.mem_append.mp hk with hk | hk
    · exact hapart.key k hk
    · cases List.mem_singleton.mp hk
      obtain ⟨e, he, heq⟩ := List.any_eq_true.mp hforeign
      exact ⟨e, he, of_decide_eq_true heq⟩

/-- Updates of own keys that keep what identifies a key. -/
theorem mapKeys_changes {p : KeyRow → Bool} {f : KeyRow → KeyRow} (hapart : a.Apart store)
    (hp : ∀ k ∈ store.keys, p k = true → a.id k.environmentId = organizationId)
    (hf : ∀ k, (f k).id = k.id ∧ (f k).environmentId = k.environmentId ∧
      (f k).keyHash = k.keyHash) : StoreChanges a organizationId store
        { store with keys := store.keys.map fun k => if p k then f k else k } := by
  have hkeeps : ∀ k, (if p k then f k else k).id = k.id ∧
      (if p k then f k else k).environmentId = k.environmentId ∧
      (if p k then f k else k).keyHash = k.keyHash := by
    intro k
    split
    · exact hf k
    · exact ⟨rfl, rfl, rfl⟩
  apply keys_changes hapart
  · apply Part.Changed.map
    · intro k hk hforeign
      cases hselected : p k with
      | false => rfl
      | true => exact absurd (hp k hk hselected) (of_decide_eq_false hforeign)
    · intro k
      rw [(hkeeps k).2.1]
    · intro k hk
      rw [(hkeeps k).1, (hkeeps k).2.1, (hkeeps k).2.2]
      exact hk
  · intro k hk
    obtain ⟨old, hold, rfl⟩ := List.mem_map.mp hk
    rw [(hkeeps old).2.1]
    exact hapart.key old hold

/-- A statement of an organization changes what the organization has only. -/
theorem store_changes {s : Stmt} (hown : a.Own organizationId s)
    (hid : s.generates = true → a.id input.id = organizationId) (hapart : a.Apart store) :
    StoreChanges a organizationId store (exec input s store).2 := by
  cases s with
  | counted s => exact counted_changes hown hid hapart
  | insertKey environmentId name keyHash shown scope =>
      rcases insertKey_cases with ⟨e, h⟩ | ⟨key, store', hok, h⟩
      · exact h.symm ▸ .refl hapart
      · rw [h]
        exact insertKey_changes (hid rfl) hown.1 hown.2 hapart hok
  | revokeKey environmentId id =>
      rcases revokeKey_cases with ⟨e, h⟩ | h
      · exact h.symm ▸ .refl hapart
      · rw [h]
        apply mapKeys_changes hapart
        · intro k _ hk
          rw [Bool.and_eq_true, decide_eq_true_eq, decide_eq_true_eq] at hk
          rw [hk.2]
          exact hown
        · exact fun _ => ⟨rfl, rfl, rfl⟩
  | touchKey id =>
      rcases touchKey_cases with ⟨e, h⟩ | h
      · exact h.symm ▸ .refl hapart
      · rw [h]
        apply mapKeys_changes hapart
        · intro k hk h
          rw [Bool.and_eq_true, decide_eq_true_eq] at h
          rw [← hapart.keyId k hk, h.1]
          exact hown
        · exact fun _ => ⟨rfl, rfl, rfl⟩
  | _ => exact .refl hapart

end Changes

/-! ### The tenancy -/

section Answers

variable {a : Assignment} {organizationId environmentId : Uuid} {input : Input} {store : Store}

/-- An experiment that is found in an environment of the organization is its own. -/
theorem selectJoinedExperiment_answer {key : String} {x : Experiment}
    (henvironment : a.id environmentId = organizationId) (hapart : a.Apart store)
    (h : selectJoinedExperiment environmentId key store.db = some x) : a.id x.id = organizationId := by
  obtain ⟨row, hrow, hx⟩ := List.mem_flatMap.mp (List.mem_of_head? h)
  obtain ⟨hrow, hfor⟩ := List.mem_filter.mp hrow
  obtain ⟨f, _, rfl⟩ := List.mem_map.mp hx
  exact (hapart.separate.experiment row hrow).trans ((ExperimentRow.isFor_iff.mp hfor).1 ▸ henvironment)

/-- A key with a hash of the organization stands for one of its environments. -/
theorem resolveKey_answer {keyHash : String} {identity : KeyIdentity}
    (hhash : a.keyHash keyHash = organizationId) (hapart : a.Apart store)
    (h : resolveKey keyHash store = some identity) : a.id identity.environmentId = organizationId := by
  obtain ⟨k, hk, h⟩ := List.mem_flatMap.mp (List.mem_of_head? h)
  obtain ⟨hk, hselected⟩ := List.mem_filter.mp hk
  obtain ⟨e, _, h⟩ := List.mem_flatMap.mp h
  obtain ⟨p, _, rfl⟩ := List.mem_map.mp h
  rw [Bool.and_eq_true, decide_eq_true_eq] at hselected
  rw [← hapart.keyHash k hk, hselected.1, hhash]

/-- What a statement of the organization answers names nothing of another: the rows that later
    statements go on with are its own. -/
theorem store_answer {s : Stmt} (hown : a.Own organizationId s)
    (hid : s.generates = true → a.id input.id = organizationId) (hapart : a.Apart store) :
    a.Answer organizationId s (exec input s store).1 := by
  cases s with
  | counted s =>
      cases s with
      | sql t => exact sql_answer hown hid hapart.separate
      | ingest => trivial
  | selectJoinedExperiment environmentId key =>
      cases hanswer : (exec input (.selectJoinedExperiment environmentId key) store).1 with
      | error e => trivial
      | ok row =>
          intro x hx
          have hrow := Except.ok.inj (read_answer hanswer)
          exact selectJoinedExperiment_answer hown hapart (hrow.trans hx)
  | resolveKey keyHash =>
      cases hanswer : (exec input (.resolveKey keyHash) store).1 with
      | error e => trivial
      | ok found =>
          intro identity hidentity
          have hfound := Except.ok.inj (read_answer hanswer)
          exact resolveKey_answer hown hapart (hfound.trans hidentity)
  | _ => trivial

end Answers

/-- The organizations are tenants of the store. -/
def tenancy (a : Assignment) : Tenancy exec Uuid where
  view := a.storeView
  Separate := a.Apart
  Own := a.Own
  Answer := a.Answer
  Supplied organizationId s input := s.generates = true → a.id input.id = organizationId
  separate hown hid hapart := (store_changes hown hid hapart).apart hapart
  answer hown hid hapart := store_answer hown hid hapart
  sees hown hid hapart := store_sees hown hid hapart
  spares hown hid hapart hother := (store_changes hown hid hapart).spared hother

end FlagForge.Service
