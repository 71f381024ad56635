/-
Module: FlagForge.Service.Store
Layer: Service
Purpose: Everything the service stores: the tables with the counters, the numbers of the audit entries,
  and the SDK keys. The statements of the storage crate that the other modules had no need for: the
  lists, the joined experiment, the tallies, a page of the audit log, and the life of a key.
Imports: FlagForge.Storage.Counters, FlagForge.Storage.Tallies, FlagForge.Api.Credentials,
  FlagForge.Api.AuditPages, Mathlib.Data.String.Basic
Trusted boundary: texts are ordered by code points, as under collation "C"
Main exports: KeyRow, ApiKey, KeyIdentity, Store, Input, selectsTotals_selectTotals,
  selectsHours_selectHours, Stmt, exec
-/
import FlagForge.Storage.Counters
import FlagForge.Storage.Tallies
import FlagForge.Api.Credentials
import FlagForge.Api.AuditPages
import Mathlib.Data.String.Basic

namespace FlagForge.Service

open Storage
open Storage.Sql (SqlError require nameCheck)
open Api (KeyScope)
open Api.AuditPages (LoggedRow)

/-- A row of `api_keys`. -/
structure KeyRow where
  id : Uuid
  environmentId : Uuid
  name : String
  /-- SHA-256 of the secret. -/
  keyHash : String
  /-- What a person recognizes the key by. -/
  shown : String
  scope : KeyScope
  createdAt : Timestamp
  lastUsedAt : Option Timestamp
  revokedAt : Option Timestamp
deriving DecidableEq

/-- A key as the API returns it: without the hash. -/
structure ApiKey where
  id : Uuid
  environmentId : Uuid
  name : String
  shown : String
  scope : KeyScope
  createdAt : Timestamp
  lastUsedAt : Option Timestamp
  revokedAt : Option Timestamp

/-- What is told of a key: all but its hash. -/
def KeyRow.apiKey (row : KeyRow) : ApiKey where
  id := row.id
  environmentId := row.environmentId
  name := row.name
  shown := row.shown
  scope := row.scope
  createdAt := row.createdAt
  lastUsedAt := row.lastUsedAt
  revokedAt := row.revokedAt

/-- What a presented key stands for. -/
structure KeyIdentity where
  apiKeyId : Uuid
  environmentId : Uuid
  projectId : Uuid
  organizationId : Uuid
  scope : KeyScope

/-- All tables of the service. -/
structure Store extends Measured where
  /-- The numbers of the audit entries, in their order. -/
  serials : List Int
  keys : List KeyRow

/-- The audit log with its numbers. -/
def Store.log (store : Store) : List LoggedRow :=
  List.zipWith LoggedRow.mk store.serials store.db.auditLog

/-- What the database contributes to a statement, the next number of an audit entry included. -/
structure Input extends Sql.Input where
  /-- The next value of the one sequence that numbers the audit entries of all organizations. The sequence
      is not a part of the store: which values it has passed shows in nothing but these numbers. -/
  serial : Int

/-! ### Lists

Texts come in the order of their code points, that of collation "C", as in the other queries. The order
shows in nothing but the lists that are answered. -/

/-- `ORDER BY key` -/
def selectProjects (organizationId : Uuid) (db : Db) : List ProjectRow :=
  Table.orderBy (fun a b => a.key ≤ b.key)
    (db.projects.filter (·.organizationId = organizationId))

/-- The flags of a project, `ORDER BY key`; archived ones only on request. -/
def selectFlags (projectId : Uuid) (includeArchived : Bool) (db : Db) : List FlagRow :=
  Table.orderBy (fun a b => a.key ≤ b.key)
    (db.flags.filter fun f => f.projectId = projectId && (includeArchived || !f.archived))

/-- The flags of a project with their configuration in an environment, `ORDER BY f.key`. -/
def selectConfigured (projectId environmentId : Uuid) (includeArchived : Bool) (db : Db) :
    List (FlagRow × ConfigRow) :=
  Table.orderBy (fun a b => a.1.key ≤ b.1.key) <|
    (db.flags.filter fun f => f.projectId = projectId && (includeArchived || !f.archived)).flatMap
      fun f => (db.flagConfigs.filter (·.isFor f.id environmentId)).map fun c => (f, c)

/-- An experiment joined with its flag. -/
def withFlag (db : Db) (x : ExperimentRow) : List Experiment :=
  (db.flags.filter (·.id = x.flagId)).map fun f =>
    { x with flagKey := f.key, variants := f.variants }

/-- The experiments of an environment with their flags, `ORDER BY e.key`. -/
def selectExperiments (environmentId : Uuid) (db : Db) : List Experiment :=
  Table.orderBy (fun a b => a.key ≤ b.key)
    ((db.experiments.filter (·.environmentId = environmentId)).flatMap (withFlag db))

/-- The experiment of a key with its flag. -/
def selectJoinedExperiment (environmentId : Uuid) (key : String) (db : Db) : Option Experiment :=
  ((db.experiments.filter (·.isFor environmentId key)).flatMap (withFlag db)).head?

/-! ### Tallies -/

/-- The sums of an experiment's counters by variant and kind, `ORDER BY variant`. A sum that is no
    `BIGINT` is an error. -/
def selectTotals (experimentId : Uuid) (counters : List CounterRow) :
    Except SqlError (List TotalRow) :=
  let rows := Table.orderBy (fun a b => a.variant ≤ b.variant)
    ((rowsOf experimentId counters).foldl totalled.bySearch [])
  if ∀ row ∈ rows, row.total < 2 ^ 63 then .ok rows else .error .other

/-- The counters of an experiment from a time on, `ORDER BY variant, hour`. -/
def selectHours (experimentId : Uuid) (since : Timestamp) (counters : List CounterRow) :
    List HourRow :=
  Table.orderBy (fun a b => a.variant < b.variant || (a.variant = b.variant && a.hour ≤ b.hour))
    ((rowsSince experimentId since counters).map HourRow.of)

/-- The totals are an answer that the database may give when it orders texts by code points. -/
theorem selectsTotals_selectTotals {experimentId : Uuid} {counters : List CounterRow} :
    SelectsTotals (· ≤ ·) experimentId counters (selectTotals experimentId counters) := by
  refine ⟨_, (totalled.gathered_bySearch (rowsOf experimentId counters)).perm
    (Table.orderBy_perm (fun a b => a.variant ≤ b.variant) _), ?_, rfl⟩
  refine (Table.pairwise_orderBy ?_ ?_ _).imp of_decide_eq_true
  · exact fun a b => by simpa using le_total a.variant b.variant
  · intro a b c hab hbc
    exact decide_eq_true ((of_decide_eq_true hab : a.variant ≤ b.variant).trans (of_decide_eq_true hbc))

/-- So are the hours. -/
theorem selectsHours_selectHours {experimentId : Uuid} {since : Timestamp}
    {counters : List CounterRow} :
    SelectsHours (· ≤ ·) experimentId since counters
      (.ok (selectHours experimentId since counters)) := by
  refine ⟨_, Table.orderBy_perm _ _, ?_, rfl⟩
  have horder : ∀ {a b : HourRow}, (a.variant < b.variant || (a.variant = b.variant && a.hour ≤ b.hour))
      = true ↔ a.variant < b.variant ∨ a.variant = b.variant ∧ a.hour ≤ b.hour := by simp
  refine (Table.pairwise_orderBy ?_ ?_ _).imp fun {a b} h => ?_
  · intro a b
    rw [horder, horder]
    rcases lt_trichotomy a.variant b.variant with hlt | heq | hgt
    · exact .inl (.inl hlt)
    · exact (le_total a.hour b.hour).imp (fun hle => .inr ⟨heq, hle⟩) fun hle => .inr ⟨heq.symm, hle⟩
    · exact .inr (.inl hgt)
  · intro a b c
    rw [horder, horder, horder]
    rintro (hab | ⟨hab, hle⟩) (hbc | ⟨hbc, hle'⟩)
    · exact .inl (hab.trans hbc)
    · exact .inl (hbc ▸ hab)
    · exact .inl (hab ▸ hbc)
    · exact .inr ⟨hab.trans hbc, Int.le_trans hle hle'⟩
  · rcases horder.mp h with hlt | ⟨heq, hle⟩
    · exact ⟨hlt.le, fun hback => absurd hback (not_le_of_gt hlt)⟩
    · exact ⟨heq.le, fun _ => hle⟩

/-! ### SDK keys -/

/-- The hash of a key is unique, among revoked keys too, and its environment has to be there. -/
def insertKey (input : Input) (environmentId : Uuid) (name keyHash shown : String)
    (scope : KeyScope) (store : Store) : Except SqlError (ApiKey × Store) := do
  require (nameCheck name) .checkViolation
  require (store.keys.all fun k => !(k.id = input.id || k.keyHash = keyHash)) .uniqueViolation
  require (store.db.environments.any (·.id = environmentId)) .foreignKeyViolation
  let row := { id := input.id, environmentId, name, keyHash, shown, scope, createdAt := input.now
               lastUsedAt := none, revokedAt := none : KeyRow }
  pure (row.apiKey, { store with keys := store.keys ++ [row] })

/-- `ORDER BY created_at DESC` -/
def selectKeys (environmentId : Uuid) (keys : List KeyRow) : List ApiKey :=
  (Table.orderBy (fun a b => b.createdAt ≤ a.createdAt)
    (keys.filter (·.environmentId = environmentId))).map KeyRow.apiKey

/-- `revoked_at` is only set once. -/
def KeyRow.revoke (now : Timestamp) (row : KeyRow) : KeyRow :=
  { row with revokedAt := row.revokedAt.or (some now) }

/-- Revokes the key of this identifier in the environment; tells how many rows it found. -/
def revokeKey (input : Input) (environmentId id : Uuid) (store : Store) : Nat × Store :=
  let p := fun k : KeyRow => k.id = id && k.environmentId = environmentId
  ((store.keys.filter p).length,
    { store with keys := store.keys.map fun k => if p k then k.revoke input.now else k })

/-- Revoked keys resolve to nothing. -/
def resolveKey (keyHash : String) (store : Store) : Option KeyIdentity :=
  ((store.keys.filter fun k => k.keyHash = keyHash && k.revokedAt.isNone).flatMap fun k =>
    (store.db.environments.filter (·.id = k.environmentId)).flatMap fun e =>
      (store.db.projects.filter (·.id = e.projectId)).map fun p =>
        { apiKeyId := k.id, environmentId := k.environmentId, projectId := e.projectId
          organizationId := p.organizationId, scope := k.scope : KeyIdentity }).head?

/-- `INTERVAL '1 minute'` -/
def minute : Timestamp := 60000000

/-- Whether the use of the key is worth writing down. -/
def KeyRow.stale (now : Timestamp) (row : KeyRow) : Bool :=
  row.lastUsedAt.all fun used => used < now - minute

/-- Only moves the timestamp once a minute. -/
def touchKey (input : Input) (id : Uuid) (store : Store) : Unit × Store :=
  ((), { store with keys := store.keys.map fun k =>
    if k.id = id && k.stale input.now then { k with lastUsedAt := some input.now } else k })

/-! ### All statements -/

/-- The statements of the service: those on the counters and the configuration, and those that only the
    service makes. -/
inductive Stmt where
  | counted (s : Counting.Stmt)
  | selectProjects (organizationId : Uuid)
  | selectFlags (projectId : Uuid) (includeArchived : Bool)
  | selectConfigured (projectId environmentId : Uuid) (includeArchived : Bool)
  | selectExperiments (environmentId : Uuid)
  | selectJoinedExperiment (environmentId : Uuid) (key : String)
  | selectTotals (experimentId : Uuid)
  | selectHours (experimentId : Uuid) (since : Timestamp)
  | selectAudit (organizationId : Uuid) (resourceType resourceId : Option String)
      (beforeId : Option Int) (limit : Int)
  | insertKey (environmentId : Uuid) (name keyHash shown : String) (scope : KeyScope)
  | selectKeys (environmentId : Uuid)
  | revokeKey (environmentId id : Uuid)
  | resolveKey (keyHash : String)
  | touchKey (id : Uuid)

def Stmt.Result : Stmt → Type
  | .counted s => s.Result
  | .selectProjects .. => List ProjectRow
  | .selectFlags .. => List FlagRow
  | .selectConfigured .. => List (FlagRow × ConfigRow)
  | .selectExperiments .. => List Experiment
  | .selectJoinedExperiment .. => Option Experiment
  | .selectTotals .. => List TotalRow
  | .selectHours .. => List HourRow
  | .selectAudit .. => List LoggedRow
  | .insertKey .. => ApiKey
  | .selectKeys .. => List ApiKey
  | .revokeKey .. => Nat
  | .resolveKey .. => Option KeyIdentity
  | .touchKey .. => Unit

abbrev Resp (s : Stmt) := Except SqlError s.Result

/-- A new audit entry takes the number that the sequence gives next: one `BIGSERIAL` for the entries of all
    organizations. -/
def numbered (serial : Int) (s : Counting.Stmt) (answer : Counting.Resp s) (serials : List Int) :
    List Int :=
  match s, answer with
  | .sql (.insertAudit _), .ok _ => serials ++ [serial]
  | _, _ => serials

/-- Keys go with their environment. -/
def cascadeKeys (db : Db) (keys : List KeyRow) : List KeyRow :=
  keys.filter fun k => db.environments.any (·.id = k.environmentId)

/-- The store after a statement on the tables with the counters. -/
def countedStore (input : Input) (s : Counting.Stmt) (store : Store) : Store :=
  let answer := Counting.exec input.toInput s store.toMeasured
  { toMeasured := answer.2
    serials := numbered input.serial s answer.1 store.serials
    keys := cascadeKeys answer.2.db store.keys }

/-- What a query answers, unless the database fails. -/
def read {α : Type} (input : Input) (answer : Except SqlError α) (store : Store) :
    Except SqlError α × Store :=
  (if input.fails then .error .other else answer, store)

/-- What a write makes of the store, unless it is refused or the database fails. -/
def write {α : Type} (input : Input) (outcome : Except SqlError (α × Store)) (store : Store) :
    Except SqlError α × Store :=
  if input.fails then (.error .other, store)
  else
    match outcome with
    | .ok (value, store) => (.ok value, store)
    | .error e => (.error e, store)

section Outcomes

variable {α : Type} {input : Input} {store : Store}

/-- A read answers what it reads, unless the database fails. -/
theorem read_answer {answer : Except SqlError α} {value : α}
    (h : (read input answer store).1 = .ok value) : answer = .ok value := by
  rw [read] at h
  cases hfails : input.fails with
  | true =>
      rw [hfails] at h
      cases h
  | false => simpa [hfails] using h

/-- A write changes nothing, or does what it does when it succeeds. -/
theorem write_cases (input : Input) (outcome : Except SqlError (α × Store)) (store : Store) :
    (∃ e, write input outcome store = (.error e, store)) ∨
      ∃ value store', outcome = .ok (value, store') ∧
        write input outcome store = (.ok value, store') := by
  cases hfails : input.fails with
  | true => exact .inl ⟨.other, by simp [write, hfails]⟩
  | false =>
      cases outcome with
      | error e => exact .inl ⟨e, by simp [write, hfails]⟩
      | ok o => exact .inr ⟨o.1, o.2, rfl, by simp [write, hfails]⟩

end Outcomes

/-- The answer and the store after the statement; an error leaves the store as it was. -/
def exec (input : Input) (s : Stmt) (store : Store) : Resp s × Store :=
  match s with
  | .counted s =>
      ((Counting.exec input.toInput s store.toMeasured).1, countedStore input s store)
  | .selectProjects organizationId =>
      read input (.ok (selectProjects organizationId store.db)) store
  | .selectFlags projectId includeArchived =>
      read input (.ok (selectFlags projectId includeArchived store.db)) store
  | .selectConfigured projectId environmentId includeArchived =>
      read input (.ok (selectConfigured projectId environmentId includeArchived store.db)) store
  | .selectExperiments environmentId =>
      read input (.ok (selectExperiments environmentId store.db)) store
  | .selectJoinedExperiment environmentId key =>
      read input (.ok (selectJoinedExperiment environmentId key store.db)) store
  | .selectTotals experimentId => read input (selectTotals experimentId store.counters) store
  | .selectHours experimentId since =>
      read input (.ok (selectHours experimentId since store.counters)) store
  | .selectAudit organizationId resourceType resourceId beforeId limit =>
      read input (.ok (Api.AuditPages.selectAudit organizationId resourceType resourceId beforeId
        limit store.log)) store
  | .insertKey environmentId name keyHash shown scope =>
      write input (insertKey input environmentId name keyHash shown scope store) store
  | .selectKeys environmentId => read input (.ok (selectKeys environmentId store.keys)) store
  | .revokeKey environmentId id => write input (.ok (revokeKey input environmentId id store)) store
  | .resolveKey keyHash => read input (.ok (resolveKey keyHash store)) store
  | .touchKey id => write input (.ok (touchKey input id store)) store

section Keys

variable {input : Input} {store : Store} {environmentId id : Uuid}

/-- An insertion fails and changes nothing, or answers with the key that it adds. -/
theorem insertKey_cases {name keyHash shown : String} {scope : KeyScope} :
    (∃ e, exec input (.insertKey environmentId name keyHash shown scope) store = (.error e, store)) ∨
      ∃ key store', insertKey input environmentId name keyHash shown scope store = .ok (key, store') ∧
        exec input (.insertKey environmentId name keyHash shown scope) store = (.ok key, store') :=
  write_cases input (insertKey input environmentId name keyHash shown scope store) store

/-- A revocation fails and changes nothing, or does what it says. -/
theorem revokeKey_cases :
    (∃ e, exec input (.revokeKey environmentId id) store = (.error e, store)) ∨
      exec input (.revokeKey environmentId id) store =
        (.ok (revokeKey input environmentId id store).1,
          (revokeKey input environmentId id store).2) := by
  rcases write_cases input (.ok (revokeKey input environmentId id store)) store with
    h | ⟨found, store', hok, h⟩
  · exact .inl h
  · cases hok
    exact .inr h

/-- So does noting a use. -/
theorem touchKey_cases :
    (∃ e, exec input (.touchKey id) store = (.error e, store)) ∨
      exec input (.touchKey id) store = (.ok (), (touchKey input id store).2) := by
  rcases write_cases input (.ok (touchKey input id store)) store with h | ⟨found, store', hok, h⟩
  · exact .inl h
  · cases hok
    exact .inr h

end Keys

end FlagForge.Service
