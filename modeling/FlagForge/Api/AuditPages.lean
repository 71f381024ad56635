/-
Module: FlagForge.Api.AuditPages
Layer: Api
Purpose: Reading the audit trail. Following the cursor of each page to the end returns every entry of
  the caller's organization that matched when the first page was read, once, newest first, however
  the log grows in the meantime.
Imports: FlagForge.Lib.Paging, FlagForge.Api.Handlers
Trusted boundary: none
Main exports: LoggedRow, AuditQuery, AuditPage, list, followed, audit_pages_exact
-/
import FlagForge.Lib.Paging
import FlagForge.Api.Handlers

namespace FlagForge.Api.AuditPages

open Storage

/-! ### The source -/

/-- A row of the log with its number. -/
structure LoggedRow where
  id : Int
  row : AuditRow

/-- An entry as the API shows it. -/
structure AuditEntry where
  id : Int
  actorEmail : String
  action : String
  resourceType : String
  resourceId : String
  environmentId : Option Uuid
  before : Option Image
  after : Option Image
  createdAt : Timestamp

def LoggedRow.entry (r : LoggedRow) : AuditEntry where
  id := r.id
  actorEmail := r.row.actorEmail
  action := r.row.action
  resourceType := r.row.resourceType
  resourceId := r.row.resourceId
  environmentId := r.row.environmentId
  before := r.row.before
  after := r.row.after
  createdAt := r.row.createdAt

/-- Maximum page size, so a client cannot ask for the whole history at once. -/
def maxPageSize : Int := 200

def defaultPageSize : Int := 50

/-- `limit.clamp(1, MAX_PAGE_SIZE)` -/
def clampLimit (limit : Int) : Int :=
  if limit < 1 then 1 else if maxPageSize < limit then maxPageSize else limit

/-- The condition on organization and filters. -/
def selects (organizationId : Uuid) (resourceType resourceId : Option String) (r : LoggedRow) :
    Bool :=
  r.row.organizationId = organizationId &&
    resourceType.elim true (r.row.resourceType = ·) && resourceId.elim true (r.row.resourceId = ·)

/-- `SELECT … WHERE … AND id < $4 ORDER BY id DESC LIMIT $5` -/
def selectAudit (organizationId : Uuid) (resourceType resourceId : Option String)
    (beforeId : Option Int) (limit : Int) (log : List LoggedRow) : List LoggedRow :=
  ((log.filter fun r => selects organizationId resourceType resourceId r &&
      beforeId.elim true fun id => decide (r.id < id)) |>
    Table.orderBy fun a b => decide (b.id ≤ a.id)).take limit.toNat

/-- Keyset pagination: pass the last id you saw as `before_id`. -/
def listEntries (organizationId : Uuid) (resourceType resourceId : Option String)
    (beforeId : Option Int) (limit : Int) (log : List LoggedRow) : List AuditEntry :=
  (selectAudit organizationId resourceType resourceId beforeId (clampLimit limit) log).map
    LoggedRow.entry

structure AuditQuery where
  resourceType : Option String
  resourceId : Option String
  /-- Return entries older than this id. -/
  beforeId : Option Int
  limit : Option Int

structure AuditPage where
  entries : List AuditEntry
  /-- Absent on the last page. -/
  nextCursor : Option Int

/-- Returns the organization's change history, newest first. -/
def list (caller : AuthUser) (query : AuditQuery) (log : List LoggedRow) :
    Except ApiError AuditPage := do
  caller.requireAdmin
  let limit := query.limit.getD defaultPageSize
  let entries := listEntries caller.organizationId query.resourceType query.resourceId query.beforeId
    limit log
  -- a short page is already the end of the log
  let nextCursor := if clampLimit limit ≤ entries.length then entries.getLast?.map AuditEntry.id
    else none
  pure ⟨entries, nextCursor⟩

/-- The pages one gets by following the cursors, each read from the log as it is by then. -/
def followed (caller : AuthUser) (query : AuditQuery) (log : Nat → List LoggedRow) :
    Nat → Option AuditPage
  | 0 => (list caller { query with beforeId := none } (log 0)).toOption
  | k + 1 => (followed caller query log k).bind fun last => last.nextCursor.bind fun cursor =>
      (list caller { query with beforeId := some cursor } (log (k + 1))).toOption

/-! ### Following the cursors -/

section Follow

variable {caller : AuthUser} {query : AuditQuery} {log : Nat → List LoggedRow}

/-- How many entries a page has at most. -/
def pageSize (query : AuditQuery) : Nat :=
  (clampLimit (query.limit.getD defaultPageSize)).toNat

/-- A page has room for an entry, whatever limit was asked for. -/
theorem one_le_clampLimit (limit : Int) : 1 ≤ clampLimit limit := by
  rw [clampLimit]
  split
  · exact le_rfl
  · split
    · decide
    · omega

/-- What the caller may see of the log and asks for. -/
def matching (caller : AuthUser) (query : AuditQuery) (log : List LoggedRow) : List LoggedRow :=
  log.filter (selects caller.organizationId query.resourceType query.resourceId)

theorem selectAudit_eq {beforeId : Option Int} {rows : List LoggedRow} :
    selectAudit caller.organizationId query.resourceType query.resourceId beforeId
        (clampLimit (query.limit.getD defaultPageSize)) rows =
      Paging.page LoggedRow.id (pageSize query) beforeId (matching caller query rows) := by
  rw [selectAudit, Paging.page, Paging.newestFirst, matching, List.filter_filter, pageSize]
  congr 3
  funext r
  rw [Bool.and_comm]
  cases beforeId <;> rfl

/-- The page that a library page is shown as. -/
def shown (query : AuditQuery) (rows : List LoggedRow) : AuditPage :=
  ⟨rows.map LoggedRow.entry, Paging.nextCursor LoggedRow.id (pageSize query) rows⟩

/-- The limit is compared as it is clamped for the query. -/
theorem nextCursor_eq (rows : List LoggedRow) :
    (if clampLimit (query.limit.getD defaultPageSize) ≤ (rows.length : Int) then
      rows.getLast?.map LoggedRow.id else none) =
      Paging.nextCursor LoggedRow.id (pageSize query) rows := by
  have hlimit := one_le_clampLimit (query.limit.getD defaultPageSize)
  rw [Paging.nextCursor, pageSize]
  congr 1
  exact propext ⟨fun h => by omega, fun h => by omega⟩

/-- What the endpoint answers an owner or admin. -/
theorem list_eq (hadmin : caller.role.canAdminister = true) {beforeId : Option Int}
    {rows : List LoggedRow} :
    list caller { query with beforeId := beforeId } rows =
      .ok (shown query
        (Paging.page LoggedRow.id (pageSize query) beforeId (matching caller query rows))) := by
  have hentries : listEntries caller.organizationId query.resourceType query.resourceId beforeId
      (query.limit.getD defaultPageSize) rows =
        (Paging.page LoggedRow.id (pageSize query) beforeId (matching caller query rows)).map
          LoggedRow.entry := by
    rw [listEntries, selectAudit_eq]
  have hadmitted : caller.requireAdmin = .ok () := by rw [AuthUser.requireAdmin, if_pos hadmin]
  simp only [list, hadmitted, hentries, List.length_map, List.getLast?_map, Option.map_map]
  rw [shown, ← nextCursor_eq]
  rfl

/-- Page after page, with the cursor of the one before. -/
theorem followed_eq (hadmin : caller.role.canAdminister = true) : ∀ k,
    followed caller query log k =
      (Paging.pageAt LoggedRow.id (pageSize query) (fun k => matching caller query (log k)) k).map
        (shown query)
  | 0 => by
      rw [followed, list_eq hadmin]
      rfl
  | k + 1 => by
      rw [followed, followed_eq hadmin k, Paging.pageAt]
      cases Paging.pageAt LoggedRow.id (pageSize query) (fun k => matching caller query (log k)) k with
      | none => rfl
      | some last =>
          simp only [Option.map_some, Option.bind_some, shown, list_eq hadmin, Except.toOption]
          cases Paging.nextCursor LoggedRow.id (pageSize query) last <;> rfl

end Follow

/-- Entries with higher numbers are added, and nothing else happens to the log. -/
def Appended (log : Nat → List LoggedRow) : Prop :=
  ∀ k, ∃ added, log (k + 1) = log k ++ added ∧ ∀ new ∈ added, ∀ old ∈ log k, old.id < new.id

theorem Appended.matching {log : Nat → List LoggedRow} (h : Appended log) (caller : AuthUser)
    (query : AuditQuery) : Paging.Grows LoggedRow.id fun k => matching caller query (log k) := by
  intro k
  obtain ⟨added, hlog, hnewer⟩ := h k
  refine ⟨AuditPages.matching caller query added, ?_, ?_⟩
  · simp only [AuditPages.matching, hlog, List.filter_append]
  · intro new hnew old hold
    exact hnewer new (List.mem_of_mem_filter hnew) old (List.mem_of_mem_filter hold)

/-- Following the cursors ends, and returns what matched at first: all of it, nothing twice, newest
    first, and nothing of another organization. -/
theorem audit_pages_exact {caller : AuthUser} (hadmin : caller.role.canAdminister = true)
    (query : AuditQuery) {log : Nat → List LoggedRow} (hlog : Appended log)
    (hids : ((log 0).map LoggedRow.id).Nodup) : ∃ last,
      (∀ k, (followed caller query log k).isSome = true ↔ k ≤ last) ∧
        let entries := (List.range (last + 1)).flatMap fun k =>
          (followed caller query log k).elim [] AuditPage.entries
        entries.Pairwise (fun a b => b.id < a.id) ∧
          ∀ entry, entry ∈ entries ↔ ∃ r ∈ log 0,
            selects caller.organizationId query.resourceType query.resourceId r = true ∧
              r.entry = entry := by
  have hsize : 0 < pageSize query := by
    have hlimit := one_le_clampLimit (query.limit.getD defaultPageSize)
    rw [pageSize]
    omega
  have hkeys : ((matching caller query (log 0)).map LoggedRow.id).Nodup :=
    hids.sublist (List.filter_sublist.map _)
  obtain ⟨last, hpages, hall⟩ := Paging.pages_exact hsize (hlog.matching caller query) hkeys
  refine ⟨last, fun k => ?_, ?_⟩
  · rw [followed_eq hadmin, Option.isSome_map, hpages]
  · have hentries : (List.range (last + 1)).flatMap (fun k =>
        (followed caller query log k).elim [] AuditPage.entries) =
          (Paging.newestFirst LoggedRow.id (matching caller query (log 0))).map LoggedRow.entry := by
      rw [← hall, List.map_flatMap]
      refine List.flatMap_congr fun k _ => ?_
      rw [followed_eq hadmin]
      cases Paging.pageAt LoggedRow.id (pageSize query) (fun k => matching caller query (log k)) k <;>
        rfl
    simp only [hentries]
    constructor
    · rw [List.pairwise_map]
      exact Paging.newestFirst_descends hkeys
    · intro entry
      simp only [List.mem_map, Paging.mem_newestFirst, matching, List.mem_filter, and_assoc]

/-- An administrator of the organization with the nil identifier. -/
def auditor : AuthUser :=
  ⟨⟨1⟩, .nil, "ada@acme.test", .admin⟩

/-- A log that has three entries at first and one more for each page. -/
def busyLog (k : Nat) : List LoggedRow :=
  (List.range (k + 3)).map fun (i : Nat) =>
    ⟨i, ⟨.nil, some ⟨1⟩, "ada@acme.test", "flag.updated", "flag", "shop/checkout", none, none, none,
      1⟩⟩

/-- In pages of two, the busy log is read to its end. -/
theorem audit_pages_exact_busyLog : ∃ last, ∀ k,
    (followed auditor ⟨none, none, none, some 2⟩ busyLog k).isSome = true ↔ k ≤ last := by
  have hgrows : Appended busyLog := by
    intro k
    refine ⟨_, by rw [busyLog, busyLog, Nat.add_right_comm, List.range_succ, List.map_append], ?_⟩
    intro new hnew old hold
    obtain ⟨i, hi, rfl⟩ := List.mem_map.mp hnew
    obtain ⟨j, hj, rfl⟩ := List.mem_map.mp hold
    rw [List.mem_singleton] at hi
    rw [List.mem_range] at hj
    simp only
    omega
  obtain ⟨last, hpages, _⟩ := @audit_pages_exact auditor rfl ⟨none, none, none, some 2⟩ busyLog
    hgrows (by decide)
  exact ⟨last, hpages⟩

end FlagForge.Api.AuditPages
