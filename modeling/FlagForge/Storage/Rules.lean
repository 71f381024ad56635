/-
Module: FlagForge.Storage.Rules
Layer: Storage
Purpose: What the storage functions leave in the log of a caller. Each rule reduces an obligation on
  a storage function to its statements and to what holds once they are answered.
Imports: FlagForge.Storage.Queries
Trusted boundary: none
Main exports: Answered, obeys_query, obeys_findFlag, obeys_findConfig, obeys_updateSegment
-/
import FlagForge.Storage.Queries

namespace FlagForge.Storage

open Prog (Log)
open Fallible (Obeys obeys_bind obeys_except)
open Sql (Stmt Resp SqlError FlagPatch SegmentPatch NewAuditEntry)

/-- The statement was issued and this is what it returned. -/
def Answered (log : Log Stmt Resp) (s : Stmt) (result : s.Result) : Prop :=
  (⟨s, .ok result⟩ : (s : Stmt) × Resp s) ∈ log

/-- An entry of the log. -/
abbrev entry (s : Stmt) (r : Resp s) : (s : Stmt) × Resp s := ⟨s, r⟩

theorem answered_head {log : Log Stmt Resp} {s : Stmt} {result : s.Result} :
    Answered (entry s (.ok result) :: log) s result :=
  List.mem_cons_self

theorem Answered.later {log : Log Stmt Resp} {s : Stmt} {result : s.Result}
    {e : (s : Stmt) × Resp s} (h : Answered log s result) : Answered (e :: log) s result :=
  List.mem_cons_of_mem _ h

section

variable {P : Log Stmt Resp → Stmt → Prop} {log : Log Stmt Resp} {α : Type}

theorem obeys_query {s : Stmt} {onError : SqlError → StorageError}
    {Q : Log Stmt Resp → s.Result → Prop} (hs : P log s)
    (hQ : ∀ result, Q (entry s (.ok result) :: log) result) : Obeys P Q log (query s onError) := by
  refine ⟨hs, ?_⟩
  intro r result heq
  cases r with
  | ok value =>
      cases heq
      exact hQ _
  | error e => cases heq

theorem obeys_plain {s : Stmt} {Q : Log Stmt Resp → s.Result → Prop} (hs : P log s)
    (hQ : ∀ result, Q (entry s (.ok result) :: log) result) : Obeys P Q log (plain s) :=
  obeys_query hs hQ

theorem obeys_orNotFound {entity : String} {row : Option α} {Q : Log Stmt Resp → α → Prop}
    (hQ : ∀ a, row = some a → Q log a) : Obeys P Q log (orNotFound entity row) := by
  apply obeys_except
  intro a heq
  cases row with
  | none => cases heq
  | some b =>
      cases heq
      exact hQ _ rfl

theorem obeys_orConflict {entity : String} {expected : Int64} {row : Option α}
    {Q : Log Stmt Resp → α → Prop} (hQ : ∀ a, row = some a → Q log a) :
    Obeys P Q log (orConflict entity expected row) := by
  apply obeys_except
  intro a heq
  cases row with
  | none => cases heq
  | some b =>
      cases heq
      exact hQ _ rfl

theorem obeys_orNoneDeleted {entity : String} {deleted : Nat} {Q : Log Stmt Resp → Unit → Prop}
    (hQ : Q log ()) : Obeys P Q log (orNoneDeleted entity deleted) :=
  obeys_except fun _ _ => hQ

theorem obeys_refuseInUse {entity key : String} {referencing : List String}
    {Q : Log Stmt Resp → Unit → Prop} (hQ : referencing = [] → Q log ()) :
    Obeys P Q log (refuseInUse entity key referencing) := by
  apply obeys_except
  intro u heq
  cases referencing with
  | nil => exact hQ rfl
  | cons key keys => cases heq

theorem obeys_checkVersion {entity : String} {expected : Option Int64} {version : Int64}
    {Q : Log Stmt Resp → Unit → Prop} (hQ : Q log ()) :
    Obeys P Q log (checkVersion entity expected version) :=
  obeys_except fun _ _ => hQ

/-! ### Lookups -/

theorem obeys_findProject {organizationId : Uuid} {key : String}
    {Q : Log Stmt Resp → ProjectRow → Prop} (hs : P log (.selectProject organizationId key))
    (hQ : ∀ row, Q (entry (.selectProject organizationId key) (.ok (some row)) :: log) row) :
    Obeys P Q log (findProject organizationId key) := by
  apply obeys_bind
  apply obeys_plain hs
  intro result
  apply obeys_orNotFound
  rintro row rfl
  exact hQ row

theorem obeys_findEnvironment {projectId : Uuid} {key : String}
    {Q : Log Stmt Resp → EnvironmentRow → Prop} (hs : P log (.selectEnvironment projectId key))
    (hQ : ∀ row, Q (entry (.selectEnvironment projectId key) (.ok (some row)) :: log) row) :
    Obeys P Q log (findEnvironment projectId key) := by
  apply obeys_bind
  apply obeys_plain hs
  intro result
  apply obeys_orNotFound
  rintro row rfl
  exact hQ row

theorem obeys_findFlag {projectId : Uuid} {key : String} {Q : Log Stmt Resp → FlagRow → Prop}
    (hs : P log (.selectFlag projectId key))
    (hQ : ∀ row, Q (entry (.selectFlag projectId key) (.ok (some row)) :: log) row) :
    Obeys P Q log (findFlag projectId key) := by
  apply obeys_bind
  apply obeys_plain hs
  intro result
  apply obeys_orNotFound
  rintro row rfl
  exact hQ row

theorem obeys_findConfig {flagId environmentId : Uuid} {Q : Log Stmt Resp → ConfigRow → Prop}
    (hs : P log (.selectConfig flagId environmentId))
    (hQ : ∀ row, Q (entry (.selectConfig flagId environmentId) (.ok (some row)) :: log) row) :
    Obeys P Q log (findConfig flagId environmentId) := by
  apply obeys_bind
  apply obeys_plain hs
  intro result
  apply obeys_orNotFound
  rintro row rfl
  exact hQ row

theorem obeys_findSegment {environmentId : Uuid} {key : String}
    {Q : Log Stmt Resp → SegmentRow → Prop} (hs : P log (.selectSegment environmentId key))
    (hQ : ∀ row, Q (entry (.selectSegment environmentId key) (.ok (some row)) :: log) row) :
    Obeys P Q log (findSegment environmentId key) := by
  apply obeys_bind
  apply obeys_plain hs
  intro result
  apply obeys_orNotFound
  rintro row rfl
  exact hQ row

/-! ### Writes -/

theorem obeys_deleteProject {organizationId : Uuid} {key : String}
    {Q : Log Stmt Resp → Unit → Prop} (hs : P log (.deleteProject organizationId key))
    (hQ : ∀ deleted, Q (entry (.deleteProject organizationId key) (.ok deleted) :: log) ()) :
    Obeys P Q log (deleteProject organizationId key) := by
  apply obeys_bind
  apply obeys_plain hs
  intro deleted
  apply obeys_orNoneDeleted
  exact hQ deleted

theorem obeys_deleteEnvironment {projectId : Uuid} {key : String}
    {Q : Log Stmt Resp → Unit → Prop} (hs : P log (.deleteEnvironment projectId key))
    (hQ : ∀ deleted, Q (entry (.deleteEnvironment projectId key) (.ok deleted) :: log) ()) :
    Obeys P Q log (deleteEnvironment projectId key) := by
  apply obeys_bind
  apply obeys_plain hs
  intro deleted
  apply obeys_orNoneDeleted
  exact hQ deleted

theorem obeys_updateFlag {crates : Crates} {flagId : Uuid} {patch : FlagPatch}
    {Q : Log Stmt Resp → FlagRow → Prop} (hs : P log (.updateFlag flagId patch))
    (hQ : ∀ row, Q (entry (.updateFlag flagId patch) (.ok (some row)) :: log) row) :
    Obeys P Q log (updateFlag crates flagId patch) := by
  apply obeys_bind
  apply obeys_query hs
  intro result
  apply obeys_orNotFound
  rintro row rfl
  exact hQ row

/-- A flag is deleted after two reads: the flag, and the experiments on it. -/
theorem obeys_deleteFlag {projectId : Uuid} {key : String} {Q : Log Stmt Resp → Unit → Prop}
    (hflag : P log (.selectFlag projectId key))
    (hexperiments : ∀ row : FlagRow,
      P (entry (.selectFlag projectId key) (.ok (some row)) :: log)
        (.selectExperimentsOfFlag row.id))
    (hs : ∀ row : FlagRow, P (entry (.selectExperimentsOfFlag row.id) (.ok ([] : List String)) ::
      entry (.selectFlag projectId key) (.ok (some row)) :: log) (.deleteFlag projectId key))
    (hQ : ∀ log, Q log ()) :
    Obeys P Q log (deleteFlag projectId key) := by
  apply obeys_bind
  apply obeys_findFlag hflag
  intro row
  apply obeys_bind
  apply obeys_plain (hexperiments row)
  intro referencing
  apply obeys_bind
  apply obeys_refuseInUse
  rintro rfl
  apply obeys_bind
  apply obeys_plain (hs row)
  intro deleted
  apply obeys_orNoneDeleted
  exact hQ _

theorem obeys_upsertConfig {crates : Crates} {flagId environmentId : Uuid} {enabled : Bool}
    {offVariant : String} {fallthrough : Distribution} {rules : List Rule}
    {expectedVersion : Option Int64} {Q : Log Stmt Resp → ConfigRow → Prop}
    (hs : P log
      (.upsertConfig flagId environmentId enabled offVariant fallthrough rules expectedVersion))
    (hQ : ∀ row, Q (entry (.upsertConfig flagId environmentId enabled offVariant fallthrough rules
      expectedVersion) (.ok (some row)) :: log) row) :
    Obeys P Q log (upsertConfig crates flagId environmentId enabled offVariant fallthrough rules
      expectedVersion) := by
  apply obeys_bind
  apply obeys_query hs
  intro result
  apply obeys_orConflict
  rintro row rfl
  exact hQ row

/-- The update of a segment comes after a second read of it. -/
theorem obeys_updateSegment {environmentId : Uuid} {key : String} {patch : SegmentPatch}
    {expectedVersion : Option Int64} {Q : Log Stmt Resp → SegmentRow → Prop}
    (hread : P log (.selectSegment environmentId key))
    (hs : ∀ current, P (entry (.selectSegment environmentId key) (.ok (some current)) :: log)
      (.updateSegment environmentId key patch expectedVersion))
    (hQ : ∀ log row, Q log row) :
    Obeys P Q log (updateSegment environmentId key patch expectedVersion) := by
  apply obeys_bind
  apply obeys_findSegment hread
  intro current
  apply obeys_bind
  apply obeys_checkVersion
  apply obeys_bind
  apply obeys_query (hs current)
  intro result
  apply obeys_orConflict
  intro row _
  exact hQ _ row

/-- A segment is deleted once no rule was seen to reference it. -/
theorem obeys_deleteSegment {environmentId : Uuid} {key : String} {Q : Log Stmt Resp → Unit → Prop}
    (hread : P log (.selectReferencingFlags environmentId key))
    (hs : P (entry (.selectReferencingFlags environmentId key) (.ok ([] : List String)) :: log)
      (.deleteSegment environmentId key))
    (hQ : ∀ log, Q log ()) :
    Obeys P Q log (deleteSegment environmentId key) := by
  apply obeys_bind
  apply obeys_plain hread
  intro referencing
  apply obeys_bind
  apply obeys_refuseInUse
  rintro rfl
  apply obeys_bind
  apply obeys_plain hs
  intro deleted
  apply obeys_orNoneDeleted
  exact hQ _

end

end FlagForge.Storage
