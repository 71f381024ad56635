/-
Module: FlagForge.Api.AuditChain
Layer: Api
Purpose: What the audit trail says about configurations and segments that are replaced. A handler
  reads the row for its audit entry and writes it by a later statement, so an entry shows the row that
  was replaced exactly if no other request wrote the row in between.
Imports: FlagForge.Api.Audited, FlagForge.Storage.AuditImages
Trusted boundary: none
Main exports: Put, Issues, Ended, put_follows, audit_trail, overtaken_breaks_trail
-/
import FlagForge.Api.Audited
import FlagForge.Storage.AuditImages

namespace FlagForge.Api

open Pool (Event Traced)
open Prog (Log)
open Storage
open Storage.Sql (Stmt Resp SqlError SegmentPatch NewAuditEntry exec)

/-- A request that replaces a configuration or a segment. -/
inductive Put where
  | config (projectKey environmentKey flagKey : String) (body : UpdateConfig)
  | segment (projectKey environmentKey segmentKey : String) (body : UpdateSegment)

/-- The request that it is. -/
def Put.request : Put → Request
  | .config projectKey environmentKey flagKey body =>
      .updateConfig projectKey environmentKey flagKey body
  | .segment projectKey environmentKey segmentKey body =>
      .updateSegment projectKey environmentKey segmentKey body

/-- What the server runs for it. -/
def put (crates : Crates) (call : AuthUser × Put) : Prog Stmt Resp (Except ApiError Unit) :=
  (handle crates call.1 call.2.request).run

/-! ### What the handlers do -/

/-- The log ends with a write of the row whose images are given: of the row after the write, and of
    the copy that was read first. -/
inductive Wrote : Log Stmt Resp → Option Image → Image → Prop where
  | config {log : Log Stmt Resp} {flagId environmentId : Uuid} {enabled : Bool} {offVariant : String}
      {fallthrough : Distribution} {rules : List Rule} {expectedVersion : Option Int64}
      {r : Except SqlError (Option ConfigRow)} {row : ConfigRow} (honly : OnlyReads log)
      (hfirst : ∀ e ∈ log, ∀ flagId environmentId, e.1 ≠ .selectConfig flagId environmentId) :
      Wrote (⟨.upsertConfig flagId environmentId enabled offVariant fallthrough rules
          expectedVersion, .ok (some row)⟩ :: ⟨.selectConfig flagId environmentId, r⟩ :: log)
        (r.toOption.join.map .config) (.config row)
  | segment {log : Log Stmt Resp} {environmentId : Uuid} {key : String} {patch : SegmentPatch}
      {expectedVersion : Option Int64} {r : Except SqlError (Option SegmentRow)}
      {previous row : SegmentRow} (honly : OnlyReads log)
      (hfirst : ∀ e ∈ log, ∀ environmentId key, e.1 ≠ .selectSegment environmentId key) :
      Wrote (⟨.updateSegment environmentId key patch expectedVersion, .ok (some row)⟩ ::
          ⟨.selectSegment environmentId key, r⟩ ::
          ⟨.selectSegment environmentId key, .ok (some previous)⟩ :: log)
        (some (.segment previous)) (.segment row)

/-- When a statement goes out: reads and the write after nothing but reads, the entry right after the
    write. -/
inductive Issues : Log Stmt Resp → Stmt → Prop where
  | early {log : Log Stmt Resp} {s : Stmt} (honly : OnlyReads log) (hput : s.isPut = true)
      (hentry : ∀ entry, s ≠ .insertAudit entry) : Issues log s
  | note {log : Log Stmt Resp} {entry : NewAuditEntry} {after : Image}
      (hwrote : Wrote log entry.before after) (hafter : entry.after = some after) :
      Issues log (.insertAudit entry)

/-- How a request ends: it only read, or it wrote nothing, or it wrote and recorded that. -/
inductive Ended : Log Stmt Resp → Prop where
  | reads {log : Log Stmt Resp} (honly : OnlyReads log) : Ended log
  | failed {log : Log Stmt Resp} {s : Stmt} {error : SqlError} (honly : OnlyReads log) :
      Ended (⟨s, .error error⟩ :: log)
  | refusedConfig {log : Log Stmt Resp} {flagId environmentId : Uuid} {enabled : Bool}
      {offVariant : String} {fallthrough : Distribution} {rules : List Rule}
      {expectedVersion : Option Int64} (honly : OnlyReads log) :
      Ended (⟨.upsertConfig flagId environmentId enabled offVariant fallthrough rules
        expectedVersion, .ok (none : Option ConfigRow)⟩ :: log)
  | refusedSegment {log : Log Stmt Resp} {environmentId : Uuid} {key : String} {patch : SegmentPatch}
      {expectedVersion : Option Int64} (honly : OnlyReads log) :
      Ended (⟨.updateSegment environmentId key patch expectedVersion,
        .ok (none : Option SegmentRow)⟩ :: log)
  | noted {log : Log Stmt Resp} {entry : NewAuditEntry} {after : Image} {r : Except SqlError Unit}
      (hwrote : Wrote log entry.before after) (hafter : entry.after = some after) :
      Ended (⟨.insertAudit entry, r⟩ :: log)

section Rules

variable {α β : Type} {log : Log Stmt Resp}

/-- The handler keeps to that, on every path and whatever the answers are. -/
def Follows (log : Log Stmt Resp) (p : Handler β) : Prop :=
  Prog.Obeys Issues (fun log _ => Ended log) log p.run

theorem onlyReads_nil : OnlyReads [] := by
  simp [OnlyReads]

/-- A read more leaves it so. -/
theorem OnlyReads.cons {s : Stmt} {r : Resp s} (h : OnlyReads log) (hs : s.isRead = true) :
    OnlyReads (⟨s, r⟩ :: log) := by
  simpa [OnlyReads, hs] using h

/-- A check issues nothing. -/
theorem follows_check {r : Except ApiError α} {f : α → Handler β} (honly : OnlyReads log)
    (h : ∀ a, Follows log (f a)) : Follows log (check r >>= f) := by
  cases r with
  | ok a => exact h a
  | error e => exact Ended.reads honly

/-- Reads are among what a PUT may issue. -/
theorem isPut_of_isRead {s : Stmt} (h : s.isRead = true) : s.isPut = true := by
  cases s <;> first | rfl | exact h

/-- A read, and the rest for every value that it may answer. -/
theorem follows_plain {s : Stmt} {f : s.Result → Handler β} (honly : OnlyReads log)
    (hs : s.isRead = true)
    (h : ∀ v, OnlyReads (⟨s, .ok v⟩ :: log) → Follows (⟨s, .ok v⟩ :: log) (f v)) :
    Follows log (storage (plain s) >>= f) := by
  refine ⟨.early honly (isPut_of_isRead hs) ?_, ?_⟩
  · rintro entry rfl
    cases hs
  · intro r
    cases r with
    | error e => exact Ended.failed honly
    | ok v => exact h v (honly.cons hs)

/-- A lookup, and the rest for the row that it finds. -/
theorem follows_find {s : Stmt} {row : s.Result → Option α} {entity : String} {f : α → Handler β}
    (honly : OnlyReads log) (hs : s.isRead = true)
    (h : ∀ v a, OnlyReads (⟨s, .ok v⟩ :: log) → row v = some a →
      Follows (⟨s, .ok v⟩ :: log) (f a)) :
    Follows log (storage (do let result ← plain s; orNotFound entity (row result)) >>= f) := by
  rw [storage_bind]
  apply follows_plain honly hs
  intro v hread
  cases hrow : row v with
  | none => exact Ended.reads hread
  | some a => exact h v a hread hrow

/-- The entry comes last, and shows what was read and what was written. -/
theorem follows_audit {caller : AuthUser} {action resourceType resourceId : String}
    {environmentId : Option Uuid} {before : Option Image} {after : Image} {a : α}
    (h : Wrote log before after) :
    Follows log (do
      caller.audit action resourceType resourceId environmentId before (some after)
      pure a : Handler α) := by
  refine ⟨.note h rfl, ?_⟩
  intro r
  cases r with
  | error e => exact Ended.noted h rfl
  | ok v => exact Ended.noted h rfl

theorem follows_discard {p : Handler α} (h : Follows log p) : Follows log (handle.discard p) := by
  apply Prog.obeys_bind
  apply Prog.Obeys.mono _ h
  intro log r hended
  cases r <;> exact hended

end Rules

variable {crates : Crates} {caller : AuthUser}

/-- A PUT on a configuration reads, writes the configuration and writes its entry, in this order. -/
theorem updateConfig_follows (projectKey environmentKey flagKey : String) (body : UpdateConfig) :
    Follows [] (updateConfig crates caller projectKey environmentKey flagKey body) := by
  apply follows_check onlyReads_nil
  intro _
  apply follows_find onlyReads_nil rfl
  intro _ project hproject _
  apply follows_find hproject rfl
  intro _ environment henvironment _
  apply follows_find henvironment rfl
  intro _ flag hflag _
  apply follows_check hflag
  intro evaluable
  apply follows_plain hflag rfl
  intro known hknown
  apply follows_check hknown
  intro _
  rw [Follows, attempt_findConfig]
  refine ⟨.early hknown rfl fun _ => Stmt.noConfusion, ?_⟩
  intro previous
  have hread := hknown.cons (s := .selectConfig flag.id environment.id) (r := previous) rfl
  refine ⟨.early hread rfl fun _ => Stmt.noConfusion, ?_⟩
  intro answer
  cases answer with
  | error e => exact Ended.failed hread
  | ok row =>
      cases row with
      | none => exact Ended.refusedConfig hread
      | some row => exact follows_audit (.config hknown (by simp))

/-- The copy for the entry is the first of the two that are read. -/
theorem updateSegment_follows (projectKey environmentKey segmentKey : String)
    (body : UpdateSegment) :
    Follows [] (updateSegment crates caller projectKey environmentKey segmentKey body) := by
  apply follows_check onlyReads_nil
  intro _
  apply follows_find onlyReads_nil rfl
  intro _ project hproject _
  apply follows_find hproject rfl
  intro _ environment henvironment _
  apply follows_find henvironment rfl
  intro _ previous hprevious heq
  cases heq
  apply follows_check hprevious
  intro _
  rw [Storage.updateSegment, storage_bind]
  apply follows_find hprevious rfl
  intro _ current hcurrent _
  rw [storage_bind]
  rcases checkVersion_cases "segment" body.expectedVersion current.version with h | ⟨v, h⟩
  · rw [h]
    refine ⟨.early hcurrent rfl fun _ => Stmt.noConfusion, ?_⟩
    intro answer
    cases answer with
    | error e => exact Ended.failed hcurrent
    | ok row =>
        cases row with
        | none => exact Ended.refusedSegment hcurrent
        | some row => exact follows_audit (.segment henvironment (by simp))
  · rw [h]
    exact Ended.reads hcurrent

/-- So does either PUT. -/
theorem put_follows (call : AuthUser × Put) :
    Prog.Obeys Issues (fun log _ => Ended log) [] (put crates call) := by
  obtain ⟨caller, request⟩ := call
  cases request with
  | config => exact follows_discard (updateConfig_follows _ _ _ _)
  | segment => exact follows_discard (updateSegment_follows _ _ _ _)

/-! ### What that means for a row -/

section Row

variable {ρ : Type} {A : NotedRow Stmt Resp Db ρ Image} {rowOf : Image → Option ρ}
variable {log : Log Stmt Resp}

/-- A read writes no row and no entry. -/
theorem quiet_of_isRead (haudits : Audits A rowOf) {e : (s : Stmt) × Resp s}
    (h : e.1.isRead = true) : A.Quiet e := by
  refine ⟨haudits.unwritten _ _ (.inl h), ?_⟩
  obtain ⟨s, r⟩ := e
  rw [haudits.note_eq]
  cases s <;> first | rfl | exact absurd h Bool.false_ne_true

/-- A request for any row is a writer of every row, if its write and its entry are of one row. -/
theorem writer_of_put (haudits : Audits A rowOf)
    (htells : ∀ {log before after row}, (∀ e ∈ log, Genuine e) → Wrote log before after →
      rowOf after = some row → A.Tells log before row)
    (hshown : ∀ {log before after}, (∀ e ∈ log, Genuine e) → Wrote log before after →
      (∃ e ∈ log, (A.write e.1 e.2).isSome) → (rowOf after).isSome) (call : AuthUser × Put) :
    A.Writer Genuine [] (put crates call) := by
  apply Prog.Obeys.imp _ _ (put_follows call)
  · intro log s hissues hgenuine
    cases hissues with
    | early honly hput hentry =>
        constructor
        · exact fun _ _ e he => quiet_of_isRead haudits (honly e he)
        · intro r before after hnote
          rw [haudits.note_eq] at hnote
          cases s <;> first | exact absurd rfl (hentry _) | cases hnote
    | @note entry after hwrote hafter =>
        constructor
        · intro r hwrite
          rw [haudits.unwritten _ _ (.inr ⟨entry, rfl⟩)] at hwrite
          cases hwrite
        · intro r before row hnote
          rw [haudits.note_eq] at hnote
          cases r with
          | error e => cases hnote
          | ok v =>
              obtain ⟨row', hrow, heq⟩ : ∃ row', rowOf after = some row' ∧
                  (entry.before, row') = (before, row) := by
                simpa [recorded, changed, hafter] using hnote
              cases heq
              exact htells hgenuine hwrote hrow
  · intro log _ hended hgenuine hwritten
    have hreads : ∀ {log}, OnlyReads log → ∀ e ∈ log, A.write e.1 e.2 = none :=
      fun honly e he => (quiet_of_isRead haudits (honly e he)).1
    obtain ⟨e, he, hwrite⟩ := hwritten
    cases hended with
    | reads honly => simp [hreads honly e he] at hwrite
    | failed =>
        obtain ⟨_, heq⟩ := (hgenuine _ List.mem_cons_self).ok
        cases heq
    | refusedConfig honly =>
        rcases List.mem_cons.mp he with rfl | he
        · simp [haudits.refusedConfig] at hwrite
        · simp [hreads honly e he] at hwrite
    | refusedSegment honly =>
        rcases List.mem_cons.mp he with rfl | he
        · simp [haudits.refusedSegment] at hwrite
        · simp [hreads honly e he] at hwrite
    | @noted log entry after r hwrote hafter =>
        refine ⟨_, List.mem_cons_self, ?_⟩
        rcases List.mem_cons.mp he with rfl | he
        · rw [haudits.unwritten (.insertAudit entry) r (.inr ⟨entry, rfl⟩)] at hwrite
          cases hwrite
        · have hbefore : ∀ e ∈ log, Genuine e := fun e he => hgenuine e (List.mem_cons_of_mem _ he)
          have hsome := hshown hbefore hwrote ⟨e, he, hwrite⟩
          obtain ⟨_, rfl⟩ := (hgenuine _ List.mem_cons_self).ok
          simpa [haudits.note_eq, recorded, changed, hafter] using hsome

end Row

section

variable {log : Log Stmt Resp} {before : Option Image} {after : Image}

/-- The entry of a PUT on a configuration shows the row that was found before and the row that was
    written. -/
theorem tells_config {flagId environmentId : Uuid} {row : ConfigRow}
    (hgenuine : ∀ e ∈ log, Genuine e) (h : Wrote log before after)
    (hrow : Image.configOf flagId environmentId after = some row) :
    (configEntries flagId environmentId).Tells log before row := by
  have haudits := audits_config flagId environmentId
  cases h with
  | segment => cases hrow
  | @config older flagId' environmentId' enabled offVariant fallthrough rules expectedVersion r row'
      honly hfirst =>
      obtain ⟨hthis, rfl⟩ : _ ∧ _ := by simpa [Image.configOf] using hrow
      obtain ⟨rfl, rfl⟩ := isFor_of_genuine_upsert (hgenuine _ List.mem_cons_self)
      obtain ⟨rfl, rfl⟩ := hthis
      obtain ⟨copy, rfl⟩ := (hgenuine _ (List.mem_cons_of_mem _ List.mem_cons_self)).ok
      have hwrite : (configEntries row'.flagId row'.environmentId).write
          (.upsertConfig row'.flagId row'.environmentId enabled offVariant fallthrough rules
            expectedVersion) (.ok (some row')) = some (expectedVersion.map Int64.toInt, row') := by
        simp [configEntries, configVersions]
      have hread : (configEntries row'.flagId row'.environmentId).read
          (.selectConfig row'.flagId row'.environmentId) (.ok copy) = some copy :=
        if_pos ⟨rfl, rfl⟩
      have hquiet : ∀ e ∈ [] ++ ⟨.selectConfig row'.flagId row'.environmentId, .ok copy⟩ :: older,
          (configEntries row'.flagId row'.environmentId).Quiet e :=
        fun e he => quiet_of_isRead haudits (honly.cons rfl e he)
      refine .intro hwrite rfl hread hquiet ?_
      rintro ⟨s, r⟩ he
      cases s <;> first | rfl | exact absurd rfl (hfirst _ he _ _)

/-- So does that of a PUT on a segment. -/
theorem tells_segment {environmentId : Uuid} {key : String} {row : SegmentRow}
    (hgenuine : ∀ e ∈ log, Genuine e) (h : Wrote log before after)
    (hrow : Image.segmentOf environmentId key after = some row) :
    (segmentEntries environmentId key).Tells log before row := by
  have haudits := audits_segment environmentId key
  cases h with
  | config => cases hrow
  | @segment older environmentId' key' patch expectedVersion r previous row' honly hfirst =>
      obtain ⟨hthis, rfl⟩ : _ ∧ _ := by simpa [Image.segmentOf] using hrow
      obtain ⟨rfl, rfl⟩ := isFor_of_genuine_update (hgenuine _ List.mem_cons_self)
      obtain ⟨rfl, rfl⟩ := hthis
      have hwrite : (segmentEntries row'.environmentId row'.key).write
          (.updateSegment row'.environmentId row'.key patch expectedVersion) (.ok (some row')) =
            some (expectedVersion.map Int64.toInt, row') := by
        simp [segmentEntries, segmentVersions]
      have hread : (segmentEntries row'.environmentId row'.key).read
          (.selectSegment row'.environmentId row'.key) (.ok (some previous)) =
            some (some previous) :=
        if_pos ⟨rfl, rfl⟩
      have hquiet : ∀ e ∈ [⟨.selectSegment row'.environmentId row'.key, r⟩] ++
          ⟨.selectSegment row'.environmentId row'.key, .ok (some previous)⟩ :: older,
            (segmentEntries row'.environmentId row'.key).Quiet e :=
        fun e he => quiet_of_isRead haudits ((honly.cons rfl).cons rfl e he)
      refine .intro (w := ⟨.updateSegment row'.environmentId row'.key patch expectedVersion,
        .ok (some row')⟩) hwrite rfl hread hquiet ?_
      rintro ⟨s, r⟩ he
      cases s <;> first | rfl | exact absurd rfl (hfirst _ he _ _)

/-- The image after an upsert is of the configuration that it wrote. -/
theorem shown_config {flagId environmentId : Uuid} (hgenuine : ∀ e ∈ log, Genuine e)
    (h : Wrote log before after)
    (hwritten : ∃ e ∈ log, ((configEntries flagId environmentId).write e.1 e.2).isSome) :
    (Image.configOf flagId environmentId after).isSome := by
  obtain ⟨e, he, hwrite⟩ := hwritten
  have hread : e.1.isRead = false := by
    rw [Bool.eq_false_iff]
    intro hread
    simp [(quiet_of_isRead (audits_config flagId environmentId) hread).1] at hwrite
  cases h with
  | config honly =>
      rcases List.mem_cons.mp he with rfl | he
      · obtain ⟨rfl, rfl⟩ := isFor_of_genuine_upsert (hgenuine _ List.mem_cons_self)
        simp only [configEntries, configVersions] at hwrite
        split at hwrite
        · rename_i hthis
          simp [Image.configOf, hthis]
        · cases hwrite
      · rw [honly.cons rfl e he] at hread
        cases hread
  | segment honly =>
      rcases List.mem_cons.mp he with rfl | he
      · cases hwrite
      · rw [(honly.cons rfl).cons rfl e he] at hread
        cases hread

/-- A PUT that has written a segment shows a segment. -/
theorem shown_segment {environmentId : Uuid} {key : String} (hgenuine : ∀ e ∈ log, Genuine e)
    (h : Wrote log before after)
    (hwritten : ∃ e ∈ log, ((segmentEntries environmentId key).write e.1 e.2).isSome) :
    (Image.segmentOf environmentId key after).isSome := by
  obtain ⟨e, he, hwrite⟩ := hwritten
  have hread : e.1.isRead = false := by
    rw [Bool.eq_false_iff]
    intro hread
    simp [(quiet_of_isRead (audits_segment environmentId key) hread).1] at hwrite
  cases h with
  | config honly =>
      rcases List.mem_cons.mp he with rfl | he
      · cases hwrite
      · rw [honly.cons rfl e he] at hread
        cases hread
  | segment honly =>
      rcases List.mem_cons.mp he with rfl | he
      · obtain ⟨rfl, rfl⟩ := isFor_of_genuine_update (hgenuine _ List.mem_cons_self)
        simp only [segmentEntries, segmentVersions] at hwrite
        split at hwrite
        · rename_i hthis
          simp [Image.segmentOf, hthis]
        · cases hwrite
      · rw [(honly.cons rfl).cons rfl e he] at hread
        cases hread

end

/-- A PUT issues nothing but reads, its write and its entry. -/
theorem put_isPut (call : AuthUser × Put) :
    Prog.Obeys (fun _ s => s.isPut = true) (fun _ _ => True) [] (put crates call) := by
  apply Prog.Obeys.imp _ _ (put_follows call)
  · intro log s h
    cases h with
    | early _ hput => exact hput
    | note => rfl
  · exact fun _ _ _ => trivial

/-- Requests that replace configurations and segments, in any order of their statements, none of
    which fails: the audit entries about a row are right as long as nobody writes the row between a
    read and a write of it by one request, and in the end they form a chain exactly in that case. -/
theorem audit_trail (crates : Crates) {initial : Db} {calls : List (AuthUser × Put)}
    {events : List (Event Stmt Db Sql.Input)} {pool : Pool Stmt Resp (Except ApiError Unit) Db}
    (h : Traced exec initial (calls.map (put crates)) events pool)
    (hok : ∀ e ∈ events, ∃ value, e.answer exec = .ok value) :
    (∀ flagId environmentId, KeepsTrail (configEntries flagId environmentId)
      (Image.configOf flagId environmentId) initial events pool) ∧
    ∀ environmentId key, KeepsTrail (segmentEntries environmentId key)
      (Image.segmentOf environmentId key) initial events pool := by
  have hputs : ∀ p ∈ calls.map (put crates),
      Prog.Obeys (fun _ s => s.isPut = true) (fun _ _ => True) [] p := by
    intro p hp
    obtain ⟨call, _, rfl⟩ := List.mem_map.mp hp
    exact put_isPut call
  constructor
  · intro flagId environmentId
    have haudits := audits_config flagId environmentId
    refine keepsTrail haudits h hputs ?_ hok
    intro p hp
    obtain ⟨call, _, rfl⟩ := List.mem_map.mp hp
    exact writer_of_put haudits tells_config shown_config call
  · intro environmentId key
    have haudits := audits_segment environmentId key
    refine keepsTrail haudits h hputs ?_ hok
    intro p hp
    obtain ⟨call, _, rfl⟩ := List.mem_map.mp hp
    exact writer_of_put haudits tells_segment shown_segment call

/-! ### Two rivals in the shop -/

namespace Shop

def turnOff : AuthUser × Put :=
  (owner, .config "shop" "live" "checkout" ⟨false, "off", .fixed "on", [], none⟩)

def serveOff : AuthUser × Put :=
  (owner, .config "shop" "live" "checkout" ⟨true, "off", .fixed "off", [], none⟩)

/-- Both requests, and whose statement is next. -/
def rivals (turns : List Nat) : Schedule :=
  .spawn (put .plain turnOff) :: .spawn (put .plain serveOff) :: turns.map (.run · tick)

/-- The second request writes between the read and the write of the first. -/
def overtaken : List Nat :=
  List.replicate 5 0 ++ List.replicate 7 1 ++ List.replicate 2 0

def inTurn : List Nat :=
  List.replicate 7 0 ++ List.replicate 7 1

def events (turns : List Nat) : List (Event Stmt Db Sql.Input) :=
  Pool.history exec (rivals turns) ⟨store, []⟩

def after (turns : List Nat) : Server :=
  Pool.runSchedule exec (rivals turns) ⟨store, []⟩

def imageVersion : Option Image → Option Int64
  | some (.config row) => some row.version
  | _ => none

/-- The versions before and after that an entry shows. -/
def versionsShown (change : Option Image × ConfigRow) : Option Int64 × Int64 :=
  (imageVersion change.1, change.2.version)

theorem traced (turns : List Nat) :
    Traced exec store ([turnOff, serveOff].map (put .plain)) (events turns) (after turns) := by
  have hstarted : Pool.started (rivals turns) = [turnOff, serveOff].map (put .plain) := by
    induction turns with
    | nil => rfl
    | cons i turns ih => exact ih
  have h : Traced exec store ([] ++ Pool.started (rivals turns)) (events turns ++ []) (after turns) :=
    .schedule .start
  rwa [hstarted, List.nil_append, List.append_nil] at h

end Shop

theorem answered_of_all {events : List (Event Stmt Db Sql.Input)}
    (h : events.all (fun e => (e.answer exec).isOk) = true) :
    ∀ e ∈ events, ∃ value, e.answer exec = .ok value := by
  intro e he
  have hanswer := List.all_eq_true.mp h e he
  cases hvalue : e.answer exec with
  | ok value => exact ⟨value, rfl⟩
  | error error =>
      rw [hvalue] at hanswer
      cases hanswer

theorem finished_of_all {threads : List (Thread Stmt Resp (Except ApiError Unit))}
    (h : threads.all (fun t => match t.prog with
      | .done r => r.isOk
      | .call _ _ => false) = true) : ∀ t ∈ threads, ∃ r, t.prog = .done r := by
  intro t ht
  have hdone := List.all_eq_true.mp h t ht
  cases hprog : t.prog with
  | done r => exact ⟨r, rfl⟩
  | call s k =>
      rw [hprog] at hdone
      cases hdone

/-- One after the other, the requests leave a chain of two entries. -/
theorem audit_trail_inTurn :
    (configEntries ⟨3⟩ ⟨2⟩).Faithful exec (Shop.events Shop.inTurn) ∧
    (configEntries ⟨3⟩ ⟨2⟩).Chained
      (changesIn (Image.configOf ⟨3⟩ ⟨2⟩) (trail Shop.store (Shop.after Shop.inTurn).db)) ∧
    (changesIn (Image.configOf ⟨3⟩ ⟨2⟩) (trail Shop.store (Shop.after Shop.inTurn).db)).map
      Shop.versionsShown = [(some 1, 2), (some 2, 3)] := by
  have htrail := (audit_trail .plain (Shop.traced Shop.inTurn)
    (answered_of_all (by decide))).1 ⟨3⟩ ⟨2⟩
  have hundisturbed := htrail.serial (by decide)
  obtain ⟨hfaithful, hchained⟩ :=
    (htrail.chained_iff (finished_of_all (by decide))).mpr hundisturbed
  exact ⟨hfaithful, hchained, by decide⟩

/-- The versions of a chain of changes in their order. -/
theorem versions_chain {flagId environmentId : Uuid} {changes : List (Option Image × ConfigRow)}
    (h : (configEntries flagId environmentId).Chained changes)
    (hsorted : (changes.map Shop.versionsShown).Pairwise fun a b => a.2.toInt ≤ b.2.toInt) :
    (changes.map Shop.versionsShown).IsChain fun a b => b.1 = some a.2 := by
  rw [List.pairwise_map] at hsorted
  rw [List.isChain_map]
  apply (h changes (.refl _) hsorted).imp
  intro a b hlinked
  rw [Shop.versionsShown, hlinked]
  rfl

/-- Both requests are answered, and both entries show the first version as the one that was replaced:
    the entry of the request that was overtaken is wrong, and the change to the second version begins
    nowhere. -/
theorem overtaken_breaks_trail :
    Traced exec Shop.store ([Shop.turnOff, Shop.serveOff].map (put .plain))
      (Shop.events Shop.overtaken) (Shop.after Shop.overtaken) ∧
    (∀ e ∈ Shop.events Shop.overtaken, ∃ value, e.answer exec = .ok value) ∧
    (∀ t ∈ (Shop.after Shop.overtaken).threads, ∃ r, t.prog = .done r) ∧
    (changesIn (Image.configOf ⟨3⟩ ⟨2⟩) (trail Shop.store (Shop.after Shop.overtaken).db)).map
      Shop.versionsShown = [(some 1, 2), (some 1, 3)] ∧
    ¬(configEntries ⟨3⟩ ⟨2⟩).Faithful exec (Shop.events Shop.overtaken) ∧
    ¬(configEntries ⟨3⟩ ⟨2⟩).Chained
      (changesIn (Image.configOf ⟨3⟩ ⟨2⟩) (trail Shop.store (Shop.after Shop.overtaken).db)) := by
  have hversions : (changesIn (Image.configOf ⟨3⟩ ⟨2⟩)
      (trail Shop.store (Shop.after Shop.overtaken).db)).map Shop.versionsShown =
        [(some 1, 2), (some 1, 3)] := by
    decide
  refine ⟨Shop.traced _, answered_of_all (by decide), finished_of_all (by decide), hversions, ?_, ?_⟩
  · intro hfaithful
    -- what thread 0 notes, and what its write replaces
    have hnoted : ((Shop.events Shop.overtaken).filter (·.thread = 0)).filterMap (fun n =>
        ((configEntries ⟨3⟩ ⟨2⟩).noteOf exec n).map Shop.versionsShown) = [(some 1, 3)] := by
      decide
    have hreplaced : ∀ w ∈ Shop.events Shop.overtaken, w.thread = 0 →
        ((configEntries ⟨3⟩ ⟨2⟩).writeOf exec w).isSome →
          Shop.imageVersion (((configEntries ⟨3⟩ ⟨2⟩).find w.before).map Image.config) = some 2 := by
      decide
    have hmem : ((some 1, 3) : Option Int64 × Int64) ∈ [((some 1, 3) : Option Int64 × Int64)] :=
      List.mem_cons_self
    rw [← hnoted, List.mem_filterMap] at hmem
    obtain ⟨n, hn, hshown⟩ := hmem
    obtain ⟨hn, hthread⟩ := List.mem_filter.mp hn
    obtain ⟨⟨before, row⟩, hnote, hpair⟩ := Option.map_eq_some_iff.mp hshown
    obtain ⟨w, hw, hwn, ⟨expected, hwrite⟩, hbefore⟩ := hfaithful n hn before row hnote
    have hversion := hreplaced w hw (hwn.trans (by simpa using hthread))
      (by rw [hwrite]; rfl)
    have hshows : Shop.imageVersion before = some 1 := congrArg Prod.fst hpair
    rw [hbefore] at hshows
    cases hversion.symm.trans hshows
  · intro hchained
    have hchain := versions_chain hchained (by rw [hversions]; decide)
    rw [hversions] at hchain
    simp at hchain

end FlagForge.Api
