/-
Module: FlagForge.Service.Attribution
Layer: Service
Purpose: Why a flag evaluates differently than before. In any interleaving of requests the tables stay
  tidy, and the evaluation of a flag changes only by the statements of requests that ask for it: of
  callers who may, naming the flag, a segment of its rules, or the environment.
Imports: FlagForge.Service.Commands, FlagForge.Service.KeyHistory (what threads were
  answered, the shop), FlagForge.Storage.Footprint
Trusted boundary: none
Main exports: Placed, Places, tidy_always, evaluation_change_commanded
-/
import FlagForge.Service.Commands
import FlagForge.Service.KeyHistory
import FlagForge.Storage.Footprint

namespace FlagForge.Service

open Pool (Event Traced)
open Prog (Log)
open Storage
open Api

/-! ### The tables in a run -/

section Tables

variable {input : Input} {store : Store}

/-- Only statements on the tables change them. -/
theorem exec_tables (input : Input) (s : Stmt) (store : Store) :
    (∃ t, s = .counted (.sql t) ∧
      (exec input s store).2.db = (Sql.exec input.toInput t store.db).2) ∨
        (exec input s store).2.db = store.db := by
  cases s with
  | counted s =>
      rcases Counting.exec_cases input.toInput s store.toMeasured with
        ⟨t, rfl, hm⟩ | ⟨environmentId, cells, rfl, hm⟩
      · exact .inl ⟨t, rfl, congrArg Measured.db hm⟩
      · refine .inr ?_
        change (Counting.exec input.toInput _ store.toMeasured).2.db = _
        rcases hm with hm | ⟨counters, _, hm⟩ <;> rw [hm]
  | insertKey environmentId name keyHash shown scope =>
      rcases insertKey_cases with ⟨e, h⟩ | ⟨key, store', hinsert, h⟩
      · exact .inr (by rw [h])
      · obtain ⟨_, hinsert⟩ := Sql.of_require hinsert
        obtain ⟨_, hinsert⟩ := Sql.of_require hinsert
        obtain ⟨_, hinsert⟩ := Sql.of_require hinsert
        cases hinsert
        exact .inr (by rw [h])
  | revokeKey environmentId id =>
      rcases revokeKey_cases with ⟨e, h⟩ | h
      · exact .inr (by rw [h])
      · exact .inr (by rw [h]; rfl)
  | touchKey id =>
      rcases touchKey_cases with ⟨e, h⟩ | h
      · exact .inr (by rw [h])
      · exact .inr (by rw [h]; rfl)
  | _ => exact .inr rfl

end Tables

/-- Every flag and every environment is of the project that its identifier is assigned to. -/
structure Placed (home : Uuid → Uuid) (db : Db) : Prop where
  flags : ∀ f ∈ db.flags, home f.id = f.projectId
  environments : ∀ e ∈ db.environments, home e.id = e.projectId

/-- What an identifier that the database generates for the statement is assigned to. -/
def Settles (home : Uuid → Uuid) (id : Uuid) : Sql.Stmt → Prop
  | .createFlag projectId .. | .createEnvironment projectId .. => home id = projectId
  | _ => True

/-- In the run, identifiers of flags and environments are generated for one project each. -/
def Places (home : Uuid → Uuid) (events : List (Event Stmt Store Input)) : Prop :=
  ∀ e ∈ events, ∀ t, e.stmt = .counted (.sql t) → Settles home e.input.id t

section Placement

variable {home : Uuid → Uuid} {db : Db} {input : Sql.Input}

namespace Placed

/-- Rows that are left, or are changed in other columns, stay where they are. -/
theorem of_rows {db' : Db} (h : Placed home db)
    (hflags : ∀ f ∈ db'.flags, ∃ g ∈ db.flags, f.id = g.id ∧ f.projectId = g.projectId)
    (henvironments : ∀ e ∈ db'.environments, e ∈ db.environments) : Placed home db' where
  flags f hf := by
    obtain ⟨g, hg, hid, hproject⟩ := hflags f hf
    rw [hid, hproject]
    exact h.flags g hg
  environments e he := h.environments e (henvironments e he)

/-- A committed write leaves every environment, flag and segment in the organization that it is placed
    in. -/
theorem run {s : Sql.Stmt} {w : Sql.Written s.Result} (h : Placed home db)
    (hsettles : Settles home input.id s) (hw : s.run input db = .ok w) : Placed home w.db := by
  have hsame : ∀ {db' : Db}, db'.flags = db.flags → db'.environments = db.environments →
      Placed home db' := by
    intro db' hflags henvironments
    exact ⟨hflags ▸ h.flags, henvironments ▸ h.environments⟩
  cases s with
  | insertProject =>
      obtain ⟨_, rfl⟩ := Sql.insertProject_cases hw
      exact hsame rfl rfl
  | deleteProject =>
      rcases Sql.deleteProject_cases hw with rfl | ⟨project, _, _, hdb⟩
      · exact h
      · rw [hdb]
        exact h.of_rows (fun f hf => ⟨f, (List.mem_filter.mp hf).1, rfl, rfl⟩)
          fun e he => (List.mem_filter.mp he).1
  | createEnvironment =>
      obtain ⟨configs, hrow, _, hdb⟩ := Sql.createEnvironment_cases hw
      obtain ⟨_, _, hvalue⟩ := Sql.insertEnvironment_cases hrow
      rw [hdb]
      refine ⟨h.flags, fun e he => ?_⟩
      rcases List.mem_append.mp he with he | he
      · exact h.environments e he
      · rw [List.mem_singleton.mp he, hvalue]
        exact hsettles
  | deleteEnvironment =>
      rw [(Sql.deleteEnvironment_cases hw).1]
      exact h.of_rows (fun f hf => ⟨f, hf, rfl, rfl⟩) fun e he => (List.mem_filter.mp he).1
  | createFlag =>
      obtain ⟨hrow, hdb⟩ := Sql.createFlag_cases hw
      obtain ⟨_, _, hvalue⟩ := Sql.insertFlag_cases hrow
      rw [hdb]
      refine ⟨fun f hf => ?_, h.environments⟩
      rcases List.mem_append.mp hf with hf | hf
      · exact h.flags f hf
      · rw [List.mem_singleton.mp hf, hvalue]
        exact hsettles
  | updateFlag =>
      rcases Sql.updateFlag_cases hw with rfl | ⟨old, hold, rfl⟩
      · exact h
      · refine h.of_rows (fun f hf => ?_) fun e he => he
        rcases Table.mem_replace hf with rfl | ⟨hf, _⟩
        · exact ⟨old, List.mem_of_find?_eq_some hold, rfl, rfl⟩
        · exact ⟨f, hf, rfl, rfl⟩
  | deleteFlag =>
      rw [(Sql.deleteFlag_cases hw).2.1]
      exact h.of_rows (fun f hf => ⟨f, (List.mem_filter.mp hf).1, rfl, rfl⟩) fun e he => he
  | upsertConfig =>
      rcases Sql.upsertConfig_cases hw with ⟨_, _, _, _, _, rfl⟩ | ⟨_, _, _, _, _, _, rfl⟩ |
        ⟨_, _, _, rfl⟩ <;> exact hsame rfl rfl
  | insertSegment =>
      obtain ⟨_, _, _, rfl⟩ := Sql.insertSegment_cases hw
      exact hsame rfl rfl
  | updateSegment =>
      rcases Sql.updateSegment_cases hw with ⟨_, _, _, _, _, _, rfl⟩ | ⟨rfl, _⟩ <;> exact hsame rfl rfl
  | deleteSegment =>
      rw [(Sql.deleteSegment_cases hw).1]
      exact hsame rfl rfl
  | insertExperiment =>
      obtain ⟨_, _, _, _, _, rfl⟩ := Sql.insertExperiment_cases hw
      exact hsame rfl rfl
  | updateExperiment | transitionExperiment =>
      rcases Sql.modifyExperiment_cases hw with rfl | ⟨_, _, _, _, _, rfl⟩ <;> exact hsame rfl rfl
  | deleteExperiment =>
      rw [(Sql.deleteExperiment_cases hw).1]
      exact hsame rfl rfl
  | insertAudit =>
      obtain ⟨_, rfl⟩ := Sql.insertAudit_cases hw
      exact hsame rfl rfl
  | _ =>
      cases hw
      exact h

end Placed

end Placement

/-! ### The owner of the shop switches its flag off -/

namespace Switched

open Api.Shop (owner live)

def calls : List Call :=
  [.manage owner (.configuration (.updateConfig "shop" "live" "checkout"
    ⟨false, "off", .fixed "on", [], none⟩))]

def answer (call : Call) : Prog Stmt Resp (Except Refusal Reply) :=
  program .plain firstBytes (fun _ => none) call

def actions : List (Pool.Action Stmt Resp (Except Refusal Reply) Input) :=
  calls.map (.spawn ∘ answer) ++ List.replicate 7 (.run 0 Shop.tick)

def events : List (Event Stmt Store Input) :=
  Pool.history exec actions ⟨Shop.store, []⟩

def after : Pool Stmt Resp (Except Refusal Reply) Store :=
  Pool.runSchedule exec actions ⟨Shop.store, []⟩

theorem traced : Traced exec Shop.store (calls.map answer) events after := by
  have h : Traced exec Shop.store ([] ++ Pool.started actions) (events ++ []) after :=
    .schedule .start
  rwa [List.nil_append, List.append_nil] at h

theorem length_events : events.length = 7 := by decide +kernel

/-- The first statement of the owner. -/
def first : Event Stmt Store Input :=
  events.get ⟨6, by rw [length_events]; decide⟩

theorem events_eq : events = events.take 6 ++ first :: [] := by
  have hdrop : events.drop 6 = first :: events.drop 7 := List.drop_eq_getElem_cons _
  have hend : events.drop 7 = [] := List.drop_eq_nil_of_le (Nat.le_of_eq length_events)
  rw [← hend, ← hdrop, List.take_append_drop]

theorem tidy : Tidy Shop.store.db where
  flagIds f hf g hg _ := (List.mem_singleton.mp hf).trans (List.mem_singleton.mp hg).symm
  environmentIds e he e' he' _ := (List.mem_singleton.mp he).trans (List.mem_singleton.mp he').symm
  configKeys c hc d hd _ _ := (List.mem_singleton.mp hc).trans (List.mem_singleton.mp hd).symm
  configFlag := by decide
  configEnvironment := by decide
  sameProject := by decide
  flagKeys f hf g hg _ _ := (List.mem_singleton.mp hf).trans (List.mem_singleton.mp hg).symm
  segmentKeys s hs := by cases hs
  experimentKeys x hx := by cases hx
  experimentFlag := by decide
  configVersions := by decide
  segmentVersions := by decide
  experimentVersions := by decide

theorem placed : Placed (fun _ => ⟨1⟩) Shop.store.db :=
  ⟨by decide, by decide⟩

/-- A flag or an environment is generated. -/
def seeds : Stmt → Bool
  | .counted (.sql (.createFlag ..)) | .counted (.sql (.createEnvironment ..)) => true
  | _ => false

theorem places : Places (fun _ => ⟨1⟩) events := by
  have hnone : events.all (fun e => !seeds e.stmt) = true := by decide +kernel
  intro e he t hstmt
  have hthis := List.all_eq_true.mp hnone e he
  rw [hstmt] at hthis
  cases t <;> first | exact trivial | cases hthis

def shopper : KeyIdentity := ⟨⟨11⟩, live.id, ⟨1⟩, ⟨0⟩, .client⟩

def question : EvaluateOneRequest := ⟨⟨"alice", ∅⟩, none⟩

def told (store : Store) : Except Refusal Reply :=
  (Prog.runAlone exec (fun _ => Shop.tick) (handleSdk .plain (fun _ => none) shopper
    (.evaluateOne "checkout" question 0)).run store).1

/-- The variant of an answer. -/
def variantOf : Except Refusal Reply → Option String
  | .ok (.evaluation evaluation) => evaluation.variant
  | _ => none

end Switched

/-! ### Runs of the service -/

section Runs

variable {crates : Crates} {sha256 : List UInt8 → Vector UInt8 32}
  {trunc : Timestamp → Option Timestamp} {home : Uuid → Uuid}
variable {initial : Store} {calls : List Call} {events : List (Event Stmt Store Input)}
  {pool : Pool Stmt Resp (Except Refusal Reply) Store}

/-- A thread writes the configuration only as its call asks for. -/
theorem commanded_of_traced
    (h : Traced exec initial (calls.map (program crates sha256 trunc)) events pool)
    {later earlier : List (Event Stmt Store Input)} {e : Event Stmt Store Input}
    (hevents : events = later ++ e :: earlier) :
    ∃ call, calls[e.thread]? = some call ∧ Commanded call (learnedBy e.thread earlier) e.stmt := by
  have hthread : e.thread < calls.length := by
    have hbound := h.length_eq.2 e (by rw [hevents]; simp)
    rwa [← h.length_eq.1, List.length_map] at hbound
  have hcall := List.getElem?_eq_getElem hthread
  have horigin : (calls.map (program crates sha256 trunc))[e.thread]? =
      some (program crates sha256 trunc calls[e.thread]) := by
    rw [List.getElem?_map, hcall]
    rfl
  exact ⟨_, hcall, h.promised hevents horigin (program_commanded _)⟩

/-- So they are all placed in every state of a run. -/
theorem placed_always {origins : List (Prog Stmt Resp (Except Refusal Reply))}
    (h : Traced exec initial origins events pool) (hinitial : Placed home initial.db)
    (hplaces : Places home events) :
    Placed home pool.db.db ∧
      ∀ e ∈ events, Placed home e.before.db ∧ Placed home (e.after exec).db := by
  refine h.always (I := fun store => Placed home store.db) hinitial fun e he hplaced => ?_
  rcases exec_tables e.input e.stmt e.before with ⟨t, hstmt, hdb⟩ | hdb
  · rw [Event.after, hdb]
    exact Sql.exec_invariant (fun w hw => hplaced.run (hplaces e he t hstmt) hw) hplaced
  · rw [Event.after, hdb]
    exact hplaced

/-- What an upsert names is of one project: its thread looked both up there. -/
theorem aimed_of_commanded {thread : Nat} {earlier : List (Event Stmt Store Input)} {call : Call}
    {t : Sql.Stmt} {db : Db} (h : Commanded call (learnedBy thread earlier) (.counted (.sql t)))
    (hplaced : Placed home db) (hearlier : ∀ e ∈ earlier, Placed home e.before.db) : Aimed t db := by
  cases t with
  | upsertConfig flagId environmentId =>
      obtain ⟨_, _, _, _, projectKey, environmentKey, flagKey, _, project, environment, flag, _,
        ⟨_, henvironment⟩, ⟨_, hflag⟩, rfl, rfl⟩ := h _ rfl rfl
      intro f hf hfid e he heid
      -- the rows that were found are of the project
      obtain ⟨e', he', w', hw', hvalue'⟩ := exists_of_foundIn henvironment
      obtain ⟨e'', he'', w'', hw'', hvalue''⟩ := exists_of_foundIn hflag
      cases hw'
      cases hw''
      have hin := EnvironmentRow.isFor_iff.mp (List.find?_some hvalue')
      have hin' := FlagRow.isFor_iff.mp (List.find?_some hvalue'')
      calc e.projectId = home e.id := (hplaced.environments e he).symm
        _ = home environment.id := by rw [heid]
        _ = environment.projectId :=
            (hearlier e' he').environments environment (List.mem_of_find?_eq_some hvalue')
        _ = project.id := hin.1
        _ = flag.projectId := hin'.1.symm
        _ = home flag.id := ((hearlier e'' he'').flags flag (List.mem_of_find?_eq_some hvalue'')).symm
        _ = home f.id := by rw [hfid]
        _ = f.projectId := hplaced.flags f hf
  | _ => exact trivial

/-- The tables are tidy in every state of every run. -/
theorem tidy_always (h : Traced exec initial (calls.map (program crates sha256 trunc)) events pool)
    (hinitial : Tidy initial.db) (hplaced : Placed home initial.db) (hplaces : Places home events) :
    Tidy pool.db.db ∧ ∀ e ∈ events, Tidy e.before.db ∧ Tidy (e.after exec).db := by
  obtain ⟨_, hplacedAt⟩ := placed_always h hplaced hplaces
  refine h.always (I := fun store => Tidy store.db) hinitial fun e he htidy => ?_
  rcases exec_tables e.input e.stmt e.before with ⟨t, hstmt, hdb⟩ | hdb
  · obtain ⟨later, earlier, hevents⟩ := List.append_of_mem he
    obtain ⟨call, _, hcommanded⟩ := commanded_of_traced h hevents
    rw [hstmt] at hcommanded
    have haimed : Aimed t e.before.db := by
      refine aimed_of_commanded hcommanded (hplacedAt e he).1 fun e' he' => (hplacedAt e' ?_).1
      rw [hevents]
      exact List.mem_append_right _ (List.mem_cons_of_mem _ he')
    rw [Event.after, hdb]
    exact Sql.exec_invariant (fun w hw => htidy.run haimed hw) htidy
  · rw [Event.after, hdb]
    exact htidy

/-! ### Why an answer changed -/

/-- What addresses a cell writes the configuration. -/
theorem configures_of_touches {environmentId : Uuid} {input : Sql.Input} {db : Db} {s : Sql.Stmt}
    {c : Cell} (h : Touches environmentId input db s c) : configures s = true := by
  cases s <;> first | rfl | exact h.elim

/-- A statement of the run that changes a cell addresses it. -/
theorem touches_of_changed {environmentId : Uuid} {e : Event Stmt Store Input} {c : Cell}
    (hbefore : Tidy e.before.db) (hafter : Tidy (e.after exec).db)
    (hchanged : readCell environmentId c (e.after exec).db ≠ readCell environmentId c e.before.db) :
    ∃ t, e.stmt = .counted (.sql t) ∧
      Touches environmentId e.input.toInput e.before.db t c := by
  rcases exec_tables e.input e.stmt e.before with ⟨t, hstmt, hdb⟩ | hdb
  · refine ⟨t, hstmt, ?_⟩
    rcases Sql.exec_db_cases e.input.toInput t e.before.db with heq | ⟨w, hw, heq⟩
    · exact absurd (by rw [Event.after, hdb, heq]) hchanged
    · by_contra hnot
      rw [Event.after, hdb, heq] at hchanged hafter
      exact hchanged (readCell_of_untouched hbefore hafter hw hnot)
  · exact absurd (by rw [Event.after, hdb]) hchanged

/-- A statement that changed what an evaluation looks at, and the request that asked for it: the cell is
    one that the evaluation looked at when the statement came, it holds something else afterwards, the
    statement addresses it, and its thread runs a request that may write it and that had found the rows
    it concerns. -/
structure Attributed (calls : List Call) (environmentId : Uuid) (flagKey : String)
    (e : Event Stmt Store Input) (earlier : List (Event Stmt Store Input)) : Prop where
  commanded : ∃ t c caller request, e.stmt = .counted (.sql t) ∧
    c ∈ consultedCells environmentId flagKey e.before.db ∧
    readCell environmentId c (e.after exec).db ≠ readCell environmentId c e.before.db ∧
    Touches environmentId e.input.toInput e.before.db t c ∧
    calls[e.thread]? = some (.manage caller (.configuration request)) ∧
    Commands (FoundIn (learnedBy e.thread earlier)) caller request t

/-- A storage function that runs alone runs on the tables. -/
theorem lookup_alone {α : Type} {q : Query α} {inputs : Nat → Input} {store : Store} :
    (Prog.runAlone exec inputs (lookup q).run store).1 =
      (Prog.runAlone Sql.exec (fun n => (inputs n).toInput) q.run store.db).1.mapError
        fun e => .api (ApiError.ofStorage e) := by
  have hsql : (Prog.runAlone exec inputs (sql q).run store).1 =
      (Prog.runAlone Sql.exec (fun n => (inputs n).toInput) q.run store.db).1 :=
    Prog.runAlone_embed (f := fun s => Stmt.counted (.sql s)) (fun store : Store => store.db)
      Input.toInput fun _ _ _ => ⟨rfl, rfl⟩
  rw [← hsql]
  exact Prog.runAlone_bind_done

/-- What is computed from a success. -/
theorem reply_alone {α β : Type} {p : Endpoint α} {g : α → β} {inputs : Nat → Input}
    {store : Store} : (Prog.runAlone exec inputs (p >>= fun a => pure (g a)).run store).1 =
      (Prog.runAlone exec inputs p.run store).1.map g := by
  refine Eq.trans ?_ (Prog.runAlone_bind_done (g := Except.map g))
  refine congrArg (fun f => (Prog.runAlone exec inputs (p.run.bind f) store).1) (funext fun r => ?_)
  cases r <;> rfl

/-- An SDK that asks undisturbed is told what the flag evaluates to. -/
theorem evaluateOne_alone {identity : KeyIdentity} {flagKey : String} {body : EvaluateOneRequest}
    {now : Timestamp} {inputs : Nat → Input} {store : Store}
    (hfails : ∀ n, (inputs n).fails = false) :
    (Prog.runAlone exec inputs
        (handleSdk crates trunc identity (.evaluateOne flagKey body now)).run store).1 =
      match checkContext body.context with
      | .error e => .error (.api e)
      | .ok () => (evaluationAt crates identity.environmentId flagKey body.context
          (body.default.getD .null) store.db).elim
            (.error (.api (ApiError.ofStorage (.notFound "environment"))))
            fun evaluation => .ok (.evaluation evaluation) := by
  have hasked : (handleSdk crates trunc identity (.evaluateOne flagKey body now)).run =
      Prog.bind (.done ((checkContext body.context).mapError .api)) (ExceptT.bindCont fun _ =>
        lookup (load identity.environmentId now) >>= fun snapshot => pure (.evaluation
          (snapshot.evaluate crates flagKey body.context (body.default.getD .null)))) := rfl
  rw [hasked]
  cases checkContext body.context with
  | error e => rfl
  | ok u =>
      refine Eq.trans reply_alone ?_
      rw [lookup_alone, load_alone fun n => hfails n, evaluationAt, snapshotAt_time 0 now]
      cases snapshotAt identity.environmentId 0 store.db <;> rfl

/-- Where an SDK that asks undisturbed, on a freshly loaded snapshot, is answered differently than before,
    a statement in between changed what the evaluation looks at: one that a management request had asked
    for, of a caller whose role permits it, about the flag, a segment that its rules name, or the
    environment. -/
theorem evaluation_change_commanded
    (h : Traced exec initial (calls.map (program crates sha256 trunc)) events pool)
    (hinitial : Tidy initial.db) (hplaced : Placed home initial.db) (hplaces : Places home events)
    {later earlier : List (Event Stmt Store Input)} {e : Event Stmt Store Input}
    (hevents : events = later ++ e :: earlier) {identity : KeyIdentity} {flagKey : String}
    {body : EvaluateOneRequest} {now now' : Timestamp} {inputs inputs' : Nat → Input}
    (hfails : ∀ n, (inputs n).fails = false) (hfails' : ∀ n, (inputs' n).fails = false)
    (hchanged :
      (Prog.runAlone exec inputs
        (handleSdk crates trunc identity (.evaluateOne flagKey body now)).run e.before).1 ≠
      (Prog.runAlone exec inputs'
        (handleSdk crates trunc identity (.evaluateOne flagKey body now')).run pool.db).1) :
    ∃ later' e' between, events = later' ++ e' :: (between ++ earlier) ∧
      Attributed calls identity.environmentId flagKey e' (between ++ earlier) := by
  obtain ⟨_, htidy⟩ := tidy_always h hinitial hplaced hplaces
  have hevaluation : evaluationAt crates identity.environmentId flagKey body.context
        (body.default.getD .null) pool.db.db ≠
      evaluationAt crates identity.environmentId flagKey body.context
        (body.default.getD .null) e.before.db := by
    intro heq
    apply hchanged
    rw [evaluateOne_alone hfails, evaluateOne_alone hfails', heq]
  have hreads : Footprint.Reads (fun c (store : Store) => readCell identity.environmentId c store.db)
      (fun store => Tidy store.db)
      (fun store => consultedCells identity.environmentId flagKey store.db)
      (fun store => evaluationAt crates identity.environmentId flagKey body.context
        (body.default.getD .null) store.db) :=
    fun store store' htidy htidy' hagree => evaluationAt_reads store.db store'.db htidy htidy' hagree
  rw [List.append_cons] at hevents
  have hwithin : ∀ e' ∈ later ++ [e], e' ∈ events := by
    intro e' he'
    rw [hevents]
    exact List.mem_append_left _ he'
  obtain ⟨e', he', c, hc, hcell⟩ := Footprint.changed_within hreads h
    (hevents.trans (List.append_cons _ _ _).symm) (fun e' he' => htidy e' (hwithin e' he')) hevaluation
  obtain ⟨t, hstmt, htouches⟩ := touches_of_changed (htidy e' (hwithin e' he')).1
    (htidy e' (hwithin e' he')).2 hcell
  obtain ⟨later', between, hsplit⟩ := List.append_of_mem he'
  have hposition : events = later' ++ e' :: (between ++ earlier) := by
    rw [hevents, hsplit, List.append_assoc, List.cons_append]
  obtain ⟨call, hcall, hcommanded⟩ := commanded_of_traced h hposition
  obtain ⟨caller, request, rfl, hcommands⟩ := hcommanded t hstmt (configures_of_touches htouches)
  exact ⟨later', e', between, hposition,
    ⟨t, c, caller, request, hstmt, hc, hcell, htouches, hcall, hcommands⟩⟩

theorem evaluation_change_commanded_shop : ∃ later e between,
    Switched.events = later ++ e :: (between ++ []) ∧
      Attributed Switched.calls Switched.shopper.environmentId "checkout" e (between ++ []) :=
  have hchanged : Switched.told Switched.first.before ≠ Switched.told Switched.after.db := fun heq =>
    absurd (congrArg Switched.variantOf heq) (by decide +kernel)
  evaluation_change_commanded Switched.traced Switched.tidy Switched.placed Switched.places
    Switched.events_eq (fun _ => rfl) (fun _ => rfl) hchanged

end Runs

end FlagForge.Service
