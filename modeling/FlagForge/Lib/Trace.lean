/-
Module: FlagForge.Lib.Trace
Layer: Lib
Purpose: Runs of a pool with their history: which thread executed which statement on which store. A
  thread's log is its part of the history, so what a program promises about its log it promises
  about its events.
Imports: FlagForge.Lib.Interleaving, Mathlib.Data.List.Chain
Trusted boundary: none
Main exports: Pool.Event, Pool.Traced, Pool.Traced.chained, Pool.Traced.invariant, Pool.Traced.always,
  Pool.Traced.since, Pool.replay, Pool.Traced.replay_eq, Pool.Traced.result, Pool.Traced.justified, Pool.Traced.promised,
  Pool.Traced.schedule
-/
import FlagForge.Lib.Interleaving
import Mathlib.Data.List.Chain

namespace FlagForge

open Prog (Log)

variable {Stmt : Type} {Resp : Stmt → Type} {α Db Input : Type}

namespace Prog

/-- What stays true as a log grows, a program cannot make false. -/
theorem obeys_of_persists {P : Log Stmt Resp → Prop} (hpersists : ∀ e log, P log → P (e :: log))
    {p : Prog Stmt Resp α} : ∀ {log : Log Stmt Resp}, P log →
      Obeys (fun _ _ => True) (fun log _ => P log) log p := by
  induction p with
  | done a => exact fun h => h
  | call s k ih => exact fun h => ⟨trivial, fun r => ih r (hpersists _ _ h)⟩

/-- What is left of a program once the statements of the log are answered. -/
inductive Reaches (p : Prog Stmt Resp α) : Log Stmt Resp → Prog Stmt Resp α → Prop where
  | start : Reaches p [] p
  | answer {log : Log Stmt Resp} {s : Stmt} {k : Resp s → Prog Stmt Resp α} (r : Resp s)
      (h : Reaches p log (.call s k)) : Reaches p (⟨s, r⟩ :: log) (k r)

/-- A program keeps its obligations as its statements are answered. -/
theorem Obeys.reaches {P : Log Stmt Resp → Stmt → Prop} {Q : Log Stmt Resp → α → Prop}
    {p q : Prog Stmt Resp α} {log : Log Stmt Resp} (hobeys : Obeys P Q [] p)
    (h : p.Reaches log q) : Obeys P Q log q := by
  induction h with
  | start => exact hobeys
  | answer r _ ih => exact ih.2 r

end Prog

namespace Pool

/-- One executed statement: whose it was, and the store it found. -/
structure Event (Stmt Db Input : Type) where
  thread : Nat
  input : Input
  stmt : Stmt
  before : Db

namespace Event

variable (exec : Input → (s : Stmt) → Db → Resp s × Db)

def answer (e : Event Stmt Db Input) : Resp e.stmt :=
  (exec e.input e.stmt e.before).1

def after (e : Event Stmt Db Input) : Db :=
  (exec e.input e.stmt e.before).2

/-- What the thread has learned from the event. -/
def learned (e : Event Stmt Db Input) : (s : Stmt) × Resp s :=
  ⟨e.stmt, e.answer exec⟩

end Event

/-- The store that the statements of the events leave behind, executed in turn from the last one of the
    list on. -/
def replay (exec : Input → (s : Stmt) → Db → Resp s × Db) (initial : Db) :
    List (Event Stmt Db Input) → Db
  | [] => initial
  | e :: earlier => (exec e.input e.stmt (replay exec initial earlier)).2

/-- A run from a store without threads: the programs that were started, in order, and the statements
    that were executed, the newest first. -/
inductive Traced (exec : Input → (s : Stmt) → Db → Resp s × Db) (initial : Db) :
    List (Prog Stmt Resp α) → List (Event Stmt Db Input) → Pool Stmt Resp α Db → Prop where
  | start : Traced exec initial [] [] ⟨initial, []⟩
  | spawn {origins : List (Prog Stmt Resp α)} {events : List (Event Stmt Db Input)} {db : Db}
      {threads : List (Thread Stmt Resp α)} (p : Prog Stmt Resp α)
      (h : Traced exec initial origins events ⟨db, threads⟩) :
      Traced exec initial (origins ++ [p]) events ⟨db, threads ++ [⟨[], p⟩]⟩
  | run {origins : List (Prog Stmt Resp α)} {events : List (Event Stmt Db Input)} {db : Db}
      {before after : List (Thread Stmt Resp α)} {log : Log Stmt Resp} {s : Stmt}
      {k : Resp s → Prog Stmt Resp α} (input : Input)
      (h : Traced exec initial origins events ⟨db, before ++ ⟨log, .call s k⟩ :: after⟩) :
      Traced exec initial origins (⟨before.length, input, s, db⟩ :: events)
        ⟨(exec input s db).2,
          before ++ ⟨⟨s, (exec input s db).1⟩ :: log, k (exec input s db).1⟩ :: after⟩

namespace Traced

variable {exec : Input → (s : Stmt) → Db → Resp s × Db} {initial : Db}
variable {origins : List (Prog Stmt Resp α)} {events : List (Event Stmt Db Input)}
variable {pool : Pool Stmt Resp α Db}

/-- The store is as the newest event left it. -/
theorem db_eq (h : Traced exec initial origins events pool) :
    pool.db = (events.head?.map (Event.after exec)).getD initial := by
  induction h with
  | start => rfl
  | spawn p _ ih => exact ih
  | run input _ _ => rfl

/-- Every event found the store as the event before it left it. -/
theorem chained (h : Traced exec initial origins events pool) :
    events.IsChain fun later earlier => later.before = earlier.after exec := by
  induction h with
  | start => exact .nil
  | spawn p _ ih => exact ih
  | @run origins events db before after log s k input hrun ih =>
      have hdb := hrun.db_eq
      cases events with
      | nil => exact .singleton _
      | cons e events => exact .cons_cons hdb ih

/-- The events of one thread. -/
def eventsOf (i : Nat) (events : List (Event Stmt Db Input)) : List (Event Stmt Db Input) :=
  events.filter (·.thread = i)

theorem getElem?_of_ne {β : Type} {before after : List β} {x y : β} {i : Nat}
    (hi : i ≠ before.length) : (before ++ x :: after)[i]? = (before ++ y :: after)[i]? := by
  rcases Nat.lt_or_gt_of_ne hi with hlt | hgt
  · rw [List.getElem?_append_left hlt, List.getElem?_append_left hlt]
  · have hle := Nat.le_of_lt hgt
    rw [List.getElem?_append_right hle, List.getElem?_append_right hle]
    obtain ⟨n, hn⟩ : ∃ n, i - before.length = n + 1 := ⟨i - before.length - 1, by omega⟩
    rw [hn, List.getElem?_cons_succ, List.getElem?_cons_succ]

/-- There are as many threads as programs were started, and a thread that is not there has no
    events. -/
theorem length_eq (h : Traced exec initial origins events pool) :
    origins.length = pool.threads.length ∧ ∀ e ∈ events, e.thread < pool.threads.length := by
  induction h with
  | start => exact ⟨rfl, fun e he => by cases he⟩
  | spawn p _ ih =>
      refine ⟨by simp [ih.1], fun e he => ?_⟩
      exact Nat.lt_of_lt_of_le (ih.2 e he) (by simp)
  | run input _ ih =>
      refine ⟨by simpa using ih.1, fun e he => ?_⟩
      rcases List.mem_cons.mp he with rfl | he
      · simp
      · simpa using ih.2 e he

/-- A thread is what is left of the program it was started with, after its own events. -/
theorem thread (h : Traced exec initial origins events pool) : ∀ {i : Nat} {p : Prog Stmt Resp α}
    {t : Thread Stmt Resp α}, origins[i]? = some p → pool.threads[i]? = some t →
      p.Reaches t.log t.prog ∧ t.log = (eventsOf i events).map (Event.learned exec) := by
  induction h with
  | start =>
      intro i p t hp
      cases hp
  | @spawn origins events db threads q hrun ih =>
      intro i p t hp ht
      obtain ⟨hlength, hthreads⟩ : origins.length = threads.length ∧
        ∀ e ∈ events, e.thread < threads.length := hrun.length_eq
      rcases Nat.lt_or_ge i threads.length with hlt | hge
      · rw [List.getElem?_append_left (by omega)] at hp
        rw [List.getElem?_append_left hlt] at ht
        exact ih hp ht
      · rw [List.getElem?_append_right (by omega), hlength] at hp
        rw [List.getElem?_append_right hge] at ht
        cases hn : i - threads.length with
        | succ n =>
            rw [hn] at hp
            cases hp
        | zero =>
            rw [hn] at hp ht
            cases hp
            cases ht
            have hnone : eventsOf i events = [] := by
              apply List.filter_eq_nil_iff.mpr
              intro e he
              have := hthreads e he
              simp only [decide_eq_true_eq]
              omega
            exact ⟨.start, by rw [hnone]; rfl⟩
  | @run origins events db before after log s k input hrun ih =>
      intro i p t hp ht
      by_cases hi : i = before.length
      · subst hi
        have hold : (before ++ ⟨log, .call s k⟩ :: after)[before.length]? =
          some (⟨log, .call s k⟩ : Thread Stmt Resp α) := by simp
        obtain ⟨hreaches, hlog⟩ := ih hp hold
        rw [List.getElem?_append_right (Nat.le_refl _), Nat.sub_self] at ht
        cases ht
        refine ⟨.answer _ hreaches, ?_⟩
        rw [eventsOf, List.filter_cons_of_pos (by simp), List.map_cons]
        exact congrArg _ hlog
      · rw [getElem?_of_ne hi] at ht
        obtain ⟨hreaches, hlog⟩ := ih hp ht
        refine ⟨hreaches, ?_⟩
        rw [hlog, eventsOf, eventsOf, List.filter_cons_of_neg (by simpa using Ne.symm hi)]

/-- What a program promises about its result and its log holds of the result and the events of a
    thread that was started with it. -/
theorem result {P : Log Stmt Resp → Stmt → Prop} {Q : Log Stmt Resp → α → Prop}
    (h : Traced exec initial origins events pool) {i : Nat} {p : Prog Stmt Resp α}
    {t : Thread Stmt Resp α} {a : α} (hp : origins[i]? = some p) (ht : pool.threads[i]? = some t)
    (hdone : t.prog = .done a) (hobeys : Prog.Obeys P Q [] p) :
    Q ((eventsOf i events).map (Event.learned exec)) a := by
  obtain ⟨hreaches, hlog⟩ := h.thread hp ht
  have hend := hobeys.reaches hreaches
  rw [hdone, hlog] at hend
  exact hend

/-- Every statement of a run was justified by what its thread had learned so far. -/
theorem justified {P : Log Stmt Resp → Stmt → Prop} {Q : Log Stmt Resp → α → Prop}
    (h : Traced exec initial origins events pool) (hobeys : ∀ p ∈ origins, Prog.Obeys P Q [] p) :
    ∀ {later : List (Event Stmt Db Input)} {e : Event Stmt Db Input}
      {earlier : List (Event Stmt Db Input)}, events = later ++ e :: earlier →
        P ((eventsOf e.thread earlier).map (Event.learned exec)) e.stmt := by
  induction h with
  | start =>
      intro later e earlier heq
      simp at heq
  | spawn p _ ih => exact ih fun q hq => hobeys q (List.mem_append_left _ hq)
  | @run origins events db before after log s k input hrun ih =>
      intro later e earlier heq
      cases later with
      | cons e' later =>
          rw [List.cons_append, List.cons.injEq] at heq
          exact ih hobeys heq.2
      | nil =>
          rw [List.nil_append, List.cons.injEq] at heq
          obtain ⟨rfl, rfl⟩ := heq
          have hlength : before.length < origins.length := by simp [hrun.length_eq.1]
          have horigin := List.getElem?_eq_getElem hlength
          have hthread : (before ++ ⟨log, .call s k⟩ :: after)[before.length]? =
            some (⟨log, .call s k⟩ : Thread Stmt Resp α) := by simp
          obtain ⟨hreaches, hlog⟩ := hrun.thread horigin hthread
          have hcall := (hobeys _ (List.getElem_mem hlength)).reaches hreaches
          rw [← hlog]
          exact hcall.1

/-- What every statement keeps, given what happened before it. -/
theorem invariant {I : List (Event Stmt Db Input) → Db → Prop} (hinitial : I [] initial)
    (hstep : ∀ e events, I events e.before → I (e :: events) (e.after exec))
    (h : Traced exec initial origins events pool) : I events pool.db := by
  induction h with
  | start => exact hinitial
  | spawn p _ ih => exact ih
  | @run origins events db before after log s k input _ ih =>
      exact hstep ⟨before.length, input, s, db⟩ events ih

/-- What the statements of the run keep holds before and after each of them. -/
theorem always {I : Db → Prop} (h : Traced exec initial origins events pool) (hinitial : I initial)
    (hstep : ∀ e ∈ events, I e.before → I (e.after exec)) :
    I pool.db ∧ ∀ e ∈ events, I e.before ∧ I (e.after exec) := by
  induction h with
  | start => exact ⟨hinitial, fun e he => by cases he⟩
  | spawn p _ ih => exact ih hstep
  | @run origins events db before after log s k input _ ih =>
      obtain ⟨hdb, hevents⟩ := ih fun e he => hstep e (List.mem_cons_of_mem _ he)
      have hnew := hstep ⟨before.length, input, s, db⟩ List.mem_cons_self hdb
      exact ⟨hnew, List.forall_mem_cons.mpr ⟨⟨hdb, hnew⟩, hevents⟩⟩

/-- What holds before a statement, and every statement from it on keeps, holds at the end. -/
theorem since {I : Db → Prop} (h : Traced exec initial origins events pool)
    {later earlier : List (Event Stmt Db Input)} {e : Event Stmt Db Input}
    (hevents : events = later ++ e :: earlier) (hI : I e.before)
    (hstep : ∀ e' ∈ later ++ [e], I e'.before → I (e'.after exec)) : I pool.db := by
  refine invariant (I := fun events db => ∀ later, events = later ++ e :: earlier →
    (∀ e' ∈ later ++ [e], I e'.before → I (e'.after exec)) → I db) ?_ ?_ h later hevents hstep
  · intro later heq
    simp at heq
  · intro e' events ih later heq hstep
    cases later with
    | nil =>
        rw [List.nil_append, List.cons.injEq] at heq
        obtain ⟨rfl, _⟩ := heq
        exact hstep e' (by simp) hI
    | cons e'' later =>
        rw [List.cons_append, List.cons.injEq] at heq
        obtain ⟨rfl, rfl⟩ := heq
        exact hstep e' (by simp) (ih later rfl fun e'' he'' => hstep e'' (by simp_all))

/-- The run up to one of its statements, which its thread executes next. -/
theorem upTo (h : Traced exec initial origins events pool) :
    ∀ {later : List (Event Stmt Db Input)} {e : Event Stmt Db Input}
      {earlier : List (Event Stmt Db Input)}, events = later ++ e :: earlier →
        ∃ (started : List (Prog Stmt Resp α)) (threads : List (Thread Stmt Resp α))
          (log : Log Stmt Resp) (k : Resp e.stmt → Prog Stmt Resp α),
          Traced exec initial started earlier ⟨e.before, threads⟩ ∧ started.IsPrefix origins ∧
            threads[e.thread]? = some ⟨log, .call e.stmt k⟩ := by
  induction h with
  | start =>
      intro later e earlier heq
      simp at heq
  | spawn p _ ih =>
      intro later e earlier heq
      obtain ⟨started, threads, log, k, hrun, hstarted, hthread⟩ := ih heq
      exact ⟨started, threads, log, k, hrun, hstarted.trans (List.prefix_append _ _), hthread⟩
  | @run origins events db before after log s k input hrun ih =>
      intro later e earlier heq
      cases later with
      | cons e' later =>
          rw [List.cons_append, List.cons.injEq] at heq
          exact ih heq.2
      | nil =>
          rw [List.nil_append, List.cons.injEq] at heq
          obtain ⟨rfl, rfl⟩ := heq
          exact ⟨_, _, log, k, hrun, List.prefix_rfl, by simp⟩

/-- A run leaves what its statements leave when they are executed in turn. -/
theorem replay_eq (h : Traced exec initial origins events pool) :
    replay exec initial events = pool.db := by
  refine h.invariant (I := fun events db => replay exec initial events = db) rfl ?_
  intro e events heq
  rw [replay, heq, Event.after]

/-- Each of them finds what those before it leave. -/
theorem replay_before (h : Traced exec initial origins events pool)
    {later earlier : List (Event Stmt Db Input)} {e : Event Stmt Db Input}
    (hevents : events = later ++ e :: earlier) : replay exec initial earlier = e.before := by
  obtain ⟨_, _, _, _, hrun, _⟩ := h.upTo hevents
  exact hrun.replay_eq

/-- What the program of a thread promises about its statements holds of the thread's events. -/
theorem promised {P : Log Stmt Resp → Stmt → Prop} {Q : Log Stmt Resp → α → Prop}
    {later : List (Event Stmt Db Input)} {e : Event Stmt Db Input}
    {earlier : List (Event Stmt Db Input)} {p : Prog Stmt Resp α}
    (h : Traced exec initial origins events pool) (hevents : events = later ++ e :: earlier)
    (hp : origins[e.thread]? = some p) (hobeys : Prog.Obeys P Q [] p) :
    P ((eventsOf e.thread earlier).map (Event.learned exec)) e.stmt := by
  obtain ⟨started, threads, log, k, hrun, hstarted, hthread⟩ := h.upTo hevents
  have hlength : e.thread < started.length := by
    have hbound := (List.getElem?_eq_some_iff.mp hthread).1
    rw [hrun.length_eq.1]
    exact hbound
  have horigin : started[e.thread]? = some p := by
    obtain ⟨rest, rfl⟩ := hstarted
    rw [← hp, List.getElem?_append_left hlength]
  obtain ⟨hreaches, hlog⟩ := hrun.thread horigin hthread
  have hcall := hobeys.reaches hreaches
  rw [← hlog]
  exact hcall.1

end Traced

/-! ### The history of a schedule -/

/-- The programs a schedule starts. -/
def started (actions : List (Action Stmt Resp α Input)) : List (Prog Stmt Resp α) :=
  actions.filterMap fun
    | .spawn p => some p
    | .run _ _ => none

/-- The statement that thread `i` executes next, unless it is done. -/
def next (input : Input) (db : Db) (i : Nat) (threads : List (Thread Stmt Resp α)) :
    List (Event Stmt Db Input) :=
  match threads[i]?.map Thread.prog with
  | some (.call s _) => [⟨i, input, s, db⟩]
  | _ => []

/-- The statements a schedule executes, the newest first. -/
def history (exec : Input → (s : Stmt) → Db → Resp s × Db) :
    List (Action Stmt Resp α Input) → Pool Stmt Resp α Db → List (Event Stmt Db Input)
  | [], _ => []
  | .spawn p :: actions, pool => history exec actions ⟨pool.db, pool.threads ++ [⟨[], p⟩]⟩
  | .run i input :: actions, pool =>
      let out := runThread exec input pool.db i pool.threads
      history exec actions ⟨out.1, out.2⟩ ++ next input pool.db i pool.threads

namespace Traced

variable {exec : Input → (s : Stmt) → Db → Resp s × Db} {initial : Db}

theorem advance {origins : List (Prog Stmt Resp α)} {events : List (Event Stmt Db Input)} {db : Db}
    (input : Input) : ∀ (i : Nat) (before threads : List (Thread Stmt Resp α)),
      Traced exec initial origins events ⟨db, before ++ threads⟩ →
      Traced exec initial origins (next input db (before.length + i) (before ++ threads) ++ events)
        ⟨(runThread exec input db i threads).1, before ++ (runThread exec input db i threads).2⟩
  | i, before, [], h => by simpa [next, runThread] using h
  | 0, before, ⟨log, .done a⟩ :: threads, h => by simpa [next, runThread] using h
  | 0, before, ⟨log, .call s k⟩ :: threads, h => by simpa [next, runThread] using h.run input
  | i + 1, before, t :: threads, h => by
      have ih := advance input i (before ++ [t]) threads (by simpa using h)
      simpa [runThread, Nat.add_comm, Nat.add_left_comm] using ih

/-- A schedule has its history. -/
theorem schedule : ∀ {actions : List (Action Stmt Resp α Input)} {origins : List (Prog Stmt Resp α)}
    {events : List (Event Stmt Db Input)} {pool : Pool Stmt Resp α Db},
    Traced exec initial origins events pool →
      Traced exec initial (origins ++ started actions) (history exec actions pool ++ events)
        (runSchedule exec actions pool) := by
  intro actions
  induction actions with
  | nil =>
      intro origins events pool h
      simpa [started, history, runSchedule] using h
  | cons action actions ih =>
      intro origins events pool h
      cases action with
      | spawn p => simpa [started, history, runSchedule] using ih (h.spawn p)
      | run i input =>
          have hadvance := advance input i [] pool.threads h
          simpa [started, history, runSchedule] using ih hadvance

end Traced

end Pool

end FlagForge
