/-
Module: FlagForge.Lib.Interleaving
Layer: Lib
Purpose: Programs that talk to a shared store one atomic statement at a time, alone or interleaved
  with others. What a program has learned is the log of the answers it got; a program keeps its
  obligations when every statement it issues is justified by its log. A store invariant that
  justified statements preserve then holds along every run.
Imports: Mathlib.Logic.Relation
Trusted boundary: none
Main exports: Prog, Prog.Obeys, Prog.obeys_bind, Pool.Step, Pool.Runs.invariant, Pool.runSchedule,
  Prog.runAlone, Prog.runAlone_invariant, Prog.Among, Fallible.Succeeds, Fallible.succeeds_bind
-/
import Mathlib.Logic.Relation

namespace FlagForge

/-- A program that issues statements and continues on their answers. -/
inductive Prog (Stmt : Type) (Resp : Stmt → Type) (α : Type) : Type where
  | done (a : α)
  | call (s : Stmt) (k : Resp s → Prog Stmt Resp α)

namespace Prog

variable {Stmt : Type} {Resp : Stmt → Type} {α β : Type}

/-- Sequencing: the second program starts on the first one's result. -/
def bind : Prog Stmt Resp α → (α → Prog Stmt Resp β) → Prog Stmt Resp β
  | .done a, f => f a
  | .call s k, f => .call s fun r => (k r).bind f

instance : Monad (Prog Stmt Resp) where
  pure := .done
  bind := Prog.bind

/-- The statements a program has issued, with their answers; the newest comes first. -/
abbrev Log (Stmt : Type) (Resp : Stmt → Type) := List ((s : Stmt) × Resp s)

/-- Every statement the program issues is justified by the log it has at that point, and so is every
    result. -/
def Obeys (P : Log Stmt Resp → Stmt → Prop) (Q : Log Stmt Resp → α → Prop) :
    Log Stmt Resp → Prog Stmt Resp α → Prop
  | log, .done a => Q log a
  | log, .call s k => P log s ∧ ∀ r, Obeys P Q (⟨s, r⟩ :: log) (k r)

variable {P : Log Stmt Resp → Stmt → Prop}

/-- Weaker obligations are kept too. -/
theorem Obeys.imp {P' : Log Stmt Resp → Stmt → Prop} {Q Q' : Log Stmt Resp → α → Prop}
    {p : Prog Stmt Resp α} (hP : ∀ log s, P log s → P' log s) (hQ : ∀ log a, Q log a → Q' log a) :
    ∀ {log : Log Stmt Resp}, Obeys P Q log p → Obeys P' Q' log p := by
  induction p with
  | done a => exact fun h => hQ _ _ h
  | call s k ih => exact fun h => ⟨hP _ _ h.1, fun r => ih r (h.2 r)⟩

/-- Weaker results are kept too. -/
theorem Obeys.mono {Q Q' : Log Stmt Resp → α → Prop} {p : Prog Stmt Resp α}
    {log : Log Stmt Resp} (hQ : ∀ log a, Q log a → Q' log a) (h : Obeys P Q log p) :
    Obeys P Q' log p :=
  h.imp (fun _ _ hs => hs) hQ

/-- The rule of sequencing: what the first program leaves in its log is there for the second. -/
theorem obeys_bind {Q : Log Stmt Resp → β → Prop} {p : Prog Stmt Resp α}
    {f : α → Prog Stmt Resp β} : ∀ {log : Log Stmt Resp},
      Obeys P (fun log a => Obeys P Q log (f a)) log p → Obeys P Q log (p.bind f) := by
  induction p with
  | done a => exact fun h => h
  | call s k ih => exact fun h => ⟨h.1, fun r => ih r (h.2 r)⟩

end Prog

/-! ### Fallible programs

A fallible program stops at its first error, so obligations on results concern successes only. -/

/-- A program that may end in an error. -/
abbrev Fallible (Stmt : Type) (Resp : Stmt → Type) (ε : Type) := ExceptT ε (Prog Stmt Resp)

namespace Fallible

open Prog

variable {Stmt : Type} {Resp : Stmt → Type} {α β ε ε' : Type}
variable {P : Log Stmt Resp → Stmt → Prop}

/-- Every statement is justified, and every successful result. -/
def Obeys (P : Log Stmt Resp → Stmt → Prop) (Q : Log Stmt Resp → α → Prop)
    (log : Log Stmt Resp) (p : Fallible Stmt Resp ε α) : Prop :=
  Prog.Obeys P (fun log r => ∀ a, r = .ok a → Q log a) log p.run

theorem obeys_pure {Q : Log Stmt Resp → α → Prop} {log : Log Stmt Resp} {a : α} (h : Q log a) :
    Obeys P Q log (pure a : Fallible Stmt Resp ε α) := by
  intro b heq
  cases heq
  exact h

theorem obeys_throw {Q : Log Stmt Resp → α → Prop} {log : Log Stmt Resp} {e : ε} :
    Obeys P Q log (throw e : Fallible Stmt Resp ε α) := by
  intro b heq
  cases heq

theorem obeys_bind {Q : Log Stmt Resp → β → Prop} {log : Log Stmt Resp}
    {p : Fallible Stmt Resp ε α} {f : α → Fallible Stmt Resp ε β}
    (h : Obeys P (fun log a => Obeys P Q log (f a)) log p) : Obeys P Q log (p >>= f) := by
  apply Prog.obeys_bind
  apply Prog.Obeys.mono _ h
  intro log r hr
  cases r with
  | ok a => exact hr a rfl
  | error e => exact fun _ heq => by cases heq

/-- Changing the type of the errors changes no obligation. -/
theorem obeys_adapt {Q : Log Stmt Resp → α → Prop} {log : Log Stmt Resp}
    {p : Fallible Stmt Resp ε α} {f : ε → ε'} (h : Obeys P Q log p) :
    Obeys P Q log (p.adapt f) := by
  apply Prog.obeys_bind
  apply Prog.Obeys.mono _ h
  intro log r hr a heq
  cases r with
  | ok b =>
      cases heq
      exact hr _ rfl
  | error e => cases heq

/-- An intermediate computation without statements: a success continues with its value. -/
theorem obeys_except {Q : Log Stmt Resp → α → Prop} {log : Log Stmt Resp} {r : Except ε α}
    (h : ∀ a, r = .ok a → Q log a) : Obeys P Q log (ExceptT.mk (.done r) : Fallible Stmt Resp ε α) :=
  h

end Fallible

/-! ### Pools of threads -/

section Semantics

open Prog

variable {Stmt : Type} {Resp : Stmt → Type} {α Db Input : Type}

/-- A thread: what it has learned and what it has left to do. -/
structure Thread (Stmt : Type) (Resp : Stmt → Type) (α : Type) where
  log : Log Stmt Resp
  prog : Prog Stmt Resp α

/-- A shared store and the threads at work on it. -/
structure Pool (Stmt : Type) (Resp : Stmt → Type) (α Db : Type) where
  db : Db
  threads : List (Thread Stmt Resp α)

namespace Pool

variable (exec : Input → (s : Stmt) → Db → Resp s × Db) (spawnable : Prog Stmt Resp α → Prop)
variable (guard : Log Stmt Resp → Stmt → Db → Prop)

/-- One step: a new thread arrives, or a thread executes its next statement, where the `guard`
    allows it. The input carries what the store itself contributes, such as the time. -/
inductive Step : Pool Stmt Resp α Db → Pool Stmt Resp α Db → Prop where
  | spawn {db : Db} {threads : List (Thread Stmt Resp α)} {p : Prog Stmt Resp α} (h : spawnable p) :
      Step ⟨db, threads⟩ ⟨db, threads ++ [⟨[], p⟩]⟩
  | run {db : Db} {before after : List (Thread Stmt Resp α)} {log : Log Stmt Resp} {s : Stmt}
      {k : Resp s → Prog Stmt Resp α} (input : Input) (h : guard log s db) :
      Step ⟨db, before ++ ⟨log, .call s k⟩ :: after⟩
        ⟨(exec input s db).2,
          before ++ ⟨⟨s, (exec input s db).1⟩ :: log, k (exec input s db).1⟩ :: after⟩

/-- A run is any number of steps. -/
def Runs : Pool Stmt Resp α Db → Pool Stmt Resp α Db → Prop :=
  Relation.ReflTransGen (Step exec spawnable guard)

variable {exec spawnable guard}
variable {P : Log Stmt Resp → Stmt → Prop} {Q : Log Stmt Resp → α → Prop} {I : Db → Prop}

/-- Every thread keeps its obligations. -/
def Obeys (P : Log Stmt Resp → Stmt → Prop) (Q : Log Stmt Resp → α → Prop)
    (pool : Pool Stmt Resp α Db) : Prop :=
  ∀ t ∈ pool.threads, Prog.Obeys P Q t.log t.prog

/-- One step keeps an invariant that justified statements preserve. -/
theorem Step.invariant (hspawn : ∀ p, spawnable p → Prog.Obeys P Q [] p)
    (hstep : ∀ log s db input, P log s → guard log s db → I db → I (exec input s db).2)
    {pool pool' : Pool Stmt Resp α Db} (h : Step exec spawnable guard pool pool')
    (hobeys : pool.Obeys P Q) (hI : I pool.db) : pool'.Obeys P Q ∧ I pool'.db := by
  cases h with
  | spawn hp =>
      refine ⟨?_, hI⟩
      intro t ht
      rcases List.mem_append.mp ht with ht | ht
      · exact hobeys t ht
      · cases List.mem_singleton.mp ht
        exact hspawn _ hp
  | @run db before after log s k input hguard =>
      obtain ⟨hjustified, hrest⟩ := hobeys ⟨log, .call s k⟩ (by simp)
      refine ⟨?_, hstep log s db input hjustified hguard hI⟩
      intro t ht
      rcases List.mem_append.mp ht with ht | ht
      · exact hobeys t (List.mem_append_left _ ht)
      · rcases List.mem_cons.mp ht with rfl | ht
        · exact hrest _
        · exact hobeys t (List.mem_append_right _ (List.mem_cons_of_mem _ ht))

/-- An invariant that justified statements preserve holds in every state of every run. -/
theorem Runs.invariant (hspawn : ∀ p, spawnable p → Prog.Obeys P Q [] p)
    (hstep : ∀ log s db input, P log s → guard log s db → I db → I (exec input s db).2)
    {pool pool' : Pool Stmt Resp α Db} (h : Runs exec spawnable guard pool pool')
    (hobeys : pool.Obeys P Q) (hI : I pool.db) : pool'.Obeys P Q ∧ I pool'.db := by
  induction h with
  | refl => exact ⟨hobeys, hI⟩
  | tail _ hlast ih => exact hlast.invariant hspawn hstep ih.1 ih.2

/-! ### Schedules -/

/-- A step by choice: a program to start, or the thread to advance and its input. -/
inductive Action (Stmt : Type) (Resp : Stmt → Type) (α Input : Type) where
  | spawn (p : Prog Stmt Resp α)
  | run (i : Nat) (input : Input)

/-- A schedule may only start what may be started. -/
def Action.Admissible (spawnable : Prog Stmt Resp α → Prop) : Action Stmt Resp α Input → Prop
  | .spawn p => spawnable p
  | .run _ _ => True

/-- Advancing thread `i`, if there is one and it is not done. -/
def runThread (exec : Input → (s : Stmt) → Db → Resp s × Db) (input : Input) (db : Db) :
    Nat → List (Thread Stmt Resp α) → Db × List (Thread Stmt Resp α)
  | _, [] => (db, [])
  | 0, t :: threads =>
      match t.prog with
      | .done _ => (db, t :: threads)
      | .call s k =>
          let out := exec input s db
          (out.2, ⟨⟨s, out.1⟩ :: t.log, k out.1⟩ :: threads)
  | i + 1, t :: threads =>
      let out := runThread exec input db i threads
      (out.1, t :: out.2)

/-- Following a schedule. -/
def runSchedule (exec : Input → (s : Stmt) → Db → Resp s × Db) :
    List (Action Stmt Resp α Input) → Pool Stmt Resp α Db → Pool Stmt Resp α Db
  | [], pool => pool
  | .spawn p :: actions, pool =>
      runSchedule exec actions ⟨pool.db, pool.threads ++ [⟨[], p⟩]⟩
  | .run i input :: actions, pool =>
      let out := runThread exec input pool.db i pool.threads
      runSchedule exec actions ⟨out.1, out.2⟩

/-- Whether the next statement of thread `i`, if any, meets the guard. -/
def Ready (guard : Log Stmt Resp → Stmt → Db → Prop) (db : Db) :
    Nat → List (Thread Stmt Resp α) → Prop
  | _, [] => True
  | 0, t :: _ =>
      match t.prog with
      | .done _ => True
      | .call s _ => guard t.log s db
  | i + 1, _ :: threads => Ready guard db i threads

/-- Whether every action of the schedule may be taken when its turn comes. -/
def Follows (exec : Input → (s : Stmt) → Db → Resp s × Db) (spawnable : Prog Stmt Resp α → Prop)
    (guard : Log Stmt Resp → Stmt → Db → Prop) :
    List (Action Stmt Resp α Input) → Pool Stmt Resp α Db → Prop
  | [], _ => True
  | .spawn p :: actions, pool =>
      spawnable p ∧ Follows exec spawnable guard actions ⟨pool.db, pool.threads ++ [⟨[], p⟩]⟩
  | .run i input :: actions, pool =>
      Ready guard pool.db i pool.threads ∧
        let out := runThread exec input pool.db i pool.threads
        Follows exec spawnable guard actions ⟨out.1, out.2⟩

theorem runThread_runs (input : Input) : ∀ (i : Nat) (db : Db)
    (before threads : List (Thread Stmt Resp α)), Ready guard db i threads →
      Runs exec spawnable guard ⟨db, before ++ threads⟩
        ⟨(runThread exec input db i threads).1, before ++ (runThread exec input db i threads).2⟩
  | i, db, before, [], _ => by
      rw [runThread]
      exact .refl
  | 0, _, _, ⟨_, .done _⟩ :: _, _ => .refl
  | 0, _, _, ⟨_, .call _ _⟩ :: _, h => .single (.run input h)
  | i + 1, db, before, t :: threads, h => by
      have ih := runThread_runs input i db (before ++ [t]) threads h
      rw [List.append_assoc, List.append_assoc] at ih
      exact ih

/-- What a schedule leads to is reached by a run. -/
theorem runSchedule_runs : ∀ {actions : List (Action Stmt Resp α Input)}
    {pool : Pool Stmt Resp α Db}, Follows exec spawnable guard actions pool →
      Runs exec spawnable guard pool (runSchedule exec actions pool)
  | [], _, _ => .refl
  | .spawn _ :: _, _, h => .trans (.single (.spawn h.1)) (runSchedule_runs h.2)
  | .run i input :: _, pool, h =>
      .trans (runThread_runs input i pool.db [] pool.threads h.1) (runSchedule_runs h.2)

/-- A guard that is always met. -/
abbrev unguarded : Log Stmt Resp → Stmt → Db → Prop := fun _ _ _ => True

theorem ready_unguarded {db : Db} : ∀ {i : Nat} {threads : List (Thread Stmt Resp α)},
    Ready unguarded db i threads
  | 0, [] => trivial
  | _ + 1, [] => trivial
  | 0, ⟨_, .done _⟩ :: _ => trivial
  | 0, ⟨_, .call _ _⟩ :: _ => trivial
  | i + 1, _ :: _ => ready_unguarded (i := i)

theorem follows_unguarded : ∀ {actions : List (Action Stmt Resp α Input)}
    {pool : Pool Stmt Resp α Db}, (∀ a ∈ actions, a.Admissible spawnable) →
      Follows exec spawnable unguarded actions pool
  | [], _, _ => trivial
  | .spawn _ :: _, _, h =>
      ⟨h _ List.mem_cons_self, follows_unguarded fun a ha => h a (List.mem_cons_of_mem _ ha)⟩
  | .run _ _ :: _, _, h =>
      ⟨ready_unguarded, follows_unguarded fun a ha => h a (List.mem_cons_of_mem _ ha)⟩

end Pool

/-! ### One program at a time -/

namespace Prog

variable (exec : Input → (s : Stmt) → Db → Resp s × Db)

/-- A program with the store to itself; its `n`-th statement gets the `n`-th input. -/
def runAlone (inputs : Nat → Input) : Prog Stmt Resp α → Db → α × Db
  | .done a, db => (a, db)
  | .call s k, db =>
      let out := exec (inputs 0) s db
      runAlone (fun n => inputs (n + 1)) (k out.1) out.2

variable {exec}
variable {P : Log Stmt Resp → Stmt → Prop} {Q : Log Stmt Resp → α → Prop} {I : Db → Prop}

/-- Until the log has a statement that is not a read, the store is as it was at the start, and the
    answers are those of that store. -/
def Current (exec : Input → (s : Stmt) → Db → Resp s × Db) (isRead : Stmt → Prop) (start : Db)
    (log : Log Stmt Resp) (db : Db) : Prop :=
  (∀ e ∈ log, isRead e.1) → db = start ∧ ∀ e ∈ log, ∃ input, e.2 = (exec input e.1 start).1

theorem current_nil {isRead : Stmt → Prop} {start : Db} : Current exec isRead start [] start :=
  fun _ => ⟨rfl, fun e he => by cases he⟩

/-- A program alone on the store keeps an invariant that its statements preserve, and each may rely
    on the answers so far as long as the program has only read. -/
theorem runAlone_invariant {isRead : Stmt → Prop} {start : Db} {p : Prog Stmt Resp α}
    (hread : ∀ input s db, isRead s → (exec input s db).2 = db)
    (hstep : ∀ log s db input, P log s → Current exec isRead start log db → I db →
      I (exec input s db).2) :
    ∀ {log : Log Stmt Resp} {db : Db} (inputs : Nat → Input), Obeys P Q log p →
      Current exec isRead start log db → I db → I (runAlone exec inputs p db).2 := by
  induction p with
  | done a => exact fun _ _ _ hI => hI
  | call s k ih =>
      intro log db inputs hobeys hcurrent hI
      obtain ⟨hjustified, hrest⟩ := hobeys
      refine ih _ (fun n => inputs (n + 1)) (hrest _) ?_
        (hstep log s db (inputs 0) hjustified hcurrent hI)
      intro hreads
      obtain ⟨hdb, hanswers⟩ := hcurrent fun e he => hreads e (List.mem_cons_of_mem _ he)
      rw [hread _ _ _ (hreads _ List.mem_cons_self)]
      refine ⟨hdb, ?_⟩
      intro e he
      rcases List.mem_cons.mp he with rfl | he
      · exact ⟨inputs 0, by rw [hdb]⟩
      · exact hanswers e he

/-! ### One program among others -/

section Among

variable (exec) (others : Db → Db → Prop)

/-- A program between whose statements the store changes as `others` allows. The states that its
    statements find are listed in order. -/
inductive Among : Prog Stmt Resp α → Db → List Db → α → Db → Prop where
  | done {a : α} {db last : Db} (h : others db last) : Among (.done a) db [] a last
  | call {s : Stmt} {k : Resp s → Prog Stmt Resp α} {db mid last : Db} {found : List Db} {a : α}
      (input : Input) (h : others db mid)
      (hrest : Among (k (exec input s mid).1) (exec input s mid).2 found a last) :
      Among (.call s k) db (mid :: found) a last

variable {exec} {others}

/-- What the first statement finds. -/
theorem Among.of_call {s : Stmt} {k : Resp s → Prog Stmt Resp α} {db last : Db} {found : List Db}
    {a : α} (h : Among exec others (.call s k) db found a last) :
    ∃ input mid rest, found = mid :: rest ∧ others db mid ∧
      Among exec others (k (exec input s mid).1) (exec input s mid).2 rest a last := by
  cases h with
  | call input h hrest => exact ⟨input, _, _, rfl, h, hrest⟩

theorem Among.of_done {a b : α} {db last : Db} {found : List Db}
    (h : Among exec others (.done a : Prog Stmt Resp α) db found b last) :
    found = [] ∧ b = a ∧ others db last := by
  cases h with
  | done h => exact ⟨rfl, rfl, h⟩

end Among

/-- A sequence runs its two programs one after the other, each on inputs of its own. -/
theorem runAlone_bind {p : Prog Stmt Resp α} {f : α → Prog Stmt Resp β} {b : β} {last : Db} :
    ∀ {inputs : Nat → Input} {db : Db}, runAlone exec inputs (p.bind f) db = (b, last) →
      ∃ a mid, (∃ first, runAlone exec first p db = (a, mid)) ∧
        ∃ rest, runAlone exec rest (f a) mid = (b, last) := by
  induction p with
  | done a => exact fun {inputs db} h => ⟨a, db, ⟨inputs, rfl⟩, inputs, h⟩
  | call s k ih =>
      intro inputs db h
      obtain ⟨a, mid, ⟨first, hfirst⟩, hrest⟩ := ih _ h
      -- the statement gets the input it got in the whole
      exact ⟨a, mid, ⟨fun | 0 => inputs 0 | n + 1 => first n, hfirst⟩, hrest⟩

end Prog

/-! ### One fallible program at a time -/

namespace Fallible

open Prog

variable (exec : Input → (s : Stmt) → Db → Resp s × Db)

/-- With the store to itself the program can succeed so. -/
def Succeeds (p : Fallible Stmt Resp ε α) (db : Db) (a : α) (last : Db) : Prop :=
  ∃ inputs : Nat → Input, runAlone exec inputs p.run db = (.ok a, last)

variable {exec} {db last : Db}

theorem succeeds_pure {a b : α} (h : Succeeds exec (pure a : Fallible Stmt Resp ε α) db b last) :
    b = a ∧ last = db := by
  obtain ⟨_, h⟩ := h
  cases h
  exact ⟨rfl, rfl⟩

theorem succeeds_except {r : Except ε α} {a : α}
    (h : Succeeds exec (ExceptT.mk (.done r) : Fallible Stmt Resp ε α) db a last) :
    r = .ok a ∧ last = db := by
  obtain ⟨_, h⟩ := h
  cases h
  exact ⟨rfl, rfl⟩

/-- A sequence that succeeds has succeeded in both parts. -/
theorem succeeds_bind {p : Fallible Stmt Resp ε α} {f : α → Fallible Stmt Resp ε β} {b : β}
    (h : Succeeds exec (p >>= f) db b last) :
    ∃ a mid, Succeeds exec p db a mid ∧ Succeeds exec (f a) mid b last := by
  obtain ⟨_, h⟩ := h
  obtain ⟨r, mid, hfirst, hrest⟩ := runAlone_bind h
  cases r with
  | ok a => exact ⟨a, mid, hfirst, hrest⟩
  | error e =>
      obtain ⟨_, hrest⟩ := hrest
      cases hrest

theorem succeeds_adapt {p : Fallible Stmt Resp ε α} {f : ε → ε'} {a : α}
    (h : Succeeds exec (p.adapt f) db a last) : Succeeds exec p db a last := by
  obtain ⟨_, h⟩ := h
  obtain ⟨r, mid, ⟨first, hfirst⟩, _, hrest⟩ := runAlone_bind h
  cases r with
  | ok b =>
      cases hrest
      exact ⟨first, hfirst⟩
  | error e => cases hrest

end Fallible

end Semantics

end FlagForge
