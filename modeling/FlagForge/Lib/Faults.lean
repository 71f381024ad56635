/-
Module: FlagForge.Lib.Faults
Layer: Lib
Purpose: Programs alone on a store whose statements may fail. A program that reads, writes once and
  then records the write in the journal is all or nothing exactly if no statement fails after the
  rows have changed.
Imports: FlagForge.Lib.Interleaving
Trusted boundary: none
Main exports: JournaledStore, events, Undisturbed, Atomic, Commits, Commits.atomic_iff
-/
import FlagForge.Lib.Interleaving

namespace FlagForge

/-- A store with a journal beside its rows. A statement that fails changes nothing; `spare` takes the
    faults out of an input. -/
structure JournaledStore (Stmt : Type) (Result : Stmt → Type) (E Db Input Rows Entry : Type) where
  exec : Input → (s : Stmt) → Db → Except E (Result s) × Db
  rows : Db → Rows
  journal : Db → List Entry
  spare : Input → Input
  ext : ∀ {db db'}, rows db = rows db' → journal db = journal db' → db = db'
  exec_error : ∀ {input s db e}, (exec input s db).1 = .error e → (exec input s db).2 = db
  exec_spare : ∀ input s db,
    exec input s db = exec (spare input) s db ∨ ∃ e, (exec input s db).1 = .error e

namespace JournaledStore

open Prog (runAlone)

variable {Stmt : Type} {Result : Stmt → Type} {E ε ε' Db Input Rows Entry α β : Type}
variable (S : JournaledStore Stmt Result E Db Input Rows Entry)

/-- A program whose statements may fail. -/
abbrev Program (_ : JournaledStore Stmt Result E Db Input Rows Entry) (ε α : Type) :=
  Prog Stmt (fun s => Except E (Result s)) (Except ε α)

/-! ### Events -/

/-- A statement that was executed, with the state it found. -/
structure Event (Stmt Input Db : Type) where
  stmt : Stmt
  input : Input
  found : Db

/-- The state that a statement leaves. -/
def after (x : Event Stmt Input Db) : Db :=
  (S.exec x.input x.stmt x.found).2

def Fails (x : Event Stmt Input Db) : Prop :=
  ∃ e, (S.exec x.input x.stmt x.found).1 = .error e

/-- The statements that a program executes, in order. -/
def events (inputs : Nat → Input) : S.Program ε α → Db → List (Event Stmt Input Db)
  | .done _, _ => []
  | .call s k, db =>
      let out := S.exec (inputs 0) s db
      ⟨s, inputs 0, db⟩ :: events (fun n => inputs (n + 1)) (k out.1) out.2

/-- No statement fails after one that has changed the rows. -/
def Undisturbed (inputs : Nat → Input) (p : S.Program ε α) (db : Db) : Prop :=
  (S.events inputs p db).Pairwise fun x y => S.rows (S.after x) ≠ S.rows x.found → ¬S.Fails y

/-- Either the rows are as before, or the whole change is there, as it is without faults, and one
    entry that is expected. An error has changed nothing. -/
def Atomic (expected : Entry → Prop) (inputs : Nat → Input) (p : S.Program ε α) (db : Db) : Prop :=
  (S.rows (runAlone S.exec inputs p db).2 = S.rows db ∨
    S.rows (runAlone S.exec inputs p db).2 =
      S.rows (runAlone S.exec (fun n => S.spare (inputs n)) p db).2 ∧
    ∃ entry, expected entry ∧
      S.journal (runAlone S.exec inputs p db).2 = S.journal db ++ [entry]) ∧
  ∀ e, (runAlone S.exec inputs p db).1 = .error e → (runAlone S.exec inputs p db).2 = db

/-! ### Programs -/

def Reads (s : Stmt) : Prop :=
  ∀ input db, (S.exec input s db).2 = db

/-- The statement leaves the journal alone. -/
def Writes (s : Stmt) : Prop :=
  ∀ input db, S.journal (S.exec input s db).2 = S.journal db

/-- The statement adds one expected entry to the journal. -/
def Records (expected : Entry → Prop) (s : Stmt) : Prop :=
  ∀ input db, S.rows (S.exec input s db).2 = S.rows db ∧
    ∀ v, (S.exec input s db).1 = .ok v → ∃ entry, expected entry ∧
      S.journal (S.exec input s db).2 = S.journal db ++ [entry]

/-- The program ends in an error. -/
def Stops (p : S.Program ε α) : Prop :=
  ∃ e, p = .done (.error e)

/-- Reads that end in an error, if they end; the first that fails ends the program. A result is as
    `Q` says. -/
inductive Looks (db : Db) (Q : α → Prop) : S.Program ε α → Prop where
  | done {r : Except ε α} (h : ∀ a, r = .ok a → Q a) : Looks db Q (.done r)
  | read {s : Stmt} {k : Except E (Result s) → S.Program ε α} (hs : S.Reads s)
      (herror : ∀ e, S.Stops (k (.error e)))
      (hok : ∀ input v, (S.exec input s db).1 = .ok v → Looks db Q (k (.ok v))) :
      Looks db Q (.call s k)

/-- Reads that give a result unless one of them fails. -/
inductive Finds (db : Db) (Q : α → Prop) : S.Program ε α → Prop where
  | done {a : α} (h : Q a) : Finds db Q (.done (.ok a))
  | read {s : Stmt} {k : Except E (Result s) → S.Program ε α} (hs : S.Reads s)
      (herror : ∀ e, S.Stops (k (.error e)))
      (hok : ∀ input v, (S.exec input s db).1 = .ok v → Finds db Q (k (.ok v))) :
      Finds db Q (.call s k)

/-- Reads, and then an error. -/
inductive Quits : S.Program ε α → Prop where
  | done (e : ε) : Quits (.done (.error e))
  | read {s : Stmt} {k : Except E (Result s) → S.Program ε α} (hs : S.Reads s)
      (h : ∀ r, Quits (k r)) : Quits (.call s k)

/-- What is left to do after the write: reads, and then the entry. Only a statement that fails is an
    error. -/
inductive Closes (expected : Entry → Prop) (db : Db) : S.Program ε α → Prop where
  | read {s : Stmt} {k : Except E (Result s) → S.Program ε α} (hs : S.Reads s)
      (herror : ∀ e, S.Stops (k (.error e)))
      (hok : ∀ input v, (S.exec input s db).1 = .ok v → Closes expected db (k (.ok v))) :
      Closes expected db (.call s k)
  | record {s : Stmt} {k : Except E (Result s) → S.Program ε α} (hs : S.Records expected s)
      (herror : ∀ e, S.Stops (k (.error e))) (hok : ∀ v, ∃ a, k (.ok v) = .done (.ok a)) :
      Closes expected db (.call s k)

/-- On the same inputs the two programs leave the same rows. -/
def Alike (db : Db) (p q : S.Program ε α) : Prop :=
  ∀ inputs : Nat → Input,
    S.rows (runAlone S.exec inputs p db).2 = S.rows (runAlone S.exec inputs q db).2

/-- Reads, a single write, and its entry. A read that fails ends the program, unless its answer does
    not matter to the rows. -/
inductive Commits (expected : Entry → Prop) (db : Db) : S.Program ε α → Prop where
  | stop (e : ε) : Commits expected db (.done (.error e))
  | read {s : Stmt} {k : Except E (Result s) → S.Program ε α} (hs : S.Reads s)
      (herror : ∀ e, S.Stops (k (.error e)))
      (hok : ∀ input v, (S.exec input s db).1 = .ok v → Commits expected db (k (.ok v))) :
      Commits expected db (.call s k)
  | skip {s : Stmt} {k : Except E (Result s) → S.Program ε α} (hs : S.Reads s)
      (hk : ∀ r r', S.Alike db (k r) (k r')) (h : ∀ r, Commits expected db (k r)) :
      Commits expected db (.call s k)
  | write {s : Stmt} {k : Except E (Result s) → S.Program ε α} (hs : S.Writes s)
      (herror : ∀ e, S.Quits (k (.error e)))
      (hok : ∀ input v, (S.exec input s db).1 = .ok v →
        (S.exec input s db).2 = db ∧ S.Quits (k (.ok v)) ∨
          Closes S expected (S.exec input s db).2 (k (.ok v))) :
      Commits expected db (.call s k)

variable {S}
variable {expected : Entry → Prop} {db : Db} {inputs : Nat → Input}

/-! ### Runs -/

section Call

variable {s : Stmt} {k : Except E (Result s) → S.Program ε α}

/-- A run alone takes its first statement, then the rest. -/
theorem runAlone_call : runAlone S.exec inputs (.call s k) db =
    runAlone S.exec (fun n => inputs (n + 1)) (k (S.exec (inputs 0) s db).1)
      (S.exec (inputs 0) s db).2 :=
  rfl

/-- So do its events. -/
theorem events_call : S.events inputs (.call s k) db = ⟨s, inputs 0, db⟩ ::
    S.events (fun n => inputs (n + 1)) (k (S.exec (inputs 0) s db).1) (S.exec (inputs 0) s db).2 :=
  rfl

end Call

/-- Nothing changes while a program quits. -/
theorem Quits.run {p : S.Program ε α} (h : S.Quits p) (db : Db) : ∀ inputs : Nat → Input,
    (∃ e, (runAlone S.exec inputs p db).1 = .error e) ∧ (runAlone S.exec inputs p db).2 = db ∧
      ∀ x ∈ S.events inputs p db, S.rows (S.after x) = S.rows x.found := by
  induction h with
  | done e => exact fun _ => ⟨⟨e, rfl⟩, rfl, fun x hx => by cases hx⟩
  | @read s k hs _ ih =>
      intro inputs
      obtain ⟨herror, hdb, hevents⟩ := ih (S.exec (inputs 0) s db).1 fun n => inputs (n + 1)
      rw [runAlone_call, events_call, hs]
      refine ⟨herror, hdb, ?_⟩
      intro x hx
      rcases List.mem_cons.mp hx with rfl | hx
      · exact congrArg S.rows (hs _ _)
      · exact hevents x hx

/-- Either a statement fails, which is an error, or the entry is recorded. The rows do not change. -/
theorem Closes.run {p : S.Program ε α} (h : S.Closes expected db p) : ∀ inputs : Nat → Input,
    S.rows (runAlone S.exec inputs p db).2 = S.rows db ∧
    (∀ x ∈ S.events inputs p db, S.rows (S.after x) = S.rows x.found) ∧
    ((∃ x ∈ S.events inputs p db, S.Fails x) ∧
        (∃ e, (runAlone S.exec inputs p db).1 = .error e) ∧ (runAlone S.exec inputs p db).2 = db ∨
      (∀ x ∈ S.events inputs p db, ¬S.Fails x) ∧
        (∃ a, (runAlone S.exec inputs p db).1 = .ok a) ∧ ∃ entry, expected entry ∧
          S.journal (runAlone S.exec inputs p db).2 = S.journal db ++ [entry]) := by
  induction h with
  | @read s k hs herror _ ih =>
      intro inputs
      have hfirst : S.rows (S.after ⟨s, inputs 0, db⟩) = S.rows db := congrArg S.rows (hs _ _)
      rw [runAlone_call, events_call, hs]
      cases hanswer : (S.exec (inputs 0) s db).1 with
      | error e =>
          obtain ⟨err, hstop⟩ := herror e
          rw [hstop]
          refine ⟨rfl, ?_, .inl ⟨⟨_, List.mem_cons_self, e, hanswer⟩, ⟨err, rfl⟩, rfl⟩⟩
          intro x hx
          rw [List.mem_singleton.mp hx]
          exact hfirst
      | ok v =>
          obtain ⟨hrows, hevents, hends⟩ := ih _ v hanswer fun n => inputs (n + 1)
          refine ⟨hrows, ?_, ?_⟩
          · intro x hx
            rcases List.mem_cons.mp hx with rfl | hx
            · exact hfirst
            · exact hevents x hx
          · rcases hends with ⟨⟨x, hx, hfails⟩, hend⟩ | ⟨hnone, hend⟩
            · exact .inl ⟨⟨x, List.mem_cons_of_mem _ hx, hfails⟩, hend⟩
            · refine .inr ⟨?_, hend⟩
              intro x hx hfails
              rcases List.mem_cons.mp hx with rfl | hx
              · obtain ⟨e, he⟩ := hfails
                cases hanswer.symm.trans he
              · exact hnone x hx hfails
  | @record s k hs herror hok =>
      intro inputs
      obtain ⟨hrows, hrecorded⟩ := hs (inputs 0) db
      have hevents : ∀ {r}, S.events (fun n => inputs (n + 1)) (.done r : S.Program ε α)
          (S.exec (inputs 0) s db).2 = [] := rfl
      rw [runAlone_call, events_call]
      cases hanswer : (S.exec (inputs 0) s db).1 with
      | error e =>
          obtain ⟨err, hstop⟩ := herror e
          rw [hstop, hevents]
          refine ⟨hrows, ?_, .inl ⟨⟨_, List.mem_cons_self, e, hanswer⟩, ⟨err, rfl⟩,
            S.exec_error hanswer⟩⟩
          intro x hx
          rw [List.mem_singleton.mp hx]
          exact hrows
      | ok v =>
          obtain ⟨a, hdone⟩ := hok v
          rw [hdone, hevents]
          refine ⟨hrows, ?_, .inr ⟨?_, ⟨a, rfl⟩, hrecorded v hanswer⟩⟩
          · intro x hx
            rw [List.mem_singleton.mp hx]
            exact hrows
          · intro x hx hfails
            rw [List.mem_singleton.mp hx] at hfails
            obtain ⟨e, he⟩ := hfails
            cases hanswer.symm.trans he

/-- A read changes neither side, if the rows are to be what they are in the run without faults. -/
theorem atomic_call {s : Stmt} {k : Except E (Result s) → S.Program ε α} (hs : S.Reads s)
    (hk : S.Alike db (k (S.exec (inputs 0) s db).1) (k (S.exec (S.spare (inputs 0)) s db).1)) :
    S.Atomic expected inputs (.call s k) db ↔
      S.Atomic expected (fun n => inputs (n + 1)) (k (S.exec (inputs 0) s db).1) db := by
  simp only [Atomic, runAlone_call, hs _ _, hk fun n => S.spare (inputs (n + 1))]

/-- What is left to do after the write does not change the rows. -/
theorem Closes.alike {expected' : Entry → Prop} {p q : S.Program ε α} (hp : S.Closes expected db p)
    (hq : S.Closes expected' db q) : S.Alike db p q := by
  intro inputs
  rw [(hp.run inputs).1, (hq.run inputs).1]

/-- Programs that begin with the same statement and then leave the same rows. -/
theorem alike_call {s : Stmt} {k k' : Except E (Result s) → S.Program ε α}
    (h : ∀ input, S.Alike (S.exec input s db).2 (k (S.exec input s db).1)
      (k' (S.exec input s db).1)) : S.Alike db (.call s k) (.call s k') :=
  fun inputs => h (inputs 0) fun n => inputs (n + 1)

/-- A read disturbs nothing. -/
theorem undisturbed_call {s : Stmt} {k : Except E (Result s) → S.Program ε α} (hs : S.Reads s) :
    S.Undisturbed inputs (.call s k) db ↔
      S.Undisturbed (fun n => inputs (n + 1)) (k (S.exec (inputs 0) s db).1) db := by
  rw [Undisturbed, events_call, List.pairwise_cons, hs, Undisturbed]
  apply and_iff_right
  intro y _ hchanged
  exact absurd (congrArg S.rows (hs _ _)) hchanged

/-- Where no statement changes the rows, nothing is disturbed. -/
theorem undisturbed_of_unchanged {p : S.Program ε α}
    (h : ∀ x ∈ S.events inputs p db, S.rows (S.after x) = S.rows x.found) :
    S.Undisturbed inputs p db := by
  apply List.pairwise_of_forall_mem_list
  intro x hx _ _ hchanged
  exact absurd (h x hx) hchanged

section Write

variable {s : Stmt} {k : Except E (Result s) → S.Program ε α}

/-- A write that changed nothing, and after which the program quits. -/
theorem atomic_iff_of_quits (hdb : (S.exec (inputs 0) s db).2 = db)
    (hquits : S.Quits (k (S.exec (inputs 0) s db).1)) :
    S.Atomic expected inputs (.call s k) db ↔ S.Undisturbed inputs (.call s k) db := by
  obtain ⟨_, hend, hevents⟩ := hquits.run db fun n => inputs (n + 1)
  have hrun : (runAlone S.exec inputs (.call s k) db).2 = db := by
    rw [runAlone_call, hdb]
    exact hend
  apply iff_of_true
  · exact ⟨.inl (congrArg S.rows hrun), fun _ _ => hrun⟩
  · apply undisturbed_of_unchanged
    rw [events_call, hdb]
    intro x hx
    rcases List.mem_cons.mp hx with rfl | hx
    · exact congrArg S.rows hdb
    · exact hevents x hx

/-- A write that goes through, and that is recorded unless a statement fails. -/
theorem atomic_iff_of_closes (hs : S.Writes s)
    (hspare : S.exec (inputs 0) s db = S.exec (S.spare (inputs 0)) s db)
    (hcloses : S.Closes expected (S.exec (inputs 0) s db).2 (k (S.exec (inputs 0) s db).1)) :
    S.Atomic expected inputs (.call s k) db ↔ S.Undisturbed inputs (.call s k) db := by
  have hideal := (hcloses.run fun n => S.spare (inputs (n + 1))).1
  obtain ⟨hrows, hevents, hends⟩ := hcloses.run fun n => inputs (n + 1)
  rw [Atomic, Undisturbed, events_call, runAlone_call, runAlone_call, ← hspare, List.pairwise_cons]
  rcases hends with ⟨⟨y, hy, hfails⟩, ⟨err, herror⟩, hend⟩ | ⟨hnone, ⟨a, hok⟩, hrecorded⟩
  · by_cases hchanged : S.rows (S.exec (inputs 0) s db).2 = S.rows db
    · have hdb := S.ext hchanged (hs (inputs 0) db)
      apply iff_of_true
      · exact ⟨.inl (hrows.trans hchanged), fun _ _ => hend.trans hdb⟩
      · exact ⟨fun _ _ h => absurd hchanged h, undisturbed_of_unchanged hevents⟩
    · apply iff_of_false
      · intro hatomic
        exact hchanged (congrArg S.rows (hend.symm.trans (hatomic.2 err herror)))
      · intro hundisturbed
        exact hundisturbed.1 y hy hchanged hfails
  · apply iff_of_true
    · rw [hs] at hrecorded
      refine ⟨.inr ⟨hrows.trans hideal.symm, hrecorded⟩, ?_⟩
      intro e he
      cases hok.symm.trans he
    · refine ⟨fun y hy _ => hnone y hy, List.pairwise_of_forall_mem_list ?_⟩
      exact fun _ _ y hy _ => hnone y hy

end Write

/-- A program that writes once and then records the write is all or nothing exactly if no statement
    fails after the rows have changed. -/
theorem Commits.atomic_iff {p : S.Program ε α} (h : S.Commits expected db p) :
    ∀ inputs : Nat → Input, S.Atomic expected inputs p db ↔ S.Undisturbed inputs p db := by
  induction h with
  | stop e => exact fun _ => iff_of_true ⟨.inl rfl, fun _ _ => rfl⟩ List.Pairwise.nil
  | @read s k hs herror _ ih =>
      intro inputs
      cases hanswer : (S.exec (inputs 0) s db).1 with
      | error e =>
          obtain ⟨err, hstop⟩ := herror e
          have hrun : runAlone S.exec inputs (.call s k) db = (.error err, db) := by
            rw [runAlone_call, hanswer, hstop, hs]
            rfl
          have hevents : S.events inputs (.call s k) db = [⟨s, inputs 0, db⟩] := by
            rw [events_call, hanswer, hstop]
            rfl
          apply iff_of_true
          · rw [Atomic, hrun]
            exact ⟨.inl rfl, fun _ _ => rfl⟩
          · rw [Undisturbed, hevents]
            exact List.pairwise_singleton _ _
      | ok v =>
          have hsame :
              S.Alike db (k (S.exec (inputs 0) s db).1) (k (S.exec (S.spare (inputs 0)) s db).1) := by
            rcases S.exec_spare (inputs 0) s db with hspare | ⟨e, he⟩
            · rw [← hspare]
              exact fun _ => rfl
            · cases hanswer.symm.trans he
          rw [atomic_call hs hsame, undisturbed_call hs, hanswer]
          exact ih _ v hanswer _
  | @skip s k hs hk _ ih =>
      intro inputs
      rw [atomic_call hs (hk _ _), undisturbed_call hs]
      exact ih _ _
  | @write s k hs herror hok =>
      intro inputs
      cases hanswer : (S.exec (inputs 0) s db).1 with
      | error e =>
          apply atomic_iff_of_quits (S.exec_error hanswer)
          rw [hanswer]
          exact herror e
      | ok v =>
          rcases hok (inputs 0) v hanswer with ⟨hdb, hquits⟩ | hcloses
          · apply atomic_iff_of_quits hdb
            rw [hanswer]
            exact hquits
          · rw [← hanswer] at hcloses
            apply atomic_iff_of_closes hs _ hcloses
            rcases S.exec_spare (inputs 0) s db with hspare | ⟨e, he⟩
            · exact hspare
            · cases hanswer.symm.trans he

/-! ### Rules -/

section Rules

/-- A fallible program of the store. -/
abbrev Fallible (_ : JournaledStore Stmt Result E Db Input Rows Entry) (ε : Type) :=
  ExceptT ε (Prog Stmt fun s => Except E (Result s))

variable {p : S.Fallible ε α} {f : α → S.Fallible ε β}

theorem Stops.bind {p : S.Program ε α} (h : S.Stops p) : S.Stops (ExceptT.mk p >>= f).run := by
  obtain ⟨e, rfl⟩ := h
  exact ⟨e, rfl⟩

/-- A program that only looks, and another after it. -/
theorem looks_bind {Q : β → Prop} (h : S.Looks db (fun a => S.Looks db Q (f a).run) p.run) :
    S.Looks db Q (p >>= f).run := by
  change S.Looks db _ p at h
  induction h with
  | @done r h =>
      cases r with
      | ok a => exact h a rfl
      | error e => exact .done fun _ heq => by cases heq
  | read hs herror _ ih => exact .read hs (fun e => (herror e).bind) ih

/-- A program that finds what it looks for, and another after it. -/
theorem finds_bind {Q : β → Prop} (h : S.Finds db (fun a => S.Finds db Q (f a).run) p.run) :
    S.Finds db Q (p >>= f).run := by
  change S.Finds db _ p at h
  induction h with
  | done h => exact h
  | read hs herror _ ih => exact .read hs (fun e => (herror e).bind) ih

theorem closes_bind (h : S.Finds db (fun a => S.Closes expected db (f a).run) p.run) :
    S.Closes expected db (p >>= f).run := by
  change S.Finds db _ p at h
  induction h with
  | done h => exact h
  | read hs herror _ ih => exact .read hs (fun e => (herror e).bind) ih

theorem commits_bind (h : S.Looks db (fun a => S.Commits expected db (f a).run) p.run) :
    S.Commits expected db (p >>= f).run := by
  change S.Looks db _ p at h
  induction h with
  | @done r h =>
      cases r with
      | ok a => exact h a rfl
      | error e => exact .stop e
  | read hs herror _ ih => exact .read hs (fun e => (herror e).bind) ih

theorem quits_bind (h : S.Quits p.run) : S.Quits (p >>= f).run := by
  change S.Quits p at h
  induction h with
  | done e => exact .done e
  | read hs _ ih => exact .read hs ih

/-! Changing the type of the errors, or the result, changes nothing. -/

theorem Stops.adapt {p : S.Program ε α} {g : ε → ε'} (h : S.Stops p) :
    S.Stops ((ExceptT.mk p).adapt g).run := by
  obtain ⟨e, rfl⟩ := h
  exact ⟨g e, rfl⟩

theorem looks_adapt {Q : α → Prop} {g : ε → ε'} (h : S.Looks db Q p.run) :
    S.Looks db Q (p.adapt g).run := by
  change S.Looks db Q p at h
  induction h with
  | @done r h =>
      refine .done ?_
      intro a heq
      cases r with
      | ok b =>
          cases heq
          exact h _ rfl
      | error e => cases heq
  | read hs herror _ ih => exact .read hs (fun e => (herror e).adapt) ih

theorem finds_adapt {Q : α → Prop} {g : ε → ε'} (h : S.Finds db Q p.run) :
    S.Finds db Q (p.adapt g).run := by
  change S.Finds db Q p at h
  induction h with
  | done h => exact .done h
  | read hs herror _ ih => exact .read hs (fun e => (herror e).adapt) ih

theorem quits_adapt {g : ε → ε'} (h : S.Quits p.run) : S.Quits (p.adapt g).run := by
  change S.Quits p at h
  induction h with
  | done e => exact .done (g e)
  | read hs _ ih => exact .read hs ih

theorem closes_map {g : α → β} (h : S.Closes expected db p.run) :
    S.Closes expected db (p >>= fun a => pure (g a)).run := by
  change S.Closes expected db p at h
  induction h with
  | read hs herror _ ih => exact .read hs (fun e => (herror e).bind) ih
  | record hs herror hok =>
      refine .record hs (fun e => (herror e).bind) ?_
      intro v
      obtain ⟨a, hdone⟩ := hok v
      exact ⟨g a, congrArg (fun p => (ExceptT.mk p >>= fun a => pure (g a)).run) hdone⟩

/-- Mapping the result changes nothing in the store. -/
theorem runAlone_map {g : α → β} {p : S.Program ε α} : ∀ {inputs : Nat → Input} {db : Db},
    (runAlone S.exec inputs (ExceptT.mk p >>= fun a => pure (g a) : S.Fallible ε β).run db).2 =
      (runAlone S.exec inputs p db).2 := by
  induction p with
  | done r => cases r <;> exact rfl
  | call s k ih => exact ih _

theorem commits_map {g : α → β} (h : S.Commits expected db p.run) :
    S.Commits expected db (p >>= fun a => pure (g a)).run := by
  change S.Commits expected db p at h
  induction h with
  | stop e => exact .stop e
  | read hs herror _ ih => exact .read hs (fun e => (herror e).bind) ih
  | skip hs hk _ ih =>
      refine .skip hs ?_ ih
      intro r r' inputs
      exact (congrArg S.rows runAlone_map).trans
        ((hk r r' inputs).trans (congrArg S.rows runAlone_map).symm)
  | write hs herror hok =>
      refine .write hs (fun e => quits_bind (herror e)) ?_
      intro input v hanswer
      rcases hok input v hanswer with ⟨hdb, hquits⟩ | hcloses
      · exact .inl ⟨hdb, quits_bind hquits⟩
      · exact .inr (closes_map hcloses)

end Rules

end JournaledStore

end FlagForge
