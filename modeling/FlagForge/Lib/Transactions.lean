/-
Module: FlagForge.Lib.Transactions
Layer: Lib
Purpose: Transactions at read committed. Each open transaction keeps its rows to itself until it
  commits; its statements see the committed store, and may wait for what the others hold. What each
  transaction promises of the store, and what two open ones promise each other, holds along every
  run when no step breaks it.
Imports: FlagForge.Lib.Machine, Mathlib.Logic.Relation
Trusted boundary: none
Main exports: Sessions, System, Sessions.Step, Sessions.Runs, Keeps, Keeps.runs, Sessions.follow
-/
import FlagForge.Lib.Machine
import Mathlib.Logic.Relation

namespace FlagForge

/-- A committed store with the transactions that are open on it. -/
structure Sessions (Db Tx : Type) where
  db : Db
  opened : List Tx

/-- What transactions do; `none` is a step that fails or has to wait. The lists are the other open
    transactions. -/
structure System (Db Tx Begin Direct : Type) where
  /-- The first statement of a transaction. -/
  start : Begin → Db → List Tx → Option Tx
  /-- The next statement of an open one. -/
  advance : Tx → Db → List Tx → Option Tx
  commit : Tx → Db → Option Db
  /-- A statement that is a transaction of its own. -/
  direct : Direct → Db → List Tx → Option Db

namespace Sessions

variable {Db Tx Begin Direct : Type}

/-- One step of one transaction. The guard says when an open one may go on. -/
inductive Step (system : System Db Tx Begin Direct) (guard : Tx → Db → List Tx → Prop) :
    Sessions Db Tx → Sessions Db Tx → Prop where
  | start {db : Db} {opened : List Tx} {tx : Tx} (b : Begin)
      (h : system.start b db opened = some tx) : Step system guard ⟨db, opened⟩ ⟨db, opened ++ [tx]⟩
  | advance {db : Db} {before after : List Tx} {tx tx' : Tx} (hguard : guard tx db (before ++ after))
      (h : system.advance tx db (before ++ after) = some tx') :
      Step system guard ⟨db, before ++ tx :: after⟩ ⟨db, before ++ tx' :: after⟩
  | commit {db db' : Db} {before after : List Tx} {tx : Tx} (h : system.commit tx db = some db') :
      Step system guard ⟨db, before ++ tx :: after⟩ ⟨db', before ++ after⟩
  | abort {db : Db} {before after : List Tx} {tx : Tx} :
      Step system guard ⟨db, before ++ tx :: after⟩ ⟨db, before ++ after⟩
  | direct {db db' : Db} {opened : List Tx} (d : Direct) (h : system.direct d db opened = some db') :
      Step system guard ⟨db, opened⟩ ⟨db', opened⟩

/-- A run is any number of steps. -/
def Runs (system : System Db Tx Begin Direct) (guard : Tx → Db → List Tx → Prop) :
    Sessions Db Tx → Sessions Db Tx → Prop :=
  Relation.ReflTransGen (Step system guard)

end Sessions

/-! ### Promises -/

/-- `I` is promised of the committed store, `J` of an open transaction and the store, and `R` of two
    open transactions. -/
structure Keeps {Db Tx Begin Direct : Type} (system : System Db Tx Begin Direct)
    (guard : Tx → Db → List Tx → Prop) (I : Db → Prop) (J : Db → Tx → Prop) (R : Tx → Tx → Prop) :
    Prop where
  symm : ∀ {a b : Tx}, R a b → R b a
  start : ∀ {b : Begin} {db : Db} {opened : List Tx} {tx : Tx}, I db →
    system.start b db opened = some tx → J db tx ∧ ∀ other ∈ opened, R tx other
  advance : ∀ {db : Db} {others : List Tx} {tx tx' : Tx}, I db → J db tx →
    (∀ other ∈ others, R tx other) → guard tx db others →
    system.advance tx db others = some tx' → J db tx' ∧ ∀ other ∈ others, R tx' other
  commit : ∀ {db db' : Db} {tx : Tx}, I db → J db tx → system.commit tx db = some db' →
    I db' ∧ ∀ other, R tx other → J db other → J db' other
  direct : ∀ {d : Direct} {db db' : Db} {opened : List Tx}, I db → (∀ tx ∈ opened, J db tx) →
    system.direct d db opened = some db' → I db' ∧ ∀ tx ∈ opened, J db' tx

namespace Keeps

variable {Db Tx Begin Direct : Type} {system : System Db Tx Begin Direct}
variable {guard : Tx → Db → List Tx → Prop} {I : Db → Prop} {J : Db → Tx → Prop}
variable {R : Tx → Tx → Prop}

/-- All promises at once. -/
def Holds (I : Db → Prop) (J : Db → Tx → Prop) (R : Tx → Tx → Prop) (s : Sessions Db Tx) : Prop :=
  I s.db ∧ (∀ tx ∈ s.opened, J s.db tx) ∧ s.opened.Pairwise R

/-- One of the open transactions is taken out. -/
theorem holds_middle {db : Db} {before after : List Tx} {tx : Tx}
    (hsymm : ∀ {a b : Tx}, R a b → R b a) :
    Holds I J R ⟨db, before ++ tx :: after⟩ ↔
      Holds I J R ⟨db, before ++ after⟩ ∧ J db tx ∧ ∀ other ∈ before ++ after, R tx other := by
  simp only [Holds, List.pairwise_middle hsymm, List.pairwise_cons, List.mem_append, List.mem_cons]
  constructor
  · rintro ⟨hI, hJ, hR, hrest⟩
    refine ⟨⟨hI, fun t ht => hJ t ?_, hrest⟩, hJ tx (.inr (.inl rfl)), hR⟩
    rcases ht with ht | ht
    · exact .inl ht
    · exact .inr (.inr ht)
  · rintro ⟨⟨hI, hJ, hrest⟩, hthis, hR⟩
    refine ⟨hI, fun t ht => ?_, hR, hrest⟩
    rcases ht with ht | rfl | ht
    · exact hJ t (.inl ht)
    · exact hthis
    · exact hJ t (.inr ht)

/-- One step breaks no promise. -/
theorem step (h : Keeps system guard I J R) {s s' : Sessions Db Tx}
    (hstep : Sessions.Step system guard s s') (hs : Holds I J R s) : Holds I J R s' := by
  cases hstep with
  | @start db opened tx b hstart =>
      obtain ⟨hI, hJ, hR⟩ := hs
      obtain ⟨hthis, hothers⟩ := h.start hI hstart
      rw [holds_middle h.symm, List.append_nil]
      exact ⟨⟨hI, hJ, hR⟩, hthis, hothers⟩
  | advance hguard hadvance =>
      obtain ⟨hrest, hthis, hothers⟩ := (holds_middle h.symm).mp hs
      exact (holds_middle h.symm).mpr
        ⟨hrest, h.advance hrest.1 hthis hothers hguard hadvance⟩
  | commit hcommit =>
      obtain ⟨⟨hI, hJ, hR⟩, hthis, hothers⟩ := (holds_middle h.symm).mp hs
      obtain ⟨hI', hstable⟩ := h.commit hI hthis hcommit
      exact ⟨hI', fun t ht => hstable t (hothers t ht) (hJ t ht), hR⟩
  | abort => exact ((holds_middle h.symm).mp hs).1
  | direct d hdirect =>
      obtain ⟨hI, hJ, hR⟩ := hs
      obtain ⟨hI', hJ'⟩ := h.direct hI hJ hdirect
      exact ⟨hI', hJ', hR⟩

/-- No run breaks a promise. -/
theorem runs (h : Keeps system guard I J R) {s s' : Sessions Db Tx}
    (hruns : Sessions.Runs system guard s s') (hs : Holds I J R s) : Holds I J R s' := by
  induction hruns with
  | refl => exact hs
  | tail _ hstep ih => exact h.step hstep ih

end Keeps

/-! ### Schedules -/

namespace Sessions

variable {Db Tx Begin Direct : Type}

/-- A step by choice; the numbers are positions among the open transactions. -/
inductive Choice (Begin Direct : Type) where
  | start (b : Begin)
  | advance (i : Nat)
  | commit (i : Nat)
  | abort (i : Nat)
  | direct (d : Direct)

/-- Taking a choice. -/
def choose (system : System Db Tx Begin Direct) :
    Choice Begin Direct → Sessions Db Tx → Option (Sessions Db Tx)
  | .start b, s => (system.start b s.db s.opened).map fun tx => ⟨s.db, s.opened ++ [tx]⟩
  | .advance i, s => do
      let tx ← s.opened[i]?
      let tx' ← system.advance tx s.db (s.opened.eraseIdx i)
      some ⟨s.db, s.opened.set i tx'⟩
  | .commit i, s => do
      let tx ← s.opened[i]?
      let db ← system.commit tx s.db
      some ⟨db, s.opened.eraseIdx i⟩
  | .abort i, s => s.opened[i]?.map fun _ => ⟨s.db, s.opened.eraseIdx i⟩
  | .direct d, s => (system.direct d s.db s.opened).map fun db => ⟨db, s.opened⟩

/-- Following a schedule. -/
def follow (system : System Db Tx Begin Direct) :
    List (Choice Begin Direct) → Sessions Db Tx → Option (Sessions Db Tx)
  | [], s => some s
  | c :: choices, s => (choose system c s).bind (follow system choices)

/-- Whether the guard lets the chosen transaction go on. -/
def Choice.Allowed (guard : Tx → Db → List Tx → Prop) (s : Sessions Db Tx) :
    Choice Begin Direct → Prop
  | .advance i => ∀ tx, s.opened[i]? = some tx → guard tx s.db (s.opened.eraseIdx i)
  | _ => True

/-- Whether the guard lets every transaction go on when its turn comes. -/
def Allowed (system : System Db Tx Begin Direct) (guard : Tx → Db → List Tx → Prop) :
    List (Choice Begin Direct) → Sessions Db Tx → Prop
  | [], _ => True
  | c :: choices, s =>
      c.Allowed guard s ∧ ∀ s', choose system c s = some s' → Allowed system guard choices s'

variable {system : System Db Tx Begin Direct} {guard : Tx → Db → List Tx → Prop}

/-- A guard that is always met allows every schedule. -/
theorem allowed_unguarded : ∀ {choices : List (Choice Begin Direct)} {s : Sessions Db Tx},
    Allowed system (fun _ _ _ => True) choices s
  | [], _ => trivial
  | .start _ :: _, _ | .commit _ :: _, _ | .abort _ :: _, _ | .direct _ :: _, _ =>
      ⟨trivial, fun _ _ => allowed_unguarded⟩
  | .advance _ :: _, _ => ⟨fun _ _ => trivial, fun _ _ => allowed_unguarded⟩

/-- A choice is a step. -/
theorem step_of_choose {c : Choice Begin Direct} {s s' : Sessions Db Tx} (hc : c.Allowed guard s)
    (h : choose system c s = some s') : Step system guard s s' := by
  obtain ⟨db, opened⟩ := s
  cases c with
  | start b =>
      obtain ⟨tx, htx, rfl⟩ := Option.map_eq_some_iff.mp h
      exact .start b htx
  | advance i =>
      obtain ⟨tx, htx, h⟩ := Option.bind_eq_some_iff.mp h
      obtain ⟨tx', hadvance, h⟩ := Option.bind_eq_some_iff.mp h
      have hguard := hc tx htx
      obtain ⟨before, after, rfl, herase, hset⟩ :=
        Machine.exists_around (show opened[i]? = some tx from htx)
      cases h
      rw [herase] at hadvance hguard
      rw [hset]
      exact .advance hguard hadvance
  | commit i =>
      obtain ⟨tx, htx, h⟩ := Option.bind_eq_some_iff.mp h
      obtain ⟨db', hcommit, h⟩ := Option.bind_eq_some_iff.mp h
      obtain ⟨before, after, rfl, herase, _⟩ :=
        Machine.exists_around (show opened[i]? = some tx from htx)
      cases h
      rw [herase]
      exact .commit hcommit
  | abort i =>
      obtain ⟨tx, htx, rfl⟩ := Option.map_eq_some_iff.mp h
      obtain ⟨before, after, rfl, herase, _⟩ :=
        Machine.exists_around (show opened[i]? = some tx from htx)
      rw [herase]
      exact .abort
  | direct d =>
      obtain ⟨db', hdb, rfl⟩ := Option.map_eq_some_iff.mp h
      exact .direct d hdb

/-- What a schedule leads to is reached by a run. -/
theorem runs_of_follow {choices : List (Choice Begin Direct)} {s s' : Sessions Db Tx}
    (hallowed : Allowed system guard choices s) (h : follow system choices s = some s') :
    Runs system guard s s' := by
  induction choices generalizing s with
  | nil =>
      cases h
      exact .refl
  | cons c choices ih =>
      obtain ⟨next, hnext, h⟩ := Option.bind_eq_some_iff.mp h
      exact .head (step_of_choose hallowed.1 hnext) (ih (hallowed.2 next hnext) h)

end Sessions

end FlagForge
