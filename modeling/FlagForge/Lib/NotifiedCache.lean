/-
Module: FlagForge.Lib.NotifiedCache
Layer: Lib
Purpose: A cache of what a store holds for a key, filled by single-flighted loads of several reads each,
  and refreshed at the notifications of the store. Gets, refreshes and commits interleave freely.
Imports: FlagForge.Lib.Machine, Mathlib.Logic.Function.Basic
Trusted boundary: none
Main exports: NotifyingStore, NotifiedCache.Cache, Move, step, Keeps, current
-/
import FlagForge.Lib.Machine
import Mathlib.Logic.Function.Basic

namespace FlagForge

/-- A store whose commits tell which keys they concern. What it holds for a key is read by several
    reads; of a key that stays and that no notification names, they read the same. -/
structure NotifyingStore (Key Part Db Write : Type) where
  keys : Db → List Key
  reads : Key → List (Db → Part)
  commit : Write → Db → Option (List Key × Db)
  Good : Db → Prop
  /-- The writes that keep to the rules of the store. -/
  Suits : Db → Write → Prop
  reads_ne : ∀ key, reads key ≠ []
  good_commit : ∀ {w db notified db'}, Good db → Suits db w → commit w db = some (notified, db') →
    Good db'
  silent : ∀ {w db notified db' key}, Good db → Suits db w → commit w db = some (notified, db') →
    key ∈ keys db → key ∈ keys db' → key ∉ notified → ∀ read ∈ reads key, read db' = read db

namespace NotifiedCache

open Machine (Trace)

variable {Key Part Db Write : Type}

/-! ### The machine -/

/-- A load under way or stored: what its reads returned, and when it began. -/
structure Load (Part : Type) where
  parts : List Part
  /-- The loads that had begun before. -/
  number : Nat
  /-- The commits that there had been. -/
  commits : Nat

/-- A place for a value, with the lock under which loads run. -/
structure Slot (Key Part : Type) where
  /-- Nothing where the slot has not been made. -/
  key : Option Key
  /-- The commits before the slot was made. -/
  made : Nat
  value : Option (Load Part)
  holder : Option Nat

/-- What everyone shares. -/
structure Memory (Key Part Db : Type) where
  db : Db
  /-- The keys that the store has had. -/
  born : List Key
  /-- The number of commits. -/
  commits : Nat
  /-- The number of loads that have begun. -/
  begun : Nat
  /-- The number of slots that have been made. -/
  count : Nat
  slots : Nat → Slot Key Part
  map : Key → Option Nat
  /-- The commits before the latest to begin of the refreshes that have completed. -/
  refreshed : Key → Nat

inductive Call (Key : Type) where
  /-- A get; all refreshes that had completed when it began, began after no more commits. -/
  | get (floor : Nat)
  /-- A refresh that began after so many commits; `rest` is what a sweep has left to refresh. -/
  | refresh (since : Nat) (rest : List Key)

/-- Where a thread is. -/
inductive Pc (Key Part : Type) where
  | idle
  /-- About to look up the slot. -/
  | called (call : Call Key) (key : Key)
  /-- About to read the value without the lock. -/
  | looking (floor : Nat) (key : Key) (slot : Nat)
  | waiting (call : Call Key) (key : Key) (slot : Nat)
  /-- Has the lock. -/
  | holding (call : Call Key) (key : Key) (slot : Nat)
  | loading (call : Call Key) (key : Key) (slot : Nat) (load : Load Part)
  /-- The refresh has found the key gone, and is about to drop the slot. -/
  | dropping (since : Nat) (rest : List Key) (key : Key) (slot : Nat)
  /-- About to give the lock back. -/
  | leaving (call : Call Key) (key : Key) (slot : Nat) (result : Option (Load Part))
  /-- The get returns. -/
  | returned (floor : Nat) (key : Key) (result : Option (Load Part))

/-- Memory, the channel and the threads. Thread 0 listens to the channel. -/
structure Cache (Key Part Db : Type) where
  memory : Memory Key Part Db
  /-- The notifications that the listener has not taken. -/
  queue : List Key
  pc : Nat → Pc Key Part

inductive Move (Key Write : Type) where
  | commit (w : Write)
  /-- The listener takes a notification, and calls refresh. -/
  | take
  | get (thread : Nat) (key : Key)
  | refresh (thread : Nat) (key : Key) (rest : List Key)
  /-- The next step of a thread. -/
  | advance (thread : Nat)

/-- A slot that has not been made. -/
def Slot.unmade : Slot Key Part :=
  ⟨none, 0, none, none⟩

/-- A value that is stored was loaded after so many commits, and so will be the first. -/
def Slot.floor (slot : Slot Key Part) : Nat :=
  match slot.value with
  | some load => load.commits
  | none => slot.made

/-- What a slot holds bounds what it may hold later. -/
theorem Slot.floor_of_value {slot : Slot Key Part} {load : Load Part}
    (h : slot.value = some load) : slot.floor = load.commits := by
  rw [Slot.floor, h]

/-- Where a refresh goes after a key; a sweep goes on with the next. -/
def Pc.next (commits : Nat) : List Key → Pc Key Part
  | [] => .idle
  | key :: rest => .called (.refresh commits rest) key

namespace Memory

/-- What holds nothing. -/
def start (S : NotifyingStore Key Part Db Write) (db : Db) : Memory Key Part Db where
  db := db
  born := S.keys db
  commits := 0
  begun := 0
  count := 0
  slots := fun _ => .unmade
  map := fun _ => none
  refreshed := fun _ => 0

def set (m : Memory Key Part Db) (i : Nat) (slot : Slot Key Part) : Memory Key Part Db :=
  { m with slots := Function.update m.slots i slot }

@[simp] theorem slots_set_self {m : Memory Key Part Db} {i : Nat} {slot : Slot Key Part} :
    (m.set i slot).slots i = slot :=
  Function.update_self _ _ _

/-- Other slots stay. -/
theorem slots_set_of_ne {m : Memory Key Part Db} {i j : Nat} {slot : Slot Key Part} (h : j ≠ i) :
    (m.set i slot).slots j = m.slots j :=
  Function.update_of_ne h _ _

/-- A load begins. -/
def beginLoad (m : Memory Key Part Db) : Memory Key Part Db :=
  { m with begun := m.begun + 1 }

def commit (S : NotifyingStore Key Part Db Write) (m : Memory Key Part Db) (db : Db) :
    Memory Key Part Db :=
  { m with db := db, born := m.born ++ S.keys db, commits := m.commits + 1 }

variable [DecidableEq Key]

def make (m : Memory Key Part Db) (key : Key) : Memory Key Part Db :=
  { m with
    count := m.count + 1
    slots := Function.update m.slots m.count ⟨some key, m.commits, none, none⟩
    map := Function.update m.map key (some m.count) }

def drop (m : Memory Key Part Db) (key : Key) : Memory Key Part Db :=
  { m with map := Function.update m.map key none }

/-- A refresh completes. -/
def finish (m : Memory Key Part Db) (key : Key) (since : Nat) : Memory Key Part Db :=
  { m with refreshed := Function.update m.refreshed key (max (m.refreshed key) since) }

section Reads

variable {m : Memory Key Part Db} {i : Nat} {key other : Key} {since : Nat}

/-- A slot that is made is empty. -/
@[simp] theorem slots_make_self :
    (m.make key).slots m.count = ⟨some key, m.commits, none, none⟩ :=
  Function.update_self _ _ _

theorem slots_make_of_ne (h : i ≠ m.count) : (m.make key).slots i = m.slots i :=
  Function.update_of_ne h _ _

/-- Its key is mapped to it. -/
@[simp] theorem map_make_self : (m.make key).map key = some m.count :=
  Function.update_self _ _ _

theorem map_make_of_ne (h : other ≠ key) : (m.make key).map other = m.map other :=
  Function.update_of_ne h _ _

/-- A key that is dropped is mapped to nothing. -/
@[simp] theorem map_drop_self : (m.drop key).map key = none :=
  Function.update_self _ _ _

/-- Dropping a slot maps no key to another. -/
theorem map_of_drop (h : (m.drop key).map other = some i) : m.map other = some i := by
  by_cases hother : other = key
  · rw [hother, map_drop_self] at h
    cases h
  · exact (Function.update_of_ne hother _ _).symm.trans h

/-- A refresh that is over counts for its key. -/
@[simp] theorem refreshed_finish_self :
    (m.finish key since).refreshed key = max (m.refreshed key) since :=
  Function.update_self _ _ _

theorem refreshed_finish_of_ne (h : other ≠ key) :
    (m.finish key since).refreshed other = m.refreshed other :=
  Function.update_of_ne h _ _

end Reads

end Memory

namespace Cache

/-- A cache that holds nothing. -/
def start (S : NotifyingStore Key Part Db Write) (db : Db) : Cache Key Part Db where
  memory := .start S db
  queue := []
  pc := fun _ => .idle

def goto (s : Cache Key Part Db) (t : Nat) (pc : Pc Key Part) : Cache Key Part Db :=
  { s with pc := Function.update s.pc t pc }

variable {s : Cache Key Part Db} {t u : Nat} {pc : Pc Key Part}

@[simp] theorem pc_goto_self : (s.goto t pc).pc t = pc :=
  Function.update_self _ _ _

theorem pc_goto_of_ne (h : u ≠ t) : (s.goto t pc).pc u = s.pc u :=
  Function.update_of_ne h _ _

end Cache

section Step

variable [DecidableEq Key] (S : NotifyingStore Key Part Db Write)

/-- The next step of a thread. -/
def thread (t : Nat) : Pc Key Part → Memory Key Part Db → Option (Pc Key Part × Memory Key Part Db)
  | .idle, _ => none
  | .called (.get floor) key, m =>
      match m.map key with
      | some i => some (.looking floor key i, m)
      | none => some (.looking floor key m.count, m.make key)
  | .called (.refresh since rest) key, m =>
      match m.map key with
      | some i => some (.waiting (.refresh since rest) key i, m)
      | none => some (.next m.commits rest, m.finish key since)
  | .looking floor key i, m =>
      match (m.slots i).value with
      | some load => some (.returned floor key (some load), m)
      | none => some (.waiting (.get floor) key i, m)
  | .waiting call key i, m =>
      match (m.slots i).holder with
      | some _ => none
      | none => some (.holding call key i, m.set i { m.slots i with holder := some t })
  | .holding (.get floor) key i, m =>
      match (m.slots i).value with
      | some load => some (.leaving (.get floor) key i (some load), m)
      | none => some (.loading (.get floor) key i ⟨[], m.begun, m.commits⟩, m.beginLoad)
  | .holding (.refresh since rest) key i, m =>
      some (.loading (.refresh since rest) key i ⟨[], m.begun, m.commits⟩, m.beginLoad)
  | .loading call key i load, m =>
      match (S.reads key)[load.parts.length]? with
      | some read =>
          if load.parts = [] ∧ key ∉ S.keys m.db then
            match call with
            | .get floor => some (.leaving (.get floor) key i none, m)
            | .refresh since rest => some (.dropping since rest key i, m)
          else some (.loading call key i { load with parts := load.parts ++ [read m.db] }, m)
      | none => some (.leaving call key i (some load),
          m.set i { m.slots i with value := some load })
  | .dropping since rest key i, m =>
      some (.leaving (.refresh since rest) key i none, m.drop key)
  | .leaving (.get floor) key i result, m =>
      some (.returned floor key result, m.set i { m.slots i with holder := none })
  | .leaving (.refresh since rest) key i _, m =>
      some (.next m.commits rest,
        (m.set i { m.slots i with holder := none }).finish key since)
  | .returned .., m => some (.idle, m)

def step : Move Key Write → Cache Key Part Db → Option (Cache Key Part Db)
  | .commit w, s => (S.commit w s.memory.db).map fun out =>
      { s with memory := s.memory.commit S out.2, queue := s.queue ++ out.1 }
  | .take, s =>
      match s.pc 0, s.queue with
      | .idle, key :: queue => some
          (Cache.goto { s with queue := queue } 0 (.called (.refresh s.memory.commits []) key))
      | _, _ => none
  | .get t key, s =>
      match t, s.pc t with
      | t + 1, .idle => some (s.goto (t + 1) (.called (.get (s.memory.refreshed key)) key))
      | _, _ => none
  | .refresh t key rest, s =>
      match t, s.pc t with
      | t + 1, .idle => some (s.goto (t + 1) (.called (.refresh s.memory.commits rest) key))
      | _, _ => none
  | .advance t, s => (thread S t (s.pc t) s.memory).map fun out =>
      Cache.goto { s with memory := out.2 } t out.1

/-- A commit keeps to the rules of the store, and gives no key that another row has had. -/
def Keeps (s : Cache Key Part Db) : Move Key Write → Prop
  | .commit w => S.Suits s.memory.db w ∧ ∀ notified db', S.commit w s.memory.db =
      some (notified, db') → ∀ key ∈ S.keys db', key ∈ S.keys s.memory.db ∨ key ∉ s.memory.born
  | _ => True

end Step

variable (S : NotifyingStore Key Part Db Write)

/-- What a load of the store as it is returns. -/
def current (key : Key) (db : Db) : List Part :=
  (S.reads key).map fun read => read db

end NotifiedCache

end FlagForge
