/-
Module: FlagForge.Lib.CacheFreshness
Layer: Lib
Purpose: What a slot of a cache holds is what the store holds, or a notification or the load for one is
  on its way; and a slot goes only to loads that began later.
Imports: FlagForge.Lib.CacheLocks
Trusted boundary: none
Main exports: Effect, Fresh, coherent, stored_in_order
-/
import FlagForge.Lib.CacheLocks

namespace FlagForge.NotifiedCache

open Machine (Trace)

variable {Key Part Db Write : Type}

variable (S : NotifyingStore Key Part Db Write)

/-! ### What a thread does to one key -/

/-- Whether the thread is about to load the key for a refresh. -/
def Pc.Awaits (key : Key) (i : Nat) : Pc Key Part → Prop
  | .called (.refresh _ _) other => other = key
  | .waiting (.refresh _ _) other j => other = key ∧ j = i
  | .holding (.refresh _ _) other j => other = key ∧ j = i
  | _ => False

/-- Whether the thread is loading a key. -/
def Pc.isLoading : Pc Key Part → Bool
  | .loading .. => true
  | _ => false

theorem Pc.ne_loading {pc : Pc Key Part} (h : pc.isLoading = false) {key : Key} {i : Nat}
    (call : Call Key) (load : Load Part) : pc ≠ .loading call key i load := by
  rintro rfl
  cases h

/-- What a step of a thread does, as seen from one key and one slot. -/
structure Effect (S : NotifyingStore Key Part Db Write) (pc pc' : Pc Key Part)
    (m m' : Memory Key Part Db) (key : Key) (i : Nat) : Prop where
  db : m'.db = m.db
  mapped : m'.map key = some i → m.map key = some i ∨
    (m.slots i).key = none ∧ (m'.slots i).value = none
  /-- What is stored is a load whose reads are done. -/
  value : ∀ load, (m'.slots i).value = some load → (m.slots i).value = some load ∨
    ∃ call other, pc = .loading call other i load ∧ (S.reads other).length ≤ load.parts.length
  kept : ∀ load, (m.slots i).value = some load → ∃ load', (m'.slots i).value = some load'
  loading : ∀ call load, pc' = .loading call key i load → load.parts = [] ∨
    ∃ before read, pc = .loading call key i before ∧
      (S.reads key)[before.parts.length]? = some read ∧
        load = { before with parts := before.parts ++ [read m.db] }
  awaits : pc.Awaits key i → m'.map key = some i →
    pc'.Awaits key i ∨ ∃ call load, pc' = .loading call key i load
  /-- A load of what the store has does not end before it is stored. -/
  loaded : ∀ call load, pc = .loading call key i load → key ∈ S.keys m.db →
    (∃ load', pc' = .loading call key i load') ∨
      (m'.slots i).value = some load ∧ (S.reads key).length ≤ load.parts.length

section Effect

variable {S} {t i : Nat} {key : Key} {pc pc' : Pc Key Part} {m m' : Memory Key Part Db}

/-- A step that has nothing to do with loads. -/
theorem Effect.quiet (hdb : m'.db = m.db) (hmap : m'.map key = some i → m.map key = some i)
    (hvalue : (m'.slots i).value = (m.slots i).value)
    (hfrom : pc.isLoading = false) (hto : pc'.isLoading = false)
    (hawaits : pc.Awaits key i → m'.map key = some i → pc'.Awaits key i) :
    Effect S pc pc' m m' key i where
  db := hdb
  mapped h := .inl (hmap h)
  value _ h := .inl (hvalue ▸ h)
  kept _ h := ⟨_, hvalue.trans h⟩
  loading call load h := absurd h (Pc.ne_loading hto call load)
  awaits h hi := .inl (hawaits h hi)
  loaded call load h _ := absurd h (Pc.ne_loading hfrom call load)

theorem value_unlocked {j : Nat} {holder : Option Nat} :
    ((m.set j { m.slots j with holder := holder }).slots i).value = (m.slots i).value := by
  by_cases hij : i = j
  · subst hij
    rw [Memory.slots_set_self]
  · rw [Memory.slots_set_of_ne hij]

theorem next_isLoading {commits : Nat} {rest : List Key} :
    (Pc.next commits rest : Pc Key Part).isLoading = false := by
  cases rest with
  | nil => rfl
  | cons => rfl

variable [DecidableEq Key]

/-- What the step of a call that has begun does to a slot. -/
theorem effect_called {call : Call Key} {other : Key} (hm : Sound S m)
    (hstep : thread S t (.called call other) m = some (pc', m')) :
    Effect S (.called call other) pc' m m' key i := by
  cases call with
  | get floor =>
      rw [thread] at hstep
      split at hstep
      next j hmap =>
        cases hstep
        exact .quiet rfl id rfl rfl rfl False.elim
      next hmap =>
        cases hstep
        have hvalue : i ≠ m.count → ((m.make other).slots i).value = (m.slots i).value :=
          fun hne => by rw [Memory.slots_make_of_ne hne]
        constructor
        case db => rfl
        case mapped =>
          intro hi
          by_cases hkey : key = other
          · rw [hkey, Memory.map_make_self] at hi
            cases hi
            rw [hm.unmade m.count (Nat.le_refl _), Memory.slots_make_self]
            exact .inr ⟨rfl, rfl⟩
          · rw [Memory.map_make_of_ne hkey] at hi
            exact .inl hi
        case value =>
          intro load hload
          by_cases hi : i = m.count
          · rw [hi, Memory.slots_make_self] at hload
            cases hload
          · exact .inl ((hvalue hi).symm.trans hload)
        case kept =>
          intro load hload
          refine ⟨load, (hvalue ?_).trans hload⟩
          intro hi
          rw [hi, hm.unmade m.count (Nat.le_refl _)] at hload
          cases hload
        case loading => exact fun call load h => absurd h (Pc.ne_loading rfl call load)
        case awaits => exact False.elim
        case loaded => exact fun call load h => absurd h (Pc.ne_loading rfl call load)
  | refresh since rest =>
      rw [thread] at hstep
      split at hstep
      next j hmap =>
        cases hstep
        refine .quiet rfl id rfl rfl rfl ?_
        intro hkey hi
        cases hkey
        rw [hmap] at hi
        exact ⟨rfl, Option.some.inj hi⟩
      next hmap =>
        cases hstep
        refine .quiet rfl id rfl rfl next_isLoading ?_
        intro hkey hi
        cases hkey
        rw [Memory.finish, hmap] at hi
        cases hi

/-- What the step of a call that holds its slot does. -/
theorem effect_holding {call : Call Key} {other : Key} {j : Nat}
    (hstep : thread S t (.holding call other j) m = some (pc', m')) :
    Effect S (.holding call other j) pc' m m' key i := by
  have hbegin : ∀ call, (Pc.holding call other j : Pc Key Part).Awaits key i →
      ∃ load, (Pc.loading call other j ⟨[], m.begun, m.commits⟩ : Pc Key Part) =
        .loading call key i load := by
    intro call hawaits
    cases call with
    | get => cases hawaits
    | refresh =>
        obtain ⟨rfl, rfl⟩ := hawaits
        exact ⟨_, rfl⟩
  have hbegun : ∀ call, Effect S (.holding call other j)
      (.loading call other j ⟨[], m.begun, m.commits⟩) m m.beginLoad key i := by
    intro call
    constructor
    case db => rfl
    case mapped => exact .inl
    case value => exact fun _ hload => .inl hload
    case kept => exact fun load hload => ⟨load, hload⟩
    case loading =>
      intro _ load hload
      cases hload
      exact .inl rfl
    case awaits =>
      intro hawaits _
      exact .inr ⟨call, hbegin call hawaits⟩
    case loaded => exact fun call load h => absurd h (Pc.ne_loading rfl call load)
  cases call with
  | get floor =>
      rw [thread] at hstep
      split at hstep
      next =>
        cases hstep
        exact .quiet rfl id rfl rfl rfl False.elim
      next =>
        cases hstep
        exact hbegun _
  | refresh since rest =>
      cases hstep
      exact hbegun _

/-- What the step of a load does. -/
theorem effect_loading {call : Call Key} {other : Key} {j : Nat} {load : Load Part}
    (hstep : thread S t (.loading call other j load) m = some (pc', m')) :
    Effect S (.loading call other j load) pc' m m' key i := by
  -- the key is gone: the load is over, and nothing is stored
  have hgone : ∀ pc', other ∉ S.keys m.db → pc'.isLoading = false →
      Effect S (.loading call other j load) pc' m m key i := by
    intro pc' hgone hto
    constructor
    case db => rfl
    case mapped => exact .inl
    case value => exact fun _ hload => .inl hload
    case kept => exact fun load hload => ⟨load, hload⟩
    case loading => exact fun call load h => absurd h (Pc.ne_loading hto call load)
    case awaits => exact False.elim
    case loaded =>
      intro _ _ heq hkey
      cases heq
      exact absurd hkey hgone
  simp only [thread] at hstep
  split at hstep
  next read hread =>
    split at hstep
    next hnone =>
      split at hstep
      next =>
        cases hstep
        exact hgone _ hnone.2 rfl
      next =>
        cases hstep
        exact hgone _ hnone.2 rfl
    next =>
      cases hstep
      constructor
      case db => rfl
      case mapped => exact .inl
      case value => exact fun _ hload => .inl hload
      case kept => exact fun load hload => ⟨load, hload⟩
      case loading =>
        intro _ load' hload
        cases hload
        exact .inr ⟨load, read, rfl, hread, rfl⟩
      case awaits => exact False.elim
      case loaded =>
        intro _ _ heq _
        cases heq
        exact .inl ⟨_, rfl⟩
  next hdone =>
    cases hstep
    have hlength := List.getElem?_eq_none_iff.mp hdone
    constructor
    case db => rfl
    case mapped => exact .inl
    case value =>
      intro stored hstored
      by_cases hij : i = j
      · subst hij
        rw [Memory.slots_set_self] at hstored
        cases hstored
        exact .inr ⟨call, other, rfl, hlength⟩
      · rw [Memory.slots_set_of_ne hij] at hstored
        exact .inl hstored
    case kept =>
      intro stored hstored
      by_cases hij : i = j
      · subst hij
        rw [Memory.slots_set_self]
        exact ⟨load, rfl⟩
      · rw [Memory.slots_set_of_ne hij]
        exact ⟨stored, hstored⟩
    case loading => exact fun call load h => absurd h (Pc.ne_loading rfl call load)
    case awaits => exact False.elim
    case loaded =>
      intro _ _ heq _
      cases heq
      rw [Memory.slots_set_self]
      exact .inr ⟨rfl, hlength⟩

/-- Whatever the thread is at, its step does no more to a slot than fill it with a load that is done,
    or empty it. -/
theorem effect (hm : Sound S m) (hstep : thread S t pc m = some (pc', m')) (key : Key) (i : Nat) :
    Effect S pc pc' m m' key i := by
  cases pc with
  | idle => cases hstep
  | called call other => exact effect_called hm hstep
  | looking floor other j =>
      rw [thread] at hstep
      split at hstep
      next =>
        cases hstep
        exact .quiet rfl id rfl rfl rfl False.elim
      next =>
        cases hstep
        exact .quiet rfl id rfl rfl rfl False.elim
  | waiting call other j =>
      rw [thread] at hstep
      split at hstep
      next => cases hstep
      next =>
        cases hstep
        refine .quiet rfl id value_unlocked rfl rfl ?_
        intro hawaits _
        cases call with
        | get => cases hawaits
        | refresh => exact hawaits
  | holding call other j => exact effect_holding hstep
  | loading call other j load => exact effect_loading hstep
  | dropping since rest other j =>
      cases hstep
      exact .quiet rfl Memory.map_of_drop rfl rfl rfl False.elim
  | leaving call other j result =>
      cases call with
      | get floor =>
          cases hstep
          exact .quiet rfl id value_unlocked rfl rfl False.elim
      | refresh since rest =>
          cases hstep
          exact .quiet rfl id value_unlocked rfl next_isLoading False.elim
  | returned floor other result =>
      cases hstep
      exact .quiet rfl id rfl rfl rfl False.elim

omit [DecidableEq Key] in
/-- A thread that takes a step has something to do with some key. -/
theorem Pc.exists_key (hpc : pc ≠ .idle) : Nonempty Key := by
  cases pc with
  | idle => exact absurd rfl hpc
  | called _ key => exact ⟨key⟩
  | looking _ key _ => exact ⟨key⟩
  | waiting _ key _ => exact ⟨key⟩
  | holding _ key _ => exact ⟨key⟩
  | loading _ key _ _ => exact ⟨key⟩
  | dropping _ _ key _ => exact ⟨key⟩
  | leaving _ key _ _ => exact ⟨key⟩
  | returned _ key _ => exact ⟨key⟩

theorem exists_effect (hm : Sound S m) (hstep : thread S t pc m = some (pc', m')) (i : Nat) :
    ∃ key, Effect S pc pc' m m' key i := by
  have hpc : pc ≠ .idle := by
    intro hidle
    rw [hidle] at hstep
    cases hstep
  obtain ⟨key⟩ := Pc.exists_key hpc
  exact ⟨key, effect hm hstep key i⟩

end Effect

/-! ### What is stored is what the store holds, or news of it is on the way -/

/-- A notification for the key has not come to its load. -/
def Awaited (s : Cache Key Part Db) (key : Key) (i : Nat) : Prop :=
  key ∈ s.queue ∨ (s.pc 0).Awaits key i

/-- Of the keys that the store has and the map knows: what is stored, or read so far, is what the
    store holds, or a notification is on its way. -/
structure Fresh (S : NotifyingStore Key Part Db Write) (s : Cache Key Part Db) : Prop where
  stored : ∀ key i load, key ∈ S.keys s.memory.db → s.memory.map key = some i →
    (s.memory.slots i).value = some load → load.parts = current S key s.memory.db ∨
      Awaited s key i ∨ ∃ call load', s.pc 0 = .loading call key i load'
  loading : ∀ t call key i load, s.pc t = .loading call key i load →
    key ∈ S.keys s.memory.db → s.memory.map key = some i →
      load.parts = (current S key s.memory.db).take load.parts.length ∨ Awaited s key i

section Fresh

variable {S} {s : Cache Key Part Db} {key : Key} {i : Nat}

/-- An empty cache is fresh. -/
theorem fresh_start (db : Db) : Fresh S (.start S db) where
  stored _ _ _ _ hi := nomatch hi
  loading _ _ _ _ _ hpc := nomatch hpc

/-- One more read of the store as it is. -/
theorem take_read {db : Db} {parts : List Part} {read : Db → Part}
    (hparts : parts = (current S key db).take parts.length)
    (hread : (S.reads key)[parts.length]? = some read) :
    parts ++ [read db] = (current S key db).take (parts ++ [read db]).length := by
  have hnext : (current S key db)[parts.length]? = some (read db) := by
    rw [current, List.getElem?_map, hread]
    rfl
  rw [List.length_append, List.length_singleton, List.take_add_one, ← hparts, hnext]
  rfl

/-- A load whose reads are done has what the store holds. -/
theorem eq_current {db : Db} {parts : List Part}
    (hparts : parts = (current S key db).take parts.length)
    (hdone : (S.reads key).length ≤ parts.length) : parts = current S key db := by
  rw [hparts]
  apply List.take_of_length_le
  rw [current, List.length_map]
  exact hdone

/-- A commit changes nothing that is read for a key, or notifies it, or the key is new. -/
theorem fresh_commit {w : Write} {notified : List Key} {db : Db} (ho : Ordered S s)
    (hf : Fresh S s) (hgood : S.Good s.memory.db) (hsuits : S.Suits s.memory.db w)
    (hcommit : S.commit w s.memory.db = some (notified, db))
    (hborn : ∀ key ∈ S.keys db, key ∈ S.keys s.memory.db ∨ key ∉ s.memory.born) :
    Fresh S { s with memory := s.memory.commit S db, queue := s.queue ++ notified } := by
  have hawaited : ∀ {key i}, Awaited s key i →
      Awaited { s with memory := s.memory.commit S db, queue := s.queue ++ notified } key i :=
    fun h => h.imp_left fun hkey => List.mem_append_left _ hkey
  have hsame : ∀ {key}, key ∈ S.keys db → key ∈ S.keys s.memory.db →
      current S key db = current S key s.memory.db ∨ key ∈ notified := by
    intro key hkey hold
    by_cases hnotified : key ∈ notified
    · exact .inr hnotified
    · left
      exact List.map_congr_left (S.silent hgood hsuits hcommit hold hkey hnotified)
  constructor
  case stored =>
    intro key i load hkey hi hload
    rcases hborn key hkey with hold | hnew
    · rcases hsame hkey hold with hcurrent | hnotified
      · rcases hf.stored key i load hold hi hload with h | h | h
        · exact .inl (h.trans hcurrent.symm)
        · exact .inr (.inl (hawaited h))
        · exact .inr (.inr h)
      · exact .inr (.inl (.inl (List.mem_append_right _ hnotified)))
    · exact absurd (ho.memory.born_of_value (ho.memory.mapped key i hi) hload) hnew
  case loading =>
    intro t call key i load hpc hkey hi
    rcases hborn key hkey with hold | hnew
    · rcases hsame hkey hold with hcurrent | hnotified
      · rcases hf.loading t call key i load hpc hold hi with h | h
        · left
          rw [← hcurrent] at h
          exact h
        · exact .inr (hawaited h)
      · exact .inr (.inl (List.mem_append_right _ hnotified))
    · -- no read has found the key yet
      have hknows := ho.threads t
      rw [show s.pc t = _ from hpc] at hknows
      by_cases hparts : load.parts = []
      · left
        rw [hparts]
        rfl
      · exact absurd (hknows.2.2.2.born hparts) hnew

/-- The listener takes a notification. -/
theorem fresh_take {queue : List Key} {since : Nat} (hf : Fresh S s) (hpc : s.pc 0 = .idle)
    (hqueue : s.queue = key :: queue) :
    Fresh S (Cache.goto { s with queue := queue } 0 (.called (.refresh since []) key)) := by
  have hawaited : ∀ {other i}, Awaited s other i →
      Awaited (Cache.goto { s with queue := queue } 0 (.called (.refresh since []) key))
        other i := by
    intro other i h
    rcases h with h | h
    · rw [hqueue] at h
      rcases List.mem_cons.mp h with rfl | h
      · right
        rw [Cache.pc_goto_self]
        rfl
      · exact .inl h
    · rw [hpc] at h
      cases h
  constructor
  case stored =>
    intro other i load hother hi hload
    rcases hf.stored other i load hother hi hload with h | h | ⟨call, load', h⟩
    · exact .inl h
    · exact .inr (.inl (hawaited h))
    · rw [hpc] at h
      cases h
  case loading =>
    intro t call other i load hload hother hi
    by_cases ht : t = 0
    · rw [ht, Cache.pc_goto_self] at hload
      cases hload
    · rw [Cache.pc_goto_of_ne ht] at hload
      exact (hf.loading t call other i load hload hother hi).imp_right hawaited

/-- Another thread is called. -/
theorem fresh_call {t : Nat} {call : Call Key} (hf : Fresh S s) (ht : t ≠ 0) :
    Fresh S (s.goto t (.called call key)) := by
  have hpc : (s.goto t (.called call key)).pc 0 = s.pc 0 := Cache.pc_goto_of_ne ht.symm
  have hawaited : ∀ {other i}, Awaited s other i → Awaited (s.goto t (.called call key)) other i := by
    intro other i h
    rw [Awaited, hpc]
    exact h
  constructor
  case stored =>
    intro other i load hother hi hload
    rw [hpc]
    exact (hf.stored other i load hother hi hload).imp_right (Or.imp_left hawaited)
  case loading =>
    intro u call' other i load hload hother hi
    by_cases hu : u = t
    · rw [hu, Cache.pc_goto_self] at hload
      cases hload
    · rw [Cache.pc_goto_of_ne hu] at hload
      exact (hf.loading u call' other i load hload hother hi).imp_right hawaited

section Thread

variable {t : Nat} {pc : Pc Key Part} {m : Memory Key Part Db}

/-- A notification that is on its way stays so, until the listener begins to load. -/
theorem awaited_thread (he : Effect S (s.pc t) pc s.memory m key i) (hi : m.map key = some i)
    (h : Awaited s key i) : Awaited (Cache.goto { s with memory := m } t pc) key i ∨
      t = 0 ∧ ∃ call load, pc = .loading call key i load := by
  rcases h with h | h
  · exact .inl (.inl h)
  · by_cases ht : t = 0
    · rw [← ht] at h
      rcases he.awaits h hi with hawaits | hloading
      · left
        right
        rw [← ht, Cache.pc_goto_self]
        exact hawaits
      · exact .inr ⟨ht, hloading⟩
    · left
      right
      rw [Cache.pc_goto_of_ne (Ne.symm ht)]
      exact h

/-- A thread that loads the key into the slot is not one that has yet to. -/
theorem awaited_loading {call : Call Key} {load : Load Part}
    (hpc : s.pc t = .loading call key i load) (h : Awaited s key i) :
    Awaited (Cache.goto { s with memory := m } t pc) key i := by
  rcases h with h | h
  · exact .inl h
  · by_cases ht : t = 0
    · rw [← ht, hpc] at h
      cases h
    · right
      rw [Cache.pc_goto_of_ne (Ne.symm ht)]
      exact h

/-- What a thread stores is what the store holds, or a notification is on its way. -/
theorem stored_thread {call : Call Key} {load : Load Part} (hf : Fresh S s)
    (hpc : s.pc t = .loading call key i load) (hkey : key ∈ S.keys s.memory.db)
    (hi : s.memory.map key = some i) (hdone : (S.reads key).length ≤ load.parts.length) :
    load.parts = current S key s.memory.db ∨
      Awaited (Cache.goto { s with memory := m } t pc) key i :=
  (hf.loading t call key i load hpc hkey hi).imp (eq_current · hdone) (awaited_loading hpc)

/-- The slot that the map has for the key is the one that it had. -/
theorem mapped_thread (load : Load Part) (he : Effect S (s.pc t) pc s.memory m key i)
    (hi : m.map key = some i)
    (hmade : (m.slots i).value = some load ∨ (s.memory.slots i).key = some key) :
    s.memory.map key = some i := by
  apply (he.mapped hi).resolve_right
  intro hnew
  rcases hmade with hload | hkey
  · rw [hnew.2] at hload
    cases hload
  · rw [hnew.1] at hkey
    cases hkey

variable [DecidableEq Key]

/-- After a step, what a slot holds is current or a refresh is on its way. -/
theorem stored_of_thread (ho : Ordered S s) (hf : Fresh S s)
    (hstep : thread S t (s.pc t) s.memory = some (pc, m)) {load : Load Part}
    (hkey : key ∈ S.keys s.memory.db) (hi : m.map key = some i)
    (hload : (m.slots i).value = some load) :
    load.parts = current S key s.memory.db ∨
      Awaited (Cache.goto { s with memory := m } t pc) key i ∨
        ∃ call load', (Cache.goto { s with memory := m } t pc).pc 0 = .loading call key i load' := by
  have he := effect ho.memory hstep key i
  have hmap := mapped_thread load he hi (.inl hload)
  rcases he.value load hload with hold | ⟨call, other, hpc, hdone⟩
  · rcases hf.stored key i load hkey hmap hold with h | h | ⟨call, load', h⟩
    · exact .inl h
    · rcases awaited_thread he hi h with h | ⟨ht, call, load', hloading⟩
      · exact .inr (.inl h)
      · -- the listener begins to load
        right
        right
        rw [ht, Cache.pc_goto_self]
        exact ⟨call, load', hloading⟩
    · by_cases ht : t = 0
      · subst ht
        rcases he.loaded call load' h hkey with ⟨load'', hloading⟩ | ⟨hstored, hdone⟩
        · right
          right
          rw [Cache.pc_goto_self]
          exact ⟨call, load'', hloading⟩
        · -- the listener stores
          rw [hload] at hstored
          cases hstored
          exact (stored_thread hf h hkey hmap hdone).imp_right .inl
      · right
        right
        rw [Cache.pc_goto_of_ne (Ne.symm ht)]
        exact ⟨call, load', h⟩
  · have hknows := ho.threads t
    rw [hpc] at hknows
    have hsame : other = key :=
      Option.some.inj (hknows.1.symm.trans (ho.memory.mapped key i hmap))
    subst hsame
    exact (stored_thread hf hpc hkey hmap hdone).imp_right .inl

/-- So is what a load has read so far. -/
theorem loading_of_thread (ho : Ordered S s) (hf : Fresh S s)
    (hstep : thread S t (s.pc t) s.memory = some (pc, m)) {u : Nat} {call : Call Key}
    {load : Load Part}
    (hpc : (Cache.goto { s with memory := m } t pc).pc u = .loading call key i load)
    (hkey : key ∈ S.keys s.memory.db) (hi : m.map key = some i) :
    load.parts = (current S key s.memory.db).take load.parts.length ∨
      Awaited (Cache.goto { s with memory := m } t pc) key i := by
  have he := effect ho.memory hstep key i
  by_cases hu : u = t
  · rw [hu, Cache.pc_goto_self] at hpc
    rcases he.loading call load hpc with hparts | ⟨before, read, hbefore, hread, rfl⟩
    · left
      rw [hparts]
      rfl
    · have hknows := ho.threads t
      rw [hbefore] at hknows
      have hmap := mapped_thread before he hi (.inr hknows.1)
      rcases hf.loading t call key i before hbefore hkey hmap with h | h
      · exact .inl (take_read h hread)
      · exact .inr (awaited_loading hbefore h)
  · have hbefore := hpc
    rw [Cache.pc_goto_of_ne hu] at hbefore
    have hknows := ho.threads u
    rw [show s.pc u = _ from hbefore] at hknows
    have hmap := mapped_thread load he hi (.inr hknows.1)
    rcases hf.loading u call key i load hbefore hkey hmap with h | h
    · exact .inl h
    · rcases awaited_thread he hi h with h | ⟨_, call', load', hloading⟩
      · exact .inr h
      · -- the listener would have the lock as well
        have hlistener : (Cache.goto { s with memory := m } t pc).pc t =
            .loading call' key i load' := by
          rw [Cache.pc_goto_self, hloading]
        exact absurd ((ho.thread hstep).exclusive hpc hlistener) hu

/-- A step of a thread keeps the cache fresh. -/
theorem fresh_thread (ho : Ordered S s) (hf : Fresh S s)
    (hstep : thread S t (s.pc t) s.memory = some (pc, m)) :
    Fresh S (Cache.goto { s with memory := m } t pc) := by
  have hdb : (Cache.goto { s with memory := m } t pc).memory.db = s.memory.db :=
    (exists_effect ho.memory hstep 0).choose_spec.db
  constructor
  case stored =>
    intro key i load hkey hi hload
    rw [hdb] at hkey ⊢
    exact stored_of_thread ho hf hstep hkey hi hload
  case loading =>
    intro u call key i load hpc hkey hi
    rw [hdb] at hkey ⊢
    exact loading_of_thread ho hf hstep hpc hkey hi

end Thread

end Fresh

/-! ### Runs -/

section Runs

variable {S} [DecidableEq Key]

/-- What holds all along a run. -/
structure Holds (S : NotifyingStore Key Part Db Write) (s : Cache Key Part Db) : Prop where
  good : S.Good s.memory.db
  ordered : Ordered S s
  fresh : Fresh S s

variable {s s' : Cache Key Part Db} {move : Move Key Write} {db : Db}
  {history : List (Cache Key Part Db × Move Key Write)}

/-- So does every move. -/
theorem holds_step (hkeeps : Keeps S s move) (hstep : step S move s = some s') (h : Holds S s) :
    Holds S s' := by
  obtain ⟨hgood, ho, hf⟩ := h
  have ho' := ho.step hstep
  cases moved hstep with
  | commit hcommit =>
      exact ⟨S.good_commit hgood hkeeps.1 hcommit, ho',
        fresh_commit ho hf hgood hkeeps.1 hcommit (hkeeps.2 _ _ hcommit)⟩
  | take hpc hqueue => exact ⟨hgood, ho', fresh_take hf hpc hqueue⟩
  | call ht _ => exact ⟨hgood, ho', fresh_call hf ht⟩
  | @thread t pc m hthread =>
      refine ⟨?_, ho', fresh_thread ho hf hthread⟩
      obtain ⟨_, he⟩ := exists_effect ho.memory hthread 0
      exact he.db.symm ▸ hgood

/-- And every run from a cold start. -/
theorem holds (hgood : S.Good db) (h : Trace (step S) (.start S db) history s)
    (hkeeps : ∀ e ∈ history, Keeps S e.1 e.2) : Holds S s :=
  (h.invariant (fun _ _ _ => holds_step) hkeeps ⟨hgood, ordered_start db, fresh_start db⟩).2

/-- Whether a refresh of the key by the thread has yet to store in the slot. -/
def Pc.Refreshes (key : Key) (i : Nat) (pc : Pc Key Part) : Prop :=
  pc.Awaits key i ∨ ∃ call load, pc = .loading call key i load

/-- What a slot holds for a key of the store is what the store holds for it, or a notification for
    the key has not been taken, or the listener has yet to store what it loads for one. -/
theorem coherent (hgood : S.Good db) (h : Trace (step S) (.start S db) history s)
    (hkeeps : ∀ e ∈ history, Keeps S e.1 e.2) {key : Key} {i : Nat} {load : Load Part}
    (hkey : key ∈ S.keys s.memory.db) (hi : s.memory.map key = some i)
    (hload : (s.memory.slots i).value = some load) :
    load.parts = current S key s.memory.db ∨ key ∈ s.queue ∨ (s.pc 0).Refreshes key i := by
  rcases (holds hgood h hkeeps).fresh.stored key i load hkey hi hload with h | (h | h) | h
  · exact .inl h
  · exact .inr (.inl h)
  · exact .inr (.inr (.inl h))
  · exact .inr (.inr (.inr h))

/-- What a move leaves in a slot is what was there, or a load that began later. -/
theorem stored_step (ho : Ordered S s) (hstep : step S move s = some s') {i : Nat}
    {load : Load Part} (hload : (s.memory.slots i).value = some load) :
    ∃ load', (s'.memory.slots i).value = some load' ∧
      (load' = load ∨ load.number < load'.number) := by
  cases moved hstep with
  | commit => exact ⟨load, hload, .inl rfl⟩
  | take => exact ⟨load, hload, .inl rfl⟩
  | call => exact ⟨load, hload, .inl rfl⟩
  | @thread t pc m hthread =>
      obtain ⟨_, he⟩ := exists_effect ho.memory hthread i
      obtain ⟨load', hload'⟩ := he.kept load hload
      refine ⟨load', hload', ?_⟩
      rcases he.value load' hload' with hold | ⟨call, key, hpc, _⟩
      · exact .inl (Option.some.inj (hold.symm.trans hload))
      · have hknows := ho.threads t
        rw [hpc] at hknows
        exact .inr (hknows.2.2.2.later load hload)

/-- Along a run what a slot holds is replaced only by loads that began later. -/
theorem stored_in_order (h : Trace (step S) (.start S db) history s)
    {later : List (Cache Key Part Db × Move Key Write)} (hlater : Trace (step S) s later s')
    {i : Nat} {load : Load Part} (hload : (s.memory.slots i).value = some load) :
    ∃ load', (s'.memory.slots i).value = some load' ∧
      (load' = load ∨ load.number < load'.number) := by
  induction hlater with
  | start => exact ⟨load, hload, .inl rfl⟩
  | move hbefore hstep ih =>
      obtain ⟨middle, hmiddle, horder⟩ := ih
      obtain ⟨load', hload', hnext⟩ := stored_step (ordered (h.append hbefore)) hstep hmiddle
      refine ⟨load', hload', ?_⟩
      rcases hnext with rfl | hnext
      · exact horder
      · rcases horder with rfl | horder
        · exact .inr hnext
        · exact .inr (Nat.lt_trans horder hnext)

end Runs

end FlagForge.NotifiedCache
