/-
Module: FlagForge.Lib.CacheReads
Layer: Lib
Purpose: What a cache returns was read from states of the store, and from none before a refresh that
  had completed.
Imports: FlagForge.Lib.CacheFreshness, Mathlib.Data.List.Forall2
Trusted boundary: none
Main exports: Found, Genuine, genuine, returned_reads
-/
import FlagForge.Lib.CacheFreshness
import Mathlib.Data.List.Forall2

namespace FlagForge.NotifiedCache

open Machine (Trace)

variable {Key Part Db Write : Type}

/-! ### What the reads of a load found -/

/-- The load that a call has come to. -/
def Pc.result : Pc Key Part → Option (Key × Load Part)
  | .leaving _ key _ (some load) => some (key, load)
  | .returned _ key (some load) => some (key, load)
  | _ => none

/-- A refresh comes to nothing that is returned. -/
@[simp] theorem Pc.result_next {commits : Nat} : ∀ rest : List Key,
    (Pc.next commits rest : Pc Key Part).result = none
  | [] => rfl
  | _ :: _ => rfl

/-- The read found one of the states, and one after so many commits. -/
def Found (states : List (Memory Key Part Db)) (commits : Nat) (read : Db → Part) (part : Part) :
    Prop :=
  ∃ m ∈ states, commits ≤ m.commits ∧ part = read m.db

/-- Every load that there is has read states from after it began. -/
structure Genuine (S : NotifyingStore Key Part Db Write) (states : List (Memory Key Part Db))
    (s : Cache Key Part Db) : Prop where
  stored : ∀ i key load, (s.memory.slots i).key = some key →
    (s.memory.slots i).value = some load →
      List.Forall₂ (Found states load.commits) (S.reads key) load.parts
  loading : ∀ t call key i load, s.pc t = .loading call key i load →
    List.Forall₂ (Found states load.commits) ((S.reads key).take load.parts.length) load.parts
  result : ∀ t key load, (s.pc t).result = some (key, load) →
    List.Forall₂ (Found states load.commits) (S.reads key) load.parts

section Genuine

variable {S : NotifyingStore Key Part Db Write} {states : List (Memory Key Part Db)} {s : Cache Key Part Db}

/-- At the start there is no load. -/
theorem genuine_start (db : Db) : Genuine S states (.start S db) where
  stored _ _ _ h := nomatch h
  loading _ _ _ _ _ h := nomatch h
  result _ _ _ h := nomatch h

/-- The run goes on. -/
theorem Genuine.later {m : Memory Key Part Db} (h : Genuine S states s) :
    Genuine S (m :: states) s := by
  have hfound : ∀ {commits : Nat} (read : Db → Part) (part : Part),
      Found states commits read part → Found (m :: states) commits read part := by
    intro commits read part hfound
    obtain ⟨found, hmem, hread⟩ := hfound
    exact ⟨found, List.mem_cons_of_mem _ hmem, hread⟩
  constructor
  case stored => exact fun i key load hkey hload => (h.stored i key load hkey hload).imp hfound
  case loading => exact fun t call key i load hpc => (h.loading t call key i load hpc).imp hfound
  case result => exact fun t key load hpc => (h.result t key load hpc).imp hfound

/-- Where there are other loads than before, they are those of one thread. -/
theorem Genuine.goto (h : Genuine S states s) {t : Nat} {pc : Pc Key Part}
    {m : Memory Key Part Db} {queue : List Key}
    (hstored : ∀ i key load, (m.slots i).key = some key → (m.slots i).value = some load →
      List.Forall₂ (Found states load.commits) (S.reads key) load.parts)
    (hloading : ∀ call key i load, pc = .loading call key i load →
      List.Forall₂ (Found states load.commits) ((S.reads key).take load.parts.length) load.parts)
    (hresult : ∀ key load, pc.result = some (key, load) →
      List.Forall₂ (Found states load.commits) (S.reads key) load.parts) :
    Genuine S states (Cache.goto { s with memory := m, queue := queue } t pc) := by
  constructor
  case stored => exact hstored
  case loading =>
    intro u call key i load hpc
    by_cases hu : u = t
    · rw [hu, Cache.pc_goto_self] at hpc
      exact hloading call key i load hpc
    · rw [Cache.pc_goto_of_ne hu] at hpc
      exact h.loading u call key i load hpc
  case result =>
    intro u key load hpc
    by_cases hu : u = t
    · rw [hu, Cache.pc_goto_self] at hpc
      exact hresult key load hpc
    · rw [Cache.pc_goto_of_ne hu] at hpc
      exact h.result u key load hpc

variable [DecidableEq Key] {t : Nat} {pc pc' : Pc Key Part} {m m' : Memory Key Part Db}

section Result

variable {call : Call Key} {floor i : Nat} {key other : Key} {load before : Load Part}

/-- A call that has only begun has come to nothing. -/
theorem result_of_called (hstep : thread S t (.called call other) m = some (pc', m')) :
    pc'.result = none := by
  cases call with
  | get floor =>
      rw [thread] at hstep
      split at hstep <;> cases hstep <;> rfl
  | refresh since rest =>
      rw [thread] at hstep
      split at hstep
      next =>
        cases hstep
        rfl
      next =>
        cases hstep
        exact Pc.result_next rest

/-- A get that finds a load returns it. -/
theorem result_of_looking (hstep : thread S t (.looking floor other i) m = some (pc', m'))
    (hresult : pc'.result = some (key, load)) : key = other ∧ (m.slots i).value = some load := by
  rw [thread] at hstep
  split at hstep
  next stored hvalue =>
    cases hstep
    cases hresult
    exact ⟨rfl, hvalue⟩
  next =>
    cases hstep
    cases hresult

/-- So does one that finds a load when it has the lock. -/
theorem result_of_holding (hstep : thread S t (.holding call other i) m = some (pc', m'))
    (hresult : pc'.result = some (key, load)) : key = other ∧ (m.slots i).value = some load := by
  cases call with
  | get floor =>
      rw [thread] at hstep
      split at hstep
      next stored hvalue =>
        cases hstep
        cases hresult
        exact ⟨rfl, hvalue⟩
      next =>
        cases hstep
        cases hresult
  | refresh since rest =>
      cases hstep
      cases hresult

/-- A load is what the call comes to once its reads are done. -/
theorem result_of_loading (hstep : thread S t (.loading call other i before) m = some (pc', m'))
    (hresult : pc'.result = some (key, load)) :
    key = other ∧ load = before ∧ (S.reads other).length ≤ before.parts.length := by
  simp only [thread] at hstep
  split at hstep
  next =>
    split at hstep
    next =>
      split at hstep <;> cases hstep <;> cases hresult
    next =>
      cases hstep
      cases hresult
  next hdone =>
    cases hstep
    cases hresult
    exact ⟨rfl, rfl, List.getElem?_eq_none_iff.mp hdone⟩

/-- A get returns what it leaves with. -/
theorem result_of_leaving {result : Option (Load Part)}
    (hstep : thread S t (.leaving call other i result) m = some (pc', m'))
    (hresult : pc'.result = some (key, load)) :
    (Pc.leaving call other i result).result = some (key, load) := by
  cases call with
  | get floor =>
      cases hstep
      cases result with
      | none => cases hresult
      | some stored => exact hresult
  | refresh since rest =>
      cases hstep
      rw [Pc.result_next] at hresult
      cases hresult

/-- A call comes to what its slot holds or to what it has loaded. -/
theorem result_of_thread (hpc : pc.Knows m t) (hstep : thread S t pc m = some (pc', m'))
    (hresult : pc'.result = some (key, load)) :
    pc.result = some (key, load) ∨
      (∃ i, (m.slots i).key = some key ∧ (m.slots i).value = some load) ∨
      ∃ call i, pc = .loading call key i load ∧ (S.reads key).length ≤ load.parts.length := by
  cases pc with
  | idle => cases hstep
  | called call other =>
      rw [result_of_called hstep] at hresult
      cases hresult
  | looking floor other i =>
      obtain ⟨rfl, hvalue⟩ := result_of_looking hstep hresult
      exact .inr (.inl ⟨i, hpc.1, hvalue⟩)
  | waiting call other i =>
      rw [thread] at hstep
      split at hstep
      next => cases hstep
      next =>
        cases hstep
        cases hresult
  | holding call other i =>
      obtain ⟨rfl, hvalue⟩ := result_of_holding hstep hresult
      exact .inr (.inl ⟨i, hpc.1, hvalue⟩)
  | loading call other i before =>
      obtain ⟨rfl, rfl, hlength⟩ := result_of_loading hstep hresult
      exact .inr (.inr ⟨call, i, rfl, hlength⟩)
  | dropping since rest other i =>
      cases hstep
      cases hresult
  | leaving call other i result => exact .inl (result_of_leaving hstep hresult)
  | returned floor other result =>
      cases hstep
      cases hresult

end Result

/-- What a thread's step makes of the loads has read what the states before held. -/
theorem genuine_thread (ho : Ordered S s) (hg : Genuine S states s) (hvisited : s.memory ∈ states)
    (hstep : thread S t (s.pc t) s.memory = some (pc, m)) :
    Genuine S states (Cache.goto { s with memory := m } t pc) := by
  have hknows := ho.threads t
  have hrely := ((stepped ho.memory hknows hstep).rely (t + 1) (Nat.succ_ne_self t)).slot
  -- a load whose reads are done
  have hdone : ∀ {call key i load}, s.pc t = .loading call key i load →
      (S.reads key).length ≤ load.parts.length →
        List.Forall₂ (Found states load.commits) (S.reads key) load.parts := by
    intro call key i load hpc hlength
    have hread := hg.loading t call key i load hpc
    rw [List.take_of_length_le hlength] at hread
    exact hread
  apply hg.goto
  · intro i key load hkey hload
    obtain ⟨_, he⟩ := exists_effect ho.memory hstep i
    rcases he.value load hload with hold | ⟨call, other, hpc, hlength⟩
    · obtain ⟨_, other, _, hother⟩ := ho.memory.valued i load hold
      have hsame := hkey.symm.trans (hrely i other hother).1
      cases hsame
      exact hg.stored i key load hother hold
    · rw [hpc] at hknows
      have hsame := hkey.symm.trans (hrely i other hknows.1).1
      cases hsame
      exact hdone hpc hlength
  · intro call key i load hpc
    have he := effect ho.memory hstep key i
    rcases he.loading call load hpc with hparts | ⟨before, read, hbefore, hread, rfl⟩
    · rw [hparts]
      exact .nil
    · rw [hbefore] at hknows
      have hfound : Found states before.commits read (read s.memory.db) :=
        ⟨s.memory, hvisited, hknows.2.2.2.commits, rfl⟩
      rw [List.length_append, List.length_singleton, List.take_add_one, hread]
      exact List.rel_append (hg.loading t call key i before hbefore) (.cons hfound .nil)
  · intro key load hresult
    rcases result_of_thread hknows hstep hresult with h | ⟨i, hkey, hload⟩ | ⟨call, i, hpc, hlength⟩
    · exact hg.result t key load h
    · exact hg.stored i key load hkey hload
    · exact hdone hpc hlength

/-- So it is with every move. -/
theorem genuine_step {move : Move Key Write} {s' : Cache Key Part Db} (ho : Ordered S s)
    (hg : Genuine S states s) (hvisited : s.memory ∈ states) (hstep : step S move s = some s') :
    Genuine S states s' := by
  cases moved hstep with
  | commit => exact ⟨hg.stored, hg.loading, hg.result⟩
  | take => exact hg.goto hg.stored nofun nofun
  | call => exact hg.goto hg.stored nofun nofun
  | thread hthread => exact genuine_thread ho hg hvisited hthread

/-- The states of memory in a run. -/
def visited (history : List (Cache Key Part Db × Move Key Write)) (s : Cache Key Part Db) :
    List (Memory Key Part Db) :=
  s.memory :: history.map fun e => e.1.memory

/-- And over a run. -/
theorem genuine {db : Db} {history : List (Cache Key Part Db × Move Key Write)}
    (h : Trace (step S) (.start S db) history s) : Genuine S (visited history s) s := by
  induction h with
  | start => exact genuine_start db
  | move hbefore hstep ih =>
      exact (genuine_step (ordered hbefore) ih List.mem_cons_self hstep).later

/-- What a get returns was read from states that had seen all the commits that a refresh had seen
    when it began, of those that had completed when the get began. -/
theorem returned_reads {db : Db} {history : List (Cache Key Part Db × Move Key Write)}
    (h : Trace (step S) (.start S db) history s) {t floor : Nat} {key : Key} {load : Load Part}
    (hpc : s.pc t = .returned floor key (some load)) :
    List.Forall₂ (Found (visited history s) floor) (S.reads key) load.parts := by
  have hfloor := never_behind h hpc
  apply ((genuine h).result t key load (by rw [hpc]; rfl)).imp
  intro read part hfound
  obtain ⟨m, hm, hcommits, hpart⟩ := hfound
  exact ⟨m, hm, Nat.le_trans hfloor hcommits, hpart⟩

end Genuine

end FlagForge.NotifiedCache
