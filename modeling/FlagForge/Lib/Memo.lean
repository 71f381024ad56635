/-
Module: FlagForge.Lib.Memo
Layer: Lib
Purpose: A bounded table of remembered results, shared by any number of callers behind a lock. A call
  looks its key up, computes the value if that was a miss, and inserts it while there is room. The
  three steps of different calls interleave freely.
Imports: FlagForge.Lib.Machine, Std.Data.ExtTreeMap
Trusted boundary: none
Main exports: Memo, Memo.Call, Memo.step, Memo.Sound, Memo.sound_of_trace, Memo.exists_step
-/
import FlagForge.Lib.Machine
import Std.Data.ExtTreeMap

namespace FlagForge

namespace Memo

/-- A call, by how far it has got. -/
inductive Call (Key Value : Type) where
  | begun (key : Key)
  | missed (key : Key)
  | computed (key : Key) (value : Value)
  | returned (key : Key) (value : Value)

end Memo

/-- The table and the calls made so far. -/
structure Memo (Key Value : Type) (cmp : Key → Key → Ordering) where
  entries : Std.ExtTreeMap Key Value cmp
  calls : List (Memo.Call Key Value)

namespace Memo

variable {Key Value : Type} {cmp : Key → Key → Ordering} [Std.TransCmp cmp]

inductive Move (Key : Type) where
  | call (key : Key)
  /-- The call at a position looks its key up. A lock it does not get counts as a miss. -/
  | lookup (i : Nat) (locked : Bool)
  | compute (i : Nat)
  /-- The call at a position inserts what it computed, if it gets the lock and there is room. -/
  | insert (i : Nat) (locked : Bool)

def start : Memo Key Value cmp where
  entries := ∅
  calls := []

variable (compute : Key → Value) (capacity : Nat)

/-- A call finds its key, or has missed. -/
def lookup (locked : Bool) (entries : Std.ExtTreeMap Key Value cmp) (key : Key) : Call Key Value :=
  match if locked then entries[key]? else none with
  | some value => .returned key value
  | none => .missed key

/-- The table after an insertion: past the capacity it stays as it is. -/
def insert (locked : Bool) (entries : Std.ExtTreeMap Key Value cmp) (key : Key) (value : Value) :
    Std.ExtTreeMap Key Value cmp :=
  if locked ∧ entries.size < capacity then entries.insert key value else entries

def step : Move Key → Memo Key Value cmp → Option (Memo Key Value cmp)
  | .call key, s => some { s with calls := s.calls ++ [.begun key] }
  | .lookup i locked, s =>
      match s.calls[i]? with
      | some (.begun key) => some { s with calls := s.calls.set i (lookup locked s.entries key) }
      | _ => none
  | .compute i, s =>
      match s.calls[i]? with
      | some (.missed key) => some { s with calls := s.calls.set i (.computed key (compute key)) }
      | _ => none
  | .insert i locked, s =>
      match s.calls[i]? with
      | some (.computed key value) =>
          some { s with
            entries := insert capacity locked s.entries key value
            calls := s.calls.set i (.returned key value) }
      | _ => none

/-! ### What is remembered is what computing again would give -/

/-- The value a call carries, if it has one, is that of its key. -/
def Call.Sound : Call Key Value → Prop
  | .begun _ | .missed _ => True
  | .computed key value | .returned key value => value = compute key

/-- Entries and calls carry the values of their keys, and the table is within its capacity. -/
structure Sound (s : Memo Key Value cmp) : Prop where
  entries : ∀ key value, s.entries[key]? = some value → value = compute key
  calls : ∀ call ∈ s.calls, call.Sound compute
  size_le : s.entries.size ≤ capacity

variable {compute} {capacity} {s s' : Memo Key Value cmp}

/-- An empty memory is sound. -/
theorem sound_start : Sound compute capacity (start : Memo Key Value cmp) where
  entries key value h := by simp [start] at h
  calls call h := by cases h
  size_le := by simp [start]

/-- What a lookup finds is an entry of the table. -/
theorem sound_lookup {locked : Bool} {entries : Std.ExtTreeMap Key Value cmp} {key : Key}
    (h : ∀ key value, entries[key]? = some value → value = compute key) :
    (lookup locked entries key).Sound compute := by
  unfold lookup
  split
  · rename_i value hfound
    split at hfound
    · exact h key value hfound
    · cases hfound
  · trivial

/-- There is room for the entry that an insertion adds. -/
theorem size_insert_le {locked : Bool} {entries : Std.ExtTreeMap Key Value cmp} {key : Key}
    {value : Value} (h : entries.size ≤ capacity) :
    (insert capacity locked entries key value).size ≤ capacity := by
  unfold insert
  split
  · rename_i hroom
    have hsize := Std.ExtTreeMap.size_insert_le (t := entries) (k := key) (v := value)
    omega
  · exact h

section

variable [Std.LawfulEqCmp cmp]

/-- An insertion of what was computed leaves only what was computed, whichever entry makes room. -/
theorem entries_insert {locked : Bool} {entries : Std.ExtTreeMap Key Value cmp} {key : Key}
    {value : Value} (hvalue : value = compute key)
    (h : ∀ key value, entries[key]? = some value → value = compute key) :
    ∀ k v, (insert capacity locked entries key value)[k]? = some v → v = compute k := by
  intro k v hk
  unfold insert at hk
  split at hk
  · rw [Std.ExtTreeMap.getElem?_insert] at hk
    split at hk
    · rename_i heq
      cases hk
      rw [hvalue, Std.LawfulEqCmp.eq_of_compare heq]
    · exact h k v hk
  · exact h k v hk

/-- A call that gets on leaves the others as they are. -/
theorem calls_set {calls : List (Call Key Value)} {i : Nat} {call : Call Key Value}
    (hcall : call.Sound compute) (h : ∀ call ∈ calls, call.Sound compute) :
    ∀ c ∈ calls.set i call, c.Sound compute := by
  intro c hc
  rcases List.mem_or_eq_of_mem_set hc with hc | rfl
  · exact h c hc
  · exact hcall

/-- Every move keeps the memory sound, those in between included. -/
theorem Sound.step {m : Move Key} (hstep : step compute capacity m s = some s')
    (h : Sound compute capacity s) : Sound compute capacity s' := by
  cases m with
  | call key =>
      cases hstep
      refine ⟨h.entries, ?_, h.size_le⟩
      intro call hcall
      rcases List.mem_append.mp hcall with hcall | hcall
      · exact h.calls call hcall
      · cases List.mem_singleton.mp hcall
        trivial
  | lookup i locked =>
      simp only [Memo.step] at hstep
      split at hstep
      · cases hstep
        exact ⟨h.entries, calls_set (sound_lookup h.entries) h.calls, h.size_le⟩
      · cases hstep
  | compute i =>
      simp only [Memo.step] at hstep
      split at hstep
      · cases hstep
        exact ⟨h.entries, calls_set rfl h.calls, h.size_le⟩
      · cases hstep
  | insert i locked =>
      simp only [Memo.step] at hstep
      split at hstep
      · rename_i key value hfound
        cases hstep
        have hvalue : value = compute key := h.calls _ (List.mem_of_getElem? hfound)
        exact ⟨entries_insert hvalue h.entries, calls_set hvalue h.calls, size_insert_le h.size_le⟩
      · cases hstep

/-- In every run all values are those of their keys, and the table stays within its capacity. -/
theorem sound_of_trace {history : List (Memo Key Value cmp × Move Key)}
    (hrun : Machine.Trace (step compute capacity) start history s) :
    (∀ e ∈ history, Sound compute capacity e.1) ∧ Sound compute capacity s := by
  have hkept : ∀ (s : Memo Key Value cmp) (m : Move Key) (s' : Memo Key Value cmp), True →
      step compute capacity m s = some s' → Sound compute capacity s → Sound compute capacity s' :=
    fun _ _ _ _ hstep h => h.step hstep
  exact hrun.invariant hkept (fun _ _ => trivial) sound_start

end

/-! ### No call waits for another -/

/-- The key a call asks for. -/
def Call.key : Call Key Value → Key
  | .begun key | .missed key | .computed key _ | .returned key _ => key

/-- How many steps a call still needs at most. -/
def Call.remaining : Call Key Value → Nat
  | .begun _ => 3
  | .missed _ => 2
  | .computed _ _ => 1
  | .returned _ _ => 0

/-- A call that has not returned has a step of its own to take, whatever the others do, and is then
    nearer to its answer for the key it asked for. -/
theorem exists_step {i : Nat} {call : Call Key Value} (hcall : s.calls[i]? = some call)
    (hbusy : 0 < call.remaining) :
    ∃ m s' call', step compute capacity m s = some s' ∧ s'.calls[i]? = some call' ∧
      call'.key = call.key ∧ call'.remaining < call.remaining := by
  have hi : i < s.calls.length := (List.getElem?_eq_some_iff.mp hcall).1
  cases call with
  | begun key =>
      have hstep : step compute capacity (.lookup i true) s =
          some { s with calls := s.calls.set i (lookup true s.entries key) } := by
        simp only [step, hcall]
      refine ⟨_, _, lookup true s.entries key, hstep, List.getElem?_set_self hi, ?_⟩
      unfold lookup
      split <;> simp [Call.key, Call.remaining]
  | missed key =>
      have hstep : step compute capacity (.compute i) s =
          some { s with calls := s.calls.set i (.computed key (compute key)) } := by
        simp only [step, hcall]
      exact ⟨_, _, _, hstep, List.getElem?_set_self hi, rfl, Nat.lt_succ_self _⟩
  | computed key value =>
      have hstep : step compute capacity (.insert i true) s =
          some { s with
            entries := insert capacity true s.entries key value
            calls := s.calls.set i (.returned key value) } := by
        simp only [step, hcall]
      exact ⟨_, _, _, hstep, List.getElem?_set_self hi, rfl, Nat.lt_succ_self _⟩
  | returned key value => exact absurd hbusy (Nat.lt_irrefl _)

end Memo

end FlagForge
