/-
Module: FlagForge.Lib.Counters
Layer: Lib
Purpose: Amounts that are booked on keys. A book is a list of entries, and what it says about a key is
  the sum over the entries of that key; a count map is a book with one entry for each key.
Imports: Mathlib.Algebra.GroupWithZero.Nat, Mathlib.Algebra.BigOperators.Group.List.Basic,
  Mathlib.Data.List.Nodup
Trusted boundary: none
Main exports: tally, total, CountMap, CountMap.update, CountMap.insert, CountMap.count_update
-/
import Mathlib.Algebra.GroupWithZero.Nat
import Mathlib.Algebra.BigOperators.Group.List.Basic
import Mathlib.Data.List.Nodup

namespace FlagForge.Counters

variable {K : Type} [DecidableEq K]

/-! ### Books -/

/-- What the entries say about a key. -/
def tally (key : K) : List (K × Nat) → Nat
  | [] => 0
  | e :: entries => (if e.1 = key then e.2 else 0) + tally key entries

/-- What the entries say in all. -/
def total : List (K × Nat) → Nat
  | [] => 0
  | e :: entries => e.2 + total entries

variable {key other : K} {entries entries' : List (K × Nat)} {n : Nat}

@[simp] theorem tally_nil : tally key [] = 0 :=
  rfl

@[simp] theorem tally_cons {e : K × Nat} :
    tally key (e :: entries) = (if e.1 = key then e.2 else 0) + tally key entries :=
  rfl

omit [DecidableEq K] in
@[simp] theorem total_nil : total ([] : List (K × Nat)) = 0 :=
  rfl

omit [DecidableEq K] in
@[simp] theorem total_cons {e : K × Nat} : total (e :: entries) = e.2 + total entries :=
  rfl

/-- Tallies add up. -/
@[simp] theorem tally_append :
    tally key (entries ++ entries') = tally key entries + tally key entries' := by
  induction entries with
  | nil => simp
  | cons e entries ih => simp [ih, Nat.add_assoc]

omit [DecidableEq K] in
/-- So do totals. -/
@[simp] theorem total_append : total (entries ++ entries') = total entries + total entries' := by
  induction entries with
  | nil => simp [total]
  | cons e entries ih => simp [total, ih, Nat.add_assoc]

/-- The order of the entries does not matter. -/
theorem tally_perm (h : entries.Perm entries') : tally key entries = tally key entries' := by
  induction h with
  | nil => rfl
  | cons e _ ih => simp [ih]
  | swap e e' _ => simp [Nat.add_left_comm]
  | trans _ _ ih ih' => exact ih.trans ih'

/-- Fewer entries say less. -/
theorem tally_sublist (h : entries.Sublist entries') : tally key entries ≤ tally key entries' := by
  induction h with
  | slnil => exact Nat.le_refl _
  | cons e _ ih => exact Nat.le_trans ih (Nat.le_add_left _ _)
  | cons_cons e _ ih => exact Nat.add_le_add_left ih _

/-- Smaller amounts say less. -/
theorem tally_map_le {f : Nat → Nat} (h : ∀ e ∈ entries, f e.2 ≤ e.2) :
    tally key (entries.map fun e => (e.1, f e.2)) ≤ tally key entries := by
  induction entries with
  | nil => exact Nat.le_refl _
  | cons e entries ih =>
      have he := h e List.mem_cons_self
      have hrest := ih fun e he => h e (List.mem_cons_of_mem _ he)
      rw [List.map_cons, tally_cons, tally_cons]
      split
      · exact Nat.add_le_add he hrest
      · exact Nat.add_le_add_left hrest _

/-- A key that does not occur has no tally. -/
theorem tally_eq_zero (h : ∀ e ∈ entries, e.1 ≠ key) : tally key entries = 0 := by
  induction entries with
  | nil => rfl
  | cons e entries ih =>
      rw [tally_cons, if_neg (h e List.mem_cons_self),
        ih fun e he => h e (List.mem_cons_of_mem _ he)]

/-- Renaming the keys apart renames the book. -/
theorem tally_map {L : Type} [DecidableEq L] {f : K → L} (hf : ∀ a b, f a = f b → a = b) :
    tally (f key) (entries.map fun e => (f e.1, e.2)) = tally key entries := by
  induction entries with
  | nil => rfl
  | cons e entries ih =>
      have hiff : f e.1 = f key ↔ e.1 = key := ⟨hf e.1 key, congrArg f⟩
      rw [List.map_cons, tally_cons, tally_cons, ih]
      simp only [hiff]

/-- Cutting a list in two loses nothing. -/
theorem tally_take_drop (m : Nat) :
    tally key (entries.take m) + tally key (entries.drop m) = tally key entries := by
  rw [← tally_append, List.take_append_drop]

/-! ### Maps of counts -/

/-- One count for each key that is there. -/
structure CountMap (K : Type) where
  entries : List (K × Nat)
  distinct : (entries.map Prod.fst).Nodup

namespace CountMap

/-- No key is there. -/
def empty : CountMap K :=
  ⟨[], List.nodup_nil⟩

def contains (key : K) (m : CountMap K) : Bool :=
  m.entries.any (·.1 = key)

def size (m : CountMap K) : Nat :=
  m.entries.length

/-- The count under a key, zero if it is not there. -/
def count (key : K) (m : CountMap K) : Nat :=
  tally key m.entries

/-- Changes the count under a key. -/
def update (key : K) (f : Nat → Nat) (m : CountMap K) : CountMap K where
  entries := m.entries.map fun e => if e.1 = key then (e.1, f e.2) else e
  distinct := by
    rw [List.map_map]
    convert m.distinct using 1
    apply List.map_congr_left
    intro e _
    by_cases h : e.1 = key <;> simp [h]

/-- Puts a count under a new key. -/
def insert (key : K) (n : Nat) (m : CountMap K) (h : m.contains key = false) : CountMap K where
  entries := m.entries ++ [(key, n)]
  distinct := by
    rw [List.map_append, List.nodup_append]
    refine ⟨m.distinct, List.nodup_singleton _, ?_⟩
    intro a ha b hb
    obtain ⟨e, he, rfl⟩ := List.mem_map.mp ha
    cases List.mem_singleton.mp hb
    simpa using List.any_eq_false.mp h e he

variable {m : CountMap K}

@[simp] theorem count_empty : (empty : CountMap K).count key = 0 :=
  rfl

omit [DecidableEq K] in
@[simp] theorem size_empty : (empty : CountMap K).size = 0 :=
  rfl

@[simp] theorem size_update {f : Nat → Nat} : (m.update key f).size = m.size :=
  List.length_map _

@[simp] theorem size_insert {h : m.contains key = false} : (m.insert key n h).size = m.size + 1 :=
  List.length_append

/-- An update leaves other keys. -/
theorem count_update_of_ne {f : Nat → Nat} (h : key ≠ other) :
    (m.update key f).count other = m.count other := by
  obtain ⟨entries, _⟩ := m
  simp only [count, update]
  induction entries with
  | nil => rfl
  | cons e entries ih =>
      have hrest := ih (List.Nodup.of_cons ‹_›)
      rw [List.map_cons, tally_cons, tally_cons, hrest]
      by_cases he : e.1 = key
      · simp [he, h]
      · simp [he]

/-- Under a key that is there, the count is what it is changed to. -/
theorem count_update {f : Nat → Nat} (h : m.contains key = true) :
    (m.update key f).count key = f (m.count key) := by
  obtain ⟨entries, hdistinct⟩ := m
  simp only [count, update]
  simp only [contains] at h
  induction entries with
  | nil => cases h
  | cons e entries ih =>
      rw [List.map_cons, List.nodup_cons] at hdistinct
      rw [List.map_cons, tally_cons, tally_cons]
      by_cases he : e.1 = key
      · -- the key is nowhere else
        have hrest : ∀ e' ∈ entries, e'.1 ≠ key := by
          intro e' he' heq
          exact hdistinct.1 (List.mem_map.mpr ⟨e', he', heq.trans he.symm⟩)
        have hsame : entries.map (fun e => if e.1 = key then (e.1, f e.2) else e) = entries := by
          conv_rhs => rw [← List.map_id entries]
          apply List.map_congr_left
          intro e' he'
          simp [hrest e' he']
        rw [hsame, tally_eq_zero hrest]
        simp [he]
      · have hthere : entries.any (·.1 = key) = true := by simpa [he] using h
        rw [ih hdistinct.2 hthere]
        simp [he]

/-- An insertion counts for its key. -/
theorem count_insert {h : m.contains key = false} :
    (m.insert key n h).count other = m.count other + if key = other then n else 0 := by
  simp [count, insert]

end CountMap

end FlagForge.Counters
