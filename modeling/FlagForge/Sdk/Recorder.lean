/-
Module: FlagForge.Sdk.Recorder
Layer: Sdk
Purpose: The counter map that is shared by every clone of a client. What is put into it is counted or,
  when the map is full and the cell is new, dropped; what is drained and restored likewise.
Imports: FlagForge.Sdk.Client, FlagForge.Lib.Counters
Trusted boundary: none
Main exports: Recorder, record, drain, restore, refusals, count_restore, dropped_restore
-/
import FlagForge.Sdk.Client
import FlagForge.Lib.Counters

namespace FlagForge.Sdk

open Counters (CountMap tally total)

/-- Upper bound on distinct counter cells held between flushes. -/
def maxCells : Nat := 4096

/-- Addition of `u64`. -/
def addU64 (a b : Nat) : Nat :=
  (a + b) % 2 ^ 64

structure Recorder where
  counts : CountMap Cell
  /-- Increments refused by the cap since the last flush. -/
  dropped : Nat

namespace Recorder

/-- No count yet. -/
def new : Recorder :=
  ⟨.empty, 0⟩

/-- Counts `n` more under a cell. Existing cells always increment; the cap only refuses new ones. -/
def put (cell : Cell) (n : Nat) (s : Recorder) : Recorder :=
  if h : s.counts.contains cell = true then
    { s with counts := s.counts.update cell fun count => addU64 count n }
  else if maxCells ≤ s.counts.size then { s with dropped := addU64 s.dropped n }
  else { s with counts := s.counts.insert cell n (Bool.eq_false_iff.mpr h) }

def record (cell : Cell) (s : Recorder) : Recorder :=
  s.put cell 1

/-- Takes everything recorded so far, leaving the map empty. -/
def drain (s : Recorder) : (List (Cell × Nat) × Nat) × Recorder :=
  ((s.counts.entries, s.dropped), new)

/-- Puts a failed flush back, merging it with what was recorded in the meantime. -/
def restore (counts : List (Cell × Nat)) (s : Recorder) : Recorder :=
  counts.foldl (fun s e => s.put e.1 e.2) s

/-- Whether the cap refuses the cell. -/
def refuses (cell : Cell) (s : Recorder) : Bool :=
  !s.counts.contains cell && maxCells ≤ s.counts.size

/-- What `put` drops. -/
def refused (cell : Cell) (n : Nat) (s : Recorder) : List (Cell × Nat) :=
  if s.refuses cell then [(cell, n)] else []

/-- What `restore` drops. -/
def refusals : List (Cell × Nat) → Recorder → List (Cell × Nat)
  | [], _ => []
  | e :: counts, s => s.refused e.1 e.2 ++ refusals counts (s.put e.1 e.2)

variable {s : Recorder} {cell other : Cell} {n : Nat} {counts : List (Cell × Nat)}

theorem addU64_le (a b : Nat) : addU64 a b ≤ a + b :=
  Nat.mod_le _ _

theorem addU64_eq {a b : Nat} (h : a + b < 2 ^ 64) : addU64 a b = a + b :=
  Nat.mod_eq_of_lt h

/-- The three cases of `put`. -/
theorem put_cases (s : Recorder) (cell : Cell) (n : Nat) :
    (s.counts.contains cell = true ∧ s.refused cell n = [] ∧
      s.put cell n = { s with counts := s.counts.update cell fun count => addU64 count n }) ∨
    (s.counts.contains cell = false ∧ maxCells ≤ s.counts.size ∧ s.refused cell n = [(cell, n)] ∧
      s.put cell n = { s with dropped := addU64 s.dropped n }) ∨
    (∃ h : s.counts.contains cell = false, s.counts.size < maxCells ∧ s.refused cell n = [] ∧
      s.put cell n = { s with counts := s.counts.insert cell n h }) := by
  by_cases hthere : s.counts.contains cell = true
  · exact .inl ⟨hthere, by simp [refused, refuses, hthere], by simp [put, hthere]⟩
  · have hnew := Bool.eq_false_iff.mpr hthere
    by_cases hfull : maxCells ≤ s.counts.size
    · exact .inr (.inl ⟨hnew, hfull, by simp [refused, refuses, hnew, hfull],
        by simp [put, hnew, hfull]⟩)
    · exact .inr (.inr ⟨hnew, Nat.lt_of_not_le hfull, by simp [refused, refuses, hfull],
        by simp [put, hnew, hfull]⟩)

/-- A cell that is already in the map is never refused. -/
theorem refused_of_contains (h : s.counts.contains cell = true) : s.refused cell n = [] := by
  rw [refused, refuses, h]
  rfl

theorem size_put (h : s.counts.size ≤ maxCells) : (s.put cell n).counts.size ≤ maxCells := by
  rcases put_cases s cell n with ⟨_, _, hput⟩ | ⟨_, _, _, hput⟩ | ⟨_, hroom, _, hput⟩
  · rw [hput, CountMap.size_update]
    exact h
  · rw [hput]
    exact h
  · rw [hput, CountMap.size_insert]
    exact hroom

/-- What is put is counted or dropped, up to overflows. -/
theorem count_put : (s.put cell n).counts.count other + tally other (s.refused cell n) ≤
      s.counts.count other + tally other [(cell, n)] ∧
    (s.counts.count other + tally other [(cell, n)] < 2 ^ 64 →
      (s.put cell n).counts.count other + tally other (s.refused cell n) =
        s.counts.count other + tally other [(cell, n)]) := by
  simp only [Counters.tally_cons, Counters.tally_nil, Nat.add_zero]
  rcases put_cases s cell n with ⟨hthere, hrefused, hput⟩ | ⟨_, _, hrefused, hput⟩ |
    ⟨hnew, _, hrefused, hput⟩
  · rw [hput, hrefused]
    by_cases hcell : cell = other
    · subst hcell
      simp only [CountMap.count_update hthere, Counters.tally_nil, Nat.add_zero, if_pos]
      exact ⟨addU64_le _ _, addU64_eq⟩
    · simp [CountMap.count_update_of_ne hcell, hcell]
  · rw [hput, hrefused]
    simp
  · rw [hput, hrefused, CountMap.count_insert]
    simp

theorem dropped_put : (s.put cell n).dropped ≤ s.dropped + total (s.refused cell n) ∧
    (s.dropped + total (s.refused cell n) < 2 ^ 64 →
      (s.put cell n).dropped = s.dropped + total (s.refused cell n)) := by
  rcases put_cases s cell n with ⟨_, hrefused, hput⟩ | ⟨_, _, hrefused, hput⟩ |
    ⟨_, _, hrefused, hput⟩
  · rw [hput, hrefused]
    exact ⟨Nat.le_refl _, fun _ => rfl⟩
  · rw [hput, hrefused]
    exact ⟨addU64_le _ _, addU64_eq⟩
  · rw [hput, hrefused]
    exact ⟨Nat.le_refl _, fun _ => rfl⟩

theorem size_restore (h : s.counts.size ≤ maxCells) :
    (s.restore counts).counts.size ≤ maxCells := by
  induction counts generalizing s with
  | nil => exact h
  | cons e counts ih => exact ih (size_put h)

/-- What is restored is counted or dropped, up to overflows. -/
theorem count_restore : (s.restore counts).counts.count other + tally other (refusals counts s) ≤
      s.counts.count other + tally other counts ∧
    (s.counts.count other + tally other counts < 2 ^ 64 →
      (s.restore counts).counts.count other + tally other (refusals counts s) =
        s.counts.count other + tally other counts) := by
  induction counts generalizing s with
  | nil => exact ⟨Nat.le_refl _, fun _ => rfl⟩
  | cons e counts ih =>
      obtain ⟨hput, hput'⟩ := @count_put s e.1 other e.2
      obtain ⟨hrest, hrest'⟩ := @ih (s.put e.1 e.2)
      simp only [Counters.tally_cons, Counters.tally_nil, Nat.add_zero] at hput hput'
      rw [refusals, Counters.tally_append, Counters.tally_cons]
      change ((s.put e.1 e.2).restore counts).counts.count other + _ ≤ _ ∧
        (_ → ((s.put e.1 e.2).restore counts).counts.count other + _ = _)
      constructor
      · omega
      · intro hbound
        have heq := hput' (by omega)
        have heq' := hrest' (by omega)
        omega

theorem dropped_restore : (s.restore counts).dropped ≤ s.dropped + total (refusals counts s) ∧
    (s.dropped + total (refusals counts s) < 2 ^ 64 →
      (s.restore counts).dropped = s.dropped + total (refusals counts s)) := by
  induction counts generalizing s with
  | nil => exact ⟨Nat.le_refl _, fun _ => rfl⟩
  | cons e counts ih =>
      obtain ⟨hput, hput'⟩ := @dropped_put s e.1 e.2
      obtain ⟨hrest, hrest'⟩ := @ih (s.put e.1 e.2)
      rw [refusals, Counters.total_append]
      change ((s.put e.1 e.2).restore counts).dropped ≤ _ ∧
        (_ → ((s.put e.1 e.2).restore counts).dropped = _)
      constructor
      · omega
      · intro hbound
        have heq := hput' (by omega)
        have heq' := hrest' (by omega)
        omega

end Recorder

end FlagForge.Sdk
