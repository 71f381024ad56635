/-
Module: FlagForge.Lib.Shares
Layer: Lib
Purpose: A list of shares laid end to end on the naturals from zero on: which share a point lies in,
  the interval each share owns, and what happens to the owner of a point when the shares are moved.
Imports: Mathlib.Algebra.GroupWithZero.Nat, Mathlib.Order.Interval.Finset.Nat
Trusted boundary: none
Main exports: Shares.before, Shares.owner, Shares.owner_eq_some_iff, Shares.owner_isSome_iff,
  Shares.owned_eq_Ico, Shares.owner_le_of_dominates
-/
import Mathlib.Algebra.GroupWithZero.Nat
import Mathlib.Order.Interval.Finset.Nat

namespace FlagForge.Shares

/-- Where the share at a position begins. -/
def before (shares : List Nat) (i : Nat) : Nat :=
  (shares.take i).sum

/-- The position of the share a point lies in. -/
def owner : List Nat → Nat → Option Nat
  | [], _ => none
  | share :: shares, point =>
      if point < share then some 0 else (owner shares (point - share)).map (· + 1)

/-- The points below `total` that lie in the share at a position. -/
def owned (shares : List Nat) (total i : Nat) : Finset Nat :=
  (Finset.range total).filter fun point => owner shares point = some i

@[simp] theorem before_zero (shares : List Nat) : before shares 0 = 0 := by
  simp [before]

@[simp] theorem before_cons_succ (share : Nat) (shares : List Nat) (i : Nat) :
    before (share :: shares) (i + 1) = share + before shares i := by
  simp [before]

theorem before_of_length_le {shares : List Nat} {i : Nat} (h : shares.length ≤ i) :
    before shares i = shares.sum := by
  rw [before, List.take_of_length_le h]

theorem before_succ {shares : List Nat} {i share : Nat} (h : shares[i]? = some share) :
    before shares (i + 1) = before shares i + share := by
  induction shares generalizing i with
  | nil => simp at h
  | cons first shares ih =>
      cases i with
      | zero =>
          cases Option.some.inj h
          simp
      | succ i =>
          rw [before_cons_succ, before_cons_succ, ih (by simpa using h), Nat.add_assoc]

/-- What comes before is no more than everything. -/
theorem before_le_sum (shares : List Nat) (i : Nat) : before shares i ≤ shares.sum := by
  calc before shares i ≤ before shares i + (shares.drop i).sum := Nat.le_add_right _ _
    _ = shares.sum := by rw [before, ← List.sum_append, List.take_append_drop]

/-- And grows with the position. -/
theorem before_mono (shares : List Nat) {i j : Nat} (h : i ≤ j) :
    before shares i ≤ before shares j := by
  have htake : before shares i = before (shares.take j) i := by
    rw [before, before, List.take_take, Nat.min_eq_left h]
  rw [htake]
  exact before_le_sum (shares.take j) i

/-- The owner of a point is the position whose interval holds it. -/
theorem owner_eq_some_iff {shares : List Nat} {point i : Nat} :
    owner shares point = some i ↔ before shares i ≤ point ∧ point < before shares (i + 1) := by
  induction shares generalizing point i with
  | nil => simp [owner, before]
  | cons share shares ih =>
      rw [owner]
      by_cases hlt : point < share
      · rw [if_pos hlt, before_cons_succ]
        cases i with
        | zero => simp [hlt]
        | succ i =>
            rw [before_cons_succ]
            constructor
            · intro h
              cases h
            · intro h
              omega
      · rw [if_neg hlt]
        cases i with
        | zero => simp [hlt]
        | succ i =>
            have hsucc : (owner shares (point - share)).map (· + 1) = some (i + 1) ↔
                owner shares (point - share) = some i := by simp
            rw [hsucc, ih, before_cons_succ, before_cons_succ]
            omega

/-- An owner is a position. -/
theorem length_of_owner {shares : List Nat} {point i : Nat} (h : owner shares point = some i) :
    i < shares.length := by
  by_contra hge
  have hinside := owner_eq_some_iff.mp h
  rw [before_of_length_le (by omega), before_of_length_le (by omega)] at hinside
  omega

/-- Together the shares own the points below their sum. -/
theorem owner_isSome_iff {shares : List Nat} {point : Nat} :
    (∃ i, owner shares point = some i) ↔ point < shares.sum := by
  constructor
  · rintro ⟨i, h⟩
    exact Nat.lt_of_lt_of_le (owner_eq_some_iff.mp h).2 (before_le_sum shares (i + 1))
  · intro h
    induction shares generalizing point with
    | nil => simp at h
    | cons share shares ih =>
        rw [owner]
        by_cases hlt : point < share
        · exact ⟨0, if_pos hlt⟩
        · rw [List.sum_cons] at h
          obtain ⟨i, hi⟩ := ih (show point - share < shares.sum by omega)
          exact ⟨i + 1, by rw [if_neg hlt, hi]; rfl⟩

/-- A share owns an interval. -/
theorem owned_eq_Ico {shares : List Nat} {total : Nat} (hsum : shares.sum ≤ total) (i : Nat) :
    owned shares total i = Finset.Ico (before shares i) (before shares (i + 1)) := by
  ext point
  rw [owned, Finset.mem_filter, Finset.mem_range, Finset.mem_Ico, owner_eq_some_iff]
  have hle := before_le_sum shares (i + 1)
  omega

/-- A share owns as many points as it is large. -/
theorem card_owned {shares : List Nat} {total i share : Nat} (hsum : shares.sum ≤ total)
    (hget : shares[i]? = some share) : (owned shares total i).card = share := by
  rw [owned_eq_Ico hsum, Nat.card_Ico, before_succ hget, Nat.add_sub_cancel_left]

/-- Later shares own later points. -/
theorem owner_lt {shares : List Nat} {i j point later : Nat} (h : i < j)
    (hi : owner shares point = some i) (hj : owner shares later = some j) : point < later :=
  calc point < before shares (i + 1) := (owner_eq_some_iff.mp hi).2
    _ ≤ before shares j := before_mono shares h
    _ ≤ later := (owner_eq_some_iff.mp hj).1

/-- Shares that end no earlier than the given ones own every point at an earlier position or at the
    same. -/
theorem owner_le_of_dominates {shares shares' : List Nat} {point i : Nat}
    (hdom : ∀ k, before shares k ≤ before shares' k) (hi : owner shares point = some i) :
    ∃ j ≤ i, owner shares' point = some j := by
  have hlt : point < before shares' (i + 1) :=
    Nat.lt_of_lt_of_le (owner_eq_some_iff.mp hi).2 (hdom (i + 1))
  obtain ⟨j, hj⟩ := owner_isSome_iff.mpr (Nat.lt_of_lt_of_le hlt (before_le_sum shares' (i + 1)))
  refine ⟨j, ?_, hj⟩
  by_contra hgt
  have hmono := before_mono shares' (i := i + 1) (j := j) (by omega)
  have hstart := (owner_eq_some_iff.mp hj).1
  omega

end FlagForge.Shares
