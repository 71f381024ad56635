/-
Module: FlagForge.Lib.Paging
Layer: Lib
Purpose: Keyset pagination: each page is the highest keys below a cursor, and the cursor is the last
  key of the page before. While rows with higher keys are added, the pages cut the rows that were there
  at first into pieces.
Imports: FlagForge.Lib.Table, Mathlib.Order.Basic
Trusted boundary: none
Main exports: Paging.page, Paging.nextCursor, Paging.pageAt, Paging.pageAt_eq, Paging.pages_exact
-/
import FlagForge.Lib.Table
import Mathlib.Order.Basic

namespace FlagForge.Paging

section Definitions

variable {α κ : Type} [LinearOrder κ] (key : α → κ)

/-- The rows, highest key first. -/
def newestFirst (rows : List α) : List α :=
  Table.orderBy (fun a b => decide (key b ≤ key a)) rows

/-- Whether the row is beyond the cursor; without one, every row is. -/
def below (cursor : Option κ) (row : α) : Bool :=
  cursor.elim true fun c => decide (key row < c)

/-- The highest `size` keys below the cursor. -/
def page (size : Nat) (cursor : Option κ) (rows : List α) : List α :=
  (newestFirst key (rows.filter (below key cursor))).take size

/-- A full page may have a successor. -/
def nextCursor (size : Nat) (page : List α) : Option κ :=
  if size ≤ page.length then page.getLast?.map key else none

/-- Each page, read from the rows that are there by then; after the last one there is none. -/
def pageAt (size : Nat) (rows : Nat → List α) : Nat → Option (List α)
  | 0 => some (page key size none (rows 0))
  | k + 1 => (pageAt size rows k).bind fun last =>
      (nextCursor key size last).map fun cursor => page key size (some cursor) (rows (k + 1))

/-- Only rows with higher keys are added. -/
def Grows (rows : Nat → List α) : Prop :=
  ∀ k, ∃ added, rows (k + 1) = rows k ++ added ∧ ∀ new ∈ added, ∀ old ∈ rows k, key old < key new

end Definitions

section Pages

variable {α κ : Type} [LinearOrder κ] {key : α → κ} {size : Nat} {rows : Nat → List α}
  {log : List α}

theorem mem_newestFirst {row : α} : row ∈ newestFirst key log ↔ row ∈ log :=
  Table.mem_orderBy

/-- Newest first is another order of the same rows. -/
theorem perm_newestFirst : (newestFirst key log).Perm log :=
  List.perm_insertionSort _ _

/-- Keys descend strictly where no two are alike. -/
theorem newestFirst_descends (h : (log.map key).Nodup) :
    (newestFirst key log).Pairwise fun a b => key b < key a := by
  have hsorted : (newestFirst key log).Pairwise fun a b => decide (key b ≤ key a) = true :=
    @List.pairwise_insertionSort _ (fun a b => decide (key b ≤ key a) = true) _
      ⟨fun a b => by simpa using le_total (key b) (key a)⟩
      ⟨fun a b c hab hbc => by
        simp only [decide_eq_true_eq] at hab hbc ⊢
        exact hbc.trans hab⟩ log
  have hdistinct : (newestFirst key log).Pairwise fun a b => key a ≠ key b :=
    List.pairwise_map.mp ((perm_newestFirst.map key).nodup_iff.mpr h)
  refine (hsorted.and hdistinct).imp ?_
  rintro a b ⟨hle, hne⟩
  exact lt_of_le_of_ne (of_decide_eq_true hle) hne.symm

/-- Two descending lists of the same rows are the same list. -/
theorem eq_of_descends {l l' : List α} (h : l.Pairwise fun a b => key b < key a)
    (h' : l'.Pairwise fun a b => key b < key a) (hperm : l.Perm l') : l = l' :=
  List.Perm.eq_of_pairwise (fun _ _ _ _ hab hba => absurd hab (lt_asymm hba)) h h' hperm

/-- Rows are selected before or after ordering. -/
theorem newestFirst_filter (h : (log.map key).Nodup) (p : α → Bool) :
    newestFirst key (log.filter p) = (newestFirst key log).filter p := by
  have hsub : ((log.filter p).map key).Nodup := h.sublist (List.filter_sublist.map key)
  exact eq_of_descends (newestFirst_descends hsub) ((newestFirst_descends h).filter p)
    (perm_newestFirst.trans (perm_newestFirst.filter p).symm)

/-- Below a row of a descending list are those behind it. -/
theorem filter_below_of_descends {front rest : List α} {row : α}
    (h : (front ++ row :: rest).Pairwise fun a b => key b < key a) :
    (front ++ row :: rest).filter (below key (some (key row))) = rest := by
  obtain ⟨_, hrest, hfront⟩ := List.pairwise_append.mp h
  rw [List.pairwise_cons] at hrest
  rw [List.filter_append, List.filter_cons_of_neg (by simp [below]),
    List.filter_eq_nil_iff.mpr, List.nil_append, List.filter_eq_self]
  · exact fun later hlater => by simpa [below] using hrest.1 later hlater
  · intro earlier hearlier
    have hlt := hfront earlier hearlier row List.mem_cons_self
    simpa [below] using hlt.le

/-- A log that grows has what it had, and newer rows. -/
theorem Grows.added (h : Grows key rows) : ∀ k, ∃ added, rows k = rows 0 ++ added ∧
    ∀ new ∈ added, ∀ old ∈ rows 0, key old < key new
  | 0 => ⟨[], (List.append_nil _).symm, by simp⟩
  | k + 1 => by
      obtain ⟨added, hrows, hnewer⟩ := h.added k
      obtain ⟨added', hrows', hnewer'⟩ := h k
      refine ⟨added ++ added', by rw [hrows', hrows, List.append_assoc], ?_⟩
      intro new hnew old hold
      rcases List.mem_append.mp hnew with hnew | hnew
      · exact hnewer new hnew old hold
      · exact hnewer' new hnew old (hrows ▸ List.mem_append_left _ hold)

/-- What is below a row of the first log has been there all along. -/
theorem Grows.filter_below (h : Grows key rows) {row : α} (hrow : row ∈ rows 0) (k : Nat) :
    (rows k).filter (below key (some (key row))) =
      (rows 0).filter (below key (some (key row))) := by
  obtain ⟨added, hrows, hnewer⟩ := h.added k
  rw [hrows, List.filter_append, List.append_right_eq_self, List.filter_eq_nil_iff]
  intro new hnew
  have hlt := hnewer new hnew row hrow
  simpa [below] using hlt.le

/-- The pages are consecutive pieces of the first log, as long as it lasts. -/
theorem pageAt_eq (hsize : 0 < size) (hgrows : Grows key rows) (hkeys : ((rows 0).map key).Nodup) :
    ∀ k, pageAt key size rows k =
      if k * size ≤ (rows 0).length then
        some (((newestFirst key (rows 0)).drop (k * size)).take size)
      else none
  | 0 => by
      have hall : (rows 0).filter (below key none) = rows 0 :=
        List.filter_eq_self.mpr fun _ _ => rfl
      simp [pageAt, page, hall]
  | k + 1 => by
      have hlength : (newestFirst key (rows 0)).length = (rows 0).length :=
        perm_newestFirst.length_eq
      rw [pageAt, pageAt_eq hsize hgrows hkeys k]
      by_cases hfull : (k + 1) * size ≤ (rows 0).length
      · rw [Nat.succ_mul] at hfull ⊢
        rw [if_pos (by omega), if_pos hfull]
        -- the last row of the full page is the cursor of the next one
        obtain ⟨row, hrow⟩ : ∃ row, (newestFirst key (rows 0))[k * size + size - 1]? = some row :=
          ⟨_, List.getElem?_eq_getElem (by omega)⟩
        have hlast : (((newestFirst key (rows 0)).drop (k * size)).take size).getLast? =
            some row := by
          rw [List.getLast?_eq_getElem?, List.length_take, List.length_drop, Nat.min_eq_left (by omega),
            List.getElem?_take_of_lt (by omega), List.getElem?_drop]
          rwa [Nat.add_sub_assoc hsize] at hrow
        have hsplit : newestFirst key (rows 0) =
            (newestFirst key (rows 0)).take (k * size + size - 1) ++
              row :: (newestFirst key (rows 0)).drop (k * size + size) := by
          obtain ⟨hlt, hget⟩ := List.getElem?_eq_some_iff.mp hrow
          conv_lhs => rw [← List.take_append_drop (k * size + size - 1) (newestFirst key (rows 0)),
            List.drop_eq_getElem_cons hlt, hget, Nat.sub_add_cancel (by omega)]
        have hbelow : (newestFirst key (rows 0)).filter (below key (some (key row))) =
            (newestFirst key (rows 0)).drop (k * size + size) := by
          have hdescends := newestFirst_descends hkeys
          rw [hsplit] at hdescends
          conv_lhs => rw [hsplit]
          exact filter_below_of_descends hdescends
        have hmem : row ∈ rows 0 := mem_newestFirst.mp (List.mem_of_getElem? hrow)
        rw [Option.bind_some, nextCursor, if_pos (by rw [List.length_take, List.length_drop]; omega),
          hlast, Option.map_some, Option.map_some, page, hgrows.filter_below hmem,
          newestFirst_filter hkeys, hbelow]
      · rw [if_neg hfull]
        rw [Nat.succ_mul] at hfull
        split
        · rw [Option.bind_some, nextCursor,
            if_neg (by rw [List.length_take, List.length_drop]; omega)]
          rfl
        · rfl

/-- Pieces of one size make up the list. -/
theorem flatMap_pieces {l : List α} (n : Nat) :
    (List.range n).flatMap (fun k => (l.drop (k * size)).take size) = l.take (n * size) := by
  induction n with
  | zero => simp
  | succ n ih =>
      rw [List.range_succ, List.flatMap_append, ih, Nat.succ_mul, List.take_add]
      simp

/-- There is a last page, and up to it the pages are the first log, newest first. -/
theorem pages_exact (hsize : 0 < size) (hgrows : Grows key rows)
    (hkeys : ((rows 0).map key).Nodup) : ∃ last,
      (∀ k, (pageAt key size rows k).isSome = true ↔ k ≤ last) ∧
        (List.range (last + 1)).flatMap (fun k => (pageAt key size rows k).getD []) =
          newestFirst key (rows 0) := by
  have hlast : ∀ k, k * size ≤ (rows 0).length ↔ k ≤ (rows 0).length / size := fun k =>
    (Nat.le_div_iff_mul_le hsize).symm
  refine ⟨(rows 0).length / size, fun k => ?_, ?_⟩
  · rw [pageAt_eq hsize hgrows hkeys, ← hlast]
    split
    · rename_i hle
      exact iff_of_true rfl hle
    · rename_i hlt
      exact iff_of_false nofun hlt
  · have hpieces : ∀ k ∈ List.range ((rows 0).length / size + 1),
        (pageAt key size rows k).getD [] =
          ((newestFirst key (rows 0)).drop (k * size)).take size := by
      intro k hk
      have hle := (hlast k).mpr (Nat.lt_succ_iff.mp (List.mem_range.mp hk))
      rw [pageAt_eq hsize hgrows hkeys, if_pos hle]
      rfl
    rw [List.flatMap_congr hpieces, flatMap_pieces, List.take_of_length_le]
    rw [perm_newestFirst.length_eq, Nat.succ_mul]
    exact (Nat.lt_div_mul_add hsize).le

end Pages

end FlagForge.Paging
