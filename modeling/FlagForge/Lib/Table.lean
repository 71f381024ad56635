/-
Module: FlagForge.Lib.Table
Layer: Lib
Purpose: Tables as lists of rows: replacing the row a condition selects, and the least row of a
  selection. A replaced table has the same rows except the replaced one, so keys stay distinct.
Imports: Mathlib.Data.List.Nodup, Mathlib.Data.List.Sort
Trusted boundary: none
Main exports: Table.replace, Table.mem_replace, Table.map_replace, Table.find?_replace, Table.least
-/
import Mathlib.Data.List.Nodup
import Mathlib.Data.List.Sort

namespace FlagForge.Table

variable {α β : Type}

/-- The rows, with `row` in the place of every row that `p` selects. -/
def replace (p : α → Bool) (row : α) (rows : List α) : List α :=
  rows.map fun r => if p r then row else r

/-- A row of the replaced table is the new one, or an old one that was not selected. -/
theorem mem_replace {p : α → Bool} {row r : α} {rows : List α} (h : r ∈ replace p row rows) :
    r = row ∨ (r ∈ rows ∧ p r = false) := by
  obtain ⟨old, hold, rfl⟩ := List.mem_map.mp h
  cases hp : p old with
  | true => exact .inl (by simp)
  | false => exact .inr ⟨by simpa using hold, by simpa using hp⟩

/-- A row that is not selected stays. -/
theorem mem_replace_of_ne {p : α → Bool} {row r : α} {rows : List α} (hr : r ∈ rows)
    (hp : p r = false) : r ∈ replace p row rows :=
  List.mem_map.mpr ⟨r, hr, by simp [hp]⟩

/-- The new row is there if one was selected. -/
theorem mem_replace_self {p : α → Bool} {row old : α} {rows : List α}
    (h : rows.find? p = some old) : row ∈ replace p row rows :=
  List.mem_map.mpr ⟨old, List.mem_of_find?_eq_some h, by simp [List.find?_some h]⟩

/-- And nothing else. -/
theorem mem_replace_iff {p : α → Bool} {row old r : α} {rows : List α}
    (h : rows.find? p = some old) : r ∈ replace p row rows ↔ r = row ∨ (r ∈ rows ∧ p r = false) := by
  constructor
  · exact mem_replace
  · rintro (rfl | ⟨hr, hp⟩)
    · exact mem_replace_self h
    · exact mem_replace_of_ne hr hp

/-- A column that the replaced rows share with the new one is unchanged as a whole. -/
theorem map_replace {p : α → Bool} {row : α} {rows : List α} {column : α → β}
    (h : ∀ r ∈ rows, p r = true → column r = column row) :
    (replace p row rows).map column = rows.map column := by
  rw [replace, List.map_map]
  apply List.map_congr_left
  intro r hr
  cases hp : p r with
  | true => simp [hp, h r hr hp]
  | false => simp [hp]

/-- What finds the replaced row finds the new one, when that is still selected. -/
theorem find?_replace {p : α → Bool} {row old : α} {rows : List α}
    (h : rows.find? p = some old) (hrow : p row = true) :
    (replace p row rows).find? p = some row := by
  induction rows with
  | nil => cases h
  | cons r rows ih =>
      cases hp : p r with
      | true => simp [replace, hp, hrow]
      | false =>
          rw [List.find?_cons, hp] at h
          have hrest := ih h
          rw [replace] at hrest
          simp [replace, hp, hrest]

/-- What selects no replaced row, nor the new one, finds what it found before. -/
theorem find?_replace_of_disjoint {p q : α → Bool} {row : α} {rows : List α}
    (hrow : q row = false) (hpq : ∀ r ∈ rows, p r = true → q r = false) :
    (replace p row rows).find? q = rows.find? q := by
  induction rows with
  | nil => rfl
  | cons r rows ih =>
      have hrest := ih fun r hr => hpq r (List.mem_cons_of_mem _ hr)
      cases hp : p r with
      | true =>
          have hq := hpq r List.mem_cons_self hp
          simpa [replace, hp, hrow, hq] using hrest
      | false =>
          cases hq : q r with
          | true => simp [replace, hp, hq]
          | false => simpa [replace, hp, hq] using hrest

/-- What selects no replaced row, nor the new one, selects what it selected before. -/
theorem filter_replace_of_disjoint {p q : α → Bool} {row : α} {rows : List α}
    (hrow : q row = false) (hpq : ∀ r ∈ rows, p r = true → q r = false) :
    (replace p row rows).filter q = rows.filter q := by
  induction rows with
  | nil => rfl
  | cons r rows ih =>
      have hrest := ih fun r hr => hpq r (List.mem_cons_of_mem _ hr)
      rw [replace] at hrest
      cases hp : p r with
      | true =>
          have hq := hpq r List.mem_cons_self hp
          simpa [replace, hp, hrow, hq] using hrest
      | false => simp [replace, hp, List.filter_cons, hrest]

/-- A filter that treats the new row like the replaced ones commutes with the replacement. -/
theorem filter_replace_of_same {p q : α → Bool} {row : α} {rows : List α}
    (h : ∀ r ∈ rows, p r = true → q r = q row) :
    (replace p row rows).filter q = replace p row (rows.filter q) := by
  induction rows with
  | nil => rfl
  | cons r rows ih =>
      have hrest := ih fun r hr => h r (List.mem_cons_of_mem _ hr)
      rw [replace] at hrest
      cases hp : p r with
      | true =>
          have hq := h r List.mem_cons_self hp
          cases hrow : q row <;> simp [replace, hp, hq, hrow, hrest]
      | false => cases hq : q r <;> simp [replace, hp, hq, hrest]

/-- What was filtered out was not selected. -/
theorem filter_filter_of_imp {p q : α → Bool} {rows : List α}
    (h : ∀ r ∈ rows, p r = true → q r = true) : (rows.filter q).filter p = rows.filter p := by
  rw [List.filter_filter]
  apply List.filter_congr
  intro r hr
  cases hp : p r with
  | true => simp [h r hr hp]
  | false => rfl

/-- A row that is not selected makes no difference. -/
theorem filter_append_of_neg {p : α → Bool} {row : α} {rows : List α} (h : p row = false) :
    (rows ++ [row]).filter p = rows.filter p := by
  simp [List.filter_append, h]

/-- The only row that is selected is the one that is found. -/
theorem find?_of_unique {p : α → Bool} {row : α} {rows : List α} (hrow : row ∈ rows)
    (hp : p row = true) (hunique : ∀ r ∈ rows, p r = true → r = row) :
    rows.find? p = some row := by
  cases hfound : rows.find? p with
  | none => exact absurd hp (List.find?_eq_none.mp hfound row hrow)
  | some r => rw [hunique r (List.mem_of_find?_eq_some hfound) (List.find?_some hfound)]

/-- A replacement among rows from which nothing is taken makes no difference. -/
theorem flatMap_filter_replace_of_nil {p q : α → Bool} {row : α} {rows : List α}
    {g : α → List β} (hrow : g row = []) (hg : ∀ r ∈ rows, p r = true → g r = []) :
    ((replace p row rows).filter q).flatMap g = (rows.filter q).flatMap g := by
  induction rows with
  | nil => rfl
  | cons r rows ih =>
      have hrest := ih fun r hr => hg r (List.mem_cons_of_mem _ hr)
      rw [replace] at hrest
      cases hp : p r with
      | true =>
          have hr := hg r List.mem_cons_self hp
          cases hq : q r <;> cases hq' : q row <;>
            simp [replace, hp, hq, hq', hr, hrow, hrest]
      | false => cases hq : q r <;> simp [replace, hp, hq, hrest]

/-- A filter that treats alike all rows that `p` selects hides the first of them or none. -/
theorem find?_of_filter {p q : α → Bool} {row : α} {rows : List α}
    (hq : ∀ a b, p a = true → p b = true → q a = q b) (h : (rows.filter q).find? p = some row) :
    rows.find? p = some row := by
  have hrow : p row = true := List.find?_some h
  have hkept : q row = true := (List.mem_filter.mp (List.mem_of_find?_eq_some h)).2
  rw [List.find?_filter] at h
  rw [← h]
  congr 1
  funext a
  cases ha : p a with
  | false => simp
  | true => simp [hq a row ha hrow, hkept]

section Keys

variable [BEq β] [LawfulBEq β] {key : α → β} {p : α → Bool} {row : α} {rows : List α}

omit [BEq β] [LawfulBEq β] in
/-- Keys still tell rows apart after a row with a new key. -/
theorem keys_append (hkeys : ∀ a ∈ rows, ∀ b ∈ rows, key a = key b → a = b)
    (hnew : ∀ a ∈ rows, key a ≠ key row) :
    ∀ a ∈ rows ++ [row], ∀ b ∈ rows ++ [row], key a = key b → a = b := by
  intro a ha b hb heq
  rcases List.mem_append.mp ha with ha | ha <;> rcases List.mem_append.mp hb with hb | hb
  · exact hkeys a ha b hb heq
  · cases List.mem_singleton.mp hb
    exact absurd heq (hnew a ha)
  · cases List.mem_singleton.mp ha
    exact absurd heq.symm (hnew b hb)
  · exact (List.mem_singleton.mp ha).trans (List.mem_singleton.mp hb).symm

omit [BEq β] [LawfulBEq β] in
/-- The same for keys of two columns. -/
theorem pairs_append {γ : Type} {key' : α → γ}
    (hkeys : ∀ a ∈ rows, ∀ b ∈ rows, key a = key b → key' a = key' b → a = b)
    (hnew : ∀ a ∈ rows, key a = key row → key' a ≠ key' row) :
    ∀ a ∈ rows ++ [row], ∀ b ∈ rows ++ [row], key a = key b → key' a = key' b → a = b := by
  have hpairs : ∀ a ∈ rows ++ [row], ∀ b ∈ rows ++ [row],
      (key a, key' a) = (key b, key' b) → a = b := by
    apply keys_append
    · exact fun a ha b hb h => hkeys a ha b hb (congrArg Prod.fst h) (congrArg Prod.snd h)
    · exact fun a ha h => hnew a ha (congrArg Prod.fst h) (congrArg Prod.snd h)
  exact fun a ha b hb heq heq' => hpairs a ha b hb (Prod.ext heq heq')

/-- The key of a selected row is among those of the selection. -/
theorem contains_key (hrow : row ∈ rows) (hp : p row = true) :
    ((rows.filter p).map key).contains (key row) = true :=
  List.contains_iff_mem.mpr (List.mem_map_of_mem (List.mem_filter.mpr ⟨hrow, hp⟩))

/-- Where keys tell rows apart, the key of a row that is not selected is not among those of the
    selection. -/
theorem not_contains_key (hkeys : ∀ a ∈ rows, ∀ b ∈ rows, key a = key b → a = b) (hrow : row ∈ rows)
    (hp : p row = false) : ((rows.filter p).map key).contains (key row) = false := by
  rw [Bool.eq_false_iff, Ne, List.contains_iff_mem]
  intro hmem
  obtain ⟨other, hother, hkey⟩ := List.mem_map.mp hmem
  obtain ⟨hother, hselected⟩ := List.mem_filter.mp hother
  rw [hkeys other hother row hrow hkey, hp] at hselected
  cases hselected

/-- Where no row is selected, deleting the selected rows deletes none. -/
theorem filter_not_of_none {rows : List α} {p : α → Bool} (h : rows.filter p = []) :
    (rows.filter fun a => !p a) = rows := by
  rw [List.filter_eq_self]
  intro a ha
  rw [Bool.not_eq_true']
  exact Bool.eq_false_iff.mpr (List.filter_eq_nil_iff.mp h a ha)

/-! Deleting the selected rows, and with them the rows of another table that reference them. -/

section Cascade

variable {γ : Type} {children : List γ} {reference : γ → β} {child : γ}

/-- A row that something left references is left. -/
theorem mem_of_cascade (hrow : row ∈ rows)
    (hchild : child ∈ children.filter fun c => !((rows.filter p).map key).contains (reference c))
    (hreference : key row = reference child) : row ∈ rows.filter fun a => !p a := by
  have hleft := (List.mem_filter.mp hchild).2
  refine List.mem_filter.mpr ⟨hrow, ?_⟩
  by_cases hp : p row = true
  · rw [← hreference, contains_key hrow hp] at hleft
    cases hleft
  · rw [Bool.eq_false_iff.mpr hp]
    rfl

/-- What is left of the other table still references a row. -/
theorem exists_of_cascade (hforeign : ∀ c ∈ children, ∃ a ∈ rows, key a = reference c)
    (h : child ∈ children.filter fun c => !((rows.filter p).map key).contains (reference c)) :
    ∃ a ∈ rows.filter fun a => !p a, key a = reference child := by
  obtain ⟨a, ha, hkey⟩ := hforeign child (List.mem_filter.mp h).1
  exact ⟨a, mem_of_cascade ha h hkey, hkey⟩

/-- What references a row that is left is left. -/
theorem mem_cascade (hkeys : ∀ a ∈ rows, ∀ b ∈ rows, key a = key b → a = b)
    (hrow : row ∈ rows.filter fun a => !p a) (hchild : child ∈ children)
    (hreference : reference child = key row) :
    child ∈ children.filter fun c => !((rows.filter p).map key).contains (reference c) := by
  obtain ⟨hrow, hp⟩ := List.mem_filter.mp hrow
  refine List.mem_filter.mpr ⟨hchild, ?_⟩
  rw [hreference, not_contains_key hkeys hrow (by simpa using hp)]
  rfl

end Cascade

end Keys

/-- The first of the least elements, under a total comparison. -/
def least (le : α → α → Bool) : List α → Option α
  | [] => none
  | x :: xs =>
      match least le xs with
      | none => some x
      | some y => if le x y then some x else some y

/-- The least row is one of the rows. -/
theorem mem_of_least {le : α → α → Bool} : ∀ {xs : List α} {x : α}, least le xs = some x → x ∈ xs
  | [], _, h => by cases h
  | x :: xs, y, h => by
      rw [least] at h
      cases hrest : least le xs with
      | none =>
          rw [hrest] at h
          cases h
          exact List.mem_cons_self
      | some z =>
          simp only [hrest] at h
          have hz := mem_of_least hrest
          split at h <;> cases h
          · exact List.mem_cons_self
          · exact List.mem_cons_of_mem _ hz

/-- The rows in the order of a comparison. -/
def orderBy (le : α → α → Bool) (rows : List α) : List α :=
  rows.insertionSort fun a b => le a b = true

/-- Ordering keeps the rows. -/
@[simp] theorem mem_orderBy {le : α → α → Bool} {row : α} {rows : List α} :
    row ∈ orderBy le rows ↔ row ∈ rows :=
  List.mem_insertionSort _

/-- It is another order of the same rows. -/
theorem orderBy_perm (le : α → α → Bool) (rows : List α) : (orderBy le rows).Perm rows :=
  List.perm_insertionSort _ rows

/-- The rows come in the order. -/
theorem pairwise_orderBy {le : α → α → Bool} (htotal : ∀ a b, le a b = true ∨ le b a = true)
    (htrans : ∀ {a b c}, le a b = true → le b c = true → le a c = true) (rows : List α) :
    (orderBy le rows).Pairwise fun a b => le a b = true := by
  have : Std.Total fun a b => le a b = true := ⟨htotal⟩
  have : IsTrans α fun a b => le a b = true := ⟨fun _ _ _ => htrans⟩
  exact List.pairwise_insertionSort _ rows

end FlagForge.Table
