/-
Module: FlagForge.Lib.Grouping
Layer: Lib
Purpose: Gathering rows into one entry for each key, by a loop that searches for the entry of a row or
  by one that looks at the last entry only, and arranging the entries by a list of names. The two
  loops agree on rows that come in the order of their keys.
Imports: FlagForge.Lib.Table, Mathlib.Algebra.GroupWithZero.Nat, Mathlib.Data.List.Induction,
  Mathlib.Data.List.Perm.Subperm
Trusted boundary: none
Main exports: Gather, Gather.Gathered, Gather.bySearch, Gather.onLast, Gather.gathered_bySearch,
  Gather.foldl_onLast, Grouping.swapRemove, Grouping.arrange, Grouping.names_arrange
-/
import FlagForge.Lib.Table
import Mathlib.Algebra.GroupWithZero.Nat
import Mathlib.Data.List.Induction
import Mathlib.Data.List.Perm.Subperm

namespace FlagForge

/-- How rows are gathered into entries. An entry keeps its name. -/
structure Gather (Row Key Entry : Type) where
  key : Row → Key
  name : Entry → Key
  fresh : Key → Entry
  add : Entry → Row → Entry
  name_fresh : ∀ k, name (fresh k) = k
  name_add : ∀ e r, name (add e r) = name e

namespace Gather

variable {Row Key Entry : Type} [DecidableEq Key] (g : Gather Row Key Entry)

/-- The entry of the rows of a key. -/
def entry (rows : List Row) (k : Key) : Entry :=
  (rows.filter (g.key · = k)).foldl g.add (g.fresh k)

/-- The entries hold the rows: one entry for each key there is, with all rows of that key. -/
structure Gathered (rows : List Row) (entries : List Entry) : Prop where
  once : (entries.map g.name).Nodup
  names : ∀ k, k ∈ entries.map g.name ↔ k ∈ rows.map g.key
  value : ∀ e ∈ entries, e = g.entry rows (g.name e)

/-! ### The loops -/

/-- Adds the row to the entry of its key, which is made if there is none. -/
def bySearch : List Entry → Row → List Entry
  | [], r => [g.add (g.fresh (g.key r)) r]
  | e :: es, r => if g.name e = g.key r then g.add e r :: es else e :: bySearch es r

/-- Adds the row to the last entry, if that is of its key, or else to a new one. -/
def onLast (es : List Entry) (r : Row) : List Entry :=
  match es.getLast? with
  | none => es ++ [g.add (g.fresh (g.key r)) r]
  | some e =>
      if g.name e = g.key r then es.dropLast ++ [g.add e r]
      else es ++ [g.add (g.fresh (g.key r)) r]

section Search

variable {g} {es : List Entry} {e : Entry} {r : Row} {rows : List Row} {k : Key}

/-- Where there is an entry of the key, the names stay; else the key comes last. -/
theorem names_bySearch : (g.bySearch es r).map g.name =
    if g.key r ∈ es.map g.name then es.map g.name else es.map g.name ++ [g.key r] := by
  induction es with
  | nil => simp [bySearch, g.name_add, g.name_fresh]
  | cons e es ih =>
      rw [bySearch]
      by_cases he : g.name e = g.key r
      · simp [he, g.name_add]
      · have hne : ¬g.key r = g.name e := fun h => he h.symm
        by_cases hmem : g.key r ∈ es.map g.name
        · simp only [if_neg he, List.map_cons, ih, if_pos hmem,
            if_pos (List.mem_cons_of_mem _ hmem)]
        · have hmem' : g.key r ∉ g.name e :: es.map g.name := by
            simp only [List.mem_cons, not_or]
            exact ⟨hne, hmem⟩
          simp only [if_neg he, List.map_cons, ih, if_neg hmem, if_neg hmem', List.cons_append]

theorem mem_names_bySearch :
    k ∈ (g.bySearch es r).map g.name ↔ k ∈ es.map g.name ∨ k = g.key r := by
  rw [names_bySearch]
  split
  · rename_i hmem
    refine ⟨.inl, ?_⟩
    rintro (hk | rfl)
    · exact hk
    · exact hmem
  · simp

theorem nodup_bySearch (h : (es.map g.name).Nodup) : ((g.bySearch es r).map g.name).Nodup := by
  rw [names_bySearch]
  split
  · exact h
  · rename_i hmem
    rw [← List.concat_eq_append]
    exact h.concat hmem

/-- An entry afterwards is one of another key as it was, the one of the key with the row added, or a
    new one. -/
theorem mem_bySearch (hnodup : (es.map g.name).Nodup) (h : e ∈ g.bySearch es r) :
    (e ∈ es ∧ g.name e ≠ g.key r) ∨ (∃ old ∈ es, g.name old = g.key r ∧ e = g.add old r) ∨
      (g.key r ∉ es.map g.name ∧ e = g.add (g.fresh (g.key r)) r) := by
  induction es with
  | nil => exact .inr (.inr ⟨List.not_mem_nil, List.mem_singleton.mp h⟩)
  | cons first es ih =>
      obtain ⟨hfirst, hrest⟩ := List.nodup_cons.mp hnodup
      rw [bySearch] at h
      by_cases hname : g.name first = g.key r
      · rw [if_pos hname] at h
        rcases List.mem_cons.mp h with rfl | he
        · exact .inr (.inl ⟨first, List.mem_cons_self, hname, rfl⟩)
        · refine .inl ⟨List.mem_cons_of_mem _ he, fun hsame => hfirst ?_⟩
          rw [hname, ← hsame]
          exact List.mem_map_of_mem he
      · rw [if_neg hname] at h
        rcases List.mem_cons.mp h with rfl | he
        · exact .inl ⟨List.mem_cons_self, hname⟩
        · rcases ih hrest he with ⟨hold, hne⟩ | ⟨old, hold, hsame, rfl⟩ | ⟨hnew, rfl⟩
          · exact .inl ⟨List.mem_cons_of_mem _ hold, hne⟩
          · exact .inr (.inl ⟨old, List.mem_cons_of_mem _ hold, hsame, rfl⟩)
          · refine .inr (.inr ⟨?_, rfl⟩)
            simp only [List.map_cons, List.mem_cons, not_or]
            exact ⟨fun h => hname h.symm, hnew⟩

theorem entry_concat_self : g.entry (rows ++ [r]) (g.key r) = g.add (g.entry rows (g.key r)) r := by
  simp [entry, List.filter_append]

theorem entry_concat_of_ne (h : k ≠ g.key r) : g.entry (rows ++ [r]) k = g.entry rows k := by
  simp [entry, List.filter_append, h.symm]

/-- There is nothing in the entry of a key that no row has. -/
theorem entry_of_not_mem (h : k ∉ rows.map g.key) : g.entry rows k = g.fresh k := by
  have hnone : rows.filter (g.key · = k) = [] := by
    rw [List.filter_eq_nil_iff]
    intro r hr hk
    exact h (List.mem_map.mpr ⟨r, hr, of_decide_eq_true hk⟩)
  rw [entry, hnone]
  rfl

/-- One row by search keeps the entries those of the rows. -/
theorem Gathered.bySearch (h : g.Gathered rows es) :
    g.Gathered (rows ++ [r]) (g.bySearch es r) where
  once := nodup_bySearch h.once
  names k := by
    rw [mem_names_bySearch, h.names, List.map_append, List.mem_append, List.map_singleton,
      List.mem_singleton]
  value e he := by
    rcases mem_bySearch h.once he with ⟨hold, hne⟩ | ⟨old, hold, hname, rfl⟩ | ⟨hnew, rfl⟩
    · rw [entry_concat_of_ne hne]
      exact h.value e hold
    · rw [g.name_add, hname, entry_concat_self, ← hname, ← h.value old hold]
    · rw [g.name_add, g.name_fresh, entry_concat_self,
        entry_of_not_mem fun hmem => hnew ((h.names _).mpr hmem)]

/-- Entries that hold the rows hold them in any order. -/
theorem Gathered.perm {es' : List Entry} (h : g.Gathered rows es) (hperm : es'.Perm es) :
    g.Gathered rows es' where
  once := (hperm.map g.name).nodup_iff.mpr h.once
  names k := (hperm.map g.name).mem_iff.trans (h.names k)
  value e he := h.value e (hperm.mem_iff.mp he)

/-- The loop by search gathers any rows. -/
theorem gathered_bySearch (rows : List Row) : g.Gathered rows (rows.foldl g.bySearch []) := by
  induction rows using List.reverseRecOn with
  | nil => exact ⟨List.nodup_nil, fun _ => Iff.rfl, fun _ he => absurd he List.not_mem_nil⟩
  | append_singleton rows r ih =>
      rw [List.foldl_append]
      exact ih.bySearch

end Search

/-! ### Sums -/

section Sum

variable {g} {es : List Entry} {measure : Entry → Nat} {weight : Row → Nat}

omit [DecidableEq Key] in
/-- What each row adds to an entry, all rows of a key add to theirs. -/
theorem measure_foldl (hadd : ∀ e r, measure (g.add e r) = measure e + weight r) (rows : List Row)
    (e : Entry) : measure (rows.foldl g.add e) = measure e + (rows.map weight).sum := by
  induction rows generalizing e with
  | nil => rfl
  | cons r rows ih => rw [List.foldl_cons, ih, hadd, List.map_cons, List.sum_cons, Nat.add_assoc]

variable (hfresh : ∀ k, measure (g.fresh k) = 0)
  (hadd : ∀ e r, g.name e = g.key r → measure (g.add e r) = measure e + weight r)

include hfresh hadd

omit [DecidableEq Key] in
theorem measure_new (r : Row) : measure (g.add (g.fresh (g.key r)) r) = weight r := by
  rw [hadd _ _ (g.name_fresh _), hfresh, Nat.zero_add]

theorem sum_bySearch (r : Row) :
    ((g.bySearch es r).map measure).sum = (es.map measure).sum + weight r := by
  induction es with
  | nil => simp [bySearch, measure_new hfresh hadd]
  | cons e es ih =>
      rw [bySearch]
      by_cases he : g.name e = g.key r
      · rw [if_pos he, List.map_cons, List.sum_cons, hadd e r he, List.map_cons, List.sum_cons]
        exact Nat.add_right_comm _ _ _
      · rw [if_neg he, List.map_cons, List.sum_cons, ih, List.map_cons, List.sum_cons, Nat.add_assoc]

theorem sum_onLast (r : Row) :
    ((g.onLast es r).map measure).sum = (es.map measure).sum + weight r := by
  rcases List.eq_nil_or_concat es with rfl | ⟨init, last, rfl⟩
  · simp [onLast, measure_new hfresh hadd]
  · rw [List.concat_eq_append, onLast, List.getLast?_concat]
    by_cases hlast : g.name last = g.key r
    · simp [hlast, hadd last r hlast, Nat.add_assoc]
    · simp [hlast, measure_new hfresh hadd, Nat.add_assoc]

/-- No row is lost and none is added twice. -/
theorem sum_foldl_bySearch (rows : List Row) (es : List Entry) :
    ((rows.foldl g.bySearch es).map measure).sum =
      (es.map measure).sum + (rows.map weight).sum := by
  induction rows generalizing es with
  | nil => rfl
  | cons r rows ih =>
      rw [List.foldl_cons, ih, sum_bySearch hfresh hadd, List.map_cons, List.sum_cons, Nat.add_assoc]

/-- The same, whatever the order of the rows. -/
theorem sum_foldl_onLast (rows : List Row) (es : List Entry) :
    ((rows.foldl g.onLast es).map measure).sum =
      (es.map measure).sum + (rows.map weight).sum := by
  induction rows generalizing es with
  | nil => rfl
  | cons r rows ih =>
      rw [List.foldl_cons, ih, sum_onLast hfresh hadd, List.map_cons, List.sum_cons, Nat.add_assoc]

end Sum

/-! ### Rows in the order of their keys -/

section Sorted

variable {g} {es : List Entry} {e : Entry} {r : Row} {rows : List Row} {le : Key → Key → Prop}

theorem bySearch_append (h : g.key r ∉ es.map g.name) (rest : List Entry) :
    g.bySearch (es ++ rest) r = es ++ g.bySearch rest r := by
  induction es with
  | nil => rfl
  | cons e es ih =>
      simp only [List.map_cons, List.mem_cons, not_or] at h
      rw [List.cons_append, Gather.bySearch, if_neg fun hname => h.1 hname.symm, ih h.2,
        List.cons_append]

/-- A row is found in the last entry or nowhere, if no entry before is of its key. -/
theorem onLast_eq (h : g.key r ∉ es.dropLast.map g.name) : g.onLast es r = g.bySearch es r := by
  rcases List.eq_nil_or_concat es with rfl | ⟨init, last, rfl⟩
  · rfl
  · rw [List.concat_eq_append, List.dropLast_concat] at h
    rw [List.concat_eq_append, bySearch_append h, onLast, List.getLast?_concat]
    by_cases hlast : g.name last = g.key r <;> simp [hlast, Gather.bySearch]

/-- The invariant: the names of the entries, and after them the keys that are to come, are in order. -/
theorem onLast_of_sorted (hanti : ∀ a b, le a b → le b a → a = b) (hnodup : (es.map g.name).Nodup)
    (hsorted : (es.map g.name ++ (r :: rows).map g.key).Pairwise le) :
    g.onLast es r = g.bySearch es r ∧
      ((g.bySearch es r).map g.name ++ rows.map g.key).Pairwise le := by
  constructor
  · apply onLast_eq
    intro hmem
    rcases List.eq_nil_or_concat es with rfl | ⟨init, last, rfl⟩
    · cases hmem
    · -- an entry of the key would come before the last, whose name comes before the key
      rw [List.concat_eq_append, List.dropLast_concat] at hmem
      rw [List.concat_eq_append, List.map_append, List.nodup_append] at hnodup
      rw [List.concat_eq_append, List.map_append, List.pairwise_append, List.pairwise_append]
        at hsorted
      have hlast : g.name last ∈ [last].map g.name := List.mem_cons_self
      have hbefore := hsorted.1.2.2 _ hmem _ hlast
      have hafter := hsorted.2.2 _ (List.mem_append_right _ hlast) (g.key r) List.mem_cons_self
      exact hnodup.2.2 _ hmem _ hlast (hanti _ _ hbefore hafter)
  · rw [names_bySearch]
    split
    · exact hsorted.sublist (List.Sublist.append_left (List.sublist_cons_self _ _) _)
    · rw [List.append_assoc]
      exact hsorted

/-- On rows in the order of their keys the last entry is all that has to be looked at, and the
    entries come in the order of their names. -/
theorem foldl_onLast (hanti : ∀ a b, le a b → le b a → a = b) {rows : List Row}
    {es : List Entry} (hnodup : (es.map g.name).Nodup)
    (hsorted : (es.map g.name ++ rows.map g.key).Pairwise le) :
    rows.foldl g.onLast es = rows.foldl g.bySearch es ∧
      ((rows.foldl g.bySearch es).map g.name).Pairwise le := by
  induction rows generalizing es with
  | nil => exact ⟨rfl, by simpa using hsorted⟩
  | cons r rows ih =>
      obtain ⟨hstep, hrest⟩ := onLast_of_sorted hanti hnodup hsorted
      rw [List.foldl_cons, List.foldl_cons, hstep]
      exact ih (nodup_bySearch hnodup) hrest

theorem gathered_onLast (hanti : ∀ a b, le a b → le b a → a = b)
    (hsorted : (rows.map g.key).Pairwise le) :
    g.Gathered rows (rows.foldl g.onLast []) ∧
      ((rows.foldl g.onLast []).map g.name).Pairwise le := by
  obtain ⟨heq, hnames⟩ := @foldl_onLast _ _ _ _ g le hanti rows [] List.nodup_nil hsorted
  rw [heq]
  exact ⟨gathered_bySearch rows, hnames⟩

end Sorted

end Gather

namespace Grouping

/-! ### Arranging entries by name -/

variable {Name Entry : Type}

/-- Removes an element; the last one takes its place. -/
def swapRemove (es : List Entry) (i : Nat) : List Entry :=
  match es.getLast? with
  | none => []
  | some last => (es.set i last).dropLast

/-- Only the order differs from a removal that keeps it. -/
theorem swapRemove_perm {es : List Entry} {i : Nat} (hi : i < es.length) :
    (swapRemove es i).Perm (es.eraseIdx i) := by
  rcases List.eq_nil_or_concat es with rfl | ⟨init, last, rfl⟩
  · cases hi
  · rw [List.concat_eq_append] at hi ⊢
    rw [List.length_append, List.length_singleton] at hi
    simp only [swapRemove, List.getLast?_concat]
    rcases Nat.lt_succ_iff_lt_or_eq.mp hi with hi | rfl
    · have hset : (init ++ [last]).set i last = init.set i last ++ [last] :=
        List.set_append_left _ _ hi
      rw [hset, List.dropLast_concat, List.eraseIdx_append_of_lt_length hi]
      exact (List.set_perm_cons_eraseIdx hi last).trans (List.perm_append_singleton _ _).symm
    · have hset : (init ++ [last]).set init.length last = init ++ [last] := by simp
      have herase : (init ++ [last]).eraseIdx init.length = init := by
        rw [List.eraseIdx_append_of_length_le le_rfl, Nat.sub_self]
        exact List.append_nil _
      rw [hset, List.dropLast_concat, herase]

variable [DecidableEq Name] (name : Entry → Name) (absent : Name → List Entry)
  (sort : List Entry → List Entry)

/-- Takes the entries of the names in their order out of the list, and sorts what is left. A name
    without an entry may have something in its place. -/
def arrange : List Name → List Entry → List Entry
  | [], rest => sort rest
  | k :: ks, rest =>
      match rest.findIdx? (name · = k) with
      | some i => rest[i]?.toList ++ arrange ks (swapRemove rest i)
      | none => absent k ++ arrange ks rest

variable {name absent sort} {rest rest' : List Entry} {k : Name} {ks : List Name}

/-- What there is of a name in a list. -/
def named (name : Entry → Name) (absent : Name → List Entry) (rest : List Entry) (k : Name) :
    List Entry :=
  match rest.find? (name · = k) with
  | some e => [e]
  | none => absent k

/-- Where names are distinct, the order of the entries makes no difference to what is found. -/
theorem find?_perm (hnodup : (rest.map name).Nodup) (hperm : rest.Perm rest') (k : Name) :
    rest'.find? (name · = k) = rest.find? (name · = k) := by
  cases hfound : rest.find? (name · = k) with
  | none =>
      rw [List.find?_eq_none] at hfound ⊢
      exact fun e he => hfound e (hperm.mem_iff.mpr he)
  | some e =>
      have he := List.mem_of_find?_eq_some hfound
      have hk : name e = k := by simpa using List.find?_some hfound
      apply Table.find?_of_unique (hperm.mem_iff.mp he) (decide_eq_true hk)
      intro other hother hname
      exact List.inj_on_of_nodup_map hnodup (hperm.mem_iff.mpr hother) he
        ((of_decide_eq_true hname).trans hk.symm)

/-- Taking out the entry of a name leaves the entries of the other names. -/
theorem eraseIdx_eq_filter (hnodup : (rest.map name).Nodup) {i : Nat}
    (hi : rest.findIdx? (name · = k) = some i) :
    rest.eraseIdx i = rest.filter (name · ≠ k) := by
  induction rest generalizing i with
  | nil => cases hi
  | cons e rest ih =>
      obtain ⟨hfirst, hrest⟩ := List.nodup_cons.mp hnodup
      rw [List.findIdx?_cons] at hi
      by_cases he : name e = k
      · rw [if_pos (decide_eq_true he)] at hi
        cases hi
        have hall : rest.filter (name · ≠ k) = rest := by
          rw [List.filter_eq_self]
          intro other hother
          exact decide_eq_true fun hname => hfirst (he ▸ hname ▸ List.mem_map_of_mem hother)
        rw [List.eraseIdx_zero, List.tail_cons, List.filter_cons_of_neg (by simpa using he), hall]
      · rw [if_neg (by simpa using he), Option.map_eq_some_iff] at hi
        obtain ⟨j, hj, rfl⟩ := hi
        rw [List.eraseIdx_cons_succ, ih hrest hj, List.filter_cons_of_pos (by simpa using he)]

/-- What is found by position is what there is of the name. -/
theorem named_of_findIdx?_some (hnodup : (rest.map name).Nodup) {i : Nat}
    (hi : rest.findIdx? (name · = k) = some i) :
    rest[i]?.toList = named name absent rest k := by
  obtain ⟨hlt, hname, _⟩ := List.findIdx?_eq_some_iff_getElem.mp hi
  have hfind : rest.find? (name · = k) = some rest[i] :=
    Table.find?_of_unique (List.getElem_mem hlt) hname fun e he he' =>
      List.inj_on_of_nodup_map hnodup he (List.getElem_mem hlt)
        ((of_decide_eq_true he').trans (of_decide_eq_true hname).symm)
  rw [named, hfind, List.getElem?_eq_getElem hlt]
  rfl

theorem named_of_findIdx?_none (hi : rest.findIdx? (name · = k) = none) :
    absent k = named name absent rest k := by
  have hnone : rest.find? (name · = k) = none := by
    rw [List.find?_eq_none]
    intro e he hname
    rw [List.findIdx?_eq_none_iff.mp hi e he] at hname
    cases hname
  rw [named, hnone]

/-- Taking out the entry of a name changes nothing for the other names. -/
theorem flatMap_named_swapRemove (hnodup : (rest.map name).Nodup) (hk : k ∉ ks)
    (hperm : (rest.filter (name · ≠ k)).Perm rest') :
    ks.flatMap (named name absent rest') = ks.flatMap (named name absent rest) := by
  have hsame : ∀ k' ∈ ks, named name absent rest' k' = named name absent rest k' := by
    intro k' hk'
    have hne : k' ≠ k := fun h => hk (h ▸ hk')
    have hfilter : (rest.filter (name · ≠ k)).find? (name · = k') = rest.find? (name · = k') := by
      rw [List.find?_filter]
      congr 1
      funext e
      by_cases he : name e = k' <;> simp [he, hne]
    rw [named, find?_perm (hnodup.sublist (List.filter_sublist.map name)) hperm, hfilter, named]
  rw [List.flatMap_def, List.flatMap_def, List.map_congr_left hsame]

/-- The arranged list: for each name in turn what there is of it, then all other entries, sorted. The
    invariant is that the entries left have distinct names. -/
theorem arrange_spec (hks : ks.Nodup) (hnodup : (rest.map name).Nodup) :
    ∃ others : List Entry, others.Perm (rest.filter (name · ∉ ks)) ∧
      arrange name absent sort ks rest = ks.flatMap (named name absent rest) ++ sort others := by
  induction ks generalizing rest with
  | nil => exact ⟨rest, by simp, rfl⟩
  | cons k ks ih =>
      obtain ⟨hk, hrest⟩ := List.nodup_cons.mp hks
      cases hi : rest.findIdx? (name · = k) with
      | none =>
          obtain ⟨others, hothers, heq⟩ := ih hrest hnodup
          have hnone : ∀ e ∈ rest, name e ≠ k := by
            intro e he
            simpa using List.findIdx?_eq_none_iff.mp hi e he
          refine ⟨others, hothers.trans (List.Perm.of_eq ?_), ?_⟩
          · apply List.filter_congr
            intro e he
            simp [hnone e he]
          · simp only [arrange, hi, heq, List.flatMap_cons, List.append_assoc,
              ← named_of_findIdx?_none hi]
      | some i =>
          have hlt := (List.findIdx?_eq_some_iff_getElem.mp hi).1
          have hperm : (swapRemove rest i).Perm (rest.filter (name · ≠ k)) :=
            eraseIdx_eq_filter hnodup hi ▸ swapRemove_perm hlt
          have hfiltered : ((rest.filter (name · ≠ k)).map name).Nodup :=
            hnodup.sublist (List.filter_sublist.map name)
          obtain ⟨others, hothers, heq⟩ := ih hrest ((hperm.map name).nodup_iff.mpr hfiltered)
          refine ⟨others, hothers.trans ((hperm.filter _).trans (List.Perm.of_eq ?_)), ?_⟩
          · rw [List.filter_filter]
            apply List.filter_congr
            intro e _
            simp [Bool.and_comm]
          · simp only [arrange, hi, heq, List.flatMap_cons, List.append_assoc,
              ← named_of_findIdx?_some hnodup hi, flatMap_named_swapRemove hnodup hk hperm.symm]

/-- Every entry of the arranged list was there or stands for a name that had none. -/
theorem mem_arrange (hks : ks.Nodup) (hnodup : (rest.map name).Nodup)
    (hsort : ∀ es, (sort es).Perm es) {e : Entry} (h : e ∈ arrange name absent sort ks rest) :
    e ∈ rest ∨ ∃ k ∈ ks, k ∉ rest.map name ∧ e ∈ absent k := by
  obtain ⟨others, hothers, heq⟩ := @arrange_spec _ _ _ name absent sort rest ks hks hnodup
  rw [heq] at h
  rcases List.mem_append.mp h with h | h
  · obtain ⟨k, hk, he⟩ := List.mem_flatMap.mp h
    rw [named] at he
    split at he
    · rename_i hfound
      cases List.mem_singleton.mp he
      exact .inl (List.mem_of_find?_eq_some hfound)
    · rename_i hnone
      refine .inr ⟨k, hk, fun hmem => ?_, he⟩
      obtain ⟨other, hother, hname⟩ := List.mem_map.mp hmem
      exact List.find?_eq_none.mp hnone other hother (decide_eq_true hname)
  · exact .inl (List.mem_filter.mp (hothers.mem_iff.mp ((hsort _).mem_iff.mp h))).1

section Names

variable {Name : Type} [LinearOrder Name] {name : Entry → Name} {absent : Name → List Entry}
  {rest others : List Entry} {ks : List Name}

variable (name) in
/-- `entries.sort_by(|a, b| a.name.cmp(&b.name))` -/
def sortByName (es : List Entry) : List Entry :=
  Table.orderBy (fun a b => decide (name a ≤ name b)) es

theorem sortByName_perm (es : List Entry) : (sortByName name es).Perm es :=
  List.perm_insertionSort _ _

/-- Distinct names ascend strictly once they are sorted. -/
theorem sortByName_ascends (h : (others.map name).Nodup) :
    ((sortByName name others).map name).Pairwise (· < ·) := by
  have hsorted : (sortByName name others).Pairwise fun a b => decide (name a ≤ name b) = true :=
    @List.pairwise_insertionSort _ (fun a b => decide (name a ≤ name b) = true) _
      ⟨fun a b => by simpa using le_total (name a) (name b)⟩
      ⟨fun a b c => by simpa using le_trans⟩ others
  have hdistinct : (sortByName name others).Pairwise fun a b => name a ≠ name b :=
    List.pairwise_map.mp (((sortByName_perm others).map name).nodup_iff.mpr h)
  rw [List.pairwise_map]
  exact (hsorted.and hdistinct).imp fun h => lt_of_le_of_ne (of_decide_eq_true h.1) h.2

theorem map_named (k : Name) : (named name absent rest k).map name =
    if k ∈ rest.map name then [k] else (absent k).map name := by
  rw [named]
  split
  · rename_i e hfound
    have he : name e = k := by simpa using List.find?_some hfound
    have hmem : k ∈ rest.map name := he ▸ List.mem_map_of_mem (List.mem_of_find?_eq_some hfound)
    rw [if_pos hmem, List.map_singleton, he]
  · rename_i hnone
    rw [if_neg]
    intro hmem
    obtain ⟨other, hother, hname⟩ := List.mem_map.mp hmem
    exact List.find?_eq_none.mp hnone other hother (decide_eq_true hname)

/-- The names of the arranged list: those asked for, in their order, then the others ascending. -/
theorem names_arrange (hks : ks.Nodup) (hnodup : (rest.map name).Nodup) : ∃ others : List Name,
    (arrange name absent (sortByName name) ks rest).map name =
        ks.flatMap (fun k => if k ∈ rest.map name then [k] else (absent k).map name) ++ others ∧
      others.Pairwise (· < ·) ∧ ∀ k, k ∈ others ↔ k ∈ rest.map name ∧ k ∉ ks := by
  obtain ⟨others, hothers, heq⟩ := @arrange_spec _ _ _ name absent (sortByName name) rest ks hks hnodup
  refine ⟨(sortByName name others).map name, ?_, sortByName_ascends ?_, ?_⟩
  · simp only [heq, List.map_append, List.map_flatMap, map_named]
  · rw [(hothers.map name).nodup_iff]
    exact hnodup.sublist (List.filter_sublist.map name)
  · intro k
    rw [((sortByName_perm others).map name).mem_iff, (hothers.map name).mem_iff]
    simp only [List.mem_map, List.mem_filter, decide_eq_true_eq]
    constructor
    · rintro ⟨e, ⟨he, hnot⟩, rfl⟩
      exact ⟨⟨e, he, rfl⟩, hnot⟩
    · rintro ⟨⟨e, he, rfl⟩, hnot⟩
      exact ⟨e, ⟨he, hnot⟩, rfl⟩

end Names

end Grouping

end FlagForge
