/-
Module: FlagForge.Lib.Footprint
Layer: Lib
Purpose: Values that look at a few cells of a store only; which ones they are may depend on the store.
  Between two moments of a run such a value changes only where a statement changes one of its cells.
Imports: FlagForge.Lib.Trace, Mathlib.Data.Set.Basic
Trusted boundary: none
Main exports: Footprint.Agree, Footprint.Reads, Footprint.changed_within
-/
import FlagForge.Lib.Trace
import Mathlib.Data.Set.Basic

namespace FlagForge.Footprint

section

variable {Db Cell β : Type} {Value : Cell → Type} (read : (c : Cell) → Db → Value c)

/-- The cells hold the same in both stores. -/
def Agree (cells : Set Cell) (db db' : Db) : Prop :=
  ∀ c ∈ cells, read c db' = read c db

/-- `f` looks at the cells of `cells db` only, in the stores that are `good`. -/
def Reads (good : Db → Prop) (cells : Db → Set Cell) (f : Db → β) : Prop :=
  ∀ db db', good db → good db' → Agree read (cells db) db db' → f db' = f db

end

section Runs

open Pool (Event Traced)

variable {Stmt : Type} {Resp : Stmt → Type} {α Db Input Cell β : Type} {Value : Cell → Type}
variable {exec : Input → (s : Stmt) → Db → Resp s × Db} {initial : Db}
variable {origins : List (Prog Stmt Resp α)} {events : List (Event Stmt Db Input)}
variable {pool : Pool Stmt Resp α Db} {read : (c : Cell) → Db → Value c}

/-- A value that is another one later was changed through one of the cells it looked at, by a statement
    in between. -/
theorem changed_within {good : Db → Prop} {cells : Db → Set Cell} {f : Db → β}
    (hreads : Reads read good cells f) (h : Traced exec initial origins events pool)
    {later earlier : List (Event Stmt Db Input)} {e : Event Stmt Db Input}
    (hevents : events = later ++ e :: earlier)
    (hgood : ∀ e' ∈ later ++ [e], good e'.before ∧ good (e'.after exec))
    (hchanged : f pool.db ≠ f e.before) :
    ∃ e' ∈ later ++ [e], ∃ c ∈ cells e'.before, read c (e'.after exec) ≠ read c e'.before := by
  by_contra hnone
  apply hchanged
  refine h.since (I := fun db => f db = f e.before) hevents rfl fun e' he' hsame => ?_
  have hagree : Agree read (cells e'.before) e'.before (e'.after exec) := by
    intro c hc
    by_contra hne
    exact hnone ⟨e', he', c, hc, hne⟩
  rw [hreads _ _ (hgood e' he').1 (hgood e' he').2 hagree]
  exact hsame

end Runs

end FlagForge.Footprint
