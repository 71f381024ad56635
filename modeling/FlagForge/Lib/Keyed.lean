/-
Module: FlagForge.Lib.Keyed
Layer: Lib
Purpose: A service that keeps a cell for each key. An input reads and writes the cell of its own key
  only, so what it is answered does not depend on inputs of other keys.
Imports: Mathlib.Logic.Function.Basic
Trusted boundary: none
Main exports: Keyed.serve, Keyed.watched, Keyed.watched_filter
-/
import Mathlib.Logic.Function.Basic

namespace FlagForge.Keyed

variable {Key Cell Input Out : Type*} [DecidableEq Key]
variable (key : Input → Key) (touch : Input → Option Cell → Out × Cell)

/-- One input is served from the cell of its key. -/
def serve (cells : Key → Option Cell) (input : Input) : Out × (Key → Option Cell) :=
  let touched := touch input (cells (key input))
  (touched.1, Function.update cells (key input) (some touched.2))

variable (mine : Input → Bool)

/-- The answers to the inputs one watches, in a run that has others too. -/
def watched : (Key → Option Cell) → List Input → List Out
  | _, [] => []
  | cells, input :: run =>
      let served := serve key touch cells input
      if mine input then served.1 :: watched served.2 run else watched served.2 run

variable {key touch mine}

/-- The invariant is that the two runs agree on the cells of the inputs watched that are to come. -/
theorem watched_congr {run : List Input} {cells cells' : Key → Option Cell}
    (hsame : ∀ input ∈ run, mine input = true → cells (key input) = cells' (key input))
    (hapart : ∀ input ∈ run, ∀ other ∈ run, mine input = true → mine other = false →
      key other ≠ key input) :
    watched key touch mine cells run = watched key touch mine cells' (run.filter mine) := by
  induction run generalizing cells cells' with
  | nil => rfl
  | cons input run ih =>
      have hrest : ∀ later ∈ run, ∀ other ∈ run, mine later = true → mine other = false →
          key other ≠ key later := fun later hlater other hother =>
        hapart later (List.mem_cons_of_mem _ hlater) other (List.mem_cons_of_mem _ hother)
      cases hmine : mine input with
      | true =>
          have hcell := hsame input List.mem_cons_self hmine
          have htail := @ih (serve key touch cells input).2 (serve key touch cells' input).2 ?_ hrest
          · simp only [List.filter_cons, hmine, if_true, watched, htail]
            simp only [serve, hcell]
          · intro later hlater hm
            simp only [serve, hcell, Function.update_apply]
            rw [hsame later (List.mem_cons_of_mem _ hlater) hm]
      | false =>
          have htail := @ih (serve key touch cells input).2 cells' ?_ hrest
          · simp only [List.filter_cons, hmine, watched, htail, Bool.false_eq_true, if_false]
          · intro later hlater hm
            have hne := hapart later (List.mem_cons_of_mem _ hlater) input List.mem_cons_self hm hmine
            simp only [serve, Function.update_apply, if_neg hne.symm]
            exact hsame later (List.mem_cons_of_mem _ hlater) hm

/-- Inputs with keys of their own change no answer. -/
theorem watched_filter {run : List Input} (cells : Key → Option Cell)
    (hapart : ∀ input ∈ run, ∀ other ∈ run, mine input = true → mine other = false →
      key other ≠ key input) :
    watched key touch mine cells run = watched key touch mine cells (run.filter mine) :=
  watched_congr (fun _ _ _ => rfl) hapart

end FlagForge.Keyed
