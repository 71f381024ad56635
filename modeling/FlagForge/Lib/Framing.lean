/-
Module: FlagForge.Lib.Framing
Layer: Lib
Purpose: Lists written one behind another, each behind a header of fixed width that says how long
  it is. What was written is read back in one way only.
Imports: Mathlib.Data.List.Basic
Trusted boundary: none
Main exports: Framing.frames, Framing.Header, Framing.frames_injective
-/
import Mathlib.Data.List.Basic

namespace FlagForge.Framing

variable {α : Type*}

/-- Every part behind the header of its length. -/
def frames (header : Nat → List α) (parts : List (List α)) : List α :=
  parts.flatMap fun part => header part.length ++ part

/-- Headers of one positive width that tell the lengths below a bound apart. -/
structure Header (header : Nat → List α) (width bound : Nat) : Prop where
  positive : 0 < width
  length : ∀ n, (header n).length = width
  injective : ∀ m < bound, ∀ n < bound, header m = header n → m = n

variable {header : Nat → List α} {width bound : Nat}

/-- The first part of what was framed can be told from the rest. -/
theorem frames_cons_injective (h : Header header width bound) {part part' : List α}
    {parts parts' : List (List α)} (hpart : part.length < bound) (hpart' : part'.length < bound)
    (heq : frames header (part :: parts) = frames header (part' :: parts')) :
    part = part' ∧ frames header parts = frames header parts' := by
  simp only [frames, List.flatMap_cons, List.append_assoc] at heq
  have hheaders := List.append_inj heq (by rw [h.length, h.length])
  have hlength : part.length = part'.length := h.injective _ hpart _ hpart' hheaders.1
  exact List.append_inj hheaders.2 hlength

theorem frames_cons_ne_nil (h : Header header width bound) (part : List α)
    (parts : List (List α)) : frames header (part :: parts) ≠ [] := by
  intro hnil
  have hlength := congrArg List.length hnil
  have hpositive := h.positive
  simp only [frames, List.flatMap_cons, List.length_append, h.length, List.length_nil] at hlength
  omega

/-- What was framed determines the parts. -/
theorem frames_injective (h : Header header width bound) {parts parts' : List (List α)}
    (hparts : ∀ part ∈ parts, part.length < bound)
    (hparts' : ∀ part ∈ parts', part.length < bound)
    (heq : frames header parts = frames header parts') : parts = parts' := by
  induction parts generalizing parts' with
  | nil =>
      cases parts' with
      | nil => rfl
      | cons part' parts' => exact absurd heq.symm (frames_cons_ne_nil h part' parts')
  | cons part parts ih =>
      cases parts' with
      | nil => exact absurd heq (frames_cons_ne_nil h part parts)
      | cons part' parts' =>
          rw [List.forall_mem_cons] at hparts hparts'
          have hsplit := frames_cons_injective h hparts.1 hparts'.1 heq
          rw [hsplit.1, ih hparts.2 hparts'.2 hsplit.2]

end FlagForge.Framing
