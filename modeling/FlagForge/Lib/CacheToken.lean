/-
Module: FlagForge.Lib.CacheToken
Layer: Lib
Purpose: The highest of many positive counters as a cache token. It moves up exactly when some
  counter gets above all that were there; and where every change of the content moves it up, equal
  tokens stand for equal contents.
Imports: Mathlib.Logic.Relation, Mathlib.Order.Basic
Trusted boundary: none
Main exports: IsHighest, IsHighest.lt_iff, isHighest_max?, content_eq_of_token_eq
-/
import Mathlib.Logic.Relation
import Mathlib.Order.Basic

namespace FlagForge.CacheToken

/-! ### The highest counter -/

/-- `v` is the highest of the counters, or zero if there are none. -/
structure IsHighest (v : Int64) (counters : List Int64) : Prop where
  lt : ∀ x, 0 < x → (v < x ↔ ∀ u ∈ counters, u < x)
  mem : v = 0 ∨ v ∈ counters

theorem max_eq_or (a b : Int64) : max a b = a ∨ max a b = b := by
  have hmax : max a b = if a ≤ b then b else a := rfl
  rw [hmax]
  split
  · exact .inr rfl
  · exact .inl rfl

theorem max_lt_iff {a b x : Int64} : max a b < x ↔ a < x ∧ b < x := by
  have hmax : max a b = if a ≤ b then b else a := rfl
  rw [hmax]
  simp only [Int64.lt_iff_toInt_lt]
  split
  · rename_i hle
    rw [Int64.le_iff_toInt_le] at hle
    omega
  · rename_i hle
    rw [Int64.le_iff_toInt_le] at hle
    omega

theorem foldl_max_lt_iff {x : Int64} : ∀ {counters : List Int64} {a : Int64},
    counters.foldl max a < x ↔ a < x ∧ ∀ u ∈ counters, u < x
  | [], a => by simp
  | b :: counters, a => by
      rw [List.foldl_cons, foldl_max_lt_iff, max_lt_iff, List.forall_mem_cons, and_assoc]

/-- The maximum is one of the counters. -/
theorem foldl_max_mem : ∀ {counters : List Int64} {a : Int64},
    counters.foldl max a ∈ a :: counters
  | [], _ => List.mem_cons_self
  | b :: counters, a => by
      rw [List.foldl_cons]
      rcases List.mem_cons.mp (@foldl_max_mem counters (max a b)) with h | h
      · rw [h]
        rcases max_eq_or a b with h | h
        · rw [h]
          exact List.mem_cons_self
        · rw [h]
          exact List.mem_cons_of_mem _ List.mem_cons_self
      · exact List.mem_cons_of_mem _ (List.mem_cons_of_mem _ h)

/-- The maximum, or zero. -/
theorem isHighest_max? (counters : List Int64) : IsHighest (counters.max?.getD 0) counters := by
  cases counters with
  | nil => exact ⟨fun x hx => by simpa using hx, .inl rfl⟩
  | cons a counters =>
      refine ⟨fun x _ => ?_, .inr foldl_max_mem⟩
      rw [List.forall_mem_cons]
      exact foldl_max_lt_iff

namespace IsHighest

variable {v v' : Int64} {counters counters' : List Int64}

/-- Only which counters there are matters. -/
theorem congr (h : IsHighest v counters) (hmem : ∀ u, u ∈ counters ↔ u ∈ counters') :
    IsHighest v counters' where
  lt x hx := by simpa only [hmem] using h.lt x hx
  mem := by simpa only [hmem] using h.mem

/-- The highest of more counters is that of the new ones and the highest of the old. -/
theorem append (h : IsHighest v counters) (h' : IsHighest v' (counters' ++ [v])) :
    IsHighest v' (counters' ++ counters) where
  lt x hx := by
    rw [h'.lt x hx, List.forall_mem_append, List.forall_mem_append, List.forall_mem_singleton,
      h.lt x hx]
  mem := by
    rcases h'.mem with h' | h'
    · exact .inl h'
    · rcases List.mem_append.mp h' with h' | h'
      · exact .inr (List.mem_append_left _ h')
      · cases List.mem_singleton.mp h'
        exact h.mem.imp id (List.mem_append_right _)

/-- The highest counter moves up exactly when some counter is above all that were there. -/
theorem lt_iff (h : IsHighest v counters) (h' : IsHighest v' counters')
    (hpos : ∀ u ∈ counters, 0 < u) (hpos' : ∀ u ∈ counters', 0 < u) :
    v < v' ↔ ∃ u ∈ counters', ∀ w ∈ counters, w < u := by
  constructor
  · intro hlt
    rcases h'.mem with hzero | hmem
    · exfalso
      rw [hzero, Int64.lt_iff_toInt_lt] at hlt
      rcases h.mem with hv | hv
      · rw [hv] at hlt
        omega
      · have hv := Int64.lt_iff_toInt_lt.mp (hpos v hv)
        omega
    · exact ⟨v', hmem, (h.lt v' (hpos' v' hmem)).mp hlt⟩
  · rintro ⟨u, hu, habove⟩
    have hlt := (h.lt u (hpos' u hu)).mpr habove
    have hle : ¬ v' < u := fun hbelow =>
      Int64.lt_irrefl ((h'.lt u (hpos' u hu)).mp hbelow u hu)
    rw [Int64.lt_iff_toInt_lt] at hlt hle ⊢
    omega

end IsHighest

/-! ### Tokens -/

section Tokens

variable {S C T : Type} [Preorder T] {step : S → S → Prop} {content : S → C} {token : C → T}

/-- Along a run, the content stays or the token moves up. -/
theorem content_eq_or_token_lt
    (hstep : ∀ s s', step s s' → content s' = content s ∨ token (content s) < token (content s'))
    {s s' : S} (h : Relation.ReflTransGen step s s') :
    content s' = content s ∨ token (content s) < token (content s') := by
  induction h with
  | refl => exact .inl rfl
  | tail _ hlast ih =>
      rcases hstep _ _ hlast with heq | hlt
      · rw [heq]
        exact ih
      · rcases ih with heq | hlt'
        · exact .inr (heq ▸ hlt)
        · exact .inr (hlt'.trans hlt)

/-- Equal tokens stand for equal contents. -/
theorem content_eq_of_token_eq
    (hstep : ∀ s s', step s s' → content s' = content s ∨ token (content s) < token (content s'))
    {s s' : S} (h : Relation.ReflTransGen step s s')
    (htoken : token (content s) = token (content s')) : content s' = content s :=
  (content_eq_or_token_lt hstep h).resolve_right fun hlt => hlt.ne htoken

end Tokens

end FlagForge.CacheToken
