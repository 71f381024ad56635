/-
Module: FlagForge.Lib.Versioned
Layer: Lib
Purpose: Rows under optimistic concurrency. If every single statement either writes the row and moves
  its version up by one, or leaves the row alone, then along a whole lifetime no update is lost:
  versions count the writes, no two writes return one version, and of those that name one version at
  most one succeeds.
Imports: FlagForge.Lib.Trace
Trusted boundary: none
Main exports: VersionedRow, VersionedRow.Lifetime, VersionedRow.KeepsUpdates,
  VersionedRow.Lifetime.keepsUpdates
-/
import FlagForge.Lib.Trace

namespace FlagForge

open Prog (Log)
open Pool (Event Traced)

/-- A row with a version: where the store has it, and which answers are those of successful writes
    of it, with the version they expected and the row they returned. -/
structure VersionedRow (Stmt : Type) (Resp : Stmt → Type) (Db ρ : Type) where
  find : Db → Option ρ
  version : ρ → Int
  write : (s : Stmt) → Resp s → Option (Option Int × ρ)

namespace VersionedRow

variable {Stmt : Type} {Resp : Stmt → Type} {Db Input ρ : Type}
variable (R : VersionedRow Stmt Resp Db ρ) (exec : Input → (s : Stmt) → Db → Resp s × Db)

/-- The expected version and the returned row, if the event is a successful write of the row. -/
def writeOf (e : Event Stmt Db Input) : Option (Option Int × ρ) :=
  R.write e.stmt (e.answer exec)

/-- A statement that finds the row and leaves one: a successful write moves the version up by one,
    from the version it expected, and returns the row; anything else changes no column. -/
def Steady (e : Event Stmt Db Input) : Prop :=
  ∀ old new, R.find e.before = some old → R.find (e.after exec) = some new →
    match R.writeOf exec e with
    | some (expected, row) =>
        row = new ∧ R.version new = R.version old + 1 ∧ ∀ v, expected = some v → R.version old = v
    | none => new = old

/-- A stretch of statements, the newest first, before and after each of which the row is there. -/
inductive Lifetime : List (Event Stmt Db Input) → ρ → ρ → Prop where
  | start (row : ρ) : Lifetime [] row row
  | later {e : Event Stmt Db Input} {life : List (Event Stmt Db Input)} {first old new : ρ}
      (hbefore : R.find e.before = some old) (hafter : R.find (e.after exec) = some new)
      (h : Lifetime life first old) : Lifetime (e :: life) first new

/-- No update is lost in a lifetime of the row. -/
structure KeepsUpdates (life : List (Event Stmt Db Input)) (first last : ρ) : Prop where
  steady : ∀ e ∈ life, R.Steady exec e
  counted : R.version last =
    R.version first + (life.countP fun e => (R.writeOf exec e).isSome : Nat)
  distinct : life.Pairwise fun later earlier => ∀ x y, R.writeOf exec later = some x →
    R.writeOf exec earlier = some y → R.version x.2 ≠ R.version y.2
  once : life.Pairwise fun later earlier => ∀ x y, R.writeOf exec later = some x →
    R.writeOf exec earlier = some y → x.1.isSome → x.1 ≠ y.1

variable {R exec}

/-- A stretch of a run during which the row is there is a lifetime. -/
theorem lifetime_of_alive : ∀ {life : List (Event Stmt Db Input)},
    life.IsChain (fun later earlier => later.before = earlier.after exec) →
    (∀ e ∈ life, (R.find e.before).isSome ∧ (R.find (e.after exec)).isSome) → life ≠ [] →
      ∃ first last, R.Lifetime exec life first last ∧
        ∀ e, life.head? = some e → R.find (e.after exec) = some last
  | [], _, _, hne => absurd rfl hne
  | [e], _, halive, _ => by
      obtain ⟨hbefore, hafter⟩ := halive e List.mem_cons_self
      obtain ⟨old, hold⟩ := Option.isSome_iff_exists.mp hbefore
      obtain ⟨new, hnew⟩ := Option.isSome_iff_exists.mp hafter
      refine ⟨old, new, .later hold hnew (.start old), ?_⟩
      intro e' he'
      cases he'
      exact hnew
  | e :: earlier :: life, hchain, halive, _ => by
      rw [List.isChain_cons_cons] at hchain
      obtain ⟨first, old, hlife, hlast⟩ := lifetime_of_alive hchain.2
        (fun e he => halive e (List.mem_cons_of_mem _ he)) (by simp)
      obtain ⟨new, hnew⟩ := Option.isSome_iff_exists.mp (halive e List.mem_cons_self).2
      have hold : R.find e.before = some old := by
        rw [hchain.1]
        exact hlast earlier rfl
      refine ⟨first, new, .later hold hnew hlife, ?_⟩
      intro e' he'
      cases he'
      exact hnew

/-- Writes return versions above the first one and up to the last one, each just above the version it
    expected. -/
theorem Lifetime.bounds {life : List (Event Stmt Db Input)} {first last : ρ}
    (h : R.Lifetime exec life first last) (hsteady : ∀ e ∈ life, R.Steady exec e) :
    R.version first ≤ R.version last ∧ ∀ e ∈ life, ∀ x, R.writeOf exec e = some x →
      R.version x.2 ≤ R.version last ∧ ∀ v, x.1 = some v → R.version x.2 = v + 1 := by
  induction h with
  | start row => exact ⟨Int.le_refl _, fun e he => by cases he⟩
  | @later e life first old new hbefore hafter _ ih =>
      obtain ⟨hfirst, hwrites⟩ := ih fun e he => hsteady e (List.mem_cons_of_mem _ he)
      have hstep := hsteady e List.mem_cons_self old new hbefore hafter
      have hle : R.version old ≤ R.version new := by
        cases hwrite : R.writeOf exec e with
        | none =>
            rw [hwrite] at hstep
            exact Int.le_of_eq (congrArg _ hstep.symm)
        | some x =>
            rw [hwrite] at hstep
            have := hstep.2.1
            omega
      refine ⟨Int.le_trans hfirst hle, ?_⟩
      intro e' he' x hx
      rcases List.mem_cons.mp he' with rfl | he'
      · rw [hx] at hstep
        obtain ⟨hrow, hversion, hexpected⟩ := hstep
        refine ⟨Int.le_of_eq (congrArg _ hrow), fun v hv => ?_⟩
        rw [hrow, hversion, hexpected v hv]
      · obtain ⟨hup, hnext⟩ := hwrites e' he' x hx
        exact ⟨Int.le_trans hup hle, hnext⟩

/-- If every statement is steady, no update is lost. -/
theorem Lifetime.keepsUpdates {life : List (Event Stmt Db Input)} {first last : ρ}
    (h : R.Lifetime exec life first last) (hsteady : ∀ e ∈ life, R.Steady exec e) :
    R.KeepsUpdates exec life first last := by
  induction h with
  | start row => exact ⟨hsteady, by simp, .nil, .nil⟩
  | @later e life first old new hbefore hafter hlife ih =>
      have hsteady' : ∀ e ∈ life, R.Steady exec e :=
        fun e he => hsteady e (List.mem_cons_of_mem _ he)
      have ih := ih hsteady'
      obtain ⟨_, hwrites⟩ := hlife.bounds hsteady'
      have hstep := hsteady e List.mem_cons_self old new hbefore hafter
      constructor
      · exact hsteady
      · cases hwrite : R.writeOf exec e with
        | none =>
            rw [hwrite] at hstep
            rw [hstep, ih.counted, List.countP_cons_of_neg (by simp [hwrite])]
        | some x =>
            rw [hwrite] at hstep
            rw [hstep.2.1, ih.counted, List.countP_cons_of_pos (by simp [hwrite])]
            omega
      · refine .cons (fun e' he' x y hx hy heq => ?_) ih.distinct
        rw [hx] at hstep
        obtain ⟨hrow, hversion, _⟩ := hstep
        have hle := (hwrites e' he' y hy).1
        rw [← heq, hrow, hversion] at hle
        omega
      · refine .cons (fun e' he' x y hx hy hnamed heq => ?_) ih.once
        obtain ⟨v, hv⟩ := Option.isSome_iff_exists.mp hnamed
        rw [hx] at hstep
        have hold := hstep.2.2 v hv
        obtain ⟨hle, hnext⟩ := hwrites e' he' y hy
        have := hnext v (heq ▸ hv)
        omega

end VersionedRow

end FlagForge
