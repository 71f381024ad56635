/-
Module: FlagForge.Lib.Machine
Layer: Lib
Purpose: Machines that move by choice, and their runs with the history of the moves. An invariant that
  the allowed moves keep holds along every run of allowed moves; a property that a move keeps exactly
  when it is allowed holds along a run exactly when every move of it is.
Imports: none
Trusted boundary: none
Main exports: Machine.Trace, Machine.follow, Machine.record, Trace.invariant, Trace.holds_iff,
  trace_of_follow, trace_of_guarded, Trace.of_record, exists_around
-/

namespace FlagForge.Machine

variable {S M : Type}

/-- A run: every move with the state it found, the newest first. -/
inductive Trace (step : M → S → Option S) (start : S) : List (S × M) → S → Prop where
  | start : Trace step start [] start
  | move {history : List (S × M)} {s s' : S} {m : M} (h : Trace step start history s)
      (hstep : step m s = some s') : Trace step start ((s, m) :: history) s'

/-- Taking moves in turn. -/
def follow (step : M → S → Option S) : List M → S → Option S
  | [], s => some s
  | m :: moves, s => (step m s).bind (follow step moves)

variable {step : M → S → Option S} {start s : S} {history : List (S × M)}

namespace Trace

/-- What allowed moves keep holds all along a run of allowed moves. -/
theorem invariant {I : S → Prop} {ok : S → M → Prop}
    (hstep : ∀ s m s', ok s m → step m s = some s' → I s → I s')
    (h : Trace step start history s) (hok : ∀ e ∈ history, ok e.1 e.2) (hstart : I start) :
    (∀ e ∈ history, I e.1) ∧ I s := by
  induction h with
  | start =>
      refine ⟨?_, hstart⟩
      intro e he
      cases he
  | move h hmove ih =>
      obtain ⟨hearlier, hbefore⟩ := ih fun e he => hok e (List.mem_cons_of_mem _ he)
      rw [List.forall_mem_cons]
      exact ⟨⟨hbefore, hearlier⟩, hstep _ _ _ (hok _ List.mem_cons_self) hmove hbefore⟩

/-- A property that a move keeps exactly when it is allowed. -/
theorem holds_iff {P : S → Prop} {ok : S → M → Prop}
    (hstep : ∀ s m s', step m s = some s' → P s → (P s' ↔ ok s m))
    (h : Trace step start history s) (hstart : P start) :
    ((∀ e ∈ history, P e.1) ∧ P s) ↔ ∀ e ∈ history, ok e.1 e.2 := by
  induction h with
  | start =>
      constructor
      · intro _ e he
        cases he
      · intro _
        refine ⟨?_, hstart⟩
        intro e he
        cases he
  | move h hmove ih =>
      rw [List.forall_mem_cons, List.forall_mem_cons, ← ih]
      constructor
      · intro hall
        obtain ⟨⟨hbefore, hearlier⟩, hafter⟩ := hall
        exact ⟨(hstep _ _ _ hmove hbefore).mp hafter, hearlier, hbefore⟩
      · intro hall
        obtain ⟨hallowed, hearlier, hbefore⟩ := hall
        exact ⟨⟨hbefore, hearlier⟩, (hstep _ _ _ hmove hbefore).mpr hallowed⟩

/-- A run goes on. -/
theorem append {s' : S} {later : List (S × M)} (h : Trace step start history s)
    (hlater : Trace step s later s') : Trace step start (later ++ history) s' := by
  induction hlater with
  | start => exact h
  | move _ hmove ih => exact .move ih hmove

end Trace

/-- What a schedule leads to is reached by a run of its moves. -/
theorem trace_of_follow : ∀ {moves : List M} {s s' : S}, follow step moves s = some s' →
    ∃ history, Trace step s history s' ∧ history.map Prod.snd = moves.reverse
  | [], s, s', h => by
      cases h
      exact ⟨[], .start, rfl⟩
  | m :: moves, s, s', h => by
      obtain ⟨mid, hmove, hrest⟩ := Option.bind_eq_some_iff.mp h
      obtain ⟨history, htrace, hmoves⟩ := trace_of_follow hrest
      refine ⟨history ++ [(s, m)], Trace.append (.move .start hmove) htrace, ?_⟩
      rw [List.map_append, hmoves, List.reverse_cons]
      rfl

/-- The machine that makes allowed moves only. -/
def guarded (ok : S → M → Prop) [∀ s m, Decidable (ok s m)] (step : M → S → Option S) (m : M)
    (s : S) : Option S :=
  if ok s m then step m s else none

/-- A run of the guarded machine is a run of allowed moves. -/
theorem Trace.of_guarded {ok : S → M → Prop} [∀ s m, Decidable (ok s m)]
    (h : Trace (guarded ok step) start history s) :
    Trace step start history s ∧ ∀ e ∈ history, ok e.1 e.2 := by
  induction h with
  | start =>
      refine ⟨.start, ?_⟩
      intro e he
      cases he
  | move _ hmove ih =>
      rw [guarded] at hmove
      split at hmove
      · rename_i hok
        exact ⟨.move ih.1 hmove, List.forall_mem_cons.mpr ⟨hok, ih.2⟩⟩
      · cases hmove

/-- What the guarded machine follows is a run whose moves all pass the guard. -/
theorem trace_of_guarded {ok : S → M → Prop} [∀ s m, Decidable (ok s m)] {moves : List M} {s' : S}
    (h : follow (guarded ok step) moves s = some s') :
    ∃ history, Trace step s history s' ∧ ∀ e ∈ history, ok e.1 e.2 := by
  obtain ⟨history, htrace, _⟩ := trace_of_follow h
  exact ⟨history, htrace.of_guarded⟩

/-- Taking moves in turn behind a history, and the history with them. -/
def record (step : M → S → Option S) :
    List M → List (S × M) × S → Option (List (S × M) × S)
  | [], run => some run
  | m :: moves, (history, s) => (step m s).bind fun s' => record step moves ((s, m) :: history, s')

/-- What is recorded is a run. -/
theorem Trace.of_record : ∀ {moves : List M} {s : S} {history : List (S × M)} {run : List (S × M) × S},
    Trace step start history s → record step moves (history, s) = some run →
      Trace step start run.1 run.2
  | [], _, _, _, htrace, h => by
      cases h
      exact htrace
  | m :: moves, s, history, run, htrace, h => by
      obtain ⟨s', hmove, hrest⟩ := Option.bind_eq_some_iff.mp h
      exact (htrace.move hmove).of_record hrest

/-! ### Machines of several parties -/

variable {P : Type}

/-- An element and what is around it. -/
theorem exists_around : ∀ {i : Nat} {parties : List P} {party : P}, parties[i]? = some party →
    ∃ before after, parties = before ++ party :: after ∧ parties.eraseIdx i = before ++ after ∧
      ∀ party', parties.set i party' = before ++ party' :: after
  | 0, party :: after, _, h => by
      cases h
      exact ⟨[], after, rfl, rfl, fun _ => rfl⟩
  | i + 1, first :: rest, party, h => by
      have hrest : rest[i]? = some party := h
      obtain ⟨before, after, hrest, herase, hset⟩ := exists_around hrest
      exact ⟨first :: before, after, by rw [hrest]; rfl, by rw [List.eraseIdx_cons_succ, herase]; rfl,
        fun party' => by rw [List.set_cons_succ, hset]; rfl⟩

end FlagForge.Machine
