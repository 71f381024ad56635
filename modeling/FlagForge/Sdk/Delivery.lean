/-
Module: FlagForge.Sdk.Delivery
Layer: Sdk
Purpose: One client and the ingest endpoint. Evaluations and conversions make their record calls one
  by one, any number of flushes are under way, and a post can be lost, applied, or arrive after the
  client has given it up. The books say what has happened so far.
Imports: FlagForge.Sdk.Recorder, FlagForge.Lib.Machine
Trusted boundary: the transport delivers a request at most once
Main exports: Flush, Books, State, Move, step, Settled, Balanced, balanced_step, events_conserved,
  counted_le_recorded
-/
import FlagForge.Sdk.Recorder
import FlagForge.Lib.Machine

namespace FlagForge.Sdk.Delivery

open Counters (CountMap tally total)
open Machine (Trace)
open Engine (Evaluation)

variable {Time : Type}

/-- The server refuses batches above this; the flusher chunks to it. -/
def maxEventsPerBatch : Nat := 1000

def u32Max : Nat := 2 ^ 32 - 1

/-- The events of a post; counts saturate. -/
def payload (left : List (Cell × Nat)) : List (Cell × Nat) :=
  (left.take maxEventsPerBatch).map fun e => (e.1, min e.2 u32Max)

/-- How far a flush is with its chunk. -/
inductive Sending where
  | ready
  /-- The request is on its way. -/
  | posted
  /-- The server has added the events, and the answer is on its way. -/
  | applied
  /-- The server has not added the events and will not. -/
  | lost
deriving DecidableEq

/-- A running `flush_events`: the cells from the chunk it is at. -/
structure Flush where
  left : List (Cell × Nat)
  sending : Sending

/-- What has happened so far. -/
structure Books where
  /-- The record calls. -/
  recorded : List Cell
  /-- The events that the server has applied. -/
  delivered : List (Cell × Nat)
  /-- Those of them whose experiment was running, so that they were added to its counters. -/
  counted : List (Cell × Nat)
  /-- What the cap has refused. -/
  dropped : List (Cell × Nat)
  /-- The drops that drains have reported. -/
  reported : Nat

structure State (Time : Type) where
  current : Option (EnvironmentSnapshot Time)
  /-- The record calls that running evaluations and conversions are still to make. -/
  calls : List (List Cell)
  recorder : Recorder
  flushes : List Flush
  /-- Requests on their way that the client has given up. -/
  late : List (List (Cell × Nat))
  books : Books

/-- A client that nothing has happened to. -/
def State.new : State Time :=
  ⟨none, [], .new, [], [], ⟨[], [], [], [], 0⟩⟩

/-- The server applies a request, `running` telling the experiments that are running. -/
def Books.apply (running : String → Bool) (events : List (Cell × Nat)) (books : Books) : Books :=
  { books with
    delivered := books.delivered ++ events
    counted := books.counted ++ events.filter fun e => running e.1.experimentKey }

inductive Move (Time : Type) where
  /-- A refresh stores a snapshot. -/
  | load (snapshot : EnvironmentSnapshot Time)
  | evaluate (flag : String) (context : EvaluationContext) (fallback : VariantValue)
  | track (metric : String) (context : EvaluationContext)
  /-- A running evaluation or conversion makes its next record call. -/
  | record (i : Nat)
  /-- `flush_events` drains the recorder; the map gives up its cells in some order. -/
  | flush (cells : List (Cell × Nat))
  | post (i : Nat)
  /-- The request of a flush arrives. -/
  | apply (i : Nat) (running : String → Bool)
  /-- The request of a flush is lost or refused. -/
  | lose (i : Nat)
  /-- The flush gets its answer and goes on to the next chunk. -/
  | succeed (i : Nat)
  /-- The post ends in an error for the client, which restores its cells in some order. -/
  | fail (i : Nat) (cells : List (Cell × Nat))
  /-- A request that the client has given up arrives. -/
  | arrive (k : Nat) (running : String → Bool)

def step (crates : Crates) : Move Time → State Time → Option (State Time)
  | .load snapshot, s => some { s with current := some snapshot }
  | .evaluate flag context fallback, s =>
      some { s with
        calls := s.calls ++ [(Sdk.evaluate crates s.current flag context fallback).2] }
  | .track metric context, s =>
      some { s with calls := s.calls ++ [(Sdk.track crates s.current metric context).2] }
  | .record i, s =>
      match s.calls[i]? with
      | some (cell :: rest) => some { s with
          calls := s.calls.set i rest
          recorder := s.recorder.record cell
          books := { s.books with
            recorded := cell :: s.books.recorded
            dropped := s.recorder.refused cell 1 ++ s.books.dropped } }
      | _ => none
  | .flush cells, s =>
      let drained := s.recorder.drain
      if cells.Perm drained.1.1 then
        some { s with
          recorder := drained.2
          flushes := if cells.isEmpty then s.flushes else s.flushes ++ [⟨cells, .ready⟩]
          books := { s.books with reported := s.books.reported + drained.1.2 } }
      else none
  | .post i, s =>
      match s.flushes[i]? with
      | some ⟨left, .ready⟩ => some { s with flushes := s.flushes.set i ⟨left, .posted⟩ }
      | _ => none
  | .apply i running, s =>
      match s.flushes[i]? with
      | some ⟨left, .posted⟩ => some { s with
          flushes := s.flushes.set i ⟨left, .applied⟩
          books := s.books.apply running (payload left) }
      | _ => none
  | .lose i, s =>
      match s.flushes[i]? with
      | some ⟨left, .posted⟩ => some { s with flushes := s.flushes.set i ⟨left, .lost⟩ }
      | _ => none
  | .succeed i, s =>
      match s.flushes[i]? with
      | some ⟨left, .applied⟩ =>
          let rest := left.drop maxEventsPerBatch
          some { s with
            flushes := if rest.isEmpty then s.flushes.eraseIdx i
              else s.flushes.set i ⟨rest, .ready⟩ }
      | _ => none
  | .fail i cells, s =>
      match s.flushes[i]? with
      | some ⟨left, sending⟩ =>
          if sending ≠ .ready ∧ cells.Perm left then
            some { s with
              recorder := s.recorder.restore cells
              flushes := s.flushes.eraseIdx i
              late := if sending = .posted then s.late ++ [payload left] else s.late
              books := { s.books with
                dropped := Recorder.refusals cells s.recorder ++ s.books.dropped } }
          else none
      | none => none
  | .arrive k running, s =>
      match s.late[k]? with
      | some events => some { s with
          late := s.late.eraseIdx k
          books := s.books.apply running events }
      | none => none

/-- A post that ends in an error was not applied and will not be. -/
def Settled (s : State Time) : Move Time → Prop
  | .fail i _ => ∀ flush, s.flushes[i]? = some flush → flush.sending = .lost
  | _ => True

instance {s : State Time} {m : Move Time} : Decidable (Settled s m) :=
  match m with
  | .fail i _ =>
      match hflush : s.flushes[i]? with
      | some flush => decidable_of_iff (flush.sending = .lost) (by simp [Settled, hflush])
      | none => isTrue (by simp [Settled, hflush])
  | .load _ | .evaluate .. | .track .. | .record _ | .flush _ | .post _ | .apply .. | .lose _
  | .succeed _ | .arrive .. => isTrue trivial

/-- No count that is flushed is above what an event can carry. -/
def Carried : Move Time → Prop
  | .flush cells => ∀ e ∈ cells, e.2 ≤ u32Max
  | _ => True

instance {m : Move Time} : Decidable (Carried m) :=
  match m with
  | .flush cells => inferInstanceAs (Decidable (∀ e ∈ cells, e.2 ≤ u32Max))
  | .load _ | .evaluate .. | .track .. | .record _ | .post _ | .apply .. | .lose _ | .succeed _
  | .fail .. | .arrive .. => isTrue trivial

/-! ### Conservation -/

/-- What a flush has drained and the server has not applied. -/
def Flush.undelivered (f : Flush) : List (Cell × Nat) :=
  match f.sending with
  | .applied => f.left.drop maxEventsPerBatch
  | _ => f.left

/-- What the running flushes have drained and the server has not applied. -/
def State.underWay (s : State Time) : List (Cell × Nat) :=
  s.flushes.flatMap Flush.undelivered

/-- Where the record calls of a cell have gone. -/
def State.accounted (cell : Cell) (s : State Time) : Nat :=
  tally cell s.books.delivered + tally cell s.underWay + s.recorder.counts.count cell +
    tally cell s.books.dropped

/-- The books balance; where no count has been cut (`exact`), and no sum overflows, to the last
    event. -/
structure Balanced (exact : Prop) (s : State Time) : Prop where
  noneLate : s.late = []
  capped : s.recorder.counts.size ≤ maxCells
  within : ∀ cell, s.accounted cell ≤ s.books.recorded.count cell
  conserved : exact → ∀ cell, s.books.recorded.count cell < 2 ^ 64 →
    s.accounted cell = s.books.recorded.count cell
  drops : total s.books.dropped < 2 ^ 64 →
    s.books.reported + s.recorder.dropped = total s.books.dropped
  carried : exact → ∀ f ∈ s.flushes, ∀ e ∈ f.left, e.2 ≤ u32Max
  subset : s.books.counted.Sublist s.books.delivered

section Step

variable {crates : Crates} {exact : Prop} {s s' : State Time} {cell : Cell}

theorem balanced_new : Balanced exact (State.new : State Time) where
  noneLate := rfl
  capped := Nat.zero_le _
  within cell := Nat.le_refl _
  conserved _ cell _ := rfl
  drops _ := rfl
  carried _ f hf := by cases hf
  subset := List.Sublist.refl _

/-- What is under way, around one flush. -/
theorem tally_underWay {flushes before after : List Flush} {f : Flush}
    (h : flushes = before ++ f :: after) : tally cell (flushes.flatMap Flush.undelivered) =
      tally cell ((before ++ after).flatMap Flush.undelivered) + tally cell f.undelivered := by
  rw [h]
  simp only [List.flatMap_append, List.flatMap_cons, Counters.tally_append]
  omega

/-- What a post carries of its chunk, and what stays for later. -/
theorem payload_le {left : List (Cell × Nat)} :
    tally cell (payload left) + tally cell (left.drop maxEventsPerBatch) ≤ tally cell left := by
  have hcut : tally cell (payload left) ≤ tally cell (left.take maxEventsPerBatch) :=
    Counters.tally_map_le (f := fun n => min n u32Max) fun e _ => Nat.min_le_left _ _
  have hsplit := @Counters.tally_take_drop _ _ cell left maxEventsPerBatch
  omega

theorem payload_eq {left : List (Cell × Nat)} (h : ∀ e ∈ left, e.2 ≤ u32Max) :
    tally cell (payload left) + tally cell (left.drop maxEventsPerBatch) = tally cell left := by
  have hsame : payload left = left.take maxEventsPerBatch := by
    rw [payload]
    conv_rhs => rw [← List.map_id (left.take maxEventsPerBatch)]
    apply List.map_congr_left
    intro e he
    rw [Nat.min_eq_left (h e (List.mem_of_mem_take he))]
    rfl
  rw [hsame, Counters.tally_take_drop]

/-- A step that keeps the books and the recorder and what is under way keeps the balance. -/
theorem Balanced.congr (h : Balanced exact s) (hlate : s'.late = s.late)
    (hrecorder : s'.recorder = s.recorder) (hbooks : s'.books = s.books)
    (hunderWay : ∀ cell, tally cell s'.underWay = tally cell s.underWay)
    (hleft : ∀ f ∈ s'.flushes, ∀ e ∈ f.left, ∃ f' ∈ s.flushes, e ∈ f'.left) :
    Balanced exact s' := by
  have haccounted : ∀ cell, s'.accounted cell = s.accounted cell := by
    intro cell
    rw [State.accounted, State.accounted, hbooks, hrecorder, hunderWay]
  constructor
  case noneLate => exact hlate.trans h.noneLate
  case capped => exact hrecorder ▸ h.capped
  case within =>
    intro cell
    rw [haccounted, hbooks]
    exact h.within cell
  case conserved =>
    intro hexact cell hbound
    rw [haccounted, hbooks]
    rw [hbooks] at hbound
    exact h.conserved hexact cell hbound
  case drops =>
    rw [hbooks, hrecorder]
    exact h.drops
  case carried =>
    intro hexact f hf e he
    obtain ⟨f', hf', he'⟩ := hleft f hf e he
    exact h.carried hexact f' hf' e he'
  case subset => exact hbooks ▸ h.subset

theorem balanced_record {i : Nat} (h : step crates (.record i) s = some s')
    (hs : Balanced exact s) : Balanced exact s' := by
  rw [step] at h
  split at h
  · rename_i recorded rest hcalls
    cases h
    -- the call is in the recorder or among the drops
    have hput : ∀ cell, s.recorder.counts.count cell + tally cell [(recorded, 1)] < 2 ^ 64 →
        (s.recorder.record recorded).counts.count cell + tally cell (s.recorder.refused recorded 1) =
          s.recorder.counts.count cell + tally cell [(recorded, 1)] :=
      fun cell => Recorder.count_put.2
    have hput' : ∀ cell, (s.recorder.record recorded).counts.count cell +
        tally cell (s.recorder.refused recorded 1) ≤
          s.recorder.counts.count cell + tally cell [(recorded, 1)] :=
      fun cell => Recorder.count_put.1
    have hcall : ∀ cell, tally cell [(recorded, 1)] = if recorded = cell then 1 else 0 := by
      intro cell
      simp
    have hrecorded : ∀ cell, (recorded :: s.books.recorded).count cell =
        s.books.recorded.count cell + if recorded = cell then 1 else 0 := by
      intro cell
      rw [List.count_cons]
      simp only [beq_iff_eq]
    constructor
    case noneLate => exact hs.noneLate
    case capped => exact Recorder.size_put hs.capped
    case within =>
      intro cell
      have hbefore := hs.within cell
      have hstep := hput' cell
      rw [hcall] at hstep
      rw [State.accounted] at hbefore ⊢
      simp only [State.underWay, hrecorded, Counters.tally_append] at hbefore ⊢
      omega
    case conserved =>
      intro hexact cell hbound
      simp only [hrecorded] at hbound
      have hbefore := hs.conserved hexact cell (by omega)
      have hstep := hput cell
      rw [hcall] at hstep
      rw [State.accounted] at hbefore ⊢
      simp only [State.underWay, hrecorded, Counters.tally_append] at hbefore ⊢
      have heq := hstep (by omega)
      omega
    case drops =>
      intro hbound
      simp only [Counters.total_append] at hbound ⊢
      have hbefore := hs.drops (by omega)
      have hstep : (s.recorder.record recorded).dropped =
          s.recorder.dropped + total (s.recorder.refused recorded 1) :=
        Recorder.dropped_put.2 (by omega)
      omega
    case carried => exact hs.carried
    case subset => exact hs.subset
  · cases h

theorem balanced_flush {cells : List (Cell × Nat)} (hcarried : exact → ∀ e ∈ cells, e.2 ≤ u32Max)
    (h : step crates (.flush cells) s = some s') (hs : Balanced exact s) : Balanced exact s' := by
  by_cases hperm : cells.Perm s.recorder.drain.1.1
  · simp only [step, if_pos hperm] at h
    cases h
    have hdrained : ∀ cell, tally cell cells = s.recorder.counts.count cell :=
      fun cell => Counters.tally_perm hperm
    -- an empty flush has nothing under way
    have hunderWay : ∀ cell, tally cell ((if cells.isEmpty then s.flushes
        else s.flushes ++ [⟨cells, .ready⟩]).flatMap Flush.undelivered) =
          tally cell s.underWay + tally cell cells := by
      intro cell
      by_cases hempty : cells = []
      · simp [hempty, State.underWay]
      · simp [hempty, State.underWay, Flush.undelivered]
    have haccounted : ∀ cell, tally cell s.books.delivered + (tally cell s.underWay +
        tally cell cells) + s.recorder.drain.2.counts.count cell + tally cell s.books.dropped =
          s.accounted cell := by
      intro cell
      have hnone : s.recorder.drain.2.counts.count cell = 0 := rfl
      rw [State.accounted, hdrained, hnone]
      omega
    constructor
    case noneLate => exact hs.noneLate
    case capped => exact Nat.zero_le _
    case within =>
      intro cell
      simp only [State.accounted, State.underWay]
      rw [hunderWay, haccounted]
      exact hs.within cell
    case conserved =>
      intro hexact cell hbound
      simp only [State.accounted, State.underWay]
      rw [hunderWay, haccounted]
      exact hs.conserved hexact cell hbound
    case drops =>
      intro hbound
      have hbefore := hs.drops hbound
      have hreported : s.recorder.drain.1.2 = s.recorder.dropped := rfl
      have hnone : s.recorder.drain.2.dropped = 0 := rfl
      simp only [hreported, hnone, Nat.add_zero]
      exact hbefore
    case carried =>
      intro hexact f hf e he
      simp only at hf
      split at hf
      · exact hs.carried hexact f hf e he
      · rcases List.mem_append.mp hf with hf | hf
        · exact hs.carried hexact f hf e he
        · cases List.mem_singleton.mp hf
          exact hcarried hexact e he
    case subset => exact hs.subset
  · simp only [step, if_neg hperm, reduceCtorEq] at h

theorem balanced_apply {i : Nat} {running : String → Bool}
    (h : step crates (.apply i running) s = some s') (hs : Balanced exact s) :
    Balanced exact s' := by
  rw [step] at h
  split at h
  · rename_i left hflush
    cases h
    obtain ⟨before, after, hflushes, _, hset⟩ := Machine.exists_around hflush
    have hmem : (⟨left, .posted⟩ : Flush) ∈ s.flushes := List.mem_of_getElem? hflush
    have hbefore : ∀ cell, tally cell s.underWay =
        tally cell ((before ++ after).flatMap Flush.undelivered) + tally cell left :=
      fun cell => tally_underWay hflushes
    have hafter : ∀ cell, tally cell ((s.flushes.set i ⟨left, .applied⟩).flatMap
        Flush.undelivered) = tally cell ((before ++ after).flatMap Flush.undelivered) +
          tally cell (left.drop maxEventsPerBatch) := by
      intro cell
      exact tally_underWay (hset _)
    constructor
    case noneLate => exact hs.noneLate
    case capped => exact hs.capped
    case within =>
      intro cell
      have hwithin := hs.within cell
      have hpayload := @payload_le cell left
      simp only [State.accounted, State.underWay, Books.apply, Counters.tally_append, hafter]
      rw [State.accounted, hbefore] at hwithin
      omega
    case conserved =>
      intro hexact cell hbound
      have hconserved := hs.conserved hexact cell hbound
      have hpayload := @payload_eq cell left (hs.carried hexact _ hmem)
      simp only [State.accounted, State.underWay, Books.apply, Counters.tally_append, hafter]
      rw [State.accounted, hbefore] at hconserved
      omega
    case drops => exact hs.drops
    case carried =>
      intro hexact f hf e he
      rcases List.mem_or_eq_of_mem_set hf with hf | rfl
      · exact hs.carried hexact f hf e he
      · exact hs.carried hexact _ hmem e he
    case subset => exact hs.subset.append List.filter_sublist
  · cases h

theorem balanced_succeed {i : Nat} (h : step crates (.succeed i) s = some s')
    (hs : Balanced exact s) : Balanced exact s' := by
  rw [step] at h
  split at h
  · rename_i left hflush
    obtain ⟨before, after, hflushes, herase, hset⟩ := Machine.exists_around hflush
    have hmem : (⟨left, .applied⟩ : Flush) ∈ s.flushes := List.mem_of_getElem? hflush
    have hbefore : ∀ cell, tally cell s.underWay =
        tally cell ((before ++ after).flatMap Flush.undelivered) +
          tally cell (left.drop maxEventsPerBatch) :=
      fun cell => tally_underWay hflushes
    by_cases hrest : left.drop maxEventsPerBatch = []
    · simp only [hrest, List.isEmpty_nil, if_true, Option.some.injEq] at h
      subst h
      apply hs.congr
      · rfl
      · rfl
      · rfl
      · intro cell
        rw [hbefore, State.underWay, herase, hrest]
        rfl
      · exact fun f hf e he => ⟨f, List.mem_of_mem_eraseIdx hf, he⟩
    · simp only [List.isEmpty_iff, hrest, if_false, Option.some.injEq] at h
      subst h
      apply hs.congr
      · rfl
      · rfl
      · rfl
      · intro cell
        rw [hbefore]
        exact tally_underWay (hset _)
      · intro f hf e he
        rcases List.mem_or_eq_of_mem_set hf with hf | rfl
        · exact ⟨f, hf, he⟩
        · exact ⟨_, hmem, List.mem_of_mem_drop he⟩
  · cases h

/-- A post that is settled puts its cells back, and drops what the cap refuses. -/
theorem balanced_fail {i : Nat} {cells : List (Cell × Nat)}
    (hsettled : Settled s (Move.fail i cells)) (h : step crates (.fail i cells) s = some s')
    (hs : Balanced exact s) : Balanced exact s' := by
  rw [step] at h
  split at h
  · rename_i left sending hflush
    obtain rfl : sending = .lost := hsettled _ hflush
    split at h
    · rename_i hperm
      cases h
      obtain ⟨before, after, hflushes, herase, _⟩ := Machine.exists_around hflush
      have hbefore : ∀ cell, tally cell s.underWay =
          tally cell ((before ++ after).flatMap Flush.undelivered) + tally cell cells := by
        intro cell
        rw [Counters.tally_perm hperm.2]
        exact tally_underWay hflushes
      constructor
      case noneLate => exact hs.noneLate
      case capped => exact Recorder.size_restore hs.capped
      case within =>
        intro cell
        have hwithin := hs.within cell
        have hrestore := (@Recorder.count_restore s.recorder cell cells).1
        simp only [State.accounted, State.underWay, Counters.tally_append, herase]
        rw [State.accounted, hbefore] at hwithin
        omega
      case conserved =>
        intro hexact cell hbound
        have hconserved := hs.conserved hexact cell hbound
        simp only [State.accounted, State.underWay, Counters.tally_append, herase]
        rw [State.accounted, hbefore] at hconserved
        have hrestore := (@Recorder.count_restore s.recorder cell cells).2 (by
          simp only at hbound
          omega)
        omega
      case drops =>
        intro hbound
        simp only [Counters.total_append] at hbound ⊢
        have hdrops := hs.drops (by omega)
        have hrestore := (@Recorder.dropped_restore s.recorder cells).2 (by omega)
        omega
      case carried =>
        exact fun hexact f hf => hs.carried hexact f (List.mem_of_mem_eraseIdx hf)
      case subset => exact hs.subset
    · cases h
  · cases h

/-- Every move whose post, if it fails one, is settled keeps the balance. -/
theorem balanced_step {m : Move Time} (hsettled : Settled s m) (hcarried : exact → Carried m)
    (h : step crates m s = some s') (hs : Balanced exact s) : Balanced exact s' := by
  have hsame : ∀ {i : Nat} {left : List (Cell × Nat)} {sending : Sending},
      s.flushes[i]? = some ⟨left, sending⟩ → sending ≠ .applied → ∀ sending' ≠ .applied,
        Balanced exact { s with flushes := s.flushes.set i ⟨left, sending'⟩ } := by
    intro i left sending hflush hsending sending' hsending'
    obtain ⟨before, after, hflushes, _, hset⟩ := Machine.exists_around hflush
    have hall : ∀ sending ≠ Sending.applied, (⟨left, sending⟩ : Flush).undelivered = left := by
      intro sending hne
      cases sending with
      | applied => exact absurd rfl hne
      | _ => rfl
    apply hs.congr
    · rfl
    · rfl
    · rfl
    · intro cell
      rw [State.underWay, State.underWay, tally_underWay hflushes, tally_underWay (hset _),
        hall _ hsending, hall _ hsending']
    · intro f hf e he
      rcases List.mem_or_eq_of_mem_set hf with hf | rfl
      · exact ⟨f, hf, he⟩
      · exact ⟨_, List.mem_of_getElem? hflush, he⟩
  cases m with
  | load | evaluate | track =>
      cases h
      exact hs.congr rfl rfl rfl (fun _ => rfl) fun f hf e he => ⟨f, hf, he⟩
  | record i => exact balanced_record h hs
  | flush cells => exact balanced_flush hcarried h hs
  | post i =>
      rw [step] at h
      split at h
      · rename_i hflush
        cases h
        exact hsame hflush (by decide) _ (by decide)
      · cases h
  | apply i running => exact balanced_apply h hs
  | lose i =>
      rw [step] at h
      split at h
      · rename_i hflush
        cases h
        exact hsame hflush (by decide) _ (by decide)
      · cases h
  | succeed i => exact balanced_succeed h hs
  | fail i cells => exact balanced_fail hsettled h hs
  | arrive k running =>
      rw [step, hs.noneLate] at h
      cases h

end Step

/-! ### Record calls -/

/-- The record calls that a move must lead to: one exposure for every running experiment on the flag
    whose evaluation resolved a variant; one conversion for every running experiment that measures the
    metric, on the variant that its flag serves to the context. -/
def expected (crates : Crates) (s : State Time) : Move Time → List Cell
  | .evaluate flag context fallback => s.current.elim [] fun snapshot =>
      (snapshot.evaluate crates flag context fallback).variant.elim [] fun variant =>
        (snapshot.experiments.filter (·.flagKey = flag)).map fun x => ⟨x.key, variant, .exposure⟩
  | .track metric context => s.current.elim [] fun snapshot =>
      (snapshot.experiments.filter (·.metricKey = metric)).filterMap fun x =>
        (snapshot.evaluate crates x.flagKey context .null).variant.map fun variant =>
          ⟨x.key, variant, .conversion⟩
  | _ => []

section Run

variable {crates : Crates} {history : List (State Time × Move Time)} {s s' : State Time}

/-- A move adds the calls that it leads to, and makes at most one. -/
theorem called_step {m : Move Time} (h : step crates m s = some s') (cell : Cell) :
    s'.books.recorded.count cell + s'.calls.flatten.count cell =
      s.books.recorded.count cell + s.calls.flatten.count cell +
        (expected crates s m).count cell := by
  cases m with
  | evaluate flag context fallback =>
      cases h
      have hcalls : (Sdk.evaluate crates s.current flag context fallback).2 =
          expected crates s (.evaluate flag context fallback) := by
        rw [expected]
        cases s.current with
        | none => rfl
        | some snapshot => exact evaluate_records
      simp only [List.flatten_append, List.flatten_singleton, List.count_append, hcalls]
      omega
  | track metric context =>
      cases h
      have hcalls : (Sdk.track crates s.current metric context).2 =
          expected crates s (.track metric context) := by
        rw [expected]
        cases s.current with
        | none => rfl
        | some snapshot => exact track_records
      simp only [List.flatten_append, List.flatten_singleton, List.count_append, hcalls]
      omega
  | record i =>
      rw [step] at h
      split at h
      · rename_i recorded rest hcall
        cases h
        obtain ⟨before, after, hcalls, _, hset⟩ := Machine.exists_around hcall
        simp only [hset, expected, List.count_nil]
        rw [hcalls]
        simp only [List.flatten_append, List.flatten_cons, List.count_append, List.count_cons]
        omega
      · cases h
  | load =>
      cases h
      rfl
  | flush cells =>
      by_cases hperm : cells.Perm s.recorder.drain.1.1
      · simp only [step, if_pos hperm] at h
        cases h
        rfl
      · simp only [step, if_neg hperm, reduceCtorEq] at h
  | post | apply | lose | succeed | arrive =>
      rw [step] at h
      split at h
      · cases h
        rfl
      · cases h
  | fail i cells =>
      rw [step] at h
      split at h
      · split at h
        · cases h
          rfl
        · cases h
      · cases h

/-- Every call that evaluations and conversions lead to is made once, or is still to be made. -/
theorem called (h : Trace (step crates) State.new history s) (cell : Cell) :
    s.books.recorded.count cell + s.calls.flatten.count cell =
      (history.flatMap fun e => expected crates e.1 e.2).count cell := by
  induction h with
  | start => rfl
  | move _ hmove ih =>
      rw [called_step hmove, ih, List.flatMap_cons, List.count_append, Nat.add_comm]

/-- Every run whose posts are either applied and answered, or not applied and end in an error, keeps
    every event: what was recorded is delivered, under way, pending or dropped by the cap, the drops
    are reported or still to be reported, and the map keeps its cells up to the cap. -/
theorem events_conserved (h : Trace (step crates) State.new history s)
    (hsettled : ∀ e ∈ history, Settled e.1 e.2 ∧ Carried e.2)
    (hrecorded : ∀ cell, s.books.recorded.count cell < 2 ^ 64)
    (hdropped : total s.books.dropped < 2 ^ 64) :
    (∀ cell, s.books.recorded.count cell = tally cell s.books.delivered +
      tally cell s.underWay + s.recorder.counts.count cell + tally cell s.books.dropped) ∧
    total s.books.dropped = s.books.reported + s.recorder.dropped ∧
    s.recorder.counts.size ≤ maxCells ∧
    (∀ cell n, s.recorder.counts.contains cell = true → s.recorder.refused cell n = []) ∧
    ∀ cell, s.books.recorded.count cell + s.calls.flatten.count cell =
      (history.flatMap fun e => expected crates e.1 e.2).count cell := by
  have hkeep : ∀ (s : State Time) (m : Move Time) (s' : State Time), Settled s m ∧ Carried m →
      step crates m s = some s' → Balanced True s → Balanced True s' :=
    fun _ _ _ hm hstep hs => balanced_step hm.1 (fun _ => hm.2) hstep hs
  have hbalanced := (h.invariant hkeep hsettled balanced_new).2
  refine ⟨?_, (hbalanced.drops hdropped).symm, hbalanced.capped, ?_, called h⟩
  · exact fun cell => (hbalanced.conserved trivial cell (hrecorded cell)).symm
  · exact fun cell n hthere => Recorder.refused_of_contains hthere

/-- In every run in which no post that ends in an error has been applied or will be, the server has
    counted no more than the client has recorded. -/
theorem counted_le_recorded (h : Trace (step crates) State.new history s)
    (hsettled : ∀ e ∈ history, Settled e.1 e.2) (cell : Cell) :
    tally cell s.books.counted ≤ s.books.recorded.count cell := by
  have hkeep : ∀ (s : State Time) (m : Move Time) (s' : State Time), Settled s m →
      step crates m s = some s' → Balanced False s → Balanced False s' :=
    fun _ _ _ hm hstep hs => balanced_step hm (fun hfalse => hfalse.elim) hstep hs
  have hbalanced := (h.invariant hkeep hsettled balanced_new).2
  calc tally cell s.books.counted
      ≤ tally cell s.books.delivered := Counters.tally_sublist hbalanced.subset
    _ ≤ s.accounted cell := by
        rw [State.accounted]
        omega
    _ ≤ s.books.recorded.count cell := hbalanced.within cell

end Run

/-! ### A lost answer -/

namespace Checkout

def snapshot : EnvironmentSnapshot Nat :=
  (EnvironmentSnapshot.new .nil "live" "" [⟨"checkout", [⟨"on", .bool true⟩, ⟨"off", .bool false⟩],
    true, "off", .fixed "on", [], 1⟩] [] 0).withExperiments
      [⟨"trial", "checkout", "sales", "off", 2⟩]

def context : EvaluationContext := ⟨"user-1", ∅⟩

def exposure : Cell := ⟨"trial", "on", .exposure⟩

/-- One evaluation, whose exposure is flushed. -/
def flushed : List (Move Nat) :=
  [.load snapshot, .evaluate "checkout" context .null, .record 0, .flush [(exposure, 1)], .post 0]

/-- The request is lost, and the second flush gets through. -/
def retried : List (Move Nat) :=
  flushed ++ [.lose 0, .fail 0 [(exposure, 1)], .flush [(exposure, 1)], .post 0,
    .apply 0 fun _ => true, .succeed 0]

/-- The answer is lost, and the second flush delivers the exposure once more. -/
def repeated : List (Move Nat) :=
  flushed ++ [.apply 0 fun _ => true, .fail 0 [(exposure, 1)], .flush [(exposure, 1)], .post 0,
    .apply 0 fun _ => true, .succeed 0]

/-- What has been recorded, counted and dropped at the end. -/
def outcome (s : State Nat) : List Cell × List (Cell × Nat) × List (Cell × Nat) :=
  (s.books.recorded, s.books.counted, s.books.dropped)

end Checkout

/-- The run in which the request is lost keeps its one exposure. -/
theorem events_conserved_retried : ∃ s : State Nat,
    (Machine.follow (step .plain) Checkout.retried .new).map Checkout.outcome =
      some (Checkout.outcome s) ∧
    s.books.recorded.count Checkout.exposure = tally Checkout.exposure s.books.delivered +
      tally Checkout.exposure s.underWay + s.recorder.counts.count Checkout.exposure +
        tally Checkout.exposure s.books.dropped := by
  have hrun : (Machine.follow (Machine.guarded (fun s m => Settled s m ∧ Carried m) (step .plain))
      Checkout.retried .new).map Checkout.outcome =
        some ([Checkout.exposure], [(Checkout.exposure, 1)], []) := by decide
  obtain ⟨s, hs, houtcome⟩ := Option.map_eq_some_iff.mp hrun
  obtain ⟨history, htrace, hsettled⟩ := Machine.trace_of_guarded hs
  have hrecorded : s.books.recorded = [Checkout.exposure] := congrArg Prod.fst houtcome
  have hdropped : s.books.dropped = [] := congrArg (fun o => o.2.2) houtcome
  refine ⟨s, ?_, (events_conserved htrace hsettled ?_ ?_).1 Checkout.exposure⟩
  · rw [houtcome]
    decide
  · intro cell
    rw [hrecorded]
    exact Nat.lt_of_le_of_lt List.count_le_length (by decide)
  · rw [hdropped]
    decide

/-- The server counts the exposure twice that was recorded once. -/
theorem repeated_counts_twice : ∃ (history : List (State Nat × Move Nat)) (s : State Nat),
    Trace (step .plain) .new history s ∧ history.map Prod.snd = Checkout.repeated.reverse ∧
      s.books.recorded.count Checkout.exposure < tally Checkout.exposure s.books.counted := by
  have hrun : (Machine.follow (step .plain) Checkout.repeated .new).map Checkout.outcome =
      some ([Checkout.exposure], [(Checkout.exposure, 1), (Checkout.exposure, 1)], []) := by decide
  obtain ⟨s, hs, houtcome⟩ := Option.map_eq_some_iff.mp hrun
  obtain ⟨history, htrace, hmoves⟩ := Machine.trace_of_follow hs
  have hrecorded : s.books.recorded = [Checkout.exposure] := congrArg Prod.fst houtcome
  have hcounted : s.books.counted = [(Checkout.exposure, 1), (Checkout.exposure, 1)] :=
    congrArg (fun o => o.2.1) houtcome
  refine ⟨history, s, htrace, hmoves, ?_⟩
  rw [hrecorded, hcounted]
  decide

/-- Where the request is lost, the retry counts it once. -/
theorem counted_le_recorded_retried : ∃ s : State Nat,
    s.books.counted = [(Checkout.exposure, 1)] ∧
      tally Checkout.exposure s.books.counted ≤ s.books.recorded.count Checkout.exposure := by
  have hrun : (Machine.follow (Machine.guarded Settled (step .plain)) Checkout.retried .new).map
      Checkout.outcome = some ([Checkout.exposure], [(Checkout.exposure, 1)], []) := by decide
  obtain ⟨s, hs, houtcome⟩ := Option.map_eq_some_iff.mp hrun
  obtain ⟨history, htrace, hsettled⟩ := Machine.trace_of_guarded hs
  exact ⟨s, congrArg (fun o => o.2.1) houtcome,
    counted_le_recorded htrace hsettled Checkout.exposure⟩

end FlagForge.Sdk.Delivery
