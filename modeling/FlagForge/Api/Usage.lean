/-
Module: FlagForge.Api.Usage
Layer: Api
Purpose: Throttling the writes of `last_used_at`. The tracker remembers for each key the instant it
  last let through; requests read the clock before they take the entry, so instants arrive in any
  order.
Imports: FlagForge.Lib.Keyed, FlagForge.Core.Value, Mathlib.Data.List.Induction
Trusted boundary: none
Main exports: UsageTracker, UsageTracker.shouldRecordAt, UsageTracker.recorded, usage_throttled
-/
import Mathlib.Data.List.Induction
import FlagForge.Lib.Keyed
import FlagForge.Core.Value

namespace FlagForge.Api

/-- An instant, in nanoseconds from one no reading of the clock precedes. The difference of two is
    zero when it would go backwards, as is that of `Nat`. -/
abbrev Instant := Nat

/-- Remembers which keys have had their usage written recently. -/
structure UsageTracker where
  lastWritten : Uuid → Option Instant
  interval : Nat

/-- A call of `should_record_at`. -/
structure UsageCall where
  keyId : Uuid
  now : Instant
deriving DecidableEq

namespace UsageTracker

def new (interval : Nat) : UsageTracker where
  lastWritten _ := none
  interval := interval

/-- The tracker with an instant remembered for a key. -/
def claim (tracker : UsageTracker) (keyId : Uuid) (now : Instant) : UsageTracker :=
  { tracker with lastWritten := Function.update tracker.lastWritten keyId (some now) }

/-- Whether this key's usage is worth writing now. Claims the slot as a side effect. -/
def shouldRecordAt (tracker : UsageTracker) (keyId : Uuid) (now : Instant) : Bool × UsageTracker :=
  match tracker.lastWritten keyId with
  -- the first time this process has seen the key
  | none => (true, tracker.claim keyId now)
  | some last =>
      if now - last < tracker.interval then (false, tracker) else (true, tracker.claim keyId now)

/-- Whether a call is let through by a tracker. -/
def answer (tracker : UsageTracker) (call : UsageCall) : Bool :=
  (tracker.shouldRecordAt call.keyId call.now).1

/-- The tracker after some calls, in their order. -/
def after (tracker : UsageTracker) (calls : List UsageCall) : UsageTracker :=
  calls.foldl (fun tracker call => (tracker.shouldRecordAt call.keyId call.now).2) tracker

/-- The answers to the calls for a key, among others. -/
def answersFor (keyId : Uuid) : UsageTracker → List UsageCall → List Bool
  | _, [] => []
  | tracker, call :: calls =>
      let rest := answersFor keyId (tracker.shouldRecordAt call.keyId call.now).2 calls
      if call.keyId = keyId then tracker.answer call :: rest else rest

/-- The instants of the calls for a key that were let through. -/
def recorded (keyId : Uuid) : UsageTracker → List UsageCall → List Instant
  | _, [] => []
  | tracker, call :: calls =>
      let rest := recorded keyId (tracker.shouldRecordAt call.keyId call.now).2 calls
      if call.keyId = keyId ∧ tracker.answer call = true then call.now :: rest else rest

/-! ### What a call does -/

variable {tracker : UsageTracker} {keyId other : Uuid} {now : Instant}

/-- A call is let through and remembered, or its key was let through too recently. -/
theorem shouldRecordAt_cases (tracker : UsageTracker) (keyId : Uuid) (now : Instant) :
    ((∀ last, tracker.lastWritten keyId = some last → tracker.interval ≤ now - last) ∧
      tracker.shouldRecordAt keyId now = (true, tracker.claim keyId now)) ∨
    (∃ last, tracker.lastWritten keyId = some last ∧ now - last < tracker.interval ∧
      tracker.shouldRecordAt keyId now = (false, tracker)) := by
  unfold shouldRecordAt
  cases hlast : tracker.lastWritten keyId with
  | none =>
      refine .inl ⟨?_, rfl⟩
      intro last h
      cases h
  | some last =>
      by_cases hrecent : now - last < tracker.interval
      · exact .inr ⟨last, rfl, hrecent, if_pos hrecent⟩
      · refine .inl ⟨?_, if_neg hrecent⟩
        intro last' h
        cases h
        exact not_lt.mp hrecent

/-- A call is answered with yes if its key was not written within the interval. -/
theorem answer_eq_true_iff {call : UsageCall} : tracker.answer call = true ↔
    ∀ last, tracker.lastWritten call.keyId = some last → tracker.interval ≤ call.now - last := by
  rcases shouldRecordAt_cases tracker call.keyId call.now with ⟨hdue, heq⟩ | ⟨last, hlast, hlt, heq⟩
  · simpa only [answer, heq, true_iff] using hdue
  · simp only [answer, heq, Bool.false_eq_true, false_iff, not_forall, not_le]
    exact ⟨last, hlast, hlt⟩

/-- A claim writes its own key down. -/
@[simp] theorem lastWritten_claim : (tracker.claim keyId now).lastWritten keyId = some now := by
  simp [claim]

/-- And no other. -/
theorem lastWritten_claim_of_ne (h : other ≠ keyId) :
    (tracker.claim keyId now).lastWritten other = tracker.lastWritten other :=
  Function.update_of_ne h _ _

@[simp] theorem interval_new (interval : Nat) : (new interval).interval = interval := rfl

@[simp] theorem interval_claim : (tracker.claim keyId now).interval = tracker.interval := rfl

@[simp] theorem interval_shouldRecordAt :
    (tracker.shouldRecordAt keyId now).2.interval = tracker.interval := by
  rcases shouldRecordAt_cases tracker keyId now with ⟨_, heq⟩ | ⟨_, _, _, heq⟩ <;> rw [heq]
  rfl

/-- A call leaves the other keys as they were. -/
theorem lastWritten_shouldRecordAt_of_ne (h : other ≠ keyId) :
    (tracker.shouldRecordAt keyId now).2.lastWritten other = tracker.lastWritten other := by
  rcases shouldRecordAt_cases tracker keyId now with ⟨_, heq⟩ | ⟨_, _, _, heq⟩ <;> rw [heq]
  exact lastWritten_claim_of_ne h

/-- With a positive interval no call moves an instant back. -/
theorem exists_lastWritten_shouldRecordAt (hpos : 0 < tracker.interval) {last : Instant}
    (h : tracker.lastWritten other = some last) :
    ∃ later, (tracker.shouldRecordAt keyId now).2.lastWritten other = some later ∧
      last ≤ later := by
  by_cases hkey : other = keyId
  · subst hkey
    rcases shouldRecordAt_cases tracker other now with ⟨hdue, heq⟩ | ⟨_, _, _, heq⟩
    · have hwait := hdue last h
      rw [heq]
      exact ⟨now, lastWritten_claim, (Nat.lt_of_sub_pos (hpos.trans_le hwait)).le⟩
    · rw [heq]
      exact ⟨last, h, le_rfl⟩
  · rw [lastWritten_shouldRecordAt_of_ne hkey]
    exact ⟨last, h, le_rfl⟩

/-! ### Runs of calls -/

@[simp] theorem interval_after (calls : List UsageCall) :
    (tracker.after calls).interval = tracker.interval := by
  induction calls generalizing tracker with
  | nil => rfl
  | cons call calls ih => exact ih.trans interval_shouldRecordAt

theorem after_append (before calls : List UsageCall) :
    tracker.after (before ++ calls) = (tracker.after before).after calls :=
  List.foldl_append

/-- A key that was once written stays written, never earlier. -/
theorem exists_lastWritten_after (hpos : 0 < tracker.interval) {last : Instant}
    (calls : List UsageCall) (h : tracker.lastWritten keyId = some last) :
    ∃ later, (tracker.after calls).lastWritten keyId = some later ∧ last ≤ later := by
  induction calls generalizing tracker last with
  | nil => exact ⟨last, h, le_rfl⟩
  | cons call calls ih =>
      obtain ⟨mid, hmid, hle⟩ : ∃ mid,
          (tracker.shouldRecordAt call.keyId call.now).2.lastWritten keyId = some mid ∧ last ≤ mid :=
        exists_lastWritten_shouldRecordAt hpos h
      obtain ⟨later, hlater, hle'⟩ := ih (by rwa [interval_shouldRecordAt]) hmid
      exact ⟨later, hlater, hle.trans hle'⟩

/-- A key that was not called for has not been seen. -/
theorem lastWritten_after_of_forall_ne {calls : List UsageCall}
    (h : ∀ call ∈ calls, call.keyId ≠ keyId) :
    (tracker.after calls).lastWritten keyId = tracker.lastWritten keyId := by
  induction calls generalizing tracker with
  | nil => rfl
  | cons call calls ih =>
      refine (ih fun later hlater => h later (List.mem_cons_of_mem _ hlater)).trans ?_
      exact lastWritten_shouldRecordAt_of_ne (h call List.mem_cons_self).symm

/-- What is remembered of a key is the instant it was last let through at. -/
theorem lastWritten_after (tracker : UsageTracker) (keyId : Uuid) (calls : List UsageCall) :
    (tracker.after calls).lastWritten keyId =
      ((tracker.lastWritten keyId).toList ++ recorded keyId tracker calls).getLast? := by
  induction calls generalizing tracker with
  | nil => cases h : tracker.lastWritten keyId <;> simp [after, recorded, h]
  | cons call calls ih =>
      refine (ih _).trans ?_
      by_cases hkey : call.keyId = keyId
      · subst hkey
        rcases shouldRecordAt_cases tracker call.keyId call.now with ⟨_, heq⟩ | ⟨_, _, _, heq⟩
        · simp [recorded, answer, heq, List.getLast?_append, List.getLast?_cons]
        · simp [recorded, answer, heq]
      · rw [lastWritten_shouldRecordAt_of_ne (Ne.symm hkey)]
        simp [recorded, hkey]

/-- Behind what is remembered of a key, the instants it is let through at keep their distance. The
    induction is on the calls; each that is let through is the one remembered for the next. -/
theorem isChain_recorded (tracker : UsageTracker) (keyId : Uuid) (calls : List UsageCall) :
    ((tracker.lastWritten keyId).toList ++ recorded keyId tracker calls).IsChain
      fun earlier later => tracker.interval ≤ later - earlier := by
  induction calls generalizing tracker with
  | nil => cases tracker.lastWritten keyId <;> simp [recorded]
  | cons call calls ih =>
      have hrest := ih (tracker.shouldRecordAt call.keyId call.now).2
      rw [interval_shouldRecordAt] at hrest
      by_cases hkey : call.keyId = keyId
      · subst hkey
        rcases shouldRecordAt_cases tracker call.keyId call.now with ⟨hdue, heq⟩ | ⟨_, _, _, heq⟩
        · simp only [heq, lastWritten_claim, Option.toList_some, List.singleton_append] at hrest
          have hhead : recorded call.keyId tracker (call :: calls) =
              call.now :: recorded call.keyId (tracker.claim call.keyId call.now) calls := by
            simp [recorded, answer, heq]
          rw [hhead]
          cases hlast : tracker.lastWritten call.keyId with
          | none => exact hrest
          | some last => exact List.isChain_cons_cons.mpr ⟨hdue last hlast, hrest⟩
        · simpa [recorded, answer, heq] using hrest
      · rw [lastWritten_shouldRecordAt_of_ne (Ne.symm hkey)] at hrest
        simpa [recorded, hkey] using hrest

/-! ### Keys apart -/

/-- What a call does to the entry of its key. -/
def touch (interval : Nat) (call : UsageCall) (found : Option Instant) : Bool × Instant :=
  match found with
  | none => (true, call.now)
  | some last => if call.now - last < interval then (false, last) else (true, call.now)

/-- A call is served from the entry of its key. -/
theorem serve_touch (tracker : UsageTracker) (call : UsageCall) :
    Keyed.serve UsageCall.keyId (touch tracker.interval) tracker.lastWritten call =
      (tracker.answer call, (tracker.shouldRecordAt call.keyId call.now).2.lastWritten) := by
  unfold Keyed.serve answer shouldRecordAt
  cases hlast : tracker.lastWritten call.keyId with
  | none => rfl
  | some last =>
      simp only [touch]
      split
      · rw [← hlast, Function.update_eq_self]
      · rfl

/-- What a key is answered is told from its own calls. -/
theorem answersFor_eq (keyId : Uuid) (tracker : UsageTracker) (calls : List UsageCall) :
    answersFor keyId tracker calls = Keyed.watched UsageCall.keyId (touch tracker.interval)
      (fun call => call.keyId = keyId) tracker.lastWritten calls := by
  induction calls generalizing tracker with
  | nil => rfl
  | cons call calls ih =>
      simp only [answersFor, Keyed.watched, serve_touch, ih, interval_shouldRecordAt,
        decide_eq_true_eq]

end UsageTracker

open UsageTracker (answersFor recorded)

/-- Writes are throttled for each key on its own, whatever the order of the instants. -/
structure Throttled (interval : Nat) : Prop where
  /-- Successive calls that were let through are the interval apart. -/
  apart : ∀ keyId calls, (recorded keyId (.new interval) calls).IsChain
    fun earlier later => interval ≤ later - earlier
  /-- The remembered instant is that of the last call let through. -/
  remembered : ∀ keyId calls, ((UsageTracker.new interval).after calls).lastWritten keyId =
    (recorded keyId (.new interval) calls).getLast?
  /-- What is remembered of a key is never replaced by something earlier. -/
  monotone : 0 < interval → ∀ keyId before calls last,
    ((UsageTracker.new interval).after before).lastWritten keyId = some last →
      ∃ later, ((UsageTracker.new interval).after (before ++ calls)).lastWritten keyId = some later ∧
        last ≤ later
  /-- The first call for a key is let through. -/
  first : ∀ calls (call : UsageCall), (∀ earlier ∈ calls, earlier.keyId ≠ call.keyId) →
    ((UsageTracker.new interval).after calls).answer call = true
  /-- A call is let through when the interval has passed since the last one that was. -/
  due : ∀ calls call last, (recorded call.keyId (.new interval) calls).getLast? = some last →
    last + interval ≤ call.now → ((UsageTracker.new interval).after calls).answer call = true
  /-- The answers for a key are those it gets when nothing else is called. -/
  alone : ∀ keyId calls, answersFor keyId (.new interval) calls =
    answersFor keyId (.new interval) (calls.filter fun call => call.keyId = keyId)

/-- The tracker throttles, for every interval and over every sequence of calls: two writes of a
    key are an interval apart, the first call and every call that is due writes, and other keys
    change nothing. -/
theorem usage_throttled (interval : Nat) : Throttled interval where
  apart keyId calls := UsageTracker.isChain_recorded (.new interval) keyId calls
  remembered keyId calls := UsageTracker.lastWritten_after (.new interval) keyId calls
  monotone hpos keyId before calls last h := by
    rw [UsageTracker.after_append]
    refine UsageTracker.exists_lastWritten_after ?_ calls h
    rwa [UsageTracker.interval_after]
  first calls call hfirst := by
    rw [UsageTracker.answer_eq_true_iff, UsageTracker.lastWritten_after_of_forall_ne hfirst]
    intro last h
    cases h
  due calls call last hlast hdue := by
    rw [UsageTracker.answer_eq_true_iff, UsageTracker.lastWritten_after]
    intro last' hlast'
    cases hlast.symm.trans hlast'
    rw [UsageTracker.interval_after]
    exact Nat.le_sub_of_add_le' hdue
  alone keyId calls := by
    rw [UsageTracker.answersFor_eq, UsageTracker.answersFor_eq]
    apply Keyed.watched_filter
    intro mine _ other _ hmine hother
    simp only [decide_eq_true_eq, decide_eq_false_iff_not] at hmine hother
    rwa [hmine]

end FlagForge.Api
