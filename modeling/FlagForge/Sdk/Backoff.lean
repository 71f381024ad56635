/-
Module: FlagForge.Sdk.Backoff
Layer: Sdk
Purpose: The delays of the background refresher. A failed fetch is meant to slow it down; the cap on
  the delay makes that true only of clients that poll at least as often as the cap.
Imports: Mathlib.Algebra.GroupWithZero.Nat, Mathlib.Order.MinMax, Mathlib.Tactic.Push
Trusted boundary: none (`tokio::time::sleep` sleeps at least as long as it is told)
Main exports: Error, next, delays, OnlySlows, backoff_only_slows_iff
-/
import Mathlib.Algebra.GroupWithZero.Nat
import Mathlib.Order.MinMax
import Mathlib.Tactic.Push

namespace FlagForge.Sdk.Backoff

/-- Errors the client can return; only those of a fetch matter here. -/
inductive Error where
  | invalidUrl (url : String)
  | unauthorized (detail : String)
  | transport
  | api (status : UInt16) (detail : String)
  | malformed

/-- Whether retrying could plausibly succeed. -/
def Error.isTransient : Error → Bool
  | .transport => true
  | .api status _ => 500 ≤ status || status = 429
  | .invalidUrl _ | .unauthorized _ | .malformed => false

/-- The end of a fetch; what it brings is of no interest here. -/
abbrev Outcome := Except Error Unit

/-- The largest `Duration`, in nanoseconds. -/
def maxDuration : Nat := 2 ^ 64 * 10 ^ 9 - 1

/-- The cap for a server that is down. -/
def maxBackoff : Nat := 60 * 10 ^ 9

/-- `backoff * 2`, which panics on overflow. -/
def double (backoff : Nat) : Option Nat :=
  if backoff * 2 ≤ maxDuration then some (backoff * 2) else none

/-- The delay after a fetch. A panic ends the task, and there is none. -/
def next (interval backoff : Nat) : Outcome → Option Nat
  | .ok _ => some interval
  | .error error =>
      if error.isTransient then (double backoff).map (min · maxBackoff) else some maxBackoff

/-- The delays before the fetches that come to these outcomes, and before the fetch after them. -/
def delays (interval : Nat) : Nat → List Outcome → List Nat
  | backoff, [] => [backoff]
  | backoff, outcome :: outcomes =>
      backoff :: (next interval backoff outcome).elim [] fun backoff =>
        delays interval backoff outcomes

/-- Failures only slow the poller down, from the delay `backoff` on. -/
structure OnlySlows (interval backoff : Nat) (outcomes : List Outcome) : Prop where
  atLeast : ∀ delay ∈ delays interval backoff outcomes, interval ≤ delay
  atMost : ∀ delay ∈ delays interval backoff outcomes, delay ≤ max maxBackoff interval
  recovers : ∀ i, outcomes[i]? = some (.ok ()) →
    ∀ delay, (delays interval backoff outcomes)[i + 1]? = some delay → delay = interval
  rises : ∀ i error, outcomes[i]? = some (.error error) → error.isTransient = true →
    ∀ delay later, (delays interval backoff outcomes)[i]? = some delay →
      (delays interval backoff outcomes)[i + 1]? = some later → delay ≤ later

/-- The first failure among the outcomes. -/
def firstError : List Outcome → Option Error
  | [] => none
  | .ok _ :: outcomes => firstError outcomes
  | .error error :: _ => some error

section Delays

variable {interval backoff backoff' : Nat} {outcome : Outcome} {outcomes : List Outcome}

/-- What one outcome may do to the delay. -/
structure Slows (interval backoff backoff' : Nat) (outcome : Outcome) : Prop where
  atLeast : interval ≤ backoff'
  recovers : outcome = .ok () → backoff' = interval
  rises : ∀ error, outcome = .error error → error.isTransient = true → backoff ≤ backoff'

theorem delays_head? : (delays interval backoff outcomes)[0]? = some backoff := by
  cases outcomes <;> rfl

theorem delays_cons (hnext : next interval backoff outcome = some backoff') :
    delays interval backoff (outcome :: outcomes) =
      backoff :: delays interval backoff' outcomes := by
  rw [delays, hnext]
  rfl

/-- The task is over. -/
theorem delays_panic (hnext : next interval backoff outcome = none) :
    delays interval backoff (outcome :: outcomes) = [backoff] := by
  rw [delays, hnext]
  rfl

theorem onlySlows_nil (hleast : interval ≤ backoff) (hmost : backoff ≤ max maxBackoff interval) :
    OnlySlows interval backoff [] where
  atLeast := by simpa [delays] using hleast
  atMost := by simpa [delays] using hmost
  recovers := by simp
  rises := by simp

theorem onlySlows_panic (hnext : next interval backoff outcome = none)
    (hleast : interval ≤ backoff) (hmost : backoff ≤ max maxBackoff interval) :
    OnlySlows interval backoff (outcome :: outcomes) where
  atLeast := by simpa [delays_panic hnext] using hleast
  atMost := by simpa [delays_panic hnext] using hmost
  recovers := by simp [delays_panic hnext]
  rises := by simp [delays_panic hnext]

/-- A step that slows, and a rest that does. -/
theorem OnlySlows.cons (hnext : next interval backoff outcome = some backoff')
    (hleast : interval ≤ backoff) (hmost : backoff ≤ max maxBackoff interval)
    (hslows : Slows interval backoff backoff' outcome)
    (hrest : OnlySlows interval backoff' outcomes) :
    OnlySlows interval backoff (outcome :: outcomes) where
  atLeast := by
    rw [delays_cons hnext]
    intro delay hdelay
    rcases List.mem_cons.mp hdelay with rfl | hdelay
    · exact hleast
    · exact hrest.atLeast delay hdelay
  atMost := by
    rw [delays_cons hnext]
    intro delay hdelay
    rcases List.mem_cons.mp hdelay with rfl | hdelay
    · exact hmost
    · exact hrest.atMost delay hdelay
  recovers := by
    rw [delays_cons hnext]
    intro i houtcome delay hdelay
    cases i with
    | zero =>
        rw [List.getElem?_cons_succ, delays_head?] at hdelay
        cases hdelay
        exact hslows.recovers (Option.some.inj houtcome)
    | succ i => exact hrest.recovers i houtcome delay hdelay
  rises := by
    rw [delays_cons hnext]
    intro i error houtcome htransient delay later hdelay hlater
    cases i with
    | zero =>
        rw [List.getElem?_cons_succ, delays_head?] at hlater
        cases hlater
        cases hdelay
        exact hslows.rises error (Option.some.inj houtcome) htransient
    | succ i => exact hrest.rises i error houtcome htransient delay later hdelay hlater

/-- Up to the cap the delay stays between the interval and the cap. -/
theorem next_of_le (hinterval : interval ≤ maxBackoff) (hleast : interval ≤ backoff)
    (hcap : backoff ≤ maxBackoff) (hnext : next interval backoff outcome = some backoff') :
    Slows interval backoff backoff' outcome ∧ backoff' ≤ maxBackoff := by
  cases outcome with
  | ok _ =>
      cases hnext
      exact ⟨⟨le_rfl, fun _ => rfl, nofun⟩, hinterval⟩
  | error error =>
      rw [next] at hnext
      split at hnext
      · obtain ⟨doubled, hdoubled, rfl⟩ := Option.map_eq_some_iff.mp hnext
        rw [double] at hdoubled
        split at hdoubled
        · cases hdoubled
          refine ⟨⟨?_, nofun, fun _ _ _ => ?_⟩, min_le_right _ _⟩
          · exact le_min (by omega) hinterval
          · exact le_min (by omega) hcap
        · cases hdoubled
      · cases hnext
        exact ⟨⟨hinterval, nofun, fun _ _ _ => hcap⟩, le_rfl⟩

theorem onlySlows_of_le (hinterval : interval ≤ maxBackoff) :
    ∀ (outcomes : List Outcome) (backoff : Nat), interval ≤ backoff → backoff ≤ maxBackoff →
      OnlySlows interval backoff outcomes
  | [], backoff, hleast, hcap => onlySlows_nil hleast (le_max_of_le_left hcap)
  | outcome :: outcomes, backoff, hleast, hcap => by
      have hmost : backoff ≤ max maxBackoff interval := le_max_of_le_left hcap
      cases hnext : next interval backoff outcome with
      | none => exact onlySlows_panic hnext hleast hmost
      | some backoff' =>
          obtain ⟨hslows, hcap'⟩ := next_of_le hinterval hleast hcap hnext
          exact .cons hnext hleast hmost hslows
            (onlySlows_of_le hinterval outcomes backoff' hslows.atLeast hcap')

/-- Without a failure the delay stays what it was; so it does when the first failure is the end. -/
theorem onlySlows_of_firstError : ∀ {outcomes : List Outcome},
    (∀ error, firstError outcomes = some error →
      error.isTransient = true ∧ maxDuration < interval * 2) →
    OnlySlows interval interval outcomes
  | [], _ => onlySlows_nil le_rfl (le_max_right _ _)
  | .ok _ :: outcomes, h =>
      .cons rfl le_rfl (le_max_right _ _) ⟨le_rfl, fun _ => rfl, fun _ _ _ => le_rfl⟩
        (onlySlows_of_firstError h)
  | .error error :: outcomes, h => by
      obtain ⟨htransient, hlong⟩ := h error rfl
      refine onlySlows_panic ?_ le_rfl (le_max_right _ _)
      rw [next, if_pos htransient, double, if_neg (by omega)]
      rfl

/-- Above the cap, the first failure brings the next fetch forward. -/
theorem not_onlySlows (hinterval : maxBackoff < interval) :
    ∀ (outcomes : List Outcome) {error : Error}, firstError outcomes = some error →
      (error.isTransient = true → interval * 2 ≤ maxDuration) →
      ∃ delay ∈ delays interval interval outcomes, delay < interval
  | .ok _ :: outcomes, error, hfirst, hshort => by
      obtain ⟨delay, hdelay, hlt⟩ := not_onlySlows hinterval outcomes hfirst hshort
      exact ⟨delay, List.mem_cons_of_mem _ hdelay, hlt⟩
  | .error error :: outcomes, _, rfl, hshort => by
      have hnext : next interval interval (.error error) = some maxBackoff := by
        rw [next]
        split
        · rename_i htransient
          rw [double, if_pos (hshort htransient), Option.map_some]
          congr 1
          exact min_eq_right (by omega)
        · rfl
      refine ⟨maxBackoff, ?_, hinterval⟩
      rw [delays_cons hnext]
      exact List.mem_cons_of_mem _ (List.mem_of_getElem? delays_head?)

end Delays

/-- Failures only slow the poller down exactly when it polls at least as often as the cap, or nothing
    has failed, or the first failure was the end of the task: doubling the delay overflowed. -/
theorem backoff_only_slows_iff (interval : Nat) (outcomes : List Outcome) :
    OnlySlows interval interval outcomes ↔
      interval ≤ maxBackoff ∨ ∀ error, firstError outcomes = some error →
        error.isTransient = true ∧ maxDuration < interval * 2 := by
  constructor
  · intro hslows
    by_contra hnot
    push Not at hnot
    obtain ⟨hinterval, error, hfirst, hshort⟩ := hnot
    obtain ⟨delay, hdelay, hlt⟩ := not_onlySlows hinterval outcomes hfirst hshort
    exact absurd (hslows.atLeast delay hdelay) (by omega)
  · rintro (hinterval | hfirst)
    · exact onlySlows_of_le hinterval outcomes interval le_rfl hinterval
    · exact onlySlows_of_firstError hfirst

/-- A client that polls every five minutes asks a server that is down every minute. -/
theorem fiveMinutes_hurries :
    delays (300 * 10 ^ 9) (300 * 10 ^ 9) [.error .transport, .error .transport] =
        [300 * 10 ^ 9, 60 * 10 ^ 9, 60 * 10 ^ 9] ∧
      ¬ OnlySlows (300 * 10 ^ 9) (300 * 10 ^ 9) [.error .transport, .error .transport] := by
  have hdelays : delays (300 * 10 ^ 9) (300 * 10 ^ 9) [.error .transport, .error .transport] =
      [300 * 10 ^ 9, 60 * 10 ^ 9, 60 * 10 ^ 9] := by decide
  have hminute : 60 * 10 ^ 9 ∈
      delays (300 * 10 ^ 9) (300 * 10 ^ 9) [.error .transport, .error .transport] := by
    rw [hdelays]
    exact List.mem_cons_of_mem _ List.mem_cons_self
  exact ⟨hdelays, fun hslows => absurd (hslows.atLeast _ hminute) (by decide)⟩

end FlagForge.Sdk.Backoff
