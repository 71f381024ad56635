/-
Module: FlagForge.Api.Events
Layer: Api
Purpose: The ingest endpoint of the SDKs. Of a batch it checks the size and the length of the variants,
  and it fills in the time of arrival where an event has none.
Imports: FlagForge.Api.Handlers, FlagForge.Storage.Counters
Trusted boundary: the key of the request has been resolved to an environment
Main exports: EventDelta, maxEvents, Events.deltas, Events.ingest, Events.deltas_eq_ok_iff
-/
import FlagForge.Api.Handlers
import FlagForge.Storage.Counters

namespace FlagForge.Api

open Storage

/-- One counter increment of a request. -/
structure EventDelta where
  experimentKey : String
  variant : String
  kind : CounterKind
  count : Nat
  /-- When the events happened, if the client says so. -/
  happened : Option Timestamp

namespace Events

/-- Refuses absurd payloads before they become work. -/
def maxEvents : Nat := 1000

/-- The length that a variant may have. -/
def variantFits (variant : String) : Bool :=
  1 ≤ variant.utf8ByteSize && variant.utf8ByteSize ≤ 128

/-- The increment of an event that arrives at `now`. -/
def delta (now : Timestamp) (event : EventDelta) : CounterDelta where
  experimentKey := event.experimentKey
  variant := event.variant
  kind := event.kind
  happened := event.happened.getD now
  count := event.count

/-- The loop over the events. -/
def deltasOf (now : Timestamp) : List EventDelta → Except ApiError (List CounterDelta)
  | [] => .ok []
  | event :: events =>
      if event.variant.isEmpty || 128 < event.variant.utf8ByteSize then
        .error (.badRequest "variant must be between 1 and 128 characters")
      else (deltasOf now events).map (delta now event :: ·)

def deltas (now : Timestamp) (events : List EventDelta) : Except ApiError (List CounterDelta) :=
  if maxEvents < events.length then
    .error (.badRequest
      s!"at most {maxEvents} events per batch; aggregate client-side and flush more often")
  else deltasOf now events

/-- Ingests a batch for the key's environment: how many cells were written, of how many events. -/
def ingest (trunc : Timestamp → Option Timestamp) (now : Timestamp) (environmentId : Uuid)
    (events : List EventDelta) : Fallible Counting.Stmt Counting.Resp ApiError (Nat × Nat) := do
  let deltas ← ExceptT.mk (.done (deltas now events))
  let accepted ← (Counting.ingestCounters trunc environmentId deltas).adapt ApiError.ofStorage
  pure (accepted, events.length)

variable {now : Timestamp}

/-- A variant fits by its length alone. -/
theorem variantFits_iff {variant : String} : variantFits variant = true ↔
    ¬(variant.isEmpty || 128 < variant.utf8ByteSize) = true := by
  simp only [variantFits, Bool.and_eq_true, decide_eq_true_eq, Bool.or_eq_true, not_or,
    String.isEmpty_iff_utf8ByteSize_eq_zero]
  omega

theorem deltasOf_eq_ok_iff {events : List EventDelta} {out : List CounterDelta} :
    deltasOf now events = .ok out ↔
      (∀ event ∈ events, variantFits event.variant = true) ∧ out = events.map (delta now) := by
  induction events generalizing out with
  | nil =>
      rw [deltasOf]
      constructor
      · intro h
        cases h
        refine ⟨?_, rfl⟩
        intro event hevent
        cases hevent
      · intro h
        rw [h.2]
        rfl
  | cons event events ih =>
      rw [deltasOf, List.forall_mem_cons, variantFits_iff]
      by_cases hvariant : (event.variant.isEmpty || 128 < event.variant.utf8ByteSize) = true
      · simp [hvariant]
      · rw [if_neg hvariant]
        cases hrest : deltasOf now events with
        | error e =>
            constructor
            · intro h
              cases h
            · intro h
              have hok := ih.mpr ⟨h.1.2, rfl⟩
              rw [hrest] at hok
              cases hok
        | ok rest =>
            obtain ⟨hfit, hmap⟩ := ih.mp hrest
            constructor
            · intro h
              cases h
              exact ⟨⟨hvariant, hfit⟩, by rw [hmap]; rfl⟩
            · intro h
              rw [h.2, List.map_cons, ← hmap]
              rfl

/-- A batch passes the checks when it is not too long and its variants fit. -/
theorem deltas_eq_ok_iff {events : List EventDelta} {out : List CounterDelta} :
    deltas now events = .ok out ↔ events.length ≤ maxEvents ∧
      (∀ event ∈ events, variantFits event.variant = true) ∧ out = events.map (delta now) := by
  rw [deltas, ← deltasOf_eq_ok_iff]
  by_cases hlength : maxEvents < events.length
  · rw [if_pos hlength]
    constructor
    · intro h
      cases h
    · intro h
      omega
  · rw [if_neg hlength]
    exact ⟨fun h => ⟨Nat.le_of_not_lt hlength, h⟩, fun h => h.2⟩

end Events

end FlagForge.Api
