/-
Module: FlagForge.Api.CounterBound
Layer: Api
Purpose: How many counters a running experiment can have. Batches whose variants are the flag's and
  whose times lie between the start and the arrival keep the table within variants times kinds times
  hours; the endpoint itself lets other batches in.
Imports: FlagForge.Api.Events, FlagForge.Storage.Lifecycle, Mathlib.Data.List.ProdSigma
Trusted boundary: `DurationRound::duration_trunc` rounds down to the hour
Main exports: hourOf, Arrival, arrive, Passes, Fitting, Bounded, Measuring, counters_bounded
-/
import FlagForge.Api.Events
import FlagForge.Storage.Lifecycle
import Mathlib.Data.List.ProdSigma

namespace FlagForge.Api

open Storage
open Storage.Sql (Input)
open Machine (Trace)

/-! ### Requests -/

/-- Microseconds. -/
def hour : Int := 3600000000

/-- The hour that a time is in, by its start. -/
def hourOf (time : Timestamp) : Timestamp :=
  time - time % hour

/-- A request to the ingest endpoint. -/
structure Arrival where
  now : Timestamp
  environmentId : Uuid
  events : List EventDelta
  input : Input

/-- The endpoint serves a request. -/
def arrive (trunc : Timestamp → Option Timestamp) (a : Arrival) (s : Timeline) : Option Timeline :=
  if s.clock ≤ a.now then
    some ⟨a.now, (Prog.runAlone Counting.exec (fun _ => a.input)
      (Events.ingest trunc a.now a.environmentId a.events).run s.tables).2⟩
  else none

/-- The batch that a request comes to, if the endpoint does not refuse it. -/
def Passes (trunc : Timestamp → Option Timestamp) (a : Arrival)
    (cells : List (Counting.DeltaCell × Nat)) : Prop :=
  ∃ deltas, Events.deltas a.now a.events = .ok deltas ∧
    Counting.collapse trunc deltas [] = some cells

/-- The events of a request are of variants of the flag, and of hours since the start. -/
def Fitting (trunc : Timestamp → Option Timestamp) (x : ExperimentRow) (flag : FlagRow)
    (start : Timestamp) (a : Arrival) : Prop :=
  ∀ cells, Passes trunc a cells → a.environmentId = x.environmentId → a.input.fails = false →
    ∀ event ∈ a.events, event.experimentKey = x.key →
      (∃ v ∈ flag.variants, v.key = event.variant) ∧
        hourOf start ≤ hourOf (event.happened.getD a.now) ∧
        hourOf (event.happened.getD a.now) ≤ hourOf a.now

section Request

variable {trunc : Timestamp → Option Timestamp} {a : Arrival} {s s' : Timeline}

/-- A request changes nothing, or its batch is ingested. -/
theorem arrive_cases (h : arrive trunc a s = some s') : s.clock ≤ a.now ∧ s'.clock = a.now ∧
    (s'.tables = s.tables ∨ ∃ cells, Passes trunc a cells ∧
      s'.tables = (Counting.exec a.input (.ingest a.environmentId cells) s.tables).2) := by
  rw [arrive] at h
  split at h
  · rename_i hclock
    cases h
    refine ⟨hclock, rfl, ?_⟩
    cases hdeltas : Events.deltas a.now a.events with
    | error e =>
        refine .inl ?_
        simp only [Events.ingest, hdeltas]
        rfl
    | ok deltas =>
        have hserved : (Prog.runAlone Counting.exec (fun _ => a.input)
            (Events.ingest trunc a.now a.environmentId a.events).run s.tables).2 =
              (Prog.runAlone Counting.exec (fun _ => a.input) (ExceptT.run
                ((Counting.ingestCounters trunc a.environmentId deltas).adapt ApiError.ofStorage >>=
                  fun accepted => pure (accepted, a.events.length))) s.tables).2 := by
          simp only [Events.ingest, hdeltas]
          rfl
        rw [hserved]
        cases hcells : Counting.collapse trunc deltas [] with
        | none =>
            simp only [Counting.ingestCounters, hcells]
            exact .inl rfl
        | some cells =>
            refine .inr ⟨cells, ⟨deltas, hdeltas, hcells⟩, ?_⟩
            simp only [Counting.ingestCounters, hcells]
            change (Prog.runAlone Counting.exec _ (.call (.ingest a.environmentId cells) _)
              s.tables).2 = _
            rw [Prog.runAlone]
            cases (Counting.exec a.input (.ingest a.environmentId cells) s.tables).1 with
            | ok n => rfl
            | error e => rfl
  · cases h

end Request

/-! ### Cells of a batch -/

section Cells

variable {trunc : Timestamp → Option Timestamp}

/-- Where a cell comes from to which deltas have been added. -/
theorem mem_addTo {cell : Counting.DeltaCell} {count : Nat}
    {cells : List (Counting.DeltaCell × Nat)} {e : Counting.DeltaCell × Nat}
    (h : e ∈ Counting.addTo cell count cells) : e.1 = cell ∨ ∃ e' ∈ cells, e'.1 = e.1 := by
  induction cells with
  | nil =>
      cases List.mem_singleton.mp h
      exact .inl rfl
  | cons e' cells ih =>
      rw [Counting.addTo] at h
      by_cases hcell : e'.1 = cell
      · rw [if_pos hcell] at h
        rcases List.mem_cons.mp h with rfl | h
        · exact .inl hcell
        · exact .inr ⟨e, List.mem_cons_of_mem _ h, rfl⟩
      · rw [if_neg hcell] at h
        rcases List.mem_cons.mp h with rfl | h
        · exact .inr ⟨e, List.mem_cons_self, rfl⟩
        · rcases ih h with heq | ⟨e'', he'', heq⟩
          · exact .inl heq
          · exact .inr ⟨e'', List.mem_cons_of_mem _ he'', heq⟩

/-- Every cell of a batch is that of one of its deltas. -/
theorem mem_collapse : ∀ {deltas : List CounterDelta} {cells out : List (Counting.DeltaCell × Nat)},
    Counting.collapse trunc deltas cells = some out → ∀ e ∈ out,
      (∃ delta ∈ deltas, ∃ start, trunc delta.happened = some start ∧
        e.1 = ⟨delta.experimentKey, delta.variant, delta.kind, start⟩) ∨ ∃ e' ∈ cells, e'.1 = e.1
  | [], cells, out, h => by
      cases h
      exact fun e he => .inr ⟨e, he, rfl⟩
  | delta :: deltas, cells, out, h => by
      rw [Counting.collapse] at h
      split at h
      · cases h
      · rename_i start hstart
        intro e he
        rcases mem_collapse h e he with ⟨delta', hdelta', hcell⟩ | ⟨e', he', hsame⟩
        · exact .inl ⟨delta', List.mem_cons_of_mem _ hdelta', hcell⟩
        · rcases mem_addTo he' with hnew | ⟨e'', he'', hsame'⟩
          · exact .inl ⟨delta, List.mem_cons_self, start, hstart, hsame.symm.trans hnew⟩
          · exact .inr ⟨e'', he'', hsame'.trans hsame⟩

/-- Every cell of a request is that of one of its events. -/
theorem mem_passes {a : Arrival} {cells : List (Counting.DeltaCell × Nat)}
    (h : Passes trunc a cells) {e : Counting.DeltaCell × Nat} (he : e ∈ cells) :
    ∃ event ∈ a.events, ∃ start, trunc (event.happened.getD a.now) = some start ∧
      e.1 = ⟨event.experimentKey, event.variant, event.kind, start⟩ := by
  obtain ⟨deltas, hdeltas, hcells⟩ := h
  obtain ⟨_, _, rfl⟩ := Events.deltas_eq_ok_iff.mp hdeltas
  rcases mem_collapse hcells e he with ⟨delta, hdelta, start, hstart, hcell⟩ | ⟨_, hnone, _⟩
  · obtain ⟨event, hevent, rfl⟩ := List.mem_map.mp hdelta
    exact ⟨event, hevent, start, hstart, hcell⟩
  · cases hnone

end Cells

/-! ### The bound -/

/-- What tells the counters of an experiment apart. -/
def counterCell (c : CounterRow) : String × CounterKind × Timestamp :=
  (c.variant, c.kind, c.hour)

/-- The counter is of a variant of the flag and of an hour since the start. -/
structure InBounds (flag : FlagRow) (start now : Timestamp) (c : CounterRow) : Prop where
  variant : ∃ v ∈ flag.variants, v.key = c.variant
  hour : hourOf start ≤ c.hour ∧ c.hour ≤ hourOf now

/-- The counters of an experiment: one for each variant, kind and full hour, and within bounds. -/
structure Bounded (id : Uuid) (flag : FlagRow) (start now : Timestamp) (counters : List CounterRow) :
    Prop where
  distinct : ((counters.filter (·.experimentId = id)).map counterCell).Nodup
  bounds : ∀ c ∈ counters, c.experimentId = id → InBounds flag start now c
  full : ∀ c ∈ counters, c.experimentId = id → c.hour % hour = 0

section Bound

variable {id : Uuid} {flag : FlagRow} {start now later : Timestamp}
  {counters counters' : List CounterRow} {row : CounterRow}

/-- A later time is in no earlier hour. -/
theorem hourOf_le (h : now ≤ later) : hourOf now ≤ hourOf later := by
  have hfloor : ∀ a b : Int, a ≤ b → a - a % 3600000000 ≤ b - b % 3600000000 := by
    intro a b h
    omega
  exact hfloor now later h

theorem hourOf_mod : hourOf now % hour = 0 := by
  have hfloor : ∀ a : Int, (a - a % 3600000000) % 3600000000 = 0 := by
    intro a
    omega
  exact hfloor now

/-- What is within the bound stays so as time passes. -/
theorem Bounded.mono (h : Bounded id flag start now counters) (hlater : now ≤ later) :
    Bounded id flag start later counters where
  distinct := h.distinct
  bounds c hc hid := ⟨(h.bounds c hc hid).variant, (h.bounds c hc hid).hour.1,
    Int.le_trans (h.bounds c hc hid).hour.2 (hourOf_le hlater)⟩
  full := h.full

/-- A counter that is within bounds, if it is the experiment's, keeps the table within bounds. -/
theorem bounded_upsert (h : Bounded id flag start now counters)
    (hupsert : Counting.upsertCounter row counters = .ok counters')
    (hrow : row.experimentId = id → InBounds flag start now row ∧ row.hour % hour = 0) :
    Bounded id flag start now counters' := by
  rcases Counting.upsertCounter_cases hupsert with ⟨old, hold, rfl⟩ | ⟨hnone, rfl⟩
  · have hmem := List.mem_of_find?_eq_some hold
    have hfound := List.find?_some hold
    have hcell := Counting.sameCell_iff.mp hfound
    constructor
    case distinct =>
      rw [Table.filter_replace_of_same, Table.map_replace]
      · exact h.distinct
      · intro c _ hc
        have hsame := Counting.sameCell_iff.mp hc
        simp only [counterCell, hsame.2.1, hsame.2.2.1, hsame.2.2.2, hcell.2.1, hcell.2.2.1,
          hcell.2.2.2]
      · intro c _ hc
        have hsame := Counting.sameCell_iff.mp hc
        simp only [hsame.1, hcell.1]
    case bounds =>
      intro c hc hid
      rcases Table.mem_replace hc with rfl | ⟨hc, _⟩
      · exact ⟨(h.bounds old hmem hid).variant, (h.bounds old hmem hid).hour⟩
      · exact h.bounds c hc hid
    case full =>
      intro c hc hid
      rcases Table.mem_replace hc with rfl | ⟨hc, _⟩
      · exact h.full old hmem hid
      · exact h.full c hc hid
  · constructor
    case distinct =>
      by_cases hid : row.experimentId = id
      · rw [List.filter_append, List.filter_cons_of_pos (by simpa using hid), List.filter_nil,
          List.map_append, List.map_singleton, List.nodup_append]
        refine ⟨h.distinct, List.nodup_singleton _, ?_⟩
        intro a ha b hb heq
        obtain ⟨c, hc, rfl⟩ := List.mem_map.mp ha
        cases List.mem_singleton.mp hb
        obtain ⟨hc, hcid⟩ := List.mem_filter.mp hc
        simp only [counterCell, Prod.mk.injEq] at heq
        apply List.find?_eq_none.mp hnone c hc
        exact Counting.sameCell_iff.mpr ⟨(of_decide_eq_true hcid).trans hid.symm, heq⟩
      · rw [Table.filter_append_of_neg (by simpa using hid)]
        exact h.distinct
    case bounds =>
      intro c hc hid
      rcases List.mem_append.mp hc with hc | hc
      · exact h.bounds c hc hid
      · cases List.mem_singleton.mp hc
        exact (hrow hid).1
    case full =>
      intro c hc hid
      rcases List.mem_append.mp hc with hc | hc
      · exact h.full c hc hid
      · cases List.mem_singleton.mp hc
        exact (hrow hid).2

/-- The full hours from the start to now, the first one not counted. -/
def hoursElapsed (start now : Timestamp) : Nat :=
  ((hourOf now - hourOf start) / hour).toNat

/-- The variants, kinds and hours that a counter can have. -/
def possible (flag : FlagRow) (start now : Timestamp) : List (String × CounterKind × Timestamp) :=
  (flag.variants.map Variant.key) ×ˢ [CounterKind.exposure, .conversion] ×ˢ
    (List.range (hoursElapsed start now + 1)).map fun (k : Nat) => hourOf start + hour * (k : Int)

/-- A counter within the bounds is one of the possible cells. -/
theorem mem_possible {c : CounterRow} (h : InBounds flag start now c) (hfull : c.hour % hour = 0) :
    counterCell c ∈ possible flag start now := by
  have hstart : hourOf start % hour = 0 := hourOf_mod
  have hfloor : ∀ a b n : Int, a % 3600000000 = 0 → b % 3600000000 = 0 → a ≤ b → b ≤ n →
      ((b - a) / 3600000000).toNat < ((n - a) / 3600000000).toNat + 1 ∧
        a + 3600000000 * (((b - a) / 3600000000).toNat : Int) = b := by
    intro a b n ha hb hab hbn
    omega
  obtain ⟨hlt, heq⟩ := hfloor (hourOf start) c.hour (hourOf now) hstart hfull h.hour.1 h.hour.2
  rw [possible, counterCell, List.mem_product, List.mem_product]
  refine ⟨List.mem_map.mpr h.variant, ?_, List.mem_map.mpr ⟨_, List.mem_range.mpr hlt, heq⟩⟩
  cases c.kind with
  | exposure => exact List.mem_cons_self
  | conversion => exact List.mem_cons_of_mem _ List.mem_cons_self

/-- As many counters as there are variants, kinds and hours. -/
theorem Bounded.length_le (h : Bounded id flag start now counters) :
    (counters.filter (·.experimentId = id)).length ≤
      2 * flag.variants.length * (hoursElapsed start now + 1) := by
  have hsubset : (counters.filter (·.experimentId = id)).map counterCell ⊆
      possible flag start now := by
    intro cell hcell
    obtain ⟨c, hc, rfl⟩ := List.mem_map.mp hcell
    obtain ⟨hc, hid⟩ := List.mem_filter.mp hc
    exact mem_possible (h.bounds c hc (of_decide_eq_true hid)) (h.full c hc (of_decide_eq_true hid))
  have hlength := (List.subperm_of_subset h.distinct hsubset).length_le
  simp only [List.length_map, possible, List.length_product, List.length_cons, List.length_nil,
    List.length_range] at hlength
  calc (counters.filter (·.experimentId = id)).length
      ≤ flag.variants.length * (2 * (hoursElapsed start now + 1)) := hlength
    _ = 2 * flag.variants.length * (hoursElapsed start now + 1) := by
        rw [Nat.mul_left_comm, Nat.mul_assoc]

end Bound

/-! ### Runs -/

/-- A running experiment whose counters are within bounds. -/
structure Measuring (x : ExperimentRow) (flag : FlagRow) (start : Timestamp) (s : Timeline) :
    Prop where
  there : x ∈ s.experiments
  distinct : Distinct s.experiments
  bounded : Bounded x.id flag start s.clock s.tables.counters

section Run

variable {trunc : Timestamp → Option Timestamp} {x : ExperimentRow} {flag : FlagRow}
  {start : Timestamp} {a : Arrival} {s s' s₀ : Timeline} {history : List (Timeline × Arrival)}

/-- A request that fits keeps the counters within bounds. -/
theorem measuring_arrive (htrunc : ∀ time full, trunc time = some full → full = hourOf time)
    (hfits : Fitting trunc x flag start a) (h : arrive trunc a s = some s')
    (hs : Measuring x flag start s) : Measuring x flag start s' := by
  obtain ⟨hclock, hnow, hserved⟩ := arrive_cases h
  have hbefore : Bounded x.id flag start s'.clock s.tables.counters :=
    hs.bounded.mono (hnow ▸ hclock)
  have hkeep : s'.tables = s.tables → Measuring x flag start s' := by
    intro hsame
    refine ⟨?_, ?_, hsame ▸ hbefore⟩
    · rw [Timeline.experiments, hsame]
      exact hs.there
    · rw [Timeline.experiments, hsame]
      exact hs.distinct
  rcases hserved with hsame | ⟨cells, hpasses, hexec⟩
  · exact hkeep hsame
  rw [Counting.exec] at hexec
  split at hexec
  · exact hkeep hexec
  rename_i hfails
  split at hexec
  · rename_i written hwritten
    obtain ⟨counters, hadded, hm⟩ := Counting.ingestCells_cases hwritten
    rw [hm] at hexec
    have hbounded : Bounded x.id flag start s'.clock counters := by
      refine Counting.upsertCounters_invariant (I := Bounded x.id flag start s'.clock) ?_ hadded hbefore
      intro row hrow counters counters' hupsert hI
      refine bounded_upsert hI hupsert ?_
      intro hid
      obtain ⟨e, he, hjoined⟩ := List.mem_flatMap.mp hrow
      obtain ⟨x', hx', hfor, _, rfl⟩ := Counting.mem_joined hjoined
      obtain rfl := hs.distinct.ids x' hx' x hs.there hid
      rw [ExperimentRow.isFor_iff] at hfor
      obtain ⟨event, hevent, full, hfull, hcell⟩ := mem_passes hpasses he
      rw [hcell] at hfor
      obtain ⟨hvariant, hhour⟩ := hfits cells hpasses hfor.1.symm (by simpa using hfails) event hevent
        hfor.2.symm
      rw [hcell, hnow]
      have hstart := htrunc _ _ hfull
      refine ⟨⟨hvariant, ?_⟩, ?_⟩
      · rw [hstart]
        exact hhour
      · rw [hstart]
        exact hourOf_mod
    refine ⟨?_, ?_, ?_⟩
    · rw [Timeline.experiments, hexec]
      exact hs.there
    · rw [Timeline.experiments, hexec]
      exact hs.distinct
    · rw [hexec]
      exact hbounded
  · exact hkeep hexec

/-- Whatever batches come in for a running experiment: as long as the events that name it are of
    variants of its flag and of hours between its start and their arrival, its counters are within
    the documented bound at any time of observation. That the experiment runs, when it was started and
    which flag it is on only say what is counted; the bound itself rests on the events alone. -/
theorem counters_bounded (h : Trace (arrive trunc) s₀ history s)
    (htrunc : ∀ time full, trunc time = some full → full = hourOf time)
    (hdistinct : Distinct s₀.experiments) (hx : x ∈ s₀.experiments) (_hrunning : x.state = .running)
    (_hstarted : x.startedAt = some start) (_hflag : flag ∈ s₀.tables.db.flags ∧ flag.id = x.flagId)
    (hnone : countersOf x.id s₀.tables = [])
    (hfits : ∀ e ∈ history, Fitting trunc x flag start e.2) {now : Timestamp} (hnow : s.clock ≤ now) :
    (∀ c ∈ s.tables.counters, c.experimentId = x.id → InBounds flag start now c) ∧
      (countersOf x.id s.tables).length ≤
        2 * flag.variants.length * (hoursElapsed start now + 1) := by
  have hempty : ∀ c ∈ s₀.tables.counters, c.experimentId ≠ x.id := by
    intro c hc hid
    exact List.filter_eq_nil_iff.mp hnone c hc (decide_eq_true hid)
  have hinitial : Measuring x flag start s₀ := by
    refine ⟨hx, hdistinct, ?_, ?_, ?_⟩
    · rw [countersOf] at hnone
      rw [hnone]
      exact List.nodup_nil
    · exact fun c hc hid => absurd hid (hempty c hc)
    · exact fun c hc hid => absurd hid (hempty c hc)
  have hkeep : ∀ (s : Timeline) (a : Arrival) (s' : Timeline), Fitting trunc x flag start a →
      arrive trunc a s = some s' → Measuring x flag start s → Measuring x flag start s' :=
    fun _ _ _ hfit hstep hs => measuring_arrive htrunc hfit hstep hs
  have hbounded := (h.invariant hkeep hfits hinitial).2.bounded.mono hnow
  exact ⟨hbounded.bounds, hbounded.length_le⟩

end Run

/-! ### One experiment -/

namespace Stray

def checkout : FlagRow :=
  ⟨⟨3⟩, ⟨1⟩, "checkout", "Checkout", none, [⟨"on", .bool true⟩], false, 0, 0⟩

/-- Started at ten o'clock. -/
def trial : ExperimentRow where
  id := ⟨5⟩
  environmentId := ⟨2⟩
  flagId := ⟨3⟩
  key := "trial"
  name := "Trial"
  description := none
  metricKey := "sales"
  controlVariant := "on"
  state := .running
  startedAt := some (10 * hour)
  stoppedAt := none
  version := 2
  createdAt := 0
  updatedAt := 10 * hour

def running : Timeline where
  clock := 10 * hour
  tables := { db := { Db.empty with flags := [checkout], experiments := [trial] }, counters := [] }

def trunc (time : Timestamp) : Option Timestamp :=
  some (hourOf time)

/-- The request of a client that sends these events just after the start. -/
def send (events : List EventDelta) : Arrival :=
  ⟨10 * hour + 1, ⟨2⟩, events, ⟨⟨6⟩, 10 * hour + 1, false⟩⟩

/-- Three exposures of variants that the flag does not have, of long ago. -/
def strays : List EventDelta :=
  [⟨"trial", "a", .exposure, 1, some 0⟩, ⟨"trial", "b", .exposure, 1, some 0⟩,
    ⟨"trial", "c", .exposure, 1, some 0⟩]

def exposures : List EventDelta :=
  [⟨"trial", "on", .exposure, 1, none⟩]

end Stray

/-- The endpoint takes events of any variant and of any time, and adds a counter for each. -/
theorem strays_counted : ∃ (s : Timeline) (history : List (Timeline × Arrival)),
    Trace (arrive Stray.trunc) Stray.running history s ∧ Stray.trial ∈ Stray.running.experiments ∧
      Stray.trial.startedAt = some (10 * hour) ∧ Stray.checkout.id = Stray.trial.flagId ∧
      countersOf Stray.trial.id Stray.running.tables = [] ∧
      (∃ c ∈ s.tables.counters, c.experimentId = Stray.trial.id ∧
        (∀ v ∈ Stray.checkout.variants, v.key ≠ c.variant) ∧ c.hour < hourOf (10 * hour)) ∧
      2 * Stray.checkout.variants.length * (hoursElapsed (10 * hour) s.clock + 1) <
        (countersOf Stray.trial.id s.tables).length := by
  have hrun : (arrive Stray.trunc (Stray.send Stray.strays) Stray.running).map
      (fun s => (s.clock, s.tables.counters)) = some (10 * hour + 1,
        [⟨⟨5⟩, "a", .exposure, 0, 1⟩, ⟨⟨5⟩, "b", .exposure, 0, 1⟩, ⟨⟨5⟩, "c", .exposure, 0, 1⟩]) := by
    decide
  obtain ⟨s, hs, houtcome⟩ := Option.map_eq_some_iff.mp hrun
  simp only [Prod.mk.injEq] at houtcome
  refine ⟨s, _, .move .start hs, List.mem_cons_self, rfl, rfl, rfl, ?_, ?_⟩
  · rw [houtcome.2]
    decide
  · rw [countersOf, houtcome.1, houtcome.2]
    decide

/-- A request with an exposure of the flag's variant, without a time of its own. -/
theorem counters_bounded_exposures : ∃ s : Timeline,
    s.tables.counters = [⟨⟨5⟩, "on", .exposure, 10 * hour, 1⟩] ∧
      (countersOf Stray.trial.id s.tables).length ≤
        2 * Stray.checkout.variants.length * (hoursElapsed (10 * hour) (11 * hour) + 1) := by
  have hrun : (arrive Stray.trunc (Stray.send Stray.exposures) Stray.running).map
      (fun s => (s.clock, s.tables.counters)) =
        some (10 * hour + 1, [⟨⟨5⟩, "on", .exposure, 10 * hour, 1⟩]) := by decide
  obtain ⟨s, hs, houtcome⟩ := Option.map_eq_some_iff.mp hrun
  simp only [Prod.mk.injEq] at houtcome
  refine ⟨s, houtcome.2, ?_⟩
  have hbound : (∀ c ∈ s.tables.counters, c.experimentId = Stray.trial.id →
      InBounds Stray.checkout (10 * hour) (11 * hour) c) ∧
        (countersOf Stray.trial.id s.tables).length ≤
          2 * Stray.checkout.variants.length * (hoursElapsed (10 * hour) (11 * hour) + 1) := by
    refine counters_bounded (Trace.move .start hs) ?_ ?_ List.mem_cons_self rfl rfl
      ⟨List.mem_cons_self, rfl⟩ rfl ?_ ?_
    · intro time full hfull
      cases hfull
      rfl
    · constructor
      · intro x hx y hy _
        exact (List.mem_singleton.mp hx).trans (List.mem_singleton.mp hy).symm
      · intro x hx y hy _ _
        exact (List.mem_singleton.mp hx).trans (List.mem_singleton.mp hy).symm
    · intro e he cells _ _ _ event hevent _
      cases List.mem_singleton.mp he
      cases List.mem_singleton.mp hevent
      exact ⟨⟨⟨"on", .bool true⟩, List.mem_cons_self, rfl⟩, by decide, by decide⟩
    · rw [houtcome.1]
      decide
  exact hbound.2

end FlagForge.Api
