/-
Module: FlagForge.Storage.Lifecycle
Layer: Storage
Purpose: The life of an experiment and of its counters, whatever statements come in whatever order. An
  experiment is drafted, started and stopped; its counters grow while it runs and are final after.
Imports: FlagForge.Storage.Counters, FlagForge.Storage.Effects, FlagForge.Lib.Machine
Trusted boundary: the clock of the database does not go back
Main exports: Timeline, tick, Issued, Stamped, Sane, sane_tick, Evolution, evolution, lifecycle
-/
import FlagForge.Storage.Counters
import FlagForge.Storage.Effects
import FlagForge.Lib.Machine

namespace FlagForge.Storage

open Sql (Input SqlError Written)
open Machine (Trace)

/-! ### What a statement makes of the experiments -/

/-- What a statement makes of the table of experiments. -/
inductive Change (input : Input) (s : Sql.Stmt) (before after : List ExperimentRow) : Prop where
  | fewer {p : ExperimentRow → Bool} (h : after = before.filter p)
  | created {y : ExperimentRow}
      (hs : s = .insertExperiment y.environmentId y.flagId y.key y.name y.description y.metricKey
        y.controlVariant)
      (hfresh : ∀ x ∈ before, x.id ≠ y.id ∧ x.isFor y.environmentId y.key = false)
      (hdraft : y.state = .draft ∧ y.startedAt = none ∧ y.stoppedAt = none)
      (h : after = before ++ [y])
  | updated {x y : ExperimentRow} {environmentId : Uuid} {key name : String}
      {description : Option String} {version : Int64}
      (hx : before.find? (·.isFor environmentId key) = some x)
      (hy : y = { x with name := name, description := description, version := version
                         updatedAt := input.now })
      (h : after = Table.replace (·.isFor environmentId key) y before)
  | moved {x y : ExperimentRow} {environmentId : Uuid} {key : String}
      {source target : ExperimentState} {version : Int64}
      (hs : s = .transitionExperiment environmentId key source target)
      (hx : before.find? (fun row => row.isFor environmentId key && row.state = source) = some x)
      (hy : y = { x with
        state := target
        startedAt := if target = .running then some input.now else x.startedAt
        stoppedAt := if target = .stopped then some input.now else x.stoppedAt
        version := version
        updatedAt := input.now })
      (h : after =
        Table.replace (fun row => row.isFor environmentId key && row.state = source) y before)

theorem Change.refl {input : Input} {s : Sql.Stmt} {before : List ExperimentRow} :
    Change input s before before :=
  .fewer (p := fun _ => true) (List.filter_true before).symm

/-- Every statement takes some experiments away, or drafts one, or updates or moves one. -/
theorem change {input : Input} {s : Sql.Stmt} {db : Db} {w : Written s.Result}
    (hw : s.run input db = .ok w) : Change input s db.experiments w.db.experiments := by
  cases s with
  | insertProject =>
      obtain ⟨_, rfl⟩ := Sql.insertProject_cases hw
      exact .refl
  | deleteProject =>
      rcases Sql.deleteProject_cases hw with rfl | ⟨project, _, _, hdb⟩
      · exact .refl
      · rw [hdb]
        exact .fewer rfl
  | createEnvironment =>
      obtain ⟨_, _, _, hdb⟩ := Sql.createEnvironment_cases hw
      rw [hdb]
      exact .refl
  | deleteEnvironment =>
      rw [(Sql.deleteEnvironment_cases hw).1]
      exact .fewer rfl
  | createFlag =>
      rw [(Sql.createFlag_cases hw).2]
      exact .refl
  | updateFlag =>
      rcases Sql.updateFlag_cases hw with rfl | ⟨_, _, rfl⟩
      · exact .refl
      · exact .refl
  | deleteFlag =>
      rw [(Sql.deleteFlag_cases hw).2.1]
      exact .refl
  | upsertConfig =>
      rcases Sql.upsertConfig_cases hw with ⟨_, _, _, _, _, rfl⟩ | ⟨_, _, _, _, _, _, rfl⟩ |
        ⟨_, _, _, rfl⟩
      · exact .refl
      · exact .refl
      · exact .refl
  | insertSegment =>
      obtain ⟨_, _, _, rfl⟩ := Sql.insertSegment_cases hw
      exact .refl
  | updateSegment =>
      rcases Sql.updateSegment_cases hw with ⟨_, _, _, _, _, _, rfl⟩ | ⟨rfl, _⟩
      · exact .refl
      · exact .refl
  | deleteSegment =>
      rw [(Sql.deleteSegment_cases hw).1]
      exact .refl
  | insertExperiment =>
      obtain ⟨row, hrow, hfresh, _, _, rfl⟩ := Sql.insertExperiment_cases hw
      apply Change.created (y := row)
      · rw [hrow]
      · rw [hrow]
        exact hfresh
      · rw [hrow]
        exact ⟨rfl, rfl, rfl⟩
      · rfl
  | updateExperiment =>
      rcases Sql.modifyExperiment_cases hw with rfl | ⟨old, row, hold, _, hrow, rfl⟩
      · exact .refl
      · exact .updated hold hrow rfl
  | transitionExperiment =>
      rcases Sql.modifyExperiment_cases hw with rfl | ⟨old, row, hold, _, hrow, rfl⟩
      · exact .refl
      · exact .moved rfl hold hrow rfl
  | deleteExperiment =>
      rw [(Sql.deleteExperiment_cases hw).1]
      exact .fewer rfl
  | insertAudit =>
      obtain ⟨_, rfl⟩ := Sql.insertAudit_cases hw
      exact .refl
  | _ =>
      cases hw
      exact .refl

/-- Identifiers tell experiments apart, and keys within an environment. -/
structure Distinct (rows : List ExperimentRow) : Prop where
  ids : ∀ x ∈ rows, ∀ y ∈ rows, x.id = y.id → x = y
  keys : ∀ x ∈ rows, ∀ y ∈ rows, x.environmentId = y.environmentId → x.key = y.key → x = y

/-- Replacing the only row that is selected by one with its identifier and its key. -/
theorem Distinct.replace {rows : List ExperimentRow} {p : ExperimentRow → Bool}
    {x y : ExperimentRow} (h : Distinct rows) (hx : rows.find? p = some x) (hid : y.id = x.id)
    (hkey : y.environmentId = x.environmentId ∧ y.key = x.key) : Distinct (Table.replace p y rows) := by
  have hmem := List.mem_of_find?_eq_some hx
  have hp := List.find?_some hx
  -- another row with the identifier or with the key of the new one would have been replaced
  have hother : ∀ a ∈ rows, a = x → p a = false → False := by
    intro a _ heq hna
    rw [heq, hp] at hna
    cases hna
  constructor
  case ids =>
    intro a ha b hb heq
    rcases Table.mem_replace ha with ha | ⟨ha, hna⟩
    · rcases Table.mem_replace hb with hb | ⟨hb, hnb⟩
      · exact ha.trans hb.symm
      · rw [ha] at heq
        exact (hother b hb (h.ids b hb x hmem (heq.symm.trans hid)) hnb).elim
    · rcases Table.mem_replace hb with hb | ⟨hb, hnb⟩
      · rw [hb] at heq
        exact (hother a ha (h.ids a ha x hmem (heq.trans hid)) hna).elim
      · exact h.ids a ha b hb heq
  case keys =>
    intro a ha b hb henvironment heq
    rcases Table.mem_replace ha with ha | ⟨ha, hna⟩
    · rcases Table.mem_replace hb with hb | ⟨hb, hnb⟩
      · exact ha.trans hb.symm
      · rw [ha] at heq henvironment
        exact (hother b hb (h.keys b hb x hmem (henvironment.symm.trans hkey.1)
          (heq.symm.trans hkey.2)) hnb).elim
    · rcases Table.mem_replace hb with hb | ⟨hb, hnb⟩
      · rw [hb] at heq henvironment
        exact (hother a ha (h.keys a ha x hmem (henvironment.trans hkey.1)
          (heq.trans hkey.2)) hna).elim
      · exact h.keys a ha b hb henvironment heq

theorem Distinct.change {input : Input} {s : Sql.Stmt} {before after : List ExperimentRow}
    (h : Distinct before) (hchange : Change input s before after) : Distinct after := by
  cases hchange with
  | fewer hafter =>
      rw [hafter]
      constructor
      · exact fun a ha b hb => h.ids a (List.mem_filter.mp ha).1 b (List.mem_filter.mp hb).1
      · exact fun a ha b hb => h.keys a (List.mem_filter.mp ha).1 b (List.mem_filter.mp hb).1
  | created _ hfresh _ hafter =>
      rw [hafter]
      constructor
      · exact Table.keys_append h.ids fun a ha => (hfresh a ha).1
      · refine Table.pairs_append h.keys fun a ha henvironment hkey => ?_
        exact Bool.eq_false_iff.mp (hfresh a ha).2 (ExperimentRow.isFor_iff.mpr ⟨henvironment, hkey⟩)
  | updated hx hy hafter =>
      rw [hafter, hy]
      exact h.replace hx rfl ⟨rfl, rfl⟩
  | moved _ hx hy hafter =>
      rw [hafter, hy]
      exact h.replace hx rfl ⟨rfl, rfl⟩

/-! ### What a batch makes of the counters -/

/-- The counters of an experiment. -/
def countersOf (id : Uuid) (m : Measured) : List CounterRow :=
  m.counters.filter (·.experimentId = id)

section Counter

variable {id : Uuid} {m m' : Measured} {counters counters' : List CounterRow} {row : CounterRow}

/-- Adding to a counter touches the counters of its experiment only. -/
theorem filter_upsertCounter (h : Counting.upsertCounter row counters = .ok counters')
    (hid : row.experimentId ≠ id) :
    counters'.filter (·.experimentId = id) = counters.filter (·.experimentId = id) := by
  rcases Counting.upsertCounter_cases h with ⟨old, hold, rfl⟩ | ⟨_, rfl⟩
  · have hfound := List.find?_some hold
    have hcell := Counting.sameCell_iff.mp hfound
    apply Table.filter_replace_of_disjoint
    · exact decide_eq_false fun heq => hid (hcell.1.symm.trans heq)
    · intro c _ hc
      exact decide_eq_false fun heq => hid ((Counting.sameCell_iff.mp hc).1.symm.trans heq)
  · exact Table.filter_append_of_neg (decide_eq_false hid)

/-- A batch touches the counters of running experiments only. -/
theorem countersOf_upsertCounters {environmentId : Uuid} {cells : List (Counting.DeltaCell × Nat)}
    (h : Counting.upsertCounters (cells.flatMap (Counting.joined environmentId m.db)) m.counters =
      .ok counters) (hid : ∀ x ∈ m.db.experiments, x.id = id → x.state ≠ .running) :
    counters.filter (·.experimentId = id) = countersOf id m := by
  have hkeep := Counting.upsertCounters_invariant
    (I := fun counters => counters.filter (·.experimentId = id) = countersOf id m) ?_ h rfl
  · exact hkeep
  · intro row hrow counters counters' hupsert hbefore
    obtain ⟨e, _, hjoined⟩ := List.mem_flatMap.mp hrow
    obtain ⟨x, hx, _, hrunning, rfl⟩ := Counting.mem_joined hjoined
    rw [filter_upsertCounter hupsert (fun heq => hid x hx heq hrunning)]
    exact hbefore

/-- A batch adds counters to running experiments only. -/
theorem mem_upsertCounters {environmentId : Uuid} {cells : List (Counting.DeltaCell × Nat)}
    (h : Counting.upsertCounters (cells.flatMap (Counting.joined environmentId m.db)) m.counters =
      .ok counters) : ∀ c ∈ counters, (∃ d ∈ m.counters, d.experimentId = c.experimentId) ∨
        ∃ x ∈ m.db.experiments, x.id = c.experimentId ∧ x.state = .running := by
  refine Counting.upsertCounters_invariant
    (I := fun counters => ∀ c ∈ counters, (∃ d ∈ m.counters, d.experimentId = c.experimentId) ∨
      ∃ x ∈ m.db.experiments, x.id = c.experimentId ∧ x.state = .running) ?_ h
    fun c hc => .inl ⟨c, hc, rfl⟩
  intro row hrow counters counters' hupsert hbefore
  obtain ⟨e, _, hjoined⟩ := List.mem_flatMap.mp hrow
  obtain ⟨x, hx, _, hrunning, rfl⟩ := Counting.mem_joined hjoined
  intro c hc
  rcases Counting.upsertCounter_cases hupsert with ⟨old, hold, rfl⟩ | ⟨_, rfl⟩
  · rcases Table.mem_replace hc with rfl | ⟨hc, _⟩
    · exact hbefore old (List.mem_of_find?_eq_some hold)
    · exact hbefore c hc
  · rcases List.mem_append.mp hc with hc | hc
    · exact hbefore c hc
    · cases List.mem_singleton.mp hc
      exact .inr ⟨x, hx, rfl, hrunning⟩

/-- A cascade takes the counters of experiments that are gone. -/
theorem countersOf_cascade {db : Db} (h : ∃ x ∈ db.experiments, x.id = id) :
    countersOf id ⟨db, Counting.cascade db counters⟩ = counters.filter (·.experimentId = id) := by
  obtain ⟨x, hx, hid⟩ := h
  apply Table.filter_filter_of_imp
  intro c _ hc
  rw [List.any_eq_true]
  exact ⟨x, hx, decide_eq_true (hid.trans (of_decide_eq_true hc).symm)⟩

end Counter

/-! ### Runs -/

/-- The tables, and the time of the last statement. -/
structure Timeline where
  clock : Timestamp
  tables : Measured

/-- A statement, with what the database contributes to it. -/
abbrev Issue := Input × Counting.Stmt

/-- The database executes a statement. Its clock does not go back. -/
def tick (m : Issue) (s : Timeline) : Option Timeline :=
  if s.clock ≤ m.1.now then some ⟨m.1.now, (Counting.exec m.1 m.2 s.tables).2⟩ else none

/-- Experiments are started and stopped, and not moved otherwise. -/
def Issued : Counting.Stmt → Prop
  | .sql (.transitionExperiment _ _ source target) =>
      source = .draft ∧ target = .running ∨ source = .running ∧ target = .stopped
  | _ => True

namespace Timeline

def experiments (s : Timeline) : List ExperimentRow :=
  s.tables.db.experiments

/-- Whether the experiment is there. -/
def Present (id : Uuid) (s : Timeline) : Prop :=
  ∃ x ∈ s.experiments, x.id = id

end Timeline

/-- The time stamps that an experiment has in its state. -/
def Stamped (now : Timestamp) (x : ExperimentRow) : Prop :=
  match x.state with
  | .draft => x.startedAt = none ∧ x.stoppedAt = none
  | .running => ∃ t ≤ now, x.startedAt = some t ∧ x.stoppedAt = none
  | .stopped => ∃ t u, t ≤ u ∧ u ≤ now ∧ x.startedAt = some t ∧ x.stoppedAt = some u

structure Sane (s : Timeline) : Prop where
  distinct : Distinct s.experiments
  stamped : ∀ x ∈ s.experiments, Stamped s.clock x
  counters : ∀ c ∈ s.tables.counters, ∃ x ∈ s.experiments, x.id = c.experimentId ∧ x.state ≠ .draft

theorem Stamped.later {now later : Timestamp} {x : ExperimentRow} (h : Stamped now x)
    (hlater : now ≤ later) : Stamped later x := by
  rw [Stamped] at h ⊢
  cases hstate : x.state with
  | draft =>
      rw [hstate] at h
      exact h
  | running =>
      rw [hstate] at h
      obtain ⟨t, ht, hstamps⟩ := h
      exact ⟨t, Int.le_trans ht hlater, hstamps⟩
  | stopped =>
      rw [hstate] at h
      obtain ⟨t, u, htu, hu, hstamps⟩ := h
      exact ⟨t, u, htu, Int.le_trans hu hlater, hstamps⟩

/-! ### Steps -/

section Step

variable {m : Issue} {s s' : Timeline} {x y : ExperimentRow}

/-- A step of the clock, and of the tables. -/
theorem tick_cases (h : tick m s = some s') : s.clock ≤ s'.clock ∧ s'.clock = m.1.now ∧
    s'.tables = (Counting.exec m.1 m.2 s.tables).2 := by
  rw [tick] at h
  split at h
  · rename_i hclock
    cases h
    exact ⟨hclock, rfl, rfl⟩
  · cases h

/-- A batch leaves the experiments alone, and any other statement changes them in its way. -/
theorem change_tick (h : tick m s = some s') : s'.experiments = s.experiments ∨
    ∃ t, m.2 = .sql t ∧ Change m.1 t s.experiments s'.experiments := by
  obtain ⟨_, _, htables⟩ := tick_cases h
  rw [Timeline.experiments, Timeline.experiments, htables]
  rcases Counting.exec_cases m.1 m.2 s.tables with ⟨t, ht, hexec⟩ | ⟨_, _, _, hexec | ⟨_, _, hexec⟩⟩
  · rw [hexec]
    rcases Sql.exec_db_cases m.1 t s.tables.db with hsame | ⟨w, hw, hdb⟩
    · exact .inl (congrArg Db.experiments hsame)
    · refine .inr ⟨t, ht, ?_⟩
      simp only [hdb]
      exact change hw
  · exact .inl (by rw [hexec])
  · exact .inl (by rw [hexec])

/-- What a statement can make of an experiment that stays. -/
structure Evolution (now : Timestamp) (x y : ExperimentRow) : Prop where
  measured : y.flagId = x.flagId ∧ y.metricKey = x.metricKey ∧ y.controlVariant = x.controlVariant
  addressed : y.environmentId = x.environmentId ∧ y.key = x.key
  moved : (y.state = x.state ∧ y.startedAt = x.startedAt ∧ y.stoppedAt = x.stoppedAt) ∨
    (x.state = .draft ∧ y.state = .running ∧ y.startedAt = some now ∧ y.stoppedAt = x.stoppedAt) ∨
    (x.state = .running ∧ y.state = .stopped ∧ y.startedAt = x.startedAt ∧ y.stoppedAt = some now)

/-- An experiment that is there after a statement is a new draft, or one that was there has evolved
    into it. -/
theorem evolves (hissued : Issued m.2) (h : tick m s = some s') (hy : y ∈ s'.experiments) :
    ((∀ x ∈ s.experiments, x.id ≠ y.id ∧ x.isFor y.environmentId y.key = false) ∧
        y.state = .draft ∧ y.startedAt = none ∧ y.stoppedAt = none) ∨
      ∃ x ∈ s.experiments, x.id = y.id ∧ Evolution s'.clock x y := by
  obtain ⟨_, hclock, _⟩ := tick_cases h
  have hkept : y ∈ s.experiments → ∃ x ∈ s.experiments, x.id = y.id ∧ Evolution s'.clock x y :=
    fun hy => ⟨y, hy, rfl, ⟨rfl, rfl, rfl⟩, ⟨rfl, rfl⟩, .inl ⟨rfl, rfl, rfl⟩⟩
  rcases change_tick h with hsame | ⟨t, ht, hchange⟩
  · exact .inr (hkept (hsame ▸ hy))
  cases hchange with
  | fewer hafter =>
      rw [hafter] at hy
      exact .inr (hkept (List.mem_filter.mp hy).1)
  | created _ hfresh hdraft hafter =>
      rw [hafter] at hy
      rcases List.mem_append.mp hy with hy | hy
      · exact .inr (hkept hy)
      · cases List.mem_singleton.mp hy
        exact .inl ⟨hfresh, hdraft⟩
  | @updated x y' _ _ _ _ _ hx hy' hafter =>
      rw [hafter] at hy
      rcases Table.mem_replace hy with rfl | ⟨hy, _⟩
      · rw [hy']
        exact .inr ⟨x, List.mem_of_find?_eq_some hx, rfl, ⟨rfl, rfl, rfl⟩, ⟨rfl, rfl⟩,
          .inl ⟨rfl, rfl, rfl⟩⟩
      · exact .inr (hkept hy)
  | @moved x y' _ _ _ _ _ hs hx hy' hafter =>
      rw [hafter] at hy
      rcases Table.mem_replace hy with rfl | ⟨hy, _⟩
      · have hfound := List.find?_some hx
        simp only [Bool.and_eq_true, decide_eq_true_eq] at hfound
        rw [ht, hs] at hissued
        rw [hy', hclock]
        refine .inr ⟨x, List.mem_of_find?_eq_some hx, rfl, ⟨rfl, rfl, rfl⟩, ⟨rfl, rfl⟩, .inr ?_⟩
        rcases hissued with ⟨rfl, rfl⟩ | ⟨rfl, rfl⟩
        · exact .inl ⟨hfound.2, rfl, rfl, rfl⟩
        · exact .inr ⟨hfound.2, rfl, rfl, rfl⟩
      · exact .inr (hkept hy)

/-- What an experiment that stays evolves into. -/
theorem evolution (hissued : Issued m.2) (hs : Sane s) (h : tick m s = some s')
    (hx : x ∈ s.experiments) (hy : y ∈ s'.experiments) (hid : x.id = y.id) :
    Evolution s'.clock x y := by
  rcases evolves hissued h hy with ⟨hfresh, _⟩ | ⟨x', hx', hid', hevolution⟩
  · exact absurd hid (hfresh x hx).1
  · rw [hs.distinct.ids x hx x' hx' (hid.trans hid'.symm)]
    exact hevolution

/-- What has been started is no draft any more. -/
theorem Evolution.not_draft {now : Timestamp} (h : Evolution now x y) (hx : x.state ≠ .draft) :
    y.state ≠ .draft := by
  rcases h.moved with ⟨hstate, _⟩ | ⟨hdraft, _⟩ | ⟨_, hstate, _⟩
  · rw [hstate]
    exact hx
  · exact absurd hdraft hx
  · rw [hstate]
    exact ExperimentState.noConfusion

/-- A transition stamps the time of its statement. -/
theorem Evolution.stamped {clock now : Timestamp} (h : Evolution now x y) (hclock : clock ≤ now)
    (hx : Stamped clock x) : Stamped now y := by
  rcases h.moved with ⟨hstate, hstarted, hstopped⟩ | ⟨hdraft, hstate, hstarted, hstopped⟩ |
    ⟨hrunning, hstate, hstarted, hstopped⟩
  · have hlater := hx.later hclock
    rw [Stamped] at hlater ⊢
    rw [hstate, hstarted, hstopped]
    exact hlater
  · rw [Stamped, hdraft] at hx
    rw [Stamped, hstate]
    exact ⟨now, Int.le_refl _, hstarted, hstopped.trans hx.2⟩
  · rw [Stamped, hrunning] at hx
    obtain ⟨t, ht, hstarted', _⟩ := hx
    rw [Stamped, hstate]
    exact ⟨t, now, Int.le_trans ht hclock, Int.le_refl _, hstarted.trans hstarted', hstopped⟩

theorem sane_tick (hissued : Issued m.2) (h : tick m s = some s') (hs : Sane s) : Sane s' := by
  obtain ⟨hclock, _, htables⟩ := tick_cases h
  constructor
  case distinct =>
    rcases change_tick h with hsame | ⟨t, _, hchange⟩
    · rw [hsame]
      exact hs.distinct
    · exact hs.distinct.change hchange
  case stamped =>
    intro y hy
    rcases evolves hissued h hy with ⟨_, hstate, hstamps⟩ | ⟨x, hx, _, hevolution⟩
    · rw [Stamped, hstate]
      exact hstamps
    · exact hevolution.stamped hclock (hs.stamped x hx)
  case counters =>
    -- an experiment that has counters and stays is still no draft
    have hstays : ∀ c ∈ s.tables.counters, ∀ y ∈ s'.experiments, y.id = c.experimentId →
        y.state ≠ .draft := by
      intro c hc y hy hid
      obtain ⟨x, hx, hxid, hstate⟩ := hs.counters c hc
      exact (evolution hissued hs h hx hy (hxid.trans hid.symm)).not_draft hstate
    intro c hc
    rw [htables] at hc
    rcases Counting.exec_cases m.1 m.2 s.tables with ⟨t, _, hexec⟩ | ⟨_, _, _, hexec | ⟨_, hadded, hexec⟩⟩
    · rw [hexec] at hc
      obtain ⟨hc, hthere⟩ := List.mem_filter.mp hc
      obtain ⟨y, hy, hid⟩ := List.any_eq_true.mp hthere
      have hy' : y ∈ s'.experiments := by
        rw [Timeline.experiments, htables, hexec]
        exact hy
      exact ⟨y, hy', of_decide_eq_true hid, hstays c hc y hy' (of_decide_eq_true hid)⟩
    · rw [hexec] at hc htables
      rw [Timeline.experiments, htables]
      exact hs.counters c hc
    · rw [hexec] at hc htables
      rw [Timeline.experiments, htables]
      rcases mem_upsertCounters hadded c hc with ⟨d, hd, hid⟩ | ⟨x, hx, hid, hrunning⟩
      · obtain ⟨x, hx, hxid, hstate⟩ := hs.counters d hd
        exact ⟨x, hx, hxid.trans hid, hstate⟩
      · refine ⟨x, hx, hid, ?_⟩
        rw [hrunning]
        exact ExperimentState.noConfusion

/-- The counters of an experiment that stays change by batches only, and while it is running. -/
theorem countersOf_tick {id : Uuid} (h : tick m s = some s') (hpresent : s'.Present id) :
    countersOf id s'.tables = countersOf id s.tables ∨
      (∃ environmentId cells, m.2 = .ingest environmentId cells) ∧
        ∃ x ∈ s.experiments, x.id = id ∧ x.state = .running := by
  obtain ⟨_, _, htables⟩ := tick_cases h
  rw [Timeline.Present, Timeline.experiments] at hpresent
  rw [htables] at hpresent ⊢
  rcases Counting.exec_cases m.1 m.2 s.tables with ⟨t, _, hexec⟩ |
    ⟨environmentId, cells, hbatch, hexec | ⟨counters, hadded, hexec⟩⟩
  · rw [hexec] at hpresent ⊢
    exact .inl (countersOf_cascade hpresent)
  · rw [hexec]
    exact .inl rfl
  · rw [hexec]
    by_cases hrunning : ∃ x ∈ s.experiments, x.id = id ∧ x.state = .running
    · exact .inr ⟨⟨environmentId, cells, hbatch⟩, hrunning⟩
    · refine .inl (countersOf_upsertCounters hadded ?_)
      exact fun x hx hid hstate => hrunning ⟨x, hx, hid, hstate⟩

/-- `delete_experiment` leaves running experiments in place. -/
theorem running_stays {environmentId : Uuid} {key : String}
    (hdelete : m.2 = .sql (.deleteExperiment environmentId key)) (h : tick m s = some s')
    (hx : x ∈ s.experiments) (hrunning : x.state = .running) : x ∈ s'.experiments := by
  obtain ⟨_, _, htables⟩ := tick_cases h
  rw [Timeline.experiments, htables]
  rcases Counting.exec_cases m.1 m.2 s.tables with ⟨t, ht, hexec⟩ | ⟨_, _, hbatch, _⟩
  · cases ht.symm.trans hdelete
    rw [hexec]
    rcases Sql.exec_db_cases m.1 (.deleteExperiment environmentId key) s.tables.db with
      hsame | ⟨w, hw, hdb⟩
    · simp only [hsame]
      exact hx
    · simp only [hdb, (Sql.deleteExperiment_cases hw).1]
      exact List.mem_filter.mpr ⟨hx, by simp [hrunning]⟩
  · cases hbatch.symm.trans hdelete

/-- Only a transition of the experiment moves it. -/
theorem moved_by (hs : Sane s) (h : tick m s = some s')
    (hx : x ∈ s.experiments) (hy : y ∈ s'.experiments) (hid : x.id = y.id)
    (hstate : y.state ≠ x.state) :
    m.2 = .sql (.transitionExperiment x.environmentId x.key x.state y.state) := by
  have hkept : y ∉ s.experiments := by
    intro hmem
    rw [hs.distinct.ids x hx y hmem hid] at hstate
    exact hstate rfl
  rcases change_tick h with hsame | ⟨t, ht, hchange⟩
  · exact absurd (hsame ▸ hy) hkept
  cases hchange with
  | fewer hafter =>
      rw [hafter] at hy
      exact absurd (List.mem_filter.mp hy).1 hkept
  | created _ hfresh _ hafter =>
      rw [hafter] at hy
      rcases List.mem_append.mp hy with hy | hy
      · exact absurd hy hkept
      · cases List.mem_singleton.mp hy
        exact absurd hid (hfresh x hx).1
  | @updated x' y' _ _ _ _ _ hx' hy' hafter =>
      rw [hafter] at hy
      rcases Table.mem_replace hy with rfl | ⟨hy, _⟩
      · rw [hy'] at hid hstate
        rw [hs.distinct.ids x hx x' (List.mem_of_find?_eq_some hx') hid] at hstate
        exact absurd rfl hstate
      · exact absurd hy hkept
  | @moved x' y' environmentId key source target _ hmove hx' hy' hafter =>
      rw [hafter] at hy
      rcases Table.mem_replace hy with rfl | ⟨hy, _⟩
      · have hfound := List.find?_some hx'
        simp only [Bool.and_eq_true, decide_eq_true_eq, ExperimentRow.isFor_iff] at hfound
        rw [hy'] at hid
        rw [hs.distinct.ids x hx x' (List.mem_of_find?_eq_some hx') hid, hfound.1.1, hfound.1.2,
          hfound.2, hy', ht, hmove]
      · exact absurd hy hkept

end Step

/-! ### Races -/

/-- The order of the states. -/
def rank : ExperimentState → Nat
  | .draft => 0
  | .running => 1
  | .stopped => 2

theorem Evolution.rank_le {now : Timestamp} {x y : ExperimentRow} (h : Evolution now x y) :
    rank x.state ≤ rank y.state := by
  rcases h.moved with ⟨hstate, _⟩ | ⟨hdraft, hstate, _⟩ | ⟨hrunning, hstate, _⟩
  · rw [hstate]
  · rw [hdraft, hstate]
    decide
  · rw [hrunning, hstate]
    decide

/-- A start or a stop. -/
inductive Kind : ExperimentState → ExperimentState → Prop where
  | start : Kind .draft .running
  | stop : Kind .running .stopped

/-- How many rows a transition has moved, if the statement is that transition and the database has
    executed it. -/
def answered (environmentId : Uuid) (key : String) (source target : ExperimentState)
    (e : Timeline × Issue) : Option Nat :=
  match e.2.2 with
  | .sql (.transitionExperiment environmentId' key' source' target') =>
      if environmentId' = environmentId ∧ key' = key ∧ source' = source ∧ target' = target then
        match (Sql.exec e.2.1 (.transitionExperiment environmentId key source target)
          e.1.tables.db).1 with
        | .ok moved => some moved
        | .error _ => none
      else none
  | _ => none

section Race

variable {environmentId : Uuid} {key : String} {source target : ExperimentState} {m : Issue}
  {s s' : Timeline} {x y : ExperimentRow} {n : Nat}

theorem answered_eq_some (h : answered environmentId key source target (s, m) = some n) :
    m.2 = .sql (.transitionExperiment environmentId key source target) ∧
      (Sql.exec m.1 (.transitionExperiment environmentId key source target) s.tables.db).1 =
        .ok n := by
  rw [answered] at h
  split at h
  · rename_i hstmt
    split at h
    · rename_i hsame
      obtain ⟨rfl, rfl, rfl, rfl⟩ := hsame
      split at h
      · rename_i hok
        cases h
        exact ⟨hstmt, hok⟩
      · cases h
    · cases h
  · cases h

/-- A transition without an answer has changed nothing. -/
theorem experiments_of_unanswered (h : tick m s = some s')
    (hstmt : m.2 = .sql (.transitionExperiment environmentId key source target))
    (hnone : answered environmentId key source target (s, m) = none) :
    s'.experiments = s.experiments := by
  obtain ⟨_, _, htables⟩ := tick_cases h
  obtain ⟨input, stmt⟩ := m
  cases hstmt
  simp only [answered, and_self, if_true] at hnone
  split at hnone
  · cases hnone
  · rename_i e herror
    rw [Timeline.experiments, htables]
    simp only [Counting.exec, Sql.db_of_exec_error herror]
    rfl

/-- What the answer to a transition says about the experiment that it names. -/
theorem answer_moves (hs : Sane s)
    (hn : (Sql.exec m.1 (.transitionExperiment environmentId key source target) s.tables.db).1 =
      .ok n)
    (hx : x ∈ s.experiments) (hfor : x.isFor environmentId key = true) :
    n = if x.state = source then 1 else 0 := by
  obtain ⟨w, hw, rfl, _⟩ := Sql.run_of_exec_ok hn
  have honly : ∀ r ∈ s.experiments, r.isFor environmentId key = true → r = x := by
    intro r hr hrfor
    rw [ExperimentRow.isFor_iff] at hrfor hfor
    exact hs.distinct.keys r hr x hx (hrfor.1.trans hfor.1.symm) (hrfor.2.trans hfor.2.symm)
  have hrun : Sql.modifyExperiment m.1
      (fun row => row.isFor environmentId key && row.state = source) _ s.tables.db = .ok w := hw
  rw [Sql.modifyExperiment] at hrun
  by_cases hstate : x.state = source
  · have hfound : s.tables.db.experiments.find?
        (fun row => row.isFor environmentId key && row.state = source) = some x := by
      apply Table.find?_of_unique hx
      · simp [hfor, hstate]
      · intro r hr hsel
        rw [Bool.and_eq_true] at hsel
        exact honly r hr hsel.1
    rw [hfound] at hrun
    obtain ⟨_, hrun⟩ := Sql.of_bumped hrun
    obtain ⟨_, hrun⟩ := Sql.of_require hrun
    cases hrun
    exact (if_pos hstate).symm
  · have hnone : s.tables.db.experiments.find?
        (fun row => row.isFor environmentId key && row.state = source) = none := by
      rw [List.find?_eq_none]
      intro r hr hsel
      simp only [Bool.and_eq_true, decide_eq_true_eq] at hsel
      rw [honly r hr hsel.1] at hsel
      exact hstate hsel.2
    rw [hnone] at hrun
    cases hrun
    exact (if_neg hstate).symm

/-- A transition that answers that it has moved a row has moved the experiment that it names. -/
theorem state_of_answer (hs : Sane s) (h : tick m s = some s')
    (hn : answered environmentId key source target (s, m) = some n) (hx : x ∈ s.experiments)
    (hy : y ∈ s'.experiments) (hid : x.id = y.id) (hfor : x.isFor environmentId key = true)
    (hstate : x.state = source) : y.state = target := by
  obtain ⟨hstmt, hok⟩ := answered_eq_some hn
  have hmoved := answer_moves hs hok hx hfor
  rw [if_pos hstate] at hmoved
  obtain ⟨w, hw, hvalue, hdb⟩ := Sql.run_of_exec_ok hok
  obtain ⟨_, _, htables⟩ := tick_cases h
  have hexperiments : s'.experiments = w.db.experiments := by
    rw [Timeline.experiments, htables, hstmt]
    simp only [Counting.exec, hdb]
  rw [hexperiments] at hy
  rcases Sql.modifyExperiment_cases hw with rfl | ⟨old, row, hold, _, hrow, rfl⟩
  · -- a row has been moved
    cases hvalue.trans hmoved
  · rcases Table.mem_replace hy with rfl | ⟨hy, hne⟩
    · rw [hrow]
    · rw [← hs.distinct.ids x hx y hy hid] at hne
      simp [hfor, hstate] at hne

/-- Of an experiment that waits for the transition: an answer moves it, and nothing else does. -/
theorem race_waiting (hkind : Kind source target) (hissued : Issued m.2) (hs : Sane s)
    (h : tick m s = some s') (hx : x ∈ s.experiments) (hy : y ∈ s'.experiments)
    (hid : x.id = y.id) (hstate : x.state = source) :
    (answered x.environmentId x.key source target (s, m) = some 1 ∧ rank source < rank y.state) ∨
      (answered x.environmentId x.key source target (s, m) = none ∧ y.state = source) := by
  have hfor : x.isFor x.environmentId x.key = true := ExperimentRow.isFor_iff.mpr ⟨rfl, rfl⟩
  have hrank : rank source < rank target := by
    cases hkind with
    | start => decide
    | stop => decide
  cases hanswer : answered x.environmentId x.key source target (s, m) with
  | some n =>
      have hmoved := answer_moves hs (answered_eq_some hanswer).2 hx hfor
      rw [if_pos hstate] at hmoved
      rw [hmoved, state_of_answer hs h hanswer hx hy hid hfor hstate]
      exact .inl ⟨rfl, hrank⟩
  | none =>
      refine .inr ⟨rfl, ?_⟩
      by_contra hne
      rw [← hstate] at hne
      have hstmt := moved_by hs h hx hy hid hne
      rw [hstmt, hstate] at hissued
      have htarget : y.state = target := by
        cases hkind with
        | start =>
            rcases hissued with ⟨_, htarget⟩ | ⟨hrunning, _⟩
            · exact htarget
            · cases hrunning
        | stop =>
            rcases hissued with ⟨hdraft, _⟩ | ⟨_, htarget⟩
            · cases hdraft
            · exact htarget
      rw [hstate, htarget] at hstmt
      rw [experiments_of_unanswered h hstmt hanswer] at hy
      rw [hs.distinct.ids x hx y hy hid] at hne
      exact hne rfl

/-- Of an experiment that is past the transition: an answer moves nothing. -/
theorem race_past (hs : Sane s) (hx : x ∈ s.experiments) (hrank : rank source < rank x.state) :
    answered x.environmentId x.key source target (s, m) = none ∨
      answered x.environmentId x.key source target (s, m) = some 0 := by
  have hfor : x.isFor x.environmentId x.key = true := ExperimentRow.isFor_iff.mpr ⟨rfl, rfl⟩
  cases hanswer : answered x.environmentId x.key source target (s, m) with
  | none => exact .inl rfl
  | some n =>
      have hmoved := answer_moves hs (answered_eq_some hanswer).2 hx hfor
      rw [if_neg] at hmoved
      · exact .inr (by rw [hmoved])
      · intro hstate
        rw [hstate] at hrank
        exact Nat.lt_irrefl _ hrank

end Race

/-! ### Whole runs -/

section Run

variable {start s s₁ s₂ : Timeline} {earlier later : List (Timeline × Issue)} {x : ExperimentRow}

/-- Every state that a run leads to from no experiments is sane. -/
theorem sane_run (h : Trace tick start earlier s)
    (hempty : start.experiments = [] ∧ start.tables.counters = [])
    (hissued : ∀ e ∈ earlier, Issued e.2.2) : Sane s := by
  have hstart : Sane start := by
    constructor
    · constructor
      · rw [hempty.1]
        exact fun x hx => by cases hx
      · rw [hempty.1]
        exact fun x hx => by cases hx
    · rw [hempty.1]
      exact fun x hx => by cases hx
    · rw [hempty.2]
      exact fun c hc => by cases hc
  have hkeep : ∀ (s : Timeline) (m : Issue) (s' : Timeline), Issued m.2 → tick m s = some s' →
      Sane s → Sane s' := fun _ _ _ hm hstep hs => sane_tick hm hstep hs
  exact (h.invariant hkeep hissued hstart).2

/-- What has become of an experiment that has stayed, at the end of a run. -/
structure Persisted (x y : ExperimentRow) (s₁ s₂ : Timeline) : Prop where
  id : y.id = x.id
  measured : y.flagId = x.flagId ∧ y.metricKey = x.metricKey ∧ y.controlVariant = x.controlVariant
  addressed : y.environmentId = x.environmentId ∧ y.key = x.key
  forward : rank x.state ≤ rank y.state
  frozen : x.state = .stopped → y.state = .stopped ∧ y.startedAt = x.startedAt ∧
    y.stoppedAt = x.stoppedAt ∧ countersOf x.id s₂.tables = countersOf x.id s₁.tables

/-- An experiment that stays keeps what it measures, moves forward only, and is final once it is
    stopped. -/
theorem persists (h : Trace tick s₁ later s₂) (hs : Sane s₁)
    (hissued : ∀ e ∈ later, Issued e.2.2) (hx : x ∈ s₁.experiments)
    (hpresent : ∀ e ∈ later, e.1.Present x.id) (hend : s₂.Present x.id) :
    Sane s₂ ∧ ∃ y ∈ s₂.experiments, Persisted x y s₁ s₂ := by
  induction h with
  | start =>
      exact ⟨hs, x, hx, rfl, ⟨rfl, rfl, rfl⟩, ⟨rfl, rfl⟩, Nat.le_refl _,
        fun hstopped => ⟨hstopped, rfl, rfl, rfl⟩⟩
  | @move history s s' m _ hstep ih =>
      rw [List.forall_mem_cons] at hissued hpresent
      obtain ⟨hsane, y, hy, hpersisted⟩ := ih hissued.2 hpresent.2 hpresent.1
      obtain ⟨z, hz, hid⟩ := hend
      have hevolution := evolution hissued.1 hsane hstep hy hz (hpersisted.id.trans hid.symm)
      refine ⟨sane_tick hissued.1 hstep hsane, z, hz, ?_⟩
      constructor
      case id => exact hid
      case measured =>
        obtain ⟨hflag, hmetric, hcontrol⟩ := hevolution.measured
        rw [hflag, hmetric, hcontrol]
        exact hpersisted.measured
      case addressed =>
        rw [hevolution.addressed.1, hevolution.addressed.2]
        exact hpersisted.addressed
      case forward => exact Nat.le_trans hpersisted.forward hevolution.rank_le
      case frozen =>
        intro hstopped
        obtain ⟨hstate, hstarted, hended, hcounters⟩ := hpersisted.frozen hstopped
        have hkept : z.state = y.state ∧ z.startedAt = y.startedAt ∧ z.stoppedAt = y.stoppedAt := by
          rcases hevolution.moved with hsame | ⟨hdraft, _⟩ | ⟨hrunning, _⟩
          · exact hsame
          · rw [hstate] at hdraft
            cases hdraft
          · rw [hstate] at hrunning
            cases hrunning
        rw [hkept.1, hkept.2.1, hkept.2.2]
        refine ⟨hstate, hstarted, hended, ?_⟩
        rcases countersOf_tick hstep ⟨z, hz, hid⟩ with hsame | ⟨_, r, hr, hrid, hrunning⟩
        · exact hsame.trans hcounters
        · rw [hsane.distinct.ids r hr y hy (hrid.trans hpersisted.id.symm), hstate] at hrunning
          cases hrunning

/-- The answers to a transition of an experiment that waits for it: none as long as it waits, and
    then one that moves it among others that do not. -/
theorem races {source target : ExperimentState} (hkind : Kind source target)
    (h : Trace tick s₁ later s₂) (hs : Sane s₁) (hissued : ∀ e ∈ later, Issued e.2.2)
    (hx : x ∈ s₁.experiments) (hstate : x.state = source)
    (hpresent : ∀ e ∈ later, e.1.Present x.id) (hend : s₂.Present x.id) :
    ∃ y ∈ s₂.experiments, y.id = x.id ∧
      ((y.state = source ∧
          later.filterMap (answered x.environmentId x.key source target) = []) ∨
        (rank source < rank y.state ∧
          (later.filterMap (answered x.environmentId x.key source target)).count 1 = 1 ∧
          ∀ n ∈ later.filterMap (answered x.environmentId x.key source target), n ≤ 1)) := by
  induction h with
  | start => exact ⟨x, hx, rfl, .inl ⟨hstate, rfl⟩⟩
  | @move history s s' m htrace hstep ih =>
      rw [List.forall_mem_cons] at hissued hpresent
      obtain ⟨y, hy, hyid, hanswers⟩ := ih hissued.2 hpresent.2 hpresent.1
      obtain ⟨hsane, y', hy', hpersisted⟩ := persists htrace hs hissued.2 hx hpresent.2 hpresent.1
      obtain rfl := hsane.distinct.ids y' hy' y hy (hpersisted.id.trans hyid.symm)
      obtain ⟨z, hz, hid⟩ := hend
      have hyz : y'.id = z.id := hyid.trans hid.symm
      refine ⟨z, hz, hid, ?_⟩
      rw [← hpersisted.addressed.1, ← hpersisted.addressed.2] at hanswers ⊢
      rcases hanswers with ⟨hwaiting, hnone⟩ | ⟨hpast, hone, hle⟩
      · rcases race_waiting hkind hissued.1 hsane hstep hy hz hyz hwaiting with
          ⟨hanswer, hmoved⟩ | ⟨hanswer, hstill⟩
        · rw [List.filterMap_cons_some hanswer, hnone]
          exact .inr ⟨hmoved, by decide, by decide⟩
        · rw [List.filterMap_cons_none hanswer]
          exact .inl ⟨hstill, hnone⟩
      · have hmonotone := (evolution hissued.1 hsane hstep hy hz hyz).rank_le
        rcases race_past hsane hy hpast (m := m) with hanswer | hanswer
        · rw [List.filterMap_cons_none hanswer]
          exact .inr ⟨Nat.lt_of_lt_of_le hpast hmonotone, hone, hle⟩
        · rw [List.filterMap_cons_some hanswer]
          refine .inr ⟨Nat.lt_of_lt_of_le hpast hmonotone, ?_, ?_⟩
          · rw [List.count_cons_of_ne (by decide)]
            exact hone
          · rw [List.forall_mem_cons]
            exact ⟨Nat.zero_le _, hle⟩

/-- The time stamps, by the state. -/
theorem Stamped.null_iff {now : Timestamp} (h : Stamped now x) :
    (x.startedAt = none ↔ x.state = .draft) ∧ (x.stoppedAt ≠ none ↔ x.state = .stopped) ∧
      ∀ t u, x.startedAt = some t → x.stoppedAt = some u → t ≤ u := by
  rw [Stamped] at h
  cases hstate : x.state with
  | draft =>
      rw [hstate] at h
      simp [h.1, h.2]
  | running =>
      rw [hstate] at h
      obtain ⟨t, _, hstarted, hstopped⟩ := h
      simp [hstarted, hstopped]
  | stopped =>
      rw [hstate] at h
      obtain ⟨t, u, htu, _, hstarted, hstopped⟩ := h
      simp [hstarted, hstopped, htu]

/-- The life of every experiment, in every run that starts without experiments. In every state that is
    reached, the time stamps and the counters are those of the state of the experiment. Every further
    statement evolves experiments forward, touches counters only as a batch and while the experiment
    is running, and deletes no running experiment as a delete. And whatever statements follow, an
    experiment that stays keeps what it measures and is final once it is stopped; of the starts that
    the database executes on a draft exactly one moves it, and likewise of the stops. -/
theorem lifecycle (hearlier : Trace tick start earlier s₁)
    (hempty : start.experiments = [] ∧ start.tables.counters = [])
    (hissued : ∀ e ∈ earlier, Issued e.2.2) :
    (∀ x ∈ s₁.experiments, (x.startedAt = none ↔ x.state = .draft) ∧
      (x.stoppedAt ≠ none ↔ x.state = .stopped) ∧
      (∀ t u, x.startedAt = some t → x.stoppedAt = some u → t ≤ u) ∧
      (x.state = .draft → countersOf x.id s₁.tables = [])) ∧
    (∀ m s', Issued m.2 → tick m s₁ = some s' →
      (∀ y ∈ s'.experiments, ¬s₁.Present y.id → y.state = .draft) ∧
      (∀ x ∈ s₁.experiments, ∀ y ∈ s'.experiments, x.id = y.id → Evolution s'.clock x y ∧
        (countersOf x.id s'.tables = countersOf x.id s₁.tables ∨
          (∃ environmentId cells, m.2 = .ingest environmentId cells) ∧ x.state = .running)) ∧
      (∀ environmentId key, m.2 = .sql (.deleteExperiment environmentId key) →
        ∀ x ∈ s₁.experiments, x.state = .running → x ∈ s'.experiments)) ∧
    (∀ later s₂, Trace tick s₁ later s₂ → (∀ e ∈ later, Issued e.2.2) →
      ∀ x ∈ s₁.experiments, (∀ e ∈ later, e.1.Present x.id) → s₂.Present x.id →
        (∃ y ∈ s₂.experiments, Persisted x y s₁ s₂) ∧
        ∀ source target, Kind source target → x.state = source →
          later.filterMap (answered x.environmentId x.key source target) ≠ [] →
            (later.filterMap (answered x.environmentId x.key source target)).count 1 = 1 ∧
            ∀ n ∈ later.filterMap (answered x.environmentId x.key source target), n ≤ 1) := by
  have hs := sane_run hearlier hempty hissued
  refine ⟨?_, ?_, ?_⟩
  · intro x hx
    obtain ⟨hstarted, hstopped, horder⟩ := (hs.stamped x hx).null_iff
    refine ⟨hstarted, hstopped, horder, ?_⟩
    intro hdraft
    rw [countersOf, List.filter_eq_nil_iff]
    intro c hc hid
    obtain ⟨y, hy, hyid, hstate⟩ := hs.counters c hc
    rw [hs.distinct.ids y hy x hx (hyid.trans (of_decide_eq_true hid))] at hstate
    exact hstate hdraft
  · intro m s' hm hstep
    refine ⟨?_, ?_, fun _ _ hdelete _ hx hrunning => running_stays hdelete hstep hx hrunning⟩
    · intro y hy hnew
      rcases evolves hm hstep hy with ⟨_, hdraft, _⟩ | ⟨x, hx, hid, _⟩
      · exact hdraft
      · exact absurd ⟨x, hx, hid⟩ hnew
    · intro x hx y hy hid
      refine ⟨evolution hm hs hstep hx hy hid, ?_⟩
      rcases countersOf_tick hstep ⟨y, hy, hid.symm⟩ with hsame | ⟨hbatch, r, hr, hrid, hrunning⟩
      · exact .inl hsame
      · rw [hs.distinct.ids r hr x hx hrid] at hrunning
        exact .inr ⟨hbatch, hrunning⟩
  · intro later s₂ hlater hm x hx hpresent hend
    refine ⟨(persists hlater hs hm hx hpresent hend).2, ?_⟩
    intro source target hkind hstate hexecuted
    obtain ⟨y, _, _, ⟨_, hnone⟩ | ⟨_, hanswers⟩⟩ :=
      races hkind hlater hs hm hx hstate hpresent hend
    · exact absurd hnone hexecuted
    · exact hanswers

end Run

/-! ### One experiment -/

namespace Launch

/-- A flag and an environment. -/
def empty : Timeline where
  clock := 0
  tables := {
    db := { Db.empty with
      environments := [⟨⟨2⟩, ⟨1⟩, "live", "Live", "salt", false, 0⟩]
      flags := [⟨⟨3⟩, ⟨1⟩, "checkout", "Checkout", none, [⟨"on", .bool true⟩], false, 0, 0⟩] }
    counters := [] }

def exposure : Counting.DeltaCell × Nat :=
  (⟨"trial", "on", .exposure, 0⟩, 7)

/-- Two starts race, a batch comes in, the experiment is stopped, and a batch comes in late. -/
def issues : List Issue :=
  [(⟨⟨5⟩, 1, false⟩, .sql (.insertExperiment ⟨2⟩ ⟨3⟩ "trial" "Trial" none "sales" "on")),
    (⟨⟨6⟩, 2, false⟩, .sql (.transitionExperiment ⟨2⟩ "trial" .draft .running)),
    (⟨⟨7⟩, 3, false⟩, .sql (.transitionExperiment ⟨2⟩ "trial" .draft .running)),
    (⟨⟨8⟩, 4, false⟩, .ingest ⟨2⟩ [exposure]),
    (⟨⟨9⟩, 5, false⟩, .sql (.transitionExperiment ⟨2⟩ "trial" .running .stopped)),
    (⟨⟨10⟩, 6, false⟩, .ingest ⟨2⟩ [exposure])]

theorem issued : ∀ m ∈ issues, Issued m.2 := by
  simp [issues, Issued]

/-- What has become of the experiments and of the counters. -/
def outcome (s : Timeline) :
    List (ExperimentState × Option Timestamp × Option Timestamp) × List CounterRow :=
  (s.experiments.map fun x => (x.state, x.startedAt, x.stoppedAt), s.tables.counters)

end Launch

/-- The run ends with the experiment stopped and its counters as they were, and goes on so. -/
theorem lifecycle_launched : ∃ s : Timeline,
    Launch.outcome s = ([(.stopped, some 2, some 5)], [⟨⟨5⟩, "on", .exposure, 0, 7⟩]) ∧
      ∀ m s', Issued m.2 → tick m s = some s' → ∀ x ∈ s.experiments, ∀ y ∈ s'.experiments,
        x.id = y.id → Evolution s'.clock x y := by
  have hrun : (Machine.follow tick Launch.issues Launch.empty).map Launch.outcome =
      some ([(.stopped, some 2, some 5)], [⟨⟨5⟩, "on", .exposure, 0, 7⟩]) := by decide
  obtain ⟨s, hs, houtcome⟩ := Option.map_eq_some_iff.mp hrun
  obtain ⟨history, htrace, hmoves⟩ := Machine.trace_of_follow hs
  refine ⟨s, houtcome, ?_⟩
  intro m s' hm hstep x hx y hy hid
  refine (((lifecycle htrace ⟨rfl, rfl⟩ ?_).2.1 m s' hm hstep).2.1 x hx y hy hid).1
  intro e he
  apply Launch.issued
  rw [← List.mem_reverse, ← hmoves]
  exact List.mem_map_of_mem he

end FlagForge.Storage
