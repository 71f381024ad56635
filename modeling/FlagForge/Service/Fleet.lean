/-
Module: FlagForge.Service.Fleet
Layer: Service
Purpose: All clients of an environment and the server that counts for them. Clients evaluate, track and
  flush, their batches arrive, get lost or are refused in any order, and the server runs any other
  statements in between. Every decision under a running experiment is in one place at every moment:
  with its client, among the drops, or in the totals that the results are made of.
Imports: FlagForge.Sdk.Delivery, FlagForge.Storage.Arms, FlagForge.Api.CounterBound
Trusted boundary: as in FlagForge.Sdk.Delivery and FlagForge.Api.Events
Main exports: Fleet, Fleet.Move, Fleet.step, Fleet.pending, Fleet.decisions_counted
-/
import FlagForge.Sdk.Delivery
import FlagForge.Storage.Arms
import FlagForge.Api.CounterBound

namespace FlagForge.Service

open Storage Api
open Sdk (Cell)
open Sdk.Delivery (Balanced payload)
open Counters (tally)
open Machine (Trace)

/-- The clients of an environment and the tables of the server. -/
structure Fleet (Time : Type) where
  clients : List (Sdk.Delivery.State Time)
  server : Measured

namespace Fleet

variable {Time : Type}

/-! ### What travels -/

/-- The kind of an event under the server's name for it. -/
def kindOf : Sdk.EventKind → CounterKind
  | .exposure => .exposure
  | .conversion => .conversion

/-- What the endpoint reads of an `EventPayload`, which has no time of its own. -/
def eventOf (e : Cell × Nat) : EventDelta where
  experimentKey := e.1.experimentKey
  variant := e.1.variant
  kind := kindOf e.1.kind
  count := e.2
  happened := none

/-- The experiments of the environment that are running. -/
def running (environmentId : Uuid) (m : Measured) (key : String) : Bool :=
  m.db.experiments.any fun x => x.isFor environmentId key && x.state = .running

/-- The endpoint serves a batch. -/
def serve (trunc : Timestamp → Option Timestamp) (environmentId : Uuid) (now : Timestamp)
    (input : Sql.Input) (events : List (Cell × Nat)) (m : Measured) :
    Except ApiError (Nat × Nat) × Measured :=
  Prog.runAlone Counting.exec (fun _ => input)
    (Events.ingest trunc now environmentId (events.map eventOf)).run m

inductive Move (Time : Type) where
  /-- A client does something that does not reach the server. -/
  | own (j : Nat) (m : Sdk.Delivery.Move Time)
  /-- The request of a flush of a client reaches the server, which answers it or refuses it. -/
  | deliver (j i : Nat) (now : Timestamp) (input : Sql.Input)
  /-- A request that the client has given up does. -/
  | deliverLate (j k : Nat) (now : Timestamp) (input : Sql.Input)
  /-- The server runs a statement of another request. -/
  | other (s : Counting.Stmt) (input : Sql.Input)

/-- The moves of a client that are the server's to make. -/
def atServer : Sdk.Delivery.Move Time → Bool
  | .apply .. | .arrive .. => true
  | _ => false

/-- The batches of the environment come from its clients only. -/
def foreign (environmentId : Uuid) : Counting.Stmt → Bool
  | .sql _ => true
  | .ingest here _ => here ≠ environmentId

/-- One move of the fleet. A client's own moves leave the server alone; a batch that the server handles
    is applied to its tables in the same move in which the client's books note it as delivered. -/
def step (crates : Crates) (trunc : Timestamp → Option Timestamp) (environmentId : Uuid) :
    Move Time → Fleet Time → Option (Fleet Time)
  | .own j m, s =>
      if atServer m then none
      else do
        let client ← s.clients[j]?
        let client' ← Sdk.Delivery.step crates m client
        some { s with clients := s.clients.set j client' }
  | .deliver j i now input, s => do
      let client ← s.clients[j]?
      let flush ← client.flushes[i]?
      let served := serve trunc environmentId now input (payload flush.left) s.server
      let client' ← Sdk.Delivery.step crates
        (if served.1.isOk then .apply i (running environmentId s.server) else .lose i) client
      some ⟨s.clients.set j client', served.2⟩
  | .deliverLate j k now input, s => do
      let client ← s.clients[j]?
      let events ← client.late[k]?
      let served := serve trunc environmentId now input events s.server
      if served.1.isOk then do
        let client' ← Sdk.Delivery.step crates (.arrive k (running environmentId s.server)) client
        some ⟨s.clients.set j client', served.2⟩
      -- one that is refused is as good as lost
      else none
  | .other stmt input, s =>
      if foreign environmentId stmt then
        some { s with server := (Counting.exec input stmt s.server).2 }
      else none

/-- A post that ends in an error was not applied and will not be. -/
def Settled (s : Fleet Time) : Move Time → Prop
  | .own j m => ∀ client ∈ s.clients[j]?, Sdk.Delivery.Settled client m
  | _ => True

instance {s : Fleet Time} {m : Move Time} : Decidable (Settled s m) :=
  match m with
  | .own j m =>
      inferInstanceAs (Decidable (∀ client ∈ s.clients[j]?, Sdk.Delivery.Settled client m))
  | .deliver .. | .deliverLate .. | .other .. => .isTrue trivial

/-- No count that is flushed is above what an event can carry. -/
def Carried : Move Time → Prop
  | .own _ m => Sdk.Delivery.Carried m
  | _ => True

instance {m : Move Time} : Decidable (Carried m) :=
  match m with
  | .own _ m => inferInstanceAs (Decidable (Sdk.Delivery.Carried m))
  | .deliver .. | .deliverLate .. | .other .. => .isTrue trivial

/-- The record calls that a move must lead to. -/
def expected (crates : Crates) (s : Fleet Time) : Move Time → List Cell
  | .own j m => s.clients[j]?.elim [] fun client => Sdk.Delivery.expected crates client m
  | _ => []

/-- The decisions of the cell that clients still have, or have dropped. -/
def pending (cell : Cell) (s : Fleet Time) : Nat :=
  (s.clients.map fun client => tally cell client.underWay + client.recorder.counts.count cell +
    tally cell client.books.dropped + client.calls.flatten.count cell).sum

/-! ### The server -/

section Server

variable {trunc : Timestamp → Option Timestamp} {environmentId : Uuid} {now : Timestamp}
  {input : Sql.Input} {events : List (Cell × Nat)} {m : Measured}

/-- An ingest fails and changes nothing, or adds all its rows to the counters. -/
theorem exec_ingest_cases (input : Sql.Input) (environmentId : Uuid)
    (cells : List (Counting.DeltaCell × Nat)) (m : Measured) :
    (∃ e, Counting.exec input (.ingest environmentId cells) m = (.error e, m)) ∨
      ∃ written counters, Counting.upsertCounters
          (cells.flatMap (Counting.joined environmentId m.db)) m.counters = .ok counters ∧
        Counting.exec input (.ingest environmentId cells) m =
          (.ok written, { m with counters := counters }) := by
  simp only [Counting.exec]
  split
  · exact .inl ⟨_, rfl⟩
  · split
    · rename_i written hwritten
      obtain ⟨counters, hcounters, hm⟩ := Counting.ingestCells_cases hwritten
      exact .inr ⟨written.1, counters, hcounters, by rw [hm]⟩
    · exact .inl ⟨_, rfl⟩

/-- Once the deltas of a request are told, serving it is ingesting them. -/
theorem serve_deltas {deltas : List CounterDelta}
    (hdeltas : Events.deltas now (events.map eventOf) = .ok deltas) :
    serve trunc environmentId now input events m =
      Prog.runAlone Counting.exec (fun _ => input) (ExceptT.run
        ((Counting.ingestCounters trunc environmentId deltas).adapt ApiError.ofStorage >>=
          fun accepted => pure (accepted, (events.map eventOf).length))) m := by
  simp only [serve, Events.ingest, hdeltas]
  rfl

/-- A batch that collapses to cells is answered as its one statement is. -/
theorem serve_collapsed {deltas : List CounterDelta} {cells : List (Counting.DeltaCell × Nat)}
    (hdeltas : Events.deltas now (events.map eventOf) = .ok deltas)
    (hcells : Counting.collapse trunc deltas [] = some cells) :
    (serve trunc environmentId now input events m).1.isOk =
        Except.isOk (Counting.exec input (.ingest environmentId cells) m).1 ∧
      (serve trunc environmentId now input events m).2 =
        (Counting.exec input (.ingest environmentId cells) m).2 := by
  rw [serve_deltas hdeltas]
  simp only [Counting.ingestCounters, hcells]
  change Except.isOk (Prog.runAlone Counting.exec _ (.call
      (Counting.Stmt.ingest environmentId cells) _) m).1 = _ ∧
    (Prog.runAlone Counting.exec _ (.call (Counting.Stmt.ingest environmentId cells) _) m).2 = _
  rcases exec_ingest_cases input environmentId cells m with ⟨e, hexec⟩ | ⟨written, _, _, hexec⟩
  · rw [Prog.runAlone, hexec]
    exact ⟨rfl, rfl⟩
  · rw [Prog.runAlone, hexec]
    exact ⟨rfl, rfl⟩

/-- A batch is refused and changes nothing, or its cells are added. -/
theorem serve_cases : ((serve trunc environmentId now input events m).1.isOk = false ∧
      (serve trunc environmentId now input events m).2 = m) ∨
    ((serve trunc environmentId now input events m).1.isOk = true ∧ ∃ cells counters,
      Counting.collapse trunc (events.map fun e => Events.delta now (eventOf e)) [] = some cells ∧
      Counting.upsertCounters (cells.flatMap (Counting.joined environmentId m.db)) m.counters =
        .ok counters ∧
      (serve trunc environmentId now input events m).2 = { m with counters := counters }) := by
  cases hdeltas : Events.deltas now (events.map eventOf) with
  | error e =>
      left
      simp only [serve, Events.ingest, hdeltas]
      exact ⟨rfl, rfl⟩
  | ok deltas =>
      have hmap : deltas = events.map fun e => Events.delta now (eventOf e) := by
        rw [(Events.deltas_eq_ok_iff.mp hdeltas).2.2, List.map_map]
        rfl
      subst hmap
      cases hcells : Counting.collapse trunc (events.map fun e => Events.delta now (eventOf e)) [] with
      | none =>
          left
          rw [serve_deltas hdeltas]
          simp only [Counting.ingestCounters, hcells]
          exact ⟨rfl, rfl⟩
      | some cells =>
          obtain ⟨hok, hafter⟩ : _ ∧ (serve trunc environmentId now input events m).2 = _ :=
            serve_collapsed hdeltas hcells
          rw [hok, hafter]
          rcases exec_ingest_cases input environmentId cells m with ⟨e, hexec⟩ |
            ⟨written, counters, hcounters, hexec⟩
          · left
            rw [hexec]
            exact ⟨rfl, rfl⟩
          · right
            rw [hexec]
            exact ⟨rfl, cells, counters, rfl, hcounters, rfl⟩

/-- Kinds are told apart under either name. -/
theorem kindOf_injective {a b : Sdk.EventKind} (h : kindOf a = kindOf b) : a = b := by
  cases a <;> cases b <;> first | rfl | cases h

/-- What a batch names an arm with is what the clients have booked on its cell. -/
theorem tally_deltas (cell : Cell) :
    tally (cell.experimentKey, cell.variant, kindOf cell.kind)
        ((events.map fun e => Events.delta now (eventOf e)).map Counting.ofDelta) =
      tally cell events := by
  rw [List.map_map]
  apply Counters.tally_map (f := fun c : Cell => (c.experimentKey, c.variant, kindOf c.kind))
  intro a b h
  obtain ⟨hkey, hvariant, hkind⟩ : a.experimentKey = b.experimentKey ∧ a.variant = b.variant ∧
      kindOf a.kind = kindOf b.kind := by simpa using h
  cases a
  cases b
  cases kindOf_injective hkind
  cases hkey
  cases hvariant
  rfl

/-- The primary keys of the tables that are counted in. -/
structure Keyed (m : Measured) : Prop where
  indexed : Ingest.Indexed m.db
  counters : CounterKeys m.counters

/-- A batch that is answered adds to every arm of a running experiment what the client has booked. -/
theorem serve_counts {experimentId : Uuid} {cell : Cell} (hkeyed : Keyed m)
    (hruns : RunsAs experimentId environmentId cell.experimentKey m.db) :
    Keyed (serve trunc environmentId now input events m).2 ∧
      armTotal experimentId cell.variant (kindOf cell.kind)
          (serve trunc environmentId now input events m).2.counters =
        armTotal experimentId cell.variant (kindOf cell.kind) m.counters +
          if (serve trunc environmentId now input events m).1.isOk then tally cell events else 0 := by
  rcases @serve_cases trunc environmentId now input events m with ⟨hrefused, hsame⟩ |
    ⟨hok, cells, counters, hcells, hcounters, hm⟩
  · rw [hrefused, hsame]
    exact ⟨hkeyed, rfl⟩
  · rw [hok, hm]
    refine ⟨⟨hkeyed.indexed, hkeyed.counters.upserts hcounters⟩, ?_⟩
    have hcollapsed := tally_collapse (cell.experimentKey, cell.variant, kindOf cell.kind) hcells
    rw [tally_deltas] at hcollapsed
    simp only [if_true, armTotal_ingest hkeyed.indexed hkeyed.counters hruns hcounters, hcollapsed]
    simp

/-- Another statement leaves the arms of an experiment alone that is there after it. -/
theorem other_counts {experimentId : Uuid} {key : String} (variant : String) (kind : CounterKind)
    {stmt : Counting.Stmt} (hforeign : foreign environmentId stmt = true) (hkeyed : Keyed m)
    (hruns : RunsAs experimentId environmentId key m.db)
    (hafter : RunsAs experimentId environmentId key (Counting.exec input stmt m).2.db) :
    Keyed (Counting.exec input stmt m).2 ∧
      armTotal experimentId variant kind (Counting.exec input stmt m).2.counters =
        armTotal experimentId variant kind m.counters := by
  cases stmt with
  | sql t =>
      refine ⟨⟨indexed_exec hkeyed.indexed, ?_⟩, armTotal_cascade hafter⟩
      exact (List.filter_sublist.map _).nodup hkeyed.counters
  | ingest here cells =>
      have hhere : here ≠ environmentId := by simpa [foreign] using hforeign
      rcases exec_ingest_cases input here cells m with ⟨e, hexec⟩ |
        ⟨written, counters, hcounters, hexec⟩
      · rw [hexec]
        exact ⟨hkeyed, rfl⟩
      · rw [hexec]
        refine ⟨⟨hkeyed.indexed, hkeyed.counters.upserts hcounters⟩, ?_⟩
        rw [armTotal_ingest hkeyed.indexed hkeyed.counters hruns hcounters, if_neg hhere,
          Nat.add_zero]

end Server

/-! ### The clients -/

section Clients

variable {crates : Crates} {c c' : Sdk.Delivery.State Time} {m : Sdk.Delivery.Move Time}

/-- What the server has of a client changes at the server only. -/
theorem delivered_of_own (h : Sdk.Delivery.step crates m c = some c') (hown : atServer m = false) :
    c'.books.delivered = c.books.delivered := by
  cases m with
  | apply | arrive => cases hown
  | load | evaluate | track =>
      cases h
      rfl
  | record | post | lose =>
      rw [Sdk.Delivery.step] at h
      split at h
      · cases h
        rfl
      · cases h
  | flush cells =>
      simp only [Sdk.Delivery.step] at h
      split at h
      · cases h
        rfl
      · cases h
  | succeed i =>
      rw [Sdk.Delivery.step] at h
      split at h
      · cases h
        rfl
      · cases h
  | fail i cells =>
      rw [Sdk.Delivery.step] at h
      split at h
      · split at h
        · cases h
          rfl
        · cases h
      · cases h

/-- A batch that the server applies is delivered. -/
theorem delivered_of_apply {i : Nat} {runs : String → Bool} {flush : Sdk.Delivery.Flush}
    (hflush : c.flushes[i]? = some flush) (h : Sdk.Delivery.step crates (.apply i runs) c = some c') :
    c'.books.delivered = c.books.delivered ++ payload flush.left := by
  rw [Sdk.Delivery.step, hflush] at h
  split at h
  · rename_i heq
    cases heq
    cases h
    rfl
  · cases h

/-- So is one that arrives late. -/
theorem delivered_of_arrive {k : Nat} {runs : String → Bool} {events : List (Cell × Nat)}
    (hlate : c.late[k]? = some events) (h : Sdk.Delivery.step crates (.arrive k runs) c = some c') :
    c'.books.delivered = c.books.delivered ++ events := by
  rw [Sdk.Delivery.step, hlate] at h
  cases h
  rfl

end Clients

/-! ### Runs -/

/-- Every decision of the cell is in one place. What was called for is recorded or still to be, and what
    the clients have delivered is in the total of the arm. -/
structure Conserved (exact : Prop) (experimentId : Uuid) (cell : Cell) (base : Nat)
    (decided : List Cell) (s : Fleet Time) : Prop where
  balanced : ∀ c ∈ s.clients, Balanced exact c
  keyed : Keyed s.server
  counted : armTotal experimentId cell.variant (kindOf cell.kind) s.server.counters =
    base + (s.clients.map fun c => tally cell c.books.delivered).sum
  called : (s.clients.map fun c =>
    c.books.recorded.count cell + c.calls.flatten.count cell).sum = decided.count cell

section Run

variable {crates : Crates} {trunc : Timestamp → Option Timestamp} {environmentId experimentId : Uuid}
  {exact : Prop} {cell : Cell} {base : Nat} {decided : List Cell} {s s' : Fleet Time}

/-- A move of one client, of which the server counts what it delivers. -/
theorem Conserved.client {j : Nat} {c c' : Sdk.Delivery.State Time} {m : Sdk.Delivery.Move Time}
    {server : Measured} (events : List (Cell × Nat))
    (h : Conserved exact experimentId cell base decided s) (hc : s.clients[j]? = some c)
    (hstep : Sdk.Delivery.step crates m c = some c') (hsettled : Sdk.Delivery.Settled c m)
    (hcarried : exact → Sdk.Delivery.Carried m)
    (hdelivered : c'.books.delivered = c.books.delivered ++ events) (hkeyed : Keyed server)
    (hcounts : armTotal experimentId cell.variant (kindOf cell.kind) server.counters =
      armTotal experimentId cell.variant (kindOf cell.kind) s.server.counters + tally cell events) :
    Conserved exact experimentId cell base (Sdk.Delivery.expected crates c m ++ decided)
      ⟨s.clients.set j c', server⟩ := by
  obtain ⟨before, after, hclients, _, hset⟩ := Machine.exists_around hc
  have hmem : c ∈ s.clients := List.mem_of_getElem? hc
  have hcounted := h.counted
  have hcalled := h.called
  have hcall := Sdk.Delivery.called_step hstep cell
  rw [hset]
  constructor
  case balanced =>
    intro d hd
    rw [List.mem_append, List.mem_cons] at hd
    rcases hd with hd | rfl | hd
    · exact h.balanced d (by rw [hclients]; exact List.mem_append_left _ hd)
    · exact Sdk.Delivery.balanced_step hsettled hcarried hstep (h.balanced c hmem)
    · exact h.balanced d (by
        rw [hclients]
        exact List.mem_append_right _ (List.mem_cons_of_mem _ hd))
  case keyed => exact hkeyed
  case counted =>
    rw [hclients] at hcounted
    simp only [List.map_append, List.map_cons, List.sum_append, List.sum_cons, hdelivered,
      Counters.tally_append] at hcounted ⊢
    omega
  case called =>
    rw [hclients] at hcalled
    simp only [List.map_append, List.map_cons, List.sum_append, List.sum_cons,
      List.count_append] at hcalled ⊢
    omega

/-- Every move keeps every decision in one place, while the experiment runs. -/
theorem conserved_step {m : Move Time} (hstep : step crates trunc environmentId m s = some s')
    (hsettled : Settled s m) (hcarried : exact → Carried m)
    (hruns : RunsAs experimentId environmentId cell.experimentKey s.server.db)
    (hafter : RunsAs experimentId environmentId cell.experimentKey s'.server.db)
    (h : Conserved exact experimentId cell base decided s) :
    Conserved exact experimentId cell base (expected crates s m ++ decided) s' := by
  cases m with
  | own j m =>
      rw [step] at hstep
      split at hstep
      · cases hstep
      · rename_i hown
        simp only [Option.bind_eq_bind, Option.bind_eq_some_iff] at hstep
        obtain ⟨c, hc, c', hclient, hs'⟩ := hstep
        cases hs'
        rw [expected, hc]
        apply h.client [] hc hclient (hsettled c hc) hcarried _ h.keyed rfl
        rw [List.append_nil]
        exact delivered_of_own hclient (Bool.eq_false_iff.mpr hown)
  | deliver j i now input =>
      simp only [step, Option.bind_eq_bind, Option.bind_eq_some_iff] at hstep
      obtain ⟨c, hc, flush, hflush, c', hclient, hs'⟩ := hstep
      cases hs'
      obtain ⟨hkeyed, hcounts⟩ : Keyed (serve trunc environmentId now input (payload flush.left)
          s.server).2 ∧ _ := serve_counts h.keyed hruns
      split at hclient
      · rename_i hok
        rw [if_pos hok] at hcounts
        exact h.client _ hc hclient trivial (fun _ => trivial) (delivered_of_apply hflush hclient)
          hkeyed hcounts
      · rename_i hrefused
        rw [if_neg hrefused] at hcounts
        apply h.client [] hc hclient trivial (fun _ => trivial) _ hkeyed hcounts
        rw [List.append_nil]
        exact delivered_of_own hclient rfl
  | deliverLate j k now input =>
      simp only [step, Option.bind_eq_bind, Option.bind_eq_some_iff] at hstep
      obtain ⟨c, hc, events, hlate, hserved⟩ := hstep
      obtain ⟨hkeyed, hcounts⟩ : Keyed (serve trunc environmentId now input events s.server).2 ∧ _ :=
        serve_counts h.keyed hruns
      split at hserved
      · rename_i hok
        simp only [Option.bind_eq_some_iff] at hserved
        obtain ⟨c', hclient, hs'⟩ := hserved
        cases hs'
        rw [if_pos hok] at hcounts
        exact h.client _ hc hclient trivial (fun _ => trivial) (delivered_of_arrive hlate hclient)
          hkeyed hcounts
      · cases hserved
  | other stmt input =>
      rw [step] at hstep
      split at hstep
      · rename_i hforeign
        cases hstep
        obtain ⟨hkeyed, hcounts⟩ := other_counts cell.variant (kindOf cell.kind) hforeign h.keyed
          hruns hafter
        exact ⟨h.balanced, hkeyed, hcounts.trans h.counted, h.called⟩
      · cases hstep

/-- The balance of a counter is kept over a run: it holds at the end what it held at the start and what
    was recorded since, less what was lost on the way; and nothing is lost where every request is
    carried. -/
theorem conserved_run (exact : Prop) {start : Fleet Time} {history : List (Fleet Time × Move Time)}
    (h : Trace (step crates trunc environmentId) start history s)
    (hsettled : ∀ e ∈ history, Settled e.1 e.2 ∧ (exact → Carried e.2))
    (hruns : ∀ e ∈ history, RunsAs experimentId environmentId cell.experimentKey e.1.server.db)
    (hends : RunsAs experimentId environmentId cell.experimentKey s.server.db)
    (hstart : Conserved exact experimentId cell base [] start) :
    Conserved exact experimentId cell base
      (history.flatMap fun e => expected crates e.1 e.2) s := by
  induction h with
  | start => exact hstart
  | move _ hmove ih =>
      rw [List.forall_mem_cons] at hsettled hruns
      rw [List.flatMap_cons]
      exact conserved_step hmove hsettled.1.1 hsettled.1.2 hruns.1 hends
        (ih hsettled.2 hruns.2 hruns.1)

/-- What the clients have and what they delivered is no more than what was called for, and exactly
    that if no count is cut. -/
theorem Conserved.accounted (h : Conserved exact experimentId cell base decided s) :
    armTotal experimentId cell.variant (kindOf cell.kind) s.server.counters + s.pending cell ≤
        base + decided.count cell ∧
      (exact → decided.count cell < 2 ^ 64 →
        armTotal experimentId cell.variant (kindOf cell.kind) s.server.counters + s.pending cell =
          base + decided.count cell) := by
  obtain ⟨hbalanced, _, hcounted, hcalled⟩ := h
  rw [hcounted, pending, ← hcalled]
  clear hcounted hcalled
  generalize s.clients = clients at hbalanced ⊢
  induction clients with
  | nil => simp
  | cons c clients ih =>
      rw [List.forall_mem_cons] at hbalanced
      obtain ⟨hwithin, hexactly⟩ := ih hbalanced.2
      have hle := hbalanced.1.within cell
      simp only [Sdk.Delivery.State.accounted] at hle
      simp only [List.map_cons, List.sum_cons]
      constructor
      · omega
      · intro hexact hbound
        have heq := hbalanced.1.conserved hexact cell (by omega)
        simp only [Sdk.Delivery.State.accounted] at heq
        have hrest := hexactly hexact (by omega)
        omega

end Run

/-- What the totals show of a variant and kind. -/
def shown (variant : String) (kind : CounterKind) (counts : List VariantCounts) : Nat :=
  (counts.find? (·.variant = variant)).elim 0 (countOf · kind)

/-- Whatever the database answers to the query of the totals, they show what was counted. -/
theorem shown_eq {le : String → String → Prop} {experimentId : Uuid} {variant : String}
    {kind : CounterKind} {counters : List CounterRow}
    {answer : Except Sql.SqlError (List TotalRow)} {counts : List VariantCounts}
    (hanswer : SelectsTotals le experimentId counters answer)
    (hcounts : experimentCounts answer = .ok counts) :
    shown variant kind counts = armTotal experimentId variant kind counters := by
  obtain ⟨rows, hgathered, _, rfl⟩ := hanswer
  split at hcounts
  · cases hcounts
    have htotals := totalsOf_countsOf hgathered
    rw [shown, armTotal]
    cases hfound : (countsOf rows).find? (·.variant = variant) with
    | none =>
        have hnone : (rowsOf experimentId counters).filter (·.variant = variant) = [] := by
          rw [List.filter_eq_nil_iff]
          intro row hrow hvariant
          have hrows : variant ∈ (rowsOf experimentId counters).map CounterRow.variant :=
            List.mem_map.mpr ⟨row, hrow, of_decide_eq_true hvariant⟩
          obtain ⟨entry, hentry, heq⟩ := List.mem_map.mp ((htotals.variants variant).mpr hrows)
          exact List.find?_eq_none.mp hfound entry hentry (decide_eq_true heq)
        rw [hnone]
        rfl
    | some entry =>
        have hvariant : entry.variant = variant := by simpa using List.find?_some hfound
        have hvalue := htotals.value entry (List.mem_of_find?_eq_some hfound) kind
        rw [hvariant] at hvalue
        exact hvalue
  · cases hcounts

/-- In every run of any number of clients during which the experiment runs, and in which no post that
    ends in an error was applied or will be, what the totals show of an arm and what its clients still
    have or have dropped come to no more than the decisions of the run; and to exactly those, if no
    count is cut. -/
theorem decisions_counted {crates : Crates} {trunc : Timestamp → Option Timestamp}
    {environmentId experimentId : Uuid} {key : String} {start s : Fleet Time}
    {history : List (Fleet Time × Move Time)}
    (h : Trace (step crates trunc environmentId) start history s)
    (hnew : ∀ c ∈ start.clients, c = .new) (hkeyed : Keyed start.server)
    (hsettled : ∀ e ∈ history, Settled e.1 e.2)
    (hruns : ∀ e ∈ history, RunsAs experimentId environmentId key e.1.server.db)
    (hends : RunsAs experimentId environmentId key s.server.db)
    {le : String → String → Prop} {answer : Except Sql.SqlError (List TotalRow)}
    {counts : List VariantCounts} (hanswer : SelectsTotals le experimentId s.server.counters answer)
    (hcounts : experimentCounts answer = .ok counts) (variant : String) (kind : Sdk.EventKind) :
    shown variant (kindOf kind) counts + s.pending ⟨key, variant, kind⟩ ≤
        armTotal experimentId variant (kindOf kind) start.server.counters +
          (history.flatMap fun e => expected crates e.1 e.2).count ⟨key, variant, kind⟩ ∧
      ((∀ e ∈ history, Carried e.2) →
        (history.flatMap fun e => expected crates e.1 e.2).count ⟨key, variant, kind⟩ < 2 ^ 64 →
        shown variant (kindOf kind) counts + s.pending ⟨key, variant, kind⟩ =
          armTotal experimentId variant (kindOf kind) start.server.counters +
            (history.flatMap fun e => expected crates e.1 e.2).count ⟨key, variant, kind⟩) := by
  have hstart : ∀ exact, Conserved exact experimentId ⟨key, variant, kind⟩
      (armTotal experimentId variant (kindOf kind) start.server.counters) [] start := by
    intro exact
    have hnone : ∀ c ∈ start.clients, tally ⟨key, variant, kind⟩ c.books.delivered = 0 ∧
        c.books.recorded.count ⟨key, variant, kind⟩ +
          c.calls.flatten.count ⟨key, variant, kind⟩ = 0 := by
      intro c hc
      rw [hnew c hc]
      exact ⟨rfl, rfl⟩
    refine ⟨?_, hkeyed, ?_, ?_⟩
    · intro c hc
      rw [hnew c hc]
      exact Sdk.Delivery.balanced_new
    · rw [List.map_congr_left fun c hc => (hnone c hc).1]
      simp
    · rw [List.map_congr_left fun c hc => (hnone c hc).2]
      simp
  rw [shown_eq hanswer hcounts]
  constructor
  · have hrun := conserved_run False h
      (fun e he => ⟨hsettled e he, False.elim⟩) hruns hends (hstart False)
    exact hrun.accounted.1
  · intro hcarried hbound
    have hrun := conserved_run True h
      (fun e he => ⟨hsettled e he, fun _ => hcarried e he⟩) hruns hends (hstart True)
    exact hrun.accounted.2 trivial hbound

namespace Two

/-- The flag is evaluated at the first client, which flushes, and the metric is tracked at the second,
    which does not; in between the experiment is renamed. -/
def moves : List (Move Nat) :=
  [.own 0 (.load Sdk.Delivery.Checkout.snapshot), .own 1 (.load Sdk.Delivery.Checkout.snapshot),
    .own 0 (.evaluate "checkout" Sdk.Delivery.Checkout.context .null), .own 0 (.record 0),
    .own 1 (.track "sales" Sdk.Delivery.Checkout.context),
    .own 0 (.flush [(⟨"trial", "on", .exposure⟩, 1)]), .own 0 (.post 0),
    .other (.sql (.updateExperiment ⟨2⟩ "trial" "Sales" none)) ⟨⟨9⟩, 0, false⟩,
    .deliver 0 0 (11 * hour) ⟨⟨9⟩, 0, false⟩, .own 0 (.succeed 0), .own 1 (.record 0)]

def start : Fleet Nat :=
  ⟨List.replicate 2 .new, Stray.running.tables⟩

/-- Allowed moves, while the experiment runs. -/
def allowed (s : Fleet Nat) (m : Move Nat) : Prop :=
  (Settled s m ∧ Carried m) ∧ RunsAs ⟨5⟩ ⟨2⟩ "trial" s.server.db

instance : ∀ s m, Decidable (allowed s m) :=
  fun s m => inferInstanceAs (Decidable ((Settled s m ∧ Carried m) ∧ RunsAs ⟨5⟩ ⟨2⟩ "trial" s.server.db))

/-- What the server has counted, what is pending of the exposures and of the conversions, and whether
    the experiment still runs. -/
def outcome (s : Fleet Nat) : List CounterRow × Nat × Nat × Bool :=
  (s.server.counters, s.pending ⟨"trial", "on", .exposure⟩, s.pending ⟨"trial", "on", .conversion⟩,
    decide (RunsAs ⟨5⟩ ⟨2⟩ "trial" s.server.db))

/-- The decisions of a run for an arm. -/
def decided (history : List (Fleet Nat × Move Nat)) (kind : Sdk.EventKind) : Nat :=
  (history.flatMap fun e => expected .plain e.1 e.2).count ⟨"trial", "on", kind⟩

end Two

/-- An exposure and a conversion are decided. The exposure is shown, and the conversion is still with the
    second client. -/
theorem decisions_counted_two : ∃ (s : Fleet Nat) (history : List (Fleet Nat × Move Nat)),
    Two.outcome s = ([⟨⟨5⟩, "on", .exposure, 11 * hour, 1⟩], 0, 1, true) ∧
      (Two.decided history .exposure = 1 ∧ Two.decided history .conversion = 1) ∧
      shown "on" .exposure [⟨"on", 1, 0⟩] + s.pending ⟨"trial", "on", .exposure⟩ =
        armTotal ⟨5⟩ "on" .exposure Two.start.server.counters + Two.decided history .exposure ∧
      shown "on" .conversion [⟨"on", 1, 0⟩] + s.pending ⟨"trial", "on", .conversion⟩ =
        armTotal ⟨5⟩ "on" .conversion Two.start.server.counters + Two.decided history .conversion := by
  have hrun : (Machine.record (Machine.guarded Two.allowed (step .plain Stray.trunc ⟨2⟩)) Two.moves
      ([], Two.start)).map (fun run =>
        (Two.outcome run.2, Two.decided run.1 .exposure, Two.decided run.1 .conversion)) =
      some (([⟨⟨5⟩, "on", .exposure, 11 * hour, 1⟩], 0, 1, true), 1, 1) := by decide +kernel
  obtain ⟨⟨history, s⟩, hrecord, hseen⟩ := Option.map_eq_some_iff.mp hrun
  obtain ⟨houtcome, hdecided⟩ := Prod.mk.inj hseen
  obtain ⟨hexposures, hconversions⟩ := Prod.mk.inj hdecided
  obtain ⟨htrace, hallowed⟩ := (Machine.Trace.start.of_record hrecord).of_guarded
  have hcounters : s.server.counters = [⟨⟨5⟩, "on", .exposure, 11 * hour, 1⟩] :=
    congrArg Prod.fst houtcome
  have hends : RunsAs ⟨5⟩ ⟨2⟩ "trial" s.server.db :=
    of_decide_eq_true (congrArg (fun o => o.2.2.2) houtcome)
  have hkeyed : Keyed Two.start.server :=
    ⟨⟨List.nodup_singleton _, List.nodup_singleton _⟩, List.nodup_nil⟩
  have hanswer : SelectsTotals (· ≤ ·) ⟨5⟩ s.server.counters (.ok [⟨"on", .exposure, 1⟩]) := by
    rw [hcounters]
    exact ⟨_, Gather.gathered_bySearch _, by decide +kernel, by rfl⟩
  have hcounts : experimentCounts (.ok [⟨"on", .exposure, 1⟩]) = .ok [⟨"on", 1, 0⟩] := rfl
  have hcounted := fun kind => (decisions_counted htrace
    (fun _ hc => List.eq_of_mem_replicate hc) hkeyed (fun e he => (hallowed e he).1.1)
    (fun e he => (hallowed e he).2) hends hanswer hcounts "on" kind).2
    fun e he => (hallowed e he).1.2
  have hfew : ∀ {kind}, Two.decided history kind = 1 → Two.decided history kind < 2 ^ 64 := by
    intro kind hone
    rw [hone]
    decide
  exact ⟨s, history, houtcome, ⟨hexposures, hconversions⟩, hcounted .exposure (hfew hexposures),
    hcounted .conversion (hfew hconversions)⟩

end Fleet

end FlagForge.Service
