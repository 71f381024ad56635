/-
Module: FlagForge.Sdk.Refresh
Layer: Sdk
Purpose: Refreshing one client. Any number of fetches are under way, by `refresh` calls, by the
  background refresher and by `connect`; the server answers them in some order, each with the
  configuration it has then, and whichever response arrives is stored.
Imports: FlagForge.Sdk.Client, FlagForge.Lib.Machine
Trusted boundary: the transport loses, delays and reorders, but does not forge responses
Main exports: Session, Move, step, NeverBack, InOrder, InTime, never_back_iff
-/
import FlagForge.Sdk.Client
import FlagForge.Lib.Machine

namespace FlagForge.Sdk.Refresh

open Machine (Trace)

variable {Time : Type}

/-- A configuration as the server produced it; the revision counts the configurations before. -/
structure Produced (Time : Type) where
  revision : Nat
  snapshot : EnvironmentSnapshot Time

/-- Who fetches: all of them fetch and then store. -/
inductive Caller where
  | connect
  | refresh
  | refresher
deriving DecidableEq

/-- How far a fetch is. -/
inductive Phase (Time : Type) where
  /-- The request is on its way to the server. -/
  | sent
  /-- The server has handled it, and the response is on its way. -/
  | answered (response : Produced Time)
  /-- The response is stored, and the call is about to return. -/
  | stored (response : Produced Time)

structure Fetching (Time : Type) where
  caller : Caller
  phase : Phase Time

/-- One client and the server. -/
structure Session (Time : Type) where
  /-- What the server serves now. -/
  server : Produced Time
  /-- What the client serves from. -/
  current : Option (Produced Time)
  fetches : List (Fetching Time)
  /-- What the `refresh` calls that have returned Ok had received. -/
  returned : List (Produced Time)

inductive Move (Time : Type) where
  /-- The configuration changes at the server. -/
  | publish (snapshot : EnvironmentSnapshot Time)
  | send (caller : Caller)
  /-- The server handles the request of a fetch. -/
  | answer (i : Nat)
  /-- The fetch ends in an error. -/
  | fail (i : Nat)
  /-- The response arrives and is stored: `Inner::store`. -/
  | store (i : Nat)
  /-- The call returns. -/
  | finish (i : Nat)

def step : Move Time → Session Time → Option (Session Time)
  | .publish snapshot, s => some { s with server := ⟨s.server.revision + 1, snapshot⟩ }
  | .send caller, s => some { s with fetches := s.fetches ++ [⟨caller, .sent⟩] }
  | .answer i, s =>
      match s.fetches[i]? with
      | some ⟨caller, .sent⟩ =>
          some { s with fetches := s.fetches.set i ⟨caller, .answered s.server⟩ }
      | _ => none
  | .fail i, s =>
      match s.fetches[i]? with
      | some ⟨_, .sent⟩ | some ⟨_, .answered _⟩ => some { s with fetches := s.fetches.eraseIdx i }
      | _ => none
  | .store i, s =>
      match s.fetches[i]? with
      | some ⟨caller, .answered response⟩ => some { s with
          current := some response
          fetches := s.fetches.set i ⟨caller, .stored response⟩ }
      | _ => none
  | .finish i, s =>
      match s.fetches[i]? with
      | some ⟨caller, .stored response⟩ => some { s with
          fetches := s.fetches.eraseIdx i
          returned := if caller = .refresh then response :: s.returned else s.returned }
      | _ => none

/-- A client that has fetched nothing yet. -/
def Session.opened (server : Produced Time) : Session Time :=
  ⟨server, none, [], []⟩

/-- What evaluations and conversions use is no older than what any `refresh` call that has returned
    Ok received. -/
def NeverBack (s : Session Time) : Prop :=
  ∀ response ∈ s.returned, ∃ used, s.current = some used ∧ response.revision ≤ used.revision

/-- Responses are stored in the order in which the server produced what they carry. -/
def InOrder (s : Session Time) : Move Time → Prop
  | .store i => ∀ caller response, s.fetches[i]? = some ⟨caller, .answered response⟩ →
      ∀ used, s.current = some used → used.revision ≤ response.revision
  | _ => True

/-- When a response is stored, no `refresh` call has returned with a newer one; and when a `refresh`
    call returns, an older one has not been stored over what it received. -/
def InTime (s : Session Time) : Move Time → Prop
  | .store i => ∀ caller response, s.fetches[i]? = some ⟨caller, .answered response⟩ →
      ∀ newer ∈ s.returned, newer.revision ≤ response.revision
  | .finish i => ∀ response, s.fetches[i]? = some ⟨.refresh, .stored response⟩ →
      ∃ used, s.current = some used ∧ response.revision ≤ used.revision
  | _ => True

section Step

variable {s s' : Session Time} {m : Move Time}

/-- What the moves do to what is used and what has returned. -/
theorem step_cases (h : step m s = some s') :
    (s'.current = s.current ∧ s'.returned = s.returned ∧ InTime s m ∧
      ∀ f ∈ s'.fetches, f ∈ s.fetches ∨ ∀ response, f.phase ≠ .stored response) ∨
    (∃ i caller response, m = .store i ∧ s.fetches[i]? = some ⟨caller, .answered response⟩ ∧
      s'.current = some response ∧ s'.returned = s.returned ∧
      s'.fetches = s.fetches.set i ⟨caller, .stored response⟩) ∨
    (∃ i caller response, m = .finish i ∧ s.fetches[i]? = some ⟨caller, .stored response⟩ ∧
      s'.current = s.current ∧ s'.fetches = s.fetches.eraseIdx i ∧
      s'.returned = if caller = .refresh then response :: s.returned else s.returned) := by
  cases m with
  | publish snapshot =>
      cases h
      exact .inl ⟨rfl, rfl, trivial, fun f hf => .inl hf⟩
  | send caller =>
      cases h
      refine .inl ⟨rfl, rfl, trivial, fun f hf => ?_⟩
      rcases List.mem_append.mp hf with hf | hf
      · exact .inl hf
      · cases List.mem_singleton.mp hf
        exact .inr fun _ heq => by cases heq
  | answer i =>
      rw [step] at h
      split at h
      · cases h
        refine .inl ⟨rfl, rfl, trivial, fun f hf => ?_⟩
        rcases List.mem_or_eq_of_mem_set hf with hf | rfl
        · exact .inl hf
        · exact .inr fun _ heq => by cases heq
      · cases h
  | fail i =>
      rw [step] at h
      split at h
      · cases h
        exact .inl ⟨rfl, rfl, trivial, fun f hf => .inl (List.mem_of_mem_eraseIdx hf)⟩
      · cases h
        exact .inl ⟨rfl, rfl, trivial, fun f hf => .inl (List.mem_of_mem_eraseIdx hf)⟩
      · cases h
  | store i =>
      rw [step] at h
      split at h
      · rename_i caller response hfetch
        cases h
        exact .inr (.inl ⟨i, caller, response, rfl, hfetch, rfl, rfl, rfl⟩)
      · cases h
  | finish i =>
      rw [step] at h
      split at h
      · rename_i caller response hfetch
        cases h
        exact .inr (.inr ⟨i, caller, response, rfl, hfetch, rfl, rfl, rfl⟩)
      · cases h

/-- A move that is in time does not go back, and one that is not does. -/
theorem neverBack_step (h : step m s = some s') (hs : NeverBack s) :
    NeverBack s' ↔ InTime s m := by
  rcases step_cases h with ⟨hcurrent, hreturned, htime, _⟩ |
    ⟨i, caller, response, rfl, hfetch, hcurrent, hreturned, _⟩ |
    ⟨i, caller, response, rfl, hfetch, hcurrent, _, hreturned⟩
  · rw [NeverBack, hcurrent, hreturned]
    exact ⟨fun _ => htime, fun _ => hs⟩
  · rw [NeverBack, hcurrent, hreturned]
    constructor
    · intro hnever caller' response' hfetch' newer hnewer
      cases hfetch.symm.trans hfetch'
      obtain ⟨used, hused, hle⟩ := hnever newer hnewer
      cases hused
      exact hle
    · intro htime newer hnewer
      exact ⟨response, rfl, htime caller response hfetch newer hnewer⟩
  · rw [NeverBack, hcurrent, hreturned]
    constructor
    · intro hnever response' hfetch'
      cases hfetch.symm.trans hfetch'
      exact hnever response (by simp)
    · intro htime returned hmem
      by_cases hcaller : caller = .refresh
      · rw [if_pos hcaller] at hmem
        rcases List.mem_cons.mp hmem with rfl | hmem
        · exact htime returned (hcaller ▸ hfetch)
        · exact hs returned hmem
      · rw [if_neg hcaller] at hmem
        exact hs returned hmem

/-- What is used is no older than anything that was stored. -/
structure Newest (s : Session Time) : Prop where
  neverBack : NeverBack s
  stored : ∀ f ∈ s.fetches, ∀ response, f.phase = .stored response →
    ∃ used, s.current = some used ∧ response.revision ≤ used.revision

theorem newest_step (horder : InOrder s m) (h : step m s = some s') (hs : Newest s) :
    Newest s' := by
  rcases step_cases h with ⟨hcurrent, hreturned, htime, hfetches⟩ |
    ⟨i, caller, response, rfl, hfetch, hcurrent, hreturned, hfetches⟩ |
    ⟨i, caller, response, rfl, hfetch, hcurrent, hfetches, hreturned⟩
  · refine ⟨(neverBack_step h hs.neverBack).mpr htime, ?_⟩
    intro f hf response hphase
    rw [hcurrent]
    rcases hfetches f hf with hf | hnot
    · exact hs.stored f hf response hphase
    · exact absurd hphase (hnot response)
  · have hnewest : ∀ older : Produced Time,
        (∃ used, s.current = some used ∧ older.revision ≤ used.revision) →
        ∃ used, s'.current = some used ∧ older.revision ≤ used.revision := by
      intro older holder
      obtain ⟨used, hused, hle⟩ := holder
      exact ⟨response, hcurrent, hle.trans (horder caller response hfetch used hused)⟩
    constructor
    · intro newer hnewer
      rw [hreturned] at hnewer
      exact hnewest newer (hs.neverBack newer hnewer)
    · intro f hf older hphase
      rw [hfetches] at hf
      rcases List.mem_or_eq_of_mem_set hf with hf | rfl
      · exact hnewest older (hs.stored f hf older hphase)
      · cases hphase
        exact ⟨response, hcurrent, Nat.le_refl _⟩
  · have hmem := List.mem_of_getElem? hfetch
    have htime : InTime s (.finish i) := by
      intro response' hfetch'
      exact hs.stored _ (List.mem_of_getElem? hfetch') response' rfl
    refine ⟨(neverBack_step h hs.neverBack).mpr htime, ?_⟩
    intro f hf older hphase
    rw [hfetches] at hf
    rw [hcurrent]
    exact hs.stored f (List.mem_of_mem_eraseIdx hf) older hphase

end Step

theorem neverBack_opened {server : Produced Time} : NeverBack (Session.opened server) := by
  intro response hresponse
  cases hresponse

/-- A run never goes back exactly when all its moves are in time. -/
theorem neverBack_iff_inTime {server : Produced Time} {history : List (Session Time × Move Time)}
    {s : Session Time} (h : Trace step (Session.opened server) history s) :
    ((∀ e ∈ history, NeverBack e.1) ∧ NeverBack s) ↔ ∀ e ∈ history, InTime e.1 e.2 :=
  h.holds_iff (fun _ _ _ hstep hs => neverBack_step hstep hs) neverBack_opened

/-- The client never goes back in the runs that store the responses in the order in which the server
    produced what they carry, whoever fetched them. Of the other runs it stays right in those that store
    nothing older than a refresh has returned with, and in which no refresh returns after something older
    was stored over what it received; in all that remain it goes back. -/
theorem never_back_iff {server : Produced Time} {history : List (Session Time × Move Time)}
    {s : Session Time} (h : Trace step (Session.opened server) history s) :
    ((∀ e ∈ history, InOrder e.1 e.2) → (∀ e ∈ history, NeverBack e.1) ∧ NeverBack s) ∧
    (((∀ e ∈ history, NeverBack e.1) ∧ NeverBack s) ↔ ∀ e ∈ history, InTime e.1 e.2) := by
  refine ⟨?_, neverBack_iff_inTime h⟩
  intro horder
  have hopened : Newest (Session.opened server) := by
    refine ⟨neverBack_opened, ?_⟩
    intro f hf
    cases hf
  obtain ⟨hbefore, hafter⟩ := h.invariant (fun _ _ _ hm hstep hs => newest_step hm hstep hs) horder
    hopened
  exact ⟨fun e he => (hbefore e he).neverBack, hafter.neverBack⟩

/-! ### A kill switch that is undone -/

namespace KillSwitch

def checkout (enabled : Bool) : Flag :=
  ⟨"checkout", [⟨"on", .bool true⟩, ⟨"off", .bool false⟩], enabled, "off", .fixed "on", [], 1⟩

def serving (enabled : Bool) : EnvironmentSnapshot Nat :=
  .new .nil "live" "" [checkout enabled] [] 0

def opened : Session Nat :=
  .opened ⟨0, serving true⟩

/-- The flag is switched off and the client refreshed while a poll is on its way. -/
def undone : List (Move Nat) :=
  [.send .refresher, .answer 0, .publish (serving false), .send .refresh, .answer 1, .store 1,
    .finish 1, .store 0]

def context : EvaluationContext := ⟨"user-1", ∅⟩

/-- What the client serves at the end. -/
def served (moves : List (Move Nat)) : Option String :=
  (Machine.follow step moves opened).bind fun s =>
    (evaluate .plain (s.current.map Produced.snapshot) "checkout" context (.bool false)).1.variant

end KillSwitch

/-- After the refresh has returned with the kill switch, the poll puts the flag back on. -/
theorem undone_goes_back : ∃ history s, Trace step KillSwitch.opened history s ∧
    history.map Prod.snd = KillSwitch.undone.reverse ∧ ¬ NeverBack s ∧
      KillSwitch.served (KillSwitch.undone.take 7) = some "off" ∧
      KillSwitch.served KillSwitch.undone = some "on" := by
  obtain ⟨s, hs⟩ := Option.isSome_iff_exists.mp
    (by decide : (Machine.follow step KillSwitch.undone KillSwitch.opened).isSome = true)
  obtain ⟨history, htrace, hmoves⟩ := Machine.trace_of_follow hs
  have hrevisions : (Machine.follow step KillSwitch.undone KillSwitch.opened).map (fun s =>
      (s.current.map Produced.revision, s.returned.map Produced.revision)) =
        some (some 0, [1]) := by decide
  rw [hs, Option.map_some, Option.some.injEq, Prod.mk.injEq] at hrevisions
  refine ⟨history, s, htrace, hmoves, ?_, by decide, by decide⟩
  intro hnever
  obtain ⟨newer, hnewer, hone⟩ := List.mem_map.mp (hrevisions.2 ▸ List.mem_cons_self)
  obtain ⟨used, hused, hle⟩ := hnever newer hnewer
  have hzero := hrevisions.1
  rw [hused, Option.map_some, Option.some.injEq] at hzero
  omega

/-- One refresh alone. -/
theorem never_back_iff_alone : ∃ s : Session Nat, NeverBack s ∧
    s.returned = [⟨0, KillSwitch.serving true⟩] := by
  have htrace : Trace step KillSwitch.opened _ _ :=
    .move (m := .finish 0) (.move (m := .store 0) (.move (m := .answer 0)
      (.move (m := .send .refresh) .start rfl) rfl) rfl) rfl
  refine ⟨_, ((never_back_iff htrace).1 ?_).2, rfl⟩
  intro e he
  rcases List.mem_cons.mp he with rfl | he
  · trivial
  rcases List.mem_cons.mp he with rfl | he
  · intro caller response _ used hused
    cases hused
  rcases List.mem_cons.mp he with rfl | he
  · trivial
  · cases List.mem_singleton.mp he
    trivial

end FlagForge.Sdk.Refresh
