/-
Module: FlagForge.Service.KeyHistory
Layer: Service
Purpose: The life of an SDK key in any interleaving of requests. A key is accepted only between its
  issue, by an owner or admin of the organization of its environment, and its revocation, and a revoked
  secret is refused for good. Of a key nothing changes but the revocation, once, and the last use, by
  steps of more than a minute.
Imports: FlagForge.Service.Commands, FlagForge.Lib.Trace, FlagForge.Api.ClientKey and
  FlagForge.Api.Server (the shop)
Trusted boundary: none
Main exports: KeyStep, exec_keys, exec_older, Grants, Provenance, accepted_key_issued,
  revoked_secret_refused, keys_age
-/
import FlagForge.Service.Commands
import FlagForge.Lib.Trace
import FlagForge.Api.ClientKey
import FlagForge.Api.Server

namespace FlagForge.Service

open Pool (Event Traced)
open Prog (Log)
open Fallible (Confined confined_pure confined_seq confined_except confined_adapt)
open Storage
open Storage.Sql (SqlError require)
open Api

/-- A statement with its answer. -/
abbrev Learned := (s : Stmt) × Resp s

/-- Someone got this key. -/
def Issues (learned : Learned) (row : KeyRow) : Prop :=
  ∃ key : ApiKey, learned = ⟨.insertKey row.environmentId row.name row.keyHash row.shown row.scope,
    .ok key⟩ ∧ key.id = row.id

/-- A revocation that found its key. -/
def Revokes (learned : Learned) (environmentId id : Uuid) : Prop :=
  ∃ found : Nat, found ≠ 0 ∧ learned = ⟨.revokeKey environmentId id, .ok found⟩

/-- The environment and the key of a revocation, and how many keys it found. -/
def revocationOf : Learned → Option (Uuid × Uuid × Nat)
  | ⟨.revokeKey environmentId id, .ok (found : Nat)⟩ => some (environmentId, id, found)
  | _ => none

theorem revokes_of_revocationOf {learned : Learned} {environmentId id : Uuid} {found : Nat}
    (h : revocationOf learned = some (environmentId, id, found)) (hfound : found ≠ 0) :
    Revokes learned environmentId id := by
  unfold revocationOf at h
  split at h
  · cases h
    exact ⟨found, hfound, rfl⟩
  · cases h

/-- The key is let in. -/
def Accepts (learned : Learned) (keyHash : String) (identity : KeyIdentity) : Prop :=
  learned = ⟨.resolveKey keyHash, .ok (some identity)⟩

/-! ### One statement -/

/-- What a statement makes of the keys: each is there as it was, or revoked, or its use is written down,
    or it is new. -/
inductive KeyStep (learned : Learned) (now : Timestamp) (keys : List KeyRow) : KeyRow → Prop where
  | kept {row : KeyRow} (hrow : row ∈ keys)
      (hspared : ¬ Revokes learned row.environmentId row.id) : KeyStep learned now keys row
  | revoked {row : KeyRow} (hrow : row ∈ keys) : KeyStep learned now keys (row.revoke now)
  | used {row : KeyRow} (hrow : row ∈ keys) (htouch : learned.1 = .touchKey row.id)
      (hstale : row.stale now = true) :
      KeyStep learned now keys { row with lastUsedAt := some now }
  | issued {row : KeyRow} (hissues : Issues learned row) (hnew : row.revokedAt = none)
      (hunused : row.lastUsedAt = none) (hfresh : ∀ k ∈ keys, k.keyHash ≠ row.keyHash) :
      KeyStep learned now keys row

section Step

variable {input : Input} {s : Stmt} {store : Store} {row : KeyRow}

/-- What no revocation names is as it was. -/
theorem kept_of_not_revokeKey {r : Resp s} {now : Timestamp} {keys : List KeyRow}
    (hs : ∀ environmentId id, s ≠ .revokeKey environmentId id) (hrow : row ∈ keys) :
    KeyStep ⟨s, r⟩ now keys row := by
  refine .kept hrow ?_
  rintro ⟨found, _, heq⟩
  exact hs _ _ (congrArg Sigma.fst heq)

/-- Where the keys come from that a statement leaves. -/
theorem exec_keys (hrow : row ∈ (exec input s store).2.keys) :
    KeyStep ⟨s, (exec input s store).1⟩ input.now store.keys row := by
  cases s with
  | counted s =>
      exact kept_of_not_revokeKey (by intro _ _ h; cases h) (List.mem_filter.mp hrow).1
  | insertKey environmentId name keyHash shown scope =>
      rcases insertKey_cases with ⟨e, heq⟩ | ⟨key, store', hok, heq⟩
      · rw [heq] at hrow
        exact kept_of_not_revokeKey (by intro _ _ h; cases h) hrow
      · rw [heq] at hrow ⊢
        obtain ⟨_, hok⟩ := Sql.of_require hok
        obtain ⟨hunique, hok⟩ := Sql.of_require hok
        obtain ⟨_, hok⟩ := Sql.of_require hok
        cases hok
        rcases List.mem_append.mp hrow with hrow | hrow
        · exact kept_of_not_revokeKey (by intro _ _ h; cases h) hrow
        · cases List.mem_singleton.mp hrow
          refine .issued ⟨_, rfl, rfl⟩ rfl rfl ?_
          intro k hk heq
          have hother := List.all_eq_true.mp hunique k hk
          simp [heq] at hother
  | revokeKey environmentId id =>
      rcases revokeKey_cases with ⟨e, heq⟩ | heq
      · rw [heq] at hrow ⊢
        refine .kept hrow ?_
        rintro ⟨_, _, h⟩
        cases h
      · rw [heq] at hrow ⊢
        obtain ⟨k, hk, rfl⟩ := List.mem_map.mp hrow
        split
        · exact .revoked hk
        · rename_i hselected
          refine .kept hk ?_
          rintro ⟨_, _, h⟩
          cases h
          exact hselected (by simp)
  | touchKey id =>
      rcases touchKey_cases with ⟨e, heq⟩ | heq
      · rw [heq] at hrow
        exact kept_of_not_revokeKey (by intro _ _ h; cases h) hrow
      · rw [heq] at hrow ⊢
        obtain ⟨k, hk, rfl⟩ := List.mem_map.mp hrow
        split
        · rename_i hselected
          rw [Bool.and_eq_true, decide_eq_true_eq] at hselected
          exact .used hk (by rw [hselected.1]) hselected.2
        · exact kept_of_not_revokeKey (by intro _ _ h; cases h) hk
  | _ => exact kept_of_not_revokeKey (by intro _ _ h; cases h) hrow

/-- A key that is let in is there and not revoked. -/
theorem accepts_cases {keyHash : String} {identity : KeyIdentity}
    (h : Accepts ⟨s, (exec input s store).1⟩ keyHash identity) :
    ∃ k ∈ store.keys, k.keyHash = keyHash ∧ k.revokedAt = none ∧ identity.apiKeyId = k.id ∧
      identity.environmentId = k.environmentId ∧ identity.scope = k.scope := by
  obtain ⟨rfl, hanswer⟩ := Sigma.mk.inj h
  have hanswer := Except.ok.inj (read_answer (eq_of_heq hanswer))
  obtain ⟨k, hk, hid⟩ := List.mem_flatMap.mp (List.mem_of_head? hanswer)
  obtain ⟨hk, hselected⟩ := List.mem_filter.mp hk
  obtain ⟨e, _, hid⟩ := List.mem_flatMap.mp hid
  obtain ⟨p, _, rfl⟩ := List.mem_map.mp hid
  rw [Bool.and_eq_true, decide_eq_true_eq, Option.isNone_iff_eq_none] at hselected
  exact ⟨k, hk, hselected.1, hselected.2, rfl, rfl, rfl⟩

end Step

/-! ### The age of a key -/

/-- A later state of a key: a revocation is never taken back nor moved, and the uses that are written down
    are more than a minute apart. -/
structure KeyRow.Older (old new : KeyRow) : Prop where
  same : new = { old with lastUsedAt := new.lastUsedAt, revokedAt := new.revokedAt }
  revoked : ∀ t, old.revokedAt = some t → new.revokedAt = some t
  used : new.lastUsedAt = old.lastUsedAt ∨
    ∃ now, new.lastUsedAt = some now ∧ ∀ before ∈ old.lastUsedAt, before < now - minute

namespace KeyRow.Older

variable {old mid new : KeyRow}

theorem refl : old.Older old :=
  ⟨rfl, fun _ h => h, .inl rfl⟩

theorem trans (h : old.Older mid) (h' : mid.Older new) : old.Older new where
  same := by
    rw [h'.same, h.same]
  revoked t ht := h'.revoked t (h.revoked t ht)
  used := by
    rcases h'.used with heq | ⟨now, hnow, hlater⟩
    · rw [heq]
      exact h.used
    · refine .inr ⟨now, hnow, fun before hbefore => ?_⟩
      rcases h.used with heq | ⟨then_, hthen, hearlier⟩
      · exact hlater before (heq ▸ hbefore)
      · calc before < then_ - minute := hearlier before hbefore
          _ ≤ then_ := Int.sub_le_self _ (by decide)
          _ < now - minute := hlater then_ hthen

end KeyRow.Older

/-- A key that has aged since was issued by the same statement. -/
theorem Issues.older {learned : Learned} {old new : KeyRow} (h : Issues learned old)
    (holder : old.Older new) : Issues learned new := by
  rw [holder.same]
  exact h

/-- A key that is there after a statement is an older one grown by it, which no revocation has found if
    it is not revoked, or has just been issued. -/
theorem exec_older {input : Input} {s : Stmt} {store : Store} {row : KeyRow}
    (hmem : row ∈ (exec input s store).2.keys) :
    (∃ old ∈ store.keys, old.Older row ∧ (row.revokedAt = none →
        ¬ Revokes ⟨s, (exec input s store).1⟩ row.environmentId row.id)) ∨
      Issues ⟨s, (exec input s store).1⟩ row := by
  cases exec_keys hmem with
  | kept hrow hspared => exact .inl ⟨_, hrow, .refl, fun _ => hspared⟩
  | @revoked old hrow =>
      refine .inl ⟨old, hrow, ⟨rfl, fun t ht => ?_, .inl rfl⟩, fun hnone => ?_⟩
      · rw [KeyRow.revoke, ht]
        rfl
      · cases hrevoked : old.revokedAt <;> simp [KeyRow.revoke, hrevoked] at hnone
  | @used old hrow htouch hstale =>
      refine .inl ⟨old, hrow, ⟨rfl, fun _ ht => ht, .inr ⟨input.now, rfl, ?_⟩⟩, fun _ => ?_⟩
      · intro before hbefore
        rw [KeyRow.stale, Option.mem_def.mp hbefore] at hstale
        exact of_decide_eq_true hstale
      · rintro ⟨found, _, heq⟩
        cases htouch.symm.trans (congrArg Sigma.fst heq)
  | issued hissues _ _ _ => exact .inr hissues

/-! ### What is issued

Only one handler inserts keys. It asks for an owner or admin first, and it looks the environment up in
their organization. -/

/-- The environment, the hash and the scope of a key that the statement inserts. -/
def Stmt.inserted : Stmt → Option (Uuid × String × KeyScope)
  | .insertKey environmentId _ keyHash _ scope => some (environmentId, keyHash, scope)
  | _ => none

/-- The call is one of an owner or admin that generates a key of the scope, and its thread has found the
    environment under the keys that the call names, in the organization of the caller. -/
def Grants (sha256 : List UInt8 → Vector UInt8 32) (call : Call) (log : Log Stmt Resp)
    (environmentId : Uuid) (keyHash : String) (scope : KeyScope) : Prop :=
  ∃ caller projectKey environmentKey body bytes project environment,
    call = .keys caller (.create projectKey environmentKey body bytes) ∧
    caller.role.canAdminister = true ∧ scope = body.scope ∧
    keyHash = (generate sha256 body.scope bytes).hash ∧ environmentId = environment.id ∧
    FoundEnvironment (FoundIn log) caller projectKey environmentKey project environment

section Grants

variable {crates : Crates} {sha256 : List UInt8 → Vector UInt8 32}
  {trunc : Timestamp → Option Timestamp} {α β ε : Type}

/-- Whatever it is answered, the program inserts no key. -/
abbrev InsertsNone (p : Fallible Stmt Resp ε α) : Prop :=
  Confined (fun _ _ => True) (fun s => s.inserted = none) (fun _ => True) p

/-- The keys that a program inserts are those that its call grants. -/
abbrev InsertsFor (sha256 : List UInt8 → Vector UInt8 32) (call : Call) (log : Log Stmt Resp)
    (p : Fallible Stmt Resp ε α) : Prop :=
  Fallible.Obeys (fun log s => ∀ key, s.inserted = some key →
    Grants sha256 call log key.1 key.2.1 key.2.2) (fun _ _ => True) log p

variable {call : Call} {log : Log Stmt Resp}

/-- A program that inserts no key inserts none against its call. -/
theorem InsertsNone.insertsFor {p : Fallible Stmt Resp ε α} (h : InsertsNone p) :
    InsertsFor sha256 call log p := by
  refine Prog.Obeys.imp ?_ (fun _ _ _ _ _ => trivial) (Prog.Confined.obeys h)
  intro _ s hs key hkey
  rw [hs] at hkey
  cases hkey

theorem insertsNone_bind {p : Fallible Stmt Resp ε α} {f : α → Fallible Stmt Resp ε β}
    (hp : InsertsNone p) (hf : ∀ a, InsertsNone (f a)) : InsertsNone (p >>= f) :=
  confined_seq hp fun a _ => hf a

theorem insertsNone_pure {a : α} : InsertsNone (pure a : Fallible Stmt Resp ε α) :=
  confined_pure trivial

theorem insertsNone_except {r : Except ε α} :
    InsertsNone (ExceptT.mk (.done r) : Fallible Stmt Resp ε α) :=
  confined_except fun _ _ => trivial

/-- Programs on the tables alone. -/
theorem insertsNone_counted {p : Fallible Counting.Stmt Counting.Resp ε α} :
    InsertsNone (counted p) :=
  Prog.confined_embed (f := Stmt.counted) (R := fun _ _ => True) (G := fun _ => True)
    (fun _ _ => rfl) (fun _ _ _ => trivial)
    (Prog.confined_of_forall (fun _ => trivial) fun _ _ _ => trivial)

theorem insertsNone_sql {p : Fallible Sql.Stmt Sql.Resp ε α} : InsertsNone (sql p) :=
  Prog.confined_embed (f := fun s => Stmt.counted (.sql s)) (R := fun _ _ => True)
    (G := fun _ => True) (fun _ _ => rfl) (fun _ _ _ => trivial)
    (Prog.confined_of_forall (fun _ => trivial) fun _ _ _ => trivial)

theorem insertsNone_lookup {q : Query α} : InsertsNone (lookup q) :=
  confined_adapt insertsNone_sql

theorem insertsNone_handler {h : Handler α} : InsertsNone (handler h) :=
  confined_adapt insertsNone_sql

/-- A statement that inserts no key. -/
theorem insertsNone_statement {s : Stmt} {onError : SqlError → StorageError}
    (hs : s.inserted = none) : InsertsNone (storage (query s onError)) :=
  confined_adapt ⟨hs, fun _ _ _ _ => trivial⟩

theorem insertsNone_joinedExperiment {environmentId : Uuid} {key : String} :
    InsertsNone (storage (findJoinedExperiment environmentId key)) :=
  confined_adapt (insertsNone_bind ⟨rfl, fun _ _ _ _ => trivial⟩ fun _ => insertsNone_sql)

/-- The lists issue no key. -/
theorem consult_insertsNone {caller : AuthUser} {request : Consultation} :
    InsertsNone (consult caller request) := by
  -- a reading request is a sequence of lookups and queries
  cases request <;>
    repeat' first
      | exact insertsNone_pure
      | exact insertsNone_lookup
      | exact insertsNone_except
      | exact insertsNone_joinedExperiment
      | exact insertsNone_statement rfl
      | refine insertsNone_bind ?_ fun _ => ?_

/-- Nor do the requests with a key. -/
theorem handleSdk_insertsNone {identity : KeyIdentity} {request : SdkRequest} :
    InsertsNone (handleSdk crates trunc identity request) := by
  cases request with
  | ingest events now =>
      exact insertsNone_bind (confined_adapt insertsNone_counted) fun _ => insertsNone_pure
  | evaluateAll body now =>
      refine insertsNone_bind insertsNone_except fun _ => insertsNone_bind insertsNone_except ?_
      exact fun _ => insertsNone_bind insertsNone_lookup fun _ => insertsNone_pure
  | evaluateOne flagKey body now =>
      refine insertsNone_bind insertsNone_except fun _ => ?_
      exact insertsNone_bind insertsNone_lookup fun _ => insertsNone_pure
  | snapshot now =>
      refine insertsNone_bind insertsNone_except fun _ => ?_
      exact insertsNone_bind insertsNone_lookup fun _ => insertsNone_pure

/-- Nor does a revocation. -/
theorem revoke_insertsNone {caller : AuthUser} {projectKey environmentKey : String} {keyId : Uuid} :
    InsertsNone (Keys.revoke crates caller projectKey environmentKey keyId) := by
  refine insertsNone_bind insertsNone_except fun _ => insertsNone_bind insertsNone_lookup ?_
  intro project
  refine insertsNone_bind insertsNone_lookup fun environment => insertsNone_bind ?_ fun _ => ?_
  · exact confined_adapt (insertsNone_bind ⟨rfl, fun _ _ _ _ => trivial⟩ fun _ => insertsNone_sql)
  · exact insertsNone_bind insertsNone_handler fun _ => insertsNone_pure

/-- A lookup of a project hands over the row that the thread has then found. -/
theorem insertsFor_findProject {organizationId : Uuid} {key : String}
    {f : ProjectRow → Endpoint β}
    (hf : ∀ project, InsertsFor sha256 call
      (⟨.counted (.sql (.selectProject organizationId key)), .ok (some project)⟩ :: log)
      (f project)) :
    InsertsFor sha256 call log (lookup (findProject organizationId key) >>= f) := by
  apply Fallible.obeys_bind
  apply Fallible.obeys_adapt
  refine ⟨fun _ hnone => (by cases hnone), ?_⟩
  rintro (e | _ | project) a heq
  · cases heq
  · cases heq
  · cases heq
    exact hf project

/-- What is inserted after an environment was found may rest on that answer. -/
theorem insertsFor_findEnvironment {projectId : Uuid} {key : String}
    {f : EnvironmentRow → Endpoint β}
    (hf : ∀ environment, InsertsFor sha256 call
      (⟨.counted (.sql (.selectEnvironment projectId key)), .ok (some environment)⟩ :: log)
      (f environment)) :
    InsertsFor sha256 call log (lookup (findEnvironment projectId key) >>= f) := by
  apply Fallible.obeys_bind
  apply Fallible.obeys_adapt
  refine ⟨fun _ hnone => (by cases hnone), ?_⟩
  rintro (e | _ | environment) a heq
  · cases heq
  · cases heq
  · cases heq
    exact hf environment

/-- A creation inserts the key that was generated for it, with the scope that was asked for, in the
    environment that it found; and an owner or admin asked. -/
theorem create_insertsFor {caller : AuthUser} {projectKey environmentKey : String} {body : CreateKey}
    {bytes : Vector UInt8 32} :
    InsertsFor sha256 (.keys caller (.create projectKey environmentKey body bytes)) []
      (Keys.create crates sha256 caller projectKey environmentKey body bytes) := by
  apply Fallible.obeys_bind
  apply Fallible.obeys_except
  intro _ hallowed
  apply insertsFor_findProject
  intro project
  apply insertsFor_findEnvironment
  intro environment
  apply Fallible.obeys_bind
  apply Fallible.obeys_adapt
  refine ⟨?_, fun r key _ => ?_⟩
  · intro key hkey
    cases hkey
    exact ⟨caller, projectKey, environmentKey, body, bytes, project, environment, rfl,
      canAdminister_of_requireAdmin (ok_of_mapError hallowed), rfl, rfl, rfl,
      List.mem_cons_of_mem _ List.mem_cons_self, List.mem_cons_self⟩
  · exact (insertsNone_bind insertsNone_handler fun _ => insertsNone_pure).insertsFor

/-- Whatever a call is answered, the keys that it inserts are those that it grants. -/
theorem program_inserts : Prog.Obeys (fun log s => ∀ key, s.inserted = some key →
    Grants sha256 call log key.1 key.2.1 key.2.2) (fun _ _ => True) []
    (program crates sha256 trunc call) := by
  have h : InsertsFor sha256 call [] (serve crates sha256 trunc call) := by
    cases call with
    | manage caller request =>
        exact (insertsNone_bind insertsNone_handler fun _ => insertsNone_pure).insertsFor
    | consult caller request => exact consult_insertsNone.insertsFor
    | keys caller request =>
        cases request with
        | create => exact create_insertsFor
        | revoke => exact revoke_insertsNone.insertsFor
    | sdk presented request =>
        refine (insertsNone_bind ?_ fun identity => handleSdk_insertsNone).insertsFor
        refine insertsNone_bind insertsNone_except fun _ => insertsNone_bind insertsNone_except ?_
        exact fun _ => insertsNone_bind (insertsNone_statement rfl) fun _ => insertsNone_except
    | touch keyId =>
        exact (insertsNone_bind (insertsNone_statement rfl) fun _ => insertsNone_pure).insertsFor
  exact Prog.Obeys.mono (fun _ _ _ => trivial) h

end Grants

/-! ### What an SDK request is answered -/

section Identified

variable {crates : Crates} {sha256 : List UInt8 → Vector UInt8 32}
  {trunc : Timestamp → Option Timestamp} {request : SdkRequest}

/-- Only a key of the scope `server` downloads the targeting rules. -/
def Entitled (request : SdkRequest) (scope : KeyScope) : Prop :=
  ∀ now, request = .snapshot now → scope = .server

/-- How a request ends whose key was not let in. -/
inductive TurnedAway (result : Except Refusal Reply) : Prop where
  | unauthorized (message : String) (h : result = .error (.unauthorized message))
  | internal (h : result = .error (.api .internal))

/-- What `identify` does with a secret, by the scope that the secret claims. -/
theorem program_claiming {secret : String} {claimed : Option KeyScope}
    (hclaimed : claimedScope secret = claimed) :
    program crates sha256 trunc (.sdk (some secret) request) =
      ((orUnauthorized "not a valid SDK key" claimed >>= fun _ =>
        storage (plain (.resolveKey (hash sha256 secret))) >>= fun found : Option KeyIdentity =>
          orUnauthorized "unknown or revoked SDK key" found) >>= fun identity =>
            handleSdk crates trunc identity request).run := by
  subst hclaimed
  rfl

/-- The program of an SDK request: the lookup of the key, and then what it asks. -/
theorem program_sdk {secret : String} {scope : KeyScope} (hscope : claimedScope secret = some scope) :
    program crates sha256 trunc (.sdk (some secret) request) =
      .call (.resolveKey (hash sha256 secret)) fun r : Except SqlError (Option KeyIdentity) =>
        match r with
        | .error _ => .done (.error (.api .internal))
        | .ok none => .done (.error (.unauthorized "unknown or revoked SDK key"))
        | .ok (some identity) => (handleSdk crates trunc identity request).run := by
  rw [program_claiming hscope]
  refine congrArg (Prog.call (Stmt.resolveKey (hash sha256 secret))) (funext ?_)
  rintro (e | _ | identity) <;> rfl

/-- A request is answered with a success only if its key was let in, and may do what it asks. -/
theorem sdk_identified {presented : Option String} : Prog.Obeys (fun _ _ => True)
    (fun log result => TurnedAway result ∨ ∃ secret identity, presented = some secret ∧
      (⟨.resolveKey (hash sha256 secret), .ok (some identity)⟩ : Learned) ∈ log ∧
      ∀ reply, result = .ok reply → Entitled request identity.scope)
    [] (program crates sha256 trunc (.sdk presented request)) := by
  cases presented with
  | none => exact .inl (.unauthorized _ rfl)
  | some secret =>
      cases hscope : claimedScope secret with
      | none =>
          rw [program_claiming hscope]
          exact .inl (.unauthorized _ rfl)
      | some scope =>
          rw [program_sdk hscope]
          refine ⟨trivial, ?_⟩
          rintro (e | _ | identity)
          · exact .inl (.internal rfl)
          · exact .inl (.unauthorized _ rfl)
          · by_cases hentitled : Entitled request identity.scope
            · -- the lookup stays in the log, whatever the handler does
              refine Prog.Obeys.mono ?_ (Prog.obeys_of_persists (P := fun log =>
                (⟨.resolveKey (hash sha256 secret), .ok (some identity)⟩ : Learned) ∈ log)
                (fun _ _ => List.mem_cons_of_mem _) List.mem_cons_self)
              exact fun _ _ hmem => .inr ⟨secret, identity, rfl, hmem, fun _ _ => hentitled⟩
            · -- a client's key does not get a snapshot
              cases request with
              | snapshot now =>
                  have hclient : identity.scope = .client := by
                    cases hscope : identity.scope with
                    | client => rfl
                    | server => exact absurd (fun _ _ => hscope) hentitled
                  have hrefused : (handleSdk crates trunc identity (.snapshot now)).run =
                      .done (.error (.api (.forbidden
                        "client-scoped keys can evaluate but cannot download targeting rules"))) := by
                    rw [handleSdk, hclient]
                    rfl
                  simp only [hrefused]
                  refine .inr ⟨secret, identity, rfl, List.mem_cons_self, fun _ h => ?_⟩
                  cases h
              | _ => exact absurd (fun _ h => by cases h) hentitled

end Identified

/-! ### A key of the shop

The owner issues a key, an application downloads the snapshot with it, the owner revokes it, and the
application asks again. -/

namespace Shop

open Api.Shop (owner)

/-- The shop with nothing counted and no key. -/
def store : Store := ⟨⟨Api.Shop.store, []⟩, [], []⟩

def bytes : Vector UInt8 32 := .replicate 32 7

def secret : String := secretOf .server bytes

def calls : List Call :=
  [.keys owner (.create "shop" "live" ⟨"web", .server⟩ bytes), .sdk (some secret) (.snapshot 5),
    .keys owner (.revoke "shop" "live" ⟨10⟩), .sdk (some secret) (.snapshot 6)]

def answer (call : Call) : Prog Stmt Resp (Except Refusal Reply) :=
  program .plain firstBytes (fun _ => none) call

def tick : Input := ⟨Api.Shop.tick, 7⟩

/-- Each in turn. -/
def actions : List (Pool.Action Stmt Resp (Except Refusal Reply) Input) :=
  calls.map (.spawn ∘ answer) ++ ((List.replicate 4 0 ++ List.replicate 5 1 ++ List.replicate 4 2 ++
    [3]).map (.run · tick))

def events : List (Event Stmt Store Input) :=
  Pool.history exec actions ⟨store, []⟩

def after : Pool Stmt Resp (Except Refusal Reply) Store :=
  Pool.runSchedule exec actions ⟨store, []⟩

theorem traced : Traced exec store (calls.map answer) events after := by
  have h : Traced exec store ([] ++ Pool.started actions) (events ++ []) after := .schedule .start
  rwa [List.nil_append, List.append_nil] at h

def key : KeyRow where
  id := ⟨10⟩
  environmentId := ⟨2⟩
  name := "web"
  keyHash := hash firstBytes secret
  shown := String.ofList (secret.toList.take displayPrefixLen)
  scope := .server
  createdAt := 1
  lastUsedAt := none
  revokedAt := none

theorem length_events : events.length = 14 := by decide +kernel

/-- The owner's revocation. -/
def revocation : Event Stmt Store Input :=
  events.get ⟨2, by rw [length_events]; decide⟩

theorem events_eq : events = events.take 2 ++ revocation :: events.drop 3 := by
  have hdrop : events.drop 2 = revocation :: events.drop 3 := List.drop_eq_getElem_cons _
  rw [← hdrop, List.take_append_drop]

theorem revokes : Revokes (revocation.learned exec) key.environmentId key.id :=
  have h : revocationOf (revocation.learned exec) = some (key.environmentId, key.id, 1) := by
    decide +kernel
  revokes_of_revocationOf h (by decide)

theorem inserts_nothing : ∀ e ∈ events.take 2, ∀ inserted, e.stmt.inserted = some inserted →
    inserted.2.1 ≠ key.keyHash := by
  have hnone : (events.take 2).all (fun e => e.stmt.inserted.isNone) = true := by decide +kernel
  intro e he inserted heq
  have hthis := List.all_eq_true.mp hnone e he
  rw [heq] at hthis
  cases hthis

theorem comes_after : ∀ e ∈ events.drop 3, e.thread ≠ 3 := by
  have hall : (events.drop 3).all (fun e => e.thread ≠ 3) = true := by decide +kernel
  exact fun e he => of_decide_eq_true (List.all_eq_true.mp hall e he)

theorem key_mem : key ∈ revocation.before.keys := by decide +kernel

/-- What a thread ended with. -/
def ended (i : Nat) : Option (Except Refusal Reply) :=
  after.threads[i]?.bind fun thread =>
    match thread.prog with
    | .done result => some result
    | .call _ _ => none

theorem thread_of_ended {i : Nat} {result : Except Refusal Reply} (h : ended i = some result) :
    ∃ thread, after.threads[i]? = some thread ∧ thread.prog = .done result := by
  obtain ⟨thread, hthread, h⟩ := Option.bind_eq_some_iff.mp h
  refine ⟨thread, hthread, ?_⟩
  split at h
  · rename_i hprog
    cases h
    exact hprog
  · cases h

theorem served : ∃ reply, ended 1 = some (.ok reply) := by
  have hok : ((ended 1).any fun result => result.isOk) = true := by decide +kernel
  cases hended : ended 1 with
  | none =>
      rw [hended] at hok
      cases hok
  | some result =>
      rw [hended] at hok
      cases result with
      | ok reply => exact ⟨reply, rfl⟩
      | error e => cases hok

theorem refused : ∃ result, ended 3 = some result := by
  have hsome : (ended 3).isSome = true := by decide +kernel
  exact Option.isSome_iff_exists.mp hsome

end Shop

/-! ### Runs -/

section Runs

variable {crates : Crates} {sha256 : List UInt8 → Vector UInt8 32}
  {trunc : Timestamp → Option Timestamp} {initial : Store} {calls : List Call}
  {events : List (Event Stmt Store Input)} {pool : Pool Stmt Resp (Except Refusal Reply) Store}

/-- What the thread had been answered before the rest of the run. -/
def learnedBy (thread : Nat) (earlier : List (Event Stmt Store Input)) : Log Stmt Resp :=
  (Traced.eventsOf thread earlier).map (Event.learned exec)

/-- What a thread was answered by the tables it read from a store of the run. -/
theorem exists_of_foundIn {thread : Nat} {earlier : List (Event Stmt Store Input)} {s : Sql.Stmt}
    {v : s.Result} (h : FoundIn (learnedBy thread earlier) s v) :
    ∃ e ∈ earlier, ∃ w, s.run e.input.toInput e.before.db = .ok w ∧ w.value = v := by
  obtain ⟨e, he, hlearned⟩ := List.mem_map.mp h
  have hmem := (List.mem_filter.mp he).1
  obtain ⟨i, input, stmt, before⟩ := e
  have hstmt : stmt = .counted (.sql s) := congrArg Sigma.fst hlearned
  subst hstmt
  have hanswer : (Sql.exec input.toInput s before.db).1 = .ok v :=
    eq_of_heq (Sigma.mk.inj hlearned).2
  obtain ⟨w, hw, hvalue, _⟩ := Sql.run_of_exec_ok hanswer
  exact ⟨_, hmem, w, hw, hvalue⟩

/-- The environment is the one that the organization has under the keys, by rows that the run held when
    they were read. -/
def HasEnvironment (organizationId : Uuid) (projectKey environmentKey : String) (environmentId : Uuid)
    (earlier : List (Event Stmt Store Input)) : Prop :=
  ∃ project environment, project.organizationId = organizationId ∧ project.key = projectKey ∧
    environment.projectId = project.id ∧ environment.key = environmentKey ∧
    environment.id = environmentId ∧ (∃ e ∈ earlier, project ∈ e.before.db.projects) ∧
    ∃ e ∈ earlier, environment ∈ e.before.db.environments

/-- An environment that a thread found under its keys is one of the caller's organization. -/
theorem hasEnvironment_of_found {thread : Nat} {earlier : List (Event Stmt Store Input)}
    {caller : AuthUser} {projectKey environmentKey : String} {project : ProjectRow}
    {environment : EnvironmentRow}
    (h : FoundEnvironment (FoundIn (learnedBy thread earlier)) caller projectKey environmentKey project
      environment) :
    HasEnvironment caller.organizationId projectKey environmentKey environment.id earlier := by
  obtain ⟨e, he, w, hw, hvalue⟩ := exists_of_foundIn h.1
  obtain ⟨e', he', w', hw', hvalue'⟩ := exists_of_foundIn h.2
  cases hw
  cases hw'
  have hproject := List.find?_some hvalue
  rw [Bool.and_eq_true, decide_eq_true_eq, decide_eq_true_eq] at hproject
  have henvironment := EnvironmentRow.isFor_iff.mp (List.find?_some hvalue')
  exact ⟨project, environment, hproject.1, hproject.2, henvironment.1, henvironment.2, rfl,
    ⟨e, he, List.mem_of_find?_eq_some hvalue⟩, e', he', List.mem_of_find?_eq_some hvalue'⟩

/-- No revocation among the events found the key. -/
def Unrevoked (events : List (Event Stmt Store Input)) (environmentId id : Uuid) : Prop :=
  ∀ e ∈ events, ¬ Revokes (e.learned exec) environmentId id

/-- The key was there at the start or was issued in the run, and if it is not revoked, no revocation has
    found it since. -/
inductive Known (initial : Store) (events : List (Event Stmt Store Input)) (row : KeyRow) : Prop where
  | held {old : KeyRow} (hold : old ∈ initial.keys) (holder : old.Older row)
      (hunrevoked : row.revokedAt = none → Unrevoked events row.environmentId row.id)
  | issued {later earlier : List (Event Stmt Store Input)} {issue : Event Stmt Store Input}
      (hevents : events = later ++ issue :: earlier) (hissues : Issues (issue.learned exec) row)
      (hunrevoked : row.revokedAt = none → Unrevoked later row.environmentId row.id)

/-- A key that is not revoked was not revoked before. -/
theorem KeyRow.Older.live {old new : KeyRow} (h : old.Older new) (hlive : new.revokedAt = none) :
    old.revokedAt = none := by
  cases hold : old.revokedAt with
  | none => rfl
  | some t =>
      rw [h.revoked t hold] at hlive
      cases hlive

/-- A statement that does not revoke the key takes nothing away from what is known of it. -/
theorem Known.older {e : Event Stmt Store Input} {old row : KeyRow} (h : Known initial events old)
    (holder : old.Older row)
    (hspared : row.revokedAt = none → ¬ Revokes (e.learned exec) row.environmentId row.id) :
    Known initial (e :: events) row := by
  have hids : row.environmentId = old.environmentId ∧ row.id = old.id := by
    rw [holder.same]
    exact ⟨rfl, rfl⟩
  have hsince : ∀ {events : List (Event Stmt Store Input)},
      (old.revokedAt = none → Unrevoked events old.environmentId old.id) →
        row.revokedAt = none → Unrevoked (e :: events) row.environmentId row.id := by
    intro events hold hlive
    refine List.forall_mem_cons.mpr ⟨hspared hlive, ?_⟩
    rw [hids.1, hids.2]
    exact hold (holder.live hlive)
  cases h with
  | held hfirst hgrown hunrevoked => exact .held hfirst (hgrown.trans holder) (hsince hunrevoked)
  | @issued later earlier issue hevents hissues hunrevoked =>
      exact @Known.issued _ _ _ (e :: later) _ _ (by rw [hevents, List.cons_append]) (hissues.older holder)
        (hsince hunrevoked)

/-- Nothing is in the store that was neither there at the start nor issued. -/
theorem keys_known {origins : List (Prog Stmt Resp (Except Refusal Reply))}
    (h : Traced exec initial origins events pool) : ∀ row ∈ pool.db.keys, Known initial events row := by
  refine Traced.invariant (I := fun events store => ∀ row ∈ store.keys, Known initial events row)
    ?_ ?_ h
  · exact fun row hrow => .held hrow .refl fun _ _ he => by cases he
  · intro e events ih row hmem
    rcases exec_older hmem with ⟨old, hold, holder, hspared⟩ | hissues
    · exact (ih old hold).older holder hspared
    · exact @Known.issued _ _ _ [] _ _ rfl hissues fun _ _ he => by cases he

/-- How a secret came to be let in as the identity, after these events. -/
inductive Provenance (sha256 : List UInt8 → Vector UInt8 32) (initial : Store) (calls : List Call)
    (secret : String) (identity : KeyIdentity) (events : List (Event Stmt Store Input)) : Prop where
  /-- Its key was in the store at the start, with this environment and scope, not revoked, and no
      revocation found it. -/
  | held {key : KeyRow} (hkey : key ∈ initial.keys) (hhash : key.keyHash = hash sha256 secret)
      (hid : key.id = identity.apiKeyId) (henvironment : key.environmentId = identity.environmentId)
      (hscope : key.scope = identity.scope) (hlive : key.revokedAt = none)
      (hunrevoked : Unrevoked events identity.environmentId identity.apiKeyId)
  /-- Its key was generated and inserted by a request of an owner or admin, for the environment that
      their organization has under the keys of the request and with the scope that it asks for, and no
      revocation found it since. -/
  | issued {later earlier : List (Event Stmt Store Input)} {issue : Event Stmt Store Input}
      {caller : AuthUser} {projectKey environmentKey : String} {body : CreateKey}
      {bytes : Vector UInt8 32} {name shown : String} {key : ApiKey}
      (hevents : events = later ++ issue :: earlier)
      (hissue : issue.learned exec = ⟨.insertKey identity.environmentId name (hash sha256 secret) shown
        identity.scope, .ok key⟩)
      (hid : key.id = identity.apiKeyId)
      (hcall : calls[issue.thread]? =
        some (.keys caller (.create projectKey environmentKey body bytes)))
      (hadmin : caller.role.canAdminister = true) (hscope : body.scope = identity.scope)
      (hgenerated : (generate sha256 body.scope bytes).hash = hash sha256 secret)
      (henvironment : HasEnvironment caller.organizationId projectKey environmentKey
        identity.environmentId earlier)
      (hunrevoked : Unrevoked later identity.environmentId identity.apiKeyId)

/-- A key that is let in by a run has its provenance there. -/
theorem provenance_of_accepts
    (h : Traced exec initial (calls.map (program crates sha256 trunc)) events pool)
    {later earlier : List (Event Stmt Store Input)} {lookup : Event Stmt Store Input}
    (hevents : events = later ++ lookup :: earlier) {secret : String} {identity : KeyIdentity}
    (haccepts : Accepts (lookup.learned exec) (hash sha256 secret) identity) :
    Provenance sha256 initial calls secret identity earlier := by
  obtain ⟨row, hrow, hhash, hlive, hid, henvironment, hscope⟩ := accepts_cases haccepts
  obtain ⟨_, _, _, _, hrun, _, _⟩ := h.upTo hevents
  cases keys_known hrun row hrow with
  | @held old hold holder hunrevoked =>
      have hsame := holder.same
      refine .held hold ?_ ?_ ?_ ?_ (holder.live hlive) ?_
      · rw [← hhash, hsame]
      · rw [hid, hsame]
      · rw [henvironment, hsame]
      · rw [hscope, hsame]
      · rw [henvironment, hid]
        exact hunrevoked hlive
  | @issued between before issue hearlier hissues hunrevoked =>
      obtain ⟨key, hissue, hkey⟩ := hissues
      -- the program of the issuing thread grants the key
      have hissued : events = (later ++ lookup :: between) ++ issue :: before := by
        rw [hevents, hearlier, List.append_assoc, List.cons_append]
      have hissuer : issue.thread < calls.length := by
        have hbound := h.length_eq.2 issue (by rw [hissued]; simp)
        rwa [← h.length_eq.1, List.length_map] at hbound
      have hcall := List.getElem?_eq_getElem hissuer
      have horigin : (calls.map (program crates sha256 trunc))[issue.thread]? =
          some (program crates sha256 trunc calls[issue.thread]) := by
        rw [List.getElem?_map, hcall]
        rfl
      have hinserted : issue.stmt.inserted = some (row.environmentId, row.keyHash, row.scope) := by
        rw [show issue.stmt = _ from congrArg Sigma.fst hissue]
        rfl
      obtain ⟨caller, projectKey, environmentKey, body, bytes, project, environment, hcreate, hadmin,
        hbody, hgenerated, hfound, hlookups⟩ := h.promised hissued horigin program_inserts _ hinserted
      have hidentity : issue.learned exec = ⟨.insertKey identity.environmentId row.name
          (hash sha256 secret) row.shown identity.scope, .ok key⟩ := by
        rw [hissue, henvironment, hscope, hhash]
      refine .issued hearlier hidentity (hkey.trans hid.symm)
        (hcall.trans (congrArg some hcreate)) hadmin ?_ ?_ ?_ ?_
      · rw [hscope, ← hbody]
      · rw [← hhash, ← hgenerated]
      · rw [henvironment, show row.environmentId = environment.id from hfound]
        exact hasEnvironment_of_found hlookups
      · rw [henvironment, hid]
        exact hunrevoked hlive

theorem mem_eventsOf {i : Nat} {learned : Learned}
    (h : learned ∈ (Traced.eventsOf i events).map (Event.learned exec)) :
    ∃ later e earlier, events = later ++ e :: earlier ∧ e.thread = i ∧ e.learned exec = learned := by
  obtain ⟨e, he, hlearned⟩ := List.mem_map.mp h
  obtain ⟨he, hthread⟩ := List.mem_filter.mp he
  obtain ⟨later, earlier, rfl⟩ := List.append_of_mem he
  exact ⟨later, e, earlier, rfl, of_decide_eq_true hthread, hlearned⟩

/-- An SDK request is answered with a success only if a statement of it let the presented secret in, as a
    key that was there at the start or that a request of an owner or admin of the organization of the
    environment issued in the run, and that no revocation had found by then; and the targeting rules are
    downloaded with keys of the scope `server` only. -/
theorem accepted_key_issued
    (h : Traced exec initial (calls.map (program crates sha256 trunc)) events pool) {i : Nat}
    {presented : Option String} {request : SdkRequest}
    (hcall : calls[i]? = some (.sdk presented request))
    {thread : Thread Stmt Resp (Except Refusal Reply)} (hthread : pool.threads[i]? = some thread)
    {reply : Reply} (hdone : thread.prog = .done (.ok reply)) :
    ∃ secret identity later lookup earlier, presented = some secret ∧
      events = later ++ lookup :: earlier ∧ lookup.thread = i ∧
      Accepts (lookup.learned exec) (hash sha256 secret) identity ∧
      Entitled request identity.scope ∧
      Provenance sha256 initial calls secret identity earlier := by
  have hprogram : (calls.map (program crates sha256 trunc))[i]? =
      some (program crates sha256 trunc (.sdk presented request)) := by
    rw [List.getElem?_map, hcall]
    rfl
  rcases h.result hprogram hthread hdone sdk_identified with
    (⟨_, heq⟩ | heq) | ⟨secret, identity, hpresented, hmem, hentitled⟩
  · cases heq
  · cases heq
  · obtain ⟨later, lookup, earlier, hevents, hlookup, haccepts⟩ := mem_eventsOf hmem
    exact ⟨secret, identity, later, lookup, earlier, hpresented, hevents, hlookup, haccepts,
      hentitled reply rfl, provenance_of_accepts h hevents haccepts⟩

theorem accepted_key_issued_shop : ∃ secret identity later lookup earlier,
    some Shop.secret = some secret ∧ Shop.events = later ++ lookup :: earlier ∧ lookup.thread = 1 ∧
      Accepts (lookup.learned exec) (hash firstBytes secret) identity ∧
      Entitled (.snapshot 5) identity.scope ∧
      Provenance firstBytes Shop.store Shop.calls secret identity earlier := by
  obtain ⟨reply, hreply⟩ := Shop.served
  obtain ⟨thread, hthread, hdone⟩ := Shop.thread_of_ended hreply
  exact accepted_key_issued Shop.traced rfl hthread hdone

/-- The hashes stay different from each other. -/
theorem exec_hashes {input : Input} {s : Stmt} {store : Store}
    (h : (store.keys.map KeyRow.keyHash).Nodup) :
    ((exec input s store).2.keys.map KeyRow.keyHash).Nodup := by
  have hmap : ∀ f : KeyRow → KeyRow, (∀ k, (f k).keyHash = k.keyHash) →
      (store.keys.map f).map KeyRow.keyHash = store.keys.map KeyRow.keyHash := by
    intro f hf
    rw [List.map_map]
    exact List.map_congr_left fun k _ => hf k
  cases s with
  | counted s => exact h.sublist (List.filter_sublist.map _)
  | insertKey environmentId name keyHash shown scope =>
      rcases insertKey_cases with ⟨e, heq⟩ | ⟨key, store', hok, heq⟩
      · rw [heq]
        exact h
      · rw [heq]
        obtain ⟨_, hok⟩ := Sql.of_require hok
        obtain ⟨hunique, hok⟩ := Sql.of_require hok
        obtain ⟨_, hok⟩ := Sql.of_require hok
        cases hok
        rw [List.map_append, List.nodup_append]
        refine ⟨h, List.nodup_singleton _, fun hash hhash other hother heq => ?_⟩
        obtain ⟨k, hk, rfl⟩ := List.mem_map.mp hhash
        cases List.mem_singleton.mp hother
        have hfresh := List.all_eq_true.mp hunique k hk
        simp [heq] at hfresh
  | revokeKey environmentId id =>
      rcases revokeKey_cases with ⟨e, heq⟩ | heq
      · rw [heq]
        exact h
      · rw [heq, revokeKey, hmap]
        · exact h
        · intro k
          split <;> rfl
  | touchKey id =>
      rcases touchKey_cases with ⟨e, heq⟩ | heq
      · rw [heq]
        exact h
      · rw [heq, touchKey, hmap]
        · exact h
        · intro k
          split <;> rfl
  | _ => exact h

/-- Every key with this hash is revoked. -/
def Dead (keyHash : String) (store : Store) : Prop :=
  ∀ k ∈ store.keys, k.keyHash = keyHash → k.revokedAt ≠ none

/-- A revoked key says when. -/
theorem revoke_revokedAt {row : KeyRow} {now : Timestamp} : (row.revoke now).revokedAt ≠ none := by
  cases h : row.revokedAt <;> simp [KeyRow.revoke, h]

/-- A dead secret stays dead under any statement that does not insert its hash again. -/
theorem Dead.exec {input : Input} {s : Stmt} {store : Store} {keyHash : String}
    (h : Dead keyHash store) (hnew : ∀ key, s.inserted = some key → key.2.1 ≠ keyHash) :
    Dead keyHash (exec input s store).2 := by
  intro row hmem hhash
  cases exec_keys hmem with
  | kept hrow _ => exact h _ hrow hhash
  | revoked hrow => exact revoke_revokedAt
  | @used old hrow _ _ => exact h old hrow hhash
  | issued hissues _ _ _ =>
      obtain ⟨key, heq, _⟩ := hissues
      refine absurd hhash (hnew (row.environmentId, row.keyHash, row.scope) ?_)
      rw [show s = _ from congrArg Sigma.fst heq]
      rfl

/-- A revocation leaves no live key with the hash of the key that it finds. -/
theorem dead_of_revokes {e : Event Stmt Store Input} {row : KeyRow}
    (hkeys : (e.before.keys.map KeyRow.keyHash).Nodup) (hrow : row ∈ e.before.keys)
    (hrevokes : Revokes (e.learned exec) row.environmentId row.id) :
    Dead row.keyHash (e.after exec) := by
  obtain ⟨found, hfound, heq⟩ := hrevokes
  intro k hmem hhash
  cases exec_keys hmem with
  | kept hk hspared =>
      cases List.inj_on_of_nodup_map hkeys hk hrow hhash
      exact absurd ⟨found, hfound, heq⟩ hspared
  | revoked hk => exact revoke_revokedAt
  | used hk htouch _ => cases htouch.symm.trans (congrArg Sigma.fst heq)
  | issued hissues _ _ _ =>
      obtain ⟨key, hissue, _⟩ := hissues
      cases (congrArg Sigma.fst hissue).symm.trans (congrArg Sigma.fst heq)

/-- A secret whose key a revocation has found is dead from then on, as long as none is
    generated again. -/
theorem dead_of_traced {origins : List (Prog Stmt Resp (Except Refusal Reply))}
    {later earlier : List (Event Stmt Store Input)} {e : Event Stmt Store Input} {row : KeyRow}
    (h : Traced exec initial origins events pool)
    (hkeys : (initial.keys.map KeyRow.keyHash).Nodup) (hevents : events = later ++ e :: earlier)
    (hrow : row ∈ e.before.keys) (hrevokes : Revokes (e.learned exec) row.environmentId row.id)
    (hnew : ∀ e' ∈ later, ∀ key, e'.stmt.inserted = some key → key.2.1 ≠ row.keyHash) :
    Dead row.keyHash pool.db := by
  suffices hall : (pool.db.keys.map KeyRow.keyHash).Nodup ∧
      ∀ later, events = later ++ e :: earlier →
        (∀ e' ∈ later, ∀ key, e'.stmt.inserted = some key → key.2.1 ≠ row.keyHash) →
        Dead row.keyHash pool.db from hall.2 later hevents hnew
  refine Traced.invariant (I := fun events store => (store.keys.map KeyRow.keyHash).Nodup ∧
    ∀ later, events = later ++ e :: earlier →
      (∀ e' ∈ later, ∀ key, e'.stmt.inserted = some key → key.2.1 ≠ row.keyHash) →
      Dead row.keyHash store) ?_ ?_ h
  · refine ⟨hkeys, fun later heq => ?_⟩
    simp at heq
  · rintro e' events ⟨hnodup, ih⟩
    refine ⟨exec_hashes hnodup, fun later heq hnew => ?_⟩
    cases later with
    | nil =>
        rw [List.nil_append, List.cons.injEq] at heq
        obtain ⟨rfl, rfl⟩ := heq
        exact dead_of_revokes hnodup hrow hrevokes
    | cons e'' later =>
        rw [List.cons_append, List.cons.injEq] at heq
        obtain ⟨rfl, rfl⟩ := heq
        exact (ih later rfl fun e he => hnew e (List.mem_cons_of_mem _ he)).exec
          (hnew e' List.mem_cons_self)

/-- Once a revocation has found a key, no request gets in with its secret that comes after it, as long as
    nobody generates the secret again. -/
theorem revoked_secret_refused
    (h : Traced exec initial (calls.map (program crates sha256 trunc)) events pool)
    (hkeys : (initial.keys.map KeyRow.keyHash).Nodup)
    {later earlier : List (Event Stmt Store Input)} {e : Event Stmt Store Input}
    (hevents : events = later ++ e :: earlier) {row : KeyRow} (hrow : row ∈ e.before.keys)
    (hrevokes : Revokes (e.learned exec) row.environmentId row.id)
    (hnew : ∀ e' ∈ later, ∀ key, e'.stmt.inserted = some key → key.2.1 ≠ row.keyHash)
    {i : Nat} {secret : String} (hsecret : hash sha256 secret = row.keyHash) {request : SdkRequest}
    (hcall : calls[i]? = some (.sdk (some secret) request)) (hlate : ∀ e' ∈ earlier, e'.thread ≠ i)
    {thread : Thread Stmt Resp (Except Refusal Reply)} (hthread : pool.threads[i]? = some thread)
    {result : Except Refusal Reply} (hdone : thread.prog = .done result) : TurnedAway result := by
  have hprogram : (calls.map (program crates sha256 trunc))[i]? =
      some (program crates sha256 trunc (.sdk (some secret) request)) := by
    rw [List.getElem?_map, hcall]
    rfl
  rcases h.result hprogram hthread hdone sdk_identified with
    haway | ⟨secret', identity, hpresented, hmem, _⟩
  · exact haway
  · cases hpresented
    obtain ⟨front, lookup, back, hlookup, hi, haccepts⟩ := mem_eventsOf hmem
    have hlookupStmt := congrArg Sigma.fst haccepts
    obtain ⟨found, _, hrevoked⟩ := id hrevokes
    have hrevokedStmt := congrArg Sigma.fst hrevoked
    -- the lookup came after the revocation
    obtain ⟨between, rfl, rfl⟩ : ∃ between, later = front ++ lookup :: between ∧
        back = between ++ e :: earlier := by
      have hother : lookup ≠ e := by
        rintro rfl
        cases hlookupStmt.symm.trans hrevokedStmt
      rcases List.append_eq_append_iff.mp (hevents.symm.trans hlookup) with
        ⟨rest, hfront, hrest⟩ | ⟨rest, hlater, hrest⟩
      · cases rest with
        | nil => exact absurd (List.cons.inj hrest).1.symm hother
        | cons x rest =>
            have hmem : lookup ∈ earlier := by
              rw [(List.cons.inj hrest).2]
              simp
            exact absurd hi (hlate lookup hmem)
      · cases rest with
        | nil => exact absurd (List.cons.inj hrest).1 hother
        | cons x rest =>
            obtain ⟨rfl, hback⟩ := List.cons.inj hrest
            exact ⟨rest, hlater, hback⟩
    obtain ⟨started, threads, log, k, hrun, _, _⟩ := h.upTo hlookup
    have hdead := dead_of_traced hrun hkeys rfl hrow hrevokes
      fun e' he' => hnew e' (List.mem_append_right _ (List.mem_cons_of_mem _ he'))
    obtain ⟨k, hk, hhash, hlive, _⟩ := accepts_cases haccepts
    exact absurd hlive (hdead k hk (hhash.trans hsecret))

theorem revoked_secret_refused_shop : ∃ result, Shop.ended 3 = some result ∧ TurnedAway result := by
  obtain ⟨result, hresult⟩ := Shop.refused
  obtain ⟨thread, hthread, hdone⟩ := Shop.thread_of_ended hresult
  exact ⟨result, hresult, revoked_secret_refused Shop.traced List.nodup_nil Shop.events_eq
    Shop.key_mem Shop.revokes Shop.inserts_nothing rfl rfl Shop.comes_after hthread hdone⟩

/-- Between two moments of a run, a key that was there at the first one is only older at the second. -/
theorem keys_age {origins : List (Prog Stmt Resp (Except Refusal Reply))}
    (h : Traced exec initial origins events pool)
    {later earlier : List (Event Stmt Store Input)} {e : Event Stmt Store Input}
    (hevents : events = later ++ e :: earlier) : ∀ row ∈ pool.db.keys,
      (∃ old ∈ e.before.keys, old.Older row) ∨
        ∃ issue ∈ later ++ [e], Issues (issue.learned exec) row := by
  suffices hall : ∀ later, events = later ++ e :: earlier → ∀ row ∈ pool.db.keys,
      (∃ old ∈ e.before.keys, old.Older row) ∨
        ∃ issue ∈ later ++ [e], Issues (issue.learned exec) row from hall later hevents
  refine Traced.invariant (I := fun events store => ∀ later, events = later ++ e :: earlier →
    ∀ row ∈ store.keys, (∃ old ∈ e.before.keys, old.Older row) ∨
      ∃ issue ∈ later ++ [e], Issues (issue.learned exec) row) ?_ ?_ h
  · intro later heq
    simp at heq
  · intro e' events ih later heq row hmem
    have hstep : (∃ old ∈ e'.before.keys, old.Older row) ∨ Issues (e'.learned exec) row :=
      (exec_older hmem).imp_left fun ⟨old, hold, holder, _⟩ => ⟨old, hold, holder⟩
    cases later with
    | nil =>
        rw [List.nil_append, List.cons.injEq] at heq
        obtain ⟨rfl, rfl⟩ := heq
        rcases hstep with hold | hissues
        · exact .inl hold
        · exact .inr ⟨e', by simp, hissues⟩
    | cons e'' later =>
        rw [List.cons_append, List.cons.injEq] at heq
        obtain ⟨rfl, rfl⟩ := heq
        rcases hstep with ⟨old, hold, holder⟩ | hissues
        · rcases ih later rfl old hold with ⟨oldest, holdest, h⟩ | ⟨issue, hissue, hissues⟩
          · exact .inl ⟨oldest, holdest, h.trans holder⟩
          · refine .inr ⟨issue, ?_, hissues.older holder⟩
            rw [List.cons_append]
            exact List.mem_cons_of_mem _ hissue
        · exact .inr ⟨e', by simp, hissues⟩

/-- The owner's key at the end is the one that the revocation found, grown older. -/
theorem keys_age_shop :
    (∃ old ∈ Shop.revocation.before.keys, old.Older (Shop.key.revoke Shop.tick.now)) ∨
      ∃ issue ∈ Shop.events.take 2 ++ [Shop.revocation],
        Issues (issue.learned exec) (Shop.key.revoke Shop.tick.now) :=
  have hmem : Shop.key.revoke Shop.tick.now ∈ Shop.after.db.keys := by decide +kernel
  keys_age Shop.traced Shop.events_eq _ hmem

end Runs

end FlagForge.Service
