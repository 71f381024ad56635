/-
Module: FlagForge.Api.Server
Layer: Api
Purpose: Any number of requests served at once, interleaved statement by statement.
Imports: FlagForge.Api.Obligations
Trusted boundary: none
Main exports: Server, Serves, Serves.invariant, Schedule
-/
import FlagForge.Api.Obligations

namespace FlagForge.Api

open Prog (Log)
open Storage
open Storage.Sql (Stmt Resp Input Written)

variable (crates : Crates)

/-- The database and the requests in progress. -/
abbrev Server := Pool Stmt Resp (Except ApiError Unit) Db

/-- The programs of the requests of some kind, whoever calls. -/
def Served (kind : Request → Prop) (p : Prog Stmt Resp (Except ApiError Unit)) : Prop :=
  ∃ caller request, kind request ∧ p = (handle crates caller request).run

/-- A run of the server on requests of some kind; the guard says which statements may go out in
    which states. -/
def Serves (kind : Request → Prop) (guard : Log Stmt Resp → Stmt → Db → Prop) :
    Server → Server → Prop :=
  Pool.Runs Sql.exec (Served crates kind) guard

variable {crates}

/-- The choices of a concrete run. -/
abbrev Schedule := List (Pool.Action Stmt Resp (Except ApiError Unit) Input)

/-- An invariant of the database that every successful write of a justified statement keeps holds
    after every statement of every run. -/
theorem Serves.invariant {kind : Request → Prop} {guard : Log Stmt Resp → Stmt → Db → Prop}
    {I : Db → Prop} {db : Db} {server : Server} (h : Serves crates kind guard ⟨db, []⟩ server)
    (hwrite : ∀ caller request log s db input w, kind request →
      Justified crates caller request log s → s.isRead = false → guard log s db →
      s.run input db = .ok w → I db → I w.db)
    (hI : I db) : I server.db := by
  refine (Pool.Runs.invariant
    (P := fun log s => ∃ caller request, kind request ∧ Justified crates caller request log s)
    (Q := fun _ _ => True) ?_ ?_ h ?_ hI).2
  · rintro p ⟨caller, request, hkind, rfl⟩
    apply Prog.Obeys.imp _ _ (handle_justified request)
    · exact fun _ s hs => ⟨caller, request, hkind, hs⟩
    · exact fun _ _ _ => trivial
  · rintro log s db input ⟨caller, request, hkind, hjustified⟩ hguard hI
    cases hread : s.isRead with
    | true =>
        rw [Sql.exec_of_isRead hread]
        exact hI
    | false =>
        exact Sql.exec_invariant
          (fun w hw => hwrite caller request log s db input w hkind hjustified hread hguard hw hI) hI
  · intro t ht
    cases ht

/-! ### A small shop

One environment and one flag that is on in it, for concrete schedules. -/

namespace Shop

def project : ProjectRow := ⟨⟨1⟩, ⟨0⟩, "shop", "Shop", none, 0⟩

def live : EnvironmentRow := ⟨⟨2⟩, ⟨1⟩, "live", "Live", "salt", false, 0⟩

def onOff : List Variant := [⟨"on", .bool true⟩, ⟨"off", .bool false⟩]

def beta : Variant := ⟨"beta", .bool true⟩

def checkout : FlagRow :=
  ⟨⟨3⟩, ⟨1⟩, "checkout", "Checkout", none, onOff ++ [beta], false, 0, 0⟩

def checkoutLive : ConfigRow := ⟨⟨3⟩, ⟨2⟩, true, "off", .fixed "on", [], 1, 0⟩

def store : Db := ⟨[project], [live], [checkout], [checkoutLive], [], [], []⟩

def owner : AuthUser := ⟨⟨9⟩, ⟨0⟩, "owner@shop.test", .owner⟩

/-- What the database contributes to every statement. -/
def tick : Input := ⟨⟨10⟩, 1, false⟩

/-- The program of a request of the owner. -/
def ask (request : Request) : Prog Stmt Resp (Except ApiError Unit) :=
  (handle .plain owner request).run

end Shop

end FlagForge.Api
