/-
Module: FlagForge.Storage.TornLoad
Layer: Storage
Purpose: A load while others write. Each of its four reads finds a state of its own, and the snapshot
  is put together from the four.
Imports: FlagForge.Storage.SnapshotVersion
Trusted boundary: none
Main exports: Commit, assembled, load_among, among_load
-/
import FlagForge.Storage.SnapshotVersion

namespace FlagForge.Storage

open Sql (Input Written Stmt)

/-- A write that is committed. -/
inductive Commit : Db → Db → Prop where
  | write {db : Db} {input : Input} {s : Stmt} {w : Written s.Result} (haimed : Aimed s db)
      (hw : s.run input db = .ok w) : Commit db w.db

theorem Commit.stored {db db' : Db} (h : Commit db db') (hstored : Stored db) : Stored db' := by
  cases h with
  | write haimed hw => exact .write hstored haimed hw

/-- A statement that has committed is a commit. -/
theorem Commit.exec {db : Db} {input : Input} {s : Stmt} {w : Written s.Result}
    (haimed : Aimed s db) (hfails : input.fails = false) (hw : s.run input db = .ok w) :
    Commit db (Sql.exec input s db).2 := by
  rw [Sql.exec_of_run_ok hfails hw]
  exact .write haimed hw

/-- The snapshot from the states that the four reads find: the environment, its flags, its segments,
    and its running experiments. -/
def assembled (environmentId : Uuid) (now : Timestamp) (env flags segments experiments : Db) :
    Option (EnvironmentSnapshot Timestamp) :=
  (Sql.selectSalt environmentId env).map fun row =>
    (EnvironmentSnapshot.new environmentId row.1 row.2
      (Sql.selectEnvironmentFlags environmentId flags)
      ((Sql.selectSegments environmentId segments).map SegmentRow.definition) now).withExperiments
        (Sql.selectRunningExperiments environmentId experiments)

/-- Where nothing is written, the four states are one. -/
theorem assembled_self {environmentId : Uuid} {now : Timestamp} {db : Db} :
    assembled environmentId now db db db db = snapshotAt environmentId now db :=
  rfl

section Load

variable {environmentId : Uuid} {now : Timestamp} {others : Db → Db → Prop} {db last : Db}
  {found : List Db} {snapshot : EnvironmentSnapshot Timestamp}

/-- A query among others that starts with a read, and succeeds, goes on with what the read finds. -/
theorem among_plain {α : Type} (s : Stmt) {k : s.Result → Query α} {a : α} (value : Db → s.Result)
    (hread : ∀ input mid, s.run input mid = .ok (Sql.unchanged (value mid) mid))
    (h : Prog.Among Sql.exec others (plain s >>= k).run db found (Except.ok a) last) :
    ∃ mid rest, found = mid :: rest ∧ others db mid ∧
      Prog.Among Sql.exec others (k (value mid)).run mid rest (Except.ok a) last := by
  have hcall : Prog.Among Sql.exec others (.call s _) db found (Except.ok a) last := h
  obtain ⟨input, mid, rest, hfound, hothers, hrest⟩ := hcall.of_call
  refine ⟨mid, rest, hfound, hothers, ?_⟩
  rw [Sql.exec_of_run_unchanged (hread input mid)] at hrest
  cases hfails : input.fails with
  | true =>
      -- the query ends in the error
      rw [hfails] at hrest
      cases hrest.of_done.2.1
  | false =>
      rw [hfails] at hrest
      exact hrest

/-- A read among commits of others, and the rest from the state that it found. -/
theorem plain_among {α : Type} (s : Stmt) {k : s.Result → Query α} {a : α} {mid : Db}
    (value : Db → s.Result)
    (hread : ∀ input mid, s.run input mid = .ok (Sql.unchanged (value mid) mid))
    (hothers : others db mid)
    (h : Prog.Among Sql.exec others (k (value mid)).run mid found (Except.ok a) last) :
    Prog.Among Sql.exec others (plain s >>= k).run db (mid :: found) (Except.ok a) last := by
  refine Prog.Among.call ⟨.nil, 0, false⟩ hothers ?_
  rw [Sql.exec_of_run_unchanged (hread _ mid)]
  exact h

/-- A load that succeeds puts together what its reads found. -/
theorem load_among (h : Prog.Among Sql.exec others (load environmentId now).run db found
    (Except.ok snapshot) last) :
    ∃ env flags segments experiments, found = [env, flags, segments, experiments] ∧
      others db env ∧ others env flags ∧ others flags segments ∧ others segments experiments ∧
      others experiments last ∧
      assembled environmentId now env flags segments experiments = some snapshot := by
  obtain ⟨env, rest, rfl, henv, h⟩ :=
    among_plain (.selectSalt environmentId) (Sql.selectSalt environmentId) (fun _ _ => rfl) h
  cases hsalt : Sql.selectSalt environmentId env with
  | none =>
      rw [hsalt] at h
      cases h.of_done.2.1
  | some row =>
      rw [hsalt] at h
      obtain ⟨flags, rest, rfl, hflags, h⟩ :=
        among_plain (.selectEnvironmentFlags environmentId)
          (Sql.selectEnvironmentFlags environmentId) (fun _ _ => rfl) h
      obtain ⟨segments, rest, rfl, hsegments, h⟩ :=
        among_plain (.selectSegments environmentId)
          (Sql.selectSegments environmentId) (fun _ _ => rfl) h
      obtain ⟨experiments, rest, rfl, hexperiments, h⟩ :=
        among_plain (.selectRunningExperiments environmentId)
          (Sql.selectRunningExperiments environmentId) (fun _ _ => rfl) h
      obtain ⟨rfl, hresult, hlast⟩ := h.of_done
      refine ⟨env, flags, segments, experiments, rfl, henv, hflags, hsegments, hexperiments, hlast,
        ?_⟩
      rw [assembled, hsalt]
      cases hresult
      rfl

/-- And the other way round: any four states in order are found by some load. -/
theorem among_load {env flags segments experiments : Db} (henv : others db env)
    (hflags : others env flags) (hsegments : others flags segments)
    (hexperiments : others segments experiments) (hlast : others experiments last)
    (h : assembled environmentId now env flags segments experiments = some snapshot) :
    Prog.Among Sql.exec others (load environmentId now).run db [env, flags, segments, experiments]
      (Except.ok snapshot) last := by
  obtain ⟨row, hsalt, rfl⟩ := Option.map_eq_some_iff.mp h
  refine plain_among (.selectSalt environmentId) _ (fun _ _ => rfl) henv ?_
  rw [hsalt]
  refine plain_among (.selectEnvironmentFlags environmentId) _ (fun _ _ => rfl) hflags ?_
  refine plain_among (.selectSegments environmentId) _ (fun _ _ => rfl) hsegments ?_
  refine plain_among (.selectRunningExperiments environmentId) _ (fun _ _ => rfl) hexperiments ?_
  exact .done hlast

end Load

end FlagForge.Storage
