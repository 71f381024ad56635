/-
Module: FlagForge.Storage.SnapshotVersion
Layer: Storage
Purpose: The snapshot version as a cache token. It moves up exactly when the row that a write puts
  into the snapshot, or renews there, gets above every row of the snapshot; as long as every write
  that changes the snapshot is of that kind, equal versions stand for equal snapshots.
Imports: FlagForge.Storage.Contents, FlagForge.Lib.CacheToken
Trusted boundary: none
Main exports: Loads, served, entering, Raises, version_is_token
-/
import FlagForge.Storage.Contents
import FlagForge.Lib.CacheToken

namespace FlagForge.Storage

open Sql (Input Written Stmt)
open CacheToken (IsHighest)

/-! ### Snapshots of one state -/

/-- What a load returns when nothing is written during it. -/
def Loads (environmentId : Uuid) (db : Db) (snapshot : EnvironmentSnapshot Timestamp) : Prop :=
  ∃ (inputs : Nat → Input) (now : Timestamp), (∀ n, (inputs n).fails = false) ∧
    (Prog.runAlone Sql.exec inputs (load environmentId now).run db).1 = .ok snapshot

/-- The snapshot that is assembled from the four reads. -/
def snapshotAt (environmentId : Uuid) (now : Timestamp) (db : Db) :
    Option (EnvironmentSnapshot Timestamp) :=
  (Sql.selectSalt environmentId db).map fun env =>
    (EnvironmentSnapshot.new environmentId env.1 env.2 (Sql.selectEnvironmentFlags environmentId db)
      ((Sql.selectSegments environmentId db).map SegmentRow.definition) now).withExperiments
        (Sql.selectRunningExperiments environmentId db)

/-- Two snapshots that differ in nothing but the time. -/
def SameContent (before after : EnvironmentSnapshot Timestamp) : Prop :=
  after = { before with generatedAt := after.generatedAt }

section Snapshots

variable {environmentId : Uuid} {db db' : Db} {snapshot before after : EnvironmentSnapshot Timestamp}

/-- The four reads in turn, on one state. -/
theorem load_alone {inputs : Nat → Input} {now : Timestamp} (hfails : ∀ n, (inputs n).fails = false) :
    (Prog.runAlone Sql.exec inputs (load environmentId now).run db).1 =
      (snapshotAt environmentId now db).elim (.error (.notFound "environment")) .ok := by
  have hread : ∀ (n : Nat) (s : Stmt) (w : Written s.Result), s.run (inputs n) db = .ok w →
      Sql.exec (inputs n) s db = (.ok w.value, w.db) :=
    fun n s w hw => Sql.exec_of_run_ok (hfails n) hw
  have hsalt := hread 0 (.selectSalt environmentId) _ rfl
  have hflags := hread 1 (.selectEnvironmentFlags environmentId) _ rfl
  have hsegments := hread 2 (.selectSegments environmentId) _ rfl
  have hexperiments := hread 3 (.selectRunningExperiments environmentId) _ rfl
  change (Prog.runAlone Sql.exec inputs (.call (.selectSalt environmentId) _) db).1 = _
  rw [Prog.runAlone, hsalt]
  cases hfound : Sql.selectSalt environmentId db with
  | none =>
      simp only [Sql.unchanged, hfound, snapshotAt]
      rfl
  | some env =>
      simp only [Sql.unchanged, hfound, snapshotAt]
      change (Prog.runAlone Sql.exec _ (.call (.selectEnvironmentFlags environmentId) _) db).1 = _
      rw [Prog.runAlone, hflags]
      change (Prog.runAlone Sql.exec _ (.call (.selectSegments environmentId) _) db).1 = _
      rw [Prog.runAlone, hsegments]
      change (Prog.runAlone Sql.exec _ (.call (.selectRunningExperiments environmentId) _) db).1 = _
      rw [Prog.runAlone, hexperiments]
      rfl

theorem loads_iff : Loads environmentId db snapshot ↔
    ∃ now, snapshotAt environmentId now db = some snapshot := by
  constructor
  · intro h
    obtain ⟨inputs, now, hfails, hload⟩ := h
    rw [load_alone hfails] at hload
    refine ⟨now, ?_⟩
    cases hsnapshot : snapshotAt environmentId now db with
    | none =>
        rw [hsnapshot] at hload
        cases hload
    | some s =>
        rw [hsnapshot] at hload
        cases hload
        rfl
  · intro h
    obtain ⟨now, hsnapshot⟩ := h
    refine ⟨fun _ => ⟨.nil, now, false⟩, now, fun _ => rfl, ?_⟩
    rw [load_alone fun _ => rfl, hsnapshot]
    rfl

/-- A snapshot is told from what is read for it. -/
theorem snapshotAt_congr {now : Timestamp} (h : SameReads environmentId db db') :
    snapshotAt environmentId now db' = snapshotAt environmentId now db := by
  rw [snapshotAt, snapshotAt, h.salt, h.flags, h.segments, h.experiments]

/-- The time is all that the clock changes. -/
theorem snapshotAt_time (now now' : Timestamp) :
    snapshotAt environmentId now' db =
      (snapshotAt environmentId now db).map fun s => { s with generatedAt := now' } := by
  rw [snapshotAt, snapshotAt, Option.map_map]
  rfl

end Snapshots

/-! ### The versions that count -/

/-- The versions of what the snapshot of an environment serves. -/
def served (environmentId : Uuid) (db : Db) : List Int64 :=
  (Sql.selectRunningExperiments environmentId db).map ExperimentSpec.version ++
    ((Sql.selectEnvironmentFlags environmentId db).map Flag.version ++
      (Sql.selectSegments environmentId db).map SegmentRow.version)

section Served

variable {environmentId : Uuid} {db : Db}

theorem mem_selectEnvironmentFlags {flag : Flag} :
    flag ∈ Sql.selectEnvironmentFlags environmentId db ↔
      ∃ c ∈ db.flagConfigs, c.environmentId = environmentId ∧
        ∃ f ∈ db.flags, f.id = c.flagId ∧ f.archived = false ∧ Sql.configuredFlag f c = flag := by
  simp only [Sql.selectEnvironmentFlags, Table.mem_orderBy, List.mem_flatMap, List.mem_map,
    List.mem_filter, decide_eq_true_eq, Bool.and_eq_true, Bool.not_eq_true', and_assoc]

theorem mem_selectSegments {row : SegmentRow} :
    row ∈ Sql.selectSegments environmentId db ↔
      row ∈ db.segments ∧ row.environmentId = environmentId := by
  simp only [Sql.selectSegments, Table.mem_orderBy, List.mem_filter, decide_eq_true_eq]

theorem mem_selectRunningExperiments {spec : ExperimentSpec} :
    spec ∈ Sql.selectRunningExperiments environmentId db ↔
      ∃ x ∈ db.experiments, x.environmentId = environmentId ∧ x.state = .running ∧
        ∃ f ∈ db.flags, f.id = x.flagId ∧
          (⟨x.key, f.key, x.metricKey, x.controlVariant, x.version⟩ : ExperimentSpec) = spec := by
  simp only [Sql.selectRunningExperiments, Table.mem_orderBy, List.mem_flatMap, List.mem_map,
    List.mem_filter, decide_eq_true_eq, Bool.and_eq_true, and_assoc]

/-- Which versions a snapshot is made of. -/
theorem mem_served {v : Int64} : v ∈ served environmentId db ↔
    (∃ x ∈ db.experiments, x.environmentId = environmentId ∧ x.state = .running ∧
      (∃ f ∈ db.flags, f.id = x.flagId) ∧ x.version = v) ∨
    (∃ c ∈ db.flagConfigs, c.environmentId = environmentId ∧
      (∃ f ∈ db.flags, f.id = c.flagId ∧ f.archived = false) ∧ c.version = v) ∨
    ∃ t ∈ db.segments, t.environmentId = environmentId ∧ t.version = v := by
  simp only [served, List.mem_append, List.mem_map]
  refine or_congr ?_ (or_congr ?_ ?_)
  · constructor
    · intro h
      obtain ⟨_, hspec, rfl⟩ := h
      obtain ⟨x, hx, henvironment, hrunning, f, hf, hid, rfl⟩ :=
        mem_selectRunningExperiments.mp hspec
      exact ⟨x, hx, henvironment, hrunning, ⟨f, hf, hid⟩, rfl⟩
    · intro h
      obtain ⟨x, hx, henvironment, hrunning, ⟨f, hf, hid⟩, rfl⟩ := h
      exact ⟨_, mem_selectRunningExperiments.mpr
        ⟨x, hx, henvironment, hrunning, f, hf, hid, rfl⟩, rfl⟩
  · constructor
    · intro h
      obtain ⟨_, hflag, rfl⟩ := h
      obtain ⟨c, hc, henvironment, f, hf, hid, harchived, rfl⟩ :=
        mem_selectEnvironmentFlags.mp hflag
      exact ⟨c, hc, henvironment, ⟨f, hf, hid, harchived⟩, rfl⟩
    · intro h
      obtain ⟨c, hc, henvironment, ⟨f, hf, hid, harchived⟩, rfl⟩ := h
      exact ⟨_, mem_selectEnvironmentFlags.mpr
        ⟨c, hc, henvironment, f, hf, hid, harchived, rfl⟩, rfl⟩
  · constructor
    · intro h
      obtain ⟨t, ht, rfl⟩ := h
      obtain ⟨ht, henvironment⟩ := mem_selectSegments.mp ht
      exact ⟨t, ht, henvironment, rfl⟩
    · intro h
      obtain ⟨t, ht, henvironment, rfl⟩ := h
      exact ⟨t, mem_selectSegments.mpr ⟨ht, henvironment⟩, rfl⟩

/-- They are all positive. -/
theorem served_pos (h : Tidy db) : ∀ v ∈ served environmentId db, 0 < v := by
  intro v hv
  rcases mem_served.mp hv with ⟨x, hx, _, _, _, rfl⟩ | ⟨c, hc, _, _, rfl⟩ | ⟨t, ht, _, rfl⟩
  · exact h.experimentVersions x hx
  · exact h.configVersions c hc
  · exact h.segmentVersions t ht

/-- The key tells the served flags apart: they are of the one project. -/
theorem selectEnvironmentFlags_keys (h : Tidy db) :
    ∀ a ∈ Sql.selectEnvironmentFlags environmentId db,
      ∀ b ∈ Sql.selectEnvironmentFlags environmentId db, a.key = b.key → a = b := by
  intro a ha b hb hkey
  obtain ⟨c, hc, hin, f, hf, hid, _, rfl⟩ := mem_selectEnvironmentFlags.mp ha
  obtain ⟨d, hd, hin', g, hg, hid', _, rfl⟩ := mem_selectEnvironmentFlags.mp hb
  obtain ⟨e, he, heid⟩ := h.configEnvironment c hc
  have hproject := h.sameProject c hc f hf hid e he heid
  have hproject' := h.sameProject d hd g hg hid' e he (heid.trans (hin.trans hin'.symm))
  have hflag : f = g := h.flagKeys f hf g hg (hproject.symm.trans hproject') hkey
  subst hflag
  have hconfig : c = d := h.configKeys c hc d hd (hid.symm.trans hid') (hin.trans hin'.symm)
  rw [hconfig]

theorem selectSegments_keys (h : Tidy db) :
    ∀ a ∈ (Sql.selectSegments environmentId db).map SegmentRow.definition,
      ∀ b ∈ (Sql.selectSegments environmentId db).map SegmentRow.definition,
        a.key = b.key → a = b := by
  intro a ha b hb hkey
  obtain ⟨s, hs, rfl⟩ := List.mem_map.mp ha
  obtain ⟨t, ht, rfl⟩ := List.mem_map.mp hb
  obtain ⟨hs, hin⟩ := mem_selectSegments.mp hs
  obtain ⟨ht, hin'⟩ := mem_selectSegments.mp ht
  rw [h.segmentKeys s hs t ht (hin.trans hin'.symm) hkey]

/-- What a map that is keyed by a column lists of another column. -/
theorem mem_map_toList_ofList {β γ : Type} {key : β → String} {column : β → γ} {rows : List β}
    {v : γ} (hkeys : ∀ a ∈ rows, ∀ b ∈ rows, key a = key b → a = b) :
    v ∈ (Std.ExtTreeMap.ofList (rows.map fun b => (key b, b)) compare).toList.map
      (fun e => column e.2) ↔ v ∈ rows.map column := by
  rw [List.mem_map, List.mem_map]
  constructor
  · intro h
    obtain ⟨e, he, rfl⟩ := h
    exact ⟨e.2, ((Json.mem_toList_ofList_map hkeys).mp he).1, rfl⟩
  · intro h
    obtain ⟨b, hb, rfl⟩ := h
    exact ⟨(key b, b), (Json.mem_toList_ofList_map hkeys).mpr ⟨hb, rfl⟩, rfl⟩

/-- A snapshot carries the highest of the versions that it serves. -/
theorem version_isHighest {now : Timestamp} {snapshot : EnvironmentSnapshot Timestamp}
    (h : Tidy db) (hsnapshot : snapshotAt environmentId now db = some snapshot) :
    IsHighest snapshot.version (served environmentId db) := by
  obtain ⟨env, _, rfl⟩ := Option.map_eq_some_iff.mp hsnapshot
  refine IsHighest.append ?_ (CacheToken.isHighest_max? _)
  apply IsHighest.congr (CacheToken.isHighest_max? _)
  intro v
  rw [List.mem_append, List.mem_append,
    mem_map_toList_ofList (selectEnvironmentFlags_keys h),
    mem_map_toList_ofList (selectSegments_keys h), List.map_map]
  rfl

end Served

/-! ### Writes that move the version -/

/-- The version of the row that a write puts into the snapshot of an environment, or renews there. A
    change of a flag's own row renews nothing, and neither does what takes a row away. -/
def entering (environmentId : Uuid) (s : Stmt) (db : Db) : Option Int64 :=
  match s with
  | .createFlag .. | .insertSegment .. => some 1
  | .updateFlag flagId patch =>
      if patch.archived = some false ∧ (db.flags.find? (·.id = flagId)).any (·.archived) then
        (Sql.selectConfig flagId environmentId db).map ConfigRow.version
      else none
  | .upsertConfig flagId .. =>
      some ((Sql.selectConfig flagId environmentId db).elim 1 (·.version + 1))
  | .updateSegment _ key .. => (Sql.selectSegment environmentId key db).map (·.version + 1)
  | .updateExperiment _ key .. =>
      ((Sql.selectExperiment environmentId key db).filter (·.state = .running)).map (·.version + 1)
  | .transitionExperiment _ key _ target =>
      if target = .running then (Sql.selectExperiment environmentId key db).map (·.version + 1)
      else none
  | _ => none

/-- Whether that row gets above everything that the snapshot serves. -/
def Raises (environmentId : Uuid) (s : Stmt) (db : Db) : Prop :=
  ∃ n, entering environmentId s db = some n ∧ ∀ v ∈ served environmentId db, v < n

section Writes

variable {environmentId : Uuid} {db : Db} {input : Input}

/-- What a write makes of the versions: those that were served before, and the one that enters. -/
structure Enters (environmentId : Uuid) (s : Stmt) (db db' : Db) : Prop where
  only : ∀ v ∈ served environmentId db', v ∈ served environmentId db ∨
    entering environmentId s db = some v
  there : ∀ v, entering environmentId s db = some v → v ∈ served environmentId db'

/-- Fewer rows serve fewer versions. -/
theorem served_of_subset {db' : Db}
    (hflags : ∀ f ∈ db'.flags, f ∈ db.flags) (hconfigs : ∀ c ∈ db'.flagConfigs, c ∈ db.flagConfigs)
    (hsegments : ∀ t ∈ db'.segments, t ∈ db.segments)
    (hexperiments : ∀ x ∈ db'.experiments, x ∈ db.experiments) :
    ∀ v ∈ served environmentId db', v ∈ served environmentId db := by
  intro v hv
  apply mem_served.mpr
  rcases mem_served.mp hv with ⟨x, hx, hin, hrunning, ⟨f, hf, hid⟩, hversion⟩ |
    ⟨c, hc, hin, ⟨f, hf, hflag⟩, hversion⟩ | ⟨t, ht, hversion⟩
  · exact .inl ⟨x, hexperiments x hx, hin, hrunning, ⟨f, hflags f hf, hid⟩, hversion⟩
  · exact .inr (.inl ⟨c, hconfigs c hc, hin, ⟨f, hflags f hf, hflag⟩, hversion⟩)
  · exact .inr (.inr ⟨t, hsegments t ht, hversion⟩)

/-- A statement that takes versions away brings none in. -/
theorem enters_of_subset {s : Stmt} {db' : Db} (hnone : entering environmentId s db = none)
    (h : ∀ v ∈ served environmentId db', v ∈ served environmentId db) :
    Enters environmentId s db db' :=
  ⟨fun v hv => .inl (h v hv), fun v hv => by rw [hnone] at hv; cases hv⟩

/-- A new flag comes in at version one. -/
theorem enters_createFlag {projectId : Uuid} {key name : String} {description : Option String}
    {variants : List Variant} {offVariant : String} {fallthrough : Distribution}
    {w : Written FlagRow} (h : Tidy db)
    (hw : Sql.createFlag input projectId key name description variants offVariant fallthrough db =
      .ok w) (hnotified : environmentId ∈ w.notified) :
    Enters environmentId
      (.createFlag projectId key name description variants offVariant fallthrough) db w.db := by
  obtain ⟨hrow, hdb⟩ := Sql.createFlag_cases hw
  obtain ⟨_, _, hvalue⟩ := Sql.insertFlag_cases hrow
  have hold := h.toLinked.flagId_ne_of_insertFlag hrow
  have hflags : w.db.flags = db.flags ++ [w.value] := by rw [hdb]
  constructor
  case only =>
    intro v hv
    rcases mem_served.mp hv with ⟨x, hx, hin, hrunning, _, rfl⟩ |
      ⟨c, hc, hin, ⟨f, hf, hid, harchived⟩, rfl⟩ | ⟨t, ht, hin, rfl⟩
    · have hx' : x ∈ db.experiments := by
        rw [hdb] at hx
        exact hx
      exact .inl (mem_served.mpr (.inl ⟨x, hx', hin, hrunning, h.experimentFlag x hx', rfl⟩))
    · rcases (mem_createFlag hw).mp hc with hc | ⟨e, _, _, rfl⟩
      · rw [hflags] at hf
        rcases List.mem_append.mp hf with hf | hf
        · exact .inl (mem_served.mpr (.inr (.inl ⟨c, hc, hin, ⟨f, hf, hid, harchived⟩, rfl⟩)))
        · cases List.mem_singleton.mp hf
          exact absurd hid.symm (hold c hc)
      · exact .inr rfl
    · have ht' : t ∈ db.segments := by
        rw [hdb] at ht
        exact ht
      exact .inl (mem_served.mpr (.inr (.inr ⟨t, ht', hin, rfl⟩)))
  case there =>
    intro v hv
    cases hv
    have hids : environmentId ∈ Sql.environmentIds projectId db := by
      rw [hdb] at hnotified
      exact (List.mem_append.mp hnotified).elim id id
    obtain ⟨e, he, rfl⟩ := List.mem_map.mp hids
    obtain ⟨he, hproject⟩ := List.mem_filter.mp he
    refine mem_served.mpr (.inr (.inl ⟨_, (mem_createFlag hw).mpr (.inr ⟨e, he, ?_, rfl⟩), rfl,
      ⟨w.value, ?_, rfl, ?_⟩, rfl⟩))
    · simpa using hproject
    · rw [hflags]
      exact List.mem_append_right _ List.mem_cons_self
    · rw [hvalue]

/-- The configuration of a flag in an environment, by its key. -/
theorem selectConfig_of_mem {c : ConfigRow} (h : Linked db) (hc : c ∈ db.flagConfigs) :
    Sql.selectConfig c.flagId c.environmentId db = some c := by
  refine Table.find?_of_unique hc (ConfigRow.isFor_iff.mpr ⟨rfl, rfl⟩) fun d hd hfor => ?_
  obtain ⟨hflag, henvironment⟩ := ConfigRow.isFor_iff.mp hfor
  exact h.configKeys d hd c hc hflag henvironment

/-- An unarchived flag brings back the configuration that it has. -/
theorem enters_updateFlag {flagId : Uuid} {patch : Sql.FlagPatch} {w : Written (Option FlagRow)}
    (h : Tidy db) (hw : Sql.updateFlag input flagId patch db = .ok w)
    (hchanged : ¬ SameReads environmentId db w.db) :
    Enters environmentId (.updateFlag flagId patch) db w.db := by
  rcases Sql.updateFlag_cases hw with rfl | ⟨old, hold, rfl⟩
  · exact absurd .refl hchanged
  have hmem := List.mem_of_find?_eq_some hold
  have hid : old.id = flagId := by simpa using List.find?_some hold
  constructor
  case only =>
    intro v hv
    rcases mem_served.mp hv with ⟨x, hx, hin, hrunning, _, rfl⟩ |
      ⟨c, hc, hin, ⟨f, hf, hfid, harchived⟩, rfl⟩ | hsegment
    · exact .inl (mem_served.mpr (.inl ⟨x, hx, hin, hrunning, h.experimentFlag x hx, rfl⟩))
    · rcases Table.mem_replace hf with rfl | ⟨hf, _⟩
      · have hflag : flagId = c.flagId := hid.symm.trans hfid
        cases hwas : old.archived with
        | false => exact .inl (mem_served.mpr (.inr (.inl
            ⟨c, hc, hin, ⟨old, hmem, hfid, hwas⟩, rfl⟩)))
        | true =>
            have hpatch : patch.archived = some false := by
              have hnow : patch.archived.getD old.archived = false := harchived
              rw [hwas] at hnow
              cases hpatch : patch.archived with
              | none => simp [hpatch] at hnow
              | some archived => simpa [hpatch] using hnow
            have hfound := selectConfig_of_mem h.toLinked hc
            rw [← hflag, hin] at hfound
            refine .inr ?_
            rw [entering, hold, hfound]
            simp [hpatch, hwas]
      · exact .inl (mem_served.mpr (.inr (.inl ⟨c, hc, hin, ⟨f, hf, hfid, harchived⟩, rfl⟩)))
    · exact .inl (mem_served.mpr (.inr (.inr hsegment)))
  case there =>
    intro v hv
    rw [entering] at hv
    split at hv
    · rename_i hunarchived
      obtain ⟨c, hfound, rfl⟩ := Option.map_eq_some_iff.mp hv
      obtain ⟨hflag, hin⟩ := ConfigRow.isFor_iff.mp (List.find?_some hfound)
      refine mem_served.mpr (.inr (.inl ⟨c, List.mem_of_find?_eq_some hfound, hin,
        ⟨patch.apply input.now old, Table.mem_replace_self hold, hid.trans hflag.symm, ?_⟩, rfl⟩))
      show patch.archived.getD old.archived = false
      rw [hunarchived.1]
      rfl
    · cases hv

/-- What is written to the configuration of an archived flag is not read. -/
theorem sameReads_of_archived {flagId environmentId' : Uuid} {enabled : Bool}
    {offVariant : String} {fallthrough : Distribution} {rules : List Rule}
    {expectedVersion : Option Int64} {w : Written (Option ConfigRow)}
    (hw : Sql.upsertConfig input flagId environmentId' enabled offVariant fallthrough rules
      expectedVersion db = .ok w)
    (harchived : ∀ f ∈ db.flags, f.id = flagId → f.archived = true) :
    SameReads environmentId db w.db := by
  have hnone : ∀ c : ConfigRow, c.flagId = flagId →
      (db.flags.filter fun f => f.id = c.flagId && !f.archived).map
        (fun f => Sql.configuredFlag f c) = [] := by
    intro c hc
    rw [List.map_eq_nil_iff, List.filter_eq_nil_iff]
    intro f hf hselected
    rw [Bool.and_eq_true, decide_eq_true_eq, Bool.not_eq_true', hc] at hselected
    rw [harchived f hf hselected.1] at hselected
    cases hselected.2
  rcases Sql.upsertConfig_cases hw with ⟨row, hrow, _, _, _, rfl⟩ |
    ⟨old, row, _, _, _, hrow, rfl⟩ | ⟨_, _, _, rfl⟩
  · refine ⟨rfl, ?_, rfl, rfl⟩
    rw [Sql.selectEnvironmentFlags, Sql.selectEnvironmentFlags, List.filter_append,
      List.flatMap_append]
    have hlast : (([row].filter (·.environmentId = environmentId)).flatMap fun c =>
        (db.flags.filter fun f => f.id = c.flagId && !f.archived).map
          fun f => Sql.configuredFlag f c) = [] := by
      rw [List.flatMap_eq_nil_iff]
      intro c hc
      cases List.mem_singleton.mp (List.mem_filter.mp hc).1
      exact hnone row (by rw [hrow]; rfl)
    rw [hlast, List.append_nil]
  · refine ⟨rfl, ?_, rfl, rfl⟩
    rw [Sql.selectEnvironmentFlags, Sql.selectEnvironmentFlags]
    congr 1
    apply Table.flatMap_filter_replace_of_nil
    · exact hnone row (by rw [hrow]; rfl)
    · exact fun c _ hfor => hnone c (ConfigRow.isFor_iff.mp hfor).1
  · exact .refl

/-- A configuration that is written comes in at its new version. -/
theorem enters_upsertConfig {flagId environmentId' : Uuid} {enabled : Bool} {offVariant : String}
    {fallthrough : Distribution} {rules : List Rule} {expectedVersion : Option Int64}
    {w : Written (Option ConfigRow)}
    (hw : Sql.upsertConfig input flagId environmentId' enabled offVariant fallthrough rules
      expectedVersion db = .ok w)
    (hnotified : environmentId ∈ w.notified) (hchanged : ¬ SameReads environmentId db w.db) :
    Enters environmentId (.upsertConfig flagId environmentId' enabled offVariant fallthrough rules
      expectedVersion) db w.db := by
  have hflag : ∃ f ∈ db.flags, f.id = flagId ∧ f.archived = false := by
    by_contra hnone
    apply hchanged
    apply sameReads_of_archived hw
    intro f hf hid
    cases harchived : f.archived with
    | true => rfl
    | false => exact absurd ⟨f, hf, hid, harchived⟩ hnone
  -- every configuration but the one that is written was there
  suffices hwritten : ∃ row : ConfigRow, row.flagId = flagId ∧ row.environmentId = environmentId ∧
      entering environmentId (.upsertConfig flagId environmentId' enabled offVariant fallthrough
        rules expectedVersion) db = some row.version ∧
      ∃ configs, w.db = { db with flagConfigs := configs } ∧ row ∈ configs ∧
        ∀ c ∈ configs, c = row ∨ c ∈ db.flagConfigs by
    obtain ⟨row, hrowFlag, hrowIn, hentering, configs, hdb, hrow, hconfigs⟩ := hwritten
    rw [hdb]
    constructor
    case only =>
      intro v hv
      rcases mem_served.mp hv with hexperiment | ⟨c, hc, hin, hserved, rfl⟩ | hsegment
      · exact .inl (mem_served.mpr (.inl hexperiment))
      · rcases hconfigs c hc with rfl | hc
        · exact .inr hentering
        · exact .inl (mem_served.mpr (.inr (.inl ⟨c, hc, hin, hserved, rfl⟩)))
      · exact .inl (mem_served.mpr (.inr (.inr hsegment)))
    case there =>
      intro v hv
      cases hentering.symm.trans hv
      rw [← hrowFlag] at hflag
      exact mem_served.mpr (.inr (.inl ⟨row, hrow, hrowIn, hflag, rfl⟩))
  rcases Sql.upsertConfig_cases hw with ⟨row, hrow, hnone, _, _, rfl⟩ |
    ⟨old, row, hold, _, _, hrow, rfl⟩ | ⟨_, _, _, rfl⟩
  · obtain rfl : environmentId = environmentId' := List.mem_singleton.mp hnotified
    refine ⟨row, by rw [hrow]; rfl, by rw [hrow]; rfl, ?_, _, rfl,
      List.mem_append_right _ List.mem_cons_self, fun c hc => ?_⟩
    · rw [entering, hnone, hrow]
      rfl
    · exact (List.mem_append.mp hc).elim .inr fun hc => .inl (List.mem_singleton.mp hc)
  · obtain rfl : environmentId = environmentId' := List.mem_singleton.mp hnotified
    refine ⟨row, by rw [hrow]; rfl, by rw [hrow]; rfl, ?_, _, rfl, Table.mem_replace_self hold,
      fun c hc => ?_⟩
    · rw [entering, hold, hrow]
      rfl
    · exact (Table.mem_replace hc).imp id And.left
  · exact absurd .refl hchanged

/-- A new segment comes in at version one. -/
theorem enters_insertSegment {environmentId' : Uuid} {key name : String}
    {description : Option String} {w : Written SegmentRow}
    (hw : Sql.insertSegment input environmentId' key name description db = .ok w)
    (hnotified : environmentId ∈ w.notified) :
    Enters environmentId (.insertSegment environmentId' key name description) db w.db := by
  obtain ⟨_, _, _, rfl⟩ := Sql.insertSegment_cases hw
  obtain rfl : environmentId = environmentId' := List.mem_singleton.mp hnotified
  constructor
  case only =>
    intro v hv
    rcases mem_served.mp hv with hexperiment | hconfig | ⟨t, ht, hin, rfl⟩
    · exact .inl (mem_served.mpr (.inl hexperiment))
    · exact .inl (mem_served.mpr (.inr (.inl hconfig)))
    · rcases List.mem_append.mp ht with ht | ht
      · exact .inl (mem_served.mpr (.inr (.inr ⟨t, ht, hin, rfl⟩)))
      · cases List.mem_singleton.mp ht
        exact .inr rfl
  case there =>
    intro v hv
    cases hv
    exact mem_served.mpr (.inr (.inr ⟨_, List.mem_append_right _ List.mem_cons_self, rfl, rfl⟩))

/-- A segment that is written comes in at its new version. -/
theorem enters_updateSegment {environmentId' : Uuid} {key : String} {patch : Sql.SegmentPatch}
    {expectedVersion : Option Int64} {w : Written (Option SegmentRow)}
    (hw : Sql.updateSegment input environmentId' key patch expectedVersion db = .ok w)
    (hnotified : environmentId ∈ w.notified) :
    Enters environmentId (.updateSegment environmentId' key patch expectedVersion) db w.db := by
  rcases Sql.updateSegment_cases hw with ⟨old, row, hold, _, _, hrow, rfl⟩ | ⟨rfl, _⟩
  · obtain rfl : environmentId = environmentId' := List.mem_singleton.mp hnotified
    have hin : row.environmentId = environmentId := by
      rw [hrow]
      exact (SegmentRow.isFor_iff.mp (List.find?_some hold)).1
    have hentering : entering environmentId (.updateSegment environmentId key patch
        expectedVersion) db = some row.version := by
      rw [entering, hold, hrow]
      rfl
    constructor
    case only =>
      intro v hv
      rcases mem_served.mp hv with hexperiment | hconfig | ⟨t, ht, hin, rfl⟩
      · exact .inl (mem_served.mpr (.inl hexperiment))
      · exact .inl (mem_served.mpr (.inr (.inl hconfig)))
      · rcases Table.mem_replace ht with rfl | ⟨ht, _⟩
        · exact .inr hentering
        · exact .inl (mem_served.mpr (.inr (.inr ⟨t, ht, hin, rfl⟩)))
    case there =>
      intro v hv
      cases hentering.symm.trans hv
      exact mem_served.mpr (.inr (.inr ⟨row, Table.mem_replace_self hold, hin, rfl⟩))
  · exact absurd hnotified (List.not_mem_nil)

/-- An experiment that is written comes in at its new version, if it runs. -/
theorem enters_modifyExperiment {s : Stmt} {p : ExperimentRow → Bool}
    {change : ExperimentRow → ExperimentRow} {w : Written Nat} (h : Tidy db)
    (hkept : ∀ x, (change x).environmentId = x.environmentId ∧ (change x).flagId = x.flagId)
    (hw : Sql.modifyExperiment input p change db = .ok w) (hnotified : environmentId ∈ w.notified)
    (hentering : ∀ old, db.experiments.find? p = some old → old.environmentId = environmentId →
      entering environmentId s db =
        if (change old).state = .running then some (old.version + 1) else none) :
    Enters environmentId s db w.db := by
  rcases Sql.modifyExperiment_cases hw with rfl | ⟨old, row, hold, _, hrow, rfl⟩
  · exact absurd hnotified List.not_mem_nil
  have hmem := List.mem_of_find?_eq_some hold
  have hin : environmentId = row.environmentId := List.mem_singleton.mp hnotified
  have hrowIn : row.environmentId = old.environmentId := by
    rw [hrow]
    exact (hkept old).1
  have hentering := hentering old hold (hin.trans hrowIn).symm
  have hstate : (change old).state = row.state := by rw [hrow]
  have hversion : old.version + 1 = row.version := by rw [hrow]
  rw [hstate, hversion] at hentering
  constructor
  case only =>
    intro v hv
    rcases mem_served.mp hv with ⟨x, hx, hxIn, hrunning, hflag, rfl⟩ | hconfig | hsegment
    · rcases Table.mem_replace hx with rfl | ⟨hx, _⟩
      · rw [if_pos hrunning] at hentering
        exact .inr hentering
      · exact .inl (mem_served.mpr (.inl ⟨x, hx, hxIn, hrunning, hflag, rfl⟩))
    · exact .inl (mem_served.mpr (.inr (.inl hconfig)))
    · exact .inl (mem_served.mpr (.inr (.inr hsegment)))
  case there =>
    intro v hv
    rw [hv] at hentering
    split at hentering
    · rename_i hrunning
      cases hentering
      have hflag : ∃ f ∈ db.flags, f.id = row.flagId := by
        rw [hrow]
        simpa [(hkept old).2] using h.experimentFlag old hmem
      exact mem_served.mpr (.inl
        ⟨row, Table.mem_replace_self hold, hin.symm, hrunning, hflag, rfl⟩)
    · cases hentering

/-- A row that an experiment's condition finds is the one that its key finds. -/
theorem selectExperiment_of_find? {key : String} {p : ExperimentRow → Bool} {old : ExperimentRow}
    (h : Tidy db) (hold : db.experiments.find? p = some old)
    (hfor : old.isFor environmentId key = true) :
    Sql.selectExperiment environmentId key db = some old := by
  refine Table.find?_of_unique (List.mem_of_find?_eq_some hold) hfor fun x hx hxFor => ?_
  obtain ⟨hin, hkey⟩ := ExperimentRow.isFor_iff.mp hfor
  obtain ⟨hxIn, hxKey⟩ := ExperimentRow.isFor_iff.mp hxFor
  exact h.experimentKeys x hx old (List.mem_of_find?_eq_some hold) (hxIn.trans hin.symm)
    (hxKey.trans hkey.symm)

/-- A draft is not read. -/
theorem sameReads_insertExperiment {environmentId' flagId : Uuid} {key name : String}
    {description : Option String} {metricKey controlVariant : String} {w : Written Unit}
    (hw : Sql.insertExperiment input environmentId' flagId key name description metricKey
      controlVariant db = .ok w) : SameReads environmentId db w.db := by
  obtain ⟨row, hrow, _, _, _, rfl⟩ := Sql.insertExperiment_cases hw
  refine ⟨rfl, rfl, rfl, selectRunningExperiments_congr (Table.filter_append_of_neg ?_)
    fun _ _ _ => rfl⟩
  rw [hrow]
  simp

/-- A write that changes what is read makes one version enter at most, and that one is served
    afterwards. -/
theorem enters_of_changed {s : Stmt} {w : Written s.Result} (h : Tidy db)
    (hw : s.run input db = .ok w) (hlive : Live environmentId db)
    (hlive' : Live environmentId w.db) (hchanged : ¬ SameReads environmentId db w.db) :
    Enters environmentId s db w.db := by
  have hnotified : environmentId ∈ w.notified := by
    by_contra hnot
    exact hchanged (sameReads_of_not_notified h hw hlive hlive' hnot)
  cases s with
  | insertProject =>
      obtain ⟨_, rfl⟩ := Sql.insertProject_cases hw
      exact absurd hnotified List.not_mem_nil
  | deleteProject => exact absurd (sameReads_deleteProject h hw hlive') hchanged
  | createEnvironment => exact absurd (sameReads_createEnvironment hw hlive) hchanged
  | deleteEnvironment =>
      rw [(Sql.deleteEnvironment_cases hw).1] at hlive' hchanged
      exact absurd (sameReads_withoutEnvironments h.toLinked hlive') hchanged
  | createFlag => exact enters_createFlag h hw hnotified
  | updateFlag => exact enters_updateFlag h hw hchanged
  | deleteFlag =>
      obtain ⟨_, hdb, _⟩ := Sql.deleteFlag_cases hw
      rw [hdb]
      apply enters_of_subset rfl
      apply served_of_subset
      · exact fun f hf => (List.mem_filter.mp hf).1
      · exact fun c hc => (List.mem_filter.mp hc).1
      · exact fun t ht => ht
      · exact fun x hx => hx
  | upsertConfig => exact enters_upsertConfig hw hnotified hchanged
  | insertSegment => exact enters_insertSegment hw hnotified
  | updateSegment => exact enters_updateSegment hw hnotified
  | deleteSegment =>
      rw [(Sql.deleteSegment_cases hw).1]
      apply enters_of_subset rfl
      apply served_of_subset
      · exact fun f hf => hf
      · exact fun c hc => hc
      · exact fun t ht => (List.mem_filter.mp ht).1
      · exact fun x hx => hx
  | insertExperiment => exact absurd (sameReads_insertExperiment hw) hchanged
  | updateExperiment environmentId' key name description =>
      refine enters_modifyExperiment h ?_ hw hnotified fun old hold hin => ?_
      · exact fun _ => ⟨rfl, rfl⟩
      have hfor : old.isFor environmentId' key = true := List.find?_some hold
      obtain rfl : environmentId' = environmentId :=
        (ExperimentRow.isFor_iff.mp hfor).1.symm.trans hin
      rw [entering, selectExperiment_of_find? h hold hfor]
      by_cases hrunning : old.state = .running
      · simp [hrunning]
      · simp [hrunning]
  | transitionExperiment environmentId' key source target =>
      refine enters_modifyExperiment h ?_ hw hnotified fun old hold hin => ?_
      · exact fun _ => ⟨rfl, rfl⟩
      have hp := List.find?_some hold
      have hfor : old.isFor environmentId' key = true := (Bool.and_eq_true_iff.mp hp).1
      obtain rfl : environmentId' = environmentId :=
        (ExperimentRow.isFor_iff.mp hfor).1.symm.trans hin
      rw [entering, selectExperiment_of_find? h hold hfor]
      rfl
  | deleteExperiment =>
      rw [(Sql.deleteExperiment_cases hw).1]
      apply enters_of_subset rfl
      apply served_of_subset
      · exact fun f hf => hf
      · exact fun c hc => hc
      · exact fun t ht => ht
      · exact fun x hx => (List.mem_filter.mp hx).1
  | insertAudit =>
      obtain ⟨_, rfl⟩ := Sql.insertAudit_cases hw
      exact absurd hnotified List.not_mem_nil
  | _ =>
      cases hw
      exact absurd .refl hchanged

end Writes

/-! ### The token -/

section Token

variable {environmentId : Uuid} {db db' : Db} {before after : EnvironmentSnapshot Timestamp}

/-- An environment that is loaded is there. -/
theorem live_of_snapshotAt {now : Timestamp}
    (h : snapshotAt environmentId now db = some before) : Live environmentId db := by
  obtain ⟨env, hsalt, _⟩ := Option.map_eq_some_iff.mp h
  obtain ⟨e, he, _⟩ := Option.map_eq_some_iff.mp hsalt
  exact ⟨e, List.mem_of_find?_eq_some he, by simpa using List.find?_some he⟩

/-- What is read alike is served alike. -/
theorem sameContent_of_sameReads (hbefore : Loads environmentId db before)
    (hafter : Loads environmentId db' after) (h : SameReads environmentId db db') :
    SameContent before after := by
  obtain ⟨now, hbefore⟩ := loads_iff.mp hbefore
  obtain ⟨now', hafter⟩ := loads_iff.mp hafter
  rw [snapshotAt_congr h, snapshotAt_time now, hbefore] at hafter
  cases hafter
  rfl

/-- A write that changes what a load returns moves the version up exactly when it raises it. -/
theorem version_lt_iff {input : Input} {s : Stmt} {w : Written s.Result} (h : Tidy db)
    (haimed : Aimed s db) (hw : s.run input db = .ok w) (hbefore : Loads environmentId db before)
    (hafter : Loads environmentId w.db after) (hchanged : ¬ SameContent before after) :
    before.version < after.version ↔ Raises environmentId s db := by
  have hreads : ¬ SameReads environmentId db w.db :=
    fun hsame => hchanged (sameContent_of_sameReads hbefore hafter hsame)
  have htidy := h.run haimed hw
  obtain ⟨now, hbefore⟩ := loads_iff.mp hbefore
  obtain ⟨now', hafter⟩ := loads_iff.mp hafter
  have hlive := live_of_snapshotAt hbefore
  have hlive' := live_of_snapshotAt hafter
  have henters := enters_of_changed h hw hlive hlive' hreads
  rw [(version_isHighest h hbefore).lt_iff (version_isHighest htidy hafter) (served_pos h)
    (served_pos htidy)]
  constructor
  · intro habove
    obtain ⟨n, hn, habove⟩ := habove
    rcases henters.only n hn with hold | hnew
    · exact absurd (habove n hold) (Int64.lt_irrefl)
    · exact ⟨n, hnew, habove⟩
  · intro hraises
    obtain ⟨n, hnew, habove⟩ := hraises
    exact ⟨n, henters.there n hnew, habove⟩

/-- A write, the environment staying there, that raises the version if it changes what a load
    returns. -/
inductive RaisingWrite (environmentId : Uuid) : Db → Db → Prop where
  | write {db : Db} {input : Input} {s : Stmt} {w : Written s.Result} (haimed : Aimed s db)
      (hw : s.run input db = .ok w) (hlive : Live environmentId w.db)
      (hraises : ∀ before after, Loads environmentId db before → Loads environmentId w.db after →
        ¬ SameContent before after → Raises environmentId s db) :
      RaisingWrite environmentId db w.db

theorem exists_snapshotAt (now : Timestamp) (h : Live environmentId db) :
    ∃ snapshot, snapshotAt environmentId now db = some snapshot := by
  obtain ⟨e, he, hid⟩ := h
  obtain ⟨row, hrow⟩ := Option.isSome_iff_exists.mp (List.find?_isSome.mpr
    ⟨e, he, by simpa using hid⟩ : (db.environments.find? (·.id = environmentId)).isSome = true)
  exact ⟨_, by rw [snapshotAt, Sql.selectSalt, hrow]; rfl⟩

/-- The states of a run in which every write raises the version or changes nothing. -/
structure Tracked (environmentId : Uuid) where
  db : Db
  tidy : Tidy db
  live : Live environmentId db

/-- One write of such a run. -/
def Tracked.Step (t t' : Tracked environmentId) : Prop :=
  RaisingWrite environmentId t.db t'.db

/-- What a tracked state serves, leaving out the time. -/
def Tracked.content (t : Tracked environmentId) : Option (EnvironmentSnapshot Timestamp) :=
  snapshotAt environmentId 0 t.db

/-- The token of a content. -/
def tokenOf (content : Option (EnvironmentSnapshot Timestamp)) : Int :=
  (content.elim 0 EnvironmentSnapshot.version).toInt

/-- A step of the environment leaves the content or raises the token. -/
theorem Tracked.step {t t' : Tracked environmentId} (h : t.Step t') :
    t'.content = t.content ∨ tokenOf t.content < tokenOf t'.content := by
  obtain ⟨db, htidy, hlive⟩ := t
  obtain ⟨db', _, hlive'⟩ := t'
  cases h with
  | write haimed hw _ hraises =>
      obtain ⟨before, hbefore⟩ := exists_snapshotAt 0 hlive
      obtain ⟨after, hafter⟩ := exists_snapshotAt 0 hlive'
      have hloads := loads_iff.mpr ⟨0, hbefore⟩
      have hloads' := loads_iff.mpr ⟨0, hafter⟩
      rw [content, content, hbefore, hafter]
      by_cases hsame : SameContent before after
      · left
        obtain ⟨env, _, rfl⟩ := Option.map_eq_some_iff.mp hbefore
        obtain ⟨env', _, rfl⟩ := Option.map_eq_some_iff.mp hafter
        exact congrArg some hsame
      · right
        exact Int64.lt_iff_toInt_lt.mp ((version_lt_iff htidy haimed hw hloads hloads' hsame).mpr
          (hraises before after hloads hloads' hsame))

/-- A run of such writes is one of tracked states. -/
theorem Tracked.lift {db db' : Db} (htidy : Tidy db) (hlive : Live environmentId db)
    (h : Relation.ReflTransGen (RaisingWrite environmentId) db db') :
    ∃ t t' : Tracked environmentId, t.db = db ∧ t'.db = db' ∧
      Relation.ReflTransGen Tracked.Step t t' := by
  induction h with
  | refl => exact ⟨⟨db, htidy, hlive⟩, ⟨db, htidy, hlive⟩, rfl, rfl, .refl⟩
  | tail _ hlast ih =>
      obtain ⟨t, t', ht, rfl, hrun⟩ := ih
      have hstep := hlast
      cases hlast with
      | write haimed hw hlive' _ =>
          exact ⟨t, ⟨_, t'.tidy.run haimed hw, hlive'⟩, ht, rfl, hrun.tail hstep⟩

/-- The version as a cache token. A write that changes what a load returns moves the version up
    exactly when the row that it puts into the snapshot, or renews there, gets above everything that
    was served; and in a run in which every write is of that kind or changes nothing, equal versions
    stand for equal snapshots. -/
theorem version_is_token (environmentId : Uuid) :
    (∀ (db : Db) (input : Input) (s : Stmt) (w : Written s.Result)
      (before after : EnvironmentSnapshot Timestamp), Stored db → Aimed s db →
      s.run input db = .ok w → Loads environmentId db before → Loads environmentId w.db after →
      ¬ SameContent before after →
      (before.version < after.version ↔ Raises environmentId s db)) ∧
    (∀ (db db' : Db) (before after : EnvironmentSnapshot Timestamp), Stored db →
      Relation.ReflTransGen (RaisingWrite environmentId) db db' →
      Loads environmentId db before → Loads environmentId db' after →
      before.version = after.version → SameContent before after) := by
  constructor
  · intro db input s w before after h haimed hw hbefore hafter hchanged
    exact version_lt_iff h.tidy haimed hw hbefore hafter hchanged
  · intro db db' before after h hruns hbefore hafter hversion
    obtain ⟨now, hbefore⟩ := loads_iff.mp hbefore
    obtain ⟨now', hafter⟩ := loads_iff.mp hafter
    obtain ⟨t, t', rfl, rfl, hrun⟩ := Tracked.lift h.tidy (live_of_snapshotAt hbefore) hruns
    rw [snapshotAt_time 0] at hbefore hafter
    obtain ⟨content, hcontent, rfl⟩ := Option.map_eq_some_iff.mp hbefore
    obtain ⟨content', hcontent', rfl⟩ := Option.map_eq_some_iff.mp hafter
    have htoken : tokenOf t.content = tokenOf t'.content := by
      rw [Tracked.content, Tracked.content, hcontent, hcontent']
      exact congrArg Int64.toInt hversion
    have hsteps : ∀ u u' : Tracked environmentId, u.Step u' →
        u'.content = u.content ∨ tokenOf u.content < tokenOf u'.content :=
      fun _ _ => Tracked.step
    have hsame := CacheToken.content_eq_of_token_eq hsteps hrun htoken
    rw [Tracked.content, Tracked.content, hcontent, hcontent'] at hsame
    cases hsame
    rfl

end Token

/-! ### Starting an experiment on a flag that has been configured -/

namespace Trial

def environmentId : Uuid := ⟨2⟩

def tick (id : Uuid) : Input := ⟨id, 1, false⟩

def project : Db :=
  (Sql.exec (tick ⟨1⟩) (.insertProject ⟨0⟩ "shop" "Shop" none) Db.empty).2

def environment : Db :=
  (Sql.exec (tick environmentId) (.createEnvironment ⟨1⟩ "live" "Live" "salt" false) project).2

def flag : Db :=
  (Sql.exec (tick ⟨3⟩) (.createFlag ⟨1⟩ "checkout" "Checkout" none
    [⟨"on", .bool true⟩, ⟨"off", .bool false⟩] "off" (.fixed "on")) environment).2

/-- Turning the flag on. -/
def configure : Stmt :=
  .upsertConfig ⟨3⟩ environmentId true "off" (.fixed "on") [] none

def configured : Db :=
  (Sql.exec (tick ⟨4⟩) configure flag).2

def drafted : Db :=
  (Sql.exec (tick ⟨5⟩) (.insertExperiment environmentId ⟨3⟩ "trial" "Trial" none "sales" "off")
    configured).2

/-- Starting the experiment. -/
def start : Stmt :=
  .transitionExperiment environmentId "trial" .draft .running

theorem flag_stored : Stored flag := by
  have hproject : Stored project := Stored.empty.exec (by trivial)
  have henvironment : Stored environment := hproject.exec (by trivial)
  exact henvironment.exec (by trivial)

theorem configure_aimed : Aimed configure flag := by
  have haimed : ∀ f ∈ flag.flags, f.id = ⟨3⟩ → ∀ e ∈ flag.environments, e.id = environmentId →
      e.projectId = f.projectId := by decide
  exact haimed

theorem drafted_stored : Stored drafted := by
  have hconfigured : Stored configured := flag_stored.exec configure_aimed
  exact hconfigured.exec (by trivial)

end Trial

/-- The flag's configuration moves on, and so does the version. -/
theorem version_is_token_configured : ∃ (w : Written Trial.configure.Result)
    (before after : EnvironmentSnapshot Timestamp),
    Trial.configure.run (Trial.tick ⟨4⟩) Trial.flag = .ok w ∧
      Loads Trial.environmentId Trial.flag before ∧ Loads Trial.environmentId w.db after ∧
      ¬ SameContent before after ∧ before.version < after.version := by
  obtain ⟨before, hbefore⟩ := Option.isSome_iff_exists.mp
    (by decide : (snapshotAt Trial.environmentId 0 Trial.flag).isSome = true)
  obtain ⟨after, hafter⟩ := Option.isSome_iff_exists.mp
    (by decide : (snapshotAt Trial.environmentId 0 Trial.configured).isSome = true)
  have hversions : (snapshotAt Trial.environmentId 0 Trial.flag).map (·.version) = some 1 ∧
      (snapshotAt Trial.environmentId 0 Trial.configured).map (·.version) = some 2 := by decide
  rw [hbefore, hafter] at hversions
  simp only [Option.map_some, Option.some.injEq] at hversions
  have hchanged : ¬ SameContent before after := by
    intro hsame
    have hversion : after.version = before.version := by rw [hsame]
    rw [hversions.1, hversions.2] at hversion
    exact absurd hversion (by decide)
  have hserved : (served Trial.environmentId Trial.flag).all (· < 2) = true := by decide
  have hraises : Raises Trial.environmentId Trial.configure Trial.flag :=
    ⟨2, by decide, fun v hv => of_decide_eq_true (List.all_eq_true.mp hserved v hv)⟩
  refine ⟨_, before, after, rfl, loads_iff.mpr ⟨0, hbefore⟩, loads_iff.mpr ⟨0, hafter⟩, hchanged,
    ?_⟩
  exact ((version_is_token Trial.environmentId).1 Trial.flag (Trial.tick ⟨4⟩) Trial.configure _
    before after Trial.flag_stored Trial.configure_aimed rfl (loads_iff.mpr ⟨0, hbefore⟩)
    (loads_iff.mpr ⟨0, hafter⟩) hchanged).mpr hraises

/-- The experiment starts at the version that the flag's configuration already has: the snapshot has
    an experiment more and the same version. -/
theorem start_not_noticed : ∃ (w : Written Trial.start.Result)
    (before after : EnvironmentSnapshot Timestamp),
    Stored Trial.drafted ∧ Aimed Trial.start Trial.drafted ∧
      Trial.start.run (Trial.tick ⟨6⟩) Trial.drafted = .ok w ∧
      Loads Trial.environmentId Trial.drafted before ∧ Loads Trial.environmentId w.db after ∧
      ¬ SameContent before after ∧ ¬ before.version < after.version ∧
      before.version = after.version := by
  obtain ⟨before, hbefore⟩ := Option.isSome_iff_exists.mp
    (by decide : (snapshotAt Trial.environmentId 0 Trial.drafted).isSome = true)
  have hstarted : ∃ w, Trial.start.run (Trial.tick ⟨6⟩) Trial.drafted = .ok w ∧
      (snapshotAt Trial.environmentId 0 w.db).map (·.version) = some 2 ∧
      (snapshotAt Trial.environmentId 0 w.db).map (·.experiments.length) = some 1 :=
    ⟨_, rfl, by decide, by decide⟩
  obtain ⟨w, hw, hversion', hexperiments'⟩ := hstarted
  obtain ⟨after, hafter, hversion'⟩ := Option.map_eq_some_iff.mp hversion'
  have hversion : (snapshotAt Trial.environmentId 0 Trial.drafted).map (·.version) = some 2 := by
    decide
  have hexperiments :
      (snapshotAt Trial.environmentId 0 Trial.drafted).map (·.experiments.length) = some 0 := by
    decide
  rw [hbefore] at hversion hexperiments
  rw [hafter] at hexperiments'
  simp only [Option.map_some, Option.some.injEq] at hversion hexperiments hexperiments'
  refine ⟨w, before, after, Trial.drafted_stored, trivial, hw, loads_iff.mpr ⟨0, hbefore⟩,
    loads_iff.mpr ⟨0, hafter⟩, ?_, ?_, hversion.trans hversion'.symm⟩
  · intro hsame
    rw [hsame, hexperiments] at hexperiments'
    cases hexperiments'
  · rw [hversion, hversion']
    exact Int64.lt_irrefl

end FlagForge.Storage
