/-
Module: FlagForge.Api.SelfContained
Layer: Api
Purpose: Snapshots that carry everything their flags and experiments refer to. A load that is torn by
  commits returns one exactly when no segment that a flag it has read references is gone by the time
  the segments are read, and no flag that came to be served since has a running experiment.
Imports: FlagForge.Api.ReferenceRace, FlagForge.Storage.TornLoad
Trusted boundary: none
Main exports: SelfContained, Closed, Steady, torn_load_selfContained
-/
import FlagForge.Api.ReferenceRace
import FlagForge.Storage.TornLoad

namespace FlagForge.Api

open Storage
open Storage.Sql (Stmt Input Written)

/-- Every segment that a rule references and every flag that an experiment is on is there. -/
structure SelfContained (snapshot : EnvironmentSnapshot Timestamp) : Prop where
  segments : ∀ (key : String) (flag : Flag), snapshot.flags[key]? = some flag →
    ∀ segmentKey ∈ referencedKeys flag.rules, segmentKey ∈ snapshot.segments
  experiments : ∀ x ∈ snapshot.experiments, x.flagKey ∈ snapshot.flags

/-- A running experiment's flag is unarchived and configured in the experiment's environment. -/
def ExperimentsServed (db : Db) : Prop :=
  ∀ x ∈ db.experiments, x.state = .running → ∃ f ∈ db.flags, f.id = x.flagId ∧
    f.archived = false ∧ ∃ c ∈ db.flagConfigs, c.isFor x.flagId x.environmentId = true

instance {db : Db} : Decidable (ExperimentsServed db) := by
  unfold ExperimentsServed
  infer_instance

/-- A state without dangling references. -/
structure Closed (db : Db) : Prop where
  references : ReferencesDefined db
  experiments : ExperimentsServed db

/-- A commit after which no reference dangles. -/
def ClosedCommit (db db' : Db) : Prop :=
  Commit db db' ∧ Closed db'

/-- Commits, any number of them. -/
def ClosedCommits : Db → Db → Prop :=
  Relation.ReflTransGen ClosedCommit

/-- What must not happen between the reads, for the states that they find: a segment goes that a flag
    which was read references; a flag comes to be served that has a running experiment. -/
structure Steady (environmentId : Uuid) (flags segments experiments : Db) : Prop where
  noneGone : ∀ segmentKey, Defined environmentId segmentKey flags →
    ¬ Defined environmentId segmentKey segments →
      ∀ flag ∈ Sql.selectEnvironmentFlags environmentId flags,
        segmentKey ∉ referencedKeys flag.rules
  noneCame : ∀ came ∈ Sql.selectEnvironmentFlags environmentId experiments,
    (∀ flag ∈ Sql.selectEnvironmentFlags environmentId flags, flag.key ≠ came.key) →
      ∀ x ∈ Sql.selectRunningExperiments environmentId experiments, x.flagKey ≠ came.key

section Assembled

variable {environmentId : Uuid} {now : Timestamp} {env flags segments experiments : Db}
  {snapshot : EnvironmentSnapshot Timestamp}

/-- The flags of the snapshot are those that were read. -/
theorem mem_flags (h : assembled environmentId now env flags segments experiments = some snapshot)
    {key : String} : key ∈ snapshot.flags ↔
      ∃ flag ∈ Sql.selectEnvironmentFlags environmentId flags, flag.key = key := by
  obtain ⟨row, _, rfl⟩ := Option.map_eq_some_iff.mp h
  change key ∈ Std.ExtTreeMap.ofList _ compare ↔ _
  rw [Std.ExtTreeMap.mem_ofList, List.map_map, List.contains_iff_mem, List.mem_map]
  rfl

theorem getElem?_flags (hflags : Tidy flags)
    (h : assembled environmentId now env flags segments experiments = some snapshot)
    {key : String} {flag : Flag} : snapshot.flags[key]? = some flag ↔
      flag ∈ Sql.selectEnvironmentFlags environmentId flags ∧ key = flag.key := by
  obtain ⟨row, _, rfl⟩ := Option.map_eq_some_iff.mp h
  rw [← Std.ExtTreeMap.mem_toList_iff_getElem?_eq_some]
  exact Json.mem_toList_ofList_map (selectEnvironmentFlags_keys hflags)

/-- So are its segments. -/
theorem mem_segments
    (h : assembled environmentId now env flags segments experiments = some snapshot)
    {segmentKey : String} : segmentKey ∈ snapshot.segments ↔
      Defined environmentId segmentKey segments := by
  obtain ⟨row, _, rfl⟩ := Option.map_eq_some_iff.mp h
  change segmentKey ∈ Std.ExtTreeMap.ofList _ compare ↔ _
  rw [Std.ExtTreeMap.mem_ofList, List.map_map, List.contains_iff_mem, List.map_map, List.mem_map]
  constructor
  · intro hmem
    obtain ⟨segment, hsegment, hkey⟩ := hmem
    obtain ⟨hsegment, hin⟩ := mem_selectSegments.mp hsegment
    exact ⟨segment, hsegment, SegmentRow.isFor_iff.mpr ⟨hin, hkey⟩⟩
  · intro hdefined
    obtain ⟨segment, hsegment, hfor⟩ := hdefined
    obtain ⟨hin, hkey⟩ := SegmentRow.isFor_iff.mp hfor
    exact ⟨segment, mem_selectSegments.mpr ⟨hsegment, hin⟩, hkey⟩

/-- And its experiments. -/
theorem experiments_assembled
    (h : assembled environmentId now env flags segments experiments = some snapshot) :
    snapshot.experiments = Sql.selectRunningExperiments environmentId experiments := by
  obtain ⟨row, _, rfl⟩ := Option.map_eq_some_iff.mp h
  rfl

/-- Where no reference dangles, what a served flag references is defined. -/
theorem Closed.defined {db : Db} (h : Closed db) {flag : Flag} {segmentKey : String}
    (hflag : flag ∈ Sql.selectEnvironmentFlags environmentId db)
    (hkey : segmentKey ∈ referencedKeys flag.rules) : Defined environmentId segmentKey db := by
  obtain ⟨c, hc, rfl, f, _, _, _, rfl⟩ := mem_selectEnvironmentFlags.mp hflag
  exact h.references c hc segmentKey hkey

/-- Where no reference dangles, what a running experiment is on is served. -/
theorem Closed.served {db : Db} (h : Closed db) (htidy : Tidy db) {x : ExperimentSpec}
    (hx : x ∈ Sql.selectRunningExperiments environmentId db) :
    ∃ flag ∈ Sql.selectEnvironmentFlags environmentId db, flag.key = x.flagKey := by
  obtain ⟨row, hrow, hin, hrunning, f, hf, hid, rfl⟩ := mem_selectRunningExperiments.mp hx
  obtain ⟨g, hg, hid', harchived, c, hc, hfor⟩ := h.experiments row hrow hrunning
  have hsame : f = g := htidy.flagIds f hf g hg (hid.trans hid'.symm)
  subst hsame
  obtain ⟨hconfig, hcIn⟩ := ConfigRow.isFor_iff.mp hfor
  exact ⟨_, mem_selectEnvironmentFlags.mpr ⟨c, hc, hcIn.trans hin, f, hf, hid.trans hconfig.symm,
    harchived, rfl⟩, rfl⟩

/-- From states without dangling references, a snapshot is self-contained exactly when the states are
    steady. -/
theorem selfContained_iff (hflags : Tidy flags) (hexperiments : Tidy experiments)
    (hclosed : Closed flags) (hclosed' : Closed experiments)
    (h : assembled environmentId now env flags segments experiments = some snapshot) :
    SelfContained snapshot ↔ Steady environmentId flags segments experiments := by
  constructor
  · intro hcontained
    constructor
    case noneGone =>
      intro segmentKey _ hgone flag hflag hkey
      apply hgone
      rw [← mem_segments h]
      exact hcontained.segments flag.key flag ((getElem?_flags hflags h).mpr ⟨hflag, rfl⟩)
        segmentKey hkey
    case noneCame =>
      intro came _ hnew x hx hkey
      rw [← experiments_assembled h] at hx
      obtain ⟨flag, hflag, hflagKey⟩ := (mem_flags h).mp (hcontained.experiments x hx)
      exact hnew flag hflag (hflagKey.trans hkey)
  · intro hsteady
    constructor
    case segments =>
      intro key flag hflag segmentKey hkey
      rw [getElem?_flags hflags h] at hflag
      rw [mem_segments h]
      by_contra hgone
      exact hsteady.noneGone segmentKey (hclosed.defined hflag.1 hkey) hgone flag hflag.1 hkey
    case experiments =>
      intro x hx
      rw [experiments_assembled h] at hx
      rw [mem_flags h]
      obtain ⟨came, hcame, hkey⟩ := hclosed'.served hexperiments hx
      by_contra hnone
      refine hsteady.noneCame came hcame (fun flag hflag heq => ?_) x hx hkey.symm
      exact hnone ⟨flag, hflag, heq.trans hkey⟩

end Assembled

/-- Commits after which no reference dangles lead to stored states where none does. -/
theorem ClosedCommits.stored {db db' : Db} (h : ClosedCommits db db') (hstored : Stored db)
    (hclosed : Closed db) : Stored db' ∧ Closed db' := by
  induction h with
  | refl => exact ⟨hstored, hclosed⟩
  | tail _ hlast ih => exact ⟨hlast.1.stored ih.1, hlast.2⟩

/-- A load among commits, in a store in which no reference ever dangles, returns a self-contained
    snapshot exactly when the states that its reads find are steady. -/
theorem torn_load_selfContained {environmentId : Uuid} {now : Timestamp} {db last : Db}
    {found : List Db} {snapshot : EnvironmentSnapshot Timestamp} (hstored : Stored db)
    (hclosed : Closed db)
    (h : Prog.Among Sql.exec ClosedCommits (load environmentId now).run db found
      (Except.ok snapshot) last) :
    ∃ env flags segments experiments, found = [env, flags, segments, experiments] ∧
      (SelfContained snapshot ↔ Steady environmentId flags segments experiments) := by
  obtain ⟨env, flags, segments, experiments, rfl, henv, hflags, hsegments, hexperiments, _,
    hassembled⟩ := load_among h
  refine ⟨env, flags, segments, experiments, rfl, ?_⟩
  obtain ⟨henv, hclosedEnv⟩ := henv.stored hstored hclosed
  obtain ⟨hflags, hclosedFlags⟩ := hflags.stored henv hclosedEnv
  obtain ⟨hsegments, hclosedSegments⟩ := hsegments.stored hflags hclosedFlags
  obtain ⟨hexperiments, hclosedExperiments⟩ := hexperiments.stored hsegments hclosedSegments
  exact selfContained_iff hflags.tidy hexperiments.tidy hclosedFlags hclosedExperiments hassembled

/-! ### A segment that goes while a load is on its way -/

namespace Targeting

def segment : Db :=
  (Sql.exec (Trial.tick ⟨4⟩) (.insertSegment Trial.environmentId "vips" "Vips" none) Trial.flag).2

/-- Serves one variant to the segment. -/
def target : Stmt :=
  .upsertConfig ⟨3⟩ Trial.environmentId true "off" (.fixed "off")
    [⟨⟨5⟩, none, [], some ⟨["vips"], []⟩, .fixed "on"⟩] none

def targeted : Db :=
  (Sql.exec (Trial.tick ⟨6⟩) target segment).2

def untargeted : Db :=
  (Sql.exec (Trial.tick ⟨7⟩) Trial.configure targeted).2

def drop : Stmt :=
  .deleteSegment Trial.environmentId "vips"

def dropped : Db :=
  (Sql.exec (Trial.tick ⟨8⟩) drop untargeted).2

theorem targeted_stored : Stored targeted := by
  have hsegment : Stored segment := Trial.flag_stored.exec (by trivial)
  have haimed : ∀ f ∈ segment.flags, f.id = ⟨3⟩ → ∀ e ∈ segment.environments,
      e.id = Trial.environmentId → e.projectId = f.projectId := by decide
  exact hsegment.exec haimed

theorem targeted_closed : Closed targeted :=
  ⟨by decide, by decide⟩

/-- The rule goes, and then the segment, which nothing references any more. -/
theorem targeted_dropped : ClosedCommits targeted dropped := by
  have haimed : ∀ f ∈ targeted.flags, f.id = ⟨3⟩ → ∀ e ∈ targeted.environments,
      e.id = Trial.environmentId → e.projectId = f.projectId := by decide
  have huntarget : Commit targeted untargeted := Commit.exec haimed rfl rfl
  have hdrop : Commit untargeted dropped := Commit.exec trivial rfl rfl
  exact .tail (.tail .refl ⟨huntarget, by decide, by decide⟩) ⟨hdrop, by decide, by decide⟩

end Targeting

/-- No reference dangles in any state, but the flags are read before the rule and the segment go and
    the segments after that. -/
theorem torn_load_not_selfContained : ∃ (found : List Db) (snapshot : EnvironmentSnapshot Timestamp),
    Stored Targeting.targeted ∧ Closed Targeting.targeted ∧
      Prog.Among Sql.exec ClosedCommits (load Trial.environmentId 0).run Targeting.targeted found
        (Except.ok snapshot) Targeting.dropped ∧
      ¬ SelfContained snapshot := by
  obtain ⟨snapshot, hsnapshot⟩ := Option.isSome_iff_exists.mp
    (by decide : (assembled Trial.environmentId 0 Targeting.targeted Targeting.targeted
      Targeting.dropped Targeting.dropped).isSome = true)
  refine ⟨_, snapshot, Targeting.targeted_stored, Targeting.targeted_closed,
    among_load .refl .refl Targeting.targeted_dropped .refl .refl hsnapshot, ?_⟩
  have hgone : ¬ Defined Trial.environmentId "vips" Targeting.dropped := by
    unfold Defined
    decide
  have hkey : ∃ flag ∈ Sql.selectEnvironmentFlags Trial.environmentId Targeting.targeted,
      "vips" ∈ referencedKeys flag.rules := by decide
  intro hcontained
  apply hgone
  obtain ⟨flag, hflag, hkey⟩ := hkey
  rw [← mem_segments hsnapshot]
  exact hcontained.segments flag.key flag
    ((getElem?_flags Targeting.targeted_stored.tidy hsnapshot).mpr ⟨hflag, rfl⟩) "vips" hkey

/-- A load that nothing comes in between. -/
theorem torn_load_selfContained_targeted : ∃ snapshot : EnvironmentSnapshot Timestamp,
    snapshotAt Trial.environmentId 0 Targeting.targeted = some snapshot ∧
      SelfContained snapshot := by
  obtain ⟨snapshot, hsnapshot⟩ := Option.isSome_iff_exists.mp
    (by decide : (snapshotAt Trial.environmentId 0 Targeting.targeted).isSome = true)
  have hload : Prog.Among Sql.exec ClosedCommits (load Trial.environmentId 0).run
      Targeting.targeted _ (Except.ok snapshot) Targeting.targeted :=
    among_load .refl .refl .refl .refl .refl hsnapshot
  obtain ⟨env, flags, segments, experiments, hfound, hiff⟩ :=
    torn_load_selfContained Targeting.targeted_stored Targeting.targeted_closed hload
  cases hfound
  refine ⟨snapshot, hsnapshot, hiff.mpr ⟨?_, ?_⟩⟩
  · exact fun _ hdefined hgone => absurd hdefined hgone
  · exact fun came hcame hnew => absurd rfl (hnew came hcame)

end FlagForge.Api
