/-
Module: FlagForge.Api.SegmentRace
Layer: Api
Purpose: Partial updates of one segment at the same time. The handler merges the patch with the copy
  it read, the database merges it with the row as it is at the write, and the two agree on what
  matters as long as a list that the patch leaves out has not grown in between.
Imports: FlagForge.Api.Server
Trusted boundary: none
Main exports: SegmentDecidable, EditsSegment, MergedAlike, segment_stays_decidable
-/
import FlagForge.Api.Server

namespace FlagForge.Api

open Json (StringSet)
open Prog (Log)
open Storage
open Storage.Sql (Stmt Resp Input Written SegmentPatch)
open Validate (SegmentShape validateSegment_eq_ok_iff)

variable (crates : Crates)

/-- The stored segment satisfies the domain validator. -/
def SegmentDecidable (environmentId : Uuid) (key : String) (db : Db) : Prop :=
  ∀ segment ∈ db.segments, segment.isFor environmentId key = true →
    Validate.validateSegment crates segment.definition = .ok ()

instance {environmentId : Uuid} {key : String} {db : Db} :
    Decidable (SegmentDecidable crates environmentId key db) := by
  unfold SegmentDecidable
  infer_instance

/-- `PUT` of a segment. -/
def EditsSegment : Request → Prop
  | .updateSegment .. => True
  | _ => False

/-- A patch that gives one of the two lists meets, in the other one, no key that the copy which was
    validated did not have. -/
def MergedAlike (environmentId : Uuid) (key : String) (log : Log Stmt Resp) (s : Stmt) (db : Db) :
    Prop :=
  match s with
  | .updateSegment environmentId' key' patch expectedVersion =>
      environmentId' = environmentId → key' = key →
        ∀ stored, Sql.selectSegment environmentId key db = some stored →
          (expectedVersion = none ∨ expectedVersion = some stored.version) →
          ∀ validated, firstSegment environmentId key log = some validated →
            (patch.included.isSome → patch.excluded = none →
              ∀ member ∈ stored.excluded, member ∈ validated.excluded) ∧
            (patch.excluded.isSome → patch.included = none →
              ∀ member ∈ stored.included, member ∈ validated.included)
  | _ => True

variable {crates}

/-- The two merges agree: the patch applied to the stored row has the shape that the patch applied to
    the validated copy has. -/
theorem apply_shape {patch : SegmentPatch} {validated stored : SegmentRow} {version : Int64}
    {now : Timestamp} (hvalidated : SegmentShape crates (patchedSegment validated patch))
    (hstored : SegmentShape crates stored.definition)
    (hexcluded : patch.included.isSome → patch.excluded = none →
      ∀ member ∈ stored.excluded, member ∈ validated.excluded)
    (hincluded : patch.excluded.isSome → patch.included = none →
      ∀ member ∈ stored.included, member ∈ validated.included) :
    SegmentShape crates (patch.apply version now stored).definition := by
  have hdisjoint : ∀ member ∈ patch.included.getD stored.included,
      member ∉ patch.excluded.getD stored.excluded := by
    have hmerged := hvalidated.disjoint
    simp only [patchedSegment] at hmerged
    intro member hmember hforbidden
    cases hin : patch.included with
    | none =>
        rw [hin] at hmember hmerged
        cases hout : patch.excluded with
        | none =>
            rw [hout] at hforbidden
            exact hstored.disjoint member hmember hforbidden
        | some excluded =>
            rw [hout] at hforbidden hmerged
            exact hmerged member (hincluded (by simp [hout]) hin member hmember) hforbidden
    | some included =>
        rw [hin] at hmember hmerged
        cases hout : patch.excluded with
        | none =>
            rw [hout] at hforbidden hmerged
            exact hmerged member hmember (hexcluded (by simp [hin]) hout member hforbidden)
        | some excluded =>
            rw [hout] at hforbidden hmerged
            exact hmerged member hmember hforbidden
  -- the rules are those of the patch or those of the row, whatever the lists are
  have hrules : ((patch.rules.getD stored.rules).map SegmentRule.id).Nodup ∧
      ∀ rule ∈ patch.rules.getD stored.rules, Validate.SegmentRuleShape crates rule := by
    cases hgiven : patch.rules with
    | none => exact ⟨hstored.ruleIds, hstored.rules⟩
    | some rules =>
        have hids := hvalidated.ruleIds
        have hshapes := hvalidated.rules
        simp only [patchedSegment, hgiven] at hids hshapes
        exact ⟨hids, hshapes⟩
  exact ⟨hstored.key, hdisjoint, hrules.1, hrules.2⟩

/-- A segment that is written was validated as merged with what was read; it is decidable if that was
    still stored. -/
theorem updateSegment_decidable {environmentId environmentId' : Uuid} {key key' : String}
    {patch : SegmentPatch} {expectedVersion : Option Int64} {log : Log Stmt Resp} {db : Db}
    {input : Input} {w : Written (Option SegmentRow)}
    (hchecked : ∃ previous, firstSegment environmentId' key' log = some previous ∧
      Validate.validateSegment crates (patchedSegment previous patch) = .ok ())
    (halike : MergedAlike environmentId key log
      (.updateSegment environmentId' key' patch expectedVersion) db)
    (hw : Sql.updateSegment input environmentId' key' patch expectedVersion db = .ok w)
    (h : SegmentDecidable crates environmentId key db) :
    SegmentDecidable crates environmentId key w.db := by
  rcases Sql.updateSegment_cases hw with ⟨stored, row, hstored, hguard, _, rfl, rfl⟩ | ⟨rfl, _⟩
  · intro segment hsegment hfor
    rcases Table.mem_replace hsegment with rfl | ⟨hsegment, _⟩
    · have hmem := List.mem_of_find?_eq_some hstored
      have hselected := List.find?_some hstored
      rw [SegmentRow.isFor_iff] at hselected hfor
      obtain ⟨rfl, rfl⟩ := hselected
      have henvironment : stored.environmentId = environmentId := hfor.1
      have hkey : stored.key = key := hfor.2
      subst henvironment hkey
      obtain ⟨validated, hfirst, hvalid⟩ := hchecked
      have hmerged := halike rfl rfl stored hstored hguard validated hfirst
      apply (validateSegment_eq_ok_iff crates).mpr
      exact apply_shape ((validateSegment_eq_ok_iff crates).mp hvalid)
        ((validateSegment_eq_ok_iff crates).mp (h stored hmem (by simp))) hmerged.1 hmerged.2
    · exact h segment hsegment hfor
  · exact h

/-- While the two merges agree, that of the handler, which is validated, and that of the statement,
    which is stored, a segment that satisfies the validator goes on satisfying it, after every
    statement of every run of updates. -/
theorem segment_stays_decidable {environmentId : Uuid} {key : String} {db : Db} {server : Server}
    (hdecidable : SegmentDecidable crates environmentId key db)
    (h : Serves crates EditsSegment (MergedAlike environmentId key) ⟨db, []⟩ server) :
    SegmentDecidable crates environmentId key server.db := by
  refine h.invariant ?_ hdecidable
  intro caller request log s db input w hkind hchecked hread halike hw h
  cases s with
  | updateSegment => exact updateSegment_decidable hchecked.updateSegment halike hw h
  | insertAudit =>
      obtain ⟨row, rfl⟩ := Sql.insertAudit_cases hw
      exact h
  | _ =>
      cases request <;> first | exact hkind.elim | exact absurd hread.symm Bool.false_ne_true |
        exact absurd hchecked Bool.false_ne_true

/-! ### A race in the shop -/

namespace Shop

/-- Nobody is in it, and nobody is kept out. -/
def testers : SegmentRow :=
  ⟨⟨4⟩, ⟨2⟩, "testers", "Testers", none, ∅, ∅, [], 1, 0, 0⟩

def storeWithTesters : Db := { store with segments := [testers] }

def onlyAnn : StringSet := .ofList ["ann"] compare

def includeAnn : Request :=
  .updateSegment "shop" "live" "testers" ⟨none, none, some onlyAnn, none, none, none⟩

def excludeAnn : Request :=
  .updateSegment "shop" "live" "testers" ⟨none, none, none, some onlyAnn, none, none⟩

/-- Both validate the empty segment, and then both write. -/
def includedAndExcluded : Schedule :=
  [.spawn (ask includeAnn), .spawn (ask excludeAnn)] ++ List.replicate 3 (.run 0 tick) ++
    List.replicate 3 (.run 1 tick) ++ List.replicate 3 (.run 0 tick) ++
    List.replicate 3 (.run 1 tick)

/-- With only the one that includes, the two merges agree. -/
def includedOnly : Schedule :=
  .spawn (ask includeAnn) :: List.replicate 6 (.run 0 tick)

end Shop

/-- Both requests succeed, and the stored segment includes and excludes the same key. -/
theorem includedAndExcluded_not_decidable :
    SegmentDecidable .plain Shop.live.id Shop.testers.key Shop.storeWithTesters ∧
    Serves .plain EditsSegment Pool.unguarded ⟨Shop.storeWithTesters, []⟩
      (Pool.runSchedule Sql.exec Shop.includedAndExcluded ⟨Shop.storeWithTesters, []⟩) ∧
    ¬ SegmentDecidable .plain Shop.live.id Shop.testers.key
      (Pool.runSchedule Sql.exec Shop.includedAndExcluded ⟨Shop.storeWithTesters, []⟩).db := by
  refine ⟨by decide, ?_, by decide⟩
  apply Pool.runSchedule_runs
  exact ⟨⟨Shop.owner, Shop.includeAnn, trivial, rfl⟩, ⟨Shop.owner, Shop.excludeAnn, trivial, rfl⟩,
    Pool.follows_unguarded (by simp [Pool.Action.Admissible])⟩

/-- The schedule without a race is one of the runs that the theorem is about. -/
theorem segment_stays_decidable_includedOnly :
    SegmentDecidable .plain Shop.live.id Shop.testers.key
      (Pool.runSchedule Sql.exec Shop.includedOnly ⟨Shop.storeWithTesters, []⟩).db := by
  refine @segment_stays_decidable .plain _ _ Shop.storeWithTesters _ (by decide)
    (Pool.runSchedule_runs ?_)
  refine ⟨⟨Shop.owner, Shop.includeAnn, trivial, rfl⟩, trivial, trivial, trivial, trivial, ?_,
    trivial, trivial⟩
  rintro _ _ stored hstored _ validated hvalidated
  cases hstored
  cases hvalidated
  exact ⟨fun _ _ _ hmember => hmember, fun hnone => by cases hnone⟩

end FlagForge.Api
