/-
Module: FlagForge.Api.ReferenceRace
Layer: Api
Purpose: Rules that come to reference a segment while the segment is deleted. No foreign key backs
  the reference: the write of the rules looks at the segments first, the delete looks at the rules
  first, and the references stay defined as long as neither is overtaken.
Imports: FlagForge.Api.Server
Trusted boundary: none
Main exports: ReferencesDefined, EditsReferences, ReferencesKept, references_stay_defined
-/
import FlagForge.Api.Server

namespace FlagForge.Api

open Json (StringSet)
open Prog (Log)
open Storage
open Storage.Sql (Stmt Resp Input Written)
open Validate (validateReferences_eq_ok_iff)

/-- Every segment key that the rules refer to. -/
def referencedKeys (rules : List Rule) : List String :=
  rules.flatMap fun rule => rule.segments.elim [] SegmentMatch.referenced

/-- The environment defines a segment of that key. -/
def Defined (environmentId : Uuid) (key : String) (db : Db) : Prop :=
  ∃ segment ∈ db.segments, segment.isFor environmentId key = true

/-- Every segment key that a stored rule references is defined in the rule's environment. -/
def ReferencesDefined (db : Db) : Prop :=
  ∀ config ∈ db.flagConfigs, ∀ key ∈ referencedKeys config.rules,
    Defined config.environmentId key db

instance {db : Db} : Decidable (ReferencesDefined db) := by
  unfold ReferencesDefined Defined
  infer_instance

/-- `PUT` of a configuration, and creation and deletion of segments. -/
def EditsReferences : Request → Prop
  | .updateConfig .. | .createSegment .. | .deleteSegment .. => True
  | _ => False

/-- What was looked up is not overtaken: rules go in only while the segments they reference, which
    the request saw, are still defined; a segment goes only while, as the request saw, no rule of its
    environment references it. -/
def ReferencesKept (log : Log Stmt Resp) (s : Stmt) (db : Db) : Prop :=
  match s with
  | .upsertConfig flagId environmentId _ _ _ rules expectedVersion =>
      Sql.Writable flagId environmentId expectedVersion db →
        ∀ known : StringSet, Answered log (.selectSegmentKeys environmentId) known →
          ∀ key ∈ referencedKeys rules, key ∈ known → Defined environmentId key db
  | .deleteSegment environmentId key =>
      Answered log (.selectReferencingFlags environmentId key) ([] : List String) →
        ∀ config ∈ db.flagConfigs, config.environmentId = environmentId →
          key ∉ referencedKeys config.rules
  | _ => True

variable {crates : Crates}

/-- Accepted rules reference known segments only. -/
theorem known_of_validateReferences {key : String} {variants : List Variant} {offVariant : String}
    {fallthrough : Distribution} {rules : List Rule} {known : StringSet}
    (h : Validate.validateReferences (candidate key variants offVariant fallthrough rules) known =
      .ok ()) : ∀ segmentKey ∈ referencedKeys rules, segmentKey ∈ known := by
  intro segmentKey hmem
  obtain ⟨rule, hrule, hreferenced⟩ := List.mem_flatMap.mp hmem
  cases hsegments : rule.segments with
  | none =>
      rw [hsegments] at hreferenced
      cases hreferenced
  | some required =>
      rw [hsegments] at hreferenced
      exact validateReferences_eq_ok_iff.mp h rule hrule required hsegments segmentKey hreferenced

/-- A configuration whose references were found defined is written while they are. -/
theorem upsertConfig_referencesDefined {flagId environmentId : Uuid} {enabled : Bool}
    {offVariant : String} {fallthrough : Distribution} {rules : List Rule}
    {expectedVersion : Option Int64} {log : Log Stmt Resp} {db : Db} {input : Input}
    {w : Written (Option ConfigRow)}
    (hchecked : Configurable crates flagId environmentId offVariant fallthrough rules log)
    (hkept : ReferencesKept log (.upsertConfig flagId environmentId enabled offVariant fallthrough
      rules expectedVersion) db)
    (hw : Sql.upsertConfig input flagId environmentId enabled offVariant fallthrough rules
      expectedVersion db = .ok w) (h : ReferencesDefined db) : ReferencesDefined w.db := by
  rcases Sql.upsertConfig_db hw with hdb | ⟨row, version, configs, hrow, hdb, hwritable, hmem, _⟩
  · rw [hdb]
    exact h
  rw [hdb]
  obtain ⟨_, _, known, hknown, hvalid⟩ := hchecked.references
  intro config hconfig key hkey
  rcases (hmem config).mp hconfig with rfl | ⟨hconfig, _⟩
  · rw [hrow] at hkey ⊢
    exact hkept hwritable known hknown key hkey (known_of_validateReferences hvalid key hkey)
  · exact h config hconfig key hkey

/-- A new segment takes no definition away. -/
theorem insertSegment_referencesDefined {environmentId : Uuid} {key name : String}
    {description : Option String} {db : Db} {input : Input} {w : Written SegmentRow}
    (hw : Sql.insertSegment input environmentId key name description db = .ok w)
    (h : ReferencesDefined db) : ReferencesDefined w.db := by
  obtain ⟨_, _, _, rfl⟩ := Sql.insertSegment_cases hw
  intro config hconfig key' hkey'
  obtain ⟨segment, hsegment, hfor⟩ := h config hconfig key' hkey'
  exact ⟨segment, List.mem_append_left _ hsegment, hfor⟩

/-- A segment that nothing references leaves no reference behind. -/
theorem deleteSegment_referencesDefined {environmentId : Uuid} {key : String}
    {log : Log Stmt Resp} {db : Db} {input : Input} {w : Written Nat}
    (hlooked : Answered log (.selectReferencingFlags environmentId key) ([] : List String))
    (hkept : ReferencesKept log (.deleteSegment environmentId key) db)
    (hw : (Stmt.deleteSegment environmentId key).run input db = .ok w) (h : ReferencesDefined db) :
    ReferencesDefined w.db := by
  obtain ⟨hdb, _⟩ := Sql.deleteSegment_cases hw
  rw [hdb]
  intro config hconfig key' hkey'
  obtain ⟨segment, hsegment, hfor⟩ := h config hconfig key' hkey'
  refine ⟨segment, List.mem_filter.mpr ⟨hsegment, ?_⟩, hfor⟩
  -- the segment that goes is not the one that is referenced
  cases hdeleted : segment.isFor environmentId key with
  | false => rfl
  | true =>
      rw [SegmentRow.isFor_iff] at hfor hdeleted
      have hsame : config.environmentId = environmentId := hfor.1.symm.trans hdeleted.1
      have hkeys : key' = key := hfor.2.symm.trans hdeleted.2
      exact absurd (hkeys ▸ hkey') (hkept hlooked config hconfig hsame)

/-- While no check is overtaken, every reference stays defined, after every statement of every run of
    edits: no rule is stored that names a segment that has been deleted since it was looked for, and no
    segment is deleted that a rule has come to name since. -/
theorem references_stay_defined {db : Db} {server : Server} (hdefined : ReferencesDefined db)
    (h : Serves crates EditsReferences ReferencesKept ⟨db, []⟩ server) :
    ReferencesDefined server.db := by
  refine h.invariant ?_ hdefined
  intro caller request log s db input w hkind hchecked hread hkept hw h
  cases s with
  | upsertConfig => exact upsertConfig_referencesDefined hchecked.upsertConfig hkept hw h
  | insertSegment => exact insertSegment_referencesDefined hw h
  | deleteSegment => exact deleteSegment_referencesDefined hchecked.deleteSegment hkept hw h
  | insertAudit =>
      obtain ⟨row, rfl⟩ := Sql.insertAudit_cases hw
      exact h
  | _ =>
      cases request <;> first | exact hkind.elim | exact absurd hread.symm Bool.false_ne_true |
        exact absurd hchecked Bool.false_ne_true

/-! ### A race in the shop -/

namespace Shop

def vips : SegmentRow :=
  ⟨⟨4⟩, ⟨2⟩, "vips", "Vips", none, ∅, ∅, [], 1, 0, 0⟩

def storeWithVips : Db := { store with segments := [vips] }

/-- Serves one variant to the segment. -/
def targetVips : Request :=
  .updateConfig "shop" "live" "checkout"
    ⟨true, "off", .fixed "on", [⟨⟨5⟩, none, [], some ⟨["vips"], []⟩, .fixed "beta"⟩], none⟩

def dropVips : Request :=
  .deleteSegment "shop" "live" "vips"

/-- Both look, and then both write. -/
def targetedAndDropped : Schedule :=
  [.spawn (ask targetVips), .spawn (ask dropVips)] ++ List.replicate 5 (.run 0 tick) ++
    List.replicate 4 (.run 1 tick) ++ List.replicate 2 (.run 0 tick) ++
    List.replicate 2 (.run 1 tick)

/-- With only the one that targets the segment, nothing is overtaken. -/
def targetedOnly : Schedule :=
  .spawn (ask targetVips) :: List.replicate 7 (.run 0 tick)

end Shop

/-- Both requests succeed, and a stored rule references a segment that is gone. -/
theorem targetedAndDropped_dangles :
    ReferencesDefined Shop.storeWithVips ∧
    Serves .plain EditsReferences Pool.unguarded ⟨Shop.storeWithVips, []⟩
      (Pool.runSchedule Sql.exec Shop.targetedAndDropped ⟨Shop.storeWithVips, []⟩) ∧
    ¬ ReferencesDefined
      (Pool.runSchedule Sql.exec Shop.targetedAndDropped ⟨Shop.storeWithVips, []⟩).db := by
  refine ⟨by decide, ?_, by decide⟩
  apply Pool.runSchedule_runs
  exact ⟨⟨Shop.owner, Shop.targetVips, trivial, rfl⟩, ⟨Shop.owner, Shop.dropVips, trivial, rfl⟩,
    Pool.follows_unguarded (by simp [Pool.Action.Admissible])⟩

/-- The schedule without a race is one of the runs that the theorem is about. -/
theorem references_stay_defined_targetedOnly : ReferencesDefined
    (Pool.runSchedule Sql.exec Shop.targetedOnly ⟨Shop.storeWithVips, []⟩).db := by
  refine @references_stay_defined .plain Shop.storeWithVips _ (by decide)
    (Pool.runSchedule_runs ?_)
  refine ⟨⟨Shop.owner, Shop.targetVips, trivial, rfl⟩, trivial, trivial, trivial, trivial, trivial,
    ?_, trivial, trivial⟩
  intro _ known _ key hkey _
  cases List.mem_singleton.mp hkey
  exact ⟨Shop.vips, .head _, rfl⟩

end FlagForge.Api
