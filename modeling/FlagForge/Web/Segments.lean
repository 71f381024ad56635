/-
Module: FlagForge.Web.Segments
Layer: Web
Purpose: The dashboard's edit buffer for one segment. The two lists of keys are held as text, one key
  to a line, and read back by splitting at lines and commas; so saving a segment that nobody edited
  changes nothing exactly when every listed key is one that such a text can hold.
Imports: FlagForge.Core.Validate, FlagForge.Lib.Fields
Trusted boundary: none (third-party crates are the parameter `Crates`)
Main exports: Web.Draft, Web.save, Web.SaveKeeps, Web.save_keeps_iff
-/
import FlagForge.Core.Validate
import FlagForge.Lib.Fields

namespace FlagForge.Web

open Json (StringSet)
open Matcher

/-! ### The edit buffer -/

/-- A segment as the management API returns it. -/
structure NamedSegment extends Segment where
  name : String

/-- The edit buffer for one segment; include and exclude lists are free text. -/
structure Draft where
  key : String
  name : String
  included : String
  excluded : String
  rules : List SegmentRule
  version : Int64
  referencedBy : List String

/-- What saving sends. -/
structure SegmentBody where
  name : String
  included : StringSet
  excluded : StringSet
  rules : List SegmentRule
  expectedVersion : Int64

def isLineBreak (c : Char) : Bool :=
  c == '\n' || c == ','

def toLines (keys : StringSet) : String :=
  "\n".intercalate keys.toList

/-- Splits on newlines and commas. -/
def fromLines (raw : String) : StringSet :=
  .ofList ((Fields.parts isLineBreak Validate.isWhitespace raw.toList).map String.ofList) compare

/-- `Draft::from` -/
def Draft.ofSegment (segment : NamedSegment) (referencedBy : List String) : Draft where
  key := segment.key
  name := segment.name
  included := toLines segment.included
  excluded := toLines segment.excluded
  rules := segment.rules
  version := segment.version
  referencedBy := referencedBy

def save (current : Draft) : SegmentBody where
  name := current.name
  included := fromLines current.included
  excluded := fromLines current.excluded
  rules := current.rules
  expectedVersion := current.version

/-- The segment that an update leaves; its key and its description stay. -/
def SegmentBody.applied (body : SegmentBody) (segment : Segment) : Segment :=
  { segment with included := body.included, excluded := body.excluded, rules := body.rules }

/-! ### Saving without an edit -/

/-- Opening a segment and saving it changes nobody's membership. -/
structure SaveKeeps (crates : Crates) (segment : NamedSegment) (referencedBy : List String) :
    Prop where
  included : (save (.ofSegment segment referencedBy)).included = segment.included
  excluded : (save (.ofSegment segment referencedBy)).excluded = segment.excluded
  rules : (save (.ofSegment segment referencedBy)).rules = segment.rules
  members : ∀ (ctx : EvaluationContext) (salt : String),
    segmentContains crates ((save (.ofSegment segment referencedBy)).applied segment.toSegment) ctx
        salt =
      segmentContains crates segment.toSegment ctx salt

/-- A key that a list of lines can hold: not empty, trimmed, and without a newline or a comma. -/
def Listable (key : String) : Prop :=
  Fields.Plain isLineBreak Validate.isWhitespace key.toList

instance (key : String) : Decidable (Listable key) :=
  inferInstanceAs (Decidable (Fields.Plain isLineBreak Validate.isWhitespace key.toList))

/-- Whatever text the lists held, the keys read from it are listable. -/
theorem listable_of_mem_fromLines {raw key : String} (h : key ∈ fromLines raw) : Listable key := by
  rw [fromLines, Std.ExtTreeSet.mem_ofList, List.contains_iff_mem, List.mem_map] at h
  obtain ⟨part, hpart, rfl⟩ := h
  rw [Listable, String.toList_ofList]
  exact Fields.plain_of_mem_parts hpart

theorem fromLines_toLines {keys : StringSet} (h : ∀ key ∈ keys, Listable key) :
    fromLines (toLines keys) = keys := by
  have hplain : ∀ part ∈ keys.toList.map String.toList,
      Fields.Plain isLineBreak Validate.isWhitespace part := by
    intro part hpart
    obtain ⟨key, hkey, rfl⟩ := List.mem_map.mp hpart
    exact h key (Std.ExtTreeSet.mem_toList.mp hkey)
  have hparts : Fields.parts isLineBreak Validate.isWhitespace (toLines keys).toList =
      keys.toList.map String.toList := by
    rw [toLines, String.toList_intercalate]
    exact Fields.parts_intercalate '\n' [] rfl (by simp) (by simp) hplain
  have hstrings : (keys.toList.map String.toList).map String.ofList = keys.toList := by
    rw [List.map_map]
    exact List.map_id'' (fun _ => String.ofList_toList) _
  rw [fromLines, hparts, hstrings, Json.setOfList_toList]

theorem fromLines_toLines_iff {keys : StringSet} :
    fromLines (toLines keys) = keys ↔ ∀ key ∈ keys, Listable key := by
  refine ⟨?_, fromLines_toLines⟩
  intro h key hkey
  rw [← h] at hkey
  exact listable_of_mem_fromLines hkey

/-- Saving an untouched segment keeps it exactly when every included and excluded key is listable: not
    empty, without space at its ends, and without the separators that the list is split at. -/
theorem save_keeps_iff {crates : Crates} {segment : NamedSegment} {referencedBy : List String} :
    SaveKeeps crates segment referencedBy ↔
      (∀ key ∈ segment.included, Listable key) ∧ ∀ key ∈ segment.excluded, Listable key := by
  rw [← fromLines_toLines_iff, ← fromLines_toLines_iff]
  constructor
  · intro h
    exact ⟨h.included, h.excluded⟩
  · rintro ⟨hincluded, hexcluded⟩
    refine ⟨hincluded, hexcluded, rfl, ?_⟩
    intro ctx salt
    simp only [save, Draft.ofSegment, SegmentBody.applied, hincluded, hexcluded]

/-- A segment of one customer, whose context key has a comma. -/
def customers : NamedSegment where
  key := "customers"
  description := none
  included := .ofList ["acme, inc"] compare
  excluded := ∅
  rules := []
  version := 1
  name := "Customers"

/-- The API accepts it, and saving it untouched splits the key: the customer is no member any more. -/
theorem not_save_keeps_customers :
    Validate.validateSegment Crates.plain customers.toSegment = .ok () ∧
      ¬ SaveKeeps Crates.plain customers [] := by
  refine ⟨by decide +kernel, ?_⟩
  intro h
  have hmember := h.members ⟨"acme, inc", ∅⟩ "salt"
  revert hmember
  decide +kernel

end FlagForge.Web
