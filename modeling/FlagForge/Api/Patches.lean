/-
Module: FlagForge.Api.Patches
Layer: Api
Purpose: The partial updates of flags, segments and experiments from the fields of their body to the
  row that is stored. A field is absent, null or a value; the bodies are meant to tell all three apart
  for the description, and a null does not reach the handler.
Imports: FlagForge.Api.Experiments, FlagForge.Core.WireRoundTrip, FlagForge.Storage.SnapshotVersion (a
  stored flag)
Trusted boundary: none
Main exports: PatchedResource, readPatch, Applied, patches_follow_iff
-/
import FlagForge.Api.Experiments
import FlagForge.Core.WireRoundTrip
import FlagForge.Storage.SnapshotVersion

namespace FlagForge.Api

open Fallible (Succeeds succeeds_bind succeeds_pure succeeds_except succeeds_adapt)
open Json
open Storage
open Storage.Sql (Stmt Resp Input Written FlagPatch SegmentPatch exec)
open Wire

/-! ### Bodies

Every field is optional, and a null is the absent value; for a doubly optional field too, that is the
outer one. -/

abbrev Fields := List (String × Json)

/-- The body of a PATCH of a flag: a field that is absent, and one that is null, is `none`. -/
def deUpdateFlag (fields : Fields) : Option UpdateFlag := do
  let known ← structFields ["name", "description", "variants", "archived"] (.object fields)
  let name ← fieldOr known "name" (deOption deString) none
  let description ← fieldOr known "description" (deOption (deOption deString)) none
  let variants ← fieldOr known "variants" (deOption (deList deVariant)) none
  let archived ← fieldOr known "archived" (deOption deBool) none
  pure { name, description, variants, archived }

/-- That of a segment. -/
def deUpdateSegment (formats : TextFormats) (fields : Fields) : Option UpdateSegment := do
  let known ← structFields
    ["name", "description", "included", "excluded", "rules", "expected_version"] (.object fields)
  let name ← fieldOr known "name" (deOption deString) none
  let description ← fieldOr known "description" (deOption (deOption deString)) none
  let included ← fieldOr known "included" (deOption deSet) none
  let excluded ← fieldOr known "excluded" (deOption deSet) none
  let rules ← fieldOr known "rules" (deOption (deList (deSegmentRule formats))) none
  let expectedVersion ← fieldOr known "expected_version" (deOption deI64) none
  pure { name, description, included, excluded, rules, expectedVersion }

/-- That of an experiment. -/
def deUpdateExperiment (fields : Fields) : Option UpdateExperiment := do
  let known ← structFields ["name", "description"] (.object fields)
  let name ← fieldOr known "name" (deOption deString) none
  let description ← fieldOr known "description" (deOption (deOption deString)) none
  pure { name, description }

/-- What a partial update is addressed to. -/
inductive PatchedResource where
  | flag (projectKey flagKey : String)
  | segment (projectKey environmentKey segmentKey : String)
  | experiment (projectKey environmentKey experimentKey : String)

/-- The request that a body makes, unless it is refused before the handler. -/
def readPatch (formats : TextFormats) (fields : Fields) : PatchedResource → Option Management
  | .flag projectKey flagKey =>
      (deUpdateFlag fields).map fun body => .configuration (.updateFlag projectKey flagKey body)
  | .segment projectKey environmentKey segmentKey =>
      (deUpdateSegment formats fields).map fun body =>
        .configuration (.updateSegment projectKey environmentKey segmentKey body)
  | .experiment projectKey environmentKey experimentKey =>
      (deUpdateExperiment fields).map fun body =>
        .experiment (.update projectKey environmentKey experimentKey body)

/-! ### What a body asks for -/

/-- A column that the field sets to the value it carries, and leaves alone without one. -/
def Column {α : Type} (fields : Fields) (name : String) (de : Json → Option α) (old new : α) : Prop :=
  match fields.lookup name with
  | none | some .null => new = old
  | some j => de j = some new

/-- The description can also be cleared. -/
def Described (fields : Fields) (old new : Option String) : Prop :=
  match fields.lookup "description" with
  | none => new = old
  | some .null => new = none
  | some j => ∃ text, deString j = some text ∧ new = some text

/-- What the PATCH says about each column of the flag is what the column holds; the rest
    is as before. -/
structure FlagFollows (fields : Fields) (old new : FlagRow) : Prop where
  name : Column fields "name" (fun j => (deString j).map trim) old.name new.name
  description : Described fields old.description new.description
  variants : Column fields "variants" (deList deVariant) old.variants new.variants
  archived : Column fields "archived" deBool old.archived new.archived
  others : new = { old with
    name := new.name, description := new.description, variants := new.variants
    archived := new.archived, updatedAt := new.updatedAt }

/-- So for a segment. -/
structure SegmentFollows (formats : TextFormats) (fields : Fields) (old new : SegmentRow) :
    Prop where
  name : Column fields "name" deString old.name new.name
  description : Described fields old.description new.description
  included : Column fields "included" deSet old.included new.included
  excluded : Column fields "excluded" deSet old.excluded new.excluded
  rules : Column fields "rules" (deList (deSegmentRule formats)) old.rules new.rules
  others : new = { old with
    name := new.name, description := new.description, included := new.included
    excluded := new.excluded, rules := new.rules, version := new.version
    updatedAt := new.updatedAt }

/-- And for an experiment. -/
structure ExperimentFollows (fields : Fields) (old new : ExperimentRow) : Prop where
  name : Column fields "name" deString old.name new.name
  description : Described fields old.description new.description
  others : new = { old with
    name := new.name, description := new.description, version := new.version
    updatedAt := new.updatedAt }

section Addressed

variable (caller : AuthUser) (db : Db)

def addressedFlag (projectKey flagKey : String) : Option FlagRow :=
  (Sql.selectProject caller.organizationId projectKey db).bind fun project =>
    Sql.selectFlag project.id flagKey db

def addressedEnvironment (projectKey environmentKey : String) : Option EnvironmentRow :=
  (Sql.selectProject caller.organizationId projectKey db).bind fun project =>
    Sql.selectEnvironment project.id environmentKey db

def addressedSegment (projectKey environmentKey segmentKey : String) : Option SegmentRow :=
  (addressedEnvironment caller db projectKey environmentKey).bind fun environment =>
    Sql.selectSegment environment.id segmentKey db

def addressedExperiment (projectKey environmentKey experimentKey : String) :
    Option ExperimentRow :=
  (addressedEnvironment caller db projectKey environmentKey).bind fun environment =>
    Sql.selectExperiment environment.id experimentKey db

/-- The description that the addressed row has. -/
def addressedDescription : PatchedResource → Option String
  | .flag projectKey flagKey =>
      (addressedFlag caller db projectKey flagKey).bind FlagRow.description
  | .segment projectKey environmentKey segmentKey =>
      (addressedSegment caller db projectKey environmentKey segmentKey).bind SegmentRow.description
  | .experiment projectKey environmentKey experimentKey =>
      (addressedExperiment caller db projectKey environmentKey experimentKey).bind
        ExperimentRow.description

end Addressed

/-- The addressed row has become what the body asks for. -/
def Applied (formats : TextFormats) (caller : AuthUser) (fields : Fields) (db db' : Db) :
    PatchedResource → Prop
  | .flag projectKey flagKey => ∃ old new,
      addressedFlag caller db projectKey flagKey = some old ∧
      addressedFlag caller db' projectKey flagKey = some new ∧ FlagFollows fields old new
  | .segment projectKey environmentKey segmentKey => ∃ old new,
      addressedSegment caller db projectKey environmentKey segmentKey = some old ∧
      addressedSegment caller db' projectKey environmentKey segmentKey = some new ∧
      SegmentFollows formats fields old new
  | .experiment projectKey environmentKey experimentKey => ∃ old new,
      addressedExperiment caller db projectKey environmentKey experimentKey = some old ∧
      addressedExperiment caller db' projectKey environmentKey experimentKey = some new ∧
      ExperimentFollows fields old new

/-! ### Columns -/

section Columns

variable {fields known : Fields} {names : List String} {name : String}

/-- Dropping other fields leaves a field as it is. -/
theorem lookup_filter {p : String → Bool} (h : p name = true) :
    ∀ fields : Fields, (fields.filter fun f => p f.1).lookup name = fields.lookup name
  | [] => rfl
  | (key, j) :: fields => by
      have ih := lookup_filter h fields
      by_cases hkey : name = key
      · subst hkey
        simp [h]
      · have hne : (name == key) = false := beq_eq_false_iff_ne.mpr hkey
        cases hp : p key <;> simp [hp, List.lookup_cons, hne, ih]

/-- A record reads the fields it knows as they are in the body. -/
theorem lookup_structFields (h : structFields names (.object fields) = some known) :
    ∀ name ∈ names, known.lookup name = fields.lookup name := by
  intro name hname
  rw [structFields] at h
  split at h
  · cases h
    exact lookup_filter (p := fun key => key ∈ names) (by simpa using hname) fields
  · cases h

/-- A field that is read as an option and kept by default makes a column of it. -/
theorem column_of_fieldOr {α β : Type} {de : Json → Option α} {value : Option α} {f : α → β}
    {old : β} (hlookup : known.lookup name = fields.lookup name)
    (h : fieldOr known name (deOption de) none = some value) :
    Column fields name (fun j => (de j).map f) old ((value.map f).getD old) := by
  rw [fieldOr, hlookup] at h
  rw [Column]
  cases hfield : fields.lookup name with
  | none =>
      rw [hfield] at h
      cases h
      rfl
  | some j =>
      rw [hfield] at h
      cases j with
      | null =>
          cases h
          rfl
      | _ =>
          obtain ⟨a, ha, rfl⟩ := Option.map_eq_some_iff.mp h
          change (de _).map f = some (f a)
          rw [ha]
          rfl

/-- A field that is absent leaves its column. -/
theorem column_of_fieldOr_id {α : Type} {de : Json → Option α} {value : Option α} {old : α}
    (hlookup : known.lookup name = fields.lookup name)
    (h : fieldOr known name (deOption de) none = some value) :
    Column fields name de old (value.getD old) := by
  simpa using column_of_fieldOr (f := fun a => a) hlookup h

/-- A null that is meant to clear the description leaves it alone. -/
theorem described_iff {value : Option (Option String)} (old : Option String)
    (hlookup : known.lookup "description" = fields.lookup "description")
    (h : fieldOr known "description" (deOption (deOption deString)) none = some value) :
    Described fields old (value.getD old) ↔
      (fields.lookup "description" = some .null → old = none) := by
  rw [fieldOr, hlookup] at h
  rw [Described]
  cases hfield : fields.lookup "description" with
  | none =>
      rw [hfield] at h
      cases h
      simp
  | some j =>
      rw [hfield] at h
      cases j with
      | null =>
          cases h
          simp
      | string text =>
          cases h
          simp [deString]
      | _ => cases h

/-- What the columns of a flag become is what the body asks for, up to the description. -/
theorem flagFollows_iff {fields : Fields} {body : UpdateFlag} (old : FlagRow) (now : Timestamp)
    (h : deUpdateFlag fields = some body) :
    FlagFollows fields old (FlagPatch.apply ⟨body.name.map trim, body.description, body.variants,
        body.archived⟩ now old) ↔
      (fields.lookup "description" = some .null → old.description = none) := by
  obtain ⟨known, hknown, h⟩ := Option.bind_eq_some_iff.mp h
  obtain ⟨name, hname, h⟩ := Option.bind_eq_some_iff.mp h
  obtain ⟨description, hdescription, h⟩ := Option.bind_eq_some_iff.mp h
  obtain ⟨variants, hvariants, h⟩ := Option.bind_eq_some_iff.mp h
  obtain ⟨archived, harchived, h⟩ := Option.bind_eq_some_iff.mp h
  cases h
  have hlookup := lookup_structFields hknown
  have hdescribed := described_iff old.description (hlookup _ (by simp)) hdescription
  constructor
  · exact fun hfollows => hdescribed.mp hfollows.description
  · intro hnull
    exact {
      name := column_of_fieldOr (hlookup _ (by simp)) hname
      description := hdescribed.mpr hnull
      variants := column_of_fieldOr_id (hlookup _ (by simp)) hvariants
      archived := column_of_fieldOr_id (hlookup _ (by simp)) harchived
      others := rfl }

/-- When a written segment follows its PATCH, by the fields that were read. -/
theorem segmentFollows_iff {formats : TextFormats} {fields : Fields} {body : UpdateSegment}
    (old : SegmentRow) (version : Int64) (now : Timestamp)
    (h : deUpdateSegment formats fields = some body) :
    SegmentFollows formats fields old (body.patch.apply version now old) ↔
      (fields.lookup "description" = some .null → old.description = none) := by
  obtain ⟨known, hknown, h⟩ := Option.bind_eq_some_iff.mp h
  obtain ⟨name, hname, h⟩ := Option.bind_eq_some_iff.mp h
  obtain ⟨description, hdescription, h⟩ := Option.bind_eq_some_iff.mp h
  obtain ⟨included, hincluded, h⟩ := Option.bind_eq_some_iff.mp h
  obtain ⟨excluded, hexcluded, h⟩ := Option.bind_eq_some_iff.mp h
  obtain ⟨rules, hrules, h⟩ := Option.bind_eq_some_iff.mp h
  obtain ⟨expectedVersion, _, h⟩ := Option.bind_eq_some_iff.mp h
  cases h
  have hlookup := lookup_structFields hknown
  have hdescribed := described_iff old.description (hlookup _ (by simp)) hdescription
  constructor
  · exact fun hfollows => hdescribed.mp hfollows.description
  · intro hnull
    exact {
      name := column_of_fieldOr_id (hlookup _ (by simp)) hname
      description := hdescribed.mpr hnull
      included := column_of_fieldOr_id (hlookup _ (by simp)) hincluded
      excluded := column_of_fieldOr_id (hlookup _ (by simp)) hexcluded
      rules := column_of_fieldOr_id (hlookup _ (by simp)) hrules
      others := rfl }

/-- When a written experiment does. -/
theorem experimentFollows_iff {fields : Fields} {body : UpdateExperiment} (old : ExperimentRow)
    (version : Int64) (now : Timestamp) (h : deUpdateExperiment fields = some body) :
    ExperimentFollows fields old
        { old with
          name := body.name.getD old.name, description := body.description.getD old.description
          version := version, updatedAt := now } ↔
      (fields.lookup "description" = some .null → old.description = none) := by
  obtain ⟨known, hknown, h⟩ := Option.bind_eq_some_iff.mp h
  obtain ⟨name, hname, h⟩ := Option.bind_eq_some_iff.mp h
  obtain ⟨description, hdescription, h⟩ := Option.bind_eq_some_iff.mp h
  cases h
  have hlookup := lookup_structFields hknown
  have hdescribed := described_iff old.description (hlookup _ (by simp)) hdescription
  constructor
  · exact fun hfollows => hdescribed.mp hfollows.description
  · intro hnull
    exact {
      name := column_of_fieldOr_id (hlookup _ (by simp)) hname
      description := hdescribed.mpr hnull
      others := rfl }

end Columns

/-! ### Statements of a handler that succeeds -/

section Runs

variable {db last : Db}

/-- A query that succeeded was its statement's commit. -/
theorem succeeds_query {s : Stmt} {onError : Sql.SqlError → StorageError} {value : s.Result}
    (h : Succeeds exec (query s onError) db value last) :
    ∃ input w, s.run input db = .ok w ∧ w.value = value ∧ last = w.db := by
  obtain ⟨inputs, h⟩ := h
  obtain ⟨hanswer, hlast⟩ := Prod.mk.inj h
  obtain ⟨w, hw, hvalue, hdb⟩ := Sql.run_of_exec_ok (ok_of_mapError hanswer)
  exact ⟨inputs 0, w, hw, hvalue, hlast.symm.trans hdb⟩

/-- A row that was asked for was there. -/
theorem succeeds_orNotFound {α : Type} {entity : String} {row : Option α} {a : α}
    (h : Succeeds exec (orNotFound entity row) db a last) : row = some a ∧ last = db := by
  obtain ⟨h, hlast⟩ := succeeds_except h
  cases row with
  | none => cases h
  | some b =>
      cases h
      exact ⟨rfl, hlast⟩

/-- A lookup that succeeds has read the row, and nothing else has happened. -/
theorem succeeds_find {α : Type} {s : Stmt} (rows : s.Result → Option α) {found : s.Result}
    (hreads : ∀ input w, s.run input db = .ok w → w.value = found ∧ w.db = db) {entity : String}
    {row : α} (h : Succeeds exec (plain s >>= fun r => orNotFound entity (rows r)) db row last) :
    rows found = some row ∧ last = db := by
  obtain ⟨_, _, hread, hrow⟩ := succeeds_bind h
  obtain ⟨_, _, hw, rfl, rfl⟩ := succeeds_query hread
  obtain ⟨hvalue, hdb⟩ := hreads _ _ hw
  rw [hvalue, hdb] at hrow
  exact succeeds_orNotFound hrow

/-- A project that was found is there. -/
theorem succeeds_findProject {organizationId : Uuid} {key : String} {row : ProjectRow}
    (h : Succeeds exec (findProject organizationId key) db row last) :
    Sql.selectProject organizationId key db = some row ∧ last = db :=
  succeeds_find (s := .selectProject organizationId key) id (fun _ _ hw => by cases hw; exact ⟨rfl, rfl⟩) h

theorem succeeds_findEnvironment {projectId : Uuid} {key : String} {row : EnvironmentRow}
    (h : Succeeds exec (findEnvironment projectId key) db row last) :
    Sql.selectEnvironment projectId key db = some row ∧ last = db :=
  succeeds_find (s := .selectEnvironment projectId key) id (fun _ _ hw => by cases hw; exact ⟨rfl, rfl⟩) h

theorem succeeds_findFlag {projectId : Uuid} {key : String} {row : FlagRow}
    (h : Succeeds exec (findFlag projectId key) db row last) :
    Sql.selectFlag projectId key db = some row ∧ last = db :=
  succeeds_find (s := .selectFlag projectId key) id (fun _ _ hw => by cases hw; exact ⟨rfl, rfl⟩) h

theorem succeeds_findConfig {flagId environmentId : Uuid} {row : ConfigRow}
    (h : Succeeds exec (findConfig flagId environmentId) db row last) :
    Sql.selectConfig flagId environmentId db = some row ∧ last = db :=
  succeeds_find (s := .selectConfig flagId environmentId) id (fun _ _ hw => by cases hw; exact ⟨rfl, rfl⟩) h

theorem succeeds_findSegment {environmentId : Uuid} {key : String} {row : SegmentRow}
    (h : Succeeds exec (findSegment environmentId key) db row last) :
    Sql.selectSegment environmentId key db = some row ∧ last = db :=
  succeeds_find (s := .selectSegment environmentId key) id (fun _ _ hw => by cases hw; exact ⟨rfl, rfl⟩) h

theorem succeeds_findExperiment {environmentId : Uuid} {key : String} {row : ExperimentRow}
    (h : Succeeds exec (findExperiment environmentId key) db row last) :
    Sql.selectExperiment environmentId key db = some row ∧ last = db :=
  succeeds_find (s := .selectExperiment environmentId key) id (fun _ _ hw => by cases hw; exact ⟨rfl, rfl⟩) h

/-- The storage function of a flag writes the patched row. -/
theorem succeeds_updateFlag {crates : Crates} {flagId : Uuid} {patch : FlagPatch} {row : FlagRow}
    (h : Succeeds exec (Storage.updateFlag crates flagId patch) db row last) :
    ∃ old now, db.flags.find? (·.id = flagId) = some old ∧ row = patch.apply now old ∧
      last = { db with flags := Table.replace (·.id = flagId) row db.flags } := by
  obtain ⟨_, _, hwrite, hrow⟩ := succeeds_bind h
  obtain ⟨input, w, hw, hvalue, rfl⟩ := succeeds_query hwrite
  obtain ⟨rfl, rfl⟩ := succeeds_orNotFound hrow
  rcases Sql.updateFlag_cases hw with rfl | ⟨old, hold, rfl⟩
  · cases hvalue
  · cases hvalue
    exact ⟨old, input.now, hold, rfl, rfl⟩

/-- A segment that was written was there, and has become what the patch makes of it. -/
theorem succeeds_updateSegment {environmentId : Uuid} {key : String} {patch : SegmentPatch}
    {expectedVersion : Option Int64} {row : SegmentRow}
    (h : Succeeds exec (Storage.updateSegment environmentId key patch expectedVersion) db row last) :
    ∃ old now, Sql.selectSegment environmentId key db = some old ∧
      row = patch.apply (old.version + 1) now old ∧
      last = { db with segments := Table.replace (·.isFor environmentId key) row db.segments } := by
  obtain ⟨current, _, hread, hguarded⟩ := succeeds_bind h
  obtain ⟨_, rfl⟩ := succeeds_findSegment hread
  obtain ⟨_, _, hversion, hwriting⟩ := succeeds_bind hguarded
  obtain ⟨_, rfl⟩ := succeeds_except hversion
  obtain ⟨_, _, hwrite, hanswer⟩ := succeeds_bind hwriting
  obtain ⟨input, w, hw, hvalue, rfl⟩ := succeeds_query hwrite
  obtain ⟨hrow, rfl⟩ := succeeds_except hanswer
  rcases Sql.updateSegment_cases hw with ⟨old, row', hold, _, _, hrow', rfl⟩ | ⟨rfl, _⟩
  · subst hvalue
    cases hrow
    exact ⟨old, input.now, hold, hrow', rfl⟩
  · subst hvalue
    cases hrow

/-- So has an experiment. -/
theorem succeeds_updateExperiment {environmentId : Uuid} {key : String} {name : Option String}
    {description : Option (Option String)} {row : ExperimentRow}
    (h : Succeeds exec (Storage.updateExperiment environmentId key name description) db row last) :
    ∃ old now, Sql.selectExperiment environmentId key db = some old ∧
      row = { old with
        name := name.getD old.name, description := description.getD old.description
        version := old.version + 1, updatedAt := now } ∧
      last = { db with
        experiments := Table.replace (·.isFor environmentId key) row db.experiments } := by
  obtain ⟨updated, _, hwrite, hcounted⟩ := succeeds_bind h
  obtain ⟨input, w, hw, hvalue, rfl⟩ := succeeds_query hwrite
  obtain ⟨_, _, hcount, hreading⟩ := succeeds_bind hcounted
  obtain ⟨hwritten, rfl⟩ := succeeds_except hcount
  obtain ⟨hread, rfl⟩ := succeeds_findExperiment hreading
  rcases Sql.modifyExperiment_cases hw with rfl | ⟨old, row', hold, _, hrow', rfl⟩
  · subst hvalue
    cases hwritten
  · have hkey := ExperimentRow.isFor_iff.mp (List.find?_some hold)
    have hfound : (Table.replace (·.isFor environmentId key) row' db.experiments).find?
        (·.isFor environmentId key) = some row' :=
      Table.find?_replace hold (by rw [hrow']; exact ExperimentRow.isFor_iff.mpr hkey)
    have hsame : row' = row := Option.some.inj (hfound.symm.trans hread)
    subst hsame
    exact ⟨old, input.now, hold, hrow', rfl⟩

theorem succeeds_storage {α : Type} {q : Query α} {a : α}
    (h : Succeeds exec (storage q) db a last) : Succeeds exec q db a last :=
  succeeds_adapt h

/-- An entry changes the log only. -/
theorem succeeds_audit {caller : AuthUser} {action resourceType resourceId : String}
    {environmentId : Option Uuid} {before after : Option Image}
    (h : Succeeds exec (caller.audit action resourceType resourceId environmentId before after) db
      () last) : ∃ row, last = { db with auditLog := db.auditLog ++ [row] } := by
  obtain ⟨_, w, hw, _, rfl⟩ := succeeds_query (succeeds_storage h)
  obtain ⟨row, rfl⟩ := Sql.insertAudit_cases hw
  exact ⟨row, rfl⟩

/-- Validation reads only. -/
theorem succeeds_revalidate {crates : Crates} {existing : FlagRow} {variants : List Variant} :
    ∀ {environments : List EnvironmentRow} {db : Db},
      Succeeds exec (revalidate crates existing variants environments) db () last → last = db
  | [], _, h => (succeeds_pure h).2
  | environment :: environments, _, h => by
      obtain ⟨_, _, hread, hrest⟩ := succeeds_bind h
      obtain ⟨_, rfl⟩ := succeeds_findConfig (succeeds_storage hread)
      obtain ⟨_, _, hvalid, hothers⟩ := succeeds_bind hrest
      obtain ⟨_, rfl⟩ := succeeds_except hvalid
      exact succeeds_revalidate hothers

/-- The check of variants changes nothing. -/
theorem succeeds_checkVariants {crates : Crates} {project : ProjectRow} {existing : FlagRow}
    {variants : Option (List Variant)}
    (h : Succeeds exec (checkVariants crates project existing variants) db () last) : last = db := by
  cases variants with
  | none => exact (succeeds_pure h).2
  | some variants =>
      obtain ⟨_, _, hread, h⟩ := succeeds_bind h
      obtain ⟨_, _, hw, _, rfl⟩ := succeeds_query (succeeds_storage hread)
      cases hw
      exact succeeds_revalidate h

theorem succeeds_discard {α : Type} {p : Handler α} (h : Succeeds exec (handle.discard p) db () last) :
    ∃ a, Succeeds exec p db a last := by
  obtain ⟨a, _, hp, hdone⟩ := succeeds_bind h
  obtain ⟨_, rfl⟩ := succeeds_pure hdone
  exact ⟨a, hp⟩

/-! ### Handlers that succeed -/

variable {crates : Crates} {caller : AuthUser} {projectKey environmentKey : String}

/-- The flag that the path of the request names. -/
theorem addressedFlag_eq {project : ProjectRow} {flagKey : String}
    (hproject : Sql.selectProject caller.organizationId projectKey db = some project)
    (hprojects : last.projects = db.projects) :
    addressedFlag caller last projectKey flagKey = Sql.selectFlag project.id flagKey last := by
  rw [Sql.selectProject, ← hprojects] at hproject
  rw [addressedFlag, Sql.selectProject, hproject, Option.bind_some]

/-- The environment that it names. -/
theorem addressedEnvironment_eq {project : ProjectRow} {environment : EnvironmentRow}
    (hproject : Sql.selectProject caller.organizationId projectKey db = some project)
    (henvironment : Sql.selectEnvironment project.id environmentKey db = some environment)
    (hprojects : last.projects = db.projects) (henvironments : last.environments = db.environments) :
    addressedEnvironment caller last projectKey environmentKey = some environment := by
  rw [Sql.selectProject, ← hprojects] at hproject
  rw [Sql.selectEnvironment, ← henvironments] at henvironment
  rw [addressedEnvironment, Sql.selectProject, hproject, Option.bind_some, Sql.selectEnvironment,
    henvironment]

/-- In a tidy store, what selects a flag by its identifier selects it by its key. -/
theorem replace_by_id {old row : FlagRow} (h : Tidy db) (hold : old ∈ db.flags) :
    Table.replace (·.id = old.id) row db.flags =
      Table.replace (·.isFor old.projectId old.key) row db.flags := by
  apply List.map_congr_left
  intro f hf
  have hiff : f.id = old.id ↔ f.isFor old.projectId old.key = true := by
    rw [FlagRow.isFor_iff]
    constructor
    · intro hid
      rw [h.flagIds f hf old hold hid]
      exact ⟨rfl, rfl⟩
    · rintro ⟨hproject, hkey⟩
      rw [h.flagKeys f hf old hold hproject hkey]
  simp only [decide_eq_true_eq, hiff]

/-- A PATCH of a flag that succeeds leaves the patched row. -/
theorem succeeds_updateFlagHandler {flagKey : String} {body : UpdateFlag} {row : FlagRow}
    (htidy : Tidy db)
    (h : Succeeds exec (updateFlag crates caller projectKey flagKey body) db row last) :
    ∃ old now, addressedFlag caller db projectKey flagKey = some old ∧
      row = FlagPatch.apply ⟨body.name.map trim, body.description, body.variants, body.archived⟩ now
        old ∧
      addressedFlag caller last projectKey flagKey = some row := by
  obtain ⟨_, _, hwrite, hfinding⟩ := succeeds_bind h
  obtain ⟨_, rfl⟩ := succeeds_except hwrite
  obtain ⟨project, _, hproject, hreading⟩ := succeeds_bind hfinding
  obtain ⟨hproject, rfl⟩ := succeeds_findProject (succeeds_storage hproject)
  obtain ⟨existing, _, hflag, hchecking⟩ := succeeds_bind hreading
  obtain ⟨hflag, rfl⟩ := succeeds_findFlag (succeeds_storage hflag)
  obtain ⟨_, _, hchecks, hupdating⟩ := succeeds_bind hchecking
  obtain rfl := succeeds_checkVariants hchecks
  obtain ⟨updated, _, hupdate, hauditing⟩ := succeeds_bind hupdating
  obtain ⟨old, now, hold, hrow, hupdated⟩ := succeeds_updateFlag (succeeds_storage hupdate)
  obtain ⟨_, _, haudit, hanswer⟩ := succeeds_bind hauditing
  obtain ⟨_, haudited⟩ := succeeds_audit haudit
  obtain ⟨rfl, rfl⟩ := succeeds_pure hanswer
  -- the row that has the identifier is the one that was looked up
  have hmem := List.mem_of_find?_eq_some hflag
  have hsame : old = existing := htidy.flagIds old (List.mem_of_find?_eq_some hold) existing hmem
    (by simpa using List.find?_some hold)
  have hkey := FlagRow.isFor_iff.mp (List.find?_some hflag)
  refine ⟨old, now, ?_, hrow, ?_⟩
  · rw [addressedFlag_eq hproject rfl, hsame, hflag]
  · rw [addressedFlag_eq hproject (by rw [haudited, hupdated]), haudited, hupdated, Sql.selectFlag]
    rw [hsame] at hrow
    rw [replace_by_id htidy hmem, hkey.1, hkey.2]
    exact Table.find?_replace hflag (by rw [hrow]; exact FlagRow.isFor_iff.mpr hkey)

/-- So does one of a segment. -/
theorem succeeds_updateSegmentHandler {segmentKey : String} {body : UpdateSegment}
    {row : SegmentRow}
    (h : Succeeds exec (updateSegment crates caller projectKey environmentKey segmentKey body) db row
      last) :
    ∃ old now, addressedSegment caller db projectKey environmentKey segmentKey = some old ∧
      row = body.patch.apply (old.version + 1) now old ∧
      addressedSegment caller last projectKey environmentKey segmentKey = some row := by
  obtain ⟨_, _, hwrite, hfinding⟩ := succeeds_bind h
  obtain ⟨_, rfl⟩ := succeeds_except hwrite
  obtain ⟨project, _, hproject, hreading⟩ := succeeds_bind hfinding
  obtain ⟨hproject, rfl⟩ := succeeds_findProject (succeeds_storage hproject)
  obtain ⟨environment, _, henvironment, hlooking⟩ := succeeds_bind hreading
  obtain ⟨henvironment, rfl⟩ := succeeds_findEnvironment (succeeds_storage henvironment)
  obtain ⟨_, _, hprevious, hchecking⟩ := succeeds_bind hlooking
  obtain ⟨_, rfl⟩ := succeeds_findSegment (succeeds_storage hprevious)
  obtain ⟨_, _, hvalid, hupdating⟩ := succeeds_bind hchecking
  obtain ⟨_, rfl⟩ := succeeds_except hvalid
  obtain ⟨_, _, hupdate, hauditing⟩ := succeeds_bind hupdating
  obtain ⟨old, now, hold, hrow, hupdated⟩ := succeeds_updateSegment (succeeds_storage hupdate)
  obtain ⟨_, _, haudit, hanswer⟩ := succeeds_bind hauditing
  obtain ⟨_, haudited⟩ := succeeds_audit haudit
  obtain ⟨rfl, rfl⟩ := succeeds_pure hanswer
  have hkey := SegmentRow.isFor_iff.mp (List.find?_some hold)
  refine ⟨old, now, ?_, hrow, ?_⟩
  · rw [addressedSegment, addressedEnvironment_eq hproject henvironment rfl rfl, Option.bind_some,
      hold]
  · rw [addressedSegment, addressedEnvironment_eq hproject henvironment
      (by rw [haudited, hupdated]) (by rw [haudited, hupdated]), Option.bind_some, haudited, hupdated]
    exact Table.find?_replace hold (by rw [hrow]; exact SegmentRow.isFor_iff.mpr hkey)

/-- And one of an experiment. -/
theorem succeeds_updateExperimentHandler {experimentKey : String} {body : UpdateExperiment}
    {row : ExperimentRow}
    (h : Succeeds exec (Experiments.update caller projectKey environmentKey experimentKey body) db row
      last) :
    ∃ old now, addressedExperiment caller db projectKey environmentKey experimentKey = some old ∧
      row = { old with
        name := body.name.getD old.name, description := body.description.getD old.description
        version := old.version + 1, updatedAt := now } ∧
      addressedExperiment caller last projectKey environmentKey experimentKey = some row := by
  obtain ⟨_, _, hwrite, hfinding⟩ := succeeds_bind h
  obtain ⟨_, rfl⟩ := succeeds_except hwrite
  obtain ⟨project, _, hproject, hreading⟩ := succeeds_bind hfinding
  obtain ⟨hproject, rfl⟩ := succeeds_findProject (succeeds_storage hproject)
  obtain ⟨environment, _, henvironment, hlooking⟩ := succeeds_bind hreading
  obtain ⟨henvironment, rfl⟩ := succeeds_findEnvironment (succeeds_storage henvironment)
  obtain ⟨_, _, hprevious, hupdating⟩ := succeeds_bind hlooking
  obtain ⟨_, rfl⟩ := succeeds_findExperiment (succeeds_storage hprevious)
  obtain ⟨_, _, hupdate, hauditing⟩ := succeeds_bind hupdating
  obtain ⟨old, now, hold, hrow, hupdated⟩ := succeeds_updateExperiment (succeeds_storage hupdate)
  obtain ⟨_, _, haudit, hanswer⟩ := succeeds_bind hauditing
  obtain ⟨_, haudited⟩ := succeeds_audit haudit
  obtain ⟨rfl, rfl⟩ := succeeds_pure hanswer
  have hkey := ExperimentRow.isFor_iff.mp (List.find?_some hold)
  refine ⟨old, now, ?_, hrow, ?_⟩
  · rw [addressedExperiment, addressedEnvironment_eq hproject henvironment rfl rfl, Option.bind_some,
      hold]
  · rw [addressedExperiment, addressedEnvironment_eq hproject henvironment
      (by rw [haudited, hupdated]) (by rw [haudited, hupdated]), Option.bind_some, haudited, hupdated]
    exact Table.find?_replace hold (by rw [hrow]; exact ExperimentRow.isFor_iff.mpr hkey)

end Runs

/-- There is one row before and one row after. -/
theorem exists_found_iff {α : Type} {P : α → α → Prop} {before after : Option α} {old new : α}
    (hold : before = some old) (hnew : after = some new) :
    (∃ old new, before = some old ∧ after = some new ∧ P old new) ↔ P old new := by
  constructor
  · rintro ⟨old', new', hold', hnew', h⟩
    rw [hold] at hold'
    rw [hnew] at hnew'
    cases hold'
    cases hnew'
    exact h
  · exact fun h => ⟨old, new, hold, hnew, h⟩

/-- A partial update that is accepted does to the addressed row what its body asks for, unless it was
    to clear a description that the row has: a null leaves the description alone. -/
theorem patches_follow_iff {crates : Crates} {formats : TextFormats} {inputs : Nat → Input}
    {caller : AuthUser} {fields : Fields} {resource : PatchedResource} {request : Management}
    {db db' : Db} (hstored : Stored db) (hread : readPatch formats fields resource = some request)
    (haccepted : administer crates inputs caller request db = (.ok (), db')) :
    Applied formats caller fields db db' resource ↔
      (fields.lookup "description" = some .null →
        addressedDescription caller db resource = none) := by
  have htidy := hstored.tidy
  cases resource with
  | flag projectKey flagKey =>
      obtain ⟨body, hbody, rfl⟩ := Option.map_eq_some_iff.mp hread
      obtain ⟨row, hrun⟩ := succeeds_discard ⟨inputs, haccepted⟩
      obtain ⟨old, now, hold, rfl, hnew⟩ := succeeds_updateFlagHandler htidy hrun
      have hiff := flagFollows_iff old now hbody
      rw [addressedDescription, hold, Option.bind_some, ← hiff]
      exact exists_found_iff hold hnew
  | segment projectKey environmentKey segmentKey =>
      obtain ⟨body, hbody, rfl⟩ := Option.map_eq_some_iff.mp hread
      obtain ⟨row, hrun⟩ := succeeds_discard ⟨inputs, haccepted⟩
      obtain ⟨old, now, hold, rfl, hnew⟩ := succeeds_updateSegmentHandler hrun
      have hiff := segmentFollows_iff old (old.version + 1) now hbody
      rw [addressedDescription, hold, Option.bind_some, ← hiff]
      exact exists_found_iff hold hnew
  | experiment projectKey environmentKey experimentKey =>
      obtain ⟨body, hbody, rfl⟩ := Option.map_eq_some_iff.mp hread
      obtain ⟨row, hrun⟩ := succeeds_discard ⟨inputs, haccepted⟩
      obtain ⟨old, now, hold, rfl, hnew⟩ := succeeds_updateExperimentHandler hrun
      have hiff := experimentFollows_iff old (old.version + 1) now hbody
      rw [addressedDescription, hold, Option.bind_some, ← hiff]
      exact exists_found_iff hold hnew

/-! ### A flag with a description -/

namespace Trial

def operator : AuthUser := ⟨⟨7⟩, ⟨0⟩, "operator@example.com", .member⟩

def described : Db :=
  (exec (Storage.Trial.tick ⟨3⟩) (.createFlag ⟨1⟩ "checkout" "Checkout" (some "One page")
    [⟨"on", .bool true⟩, ⟨"off", .bool false⟩] "off" (.fixed "on")) Storage.Trial.environment).2

def checkout : PatchedResource := .flag "shop" "checkout"

def clear : Fields := [("description", .null)]

def rename : Fields := [("name", .string " Checkout v2 "), ("description", .null)]

/-- The answer to a patch of the flag, and the tables after it. -/
def patched (body : UpdateFlag) (db : Db) : Except ApiError Unit × Db :=
  administer .plain (fun _ => Storage.Trial.tick ⟨9⟩) operator
    (.configuration (.updateFlag "shop" "checkout" body)) db

end Trial

/-- The description is there before and after the request that clears it. -/
theorem null_keeps_description :
    Stored Trial.described ∧
    readPatch Wire.hyphenatedFormats Trial.clear Trial.checkout =
      some (.configuration (.updateFlag "shop" "checkout" ⟨none, none, none, none⟩)) ∧
    (Trial.patched ⟨none, none, none, none⟩ Trial.described).1 = .ok () ∧
    ¬Applied Wire.hyphenatedFormats Trial.operator Trial.clear Trial.described
      (Trial.patched ⟨none, none, none, none⟩ Trial.described).2 Trial.checkout := by
  refine ⟨?_, rfl, rfl, ?_⟩
  · have hproject : Stored Storage.Trial.project := Stored.empty.exec (by trivial)
    have henvironment : Stored Storage.Trial.environment := hproject.exec (by trivial)
    exact henvironment.exec (by trivial)
  · rintro ⟨old, new, _, hnew, hfollows⟩
    have hcleared : new.description = none := hfollows.description
    have hkept : (addressedFlag Trial.operator
        (Trial.patched ⟨none, none, none, none⟩ Trial.described).2 "shop" "checkout").bind
          FlagRow.description = some "One page" := rfl
    rw [hnew, Option.bind_some, hcleared] at hkept
    cases hkept

/-- A flag without a description gets a new name. -/
theorem patches_follow_iff_rename :
    Applied Wire.hyphenatedFormats Trial.operator Trial.rename Storage.Trial.flag
      (Trial.patched ⟨some " Checkout v2 ", none, none, none⟩ Storage.Trial.flag).2
      Trial.checkout :=
  (patches_follow_iff Storage.Trial.flag_stored rfl
    (Prod.ext (by rfl : (Trial.patched ⟨some " Checkout v2 ", none, none, none⟩
      Storage.Trial.flag).1 = .ok ()) rfl)).mpr fun _ => rfl

end FlagForge.Api
