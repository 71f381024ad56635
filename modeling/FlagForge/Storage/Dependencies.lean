/-
Module: FlagForge.Storage.Dependencies
Layer: Storage
Purpose: The flags that depend on a segment, as the database finds them in the stored rules and as the
  domain model iterates over its rules. A deletion is refused exactly if validation would miss the
  segment.
Imports: FlagForge.Core.WireRoundTrip, FlagForge.Lib.Containment, FlagForge.Storage.PrimaryKeys,
  FlagForge.Storage.SnapshotVersion (a stored flag), Mathlib.Data.String.Basic
Trusted boundary: none
Main exports: dependencyCondition, referencingFlags, dependencyCondition_iff,
  dependency_query_agrees
-/
import FlagForge.Core.WireRoundTrip
import FlagForge.Lib.Containment
import FlagForge.Storage.PrimaryKeys
import FlagForge.Storage.SnapshotVersion
import Mathlib.Data.String.Basic

namespace FlagForge.Storage

open Json
open Wire
open Sql (exec Input)
open Validate (ValidationIssue validateReferences)

variable (formats : TextFormats) (same : JsonNumber → JsonNumber → Bool)

/-! ### The query -/

/-- The `rules` column of a configuration. -/
def rulesColumn (rules : List Rule) : Json :=
  (serList (serRule formats) rules).toValue

/-- `[{"segments": {name: [key]}}]` -/
def dependencyPattern (name key : String) : Json :=
  .array [.object [("segments", .object [(name, .array [.string key])])]]

/-- `c.rules @> [{"segments": {"any_of": [key]}}] OR c.rules @> [{"segments": {"none_of": [key]}}]` -/
def dependencyCondition (key : String) (rules : List Rule) : Bool :=
  contains same (rulesColumn formats rules) (dependencyPattern "any_of" key) ||
    contains same (rulesColumn formats rules) (dependencyPattern "none_of" key)

/-- Flag keys whose rules reference the segment in this environment, archived flags included. -/
def referencingFlags (environmentId : Uuid) (segmentKey : String) (db : Db) : List String :=
  Table.orderBy (· ≤ ·) <|
    (db.flagConfigs.filter fun c =>
      c.environmentId = environmentId && dependencyCondition formats same segmentKey c.rules).flatMap
        fun c => (db.flags.filter (·.id = c.flagId)).map FlagRow.key

/-! ### The condition on written rules -/

section Condition

variable {formats} {same} {key name : String} {part : Json}

/-- The fields of a written requirement that name segments. -/
theorem mem_serSegmentMatch {required : SegmentMatch} {j : Json} :
    (name, j) ∈ [("any_of", serList .string required.anyOf)] ++
        skipEmpty "none_of" .string required.noneOf ↔
      name = "any_of" ∧ j = serList .string required.anyOf ∨
        name = "none_of" ∧ required.noneOf ≠ [] ∧ j = serList .string required.noneOf := by
  cases required.noneOf <;> simp [skipEmpty]

/-- A list of keys contains a key as a document. -/
theorem contains_keys {keys : List String} :
    contains same (serList Json.string keys).toValue (.array [.string key]) = true ↔
      key ∈ keys := by
  rw [serList, contains_toValue_array]
  simp [toValue]

/-- A requirement that is empty on one side does not write that side, and contains no key in it. -/
theorem contains_serSegmentMatch {required : SegmentMatch} :
    (contains same (serSegmentMatch required).toValue (.object [("any_of", .array [.string key])]) ||
      contains same (serSegmentMatch required).toValue
        (.object [("none_of", .array [.string key])])) = true ↔ key ∈ required.referenced := by
  have hdistinct : (([("any_of", serList Json.string required.anyOf)] ++
      skipEmpty "none_of" .string required.noneOf).map Prod.fst).Nodup := by
    cases required.noneOf <;> simp [skipEmpty]
  rw [Bool.or_eq_true, serSegmentMatch, contains_toValue_object hdistinct,
    contains_toValue_object hdistinct, SegmentMatch.referenced, List.mem_append]
  apply or_congr
  · constructor
    · rintro ⟨j, hmem, hkey⟩
      rcases mem_serSegmentMatch.mp hmem with ⟨_, rfl⟩ | ⟨hname, _⟩
      · exact contains_keys.mp hkey
      · exact absurd hname (by decide)
    · intro hkey
      exact ⟨_, mem_serSegmentMatch.mpr (.inl ⟨rfl, rfl⟩), contains_keys.mpr hkey⟩
  · constructor
    · rintro ⟨j, hmem, hkey⟩
      rcases mem_serSegmentMatch.mp hmem with ⟨hname, _⟩ | ⟨_, _, rfl⟩
      · exact absurd hname (by decide)
      · exact contains_keys.mp hkey
    · intro hkey
      exact ⟨_, mem_serSegmentMatch.mpr (.inr ⟨rfl, List.ne_nil_of_mem hkey, rfl⟩),
        contains_keys.mpr hkey⟩

/-- A rule contains a pattern of segments if its requirement does. -/
theorem contains_serRule {rule : Rule} :
    contains same (serRule formats rule).toValue (.object [("segments", part)]) = true ↔
      ∃ required, rule.segments = some required ∧
        contains same (serSegmentMatch required).toValue part = true := by
  have hdistinct : (([("id", serUuid formats rule.id)] ++
      skipNone "description" .string rule.description ++
      [("conditions", serList serCondition rule.conditions)] ++
      skipNone "segments" serSegmentMatch rule.segments ++
      [("distribution", serDistribution rule.distribution)]).map Prod.fst).Nodup := by
    cases rule.description <;> cases rule.segments <;> simp [skipNone]
  rw [serRule, contains_toValue_object hdistinct]
  cases rule.description <;> cases rule.segments <;> simp [skipNone]

/-- Some rule of the column matches a pattern of segments. -/
theorem contains_rulesColumn {rules : List Rule} :
    contains same (rulesColumn formats rules) (dependencyPattern name key) = true ↔
      ∃ rule ∈ rules, ∃ required, rule.segments = some required ∧
        contains same (serSegmentMatch required).toValue
          (.object [(name, .array [.string key])]) = true := by
  rw [rulesColumn, serList, dependencyPattern, contains_toValue_array]
  constructor
  · rintro ⟨_, hitem, hpart⟩
    obtain ⟨rule, hrule, rfl⟩ := List.mem_map.mp hitem
    exact ⟨rule, hrule, contains_serRule.mp hpart⟩
  · rintro ⟨rule, hrule, hrequired⟩
    exact ⟨_, List.mem_map.mpr ⟨rule, hrule, rfl⟩, contains_serRule.mpr hrequired⟩

/-- The query finds what an iteration over the rules finds. -/
theorem dependencyCondition_iff {rules : List Rule} :
    dependencyCondition formats same key rules = true ↔
      ∃ rule ∈ rules, ∃ required, rule.segments = some required ∧ key ∈ required.referenced := by
  simp only [dependencyCondition, Bool.or_eq_true, contains_rulesColumn,
    ← @contains_serSegmentMatch same key]
  constructor
  · rintro (⟨rule, hrule, required, hsegments, hkey⟩ | ⟨rule, hrule, required, hsegments, hkey⟩)
    · exact ⟨rule, hrule, required, hsegments, .inl hkey⟩
    · exact ⟨rule, hrule, required, hsegments, .inr hkey⟩
  · rintro ⟨rule, hrule, required, hsegments, hkey | hkey⟩
    · exact .inl ⟨rule, hrule, required, hsegments, hkey⟩
    · exact .inr ⟨rule, hrule, required, hsegments, hkey⟩

/-- The condition of the statement is that of the query. -/
theorem references_eq (formats : TextFormats) (same : JsonNumber → JsonNumber → Bool)
    {row : ConfigRow} :
    Sql.references key row = dependencyCondition formats same key row.rules := by
  rw [Bool.eq_iff_iff, dependencyCondition_iff, Sql.references, List.any_eq_true]
  apply exists_congr
  intro rule
  apply and_congr Iff.rfl
  cases rule.segments <;> simp [SegmentMatch.referenced]

theorem selectReferencingFlags_eq (environmentId : Uuid) (db : Db) :
    Sql.selectReferencingFlags environmentId key db =
      referencingFlags formats same environmentId key db := by
  rw [Sql.selectReferencingFlags, referencingFlags]
  simp only [references_eq formats same]

end Condition

/-! ### Validation once the segment is gone -/

/-- The keys of the environment's segments without that one. -/
def keysWithout (environmentId : Uuid) (key : String) (db : Db) : StringSet :=
  Sql.selectSegmentKeys environmentId
    { db with segments := db.segments.filter fun s => !s.isFor environmentId key }

/-- Validation reports that the segment is missing. -/
def ReportsMissing (flag : Flag) (known : StringSet) (key : String) : Prop :=
  ∃ issues, validateReferences flag known = .error issues ∧
    ∃ issue ∈ issues, issue.message = s!"no segment `{key}` in this environment"

theorem not_mem_keysWithout {environmentId : Uuid} {key : String} {db : Db} :
    key ∉ keysWithout environmentId key db := by
  rw [keysWithout, Sql.selectSegmentKeys, Std.ExtTreeSet.mem_ofList, List.contains_iff_mem]
  intro hmem
  obtain ⟨s, hs, hkey⟩ := List.mem_map.mp hmem
  obtain ⟨hs, henvironment⟩ := List.mem_filter.mp hs
  obtain ⟨_, hkept⟩ := List.mem_filter.mp hs
  simp [SegmentRow.isFor, of_decide_eq_true henvironment, hkey] at hkept

/-- A message names its key. -/
theorem missing_injective {key other : String}
    (h : s!"no segment `{key}` in this environment" = s!"no segment `{other}` in this environment") :
    key = other := by
  have hkeys : (toString key).toList = (toString other).toList := by simpa [String.ext_iff] using h
  exact String.ext_iff.mpr hkeys

/-- Issues of a loop by their messages, wherever in the loop they come from. -/
theorem exists_mem_each {α : Type} {check : Nat → α → List ValidationIssue} {message : String}
    {P : α → Prop}
    (hcheck : ∀ i item, (∃ issue ∈ check i item, issue.message = message) ↔ P item) :
    ∀ (items : List α) (i : Nat),
      (∃ issue ∈ Validate.each check i items, issue.message = message) ↔ ∃ item ∈ items, P item
  | [], _ => by simp [Validate.each]
  | item :: items, i => by
      simp only [Validate.each, List.mem_append, or_and_right, exists_or, hcheck,
        exists_mem_each hcheck items (i + 1), List.mem_cons, exists_eq_left]

/-- A key is reported if it is not known and a rule refers to it. -/
theorem reportsMissing_iff {flag : Flag} {known : StringSet} {key : String} :
    ReportsMissing flag known key ↔ key ∉ known ∧
      ∃ rule ∈ flag.rules, ∃ required, rule.segments = some required ∧ key ∈ required.referenced := by
  have hissues : ∀ issues : List ValidationIssue,
      (∃ issues', Validate.outcome issues = .error issues' ∧
        ∃ issue ∈ issues', issue.message = s!"no segment `{key}` in this environment") ↔
      ∃ issue ∈ issues, issue.message = s!"no segment `{key}` in this environment" := by
    intro issues
    cases issues <;> simp [Validate.outcome]
  rw [ReportsMissing, validateReferences, hissues, exists_mem_each (P := fun rule =>
    key ∉ known ∧ ∃ required, rule.segments = some required ∧ key ∈ required.referenced)]
  · constructor
    · rintro ⟨rule, hrule, hunknown, hrequired⟩
      exact ⟨hunknown, rule, hrule, hrequired⟩
    · rintro ⟨hunknown, rule, hrule, hrequired⟩
      exact ⟨rule, hrule, hunknown, hrequired⟩
  · intro i rule
    cases rule.segments with
    | none => simp
    | some required =>
        constructor
        · rintro ⟨issue, hissue, hmessage⟩
          obtain ⟨key', hkey', hissue⟩ := List.mem_flatMap.mp hissue
          rw [Validate.issueUnless] at hissue
          split at hissue
          · cases hissue
          · rename_i hunknown
            rw [List.mem_singleton.mp hissue] at hmessage
            rw [missing_injective hmessage] at hkey' hunknown
            exact ⟨by simpa using hunknown, required, rfl, hkey'⟩
        · rintro ⟨hunknown, required', hsame, hkey⟩
          cases hsame
          refine ⟨⟨s!"rules[{i}].segments", s!"no segment `{key}` in this environment"⟩,
            List.mem_flatMap.mpr ⟨key, hkey, ?_⟩, rfl⟩
          rw [Validate.issueUnless, if_neg (by simpa using hunknown)]
          exact List.mem_singleton_self _

/-! ### Deletions -/

section Deletion

variable {formats} {same} {db : Db} {environmentId : Uuid} {key : String}

/-- The flags of one environment have distinct keys, so none is listed twice. -/
theorem referencingFlags_nodup (htidy : Tidy db) (hkeys : PrimaryKeys db) :
    (referencingFlags formats same environmentId key db).Nodup := by
  rw [referencingFlags, Table.orderBy, (List.perm_insertionSort _ _).nodup_iff,
    List.nodup_flatMap]
  have hflagIds : db.flags.Nodup := List.Nodup.of_map _ hkeys.flagIds
  have hconfigs := (List.pairwise_map.mp hkeys.configKeys).filter fun c =>
    c.environmentId = environmentId && dependencyCondition formats same key c.rules
  constructor
  · intro c _
    apply List.Nodup.map_on _ (hflagIds.filter _)
    intro f hf g hg _
    obtain ⟨hf, hfid⟩ := List.mem_filter.mp hf
    obtain ⟨hg, hgid⟩ := List.mem_filter.mp hg
    exact htidy.flagIds f hf g hg ((of_decide_eq_true hfid).trans (of_decide_eq_true hgid).symm)
  · apply List.Pairwise.imp_of_mem _ hconfigs
    intro c d hc hd hne name hcname hdname
    obtain ⟨hc, hcenvironment⟩ := List.mem_filter.mp hc
    obtain ⟨hd, hdenvironment⟩ := List.mem_filter.mp hd
    rw [Bool.and_eq_true, decide_eq_true_eq] at hcenvironment hdenvironment
    obtain ⟨f, hf, hfname⟩ := List.mem_map.mp hcname
    obtain ⟨g, hg, hgname⟩ := List.mem_map.mp hdname
    obtain ⟨hf, hfid⟩ := List.mem_filter.mp hf
    obtain ⟨hg, hgid⟩ := List.mem_filter.mp hg
    rw [decide_eq_true_eq] at hfid hgid
    -- both flags are of the project of the environment
    obtain ⟨e, he, heid⟩ := htidy.configEnvironment c hc
    have hproject : f.projectId = g.projectId :=
      (htidy.sameProject c hc f hf hfid e he heid).symm.trans (htidy.sameProject d hd g hg hgid e he
        (heid.trans (hcenvironment.1.trans hdenvironment.1.symm)))
    have hsame := htidy.flagKeys f hf g hg hproject (hfname.trans hgname.symm)
    apply hne
    rw [ConfigRow.key, ConfigRow.key, ← hfid, ← hgid, hsame, hcenvironment.1, hdenvironment.1]

/-- The keys are listed in their order. -/
theorem referencingFlags_sorted (htidy : Tidy db) (hkeys : PrimaryKeys db) :
    (referencingFlags formats same environmentId key db).Pairwise (· < ·) := by
  have hle : (referencingFlags formats same environmentId key db).Pairwise
      fun a b => decide (a ≤ b) = true := by
    apply Table.pairwise_orderBy
    · exact fun a b => by simpa using le_total a b
    · exact fun hab hbc => by simpa using (of_decide_eq_true hab).trans (of_decide_eq_true hbc)
  apply (hle.and (referencingFlags_nodup htidy hkeys)).imp
  rintro a b ⟨hab, hne⟩
  exact lt_of_le_of_ne (of_decide_eq_true hab) hne

theorem mem_referencingFlags {name : String} :
    name ∈ referencingFlags formats same environmentId key db ↔
      ∃ config ∈ db.flagConfigs, config.environmentId = environmentId ∧
        dependencyCondition formats same key config.rules = true ∧
        ∃ flag ∈ db.flags, flag.id = config.flagId ∧ flag.key = name := by
  simp [referencingFlags, and_assoc]

/-- Alone, a deletion is refused if the query finds a flag, and names what it finds. -/
theorem deleteSegment_refused_iff {inputs : Nat → Input} (hfails : (inputs 0).fails = false)
    {names : List String} :
    (Prog.runAlone exec inputs (deleteSegment environmentId key).run db).1 =
        .error (.inUse "segment" key names) ↔
      names = referencingFlags formats same environmentId key db ∧ names ≠ [] := by
  have hquery : exec (inputs 0) (.selectReferencingFlags environmentId key) db =
      (.ok (referencingFlags formats same environmentId key db), db) := by
    rw [← selectReferencingFlags_eq]
    exact Sql.exec_of_run_ok (s := .selectReferencingFlags environmentId key) hfails rfl
  change (Prog.runAlone exec inputs (.call (.selectReferencingFlags environmentId key) _) db).1 = _ ↔ _
  rw [Prog.runAlone, hquery]
  cases referencingFlags formats same environmentId key db with
  | nil =>
      -- no answer of the deletion itself is a refusal
      change (Prog.runAlone exec _ (.call (.deleteSegment environmentId key) _) db).1 = _ ↔ _
      rw [Prog.runAlone]
      constructor
      · intro h
        cases hdeleted : (exec (inputs 1) (.deleteSegment environmentId key) db).1 with
        | error e =>
            rw [hdeleted] at h
            cases h
        | ok deleted =>
            rw [hdeleted] at h
            cases deleted <;> cases h
      · rintro ⟨rfl, hne⟩
        exact absurd rfl hne
  | cons name names' =>
      constructor
      · intro h
        cases h
        exact ⟨rfl, List.cons_ne_nil _ _⟩
      · rintro ⟨rfl, _⟩
        rfl

/-- There is a flag to name exactly if a stored configuration would refer to a missing segment. -/
theorem exists_referencing_iff : (∃ name, name ∈ referencingFlags formats same environmentId key db) ↔
    ∃ config ∈ db.flagConfigs, config.environmentId = environmentId ∧
      ∃ flag ∈ db.flags, flag.id = config.flagId ∧
        ReportsMissing (Sql.configuredFlag flag config) (keysWithout environmentId key db) key := by
  constructor
  · rintro ⟨name, hname⟩
    obtain ⟨config, hconfig, henvironment, hcondition, flag, hflag, hid, _⟩ :=
      mem_referencingFlags.mp hname
    exact ⟨config, hconfig, henvironment, flag, hflag, hid, reportsMissing_iff.mpr
      ⟨not_mem_keysWithout, dependencyCondition_iff.mp hcondition⟩⟩
  · rintro ⟨config, hconfig, henvironment, flag, hflag, hid, hreports⟩
    exact ⟨flag.key, mem_referencingFlags.mpr ⟨config, hconfig, henvironment,
      dependencyCondition_iff.mpr (reportsMissing_iff.mp hreports).2, flag, hflag, hid, rfl⟩⟩

end Deletion

/-- The query over the stored rules finds a key where the domain model refers to it. Alone, the
    deletion of a segment is refused exactly if a stored configuration of its environment would then
    refer to a segment that is missing; it names the flags of these configurations, each once, in the
    order of their keys. -/
theorem dependency_query_agrees (formats : TextFormats) (same : JsonNumber → JsonNumber → Bool) :
    (∀ (rules : List Rule) (key : String), dependencyCondition formats same key rules = true ↔
      ∃ rule ∈ rules, ∃ required, rule.segments = some required ∧ key ∈ required.referenced) ∧
    (∀ (environmentId : Uuid) (key : String) (db : Db),
      Sql.selectReferencingFlags environmentId key db =
        referencingFlags formats same environmentId key db) ∧
    ∀ (db : Db) (inputs : Nat → Input) (environmentId : Uuid) (key : String), Stored db →
      (inputs 0).fails = false →
        ((∃ names, (Prog.runAlone exec inputs (deleteSegment environmentId key).run db).1 =
            .error (.inUse "segment" key names)) ↔
          ∃ config ∈ db.flagConfigs, config.environmentId = environmentId ∧
            ∃ flag ∈ db.flags, flag.id = config.flagId ∧
              ReportsMissing (Sql.configuredFlag flag config) (keysWithout environmentId key db) key) ∧
        ∀ names, (Prog.runAlone exec inputs (deleteSegment environmentId key).run db).1 =
            .error (.inUse "segment" key names) →
          names.Pairwise (· < ·) ∧ ∀ name, name ∈ names ↔
            ∃ config ∈ db.flagConfigs, config.environmentId = environmentId ∧
              dependencyCondition formats same key config.rules = true ∧
              ∃ flag ∈ db.flags, flag.id = config.flagId ∧ flag.key = name := by
  refine ⟨fun rules key => dependencyCondition_iff, fun _ _ _ => selectReferencingFlags_eq _ _, ?_⟩
  intro db inputs environmentId key hstored hfails
  have hrefused := @deleteSegment_refused_iff formats same db environmentId key inputs hfails
  constructor
  · rw [← @exists_referencing_iff formats same]
    constructor
    · rintro ⟨names, hanswer⟩
      obtain ⟨rfl, hne⟩ := hrefused.mp hanswer
      exact List.exists_mem_of_ne_nil _ hne
    · rintro ⟨name, hname⟩
      exact ⟨_, hrefused.mpr ⟨rfl, List.ne_nil_of_mem hname⟩⟩
  · intro names hanswer
    obtain ⟨rfl, _⟩ := hrefused.mp hanswer
    exact ⟨referencingFlags_sorted hstored.tidy hstored.primaryKeys, fun _ => mem_referencingFlags⟩

/-! ### A segment in use -/

namespace Trial

def withStaff : Db :=
  (exec (tick ⟨6⟩) (.insertSegment environmentId "staff" "Staff" none) flag).2

/-- Everyone but the staff gets the new checkout. -/
def spareStaff : Sql.Stmt :=
  .upsertConfig ⟨3⟩ environmentId true "off" (.fixed "off")
    [⟨⟨8⟩, none, [], some ⟨[], ["staff"]⟩, .fixed "on"⟩] none

def sparing : Db :=
  (exec (tick ⟨7⟩) spareStaff withStaff).2

theorem sparing_stored : Stored sparing := by
  have hstaff : Stored withStaff := flag_stored.exec (by trivial)
  have haimed : ∀ f ∈ withStaff.flags, f.id = ⟨3⟩ → ∀ e ∈ withStaff.environments,
      e.id = environmentId → e.projectId = f.projectId := by decide
  exact hstaff.exec haimed

end Trial

/-- The segment of the staff cannot be deleted, and validation would miss it. -/
theorem dependency_query_agrees_staff :
    (Prog.runAlone exec (fun _ => Trial.tick ⟨9⟩) (deleteSegment Trial.environmentId "staff").run
      Trial.sparing).1 = .error (.inUse "segment" "staff" ["checkout"]) ∧
    ∃ config ∈ Trial.sparing.flagConfigs, config.environmentId = Trial.environmentId ∧
      ∃ flag ∈ Trial.sparing.flags, flag.id = config.flagId ∧
        ReportsMissing (Sql.configuredFlag flag config)
          (keysWithout Trial.environmentId "staff" Trial.sparing) "staff" :=
  ⟨rfl, ((dependency_query_agrees hyphenatedFormats fun _ _ => false).2.2 Trial.sparing
    (fun _ => Trial.tick ⟨9⟩) Trial.environmentId "staff" Trial.sparing_stored rfl).1.mp
      ⟨["checkout"], rfl⟩⟩

end FlagForge.Storage
