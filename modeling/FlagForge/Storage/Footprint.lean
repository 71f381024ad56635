/-
Module: FlagForge.Storage.Footprint
Layer: Storage
Purpose: The snapshot of an environment as cells: the environment itself, its flags and its segments by
  their keys. The evaluation of a flag looks at the flag's cell and at those of the segments its rules
  name, and a statement changes only the cells of what it addresses.
Imports: FlagForge.Lib.Footprint, FlagForge.Core.Locality, FlagForge.Storage.SnapshotVersion
Trusted boundary: none
Main exports: Cell, readCell, consultedCells, evaluationAt, evaluationAt_reads, Touches,
  readCell_of_untouched
-/
import FlagForge.Lib.Footprint
import FlagForge.Core.Locality
import FlagForge.Storage.SnapshotVersion

namespace FlagForge.Storage

open Engine (Evaluation)
open Sql (Input Written Stmt)

/-! ### Cells -/

/-- A part of the snapshot of an environment. -/
inductive Cell where
  | environment
  | flag (key : String)
  | segment (key : String)

abbrev Cell.Value : Cell → Type
  | .environment => Option (String × String)
  | .flag _ => Option Flag
  | .segment _ => Option Segment

/-- What the cell of an environment holds. -/
def readCell (environmentId : Uuid) : (c : Cell) → Db → c.Value
  | .environment, db => Sql.selectSalt environmentId db
  | .flag key, db => (Sql.selectEnvironmentFlags environmentId db).find? (·.key = key)
  | .segment key, db => (Sql.selectSegment environmentId key db).map SegmentRow.definition

/-- What the evaluation of a flag looks at. -/
def consultedCells (environmentId : Uuid) (flagKey : String) (db : Db) : Set Cell :=
  {c | c = .environment ∨ c = .flag flagKey ∨
    ∃ flag, readCell environmentId (.flag flagKey) db = some flag ∧
      ∃ key ∈ flag.consulted, c = .segment key}

/-- What a flag evaluates to in an environment, if there is one. -/
def evaluationAt (crates : Crates) (environmentId : Uuid) (flagKey : String)
    (ctx : EvaluationContext) (fallback : VariantValue) (db : Db) : Option Evaluation :=
  (snapshotAt environmentId 0 db).map fun s => s.evaluate crates flagKey ctx fallback

/-- The evaluation of a flag that was looked up. -/
def evaluateFound (crates : Crates) (ctx : EvaluationContext) (env : EvaluationEnv)
    (flagKey : String) (fallback : VariantValue) : Option Flag → Evaluation
  | some flag => Engine.evaluate crates flag ctx env
  | none => .notFound flagKey fallback

/-- The segments of an environment by their keys. -/
def segmentsAt (environmentId : Uuid) (db : Db) : SegmentSet :=
  .ofList (((Sql.selectSegments environmentId db).map SegmentRow.definition).map fun s => (s.key, s))
    compare

section Reading

variable {environmentId : Uuid} {db db' : Db}

/-- Under a key, a map of values that are told apart by it has the value that a search finds. -/
theorem getElem?_ofList_map {β : Type} {key : β → String} {values : List β} {k : String}
    (hkeys : ∀ a ∈ values, ∀ b ∈ values, key a = key b → a = b) :
    (Std.ExtTreeMap.ofList (values.map fun b => (key b, b)) compare)[k]? =
      values.find? (key · = k) := by
  apply Option.ext
  intro b
  rw [← Std.ExtTreeMap.mem_toList_iff_getElem?_eq_some, Json.mem_toList_ofList_map hkeys]
  constructor
  · intro h
    obtain ⟨hb, hk⟩ : b ∈ values ∧ k = key b := h
    refine Table.find?_of_unique hb (decide_eq_true hk.symm) fun r hr hrk => ?_
    exact hkeys r hr b hb ((of_decide_eq_true hrk).trans hk)
  · intro h
    exact ⟨List.mem_of_find?_eq_some h, (of_decide_eq_true (List.find?_some h :)).symm⟩

/-- A segment that is listed is found by its key. -/
theorem find?_selectSegments (h : Tidy db) (key : String) :
    ((Sql.selectSegments environmentId db).map SegmentRow.definition).find? (·.key = key) =
      readCell environmentId (.segment key) db := by
  rw [List.find?_map]
  refine congrArg _ (Option.ext fun row => ?_)
  constructor
  · intro hfound
    obtain ⟨hmem, hin⟩ := mem_selectSegments.mp (List.mem_of_find?_eq_some hfound)
    have hkey : row.key = key := of_decide_eq_true (List.find?_some hfound :)
    refine Table.find?_of_unique hmem (SegmentRow.isFor_iff.mpr ⟨hin, hkey⟩) fun r hr hfor => ?_
    obtain ⟨hin', hkey'⟩ := SegmentRow.isFor_iff.mp hfor
    exact h.segmentKeys r hr row hmem (hin'.trans hin.symm) (hkey'.trans hkey.symm)
  · intro hfound
    obtain ⟨hin, hkey⟩ := SegmentRow.isFor_iff.mp (List.find?_some hfound)
    have hmem := mem_selectSegments.mpr ⟨List.mem_of_find?_eq_some hfound, hin⟩
    refine Table.find?_of_unique hmem (decide_eq_true hkey) fun r hr hrk => ?_
    obtain ⟨hr, hin'⟩ := mem_selectSegments.mp hr
    exact h.segmentKeys r hr row (List.mem_of_find?_eq_some hfound) (hin'.trans hin.symm)
      ((of_decide_eq_true hrk :).trans hkey.symm)

/-- The evaluation of a flag in terms of cells. -/
theorem evaluationAt_eq (h : Tidy db) {crates : Crates} {flagKey : String} {ctx : EvaluationContext}
    {fallback : VariantValue} : evaluationAt crates environmentId flagKey ctx fallback db =
      (readCell environmentId .environment db).map fun environment =>
        evaluateFound crates ctx ⟨environment.2, segmentsAt environmentId db⟩ flagKey fallback
          (readCell environmentId (.flag flagKey) db) := by
  rw [evaluationAt, snapshotAt, Option.map_map]
  refine congrArg (fun f => Option.map f (Sql.selectSalt environmentId db)) (funext fun environment => ?_)
  exact congrArg (evaluateFound crates ctx ⟨environment.2, segmentsAt environmentId db⟩ flagKey fallback)
    (getElem?_ofList_map (selectEnvironmentFlags_keys h))

/-- The evaluation of a flag looks at the flag and at the segments its rules name. -/
theorem evaluationAt_reads {crates : Crates} {flagKey : String} {ctx : EvaluationContext}
    {fallback : VariantValue} : Footprint.Reads (readCell environmentId) Tidy
      (consultedCells environmentId flagKey)
      (evaluationAt crates environmentId flagKey ctx fallback) := by
  intro db db' h h' hagree
  have henvironment := hagree .environment (.inl rfl)
  have hflag := hagree (.flag flagKey) (.inr (.inl rfl))
  rw [evaluationAt_eq h, evaluationAt_eq h', henvironment, hflag]
  cases hfound : readCell environmentId (.flag flagKey) db with
  | none => rfl
  | some flag =>
      refine congrArg (fun f => Option.map f _) (funext fun environment => ?_)
      refine Engine.evaluate_congr rfl fun key hkey => ?_
      have hsegment := hagree (.segment key) (.inr (.inr ⟨flag, hfound, key, hkey, rfl⟩))
      change (segmentsAt environmentId db')[key]? = (segmentsAt environmentId db)[key]?
      rw [segmentsAt, segmentsAt, getElem?_ofList_map (selectSegments_keys h),
        getElem?_ofList_map (selectSegments_keys h'), find?_selectSegments h,
        find?_selectSegments h', hsegment]

end Reading

/-! ### What a statement addresses -/

/-- Whether the environment is one of the project. -/
def InProject (environmentId projectId : Uuid) (db : Db) : Prop :=
  ∃ e ∈ db.environments, e.id = environmentId ∧ e.projectId = projectId

/-- Whether a statement addresses a cell of the environment: a flag or a segment by its key, or all of
    them with the environment. -/
def Touches (environmentId : Uuid) (input : Input) (db : Db) : Stmt → Cell → Prop
  | .deleteProject organizationId key, _ =>
      ∃ p, Sql.selectProject organizationId key db = some p ∧ InProject environmentId p.id db
  | .createEnvironment .., _ => input.id = environmentId
  | .deleteEnvironment projectId key, _ =>
      ∃ e ∈ db.environments, e.id = environmentId ∧ e.isFor projectId key = true
  | .createFlag projectId key .., .flag key' => key' = key ∧ InProject environmentId projectId db
  | .updateFlag flagId _, .flag key' =>
      ∃ f ∈ db.flags, f.id = flagId ∧ f.key = key' ∧ InProject environmentId f.projectId db
  | .deleteFlag projectId key, .flag key' => key' = key ∧ InProject environmentId projectId db
  | .upsertConfig flagId environmentId' .., .flag key' =>
      environmentId' = environmentId ∧ ∃ f ∈ db.flags, f.id = flagId ∧ f.key = key'
  | .insertSegment environmentId' key .., .segment key'
  | .updateSegment environmentId' key .., .segment key'
  | .deleteSegment environmentId' key, .segment key' => environmentId' = environmentId ∧ key' = key
  | _, _ => False

/-- A configuration in the environment with its flag, which has the key. -/
structure Configures (environmentId : Uuid) (key : String) (db : Db) (c : ConfigRow) (f : FlagRow) :
    Prop where
  config : c ∈ db.flagConfigs
  flag : f ∈ db.flags
  environment : c.environmentId = environmentId
  ofFlag : f.id = c.flagId
  named : f.key = key

section Writing

variable {environmentId : Uuid} {key : String} {db db' : Db} {input : Input}

/-- The configuration of a flag is of a flag of the environment's project. -/
theorem Configures.inProject {c : ConfigRow} {f : FlagRow} (h : Linked db)
    (hconfigures : Configures environmentId key db c f) : InProject environmentId f.projectId db := by
  obtain ⟨e, he, hid⟩ := h.configEnvironment c hconfigures.config
  exact ⟨e, he, hid.trans hconfigures.environment,
    h.sameProject c hconfigures.config f hconfigures.flag hconfigures.ofFlag e he hid⟩

/-- A flag is served from the rows that configure it. -/
theorem readFlag_congr (h : Tidy db) (h' : Tidy db')
    (hrows : ∀ c f, Configures environmentId key db' c f ↔ Configures environmentId key db c f) :
    readCell environmentId (.flag key) db' = readCell environmentId (.flag key) db := by
  have hserved : ∀ {db : Db}, Tidy db → ∀ flag : Flag,
      readCell environmentId (.flag key) db = some flag ↔ ∃ c f, Configures environmentId key db c f ∧
        f.archived = false ∧ Sql.configuredFlag f c = flag := by
    intro db h flag
    constructor
    · intro hfound
      obtain ⟨c, hc, hin, f, hf, hid, harchived, rfl⟩ :=
        mem_selectEnvironmentFlags.mp (List.mem_of_find?_eq_some hfound)
      exact ⟨c, f, ⟨hc, hf, hin, hid, of_decide_eq_true (List.find?_some hfound :)⟩, harchived, rfl⟩
    · intro hrow
      obtain ⟨c, f, hrow, harchived, rfl⟩ := hrow
      have hmem : Sql.configuredFlag f c ∈ Sql.selectEnvironmentFlags environmentId db :=
        mem_selectEnvironmentFlags.mpr
          ⟨c, hrow.config, hrow.environment, f, hrow.flag, hrow.ofFlag, harchived, rfl⟩
      refine Table.find?_of_unique hmem (decide_eq_true hrow.named) fun r hr hkey => ?_
      exact selectEnvironmentFlags_keys h r hr _ hmem
        ((of_decide_eq_true hkey :).trans hrow.named.symm)
  apply Option.ext
  intro flag
  rw [hserved h', hserved h]
  constructor
  · intro hrow
    obtain ⟨c, f, hrow, hrest⟩ := hrow
    exact ⟨c, f, (hrows c f).mp hrow, hrest⟩
  · intro hrow
    obtain ⟨c, f, hrow, hrest⟩ := hrow
    exact ⟨c, f, (hrows c f).mpr hrow, hrest⟩

/-- A search finds what it found among rows that are left when none it looks for is removed. -/
theorem find?_filter_of_imp {α : Type} {p q : α → Bool} {rows : List α}
    (h : ∀ r ∈ rows, p r = true → q r = true) : (rows.filter q).find? p = rows.find? p := by
  rw [← List.head?_filter, ← List.head?_filter, Table.filter_filter_of_imp h]

theorem not_contains_environment {p : EnvironmentRow → Bool}
    (hkept : ∀ e ∈ db.environments, e.id = environmentId → p e = false) :
    ((db.environments.filter p).map EnvironmentRow.id).contains environmentId = false := by
  rw [Bool.eq_false_iff, Ne, List.contains_iff_mem]
  intro hmem
  obtain ⟨e, he, hid⟩ := List.mem_map.mp hmem
  obtain ⟨he, hp⟩ := List.mem_filter.mp he
  rw [hkept e he hid] at hp
  cases hp

/-- Deleting environments does not concern the others. -/
theorem readCell_withoutEnvironments {p : EnvironmentRow → Bool} (h : Tidy db)
    (hkept : ∀ e ∈ db.environments, e.id = environmentId → p e = false) (c : Cell) :
    readCell environmentId c (Sql.withoutEnvironments p db) = readCell environmentId c db := by
  have h' := h.withoutEnvironments (h.toLinked.withoutEnvironments p)
  have hid := not_contains_environment hkept
  cases c with
  | environment =>
      refine congrArg (Option.map _) (find?_filter_of_imp fun e he hfor => ?_)
      rw [hkept e he (of_decide_eq_true hfor :)]
      rfl
  | flag key =>
      refine readFlag_congr h h' fun c f => ⟨fun hrow => ?_, fun hrow => ?_⟩
      · exact ⟨(List.mem_filter.mp hrow.config).1, hrow.flag, hrow.environment, hrow.ofFlag, hrow.named⟩
      · refine ⟨List.mem_filter.mpr ⟨hrow.config, ?_⟩, hrow.flag, hrow.environment, hrow.ofFlag,
          hrow.named⟩
        rw [hrow.environment, hid]
        rfl
  | segment key =>
      refine congrArg (Option.map _) (find?_filter_of_imp fun s _ hfor => ?_)
      rw [(SegmentRow.isFor_iff.mp hfor).1, hid]
      rfl

/-- Deleting another project leaves every cell of the environment. -/
theorem readCell_deleteProject {organizationId : Uuid} {w : Written Nat} (h : Tidy db)
    (h' : Tidy w.db) (hw : Sql.deleteProject organizationId key db = .ok w) {c : Cell}
    (hnot : ¬Touches environmentId input db (.deleteProject organizationId key) c) :
    readCell environmentId c w.db = readCell environmentId c db := by
  rw [Sql.deleteProject] at hw
  split at hw
  · cases hw
    rfl
  rename_i project hproject
  obtain ⟨_, hw⟩ := Sql.of_require hw
  cases hw
  have hkept : ∀ e ∈ db.environments, e.id = environmentId →
      decide (e.projectId = project.id) = false := by
    intro e he hid
    rw [decide_eq_false_iff_not]
    exact fun hin => hnot ⟨project, hproject, e, he, hid, hin⟩
  have hrest := readCell_withoutEnvironments h hkept
  cases c with
  | environment => exact hrest .environment
  | segment key => exact hrest (.segment key)
  | flag key =>
      refine readFlag_congr h h' fun c f => ⟨fun hrow => ?_, fun hrow => ?_⟩
      · exact ⟨(List.mem_filter.mp (List.mem_filter.mp hrow.config).1).1,
          (List.mem_filter.mp hrow.flag).1, hrow.environment, hrow.ofFlag, hrow.named⟩
      -- the flag is of the environment's project, so it is of another one
      · have hother : f.projectId ≠ project.id := by
          intro heq
          exact hnot ⟨project, hproject, heq ▸ hrow.inProject h.toLinked⟩
        have hflag := Table.not_contains_key (p := fun f => f.projectId = project.id) h.flagIds hrow.flag
          (decide_eq_false hother)
        refine ⟨List.mem_filter.mpr ⟨List.mem_filter.mpr ⟨hrow.config, ?_⟩, ?_⟩,
          List.mem_filter.mpr ⟨hrow.flag, decide_eq_true hother⟩, hrow.environment, hrow.ofFlag,
          hrow.named⟩
        · rw [hrow.environment, not_contains_environment hkept]
          rfl
        · rw [← hrow.ofFlag]
          exact congrArg not hflag

/-- So does making another environment. -/
theorem readCell_createEnvironment {projectId : Uuid} {name salt : String} {isProduction : Bool}
    {w : Written EnvironmentRow} (h : Tidy db) (h' : Tidy w.db)
    (hw : Sql.createEnvironment input projectId key name salt isProduction db = .ok w) (c : Cell)
    (hnot : input.id ≠ environmentId) :
    readCell environmentId c w.db = readCell environmentId c db := by
  obtain ⟨configs, hrow, hmapped, hdb⟩ := Sql.createEnvironment_cases hw
  obtain ⟨_, _, hvalue⟩ := Sql.insertEnvironment_cases hrow
  have hother : w.value.id ≠ environmentId := by
    rw [hvalue]
    exact hnot
  cases c with
  | environment =>
      refine congrArg (Option.map _) ?_
      rw [hdb, List.find?_append, List.find?_singleton, if_neg (by simpa using hother),
        Option.or_none]
  | segment key => rw [hdb]; rfl
  | flag key =>
      refine readFlag_congr h h' fun c f => ?_
      have hconfigs : c.environmentId = environmentId →
          (c ∈ w.db.flagConfigs ↔ c ∈ db.flagConfigs) := by
        intro hin
        rw [mem_createEnvironment hw]
        refine or_iff_left fun hseed => ?_
        obtain ⟨f, _, _, hseeded⟩ := hseed
        exact hother ((seededConfig_ids hseeded).2.symm.trans hin)
      have hflags : w.db.flags = db.flags := by rw [hdb]
      constructor
      · intro hrow
        exact ⟨(hconfigs hrow.environment).mp hrow.config, hflags ▸ hrow.flag, hrow.environment,
          hrow.ofFlag, hrow.named⟩
      · intro hrow
        exact ⟨(hconfigs hrow.environment).mpr hrow.config, hflags ▸ hrow.flag, hrow.environment,
          hrow.ofFlag, hrow.named⟩

theorem readFlag_createFlag {projectId : Uuid} {key' name : String} {description : Option String}
    {variants : List Variant} {offVariant : String} {fallthrough : Distribution}
    {w : Written FlagRow} (h : Tidy db) (h' : Tidy w.db)
    (hw : Sql.createFlag input projectId key' name description variants offVariant fallthrough db =
      .ok w) (hnot : ¬(key = key' ∧ InProject environmentId projectId db)) :
    readCell environmentId (.flag key) w.db = readCell environmentId (.flag key) db := by
  obtain ⟨hrow, hdb⟩ := Sql.createFlag_cases hw
  obtain ⟨hfresh, _, hvalue⟩ := Sql.insertFlag_cases hrow
  have hold := h.toLinked.flagId_ne_of_insertFlag hrow
  have hflags : w.db.flags = db.flags ++ [w.value] := by rw [hdb]
  refine readFlag_congr h h' fun c f => ⟨fun hrow => ?_, fun hrow => ?_⟩
  · have hflag := hrow.flag
    rw [hflags] at hflag
    rcases (mem_createFlag hw).mp hrow.config with hc | ⟨e, he, hproject, rfl⟩
    · rcases List.mem_append.mp hflag with hf | hf
      · exact ⟨hc, hf, hrow.environment, hrow.ofFlag, hrow.named⟩
      · cases List.mem_singleton.mp hf
        exact absurd hrow.ofFlag.symm (hold c hc)
    · exfalso
      -- a seed in the environment is of the new flag
      rcases List.mem_append.mp hflag with hf | hf
      · apply (hfresh f hf).1
        rw [hrow.ofFlag]
        exact congrArg FlagRow.id hvalue
      · cases List.mem_singleton.mp hf
        refine hnot ⟨hrow.named.symm.trans (congrArg FlagRow.key hvalue), e, he, ?_, hproject⟩
        exact hrow.environment
  · refine ⟨(mem_createFlag hw).mpr (.inl hrow.config), ?_, hrow.environment, hrow.ofFlag, hrow.named⟩
    rw [hflags]
    exact List.mem_append_left _ hrow.flag

theorem readFlag_updateFlag {flagId : Uuid} {patch : Sql.FlagPatch} {w : Written (Option FlagRow)}
    (h : Tidy db) (h' : Tidy w.db) (hw : Sql.updateFlag input flagId patch db = .ok w)
    (hnot : ¬∃ f ∈ db.flags, f.id = flagId ∧ f.key = key ∧ InProject environmentId f.projectId db) :
    readCell environmentId (.flag key) w.db = readCell environmentId (.flag key) db := by
  rcases Sql.updateFlag_cases hw with rfl | ⟨old, hold, rfl⟩
  · rfl
  have hmem := List.mem_of_find?_eq_some hold
  have hid : old.id = flagId := by simpa using List.find?_some hold
  refine readFlag_congr h h' fun c f => ⟨fun hrow => ?_, fun hrow => ?_⟩
  · rcases Table.mem_replace hrow.flag with rfl | ⟨hf, _⟩
    · -- the patch changes neither the identifier nor the key
      have hconfigures : Configures environmentId key db c old :=
        ⟨hrow.config, hmem, hrow.environment, hrow.ofFlag, hrow.named⟩
      exact absurd ⟨old, hmem, hid, hrow.named, hconfigures.inProject h.toLinked⟩ hnot
    · exact ⟨hrow.config, hf, hrow.environment, hrow.ofFlag, hrow.named⟩
  · refine ⟨hrow.config, Table.mem_replace_of_ne hrow.flag (decide_eq_false fun heq => ?_),
      hrow.environment, hrow.ofFlag, hrow.named⟩
    exact hnot ⟨f, hrow.flag, heq, hrow.named, hrow.inProject h.toLinked⟩

theorem readFlag_deleteFlag {projectId : Uuid} {key' : String} {w : Written Nat} (h : Tidy db)
    (h' : Tidy w.db) (hw : Sql.deleteFlag projectId key' db = .ok w)
    (hnot : ¬(key = key' ∧ InProject environmentId projectId db)) :
    readCell environmentId (.flag key) w.db = readCell environmentId (.flag key) db := by
  obtain ⟨_, hdb, _⟩ := Sql.deleteFlag_cases hw
  have hconfigs : w.db.flagConfigs = db.flagConfigs.filter fun c =>
      !((db.flags.filter (·.isFor projectId key')).map FlagRow.id).contains c.flagId := by rw [hdb]
  have hflags : w.db.flags = db.flags.filter fun f => !f.isFor projectId key' := by rw [hdb]
  refine readFlag_congr h h' fun c f => ⟨fun hrow => ?_, fun hrow => ?_⟩
  · have hc := hrow.config
    have hf := hrow.flag
    rw [hconfigs] at hc
    rw [hflags] at hf
    exact ⟨(List.mem_filter.mp hc).1, (List.mem_filter.mp hf).1, hrow.environment, hrow.ofFlag,
      hrow.named⟩
  · have hkept : f.isFor projectId key' = false := by
      rw [Bool.eq_false_iff, Ne, FlagRow.isFor_iff]
      intro hfor
      exact hnot ⟨hrow.named.symm.trans hfor.2, hfor.1 ▸ hrow.inProject h.toLinked⟩
    have hspared := Table.not_contains_key h.flagIds hrow.flag hkept
    refine ⟨?_, ?_, hrow.environment, hrow.ofFlag, hrow.named⟩
    · rw [hconfigs]
      refine List.mem_filter.mpr ⟨hrow.config, ?_⟩
      rw [← hrow.ofFlag]
      exact congrArg not hspared
    · rw [hflags]
      exact List.mem_filter.mpr ⟨hrow.flag, congrArg not hkept⟩

theorem readFlag_upsertConfig {flagId environmentId' : Uuid} {enabled : Bool} {offVariant : String}
    {fallthrough : Distribution} {rules : List Rule} {expectedVersion : Option Int64}
    {w : Written (Option ConfigRow)} (h : Tidy db) (h' : Tidy w.db)
    (hw : Sql.upsertConfig input flagId environmentId' enabled offVariant fallthrough rules
      expectedVersion db = .ok w)
    (hnot : ¬(environmentId' = environmentId ∧ ∃ f ∈ db.flags, f.id = flagId ∧ f.key = key)) :
    readCell environmentId (.flag key) w.db = readCell environmentId (.flag key) db := by
  -- the row that is written is no row of the flag
  have hother : ∀ (c : ConfigRow) (f : FlagRow), c.flagId = flagId → c.environmentId = environmentId' →
      f ∈ db.flags → c.environmentId = environmentId → f.id = c.flagId → f.key ≠ key := by
    intro c f hflag henvironment hf hin hid hkey
    exact hnot ⟨henvironment.symm.trans hin, f, hf, hid.trans hflag, hkey⟩
  rcases Sql.upsertConfig_cases hw with ⟨row, hrow, _, _, _, rfl⟩ |
    ⟨old, row, _, _, _, hrow, rfl⟩ | ⟨_, _, _, rfl⟩
  · refine readFlag_congr h h' fun c f => ⟨fun hc => ?_, fun hc => ?_⟩
    · rcases List.mem_append.mp hc.config with hold | hnew
      · exact ⟨hold, hc.flag, hc.environment, hc.ofFlag, hc.named⟩
      · cases List.mem_singleton.mp hnew
        exact absurd hc.named (hother _ f (by rw [hrow]; rfl) (by rw [hrow]; rfl) hc.flag
          hc.environment hc.ofFlag)
    · exact ⟨List.mem_append_left _ hc.config, hc.flag, hc.environment, hc.ofFlag, hc.named⟩
  · refine readFlag_congr h h' fun c f => ⟨fun hc => ?_, fun hc => ?_⟩
    · rcases Table.mem_replace hc.config with rfl | ⟨hold, _⟩
      · exact absurd hc.named (hother _ f (by rw [hrow]; rfl) (by rw [hrow]; rfl) hc.flag
          hc.environment hc.ofFlag)
      · exact ⟨hold, hc.flag, hc.environment, hc.ofFlag, hc.named⟩
    · refine ⟨Table.mem_replace_of_ne hc.config ?_, hc.flag, hc.environment, hc.ofFlag, hc.named⟩
      rw [Bool.eq_false_iff, Ne, ConfigRow.isFor_iff]
      intro hfor
      exact hother c f hfor.1 hfor.2 hc.flag hc.environment hc.ofFlag hc.named
  · rfl

theorem readSegment_insertSegment {environmentId' : Uuid} {key' name : String}
    {description : Option String} {w : Written SegmentRow}
    (hw : Sql.insertSegment input environmentId' key' name description db = .ok w)
    (hnot : ¬(environmentId' = environmentId ∧ key = key')) :
    readCell environmentId (.segment key) w.db = readCell environmentId (.segment key) db := by
  obtain ⟨_, _, _, rfl⟩ := Sql.insertSegment_cases hw
  refine congrArg (Option.map _) ?_
  rw [Sql.selectSegment, Sql.selectSegment, List.find?_append, List.find?_singleton, if_neg,
    Option.or_none]
  rw [SegmentRow.isFor_iff]
  exact fun hfor => hnot ⟨hfor.1, hfor.2.symm⟩

theorem readSegment_updateSegment {environmentId' : Uuid} {key' : String} {patch : Sql.SegmentPatch}
    {expectedVersion : Option Int64} {w : Written (Option SegmentRow)}
    (hw : Sql.updateSegment input environmentId' key' patch expectedVersion db = .ok w)
    (hnot : ¬(environmentId' = environmentId ∧ key = key')) :
    readCell environmentId (.segment key) w.db = readCell environmentId (.segment key) db := by
  have hdiffers : ¬(environmentId' = environmentId ∧ key' = key) :=
    fun heq => hnot ⟨heq.1, heq.2.symm⟩
  rcases Sql.updateSegment_cases hw with ⟨old, row, hold, _, _, hrow, rfl⟩ | ⟨rfl, _⟩
  · have hfor : row.isFor environmentId' key' = true := by
      rw [hrow]
      change old.isFor environmentId' key' = true
      exact List.find?_some hold
    refine congrArg (Option.map _) (Table.find?_replace_of_disjoint ?_ fun r _ hr => ?_)
    · exact SegmentRow.isFor_eq_false hfor hdiffers
    · exact SegmentRow.isFor_eq_false hr hdiffers
  · rfl

theorem readSegment_deleteSegment {environmentId' : Uuid} {key' : String} {w : Written Nat}
    (hw : Sql.deleteSegment environmentId' key' db = .ok w)
    (hnot : ¬(environmentId' = environmentId ∧ key = key')) :
    readCell environmentId (.segment key) w.db = readCell environmentId (.segment key) db := by
  have hdiffers : ¬(environmentId = environmentId' ∧ key = key') :=
    fun heq => hnot ⟨heq.1.symm, heq.2⟩
  rw [(Sql.deleteSegment_cases hw).1]
  refine congrArg (Option.map _) (find?_filter_of_imp fun r _ hr => ?_)
  rw [SegmentRow.isFor_eq_false hr hdiffers]
  rfl

/-- A statement changes only the cells that it addresses. -/
theorem readCell_of_untouched {s : Stmt} {w : Written s.Result} {c : Cell} (h : Tidy db)
    (h' : Tidy w.db) (hw : s.run input db = .ok w) (hnot : ¬Touches environmentId input db s c) :
    readCell environmentId c w.db = readCell environmentId c db := by
  cases s with
  | insertProject =>
      obtain ⟨_, rfl⟩ := Sql.insertProject_cases hw
      cases c <;> rfl
  | deleteProject => exact readCell_deleteProject h h' hw hnot
  | createEnvironment => exact readCell_createEnvironment h h' hw c hnot
  | deleteEnvironment projectId key =>
      rw [(Sql.deleteEnvironment_cases hw).1]
      refine readCell_withoutEnvironments h (fun e he hid => ?_) c
      rw [Bool.eq_false_iff]
      exact fun hfor => hnot ⟨e, he, hid, hfor⟩
  | createFlag =>
      cases c with
      | flag key => exact readFlag_createFlag h h' hw hnot
      | environment | segment _ =>
          rw [(Sql.createFlag_cases hw).2]
          rfl
  | updateFlag =>
      cases c with
      | flag key => exact readFlag_updateFlag h h' hw hnot
      | environment | segment _ =>
          rcases Sql.updateFlag_cases hw with rfl | ⟨_, _, rfl⟩ <;> rfl
  | deleteFlag =>
      cases c with
      | flag key => exact readFlag_deleteFlag h h' hw hnot
      | environment | segment _ =>
          rw [(Sql.deleteFlag_cases hw).2.1]
          rfl
  | upsertConfig =>
      cases c with
      | flag key => exact readFlag_upsertConfig h h' hw hnot
      | environment | segment _ =>
          rcases Sql.upsertConfig_cases hw with ⟨_, _, _, _, _, rfl⟩ | ⟨_, _, _, _, _, _, rfl⟩ |
            ⟨_, _, _, rfl⟩ <;> rfl
  | insertSegment =>
      cases c with
      | segment key => exact readSegment_insertSegment hw hnot
      | environment | flag _ =>
          obtain ⟨_, _, _, rfl⟩ := Sql.insertSegment_cases hw
          rfl
  | updateSegment =>
      cases c with
      | segment key => exact readSegment_updateSegment hw hnot
      | environment | flag _ =>
          rcases Sql.updateSegment_cases hw with ⟨_, _, _, _, _, _, rfl⟩ | ⟨rfl, _⟩ <;> rfl
  | deleteSegment =>
      cases c with
      | segment key => exact readSegment_deleteSegment hw hnot
      | environment | flag _ =>
          rw [(Sql.deleteSegment_cases hw).1]
          rfl
  | insertExperiment =>
      obtain ⟨_, _, _, _, _, rfl⟩ := Sql.insertExperiment_cases hw
      cases c <;> rfl
  | updateExperiment | transitionExperiment =>
      rcases Sql.modifyExperiment_cases hw with rfl | ⟨_, _, _, _, _, rfl⟩ <;> cases c <;> rfl
  | deleteExperiment =>
      rw [(Sql.deleteExperiment_cases hw).1]
      cases c <;> rfl
  | insertAudit =>
      obtain ⟨_, rfl⟩ := Sql.insertAudit_cases hw
      cases c <;> rfl
  | _ =>
      cases hw
      rfl

end Writing

end FlagForge.Storage
