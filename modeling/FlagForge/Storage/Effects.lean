/-
Module: FlagForge.Storage.Effects
Layer: Storage
Purpose: What each write can do. For every statement that writes, a lemma that reads a success back
  to the tables before it: which row changed, which constraints held, which environments hear of it.
  No other proof unfolds a statement that writes.
Imports: FlagForge.Storage.Statements
Trusted boundary: none
Main exports: Sql.exec_db_cases, Sql.exec_of_isRead, Sql.upsertConfig_cases, Sql.updateFlag_cases,
  Sql.updateSegment_cases, Sql.createFlag_cases, Sql.createEnvironment_cases
-/
import FlagForge.Storage.Statements

namespace FlagForge.Storage.Sql

open Json (StringSet)

/-! ### Steps of a statement -/

/-- A statement in two steps succeeds if both do. -/
theorem of_bind {α β : Type} {x : Except SqlError α} {k : α → Except SqlError β} {b : β}
    (h : (x >>= k) = .ok b) : ∃ a, x = .ok a ∧ k a = .ok b := by
  cases x with
  | ok a => exact ⟨a, rfl, h⟩
  | error e => cases h

@[simp] theorem require_eq_ok {ok : Bool} {error : SqlError} :
    require ok error = .ok () ↔ ok = true := by
  cases ok <;> simp [require]

/-- A check that it passes holds. -/
theorem of_require {α : Type} {ok : Bool} {error : SqlError} {k : Unit → Except SqlError α} {a : α}
    (h : (require ok error >>= k) = .ok a) : ok = true ∧ k () = .ok a := by
  obtain ⟨u, hok, hk⟩ := of_bind h
  exact ⟨require_eq_ok.mp hok, hk⟩

/-- A version that is bumped was not the last. -/
theorem of_bumped {α : Type} {version : Int64} {k : Int64 → Except SqlError α} {a : α}
    (h : (bumped version >>= k) = .ok a) :
    version ≠ Int64.maxValue ∧ k (version + 1) = .ok a := by
  obtain ⟨next, hnext, hk⟩ := of_bind h
  rw [bumped] at hnext
  split at hnext
  · cases hnext
  · rename_i hmax
    cases hnext
    exact ⟨hmax, hk⟩

/-- A loop that succeeds has made its results of its elements, one of each. -/
theorem of_mapM {α β : Type} {f : α → Except SqlError β} : ∀ {xs : List α} {ys : List β},
    xs.mapM f = .ok ys →
      (∀ y ∈ ys, ∃ x ∈ xs, f x = .ok y) ∧ ∀ x ∈ xs, ∃ y ∈ ys, f x = .ok y
  | [], _, h => by
      cases h
      constructor <;> intro _ hmem <;> cases hmem
  | x :: xs, _, h => by
      rw [List.mapM_cons] at h
      obtain ⟨y, hy, h⟩ := of_bind h
      obtain ⟨ys, hys, h⟩ := of_bind h
      cases h
      obtain ⟨hfrom, hto⟩ := of_mapM hys
      constructor
      · intro y' hy'
        rcases List.mem_cons.mp hy' with rfl | hy'
        · exact ⟨x, List.mem_cons_self, hy⟩
        · obtain ⟨x', hx', heq⟩ := hfrom y' hy'
          exact ⟨x', List.mem_cons_of_mem _ hx', heq⟩
      · intro x' hx'
        rcases List.mem_cons.mp hx' with rfl | hx'
        · exact ⟨y, List.mem_cons_self, hy⟩
        · obtain ⟨y', hy', heq⟩ := hto x' hx'
          exact ⟨y', List.mem_cons_of_mem _ hy', heq⟩

/-- What each result shares with its element, the two lists share. -/
theorem map_of_mapM {α β γ : Type} {f : α → Except SqlError β} {g : β → γ} {h : α → γ}
    (hshared : ∀ x y, f x = .ok y → g y = h x) : ∀ {xs : List α} {ys : List β},
      xs.mapM f = .ok ys → ys.map g = xs.map h
  | [], _, hys => by
      cases hys
      rfl
  | x :: xs, _, hys => by
      rw [List.mapM_cons] at hys
      obtain ⟨y, hy, hys⟩ := of_bind hys
      obtain ⟨ys, hrest, hys⟩ := of_bind hys
      cases hys
      rw [List.map_cons, List.map_cons, hshared x y hy, map_of_mapM hshared hrest]

/-- A loop succeeds if each of its steps does. -/
theorem mapM_of_forall {α β : Type} {f : α → Except SqlError β} : ∀ {xs : List α},
    (∀ x ∈ xs, ∃ y, f x = .ok y) → ∃ ys, xs.mapM f = .ok ys
  | [], _ => ⟨[], rfl⟩
  | x :: xs, h => by
      obtain ⟨y, hy⟩ := h x List.mem_cons_self
      obtain ⟨ys, hys⟩ := mapM_of_forall fun x hx => h x (List.mem_cons_of_mem _ hx)
      exact ⟨y :: ys, by rw [List.mapM_cons, hy, hys]; rfl⟩

/-- A version that is bumped moves up by one. -/
theorem toInt_bumped {version : Int64} (h : version ≠ Int64.maxValue) :
    (version + 1).toInt = version.toInt + 1 := by
  have hne : version.toInt ≠ Int64.maxValue.toInt := fun heq => h (Int64.toInt_inj.mp heq)
  have hle := version.toInt_le
  have hge := version.le_toInt
  rw [Int64.toInt_maxValue] at hne hle
  rw [Int64.toInt_add, Int64.toInt_one, Int.bmod_eq_of_le] <;> omega

/-! ### Execution -/

section Execution

variable {input : Input} {s : Stmt} {db : Db}

/-- A statement leaves the tables alone, or does what it does when it succeeds. -/
theorem exec_db_cases (input : Input) (s : Stmt) (db : Db) : (exec input s db).2 = db ∨
    ∃ w, s.run input db = .ok w ∧ (exec input s db).2 = w.db := by
  rw [exec, execute]
  split
  · rename_i w hw
    split at hw
    · cases hw
    · exact .inr ⟨w, hw, rfl⟩
  · exact .inl rfl

/-- An answer is that of the statement's success. -/
theorem run_of_exec_ok {value : s.Result} (h : (exec input s db).1 = .ok value) :
    ∃ w, s.run input db = .ok w ∧ w.value = value ∧ (exec input s db).2 = w.db := by
  rw [exec, execute] at h ⊢
  split at h
  · rename_i w hw
    split at hw
    · cases hw
    · rename_i hfails
      cases h
      exact ⟨w, hw, rfl, rfl⟩
  · cases h

/-- A statement that fails changes nothing. -/
theorem db_of_exec_error {error : SqlError} (h : (exec input s db).1 = .error error) :
    (exec input s db).2 = db := by
  rw [exec] at h ⊢
  split at h
  · cases h
  · rfl

/-- Without a failure of its own, the database answers what the statement does. -/
theorem exec_of_run_ok {w : Written s.Result} (hfails : input.fails = false)
    (h : s.run input db = .ok w) : exec input s db = (.ok w.value, w.db) := by
  simp [exec, execute, hfails, h]

/-- What a statement answers that changes nothing, unless the database fails. -/
theorem exec_of_run_unchanged {value : s.Result} (h : s.run input db = .ok (unchanged value db)) :
    exec input s db = (if input.fails then .error .other else .ok value, db) := by
  cases hfails : input.fails with
  | true => simp [exec, execute, hfails]
  | false => simp [exec, execute, hfails, h, unchanged]

/-- What every success keeps, the statement keeps. -/
theorem exec_invariant {I : Db → Prop} (hrun : ∀ w, s.run input db = .ok w → I w.db) (hI : I db) :
    I (exec input s db).2 := by
  rcases exec_db_cases input s db with heq | ⟨w, hw, heq⟩
  · rw [heq]
    exact hI
  · rw [heq]
    exact hrun w hw

end Execution

/-- The statements that only read. -/
def Stmt.isRead : Stmt → Bool
  | .selectProject .. | .selectEnvironment .. | .selectEnvironments .. | .selectFlag ..
  | .selectConfig .. | .selectSegment .. | .selectSegmentKeys .. | .selectReferencingFlags ..
  | .selectExperiment .. | .selectExperimentsOfFlag .. | .selectSalt ..
  | .selectEnvironmentFlags .. | .selectSegments .. | .selectRunningExperiments .. => true
  | .insertProject .. | .deleteProject .. | .createEnvironment .. | .deleteEnvironment ..
  | .createFlag .. | .updateFlag .. | .deleteFlag .. | .upsertConfig .. | .insertSegment ..
  | .updateSegment .. | .deleteSegment .. | .insertExperiment .. | .updateExperiment ..
  | .transitionExperiment .. | .deleteExperiment .. | .insertAudit .. => false

/-- A read always succeeds and changes nothing. -/
theorem run_of_isRead {s : Stmt} (input : Input) (db : Db) (h : s.isRead = true) :
    ∃ value, s.run input db = .ok (unchanged value db) := by
  cases s <;> first | exact ⟨_, rfl⟩ | cases h

/-- A read changes nothing. -/
theorem exec_of_isRead {input : Input} {s : Stmt} {db : Db} (h : s.isRead = true) :
    (exec input s db).2 = db := by
  rcases exec_db_cases input s db with heq | ⟨w, hw, heq⟩
  · exact heq
  · obtain ⟨value, hvalue⟩ := run_of_isRead input db h
    rw [hvalue] at hw
    cases hw
    exact heq

/-! ### Projects and environments -/

section

variable {input : Input} {db : Db}

theorem insertProject_cases {organizationId : Uuid} {key name : String}
    {description : Option String} {w : Written ProjectRow}
    (h : insertProject input organizationId key name description db = .ok w) :
    (∀ p ∈ db.projects, p.id ≠ input.id) ∧
      w = ⟨⟨input.id, organizationId, key, name, description, input.now⟩,
        { db with
          projects := db.projects ++ [⟨input.id, organizationId, key, name, description, input.now⟩] },
        []⟩ := by
  obtain ⟨_, h⟩ := of_require h
  obtain ⟨hunique, h⟩ := of_require h
  cases h
  refine ⟨?_, rfl⟩
  intro p hp heq
  have := List.all_eq_true.mp hunique p hp
  simp [heq] at this

/-- The rows that a deleted project takes along. -/
theorem deleteProject_cases {organizationId : Uuid} {key : String} {w : Written Nat}
    (h : deleteProject organizationId key db = .ok w) :
    w = unchanged 0 db ∨
      ∃ project ∈ db.projects,
        w.notified = ((db.environments.filter (·.projectId = project.id)).map
          EnvironmentRow.id).filter (hasRows db) ∧
        w.db =
          { withoutEnvironments (·.projectId = project.id) db with
            projects := db.projects.filter (·.id ≠ project.id)
            flags := db.flags.filter (·.projectId ≠ project.id)
            flagConfigs := (withoutEnvironments (·.projectId = project.id) db).flagConfigs.filter
              fun c => !((db.flags.filter (·.projectId = project.id)).map FlagRow.id).contains
                c.flagId } := by
  rw [deleteProject] at h
  split at h
  · cases h
    exact .inl rfl
  · rename_i project hproject
    obtain ⟨_, h⟩ := of_require h
    cases h
    exact .inr ⟨project, List.mem_of_find?_eq_some hproject, rfl, rfl⟩

/-- The experiments that are left keep their flag. -/
theorem deleteProject_restricts {organizationId : Uuid} {key : String} {w : Written Nat}
    (h : deleteProject organizationId key db = .ok w) :
    ∀ x ∈ w.db.experiments, ∀ f ∈ db.flags, f.id = x.flagId → f ∈ w.db.flags := by
  rw [deleteProject] at h
  split at h
  · cases h
    exact fun _ _ f hf _ => hf
  · rename_i project hproject
    obtain ⟨hrestrict, h⟩ := of_require h
    cases h
    intro x hx f hf hid
    refine List.mem_filter.mpr ⟨hf, ?_⟩
    have hkept := List.all_eq_true.mp hrestrict x hx
    rw [decide_eq_true_eq]
    intro hdoomed
    have hcontained : ((db.flags.filter (·.projectId = project.id)).map FlagRow.id).contains
        x.flagId = true := hid ▸ Table.contains_key hf (by simpa using hdoomed)
    rw [Bool.not_eq_true'] at hkept
    exact Bool.false_ne_true (hkept.symm.trans hcontained)

/-- An environment that is inserted has a new identifier and a new key in its project, which
    is there. -/
theorem insertEnvironment_cases {projectId : Uuid} {key name salt : String} {isProduction : Bool}
    {row : EnvironmentRow}
    (h : insertEnvironment input projectId key name salt isProduction db = .ok row) :
    (∀ e ∈ db.environments, e.id ≠ input.id ∧ e.isFor projectId key = false) ∧
      (∃ p ∈ db.projects, p.id = projectId) ∧
      row = ⟨input.id, projectId, key, name, salt, isProduction, input.now⟩ := by
  obtain ⟨_, h⟩ := of_require h
  obtain ⟨hunique, h⟩ := of_require h
  obtain ⟨hproject, h⟩ := of_require h
  cases h
  refine ⟨?_, by simpa using hproject, rfl⟩
  intro e he
  simpa using List.all_eq_true.mp hunique e he

/-- With it come the configurations of all flags of the project. -/
theorem createEnvironment_cases {projectId : Uuid} {key name salt : String} {isProduction : Bool}
    {w : Written EnvironmentRow}
    (h : createEnvironment input projectId key name salt isProduction db = .ok w) :
    ∃ configs,
      insertEnvironment input projectId key name salt isProduction db = .ok w.value ∧
      (db.flags.filter (·.projectId = projectId)).mapM
        (fun flag => seededConfig input w.value.id flag db) = .ok configs ∧
      w = ⟨w.value,
        { db with
          environments := db.environments ++ [w.value]
          flagConfigs := db.flagConfigs ++ configs },
        configs.map ConfigRow.environmentId⟩ := by
  obtain ⟨row, hrow, h⟩ := of_bind h
  obtain ⟨configs, hconfigs, h⟩ := of_bind h
  obtain ⟨_, h⟩ := of_require h
  cases h
  exact ⟨configs, hrow, hconfigs, rfl⟩

/-- A seeded configuration is disabled, without rules, and serves what the reference serves or else
    the default variant. -/
theorem seededConfig_cases {environmentId : Uuid} {flag : FlagRow} {row : ConfigRow}
    (h : seededConfig input environmentId flag db = .ok row) :
    row = firstConfig input flag.id environmentId row.offVariant row.fallthrough ∧
      ((∃ reference, referenceConfig flag.id db = some reference ∧
          row.offVariant = reference.offVariant ∧ row.fallthrough = reference.fallthrough) ∨
        (∃ variant, referenceConfig flag.id db = none ∧
          defaultVariant flag.variants = some variant ∧
          row.offVariant = variant ∧ row.fallthrough = .fixed variant)) := by
  rw [seededConfig] at h
  split at h
  · rename_i reference hreference
    cases h
    exact ⟨rfl, .inl ⟨reference, hreference, rfl, rfl⟩⟩
  · rename_i variant hreference hvariant
    cases h
    exact ⟨rfl, .inr ⟨variant, hreference, hvariant, rfl, rfl⟩⟩
  · cases h

/-- The reference configuration of a flag is one of its configurations. -/
theorem mem_of_referenceConfig {flagId : Uuid} {row : ConfigRow}
    (h : referenceConfig flagId db = some row) : row ∈ db.flagConfigs ∧ row.flagId = flagId := by
  obtain ⟨⟨e, c⟩, hleast, rfl⟩ := Option.map_eq_some_iff.mp h
  obtain ⟨c', hc', hpair⟩ := List.mem_filterMap.mp (Table.mem_of_least hleast)
  split at hpair
  · rename_i hflag
    obtain ⟨e', _, heq⟩ := Option.map_eq_some_iff.mp hpair
    cases heq
    exact ⟨hc', hflag⟩
  · cases hpair

/-- The default variant is one of the variants, and there is one if there are any. -/
theorem mem_of_defaultVariant {variants : List Variant} {key : String}
    (h : defaultVariant variants = some key) : key ∈ variants.map Variant.key := by
  obtain ⟨v, hv, rfl⟩ := Option.map_eq_some_iff.mp h
  apply List.mem_map_of_mem
  rcases Option.or_eq_some_iff.mp hv with hv | ⟨_, hv⟩
  · exact List.mem_of_find?_eq_some hv
  · exact List.mem_of_mem_head? hv

/-- Of several variants one is the default. -/
theorem exists_defaultVariant {variants : List Variant} (h : variants ≠ []) :
    ∃ key, defaultVariant variants = some key := by
  cases variants with
  | nil => exact absurd rfl h
  | cons v variants =>
      rw [defaultVariant]
      cases (v :: variants).find? (·.key = "off") <;> exact ⟨_, rfl⟩

/-- An environment takes along what is in it. -/
theorem deleteEnvironment_cases {projectId : Uuid} {key : String} {w : Written Nat}
    (h : deleteEnvironment projectId key db = .ok w) :
    w.db = withoutEnvironments (·.isFor projectId key) db ∧
      w.notified =
        ((db.environments.filter (·.isFor projectId key)).map EnvironmentRow.id).filter
          (hasRows db) := by
  cases h
  exact ⟨rfl, rfl⟩

/-! ### Flags -/

/-- A flag that is inserted has a new identifier and a new key in its project, which is there. -/
theorem insertFlag_cases {projectId : Uuid} {key name : String} {description : Option String}
    {variants : List Variant} {row : FlagRow}
    (h : insertFlag input projectId key name description variants db = .ok row) :
    (∀ f ∈ db.flags, f.id ≠ input.id ∧ f.isFor projectId key = false) ∧
      (∃ p ∈ db.projects, p.id = projectId) ∧
      row = ⟨input.id, projectId, key, name, description, variants, false, input.now,
        input.now⟩ := by
  obtain ⟨_, h⟩ := of_require h
  obtain ⟨hunique, h⟩ := of_require h
  obtain ⟨hproject, h⟩ := of_require h
  cases h
  refine ⟨?_, by simpa using hproject, rfl⟩
  intro f hf
  simpa using List.all_eq_true.mp hunique f hf

/-- With it come its configurations in all environments of the project. -/
theorem createFlag_cases {projectId : Uuid} {key name : String} {description : Option String}
    {variants : List Variant} {offVariant : String} {fallthrough : Distribution}
    {w : Written FlagRow}
    (h : createFlag input projectId key name description variants offVariant fallthrough db =
      .ok w) :
    insertFlag input projectId key name description variants db = .ok w.value ∧
      w = ⟨w.value,
        { db with
          flags := db.flags ++ [w.value]
          flagConfigs := db.flagConfigs ++ (environmentIds projectId db).map fun id =>
            firstConfig input w.value.id id offVariant fallthrough },
        environmentIds projectId db ++ environmentIds projectId db⟩ := by
  obtain ⟨row, hrow, h⟩ := of_bind h
  obtain ⟨_, h⟩ := of_require h
  cases h
  exact ⟨hrow, rfl⟩

/-- A flag that is not there is not written; one that is there becomes what the patch makes of it. -/
theorem updateFlag_cases {flagId : Uuid} {patch : FlagPatch} {w : Written (Option FlagRow)}
    (h : updateFlag input flagId patch db = .ok w) :
    w = unchanged none db ∨
      ∃ old, db.flags.find? (·.id = flagId) = some old ∧
        w = ⟨some (patch.apply input.now old),
          { db with
            flags := Table.replace (·.id = flagId) (patch.apply input.now old) db.flags },
          environmentIds old.projectId db⟩ := by
  rw [updateFlag] at h
  split at h
  · cases h
    exact .inl rfl
  · rename_i old hold
    obtain ⟨_, h⟩ := of_require h
    cases h
    exact .inr ⟨old, hold, rfl⟩

/-- A flag goes with its configurations, unless an experiment is on it. -/
theorem deleteFlag_cases {projectId : Uuid} {key : String} {w : Written Nat}
    (h : deleteFlag projectId key db = .ok w) :
    (∀ e ∈ db.experiments, ∀ f ∈ db.flags, f.isFor projectId key = true → f.id ≠ e.flagId) ∧
      w.db =
        { db with
          flags := db.flags.filter fun f => !f.isFor projectId key
          flagConfigs := db.flagConfigs.filter fun c =>
            !((db.flags.filter (·.isFor projectId key)).map FlagRow.id).contains c.flagId } ∧
      w.notified =
        (if ((db.flags.filter (·.isFor projectId key)).map FlagRow.id).isEmpty then []
          else environmentIds projectId db) ++
          (db.flagConfigs.filter fun c =>
            ((db.flags.filter (·.isFor projectId key)).map FlagRow.id).contains c.flagId).map
              ConfigRow.environmentId := by
  obtain ⟨hrestrict, h⟩ := of_require h
  cases h
  refine ⟨?_, rfl, rfl⟩
  intro e he f hf hfor heq
  have hnot := List.all_eq_true.mp hrestrict e he
  simp only [Bool.not_eq_true', List.contains_eq_mem, decide_eq_false_iff_not, List.mem_map,
    List.mem_filter, not_exists, not_and] at hnot
  exact hnot f ⟨hf, hfor⟩ heq

/-- The configuration that an upsert writes. -/
def writtenConfig (input : Input) (flagId environmentId : Uuid) (enabled : Bool)
    (offVariant : String) (fallthrough : Distribution) (rules : List Rule) (version : Int64) :
    ConfigRow :=
  { flagId, environmentId, enabled, offVariant, fallthrough, rules, version
    updatedAt := input.now }

/-- Whether the version guard of an upsert lets it write. -/
def Writable (flagId environmentId : Uuid) (expectedVersion : Option Int64) (db : Db) : Prop :=
  ∀ old, selectConfig flagId environmentId db = some old →
    expectedVersion = none ∨ expectedVersion = some old.version

/-- An upsert inserts the first version, or replaces the version it may replace by the next one, or
    is filtered out. -/
theorem upsertConfig_cases {flagId environmentId : Uuid} {enabled : Bool} {offVariant : String}
    {fallthrough : Distribution} {rules : List Rule} {expectedVersion : Option Int64}
    {w : Written (Option ConfigRow)}
    (h : upsertConfig input flagId environmentId enabled offVariant fallthrough rules
      expectedVersion db = .ok w) :
    (∃ row, row = writtenConfig input flagId environmentId enabled offVariant fallthrough rules 1 ∧
        selectConfig flagId environmentId db = none ∧
        (∃ f ∈ db.flags, f.id = flagId) ∧ (∃ e ∈ db.environments, e.id = environmentId) ∧
        w = ⟨some row, { db with flagConfigs := db.flagConfigs ++ [row] }, [environmentId]⟩) ∨
      (∃ old row, selectConfig flagId environmentId db = some old ∧
        (expectedVersion = none ∨ expectedVersion = some old.version) ∧
        old.version ≠ Int64.maxValue ∧
        row = writtenConfig input flagId environmentId enabled offVariant fallthrough rules
          (old.version + 1) ∧
        w = ⟨some row,
          { db with
            flagConfigs := Table.replace (·.isFor flagId environmentId) row db.flagConfigs },
          [environmentId]⟩) ∨
      (∃ old, selectConfig flagId environmentId db = some old ∧
        (∃ expected, expectedVersion = some expected ∧ expected ≠ old.version) ∧
        w = unchanged none db) := by
  rw [upsertConfig] at h
  split at h
  · rename_i hnone
    obtain ⟨hkeys, h⟩ := of_require h
    cases h
    rw [Bool.and_eq_true] at hkeys
    exact .inl ⟨_, rfl, hnone, by simpa using hkeys.1, by simpa using hkeys.2, rfl⟩
  · rename_i old hold
    split at h
    · rename_i hguard
      obtain ⟨hmax, h⟩ := of_bumped h
      cases h
      exact .inr (.inl ⟨old, _, hold, hguard, hmax, rfl, rfl⟩)
    · rename_i hguard
      cases h
      rw [not_or] at hguard
      obtain ⟨expected, hexpected⟩ := Option.ne_none_iff_exists'.mp hguard.1
      refine .inr (.inr ⟨old, hold, ⟨expected, hexpected, ?_⟩, rfl⟩)
      intro heq
      exact hguard.2 (by rw [hexpected, heq])

/-- The tables after an upsert: unchanged, or with the row that is written in the place of the one
    that the version guard let it replace. -/
theorem upsertConfig_db {flagId environmentId : Uuid} {enabled : Bool} {offVariant : String}
    {fallthrough : Distribution} {rules : List Rule} {expectedVersion : Option Int64}
    {w : Written (Option ConfigRow)}
    (h : upsertConfig input flagId environmentId enabled offVariant fallthrough rules
      expectedVersion db = .ok w) :
    w.db = db ∨ ∃ row version configs,
      row = writtenConfig input flagId environmentId enabled offVariant fallthrough rules version ∧
      w.db = { db with flagConfigs := configs } ∧
      Writable flagId environmentId expectedVersion db ∧
      (∀ c, c ∈ configs ↔ c = row ∨ (c ∈ db.flagConfigs ∧ c.isFor flagId environmentId = false)) ∧
      (selectConfig flagId environmentId db = none →
        (∃ f ∈ db.flags, f.id = flagId) ∧ ∃ e ∈ db.environments, e.id = environmentId) := by
  rcases upsertConfig_cases h with ⟨row, hrow, hnone, hflag, henvironment, rfl⟩ |
    ⟨old, row, hold, hguard, _, hrow, rfl⟩ | ⟨_, _, _, rfl⟩
  · refine .inr ⟨row, 1, _, hrow, rfl, fun old hold => absurd hold (by simp [hnone]), ?_,
      fun _ => ⟨hflag, henvironment⟩⟩
    intro c
    rw [List.mem_append, List.mem_singleton, Or.comm]
    apply or_congr Iff.rfl
    refine ⟨fun hc => ⟨hc, ?_⟩, And.left⟩
    exact Bool.eq_false_iff.mpr (List.find?_eq_none.mp hnone c hc)
  · refine .inr ⟨row, _, _, hrow, rfl, ?_, fun c => Table.mem_replace_iff hold,
      fun hnone => absurd hold (by simp [hnone])⟩
    intro old' hold'
    cases hold.symm.trans hold'
    exact hguard
  · exact .inl rfl

/-! ### Segments -/

/-- A new segment has a valid key that is new in its environment, and is empty. -/
theorem insertSegment_cases {environmentId : Uuid} {key name : String}
    {description : Option String} {w : Written SegmentRow}
    (h : insertSegment input environmentId key name description db = .ok w) :
    Validate.isValidKey key = true ∧
      (∀ s ∈ db.segments, s.id ≠ input.id ∧ s.isFor environmentId key = false) ∧
      (∃ e ∈ db.environments, e.id = environmentId) ∧
      w = ⟨⟨input.id, environmentId, key, name, description, ∅, ∅, [], 1, input.now, input.now⟩,
        { db with
          segments := db.segments ++ [⟨input.id, environmentId, key, name, description, ∅, ∅, [], 1,
            input.now, input.now⟩] },
        [environmentId]⟩ := by
  obtain ⟨hchecks, h⟩ := of_require h
  obtain ⟨hunique, h⟩ := of_require h
  obtain ⟨henvironment, h⟩ := of_require h
  cases h
  rw [Bool.and_eq_true] at hchecks
  refine ⟨hchecks.1, ?_, by simpa using henvironment, rfl⟩
  intro s hs
  simpa using List.all_eq_true.mp hunique s hs

/-- An update replaces the version it may replace by the next one, or is filtered out. -/
theorem updateSegment_cases {environmentId : Uuid} {key : String} {patch : SegmentPatch}
    {expectedVersion : Option Int64} {w : Written (Option SegmentRow)}
    (h : updateSegment input environmentId key patch expectedVersion db = .ok w) :
    (∃ old row, selectSegment environmentId key db = some old ∧
        (expectedVersion = none ∨ expectedVersion = some old.version) ∧
        old.version ≠ Int64.maxValue ∧
        row = patch.apply (old.version + 1) input.now old ∧
        w = ⟨some row,
          { db with segments := Table.replace (·.isFor environmentId key) row db.segments },
          [environmentId]⟩) ∨
      (w = unchanged none db ∧ ∀ old, selectSegment environmentId key db = some old →
        ∃ expected, expectedVersion = some expected ∧ expected ≠ old.version) := by
  rw [updateSegment] at h
  split at h
  · rename_i hnone
    cases h
    exact .inr ⟨rfl, fun old hold => by rw [hnone] at hold; cases hold⟩
  · rename_i old hold
    split at h
    · rename_i hguard
      obtain ⟨hmax, h⟩ := of_bumped h
      obtain ⟨_, h⟩ := of_require h
      cases h
      exact .inl ⟨old, _, hold, hguard, hmax, rfl, rfl⟩
    · rename_i hguard
      cases h
      rw [not_or] at hguard
      obtain ⟨expected, hexpected⟩ := Option.ne_none_iff_exists'.mp hguard.1
      refine .inr ⟨rfl, fun old' hold' => ⟨expected, hexpected, ?_⟩⟩
      rw [hold] at hold'
      cases hold'
      intro heq
      exact hguard.2 (by rw [hexpected, heq])

/-- A segment goes alone. -/
theorem deleteSegment_cases {environmentId : Uuid} {key : String} {w : Written Nat}
    (h : deleteSegment environmentId key db = .ok w) :
    w.db = { db with segments := db.segments.filter fun s => !s.isFor environmentId key } ∧
      w.notified =
        (db.segments.filter (·.isFor environmentId key)).map SegmentRow.environmentId := by
  cases h
  exact ⟨rfl, rfl⟩

/-! ### Experiments and the audit log -/

/-- A new experiment is a draft, with a key that is new in its environment. -/
theorem insertExperiment_cases {environmentId flagId : Uuid} {key name : String}
    {description : Option String} {metricKey controlVariant : String} {w : Written Unit}
    (h : insertExperiment input environmentId flagId key name description metricKey controlVariant
      db = .ok w) :
    ∃ row : ExperimentRow,
      row = ⟨input.id, environmentId, flagId, key, name, description, metricKey, controlVariant,
        .draft, none, none, 1, input.now, input.now⟩ ∧
      (∀ e ∈ db.experiments, e.id ≠ input.id ∧ e.isFor environmentId key = false) ∧
      (∃ e ∈ db.environments, e.id = environmentId) ∧ (∃ f ∈ db.flags, f.id = flagId) ∧
      w = ⟨(), { db with experiments := db.experiments ++ [row] }, [environmentId]⟩ := by
  obtain ⟨_, h⟩ := of_require h
  obtain ⟨hunique, h⟩ := of_require h
  obtain ⟨hkeys, h⟩ := of_require h
  cases h
  rw [Bool.and_eq_true] at hkeys
  refine ⟨_, rfl, ?_, by simpa using hkeys.1, by simpa using hkeys.2, rfl⟩
  intro e he
  simpa using List.all_eq_true.mp hunique e he

/-- Of experiments one is written, if it is there, with its version bumped. -/
theorem modifyExperiment_cases {p : ExperimentRow → Bool} {change : ExperimentRow → ExperimentRow}
    {w : Written Nat} (h : modifyExperiment input p change db = .ok w) :
    w = unchanged 0 db ∨
      ∃ old row, db.experiments.find? p = some old ∧ old.version ≠ Int64.maxValue ∧
        row = { change old with version := old.version + 1, updatedAt := input.now } ∧
        w = ⟨1, { db with experiments := Table.replace p row db.experiments },
          [row.environmentId]⟩ := by
  rw [modifyExperiment] at h
  split at h
  · cases h
    exact .inl rfl
  · rename_i old hold
    obtain ⟨hmax, h⟩ := of_bumped h
    obtain ⟨_, h⟩ := of_require h
    cases h
    exact .inr ⟨old, _, hold, hmax, rfl, rfl⟩

/-- A running experiment is not deleted. -/
theorem deleteExperiment_cases {environmentId : Uuid} {key : String} {w : Written Nat}
    (h : deleteExperiment environmentId key db = .ok w) :
    w.db = { db with experiments := db.experiments.filter fun e =>
        !(e.isFor environmentId key && e.state ≠ .running) } ∧
      w.notified = (db.experiments.filter fun e =>
        e.isFor environmentId key && e.state ≠ .running).map ExperimentRow.environmentId := by
  cases h
  exact ⟨rfl, rfl⟩

/-- An entry about an environment that is there goes in. -/
theorem insertAudit_succeeds {entry : NewAuditEntry} {environmentId : Uuid}
    (hentry : entry.environmentId = some environmentId)
    (henvironment : ∃ e ∈ db.environments, e.id = environmentId) :
    ∃ w, insertAudit input entry db = .ok w := by
  have hforeign : (db.environments.any (·.id = environmentId)) = true := by simpa using henvironment
  rw [insertAudit, hentry, Option.all_some, hforeign]
  exact ⟨_, rfl⟩

/-- An entry goes to the end of the log. -/
theorem insertAudit_cases {entry : NewAuditEntry} {w : Written Unit}
    (h : insertAudit input entry db = .ok w) :
    ∃ row, w = ⟨(), { db with auditLog := db.auditLog ++ [row] }, []⟩ := by
  obtain ⟨_, h⟩ := of_require h
  cases h
  exact ⟨_, rfl⟩

end

end FlagForge.Storage.Sql
