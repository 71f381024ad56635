/-
Module: FlagForge.Api.Obligations
Layer: Api
Purpose: What a handler has read and checked when it writes. `Justified` says it for every write in
  terms of the answers so far, and every handler keeps it on every path, whatever the answers are.
Imports: FlagForge.Api.Handlers, FlagForge.Storage.Effects, FlagForge.Storage.Rules
Trusted boundary: none
Main exports: Justified, Revalidated, Configurable, handle_justified
-/
import FlagForge.Api.Handlers
import FlagForge.Storage.Effects
import FlagForge.Storage.Rules

namespace FlagForge.Api

open Json (StringSet)
open Prog (Log)
open Fallible (Obeys obeys_bind obeys_pure obeys_adapt obeys_except)
open Storage
open Storage.Sql (Stmt Resp SqlError FlagPatch SegmentPatch)

variable (crates : Crates)

/-- Nothing but reads so far. -/
def OnlyReads (log : Log Stmt Resp) : Prop :=
  ∀ e ∈ log, e.1.isRead = true

/-- The oldest copy of the segment that was read: the one the handler validates. -/
def firstSegment (environmentId : Uuid) (key : String) : Log Stmt Resp → Option SegmentRow
  | [] => none
  | e :: log =>
      (firstSegment environmentId key log).or <|
        match e with
        | ⟨.selectSegment environmentId' key', .ok row⟩ =>
            if environmentId' = environmentId ∧ key' = key then row else none
        | _ => none

/-- The configurations read so far are valid with the new variants. -/
def AllValid (flag : FlagRow) (variants : List Variant) (log : Log Stmt Resp) : Prop :=
  ∀ environmentId (config : ConfigRow),
    Answered log (.selectConfig flag.id environmentId) (some config) →
      Validate.validate crates (candidate flag.key variants config.offVariant config.fallthrough
        config.rules) = .ok ()

/-- Replacing variants were checked against a configuration of the flag in every environment of the
    project. -/
structure Revalidated (project : ProjectRow) (flag : FlagRow) (variants : List Variant)
    (log : Log Stmt Resp) : Prop where
  onlyReads : OnlyReads log
  listed : ∃ environments : List EnvironmentRow,
    Answered log (.selectEnvironments project.id) environments ∧
    ∀ environment ∈ environments, ∃ config : ConfigRow,
      Answered log (.selectConfig flag.id environment.id) (some config)
  valid : AllValid crates flag variants log

/-- The flag that a patch is for was looked up, and the variants it replaces were checked. -/
def PatchChecked (caller : AuthUser) (projectKey flagKey : String) (body : UpdateFlag)
    (flagId : Uuid) (patch : FlagPatch) (log : Log Stmt Resp) : Prop :=
  patch.variants = body.variants ∧ ∃ (project : ProjectRow) (flag : FlagRow),
    Answered log (.selectProject caller.organizationId projectKey) (some project) ∧
    Answered log (.selectFlag project.id flagKey) (some flag) ∧ flag.id = flagId ∧
    ∀ variants, body.variants = some variants → Revalidated crates project flag variants log

/-- A configuration was checked against the variants of the flag and the segments of the
    environment that were read. -/
structure Configurable (flagId environmentId : Uuid) (offVariant : String)
    (fallthrough : Distribution) (rules : List Rule) (log : Log Stmt Resp) : Prop where
  onlyReads : OnlyReads log
  evaluable : ∃ (projectId : Uuid) (environmentKey flagKey : String)
      (environment : EnvironmentRow) (flag : FlagRow),
    Answered log (.selectEnvironment projectId environmentKey) (some environment) ∧
    environment.id = environmentId ∧
    Answered log (.selectFlag projectId flagKey) (some flag) ∧ flag.id = flagId ∧
    Validate.validate crates (candidate flag.key flag.variants offVariant fallthrough rules) =
      .ok ()
  references : ∃ (key : String) (variants : List Variant) (known : StringSet),
    Answered log (.selectSegmentKeys environmentId) known ∧
    Validate.validateReferences (candidate key variants offVariant fallthrough rules) known =
      .ok ()

/-- What is known when a request issues a statement: reads and audit entries need nothing, and of
    the writes each request issues its own. -/
def Justified (caller : AuthUser) (request : Request) (log : Log Stmt Resp) (s : Stmt) : Prop :=
  match request, s with
  | _, .insertAudit _ => True
  | .createProject _, .insertProject .. => True
  | .deleteProject _, .deleteProject .. => True
  | .createEnvironment .., .createEnvironment .. => True
  | .deleteEnvironment .., .deleteEnvironment .. => True
  | .createFlag .., .createFlag _ key _ _ variants offVariant fallthrough =>
      Validate.validate crates (candidate key variants offVariant fallthrough []) = .ok ()
  | .updateFlag projectKey flagKey body, .updateFlag flagId patch =>
      PatchChecked crates caller projectKey flagKey body flagId patch log
  | .deleteFlag .., .deleteFlag .. => True
  | .updateConfig .., .upsertConfig flagId environmentId _ offVariant fallthrough rules _ =>
      Configurable crates flagId environmentId offVariant fallthrough rules log
  | .createSegment .., .insertSegment .. => True
  | .updateSegment .., .updateSegment environmentId key patch _ =>
      ∃ previous, firstSegment environmentId key log = some previous ∧
        Validate.validateSegment crates (patchedSegment previous patch) = .ok ()
  | .deleteSegment .., .deleteSegment environmentId key =>
      Answered log (.selectReferencingFlags environmentId key) ([] : List String)
  | _, s => s.isRead = true

section

variable {crates} {caller : AuthUser} {request : Request} {log : Log Stmt Resp}

/-- A flag that is inserted was checked as it is. -/
theorem Justified.createFlag {projectId : Uuid} {key name : String} {description : Option String}
    {variants : List Variant} {offVariant : String} {fallthrough : Distribution}
    (h : Justified crates caller request log
      (.createFlag projectId key name description variants offVariant fallthrough)) :
    Validate.validate crates (candidate key variants offVariant fallthrough []) = .ok () := by
  cases request <;> first | exact h | exact absurd h Bool.false_ne_true

/-- New variants were checked against every configuration that was read. -/
theorem Justified.updateFlag {flagId : Uuid} {patch : FlagPatch}
    (h : Justified crates caller request log (.updateFlag flagId patch)) :
    ∃ projectKey flagKey body, request = .updateFlag projectKey flagKey body ∧
      PatchChecked crates caller projectKey flagKey body flagId patch log := by
  cases request <;> first | exact ⟨_, _, _, rfl, h⟩ | exact absurd h Bool.false_ne_true

/-- A configuration that is written was checked with the variants and the segments that were read. -/
theorem Justified.upsertConfig {flagId environmentId : Uuid} {enabled : Bool} {offVariant : String}
    {fallthrough : Distribution} {rules : List Rule} {expectedVersion : Option Int64}
    (h : Justified crates caller request log
      (.upsertConfig flagId environmentId enabled offVariant fallthrough rules expectedVersion)) :
    Configurable crates flagId environmentId offVariant fallthrough rules log := by
  cases request <;> first | exact h | exact absurd h Bool.false_ne_true

/-- A segment that is written was checked as merged with what was read first. -/
theorem Justified.updateSegment {environmentId : Uuid} {key : String} {patch : SegmentPatch}
    {expectedVersion : Option Int64} (h : Justified crates caller request log
      (.updateSegment environmentId key patch expectedVersion)) :
    ∃ previous, firstSegment environmentId key log = some previous ∧
      Validate.validateSegment crates (patchedSegment previous patch) = .ok () := by
  cases request <;> first | exact h | exact absurd h Bool.false_ne_true

/-- A segment is deleted only after no reference to it was found. -/
theorem Justified.deleteSegment {environmentId : Uuid} {key : String}
    (h : Justified crates caller request log (.deleteSegment environmentId key)) :
    Answered log (.selectReferencingFlags environmentId key) ([] : List String) := by
  cases request <;> first | exact h | exact absurd h Bool.false_ne_true

end

/-! ### Rules of the handlers' building blocks -/

section

variable {crates}
variable {P : Log Stmt Resp → Stmt → Prop} {log : Log Stmt Resp} {α β : Type}
variable {Q : Log Stmt Resp → β → Prop}

/-- After a check the handler goes on only with what passed. -/
theorem obeys_check {r : Except ApiError α} {f : α → Handler β}
    (h : ∀ a, r = .ok a → Obeys P Q log (f a)) : Obeys P Q log (check r >>= f) := by
  apply obeys_bind
  apply obeys_except
  exact h

/-- A storage function inside a handler, with the log that it leaves. -/
theorem obeys_storage {q : Query α} {f : α → Handler β}
    (h : Obeys P (fun log a => Obeys P Q log (f a)) log q) : Obeys P Q log (storage q >>= f) := by
  apply obeys_bind
  apply obeys_adapt
  exact h

/-- The image of a configuration is read for the audit entry, and the handler continues in any
    case. -/
theorem obeys_attempt_findConfig {flagId environmentId : Uuid}
    {f : Option ConfigRow → Handler β} (hs : P log (.selectConfig flagId environmentId))
    (h : ∀ r image, Obeys P Q (entry (.selectConfig flagId environmentId) r :: log) (f image)) :
    Obeys P Q log (attempt (findConfig flagId environmentId) >>= f) := by
  rw [Obeys, attempt_findConfig]
  exact ⟨hs, fun r => h r _⟩

/-- The entry in the audit log is always allowed. -/
theorem obeys_audit {caller : AuthUser} {action resourceType resourceId : String}
    {environmentId : Option Uuid} {before after : Option Image} {Q : Log Stmt Resp → Unit → Prop}
    (hs : ∀ auditEntry, P log (.insertAudit auditEntry)) (hQ : ∀ log, Q log ()) :
    Obeys P Q log
      (caller.audit action resourceType resourceId environmentId before after) := by
  apply obeys_adapt
  apply obeys_plain (hs _)
  intro result
  exact hQ _

/-- What passes the check of the handlers is a valid flag. -/
theorem validate_of_evaluable {key offVariant : String} {variants : List Variant}
    {fallthrough : Distribution} {rules : List Rule} {flag : Flag}
    (h : validateEvaluable crates key variants offVariant fallthrough rules = .ok flag) :
    Validate.validate crates (candidate key variants offVariant fallthrough rules) = .ok () ∧
      flag = candidate key variants offVariant fallthrough rules := by
  rw [validateEvaluable] at h
  split at h
  · rename_i hvalid
    cases h
    exact ⟨hvalid, rfl⟩
  · cases h

theorem ok_of_mapError {ε ε' : Type} {r : Except ε α} {f : ε → ε'} {a : α}
    (h : r.mapError f = .ok a) : r = .ok a := by
  cases r with
  | ok b =>
      cases h
      rfl
  | error e => cases h

end

/-! ### The revalidation loop -/

variable {crates}
variable {P : Log Stmt Resp → Stmt → Prop}

/-- One more configuration that was read and checked. -/
theorem AllValid.cons {flag : FlagRow} {variants : List Variant} {log : Log Stmt Resp}
    {environmentId : Uuid} {config : ConfigRow} (h : AllValid crates flag variants log)
    (hconfig : Validate.validate crates (candidate flag.key variants config.offVariant
      config.fallthrough config.rules) = .ok ()) :
    AllValid crates flag variants
      (entry (.selectConfig flag.id environmentId) (.ok (some config)) :: log) := by
  intro environmentId' config' hanswered
  rcases List.mem_cons.mp hanswered with heq | hrest
  · cases heq
    exact hconfig
  · exact h environmentId' config' hrest

/-- After the loop, every listed environment has a valid configuration in the log. -/
theorem obeys_revalidate {flag : FlagRow} {variants : List Variant} (hreads : ∀ log environmentId,
      P log (.selectConfig flag.id environmentId)) :
    ∀ (environments : List EnvironmentRow) {log : Log Stmt Resp}, OnlyReads log →
      AllValid crates flag variants log →
      Obeys P (fun log' _ => log ⊆ log' ∧ OnlyReads log' ∧ AllValid crates flag variants log' ∧
          ∀ environment ∈ environments, ∃ config,
            Answered log' (.selectConfig flag.id environment.id) (some config))
        log (revalidate crates flag variants environments)
  | [], log, honly, hvalid =>
      obeys_pure ⟨List.Subset.refl log, honly, hvalid, fun _ h => by cases h⟩
  | environment :: environments, log, honly, hvalid => by
      apply obeys_storage
      apply obeys_findConfig (hreads _ _)
      intro config
      apply obeys_check
      intro evaluable hevaluable
      have hconfig := (validate_of_evaluable (ok_of_mapError hevaluable)).1
      apply Prog.Obeys.mono _ (obeys_revalidate hreads environments _ (hvalid.cons hconfig))
      · intro log' r hrest u heq
        obtain ⟨hsub, honly', hvalid', hconfigs⟩ := hrest u heq
        rw [List.cons_subset] at hsub
        refine ⟨hsub.2, honly', hvalid', ?_⟩
        intro environment' hmem
        rcases List.mem_cons.mp hmem with rfl | hmem
        · exact ⟨config, hsub.1⟩
        · exact hconfigs environment' hmem
      · intro e he
        rcases List.mem_cons.mp he with rfl | he
        · rfl
        · exact honly e he

/-! ### Every handler keeps the obligations -/

variable {caller : AuthUser}

/-- No obligation on the result. -/
abbrev anyResult {α : Type} : Log Stmt Resp → α → Prop := fun _ _ => True

/-- Projects need no check of flags. -/
theorem createProject_justified (body : CreateProject) :
    Obeys (Justified crates caller (.createProject body)) anyResult [] (createProject caller body) := by
  apply obeys_check
  intro _ _
  apply obeys_check
  intro _ _
  apply obeys_storage
  apply obeys_query trivial
  intro project
  apply obeys_bind
  apply obeys_audit (fun _ => trivial)
  intro _
  exact obeys_pure trivial

theorem deleteProject_justified (projectKey : String) :
    Obeys (Justified crates caller (.deleteProject projectKey)) anyResult []
      (deleteProject caller projectKey) := by
  apply obeys_check
  intro _ _
  apply obeys_storage
  apply obeys_deleteProject trivial
  intro _
  exact obeys_audit (fun _ => trivial) fun _ => trivial

/-- Nor do environments: what is seeded is the database's. -/
theorem createEnvironment_justified (projectKey : String) (body : CreateEnvironment)
    (salt : String) :
    Obeys (Justified crates caller (.createEnvironment projectKey body salt)) anyResult []
      (createEnvironment caller projectKey body salt) := by
  apply obeys_check
  intro _ _
  apply obeys_check
  intro _ _
  apply obeys_storage
  apply obeys_findProject rfl
  intro project
  apply obeys_storage
  apply obeys_query trivial
  intro environment
  apply obeys_bind
  apply obeys_audit (fun _ => trivial)
  intro _
  exact obeys_pure trivial

theorem deleteEnvironment_justified (projectKey environmentKey : String) :
    Obeys (Justified crates caller (.deleteEnvironment projectKey environmentKey)) anyResult []
      (deleteEnvironment caller projectKey environmentKey) := by
  apply obeys_check
  intro _ _
  apply obeys_storage
  apply obeys_findProject rfl
  intro project
  apply obeys_storage
  apply obeys_findEnvironment rfl
  intro environment
  apply obeys_storage
  apply obeys_deleteEnvironment trivial
  intro _
  exact obeys_audit (fun _ => trivial) fun _ => trivial

/-- A flag is created with the variants and the configuration that were checked. -/
theorem createFlag_justified (projectKey : String) (body : CreateFlag) :
    Obeys (Justified crates caller (.createFlag projectKey body)) anyResult []
      (createFlag crates caller projectKey body) := by
  apply obeys_check
  intro _ _
  apply obeys_check
  intro _ _
  apply obeys_storage
  apply obeys_findProject rfl
  intro project
  apply obeys_check
  intro flag hevaluable
  apply obeys_storage
  apply obeys_query (validate_of_evaluable hevaluable).1
  intro row
  apply obeys_bind
  apply obeys_audit (fun _ => trivial)
  intro _
  exact obeys_pure trivial

/-- Replacing variants are checked by reads only. -/
theorem obeys_checkVariants {project : ProjectRow} {existing : FlagRow} {log : Log Stmt Resp}
    (hreads : ∀ log s, s.isRead = true → P log s) (honly : OnlyReads log)
    (hvalid : ∀ variants, AllValid crates existing variants log) :
    ∀ patched : Option (List Variant),
      Obeys P (fun log' _ => log ⊆ log' ∧ OnlyReads log' ∧ ∀ variants, patched = some variants →
          Revalidated crates project existing variants log') log
        (checkVariants crates project existing patched)
  | none => obeys_pure ⟨List.Subset.refl log, honly, fun variants heq => by cases heq⟩
  | some patched => by
      apply obeys_storage
      apply obeys_plain (hreads _ _ rfl)
      intro environments
      apply Prog.Obeys.mono _ (obeys_revalidate (fun _ _ => hreads _ _ rfl) environments ?_ ?_)
      · intro log' r hr u heq
        obtain ⟨hsub, honly', hvalid', hconfigs⟩ := hr u heq
        rw [List.cons_subset] at hsub
        refine ⟨hsub.2, honly', ?_⟩
        intro variants hpatched
        cases hpatched
        exact ⟨honly', ⟨environments, hsub.1, hconfigs⟩, hvalid'⟩
      · intro e he
        rcases List.mem_cons.mp he with rfl | he
        · rfl
        · exact honly e he
      · intro environmentId config hanswered
        rcases List.mem_cons.mp hanswered with heq | hrest
        · cases heq
        · exact hvalid patched environmentId config hrest

/-- The patch goes out after reads only. -/
theorem obeys_updateFlagHandler {projectKey flagKey : String} {body : UpdateFlag}
    (hreads : ∀ log s, s.isRead = true → P log s) (haudit : ∀ log entry, P log (.insertAudit entry))
    (hwrite : ∀ log flagId patch, caller.requireWrite = .ok () → OnlyReads log →
      patch.archived = body.archived →
      PatchChecked crates caller projectKey flagKey body flagId patch log →
      P log (.updateFlag flagId patch)) :
    Obeys P anyResult [] (updateFlag crates caller projectKey flagKey body) := by
  apply obeys_check
  intro _ hallowed
  apply obeys_storage
  apply obeys_findProject (hreads _ _ rfl)
  intro project
  apply obeys_storage
  apply obeys_findFlag (hreads _ _ rfl)
  intro existing
  apply obeys_bind
  apply Prog.Obeys.mono _ (obeys_checkVariants hreads (by simp [OnlyReads, Stmt.isRead])
    (by simp [AllValid, Answered]) body.variants)
  intro log r hchecked u heq
  obtain ⟨hsub, honly, hrevalidated⟩ := hchecked u heq
  apply obeys_storage
  apply obeys_updateFlag
  · exact hwrite _ _ _ hallowed honly rfl
      ⟨rfl, project, existing, hsub (by simp), hsub (by simp), rfl, hrevalidated⟩
  · intro row
    apply obeys_bind
    apply obeys_audit (haudit _)
    intro _
    exact obeys_pure trivial

/-- In a request that patches a flag, reads need no justification. -/
theorem updateFlag_reads {projectKey flagKey : String} {body : UpdateFlag} {log : Log Stmt Resp}
    {s : Stmt} (h : s.isRead = true) :
    Justified crates caller (.updateFlag projectKey flagKey body) log s := by
  cases s <;> first | rfl | cases h

/-- A PATCH of a flag writes what its loop over the environments has checked. -/
theorem updateFlag_justified (projectKey flagKey : String) (body : UpdateFlag) :
    Obeys (Justified crates caller (.updateFlag projectKey flagKey body)) anyResult []
      (updateFlag crates caller projectKey flagKey body) := by
  apply obeys_updateFlagHandler
  · exact fun _ _ => updateFlag_reads
  · exact fun _ _ => trivial
  · exact fun _ _ _ _ _ _ hchecked => hchecked

/-- Deleting a flag leaves no flag to check. -/
theorem deleteFlag_justified (projectKey flagKey : String) :
    Obeys (Justified crates caller (.deleteFlag projectKey flagKey)) anyResult []
      (deleteFlag caller projectKey flagKey) := by
  apply obeys_check
  intro _ _
  apply obeys_storage
  apply obeys_findProject rfl
  intro project
  apply obeys_storage
  apply obeys_deleteFlag rfl (fun _ => rfl) (fun _ => trivial)
  intro _
  exact obeys_audit (fun _ => trivial) fun _ => trivial

/-- A PUT on a configuration writes what it has checked. -/
theorem updateConfig_justified (projectKey environmentKey flagKey : String) (body : UpdateConfig) :
    Obeys (Justified crates caller (.updateConfig projectKey environmentKey flagKey body)) anyResult []
      (updateConfig crates caller projectKey environmentKey flagKey body) := by
  apply obeys_check
  intro _ _
  apply obeys_storage
  apply obeys_findProject rfl
  intro project
  apply obeys_storage
  apply obeys_findEnvironment rfl
  intro environment
  apply obeys_storage
  apply obeys_findFlag rfl
  intro flag
  apply obeys_check
  intro evaluable hevaluable
  obtain ⟨hvalid, rfl⟩ := validate_of_evaluable hevaluable
  apply obeys_storage
  apply obeys_plain rfl
  intro known
  apply obeys_check
  intro _ hreferences
  apply obeys_attempt_findConfig rfl
  intro r image
  apply obeys_storage
  apply obeys_upsertConfig
  · refine ⟨by simp [OnlyReads, Stmt.isRead], ⟨project.id, environmentKey, flagKey,
      environment, flag, ?_, rfl, ?_, rfl, hvalid⟩, ⟨flag.key, flag.variants, known, ?_,
      ok_of_mapError hreferences⟩⟩ <;> simp [Answered]
  · intro row
    apply obeys_bind
    apply obeys_audit (fun _ => trivial)
    intro _
    exact obeys_pure trivial

/-- A new segment is empty. -/
theorem createSegment_justified (projectKey environmentKey : String) (body : CreateSegment) :
    Obeys (Justified crates caller (.createSegment projectKey environmentKey body)) anyResult []
      (createSegment caller projectKey environmentKey body) := by
  apply obeys_check
  intro _ _
  apply obeys_check
  intro _ _
  apply obeys_storage
  apply obeys_findProject rfl
  intro project
  apply obeys_storage
  apply obeys_findEnvironment rfl
  intro environment
  apply obeys_storage
  apply obeys_query trivial
  intro segment
  apply obeys_bind
  apply obeys_audit (fun _ => trivial)
  intro _
  exact obeys_pure trivial

/-- The copy that is validated is the first of the two that are read. -/
theorem updateSegment_justified (projectKey environmentKey segmentKey : String)
    (body : UpdateSegment) :
    Obeys (Justified crates caller (.updateSegment projectKey environmentKey segmentKey body)) anyResult []
      (updateSegment crates caller projectKey environmentKey segmentKey body) := by
  apply obeys_check
  intro _ _
  apply obeys_storage
  apply obeys_findProject rfl
  intro project
  apply obeys_storage
  apply obeys_findEnvironment rfl
  intro environment
  apply obeys_storage
  apply obeys_findSegment rfl
  intro previous
  apply obeys_check
  intro _ hdecidable
  apply obeys_storage
  apply obeys_updateSegment rfl
  · intro current
    exact ⟨previous, by simp [firstSegment], ok_of_mapError hdecidable⟩
  · intro log segment
    apply obeys_bind
    apply obeys_audit (fun _ => trivial)
    intro _
    exact obeys_pure trivial

/-- A segment goes only after the look for references. -/
theorem deleteSegment_justified (projectKey environmentKey segmentKey : String) :
    Obeys (Justified crates caller (.deleteSegment projectKey environmentKey segmentKey)) anyResult []
      (deleteSegment caller projectKey environmentKey segmentKey) := by
  apply obeys_check
  intro _ _
  apply obeys_storage
  apply obeys_findProject rfl
  intro project
  apply obeys_storage
  apply obeys_findEnvironment rfl
  intro environment
  apply obeys_storage
  apply obeys_findSegment rfl
  intro segment
  apply obeys_storage
  apply obeys_deleteSegment rfl answered_head
  intro _
  exact obeys_audit (fun _ => trivial) fun _ => trivial

theorem discard_justified {request : Request} {α : Type} {p : Handler α}
    (h : Obeys (Justified crates caller request) anyResult [] p) :
    Obeys (Justified crates caller request) anyResult [] (handle.discard p) := by
  apply obeys_bind
  apply Prog.Obeys.mono _ h
  intro log r _ a _
  exact obeys_pure trivial

/-- Whatever the request and whatever the answers, no statement goes out unjustified. -/
theorem handle_justified (request : Request) :
    Obeys (Justified crates caller request) anyResult [] (handle crates caller request) := by
  cases request with
  | createProject body => exact discard_justified (createProject_justified body)
  | deleteProject projectKey => exact deleteProject_justified projectKey
  | createEnvironment projectKey body salt =>
      exact discard_justified (createEnvironment_justified projectKey body salt)
  | deleteEnvironment projectKey environmentKey =>
      exact deleteEnvironment_justified projectKey environmentKey
  | createFlag projectKey body => exact discard_justified (createFlag_justified projectKey body)
  | updateFlag projectKey flagKey body =>
      exact discard_justified (updateFlag_justified projectKey flagKey body)
  | deleteFlag projectKey flagKey => exact deleteFlag_justified projectKey flagKey
  | updateConfig projectKey environmentKey flagKey body =>
      exact discard_justified (updateConfig_justified projectKey environmentKey flagKey body)
  | createSegment projectKey environmentKey body =>
      exact discard_justified (createSegment_justified projectKey environmentKey body)
  | updateSegment projectKey environmentKey segmentKey body =>
      exact discard_justified (updateSegment_justified projectKey environmentKey segmentKey body)
  | deleteSegment projectKey environmentKey segmentKey =>
      exact deleteSegment_justified projectKey environmentKey segmentKey

end FlagForge.Api
