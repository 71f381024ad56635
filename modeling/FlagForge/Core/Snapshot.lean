/-
Module: FlagForge.Core.Snapshot
Layer: Core
Purpose: An immutable, self-contained view of one environment: the flags, the segments their rules
  reference, the running experiments and the environment salt.
Imports: FlagForge.Core.Engine
Trusted boundary: none
Main exports: EnvironmentSnapshot, EnvironmentSnapshot.new, EnvironmentSnapshot.withExperiments,
  EnvironmentSnapshot.evaluate
-/
import FlagForge.Core.Engine

namespace FlagForge

open Json (StringMap)
open Engine (Evaluation)

/-- The part of an experiment an SDK needs. -/
structure ExperimentSpec where
  key : String
  /-- The flag whose variants are being compared. -/
  flagKey : String
  /-- Conversion events with this metric key count toward the experiment. -/
  metricKey : String
  /-- The baseline variant every other variant is compared against. -/
  controlVariant : String
  version : Int64
deriving DecidableEq

/-- One environment as the API keeps it in memory, `Time` being its timestamps. -/
structure EnvironmentSnapshot (Time : Type) where
  environmentId : Uuid
  environmentKey : String
  /-- Per-environment bucketing salt. Never serialized. -/
  salt : String
  flags : StringMap Flag
  segments : SegmentSet
  /-- The experiments currently running. -/
  experiments : List ExperimentSpec
  /-- Highest `version` across flags, segments and running experiments, an ETag-style cache token. -/
  version : Int64
  generatedAt : Time

namespace EnvironmentSnapshot

variable {Time : Type}

def new (environmentId : Uuid) (environmentKey salt : String) (flags : List Flag)
    (segments : List Segment) (generatedAt : Time) : EnvironmentSnapshot Time :=
  let flags : StringMap Flag := .ofList (flags.map fun f => (f.key, f)) compare
  let segments : SegmentSet := .ofList (segments.map fun s => (s.key, s)) compare
  let version :=
    ((flags.toList.map (·.2.version) ++ segments.toList.map (·.2.version)).max?).getD 0
  { environmentId, environmentKey, salt, flags, segments, experiments := [], version, generatedAt }

/-- Attaches the running experiments, folding their versions into the snapshot's. -/
def withExperiments (s : EnvironmentSnapshot Time) (experiments : List ExperimentSpec) :
    EnvironmentSnapshot Time :=
  { s with
    version := ((experiments.map ExperimentSpec.version ++ [s.version]).max?).getD 0
    experiments := experiments }

/-- The environment half of an evaluation. -/
def env (s : EnvironmentSnapshot Time) : EvaluationEnv :=
  ⟨s.salt, s.segments⟩

/-- Evaluates one flag. Unknown keys resolve to `fallback` rather than an error. -/
def evaluate (crates : Crates) (s : EnvironmentSnapshot Time) (flagKey : String)
    (ctx : EvaluationContext) (fallback : VariantValue) : Evaluation :=
  match s.flags[flagKey]? with
  | some flag => Engine.evaluate crates flag ctx s.env
  | none => .notFound flagKey fallback

end EnvironmentSnapshot

end FlagForge
