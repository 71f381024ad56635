/-
Module: FlagForge.Core.Wire
Layer: Core
Purpose: The wire format of the model: what serialisation writes and what deserialisation accepts,
  type by type. Untagged values try their cases in order, distributions carry their tag beside
  their fields, and the fields skipped when empty are the ones with a default.
Imports: FlagForge.Core.Snapshot
Trusted boundary: none (the text formats of UUIDs and timestamps are the parameter `TextFormats`)
Main exports: Wire.serFlag, Wire.deFlag, Wire.serSegment, Wire.deSegment, Wire.SnapshotResponse,
  Wire.serSnapshotResponse, Wire.deEnvironmentSnapshot
-/
import FlagForge.Core.Snapshot

namespace FlagForge

open Json

/-- The text formats of third-party types, which parse back what they print. -/
structure TextFormats where
  uuidText : Uuid → String
  parseUuid : String → Option Uuid
  parse_uuidText : ∀ id, parseUuid (uuidText id) = some id
  /-- A timestamp of the `DateTime<Utc>` type. -/
  Time : Type
  timeText : Time → String
  parseTime : String → Option Time
  parse_timeText : ∀ t, parseTime (timeText t) = some t

namespace Wire

/-! ### Values -/

def serVariantValue : VariantValue → Json
  | .bool b => .bool b
  | .number n => serFloat n
  | .string s => .string s
  | .json value => value

/-- Untagged: the first case that accepts the tree. -/
def deVariantValue (j : Json) : Option VariantValue :=
  (deBool j).map .bool <|> (deFloat j).map .number <|> (deString j).map .string <|>
    some (.json j.toValue)

mutual

def serAttributeValue : AttributeValue → Json
  | .bool b => .bool b
  | .number n => serFloat n
  | .string s => .string s
  | .list items => .array (serAttributeValues items)

def serAttributeValues : List AttributeValue → List Json
  | [] => []
  | item :: items => serAttributeValue item :: serAttributeValues items

end

mutual

/-- Untagged: no two cases accept the same tree, and none accepts `null` or an object. -/
def deAttributeValue : Json → Option AttributeValue
  | .bool b => some (.bool b)
  | .number n => some (.number n.toFloat)
  | .string s => some (.string s)
  | .array items => (deAttributeValues items).map .list
  | .null | .object _ => none

def deAttributeValues : List Json → Option (List AttributeValue)
  | [] => some []
  | item :: items => do
      let value ← deAttributeValue item
      let values ← deAttributeValues items
      pure (value :: values)

end

/-! ### Flags -/

def serVariant (v : Variant) : Json :=
  .object [("key", .string v.key), ("value", serVariantValue v.value)]

def deVariant (j : Json) : Option Variant := do
  let fields ← structFields ["key", "value"] j
  let key ← field fields "key" deString
  let value ← field fields "value" deVariantValue
  pure { key, value }

def serWeightedVariant (entry : WeightedVariant) : Json :=
  .object [("variant", .string entry.variant), ("weight", serU32 entry.weight)]

def deWeightedVariant (j : Json) : Option WeightedVariant := do
  let fields ← structFields ["variant", "weight"] j
  let variant ← field fields "variant" deString
  let weight ← field fields "weight" deU32
  pure { variant, weight }

def serDistribution : Distribution → Json
  | .fixed variant => .object [("kind", .string "fixed"), ("variant", .string variant)]
  | .rollout weights bucketBy =>
      .object ([("kind", .string "rollout"), ("weights", serList serWeightedVariant weights)] ++
        skipNone "bucket_by" .string bucketBy)

/-- The fields of the variant a tag names. -/
def deTagged (kind : String) (content : Json) : Option Distribution :=
  match kind with
  | "fixed" => do
      let fields ← structFields ["variant"] content
      let variant ← field fields "variant" deString
      pure (.fixed variant)
  | "rollout" => do
      let fields ← structFields ["weights", "bucket_by"] content
      let weights ← field fields "weights" (deList deWeightedVariant)
      let bucketBy ← fieldOr fields "bucket_by" (deOption deString) none
      pure (.rollout weights bucketBy)
  | _ => none

/-- Internally tagged: the tag is one of the fields, once, or the first element. -/
def deDistribution : Json → Option Distribution
  | .object fields =>
      match fields.filter fun f => f.1 = "kind" with
      | [(_, .string kind)] => deTagged kind (.object (fields.filter fun f => f.1 ≠ "kind"))
      | _ => none
  | .array (.string kind :: items) => deTagged kind (.array items)
  | _ => none

def operatorName : Operator → String
  | .in => "in"
  | .notIn => "not_in"
  | .contains => "contains"
  | .notContains => "not_contains"
  | .startsWith => "starts_with"
  | .endsWith => "ends_with"
  | .greaterThan => "greater_than"
  | .greaterThanOrEqual => "greater_than_or_equal"
  | .lessThan => "less_than"
  | .lessThanOrEqual => "less_than_or_equal"
  | .matches => "matches"
  | .notMatches => "not_matches"
  | .semverEqual => "semver_equal"
  | .semverGreaterThan => "semver_greater_than"
  | .semverLessThan => "semver_less_than"
  | .exists => "exists"
  | .notExists => "not_exists"

def operators : List Operator :=
  [.in, .notIn, .contains, .notContains, .startsWith, .endsWith, .greaterThan, .greaterThanOrEqual,
    .lessThan, .lessThanOrEqual, .matches, .notMatches, .semverEqual, .semverGreaterThan,
    .semverLessThan, .exists, .notExists]

def serOperator (op : Operator) : Json :=
  .string (operatorName op)

/-- A unit variant is its name, or an object of its name and `null`. -/
def deOperator : Json → Option Operator
  | .string name | .object [(name, .null)] => operators.find? fun op => operatorName op = name
  | _ => none

def serCondition (c : Condition) : Json :=
  .object [("attribute", .string c.attributeName), ("operator", serOperator c.operator),
    ("values", serList serAttributeValue c.values)]

def deCondition (j : Json) : Option Condition := do
  let fields ← structFields ["attribute", "operator", "values"] j
  let attributeName ← field fields "attribute" deString
  let operator ← field fields "operator" deOperator
  let values ← fieldOr fields "values" (deList deAttributeValue) []
  pure { attributeName, operator, values }

def serSegmentMatch (required : SegmentMatch) : Json :=
  .object ([("any_of", serList .string required.anyOf)] ++
    skipEmpty "none_of" .string required.noneOf)

def deSegmentMatch (j : Json) : Option SegmentMatch := do
  let fields ← structFields ["any_of", "none_of"] j
  let anyOf ← fieldOr fields "any_of" (deList deString) []
  let noneOf ← fieldOr fields "none_of" (deList deString) []
  pure { anyOf, noneOf }

variable (formats : TextFormats)

def serUuid (id : Uuid) : Json :=
  .string (formats.uuidText id)

def deUuid (j : Json) : Option Uuid :=
  (deString j).bind formats.parseUuid

def serRule (rule : Rule) : Json :=
  .object ([("id", serUuid formats rule.id)] ++
    skipNone "description" .string rule.description ++
    [("conditions", serList serCondition rule.conditions)] ++
    skipNone "segments" serSegmentMatch rule.segments ++
    [("distribution", serDistribution rule.distribution)])

def deRule (j : Json) : Option Rule := do
  let fields ← structFields ["id", "description", "conditions", "segments", "distribution"] j
  let id ← field fields "id" (deUuid formats)
  let description ← fieldOr fields "description" (deOption deString) none
  let conditions ← fieldOr fields "conditions" (deList deCondition) []
  let segments ← fieldOr fields "segments" (deOption deSegmentMatch) none
  let distribution ← field fields "distribution" deDistribution
  pure { id, description, conditions, segments, distribution }

def serFlag (flag : Flag) : Json :=
  .object [("key", .string flag.key), ("variants", serList serVariant flag.variants),
    ("enabled", .bool flag.enabled), ("off_variant", .string flag.offVariant),
    ("fallthrough", serDistribution flag.fallthrough),
    ("rules", serList (serRule formats) flag.rules), ("version", serI64 flag.version)]

def deFlag (j : Json) : Option Flag := do
  let fields ← structFields
    ["key", "variants", "enabled", "off_variant", "fallthrough", "rules", "version"] j
  let key ← field fields "key" deString
  let variants ← field fields "variants" (deList deVariant)
  let enabled ← field fields "enabled" deBool
  let offVariant ← field fields "off_variant" deString
  let fallthrough ← field fields "fallthrough" deDistribution
  let rules ← fieldOr fields "rules" (deList (deRule formats)) []
  let version ← fieldOr fields "version" deI64 0
  pure { key, variants, enabled, offVariant, fallthrough, rules, version }

/-! ### Segments and experiments -/

def serSegmentRollout (rollout : SegmentRollout) : Json :=
  .object ([("percentage", serU32 rollout.percentage)] ++
    skipNone "bucket_by" .string rollout.bucketBy)

def deSegmentRollout (j : Json) : Option SegmentRollout := do
  let fields ← structFields ["percentage", "bucket_by"] j
  let percentage ← field fields "percentage" deU32
  let bucketBy ← fieldOr fields "bucket_by" (deOption deString) none
  pure { percentage, bucketBy }

def serSegmentRule (rule : SegmentRule) : Json :=
  .object ([("id", serUuid formats rule.id)] ++
    skipNone "description" .string rule.description ++
    [("conditions", serList serCondition rule.conditions)] ++
    skipNone "rollout" serSegmentRollout rule.rollout)

def deSegmentRule (j : Json) : Option SegmentRule := do
  let fields ← structFields ["id", "description", "conditions", "rollout"] j
  let id ← field fields "id" (deUuid formats)
  let description ← fieldOr fields "description" (deOption deString) none
  let conditions ← fieldOr fields "conditions" (deList deCondition) []
  let rollout ← fieldOr fields "rollout" (deOption deSegmentRollout) none
  pure { id, description, conditions, rollout }

def serSegment (segment : Segment) : Json :=
  .object ([("key", .string segment.key)] ++
    skipNone "description" .string segment.description ++
    skipEmptySet "included" segment.included ++
    skipEmptySet "excluded" segment.excluded ++
    [("rules", serList (serSegmentRule formats) segment.rules),
      ("version", serI64 segment.version)])

def deSegment (j : Json) : Option Segment := do
  let fields ← structFields ["key", "description", "included", "excluded", "rules", "version"] j
  let key ← field fields "key" deString
  let description ← fieldOr fields "description" (deOption deString) none
  let included ← fieldOr fields "included" deSet ∅
  let excluded ← fieldOr fields "excluded" deSet ∅
  let rules ← fieldOr fields "rules" (deList (deSegmentRule formats)) []
  let version ← fieldOr fields "version" deI64 0
  pure { key, description, included, excluded, rules, version }

def serExperimentSpec (e : ExperimentSpec) : Json :=
  .object [("key", .string e.key), ("flag_key", .string e.flagKey),
    ("metric_key", .string e.metricKey), ("control_variant", .string e.controlVariant),
    ("version", serI64 e.version)]

def deExperimentSpec (j : Json) : Option ExperimentSpec := do
  let fields ← structFields ["key", "flag_key", "metric_key", "control_variant", "version"] j
  let key ← field fields "key" deString
  let flagKey ← field fields "flag_key" deString
  let metricKey ← field fields "metric_key" deString
  let controlVariant ← field fields "control_variant" deString
  let version ← fieldOr fields "version" deI64 0
  pure { key, flagKey, metricKey, controlVariant, version }

/-! ### Snapshots

The server writes a `SnapshotResponse`, which discloses the salt; the SDK reads the engine's own
snapshot type from it. -/

/-- Everything a server-side SDK needs to evaluate locally. -/
structure SnapshotResponse where
  environmentId : Uuid
  environmentKey : String
  salt : String
  flags : StringMap Flag
  segments : SegmentSet
  experiments : List ExperimentSpec
  version : Int64
  generatedAt : formats.Time

/-- The body of the `/snapshot` handler, from the cached snapshot. -/
def snapshotResponse (s : EnvironmentSnapshot formats.Time) : SnapshotResponse formats where
  environmentId := s.environmentId
  environmentKey := s.environmentKey
  salt := s.salt
  flags := s.flags
  segments := s.segments
  experiments := s.experiments
  version := s.version
  generatedAt := s.generatedAt

def serSnapshotResponse (r : SnapshotResponse formats) : Json :=
  .object [("environment_id", serUuid formats r.environmentId),
    ("environment_key", .string r.environmentKey), ("salt", .string r.salt),
    ("flags", serMap (serFlag formats) r.flags),
    ("segments", serMap (serSegment formats) r.segments),
    ("experiments", serList serExperimentSpec r.experiments), ("version", serI64 r.version),
    ("generated_at", .string (formats.timeText r.generatedAt))]

/-- What the SDK makes of the body. The salt has a default, since the type skips it when written. -/
def deEnvironmentSnapshot (j : Json) : Option (EnvironmentSnapshot formats.Time) := do
  let fields ← structFields ["environment_id", "environment_key", "salt", "flags", "segments",
    "experiments", "version", "generated_at"] j
  let environmentId ← field fields "environment_id" (deUuid formats)
  let environmentKey ← field fields "environment_key" deString
  let salt ← fieldOr fields "salt" deString ""
  let flags ← field fields "flags" (deMap (deFlag formats))
  let segments ← fieldOr fields "segments" (deMap (deSegment formats)) ∅
  let experiments ← fieldOr fields "experiments" (deList deExperimentSpec) []
  let version ← field fields "version" deI64
  let generatedAt ← field fields "generated_at" fun j => (deString j).bind formats.parseTime
  pure { environmentId, environmentKey, salt, flags, segments, experiments, version, generatedAt }

end Wire

end FlagForge
