/-
Module: FlagForge.Core.WireRoundTrip
Layer: Core
Purpose: What was decoded once is decoded again from what serialisation writes of it, type by type
  up to the snapshot: so an SDK that reads the server's snapshot holds the server's snapshot, and
  evaluates every flag as the server does.
Imports: FlagForge.Core.Wire
Trusted boundary: none
Main exports: Wire.DecodedSnapshot, Wire.sdk_agrees
-/
import FlagForge.Core.Wire

namespace FlagForge.Wire

open Json

/-! ### Values -/

/-- A decoded variant value reads back. A tree that none of the typed cases accepts was kept as a
    value, and reading a value as a value changes nothing. -/
theorem deVariantValue_ser {j : Json} {v : VariantValue} (h : deVariantValue j = some v) :
    deVariantValue (serVariantValue v) = some v := by
  cases j with
  | bool b | string s | null =>
      cases h
      rfl
  | number n =>
      cases h
      rw [serVariantValue, serFloat, dif_pos n.isFinite_toFloat]
      rfl
  | array items | object fields =>
      cases h
      rw [serVariantValue]
      conv => rhs; rw [← toValue_toValue]
      rfl

mutual

/-- A decoded attribute value reads back. -/
theorem deAttributeValue_ser : ∀ {j : Json} {v : AttributeValue}, deAttributeValue j = some v →
    deAttributeValue (serAttributeValue v) = some v
  | .bool _, _, h => by
      cases h
      rfl
  | .number n, _, h => by
      cases h
      rw [serAttributeValue, serFloat, dif_pos n.isFinite_toFloat]
      rfl
  | .string _, _, h => by
      cases h
      rfl
  | .array items, v, h => by
      rw [deAttributeValue] at h
      obtain ⟨values, hvalues, rfl⟩ := Option.map_eq_some_iff.mp h
      rw [serAttributeValue, deAttributeValue, deAttributeValues_ser hvalues, Option.map_some]
  | .null, _, h => by cases h
  | .object _, _, h => by cases h

theorem deAttributeValues_ser : ∀ {js : List Json} {vs : List AttributeValue},
    deAttributeValues js = some vs → deAttributeValues (serAttributeValues vs) = some vs
  | [], _, h => by
      cases h
      rfl
  | j :: js, vs, h => by
      simp only [deAttributeValues, Option.bind_eq_bind, Option.bind_eq_some_iff, Option.pure_def,
        Option.some.injEq] at h
      obtain ⟨value, hvalue, values, hvalues, rfl⟩ := h
      simp only [serAttributeValues, deAttributeValues, deAttributeValue_ser hvalue,
        deAttributeValues_ser hvalues, Option.bind_eq_bind, Option.bind_some, Option.pure_def]

end

/-! ### Records

Each proof inverts the reader into its fields, and reads the written fields again: a field is found
under its name, a skipped one takes its default. -/

/-- The value of a field that was read, or its default, reads back from what is written of it. -/
theorem reads_of_fieldOr {α : Type} {fields : List (String × Json)} {name : String}
    {ser : α → Json} {de : Json → Option α} {default a : α}
    (hde : ∀ {j : Json} {a : α}, de j = some a → de (ser a) = some a)
    (hdefault : de (ser default) = some default)
    (h : fieldOr fields name de default = some a) : de (ser a) = some a := by
  rcases exists_of_fieldOr h with rfl | ⟨j, hj⟩
  · exact hdefault
  · exact hde hj

/-- A variant that was read is read back. -/
theorem deVariant_ser {j : Json} {v : Variant} (h : deVariant j = some v) :
    deVariant (serVariant v) = some v := by
  simp only [deVariant, Option.bind_eq_bind, Option.bind_eq_some_iff, Option.pure_def,
    Option.some.injEq] at h
  obtain ⟨fields, _, key, _, value, hvalue, rfl⟩ := h
  obtain ⟨j', hj'⟩ := exists_of_field hvalue
  have hread := deVariantValue_ser hj'
  rw [deVariant, serVariant, structFields_object (by simp) (by simp)]
  simp [field, List.lookup_cons, deString, hread]

@[simp] theorem deWeightedVariant_ser (entry : WeightedVariant) :
    deWeightedVariant (serWeightedVariant entry) = some entry := by
  rw [deWeightedVariant, serWeightedVariant, structFields_object (by simp) (by simp)]
  simp [field, List.lookup_cons, deString]

@[simp] theorem deDistribution_ser (d : Distribution) :
    deDistribution (serDistribution d) = some d := by
  cases d with
  | fixed variant =>
      have hfields : structFields ["variant"] (.object [("variant", .string variant)]) =
          some [("variant", .string variant)] :=
        structFields_object (by simp) (by simp)
      simp [serDistribution, deDistribution, deTagged, hfields, field, deString]
  | rollout weights bucketBy =>
      have hweights : deList deWeightedVariant (serList serWeightedVariant weights) = some weights :=
        deList_serList fun entry _ => deWeightedVariant_ser entry
      have hfields : structFields ["weights", "bucket_by"]
          (.object (("weights", serList serWeightedVariant weights) ::
            skipNone "bucket_by" .string bucketBy)) =
          some (("weights", serList serWeightedVariant weights) ::
            skipNone "bucket_by" .string bucketBy) :=
        structFields_object (by cases bucketBy <;> simp [skipNone]) (by simp)
      cases bucketBy <;>
        simp_all [serDistribution, deDistribution, deTagged, field, fieldOr, List.lookup_cons, skipNone]

@[simp] theorem deOperator_ser (op : Operator) : deOperator (serOperator op) = some op := by
  cases op <;> decide

/-- So is a condition. -/
theorem deCondition_ser {j : Json} {c : Condition} (h : deCondition j = some c) :
    deCondition (serCondition c) = some c := by
  simp only [deCondition, Option.bind_eq_bind, Option.bind_eq_some_iff, Option.pure_def,
    Option.some.injEq] at h
  obtain ⟨fields, _, attributeName, _, operator, _, values, hvalues, rfl⟩ := h
  have hread : deList deAttributeValue (serList serAttributeValue values) = some values :=
    reads_of_fieldOr (deList_serList_of_de deAttributeValue_ser) rfl hvalues
  rw [deCondition, serCondition, structFields_object (by simp) (by simp)]
  simp [field, fieldOr, List.lookup_cons, deString, hread]

@[simp] theorem deSegmentMatch_ser (required : SegmentMatch) :
    deSegmentMatch (serSegmentMatch required) = some required := by
  obtain ⟨anyOf, noneOf⟩ := required
  have hread : ∀ items : List String, deList deString (serList .string items) = some items :=
    fun items => deList_serList fun _ _ => rfl
  rw [deSegmentMatch, serSegmentMatch,
    structFields_object (by cases noneOf <;> simp [skipEmpty]) (by simp)]
  cases noneOf <;> simp [fieldOr, List.lookup_cons, skipEmpty, hread]

@[simp] theorem deSegmentRollout_ser (rollout : SegmentRollout) :
    deSegmentRollout (serSegmentRollout rollout) = some rollout := by
  obtain ⟨percentage, bucketBy⟩ := rollout
  rw [deSegmentRollout, serSegmentRollout,
    structFields_object (by cases bucketBy <;> simp [skipNone]) (by simp)]
  cases bucketBy <;> simp [field, fieldOr, List.lookup_cons, skipNone]

@[simp] theorem deExperimentSpec_ser (e : ExperimentSpec) :
    deExperimentSpec (serExperimentSpec e) = some e := by
  rw [deExperimentSpec, serExperimentSpec, structFields_object (by simp) (by simp)]
  simp [field, fieldOr, List.lookup_cons, deString]

variable (formats : TextFormats)

@[simp] theorem deUuid_ser (id : Uuid) : deUuid formats (serUuid formats id) = some id :=
  formats.parse_uuidText id

/-- The object written of a decoded segment requirement is not `null`, so it reads as present. -/
theorem deOption_serSegmentMatch (required : SegmentMatch) :
    deOption deSegmentMatch (serSegmentMatch required) = some (some required) := by
  have h := deSegmentMatch_ser required
  rw [serSegmentMatch] at h ⊢
  rw [deOption_object, h, Option.map_some]

theorem deOption_serSegmentRollout (rollout : SegmentRollout) :
    deOption deSegmentRollout (serSegmentRollout rollout) = some (some rollout) := by
  have h := deSegmentRollout_ser rollout
  rw [serSegmentRollout] at h ⊢
  rw [deOption_object, h, Option.map_some]

/-- A rule that was read is read back, fields that were skipped included. -/
theorem deRule_ser {j : Json} {rule : Rule} (h : deRule formats j = some rule) :
    deRule formats (serRule formats rule) = some rule := by
  simp only [deRule, Option.bind_eq_bind, Option.bind_eq_some_iff, Option.pure_def,
    Option.some.injEq] at h
  obtain ⟨fields, _, id, _, description, _, conditions, hconditions, segments, _, distribution, _,
    rfl⟩ := h
  have hread : deList deCondition (serList serCondition conditions) = some conditions :=
    reads_of_fieldOr (deList_serList_of_de deCondition_ser) rfl hconditions
  rw [deRule, serRule, structFields_object
    (by cases description <;> cases segments <;> simp [skipNone]) (by simp)]
  cases description <;> cases segments <;>
    simp [field, fieldOr, List.lookup_cons, skipNone, hread,
      deOption_serSegmentMatch]

/-- So is a flag. -/
theorem deFlag_ser {j : Json} {flag : Flag} (h : deFlag formats j = some flag) :
    deFlag formats (serFlag formats flag) = some flag := by
  simp only [deFlag, Option.bind_eq_bind, Option.bind_eq_some_iff, Option.pure_def,
    Option.some.injEq] at h
  obtain ⟨fields, _, key, _, variants, hvariants, enabled, _, offVariant, _, fallthrough, _, rules,
    hrules, version, _, rfl⟩ := h
  obtain ⟨j', hj'⟩ := exists_of_field hvariants
  have hreadVariants : deList deVariant (serList serVariant variants) = some variants :=
    deList_serList_of_de deVariant_ser hj'
  have hreadRules : deList (deRule formats) (serList (serRule formats) rules) = some rules :=
    reads_of_fieldOr (deList_serList_of_de (deRule_ser formats)) rfl hrules
  rw [deFlag, serFlag, structFields_object (by simp) (by simp)]
  simp [field, fieldOr, List.lookup_cons, deString, deBool, hreadVariants, hreadRules]

theorem deSegmentRule_ser {j : Json} {rule : SegmentRule} (h : deSegmentRule formats j = some rule) :
    deSegmentRule formats (serSegmentRule formats rule) = some rule := by
  simp only [deSegmentRule, Option.bind_eq_bind, Option.bind_eq_some_iff, Option.pure_def,
    Option.some.injEq] at h
  obtain ⟨fields, _, id, _, description, _, conditions, hconditions, rollout, _, rfl⟩ := h
  have hread : deList deCondition (serList serCondition conditions) = some conditions :=
    reads_of_fieldOr (deList_serList_of_de deCondition_ser) rfl hconditions
  rw [deSegmentRule, serSegmentRule, structFields_object
    (by cases description <;> cases rollout <;> simp [skipNone]) (by simp)]
  cases description <;> cases rollout <;>
    simp [field, fieldOr, List.lookup_cons, skipNone, hread,
      deOption_serSegmentRollout]

/-- An empty set is left out. -/
theorem skipEmptySet_eq (name : String) (s : StringSet) :
    skipEmptySet name s = if s = ∅ then [] else [(name, serSet s)] := by
  simp only [skipEmptySet, Std.ExtTreeSet.isEmpty_iff]

/-- And a segment, sets that were skipped because they are empty included. -/
theorem deSegment_ser {j : Json} {segment : Segment} (h : deSegment formats j = some segment) :
    deSegment formats (serSegment formats segment) = some segment := by
  simp only [deSegment, Option.bind_eq_bind, Option.bind_eq_some_iff, Option.pure_def,
    Option.some.injEq] at h
  obtain ⟨fields, _, key, _, description, _, included, _, excluded, _, rules, hrules, version, _,
    rfl⟩ := h
  have hread : deList (deSegmentRule formats) (serList (serSegmentRule formats) rules) =
      some rules :=
    reads_of_fieldOr (deList_serList_of_de (deSegmentRule_ser formats)) rfl hrules
  rw [deSegment, serSegment, structFields_object
    (by
      cases description <;> simp only [skipNone, skipEmptySet] <;> split <;> split <;>
        simp only [List.map_append, List.map_cons, List.map_nil] <;> decide) (by simp)]
  cases description <;> by_cases hin : included = ∅ <;> by_cases hex : excluded = ∅ <;>
    simp [field, fieldOr, List.lookup_cons, skipNone, skipEmptySet_eq, deString, hread, hin, hex]

/-! ### Snapshots -/

/-- A snapshot whose flags, segments and experiments were decoded from JSON. -/
structure DecodedSnapshot (s : EnvironmentSnapshot formats.Time) : Prop where
  flags : ∀ (key : String) flag, s.flags[key]? = some flag → ∃ j, deFlag formats j = some flag
  segments : ∀ (key : String) segment, s.segments[key]? = some segment →
    ∃ j, deSegment formats j = some segment
  experiments : ∀ e ∈ s.experiments, ∃ j, deExperimentSpec j = some e

/-- The SDK and the server agree: what the SDK reads from the server's response is the server's
    snapshot, so both evaluate every key, known or unknown, alike. -/
theorem sdk_agrees {s : EnvironmentSnapshot formats.Time} (h : DecodedSnapshot formats s) :
    ∃ sdk, deEnvironmentSnapshot formats (serSnapshotResponse formats (snapshotResponse formats s)) =
        some sdk ∧
      sdk = s ∧
      ∀ (crates : Crates) (flagKey : String) (ctx : EvaluationContext) (fallback : VariantValue),
        sdk.evaluate crates flagKey ctx fallback = s.evaluate crates flagKey ctx fallback := by
  refine ⟨s, ?_, rfl, fun _ _ _ _ => rfl⟩
  have hflags : deMap (deFlag formats) (serMap (serFlag formats) s.flags) = some s.flags :=
    deMap_serMap fun key flag hget => by
      obtain ⟨j, hj⟩ := h.flags key flag hget
      exact deFlag_ser formats hj
  have hsegments : deMap (deSegment formats) (serMap (serSegment formats) s.segments) =
      some s.segments :=
    deMap_serMap fun key segment hget => by
      obtain ⟨j, hj⟩ := h.segments key segment hget
      exact deSegment_ser formats hj
  have hexperiments : deList deExperimentSpec (serList serExperimentSpec s.experiments) =
      some s.experiments :=
    deList_serList fun e _ => deExperimentSpec_ser e
  rw [deEnvironmentSnapshot, serSnapshotResponse, snapshotResponse,
    structFields_object (by simp) (by simp)]
  simp [field, fieldOr, List.lookup_cons, deString, hflags, hsegments, hexperiments,
    formats.parse_timeText]

/-! ### The hyphenated spelling -/

/-- The last `k` hexadecimal digits of `n`, hyphens before digits 8, 12, 16 and 20. -/
def hyphenated : Nat → Nat → List Char
  | 0, _ => []
  | k + 1, n =>
      hyphenated k (n / 16) ++
        ((if k ∈ [8, 12, 16, 20] then ['-'] else []) ++ [Nat.digitChar (n % 16)])

def hexValue (c : Char) : Nat :=
  if c.isDigit then c.toNat - 48 else c.toNat - 87

/-- The number spelled by hexadecimal digits; hyphens are passed over. -/
def readHex (chars : List Char) : Nat :=
  chars.foldl (fun acc c => if c = '-' then acc else 16 * acc + hexValue c) 0

theorem hexValue_digitChar : ∀ d < 16,
    hexValue (Nat.digitChar d) = d ∧ Nat.digitChar d ≠ '-' := by
  decide

/-- Reading the digits gives the number back, hyphens or not. -/
theorem readHex_hyphenated (k n : Nat) : readHex (hyphenated k n) = n % 16 ^ k := by
  induction k generalizing n with
  | zero => simp [hyphenated, readHex, Nat.mod_one]
  | succ k ih =>
      obtain ⟨hvalue, hhyphen⟩ := hexValue_digitChar (n % 16) (Nat.mod_lt _ (by decide))
      have hstep : readHex (hyphenated (k + 1) n) = 16 * readHex (hyphenated k (n / 16)) + n % 16 := by
        simp only [hyphenated, readHex, List.foldl_append, List.foldl_cons, List.foldl_nil,
          if_neg hhyphen, hvalue]
        split <;> rfl
      rw [hstep, ih, Nat.pow_succ, Nat.mul_comm (16 ^ k), Nat.mod_mul, Nat.add_comm]

/-- UUIDs in hyphenated lower case, and the one instant of a snapshot. -/
def hyphenatedFormats : TextFormats where
  uuidText id := String.ofList (hyphenated 32 id.bits.toNat)
  parseUuid text := some ⟨BitVec.ofNat 128 (readHex text.toList)⟩
  parse_uuidText id := by
    have hlt : id.bits.toNat < 16 ^ 32 := id.bits.isLt
    rw [String.toList_ofList, readHex_hyphenated, Nat.mod_eq_of_lt hlt, BitVec.ofNat_toNat,
      BitVec.setWidth_eq]
  Time := Unit
  timeText _ := "2026-01-01T00:00:00Z"
  parseTime _ := some ()
  parse_timeText _ := rfl

/-- A flag that skips what can be skipped, serves an object, and asks for a list of roles. -/
def themeFlag : Flag where
  key := "theme"
  variants := [⟨"dark", .json (.object [("accent", .null)])⟩]
  enabled := true
  offVariant := "dark"
  fallthrough := .rollout [⟨"dark", 100000⟩] none
  rules := [⟨.nil, none, [⟨"roles", .in, [.list [.string "admin", .bool true]]⟩],
    some ⟨[], ["staff"]⟩, .fixed "dark"⟩]
  version := 3

/-- A snapshot of that flag, decoded from what is written of it. -/
theorem sdk_agrees_theme :
    ∃ sdk, deEnvironmentSnapshot hyphenatedFormats (serSnapshotResponse hyphenatedFormats
        (snapshotResponse hyphenatedFormats (.new .nil "production" "salt" [themeFlag] [] ()))) =
        some sdk ∧
      sdk = .new .nil "production" "salt" [themeFlag] [] () ∧
      ∀ (crates : Crates) (flagKey : String) (ctx : EvaluationContext) (fallback : VariantValue),
        sdk.evaluate crates flagKey ctx fallback =
          (EnvironmentSnapshot.new .nil "production" "salt" [themeFlag] [] ()).evaluate crates
            flagKey ctx fallback :=
  sdk_agrees hyphenatedFormats {
    flags := fun key flag h => by
      have hmem := mem_toList_ofList
        (Std.ExtTreeMap.mem_toList_iff_getElem?_eq_some.mpr h)
      simp only [List.map_cons, List.map_nil, List.mem_singleton, Prod.mk.injEq] at hmem
      obtain ⟨-, rfl⟩ := hmem
      exact ⟨serFlag hyphenatedFormats themeFlag, by rfl⟩
    segments := fun key segment h => by
      simpa using mem_toList_ofList
        (Std.ExtTreeMap.mem_toList_iff_getElem?_eq_some.mpr h)
    experiments := fun e he => by cases he }

end FlagForge.Wire
