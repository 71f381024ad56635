/-
Module: FlagForge.Web.Conditions
Layer: Web
Purpose: The field of the dashboard that holds a condition's values: it shows their texts, and reads
  every piece of the text as a number where it spells one. Values that were strings keep their
  meaning when the field is left as it was exactly when none of them spells a number.
Imports: FlagForge.Core.Validate, FlagForge.Lib.Fields, FlagForge.Lib.DecimalText,
  FlagForge.Lib.FloatOrder
Trusted boundary: none (third-party crates are the parameter `Crates`)
Main exports: Web.valuesText, Web.parseValues, Web.KeepsMeaning, Web.keeps_meaning_iff
-/
import FlagForge.Core.Validate
import FlagForge.Lib.Fields
import FlagForge.Lib.DecimalText
import FlagForge.Lib.FloatOrder

namespace FlagForge.Web

open AttributeValue (toText formatNumber)
open Matcher

/-! ### The field -/

/-- The separator of values. -/
def isComma (c : Char) : Bool :=
  c == ','

/-- What the field shows of a condition's values; a list of values has no text. -/
def valuesText (values : List AttributeValue) : String :=
  ", ".intercalate (values.filterMap toText)

/-- A piece of the text, as the value it is read as. -/
def parsePiece (piece : List Char) : AttributeValue :=
  match Binary64.parse piece with
  | some number => .number number
  | none => .string (String.ofList piece)

/-- The values that a changed field leaves in the condition. -/
def parseValues (raw : String) : List AttributeValue :=
  (Fields.parts isComma Validate.isWhitespace raw.toList).map parsePiece

/-! ### What an untouched text keeps -/

variable (crates : Crates)

/-- The strings can be shown and read back: their texts stay, and so does every condition on them. -/
structure KeepsMeaning (strings : List String) : Prop where
  texts : (parseValues (valuesText (strings.map .string))).map toText = strings.map some
  matching : ∀ (attributeName : String) (operator : Operator) (ctx : EvaluationContext),
    conditionMatches crates
        ⟨attributeName, operator, parseValues (valuesText (strings.map .string))⟩ ctx =
      conditionMatches crates ⟨attributeName, operator, strings.map .string⟩ ctx

/-- A string that the field can hold: not empty, trimmed, and without a comma. -/
def Typable (s : String) : Prop :=
  Fields.Plain isComma Validate.isWhitespace s.toList

instance (s : String) : Decidable (Typable s) :=
  inferInstanceAs (Decidable (Fields.Plain isComma Validate.isWhitespace s.toList))

variable {crates}

/-- The pieces read back are the strings that were shown. -/
theorem parseValues_valuesText {strings : List String} (h : ∀ s ∈ strings, Typable s) :
    parseValues (valuesText (strings.map .string)) = strings.map fun s => parsePiece s.toList := by
  have hshown : (strings.map AttributeValue.string).filterMap toText = strings := by
    rw [List.filterMap_map]
    exact List.filterMap_some
  have hplain : ∀ part ∈ strings.map String.toList, Fields.Plain isComma Validate.isWhitespace part := by
    intro part hpart
    obtain ⟨s, hs, rfl⟩ := List.mem_map.mp hpart
    exact h s hs
  have hparts : Fields.parts isComma Validate.isWhitespace (valuesText (strings.map .string)).toList =
      strings.map String.toList := by
    rw [valuesText, hshown, String.toList_intercalate]
    exact Fields.parts_intercalate ',' [' '] rfl (by simp [Validate.isWhitespace]) (by simp [isComma])
      hplain
  rw [parseValues, hparts, List.map_map]
  rfl

theorem parsePiece_of_none {s : String} (h : Binary64.parse s.toList = none) :
    parsePiece s.toList = .string s := by
  rw [parsePiece, h, String.ofList_toList]

theorem parsePiece_of_some {s : String} {n : Float} (h : Binary64.parse s.toList = some n) :
    parsePiece s.toList = .number n := by
  rw [parsePiece, h]

theorem formatNumber_of_isNaN {n : Float} (h : n.isNaN = true) : formatNumber n = "NaN" := by
  have hnan := Binary64.isNaN_iff.mp h
  simp only [formatNumber, Binary64.toInt?, Binary64.display, hnan]

/-- A context with one number. -/
def measured (n : Float) : EvaluationContext where
  key := "user-1"
  attributes := (∅ : Json.StringMap AttributeValue).insert "amount" (.number n)

/-- A number against a condition's values, for an operator that is not negated. -/
theorem conditionMatches_measured {operator : Operator} {values : List AttributeValue} (n : Float)
    (hoperator : operator = .in ∨ operator = .greaterThanOrEqual) :
    conditionMatches crates ⟨"amount", operator, values⟩ (measured n) =
      values.any fun expected => compare crates operator (.number n) expected := by
  have hpresent : (measured n).attributeOf "amount" = some (.number n) := by
    simp [EvaluationContext.attributeOf, measured]
  rcases hoperator with rfl | rfl
  · cases values <;> simp [conditionMatches, hpresent, positiveCounterpart, Operator.isNegated,
      AttributeValue.scalars]
  · cases values <;> simp [conditionMatches, hpresent, positiveCounterpart, Operator.isNegated,
      AttributeValue.scalars]

/-- No string is a number, so none compares with one. -/
theorem greaterThanOrEqual_strings (n : Float) (strings : List String) :
    (strings.map AttributeValue.string).any
      (fun expected => compare crates .greaterThanOrEqual (.number n) expected) = false := by
  rw [List.any_map, List.any_eq_false]
  intro s _
  simp [Matcher.compare, numericPair, AttributeValue.asF64]

/-- Re-typed as a number, a value begins to compare with numbers. -/
theorem not_keepsMeaning_of_number {strings : List String} (h : ∀ s ∈ strings, Typable s) {s : String}
    (hs : s ∈ strings) {n : Float} (hn : Binary64.parse s.toList = some n)
    (hnumber : n.isNaN = false) : ¬ KeepsMeaning crates strings := by
  intro hkeeps
  have hsame := hkeeps.matching "amount" .greaterThanOrEqual (measured n)
  rw [parseValues_valuesText h, conditionMatches_measured n (.inr rfl),
    conditionMatches_measured n (.inr rfl), greaterThanOrEqual_strings, List.any_map,
    List.any_eq_false] at hsame
  apply hsame s hs
  have hself := Binary64.le_self hnumber
  simpa [parsePiece_of_some hn, Matcher.compare, numericPair, AttributeValue.asF64] using hself

/-- Re-typed as not a number, a value changes its text, or else it no longer equals what it named. -/
theorem not_keepsMeaning_of_isNaN {strings : List String} (h : ∀ s ∈ strings, Typable s) {s : String}
    (hs : s ∈ strings) {n : Float} (hn : Binary64.parse s.toList = some n)
    (hnan : n.isNaN = true) : ¬ KeepsMeaning crates strings := by
  intro hkeeps
  have hformat := formatNumber_of_isNaN hnan
  have htext := hkeeps.texts
  rw [parseValues_valuesText h, List.map_map, List.map_inj_left] at htext
  have hname : s = "NaN" := by
    have hs' := htext s hs
    rw [Function.comp, parsePiece_of_some hn, toText, hformat, Option.some.injEq] at hs'
    exact hs'.symm
  have hsame := hkeeps.matching "amount" .in (measured n)
  rw [parseValues_valuesText h, conditionMatches_measured n (.inl rfl),
    conditionMatches_measured n (.inl rfl)] at hsame
  have hbefore : (strings.map AttributeValue.string).any
      (fun expected => compare crates .in (.number n) expected) = true := by
    rw [List.any_map, List.any_eq_true]
    refine ⟨s, hs, ?_⟩
    simp [Matcher.compare, equals, textPair, AttributeValue.asF64, toText, hformat, hname]
  have hafter : (strings.map fun s => parsePiece s.toList).any
      (fun expected => compare crates .in (.number n) expected) = false := by
    rw [List.any_map, List.any_eq_false]
    intro t _
    cases ht : Binary64.parse t.toList with
    | some m =>
        simp [parsePiece_of_some ht, Matcher.compare, equals, AttributeValue.asF64,
          Binary64.beq_eq_false_of_isNaN hnan]
    | none =>
        have hother : t ≠ s := by
          rintro rfl
          rw [hn] at ht
          cases ht
        rw [hname] at hother
        simp [parsePiece_of_none ht, Matcher.compare, equals, textPair, AttributeValue.asF64, toText, hformat,
          hother.symm]
  rw [hbefore, hafter] at hsame
  cases hsame

/-- Strings that the field can hold keep their meaning exactly when none of them spells a number: a
    spelled number is read back as one, and compared as one. -/
theorem keeps_meaning_iff {strings : List String} (h : ∀ s ∈ strings, Typable s) :
    KeepsMeaning crates strings ↔ ∀ s ∈ strings, Binary64.parse s.toList = none := by
  constructor
  · intro hkeeps s hs
    cases hn : Binary64.parse s.toList with
    | none => rfl
    | some n =>
        cases hnan : n.isNaN with
        | false => exact absurd hkeeps (not_keepsMeaning_of_number h hs hn hnan)
        | true => exact absurd hkeeps (not_keepsMeaning_of_isNaN h hs hn hnan)
  · intro hstrings
    have hread : parseValues (valuesText (strings.map .string)) = strings.map .string := by
      rw [parseValues_valuesText h]
      exact List.map_congr_left fun s hs => parsePiece_of_none (hstrings s hs)
    constructor
    · rw [hread, List.map_map]
      rfl
    · intro attributeName operator ctx
      rw [hread]

/-- Two plan names are kept. -/
theorem keeps_meaning_plans : KeepsMeaning Crates.plain ["pro", "team"] :=
  (keeps_meaning_iff (by decide)).mpr (by decide)

/-! ### Versions -/

/-- Three numbers with points between them. -/
def parseTriple (raw : String) : Option (Nat × Nat × Nat) :=
  match raw.toList.splitOn '.' with
  | [major, minor, patch] =>
      if [major, minor, patch].all fun digits => !digits.isEmpty && digits.all Char.isDigit then
        some (Binary64.digitsValue major, Binary64.digitsValue minor, Binary64.digitsValue patch)
      else none
  | _ => none

/-- The crates on versions without a pre-release or a build. -/
def versioned : Crates where
  regexNew := Crates.plain.regexNew
  Version := Nat × Nat × Nat
  parseVersion := parseTriple
  versionEq a b := a == b
  versionLt a b := decide (a.1 < b.1 ∨ a.1 = b.1 ∧ (a.2.1 < b.2.1 ∨ a.2.1 = b.2.1 ∧ a.2.2 < b.2.2))
  uuidText := Crates.plain.uuidText
  bucket := Crates.plain.bucket
  bucket_lt := Crates.plain.bucket_lt

/-- A client of version 1.10, which a condition on `1.10` no longer finds after its field was left as
    it was: the field made it 1.1. -/
theorem not_keeps_version : ¬ KeepsMeaning versioned ["1.10"] := by
  intro hkeeps
  have hsame := hkeeps.matching "app_version" .semverEqual
    ⟨"user-1", (∅ : Json.StringMap AttributeValue).insert "app_version" (.string "1.10.0")⟩
  revert hsame
  decide +kernel

end FlagForge.Web
