/-
Module: FlagForge.Core.Value
Layer: Core
Purpose: Dynamically typed values used by variants and by evaluation contexts, and their text
  projections. A variant value that is neither a boolean, a number nor a string keeps its JSON tree.
Imports: FlagForge.Lib.Json
Trusted boundary: none
Main exports: VariantValue, AttributeValue, AttributeValue.toText, AttributeValue.scalars
-/
import FlagForge.Lib.Json

namespace FlagForge

open Json (StringMap StringSet)

/-- A UUID, by its 128 bits. -/
structure Uuid where
  bits : BitVec 128
deriving DecidableEq

/-- The nil UUID. -/
def Uuid.nil : Uuid := ⟨0⟩

/-- The payload a flag serves once a variant has been selected. -/
inductive VariantValue where
  | bool (b : Bool)
  | number (n : Float)
  | string (s : String)
  /-- Objects, arrays and `null`. -/
  | json (value : Json)

namespace VariantValue

def null : VariantValue := .json .null

end VariantValue

/-- A value carried by an evaluation context or compared against inside a condition. -/
inductive AttributeValue where
  | bool (b : Bool)
  | number (n : Float)
  | string (s : String)
  /-- A multi-valued attribute, e.g. a user's roles. -/
  | list (items : List AttributeValue)

namespace AttributeValue

def asStr : AttributeValue → Option String
  | .string s => some s
  | _ => none

def asF64 : AttributeValue → Option Float
  | .number n => some n
  | _ => none

/-- Renders a float without a trailing `.0`. The integral case goes through `i64`, so `-0.0` is
    `0`; from `10 ^ 15` on the float spells itself. -/
def formatNumber (n : Float) : String :=
  match Binary64.toInt? n with
  | some i => if i.natAbs < 10 ^ 15 then toString i else Binary64.display n
  | none => Binary64.display n

/-- String projection used by the textual operators; a list has none. -/
def toText : AttributeValue → Option String
  | .string s => some s
  | .bool b => some (toString b)
  | .number n => some (formatNumber n)
  | .list _ => none

/-- Flattens a scalar into a one-element list and a list into its items. -/
def scalars : AttributeValue → List AttributeValue
  | .list items => items
  | other => [other]

/-- Only lists have no text. -/
theorem toText_eq_none_iff {value : AttributeValue} :
    value.toText = none ↔ ∃ items, value = .list items := by
  cases value <;> simp [toText]

end AttributeValue

end FlagForge
