/-
Module: FlagForge.Core.PlainJson
Layer: Core
Purpose: Variant values as plain JSON. A number at the top of a value is kept as a binary64 number,
  and everything inside an object or an array as the tree it is; so a value is served as it was
  entered, except for an integer of more than 53 significant bits that is the whole value.
Imports: FlagForge.Core.WireRoundTrip, FlagForge.Core.Engine, FlagForge.Lib.Rounding
Trusted boundary: none
Main exports: Wire.Same, Wire.RoundTrips, Wire.Exact, Wire.round_trips_iff
-/
import FlagForge.Core.WireRoundTrip
import FlagForge.Core.Engine
import FlagForge.Lib.Rounding

namespace FlagForge.Wire

open Json Engine

/-! ### Equal trees -/

/-- The rational that a number of a JSON text spells. -/
def numeral : JsonNumber → ℚ
  | .posInt n => n.toNat
  | .negInt n _ => n.toInt
  | .float x _ => Binary64.value x

/-- Equal in structure, and numerically where there are numbers. -/
inductive Same : Json → Json → Prop where
  | null : Same .null .null
  | bool (b : Bool) : Same (.bool b) (.bool b)
  | number {m n : JsonNumber} (h : numeral m = numeral n) : Same (.number m) (.number n)
  | string (s : String) : Same (.string s) (.string s)
  | arrayNil : Same (.array []) (.array [])
  | arrayCons {a b : Json} {as bs : List Json} (head : Same a b) (tail : Same (.array as) (.array bs)) :
      Same (.array (a :: as)) (.array (b :: bs))
  | objectNil : Same (.object []) (.object [])
  | objectCons {key : String} {a b : Json} {as bs : List (String × Json)} (head : Same a b)
      (tail : Same (.object as) (.object bs)) :
      Same (.object ((key, a) :: as)) (.object ((key, b) :: bs))

mutual

theorem Same.refl : ∀ j : Json, Same j j
  | .null => .null
  | .bool b => .bool b
  | .number _ => .number rfl
  | .string s => .string s
  | .array items => Same.refl_array items
  | .object fields => Same.refl_object fields

theorem Same.refl_array : ∀ items : List Json, Same (.array items) (.array items)
  | [] => .arrayNil
  | item :: items => .arrayCons (Same.refl item) (Same.refl_array items)

theorem Same.refl_object : ∀ fields : List (String × Json), Same (.object fields) (.object fields)
  | [] => .objectNil
  | (_, value) :: fields => .objectCons (Same.refl value) (Same.refl_object fields)

end

theorem same_number {m n : JsonNumber} : Same (.number m) (.number n) ↔ numeral m = numeral n := by
  constructor
  · rintro ⟨⟩
    assumption
  · exact .number

/-! ### Entering, storing and serving a value -/

/-- The value that a tree is decoded to; no tree is refused. -/
def entered (v : Json) : VariantValue :=
  match v with
  | .bool b => .bool b
  | .number n => .number n.toFloat
  | .string s => .string s
  | v => .json v.toValue

/-- Any JSON is read as a variant value. -/
theorem deVariantValue_eq (v : Json) : deVariantValue v = some (entered v) := by
  cases v <;> rfl

/-- What `value` is written as is the tree that was entered: the fields of an object have no order,
    and of a repeated field the last one counts. -/
def Spells (value : VariantValue) (v : Json) : Prop :=
  Same (serVariantValue value).toValue v.toValue

/-- A tree survives being a variant's value. -/
structure RoundTrips (v : Json) : Prop where
  /-- Decoding accepts it, and writes it back. -/
  plain : ∃ value, deVariantValue v = some value ∧ Spells value v
  /-- Entered for a variant and stored with the flag, it is what evaluation serves. -/
  served : ∀ (key : String) (variant stored : Variant),
    deVariant (.object [("key", .string key), ("value", v)]) = some variant →
    deVariant (serVariant variant) = some stored →
    ∀ (crates : Crates) (flag : Flag) (ctx : EvaluationContext) (env : EvaluationEnv),
      flag.variant key = some stored → (evaluate crates flag ctx env).variant = some key →
      Spells (evaluate crates flag ctx env).value v

/-- The integers that a binary64 number represents exactly, and everything that is not a number. -/
def Exact : Json → Prop
  | .number (.posInt n) => Binary64.Fits n.toNat
  | .number (.negInt n _) => Binary64.Fits n.toInt.natAbs
  | _ => True

/-! ### What a decision serves -/

/-- The value of a decision is that of the variant it names. -/
def ServesVariant (flag : Flag) (e : Evaluation) : Prop :=
  ∀ key, e.variant = some key → ∃ variant, flag.variant key = some variant ∧ e.value = variant.value

theorem servesVariant_degrade (flag : Flag) (message : String) :
    ServesVariant flag (degrade flag message) := by
  intro key h
  cases h

theorem servesVariant_serve (flag : Flag) (key : String) (reason : Reason) :
    ServesVariant flag (serve flag key reason) := by
  cases hvariant : flag.variant key with
  | none =>
      simp only [serve, hvariant]
      exact servesVariant_degrade flag _
  | some variant =>
      intro served h
      have hkey := (Flag.mem_of_variant hvariant).2
      simp only [serve, hvariant, Option.some.injEq] at h ⊢
      exact ⟨variant, by rw [← h, hkey, hvariant], rfl⟩

section Decisions

variable (crates : Crates)

theorem servesVariant_resolveAndServe (flag : Flag) (distribution : Distribution)
    (ctx : EvaluationContext) (salt : String) (reason : Reason) :
    ServesVariant flag (resolveAndServe crates flag distribution ctx salt reason) := by
  rw [resolveAndServe]
  split
  · exact servesVariant_serve flag _ reason
  · exact servesVariant_degrade flag _

theorem servesVariant_evaluateRules (flag : Flag) (ctx : EvaluationContext) (env : EvaluationEnv)
    (index : Nat) (rules : List Rule) :
    ServesVariant flag (evaluateRules crates flag ctx env index rules) := by
  induction rules generalizing index with
  | nil => exact servesVariant_resolveAndServe crates flag _ ctx _ _
  | cons rule rules ih =>
      rw [evaluateRules]
      split
      · exact servesVariant_resolveAndServe crates flag _ ctx _ _
      · exact ih (index + 1)

/-- What an evaluation serves is the value of the variant that it names. -/
theorem servesVariant_evaluate (flag : Flag) (ctx : EvaluationContext) (env : EvaluationEnv) :
    ServesVariant flag (evaluate crates flag ctx env) := by
  rw [evaluate]
  split
  · exact servesVariant_serve flag _ _
  · exact servesVariant_evaluateRules crates flag ctx env 0 flag.rules

end Decisions

/-! ### Which values are spelled back -/

/-- A number comes back as it was if it is a binary64 number. -/
theorem spells_number {n : JsonNumber} :
    Spells (.number n.toFloat) (.number n) ↔ Binary64.value n.toFloat = numeral n := by
  rw [Spells, serVariantValue, serFloat, dif_pos n.isFinite_toFloat]
  exact same_number

/-- The path a tree takes decides: numbers go through binary64, the rest is kept as it is. -/
theorem spells_entered_iff (v : Json) : Spells (entered v) v ↔ Exact v := by
  cases v with
  | null | bool b | string s => exact iff_of_true (Same.refl _) trivial
  | array items | object fields =>
      refine iff_of_true ?_ trivial
      -- a tree kept as a value is written as that value
      change Same (toValue (toValue _)) (toValue _)
      rw [toValue_toValue]
      exact Same.refl _
  | number n =>
      rw [entered, spells_number]
      cases n with
      | posInt n =>
          have hlt := n.toNat_lt
          exact Binary64.value_ofInt_iff (n := n.toNat) (by omega)
      | negInt n negative =>
          have hle := n.le_toInt
          have hlt := n.toInt_lt
          exact Binary64.value_ofInt_iff (n := n.toInt) (by omega)
      | float x finite => exact iff_of_true rfl trivial

theorem deVariant_entered (key : String) (v : Json) :
    deVariant (.object [("key", .string key), ("value", v)]) = some ⟨key, entered v⟩ := by
  rw [deVariant, structFields_object (by simp) (by simp)]
  simp [field, List.lookup_cons, deString, deVariantValue_eq]

/-- A value round-trips exactly when it is not an integer of more than 53 significant bits: such an
    integer is rounded, because a bare number is decoded as a float, while inside an array or an object
    it stays as it was entered. -/
theorem round_trips_iff (v : Json) : RoundTrips v ↔ Exact v := by
  constructor
  · rintro ⟨⟨value, hvalue, hspells⟩, -⟩
    rw [deVariantValue_eq, Option.some.injEq] at hvalue
    rw [← spells_entered_iff, hvalue]
    exact hspells
  · intro hexact
    have hspells := (spells_entered_iff v).mpr hexact
    refine ⟨⟨entered v, deVariantValue_eq v, hspells⟩, ?_⟩
    intro key variant stored hvariant hstored crates flag ctx env hflag hserved
    -- storing the decoded variant and reading it again changes nothing
    have hread := deVariant_ser hvariant
    rw [deVariant_entered, Option.some.injEq] at hvariant
    subst hvariant
    rw [hread, Option.some.injEq] at hstored
    subst hstored
    obtain ⟨served, hfound, hvalue⟩ := servesVariant_evaluate crates flag ctx env key hserved
    rw [hflag, Option.some.injEq] at hfound
    rw [hvalue, ← hfound]
    exact hspells

/-- The first integer that has no binary64 number: an identifier one beyond two to the 53rd. -/
theorem round_trips_not_identifier : ¬ RoundTrips (.number (.posInt 9007199254740993)) := by
  rintro ⟨⟨value, hvalue, hspells⟩, -⟩
  cases hvalue
  have hexact := (spells_entered_iff (.number (.posInt 9007199254740993))).mp hspells
  exact absurd hexact (show ¬ Binary64.Fits 9007199254740993 by decide)

/-- The same integer inside an object is kept. -/
example : Spells (entered (.object [("id", .number (.posInt 9007199254740993))]))
    (.object [("id", .number (.posInt 9007199254740993))]) :=
  (spells_entered_iff _).mpr trivial

end FlagForge.Wire
