/-
Module: FlagForge.Lib.Arithmetic
Layer: Lib
Purpose: The arithmetic a numerical program computes in, as a parameter of the program: binary64 numbers
  when it runs, real numbers when what it computes is to be understood. Quotients and square roots are
  partial, so that a program over the reals shows where it is undefined.
Imports: Mathlib.Analysis.Complex.Exponential, Mathlib.Analysis.Real.Sqrt
Trusted boundary: none
Main exports: Arithmetic, Arithmetic.clamp, Arithmetic.div_real, Arithmetic.sqrt_real
-/
import Mathlib.Analysis.Complex.Exponential
import Mathlib.Analysis.Real.Sqrt

namespace FlagForge

/-- Numbers with the operations of a numerical program; `none` is undefined. -/
class Arithmetic (F : Type) where
  add : F → F → F
  sub : F → F → F
  mul : F → F → F
  neg : F → F
  /-- What a decimal literal stands for. -/
  ofScientific : Nat → Bool → Nat → F
  ofCount : Nat → F
  div : F → F → Option F
  sqrt : F → Option F
  exp : F → F
  abs : F → F
  lt : F → F → Bool
  le : F → F → Bool

namespace Arithmetic

/-! Types with operations of their own keep them. -/

section

variable {F : Type} [Arithmetic F]

instance (priority := low) : Add F :=
  ⟨add⟩

instance (priority := low) : Sub F :=
  ⟨sub⟩

instance (priority := low) : Mul F :=
  ⟨mul⟩

instance (priority := low) : Neg F :=
  ⟨neg⟩

instance (priority := low) : OfScientific F :=
  ⟨ofScientific⟩

end

/-- Binary64 numbers have a value for every quotient and every root, if need be not a number. -/
instance : Arithmetic Float where
  add x y := x + y
  sub x y := x - y
  mul x y := x * y
  neg x := -x
  ofScientific := OfScientific.ofScientific
  ofCount n := Float.ofNat n
  div x y := some (x / y)
  sqrt x := some x.sqrt
  exp := Float.exp
  abs := Float.abs
  lt x y := x < y
  le x y := x ≤ y

noncomputable instance : Arithmetic ℝ where
  add x y := x + y
  sub x y := x - y
  mul x y := x * y
  neg x := -x
  ofScientific := OfScientific.ofScientific
  ofCount n := n
  div x y := if y = 0 then none else some (x / y)
  sqrt x := if x < 0 then none else some √x
  exp := Real.exp
  abs x := |x|
  lt x y := x < y
  le x y := x ≤ y

/-- The nearest number of an interval; an interval that is upside down is a panic. -/
def clamp {F : Type} [Arithmetic F] (x low high : F) : Option F :=
  if le low high then some (if lt x low then low else if lt high x then high else x) else none

/-! ### Real numbers -/

section

variable {x y : ℝ}

/-- Over the reals a quotient by what is not zero is defined. -/
theorem div_real (hy : y ≠ 0) : div x y = some (x / y) :=
  if_neg hy

/-- So is a root of what is not negative. -/
theorem sqrt_real (hx : 0 ≤ x) : sqrt x = some √x :=
  if_neg (not_lt.mpr hx)

theorem lt_real : lt x y = true ↔ x < y :=
  decide_eq_true_iff

theorem le_real : le x y = true ↔ x ≤ y :=
  decide_eq_true_iff

/-- An interval that is not upside down has a nearest number. -/
theorem clamp_real {low high : ℝ} (h : low ≤ high) : ∃ y, clamp x low high = some y :=
  ⟨_, if_pos (le_real.mpr h)⟩

end

end Arithmetic

end FlagForge
