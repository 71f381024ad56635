/-
Module: FlagForge.Lib.Binary64
Layer: Lib
Purpose: Facts about IEEE 754 binary64 numbers that programs exchanging them as text rely on:
  integers convert by rounding to nearest and never overflow, a finite number knows whether it is
  integral, and its shortest decimal spelling. The format itself is the logical model of `Float`.
Imports: Mathlib.Algebra.GroupWithZero.Nat, Mathlib.Data.Nat.Bits, Mathlib.Data.Nat.Log
Trusted boundary: none
Main exports: Binary64.ofInt, Binary64.isFinite_ofInt, Binary64.toInt?, Binary64.display
-/
import Mathlib.Algebra.GroupWithZero.Nat
import Mathlib.Data.Nat.Bits
import Mathlib.Data.Nat.Log

namespace FlagForge.Binary64

open Float.Model (UnpackedFloat Format)
open Float.Model.UnpackedFloat

/-- The number nearest to an integer, ties to even. -/
def ofInt (n : Int) : Float :=
  .ofModel (.ofInt n)

/-! ### Integers of machine size convert to finite numbers

The exponent of the rounded number is bounded by the width of the integer; only an exponent beyond
the format's range is packed as an infinity. The bounds are crude on purpose: a 64-bit integer is
nowhere near the largest exponent. -/

theorem mantissaBits_eq : Format.binary64.mantissaBits = 53 :=
  rfl

/-- The bits of a finite number are those of an infinity only when its exponent is too high. -/
theorem pack_finite {s : Sign} {m : Nat} {e : Int} {hm : 0 < m}
    (hfit : (e + 1075).toNat + 1 < 2 ^ 11) :
    UnpackedFloat.pack Format.binary64 (.finite s m e hm) =
      if m.log2 + 1 = 53 then
        packComponents Format.binary64 s (BitVec.ofNat 11 (e + 1075).toNat) (BitVec.ofNat 52 m)
      else packComponents Format.binary64 s 0#11 (BitVec.ofNat 52 m) := by
  have hbias : (e + (Format.binary64.exponentBias : Int) +
      (Format.binary64.mantissaBitsWithoutImplicit : Int)).toNat = (e + 1075).toNat := by
    simp [Format.exponentBias]
    omega
  rw [← hbias] at hfit ⊢
  exact if_neg (Nat.not_le.mpr hfit)

theorem one_append_toNat (m : BitVec 52) : (1#1 ++ m).toNat = 2 ^ 52 + m.toNat := by
  rw [BitVec.toNat_append, Nat.shiftLeft_eq]
  exact (Nat.two_pow_add_eq_or_of_lt m.isLt 1).symm

theorem one_append_pos (m : BitVec 52) : 0 < (1#1 ++ m).toNat := by
  rw [one_append_toNat]
  omega

theorem toNat_pos_of_ne {m : BitVec 52} (h : ¬ m = 0#52) : 0 < m.toNat :=
  Nat.pos_of_ne_zero fun hzero => h (BitVec.eq_of_toNat_eq hzero)

/-- What the fields of a number say it is. -/
theorem unpack_eq (b : BitVec 64) :
    UnpackedFloat.unpack Format.binary64 b =
      if @unpackExponent Format.binary64 b = -1#11 then
        if @unpackMantissa Format.binary64 b = 0#52 then
          .infinity (.ofBitVec (@unpackSign Format.binary64 b))
        else .notANumber
      else if @unpackExponent Format.binary64 b = 0#11 then
        if h : @unpackMantissa Format.binary64 b = 0#52 then
          .zero (.ofBitVec (@unpackSign Format.binary64 b))
        else
          .finite (.ofBitVec (@unpackSign Format.binary64 b))
            (@unpackMantissa Format.binary64 b).toNat
            ((@unpackExponent Format.binary64 b).toNat - (1023 + 52) + 1) (toNat_pos_of_ne h)
      else
        .finite (.ofBitVec (@unpackSign Format.binary64 b))
          (1#1 ++ @unpackMantissa Format.binary64 b).toNat
          ((@unpackExponent Format.binary64 b).toNat - (1023 + 52)) (one_append_pos _) :=
  rfl

theorem isFinite_unpack {b : BitVec 64} (h : @unpackExponent Format.binary64 b ≠ -1#11) :
    (UnpackedFloat.unpack Format.binary64 b).isFinite = true := by
  rw [unpack_eq, if_neg h]
  by_cases hzero : @unpackExponent Format.binary64 b = 0#11
  · rw [if_pos hzero]
    by_cases hmantissa : @unpackMantissa Format.binary64 b = 0#52
    · rw [dif_pos hmantissa]
      rfl
    · rw [dif_neg hmantissa]
      rfl
  · rw [if_neg hzero]
    rfl

/-- A number of moderate size is stored as a finite one. -/
theorem isFinite_unpack_pack {s : Sign} {m : Nat} {e : Int} (hm : 0 < m) (he : e ≤ 900) :
    (Float.Model.pack (.finite s m e hm)).unpack.isFinite = true := by
  have hexp : (BitVec.ofNat 11 (e + 1075).toNat) ≠ -1#11 := by
    intro heq
    have htop := congrArg BitVec.toNat heq
    simp at htop
    omega
  change (UnpackedFloat.unpack Format.binary64
    (UnpackedFloat.pack Format.binary64 (.finite s m e hm))).isFinite = true
  rw [pack_finite (by omega)]
  split
  · apply isFinite_unpack
    rwa [unpackExponent_packComponents]
  · apply isFinite_unpack
    rw [unpackExponent_packComponents]
    decide

/-- Shifting makes a mantissa no larger. -/
theorem mantissa_shiftRight_le (em : ExtendedMantissa) (n : Nat) :
    (em >>> n).mantissa ≤ em.mantissa := by
  change (n.repeat ExtendedMantissa.shiftRightOne em).mantissa ≤ em.mantissa
  induction n with
  | zero => exact Nat.le_refl _
  | succ n ih =>
      change (n.repeat ExtendedMantissa.shiftRightOne em).mantissa / 2 ≤ em.mantissa
      exact Nat.le_trans (Nat.div_le_self _ _) ih

/-- Rounding adds at most one to the kept bits. -/
theorem roundToNearestEven_le (m : Nat) : ∀ a : Accuracy, a.roundToNearestEven m ≤ m + 1
  | .exact => Nat.le_succ m
  | .inexact .lt => Nat.le_succ m
  | .inexact .eq => Nat.add_le_add_left (Nat.le_of_lt_succ (Nat.mod_lt m (by decide))) m
  | .inexact .gt => Nat.le_refl _

/-- Moving to the target exponent only drops bits, and lands no higher than the format asks for. -/
theorem shiftToTargetExponent_bounds (m : Nat) (e : Int) (a : Accuracy) :
    (shiftToTargetExponent Format.binary64 m e a).1.mantissa ≤ m ∧
      (shiftToTargetExponent Format.binary64 m e a).2 ≤
        max e (max (m.log2 + 1 + e - 53) (-1074)) := by
  constructor
  · refine Nat.le_trans (mantissa_shiftRight_le _ _) (Nat.le_of_eq ?_)
    cases a with
    | exact => rfl
    | inexact o => cases o <;> rfl
  · simp only [shiftToTargetExponent, shiftToExponent, Float.Model.totalExponent,
      Format.targetExponent, mantissaBits_eq, Format.minExponent]
    omega

/-- So is one that is rounded. -/
theorem isFinite_roundWithAccuracy {s : Sign} {m : Nat} {e : Int} (hlog : m.log2 ≤ 200)
    (he : e ≤ 100) :
    (Float.Model.pack (roundWithAccuracy Format.binary64 s m e .exact)).unpack.isFinite = true := by
  unfold roundWithAccuracy
  generalize hfirst : shiftToTargetExponent Format.binary64 m e .exact = first
  obtain ⟨em, e₁⟩ := first
  have hb := shiftToTargetExponent_bounds m e .exact
  rw [hfirst] at hb
  dsimp only at hb ⊢
  generalize hsecond : shiftToTargetExponent Format.binary64 em.roundedMantissa e₁ .exact = second
  obtain ⟨em', e₂⟩ := second
  have hb' := shiftToTargetExponent_bounds em.roundedMantissa e₁ .exact
  rw [hsecond] at hb'
  have hround : em.roundedMantissa ≤ m + 1 :=
    Nat.le_trans (roundToNearestEven_le _ _) (Nat.succ_le_succ hb.1)
  have hm : m < 2 ^ 201 :=
    Nat.lt_of_lt_of_le Nat.lt_log2_self (Nat.pow_le_pow_right (by decide) (by omega))
  have hlog' : em.roundedMantissa.log2 ≤ 202 := by
    by_cases hz : em.roundedMantissa = 0
    · simp [hz]
    · have : em.roundedMantissa < 2 ^ 202 := by
        have : (2 : Nat) ^ 202 = 2 * 2 ^ 201 := by decide
        omega
      have := (Nat.log2_lt hz).mpr this
      omega
  dsimp only at hb' ⊢
  by_cases hzero : em'.mantissa = 0
  · rw [dif_pos hzero]
    cases s <;> rfl
  · rw [dif_neg hzero]
    exact isFinite_unpack_pack _ (by omega)

/-- Integers up to 64 bits convert to finite numbers. -/
theorem isFinite_ofInt (n : Int) (h : n.natAbs ≤ 2 ^ 64) : (ofInt n).isFinite = true := by
  have hround : ∀ (s : Sign) (m : Nat), m ≠ 0 → m ≤ 2 ^ 64 →
      (Float.Model.pack (UnpackedFloat.round Format.binary64 s m 0)).unpack.isFinite = true := by
    intro s m hm hle
    have hlog : m.log2 < 65 := (Nat.log2_lt hm).mpr (by
      have : (2 : Nat) ^ 65 = 2 * 2 ^ 64 := by decide
      omega)
    simp only [UnpackedFloat.round, decreaseExponent]
    generalize hk : (0 - Format.binary64.targetExponent
      (Float.Model.totalExponent m 0)).toNat = k
    have hk' : k ≤ 52 := by
      simp only [Float.Model.totalExponent, Format.targetExponent, mantissaBits_eq,
        Format.minExponent] at hk
      omega
    have hshift : m <<< k < 2 ^ 200 := by
      rw [Nat.shiftLeft_eq]
      calc m * 2 ^ k ≤ 2 ^ 64 * 2 ^ 52 :=
            Nat.mul_le_mul hle (Nat.pow_le_pow_right (by decide) hk')
        _ < 2 ^ 200 := by decide
    have hne : m <<< k ≠ 0 := by
      rw [Nat.shiftLeft_eq]
      exact Nat.mul_ne_zero hm (Nat.pow_pos (by decide)).ne'
    exact isFinite_roundWithAccuracy (Nat.le_of_lt ((Nat.log2_lt hne).mpr hshift)) (by omega)
  change (Float.Model.pack (UnpackedFloat.normalize _ n 0 _)).unpack.isFinite = true
  unfold UnpackedFloat.normalize
  split
  · next hlt =>
    have := Int.compare_eq_lt.mp hlt
    exact hround _ _ (by omega) (by omega)
  · rfl
  · next hgt =>
    have := Int.compare_eq_gt.mp hgt
    exact hround _ _ (by omega) (by omega)

/-! ### Integral values and decimal spelling -/

/-- The integer a number equals, when it is finite and integral. -/
def toInt? (x : Float) : Option Int :=
  match x.toModel.unpack with
  | .zero _ => some 0
  | .finite s m e _ =>
      if 0 ≤ e then some (s.apply (m * 2 ^ e.toNat : Nat))
      else if m % 2 ^ (-e).toNat = 0 then some (s.apply (m / 2 ^ (-e).toNat : Nat))
      else none
  | _ => none

/-- `digits * 10 ^ exponent` reads back as `x`. -/
def readsBack (x : Float) (digits : Nat) (exponent : Int) : Bool :=
  Float.ofScientific digits (decide (exponent < 0)) exponent.natAbs == x

/-- The fewest significant digits that read back as the positive number `num / den`, and the power
    of ten they are scaled by. Among equally short spellings the nearer one is tried first. -/
def shortestDigits (x : Float) (num den : Nat) : Nat × Int :=
  let point : Int := (Nat.toDigits 10 (num * 10 ^ 400 / den)).length - 400
  let candidates := (List.range' 1 17).flatMap fun (precision : Nat) =>
    let exponent := point - precision
    let (n, d) :=
      if 0 ≤ exponent then (num, den * 10 ^ exponent.toNat)
      else (num * 10 ^ (-exponent).toNat, den)
    let below := (n / d, exponent)
    -- rounding up may carry into one more digit
    let above :=
      if n / d + 1 = 10 ^ precision then (10 ^ (precision - 1), exponent + 1)
      else (n / d + 1, exponent)
    if 2 * (n % d) ≤ d then [below, above] else [above, below]
  (candidates.find? fun c => readsBack x c.1 c.2).getD (0, 0)

/-- `digits * 10 ^ exponent` written without an exponent. -/
def positional (digits : Nat) (exponent : Int) : String :=
  let ds := Nat.toDigits 10 digits
  if 0 ≤ exponent then String.ofList (ds ++ List.replicate exponent.toNat '0')
  else
    let point : Int := ds.length + exponent
    if 0 < point then
      String.ofList (ds.take point.toNat ++ '.' :: ds.drop point.toNat)
    else String.ofList ('0' :: '.' :: List.replicate (-point).toNat '0' ++ ds)

/-- The shortest decimal spelling that reads back as the number, never in scientific notation. -/
def display (x : Float) : String :=
  match x.toModel.unpack with
  | .notANumber => "NaN"
  | .infinity s => signText s ++ "inf"
  | .zero s => signText s ++ "0"
  | .finite s m e _ =>
      let (num, den) := if 0 ≤ e then (m * 2 ^ e.toNat, 1) else (m, 2 ^ (-e).toNat)
      let (digits, exponent) := shortestDigits x.abs num den
      signText s ++ positional digits exponent
where
  signText : Sign → String
    | .negative => "-"
    | .positive => ""

example : display 0.1 = "0.1" := by decide +kernel

example : display 1e-7 = "0.0000001" := by decide +kernel

end FlagForge.Binary64
