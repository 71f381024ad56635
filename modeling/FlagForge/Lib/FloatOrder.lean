/-
Module: FlagForge.Lib.FloatOrder
Layer: Lib
Purpose: The order of binary64 numbers: it is total on what is a number, and on finite numbers it is
  the order of their rationals.
Imports: FlagForge.Lib.Rounding
Trusted boundary: none
Main exports: Binary64.le_self, Binary64.lt_or_le, Binary64.value_le_value
-/
import FlagForge.Lib.Rounding

namespace FlagForge.Binary64

open Float.Model (UnpackedFloat Format)
open Float.Model.UnpackedFloat

variable {x y : Float}

theorem isNaN_iff : x.isNaN = true ↔ x.toModel.unpack = .notANumber :=
  UnpackedFloat.isNaN_iff

theorem le_iff : x ≤ y ↔ (x.toModel.unpack.compare y.toModel.unpack).any (·.isLE) = true := by
  change decide (x.toModel ≤ y.toModel) = true ↔ _
  rw [decide_eq_true_iff]
  rfl

theorem lt_iff : x < y ↔ x.toModel.unpack.compare y.toModel.unpack = some .lt := by
  change decide (x.toModel < y.toModel) = true ↔ _
  rw [decide_eq_true_iff]
  exact beq_iff_eq

theorem le_of_lt (h : x < y) : x ≤ y := by
  rw [le_iff, lt_iff.mp h]
  rfl

/-- Two numbers compare, and they compare the other way round the other way. -/
theorem compare_swap (u v : UnpackedFloat) : v.compare u = (u.compare v).map Ordering.swap := by
  cases u with
  | notANumber => cases v <;> rfl
  | infinity s =>
      cases v with
      | infinity t => cases s <;> cases t <;> rfl
      | _ => cases s <;> rfl
  | zero s =>
      cases v with
      | infinity t | finite t => cases t <;> rfl
      | _ => rfl
  | finite s m e hm =>
      cases v with
      | notANumber => rfl
      | infinity t => cases t <;> rfl
      | zero t => cases s <;> rfl
      | finite t n f hn =>
          cases s <;> cases t <;> simp [UnpackedFloat.compare, Ordering.swap_then, Int.compare_swap,
            Nat.compare_swap]

/-- What are numbers compare. -/
theorem exists_compare {u v : UnpackedFloat} (hu : u ≠ .notANumber) (hv : v ≠ .notANumber) :
    ∃ o, u.compare v = some o := by
  cases u with
  | notANumber => exact absurd rfl hu
  | infinity s =>
      cases v with
      | notANumber => exact absurd rfl hv
      | _ => cases s <;> exact ⟨_, rfl⟩
  | zero s =>
      cases v with
      | notANumber => exact absurd rfl hv
      | infinity t | finite t => cases t <;> exact ⟨_, rfl⟩
      | zero t => exact ⟨_, rfl⟩
  | finite s m e hm =>
      cases v with
      | notANumber => exact absurd rfl hv
      | infinity t => cases t <;> exact ⟨_, rfl⟩
      | zero t => cases s <;> exact ⟨_, rfl⟩
      | finite t n f hn => cases s <;> cases t <;> exact ⟨_, rfl⟩

theorem ne_of_isNaN_eq_false (h : x.isNaN = false) : x.toModel.unpack ≠ .notANumber := by
  intro hnan
  rw [isNaN_iff.mpr hnan] at h
  cases h

/-- The order is total on numbers. -/
theorem lt_or_le (hx : x.isNaN = false) (hy : y.isNaN = false) : x < y ∨ y ≤ x := by
  obtain ⟨o, ho⟩ := exists_compare (ne_of_isNaN_eq_false hx) (ne_of_isNaN_eq_false hy)
  rw [lt_iff, le_iff, compare_swap x.toModel.unpack, ho]
  cases o <;> simp

/-- What is at most a positive number and at least it is that number. -/
theorem unpack_eq_of_le_of_le {m : Nat} {e : Int} {hm : 0 < m}
    (hy : y.toModel.unpack = .finite .positive m e hm) (hxy : x ≤ y) (hyx : y ≤ x) :
    x.toModel.unpack = .finite .positive m e hm := by
  rw [le_iff, hy] at hxy
  rw [le_iff, compare_swap x.toModel.unpack, hy] at hyx
  cases hx : x.toModel.unpack with
  | notANumber =>
      rw [hx] at hxy
      cases hxy
  | infinity t =>
      rw [hx] at hxy hyx
      cases t with
      | negative => cases hyx
      | positive => cases hxy
  | zero t =>
      rw [hx] at hyx
      cases hyx
  | finite t n f hn =>
      rw [hx] at hxy hyx
      cases t with
      | negative => cases hyx
      | positive =>
          have heq : (compare f e).then (compare n m) = .eq := by
            cases ho : (compare f e).then (compare n m) <;>
              simp_all [UnpackedFloat.compare]
          rw [Ordering.then_eq_eq, Int.compare_eq_eq, Nat.compare_eq_eq] at heq
          exact finite_congr heq.2 heq.1

theorem not_lt_of_le (h : x ≤ y) : ¬ y < x := by
  rw [le_iff] at h
  rw [lt_iff, compare_swap]
  cases ho : x.toModel.unpack.compare y.toModel.unpack with
  | none => simp
  | some o =>
      rw [ho] at h
      cases o <;> simp_all

theorem compare_self : ∀ {u : UnpackedFloat}, u ≠ .notANumber → u.compare u = some .eq
  | .notANumber, h => absurd rfl h
  | .infinity s, _ => by cases s <;> rfl
  | .zero s, _ => by cases s <;> rfl
  | .finite s m e _, _ => by cases s <;> simp [UnpackedFloat.compare]

/-- Every number is as large as itself. -/
theorem le_self (h : x.isNaN = false) : x ≤ x := by
  rw [le_iff, compare_self (ne_of_isNaN_eq_false h)]
  rfl

/-- What is not a number equals nothing. -/
theorem beq_eq_false_of_isNaN (h : x.isNaN = true) : (x == y) = false := by
  have hcompare : (x.toModel.unpack.compare y.toModel.unpack == some .eq) = false := by
    rw [isNaN_iff.mp h]
    rfl
  exact hcompare

/-! ### The order of the rationals -/

/-- Between numbers of the format the exponent decides first, then the mantissa. -/
theorem scaled_le {m n : Nat} {e f : Int} (hx : Stored m e) (hy : Stored n f)
    (h : ((compare e f).then (compare m n)).isLE = true) : (m : ℚ) * 2 ^ e ≤ n * 2 ^ f := by
  have hpower : (0 : ℚ) ≤ 2 ^ e := zpow_nonneg zero_le_two e
  rcases lt_trichotomy e f with hlt | rfl | hgt
  · -- a larger exponent is not the least one, so that the mantissa beside it has all its bits
    have hn : 2 ^ 52 ≤ n := hy.full.resolve_right fun hf => by
      have := hx.least
      omega
    calc (m : ℚ) * 2 ^ e ≤ 2 ^ 53 * 2 ^ e :=
          mul_le_mul_of_nonneg_right (by exact_mod_cast hx.lt.le) hpower
      _ = 2 ^ 52 * 2 ^ (e + 1) := by
          rw [zpow_add_one₀ two_ne_zero]
          ring
      _ ≤ n * 2 ^ (e + 1) :=
          mul_le_mul_of_nonneg_right (by exact_mod_cast hn) (zpow_nonneg zero_le_two _)
      _ ≤ n * 2 ^ f :=
          mul_le_mul_of_nonneg_left (zpow_le_zpow_right₀ one_le_two (by omega)) (Nat.cast_nonneg n)
  · rw [Int.compare_eq_eq.mpr rfl, Ordering.eq_then, Nat.isLE_compare] at h
    exact mul_le_mul_of_nonneg_right (by exact_mod_cast h) hpower
  · rw [Int.compare_eq_gt.mpr hgt] at h
    cases h

/-- Of two finite numbers, the smaller is the smaller rational. -/
theorem value_le_value (hx : x.isFinite = true) (hy : y.isFinite = true) (h : x ≤ y) :
    value x ≤ value y := by
  have hx' : x.toModel.unpack.isFinite = true := hx
  have hy' : y.toModel.unpack.isFinite = true := hy
  have hscaled : ∀ (m : Nat) (e : Int), (0 : ℚ) ≤ m * 2 ^ e := fun m e =>
    mul_nonneg (Nat.cast_nonneg m) (zpow_nonneg zero_le_two e)
  rw [le_iff] at h
  rw [value, value]
  cases hu : x.toModel.unpack with
  | notANumber | infinity s =>
      rw [hu] at hx'
      cases hx'
  | zero s =>
      cases hv : y.toModel.unpack with
      | notANumber | infinity t =>
          rw [hv] at hy'
          cases hy'
      | zero t => exact le_rfl
      | finite t n f hn =>
          cases t with
          | positive => simpa [rat, Sign.apply] using hscaled n f
          | negative =>
              rw [hu, hv] at h
              cases h
  | finite s m e hm =>
      cases hv : y.toModel.unpack with
      | notANumber | infinity t =>
          rw [hv] at hy'
          cases hy'
      | zero t =>
          cases s with
          | positive =>
              rw [hu, hv] at h
              cases h
          | negative => simpa [rat, Sign.apply] using hscaled m e
      | finite t n f hn =>
          have hm' := stored_of_unpack hu
          have hn' := stored_of_unpack hv
          have hm0 := hscaled m e
          have hn0 := hscaled n f
          rw [hu, hv] at h
          cases s with
          | positive =>
              cases t with
              | positive =>
                  simp only [rat, Sign.apply, Int.cast_natCast]
                  exact scaled_le hm' hn' h
              | negative => cases h
          | negative =>
              cases t with
              | positive =>
                  simp only [rat, Sign.apply, Int.cast_neg, Int.cast_natCast, neg_mul]
                  linarith
              | negative =>
                  simp only [rat, Sign.apply, Int.cast_neg, Int.cast_natCast, neg_mul, neg_le_neg_iff]
                  rw [UnpackedFloat.compare, Option.any_some, Ordering.swap_then, Int.compare_swap,
                    Nat.compare_swap] at h
                  exact scaled_le hn' hm' h

end FlagForge.Binary64
