/-
Module: FlagForge.Lib.Rounding
Layer: Lib
Purpose: The rational a binary64 number is, and what rounding does to it: integers of at most 53
  significant bits convert exactly and no others do, and a product that is at most an integer of 53
  bits is not rounded beyond it, nor is its nearest integer.
Imports: FlagForge.Lib.Binary64, Mathlib's rationals
Trusted boundary: none
Main exports: Binary64.value, Binary64.Denotes, Binary64.Fits, Binary64.value_ofInt_iff,
  Binary64.denotes_mul_le, Binary64.roundToUInt32
-/
import Mathlib
import FlagForge.Lib.Binary64

namespace FlagForge.Binary64
open Float.Model (UnpackedFloat Format)
open Float.Model.UnpackedFloat

/-! ### Packing -/

/-- A mantissa and an exponent as the format keeps them: 53 bits, all of them in use unless the
    exponent is the least. -/
structure Stored (m : Nat) (e : Int) : Prop where
  lt : m < 2 ^ 53
  full : 2 ^ 52 ≤ m ∨ e = -1074
  least : -1074 ≤ e
  most : e ≤ 971

theorem finite_congr {s : Sign} {m m' : Nat} {e e' : Int} {hm : 0 < m} {hm' : 0 < m'} (h : m = m')
    (he : e = e') : UnpackedFloat.finite s m e hm = .finite s m' e' hm' := by
  subst h he
  rfl

/-- The fields of a number are those it was packed from. -/
theorem unpack_packComponents {s : Sign} {e : BitVec 11} {m : BitVec 52} (h : e ≠ -1#11) :
    UnpackedFloat.unpack Format.binary64 (packComponents Format.binary64 s e m) =
      if e = 0#11 then
        if h : m = 0#52 then .zero s
        else .finite s m.toNat (e.toNat - (1023 + 52) + 1) (toNat_pos_of_ne h)
      else .finite s (1#1 ++ m).toNat (e.toNat - (1023 + 52)) (one_append_pos m) := by
  rw [unpack_eq, unpackExponent_packComponents, unpackMantissa_packComponents,
    unpackSign_packComponents, Sign.ofBitVec_toBitVec, if_neg h]

/-- What the format keeps is unpacked as it was packed. -/
theorem unpack_pack {s : Sign} {m : Nat} {e : Int} {hm : 0 < m} (h : Stored m e) :
    (Float.Model.pack (.finite s m e hm)).unpack = .finite s m e hm := by
  have hleast := h.least
  have hmost := h.most
  have hlt := h.lt
  have hexp : (BitVec.ofNat 11 (e + 1075).toNat).toNat = (e + 1075).toNat := by
    rw [BitVec.toNat_ofNat]
    omega
  change UnpackedFloat.unpack Format.binary64
    (UnpackedFloat.pack Format.binary64 (.finite s m e hm)) = _
  rw [pack_finite (by omega)]
  by_cases hfull : m.log2 + 1 = 53
  · have hlow : 2 ^ 52 ≤ m := (Nat.le_log2 hm.ne').mp (Nat.le_of_eq (Nat.succ.inj hfull).symm)
    have hnotTop : BitVec.ofNat 11 (e + 1075).toNat ≠ -1#11 := by
      intro heq
      have htop := congrArg BitVec.toNat heq
      rw [hexp] at htop
      simp at htop
      omega
    have hpositive : BitVec.ofNat 11 (e + 1075).toNat ≠ 0#11 := by
      intro heq
      have hzero := congrArg BitVec.toNat heq
      rw [hexp] at hzero
      simp at hzero
      omega
    rw [if_pos hfull, unpack_packComponents hnotTop, if_neg hpositive]
    apply finite_congr
    · rw [one_append_toNat, BitVec.toNat_ofNat]
      omega
    · rw [hexp]
      omega
  · have hhigh : m < 2 ^ 52 := by
      by_contra hge
      have hlog := (Nat.le_log2 hm.ne').mpr (not_lt.mp hge)
      have hlog' := (Nat.log2_lt hm.ne').mpr hlt
      omega
    have he : e = -1074 := h.full.resolve_left (not_le.mpr hhigh)
    have hmantissa : (BitVec.ofNat 52 m).toNat = m := by
      rw [BitVec.toNat_ofNat]
      omega
    have hne : BitVec.ofNat 52 m ≠ 0#52 := by
      intro heq
      have hzero := congrArg BitVec.toNat heq
      rw [hmantissa] at hzero
      simp at hzero
      omega
    rw [if_neg hfull, unpack_packComponents (by decide), if_pos rfl, dif_neg hne]
    apply finite_congr hmantissa
    rw [he]
    rfl

/-- Every number of the format is unpacked to what the format keeps. -/
theorem stored_of_unpack {x : Float} {s : Sign} {m : Nat} {e : Int} {hm : 0 < m}
    (h : x.toModel.unpack = .finite s m e hm) : Stored m e := by
  change UnpackedFloat.unpack Format.binary64 x.toModel.toBits.toBitVec = _ at h
  rw [unpack_eq] at h
  have hexp : (@unpackExponent Format.binary64 x.toModel.toBits.toBitVec).toNat < 2 ^ 11 :=
    BitVec.isLt _
  have hmantissa :
      (@unpackMantissa Format.binary64 x.toModel.toBits.toBitVec).toNat < 2 ^ 52 :=
    BitVec.isLt _
  split at h
  · split at h <;> cases h
  · rename_i hnotTop
    split at h
    · rename_i hzero
      split at h
      · cases h
      · rw [UnpackedFloat.finite.injEq, hzero] at h
        obtain ⟨_, rfl, rfl⟩ := h
        exact ⟨by omega, .inr rfl, by decide, by decide⟩
    · rename_i hpositive
      rw [UnpackedFloat.finite.injEq, one_append_toNat] at h
      obtain ⟨_, rfl, rfl⟩ := h
      have htop : (@unpackExponent Format.binary64 x.toModel.toBits.toBitVec).toNat ≠ 2047 :=
        fun heq => hnotTop (BitVec.eq_of_toNat_eq heq)
      have hpos : (@unpackExponent Format.binary64 x.toModel.toBits.toBitVec).toNat ≠ 0 :=
        fun heq => hpositive (BitVec.eq_of_toNat_eq heq)
      exact ⟨by omega, .inl (by omega), by omega, by omega⟩

/-! ### The rational of a number -/

/-- The rational that a finite number is; the others count as zero. -/
def rat : UnpackedFloat → ℚ
  | .finite s m e _ => s.apply m * 2 ^ e
  | _ => 0

def value (x : Float) : ℚ :=
  rat x.toModel.unpack

/-- A negative exponent divides. -/
theorem mul_zpow_eq_div {a : ℚ} {e : Int} {k : Nat} (hk : -e = k) : a * 2 ^ e = a / 2 ^ k := by
  rw [← neg_neg e, hk, zpow_neg, zpow_natCast, div_eq_mul_inv]

/-- The number is finite, and it is this rational. -/
structure Denotes (x : Float) (r : ℚ) : Prop where
  finite : x.isFinite = true
  value : value x = r

/-- Zero denotes zero, of either sign. -/
theorem denotes_zero (s : Sign) : Denotes (.ofModel (.pack (.zero s))) 0 := by
  cases s <;> exact ⟨rfl, rfl⟩

/-- A stored mantissa and exponent denote their product. -/
theorem denotes_finite {s : Sign} {m : Nat} {e : Int} {hm : 0 < m} (h : Stored m e) :
    Denotes (.ofModel (.pack (.finite s m e hm))) (s.apply m * 2 ^ e) := by
  constructor
  · change (Float.Model.pack (.finite s m e hm)).unpack.isFinite = true
    rw [unpack_pack h]
    rfl
  · rw [value, unpack_pack h, rat]

/-! ### Rounding -/

theorem mantissa_shiftRight (em : ExtendedMantissa) (k : Nat) :
    (em >>> k).mantissa = em.mantissa / 2 ^ k := by
  change (k.repeat ExtendedMantissa.shiftRightOne em).mantissa = em.mantissa / 2 ^ k
  induction k with
  | zero => simp [Nat.repeat]
  | succ k ih =>
      change (k.repeat ExtendedMantissa.shiftRightOne em).mantissa / 2 = _
      rw [ih, Nat.div_div_eq_div_mul, Nat.pow_succ]

/-- Dropping zeros loses nothing. -/
theorem shiftRight_mul_two_pow (q k : Nat) :
    (⟨q * 2 ^ k, false, false⟩ : ExtendedMantissa) >>> k = ⟨q, false, false⟩ := by
  change k.repeat ExtendedMantissa.shiftRightOne _ = _
  induction k generalizing q with
  | zero => simp [Nat.repeat]
  | succ k ih =>
      have hdouble : q * 2 ^ (k + 1) = (q * 2) * 2 ^ k := by ring
      rw [hdouble]
      change ExtendedMantissa.shiftRightOne (k.repeat ExtendedMantissa.shiftRightOne _) = _
      rw [ih]
      simp [ExtendedMantissa.shiftRightOne]

/-- Rounding is down or up by one. -/
theorem roundedMantissa_bounds : ∀ em : ExtendedMantissa,
    em.mantissa ≤ em.roundedMantissa ∧ em.roundedMantissa ≤ em.mantissa + 1
  | ⟨_, false, false⟩ => ⟨Nat.le_refl _, Nat.le_succ _⟩
  | ⟨_, false, true⟩ => ⟨Nat.le_refl _, Nat.le_succ _⟩
  | ⟨m, true, false⟩ => ⟨Nat.le_add_right _ _, Nat.add_le_add_left (by omega) m⟩
  | ⟨_, true, true⟩ => ⟨Nat.le_succ _, Nat.le_refl _⟩

/-- The exponent that a mantissa and its exponent are moved to. -/
def target (m : Nat) (e : Int) : Int :=
  max (m.log2 + e - 52) (-1074)

theorem shiftToTargetExponent_eq (m : Nat) (e : Int) :
    shiftToTargetExponent Format.binary64 m e .exact =
      ((⟨m, false, false⟩ : ExtendedMantissa) >>> (target m e - e).toNat,
        e + (target m e - e).toNat) := by
  have htarget : Format.binary64.targetExponent (Float.Model.totalExponent m e) = target m e := by
    simp only [target, Format.targetExponent, Float.Model.totalExponent, mantissaBits_eq,
      Format.minExponent]
    omega
  rw [shiftToTargetExponent, htarget]
  rfl

/-- A mantissa that fits stays as it is. -/
theorem shiftToTargetExponent_of_lt {m : Nat} {e : Int} (hm : m < 2 ^ 53) (he : -1074 ≤ e) :
    shiftToTargetExponent Format.binary64 m e .exact = (⟨m, false, false⟩, e) := by
  have hlog : m.log2 ≤ 52 := by
    by_cases hzero : m = 0
    · simp [hzero]
    · exact Nat.le_of_lt_succ ((Nat.log2_lt hzero).mpr hm)
  have hnone : (target m e - e).toNat = 0 := by
    rw [target]
    omega
  rw [shiftToTargetExponent_eq, hnone]
  simp
  rfl

/-- Rounding may carry into one more bit, which is dropped again. -/
theorem shiftToTargetExponent_carry {e : Int} (he : -1074 ≤ e) :
    shiftToTargetExponent Format.binary64 (2 ^ 53) e .exact = (⟨2 ^ 52, false, false⟩, e + 1) := by
  have hone : (target (2 ^ 53) e - e).toNat = 1 := by
    rw [target, Nat.log2_two_pow]
    omega
  rw [shiftToTargetExponent_eq, hone]
  rfl

/-- A mantissa without its last bits, rounded; nothing is rounded when these are zeros. -/
structure Rounds (m k q : Nat) : Prop where
  le : m / 2 ^ k ≤ q
  ge : q ≤ m / 2 ^ k + 1
  exact : 2 ^ k ∣ m → q = m / 2 ^ k

/-- Shifting out bits rounds to the nearest, ties to even. -/
theorem rounds_roundedMantissa (m k : Nat) :
    Rounds m k ((⟨m, false, false⟩ : ExtendedMantissa) >>> k).roundedMantissa := by
  have hbounds := roundedMantissa_bounds ((⟨m, false, false⟩ : ExtendedMantissa) >>> k)
  rw [mantissa_shiftRight] at hbounds
  refine ⟨hbounds.1, hbounds.2, ?_⟩
  rintro ⟨q, rfl⟩
  rw [Nat.mul_comm, shiftRight_mul_two_pow, Nat.mul_div_cancel _ (Nat.two_pow_pos k)]
  rfl

/-- The kept bits are at most those of the format, and all of them unless the number is tiny. -/
theorem Rounds.stored {m q : Nat} {e : Int} (hm : m ≠ 0) (hdrop : e ≤ target m e)
    (h : Rounds m (target m e - e).toNat q) :
    q ≤ 2 ^ 53 ∧ (2 ^ 52 ≤ q ∨ target m e = -1074) := by
  have hlog : m.log2 ≤ 52 + (target m e - e).toNat := by
    rw [target]
    omega
  have hlt : m / 2 ^ (target m e - e).toNat < 2 ^ 53 := by
    rw [Nat.div_lt_iff_lt_mul (Nat.two_pow_pos _), ← Nat.pow_add]
    exact (Nat.log2_lt hm).mp (by omega)
  refine ⟨h.ge.trans hlt, ?_⟩
  by_cases htiny : target m e = -1074
  · exact .inr htiny
  · refine .inl (le_trans ?_ h.le)
    rw [Nat.le_div_iff_mul_le (Nat.two_pow_pos _), ← Nat.pow_add, ← Nat.le_log2 hm]
    rw [target] at htiny hdrop ⊢
    omega

/-- The second half of rounding: a carry is undone and the result is packed. -/
theorem denotes_settled (s : Sign) {q : Nat} {t : Int} (hmost : q ≤ 2 ^ 53)
    (hfull : 2 ^ 52 ≤ q ∨ t = -1074) (hleast : -1074 ≤ t) (hsmall : t ≤ 970) :
    Denotes (.ofModel (.pack
      (if h : (shiftToTargetExponent Format.binary64 q t .exact).1.mantissa = 0 then .zero s
      else .finite s (shiftToTargetExponent Format.binary64 q t .exact).1.mantissa
        (shiftToTargetExponent Format.binary64 q t .exact).2 (Nat.pos_of_ne_zero h))))
      (s.apply q * 2 ^ t) := by
  by_cases hcarry : q = 2 ^ 53
  · subst hcarry
    simp only [shiftToTargetExponent_carry hleast]
    have hcarried : (s.apply (2 ^ 53 : Nat) : ℚ) * 2 ^ t = s.apply (2 ^ 52 : Nat) * 2 ^ (t + 1) := by
      rw [zpow_add_one₀ two_ne_zero]
      cases s
      · norm_num [Sign.apply]
        ring
      · norm_num [Sign.apply]
        ring
    rw [dif_neg (by decide), hcarried]
    exact denotes_finite ⟨by decide, .inl le_rfl, by omega, by omega⟩
  · have hlt : q < 2 ^ 53 := lt_of_le_of_ne hmost hcarry
    simp only [shiftToTargetExponent_of_lt hlt hleast]
    split
    · rename_i hzero
      have hnone : (s.apply q : ℚ) * 2 ^ t = 0 := by
        cases s <;> simp [Sign.apply, hzero]
      rw [hnone]
      exact denotes_zero s
    · exact denotes_finite ⟨hlt, hfull, hleast, by omega⟩

/-- What rounding makes of a mantissa and an exponent that are not too large. -/
theorem denotes_roundWithAccuracy (s : Sign) {m : Nat} {e : Int} (hm : m ≠ 0) (hdrop : e ≤ target m e)
    (hsmall : target m e ≤ 970) :
    ∃ q, Rounds m (target m e - e).toNat q ∧
      Denotes (.ofModel (.pack (roundWithAccuracy Format.binary64 s m e .exact)))
        (s.apply q * 2 ^ target m e) := by
  have hexponent : e + (target m e - e).toNat = target m e := by omega
  have hrounds := rounds_roundedMantissa m (target m e - e).toNat
  obtain ⟨hmost, hfull⟩ := hrounds.stored hm hdrop
  refine ⟨_, hrounds, ?_⟩
  simp only [roundWithAccuracy, shiftToTargetExponent_eq m e, hexponent]
  exact denotes_settled s hmost hfull (le_max_right _ _) hsmall

/-! ### Integers -/

/-- A natural number of at most 53 significant bits. -/
def Fits (n : Nat) : Prop :=
  ∃ m k, m < 2 ^ 53 ∧ n = m * 2 ^ k

theorem log2_mul_two_pow {n : Nat} (hn : n ≠ 0) (k : Nat) : (n * 2 ^ k).log2 = n.log2 + k := by
  have hne : n * 2 ^ k ≠ 0 := Nat.mul_ne_zero hn (Nat.two_pow_pos k).ne'
  rw [Nat.log2_eq_iff hne]
  constructor
  · rw [Nat.pow_add]
    exact Nat.mul_le_mul_right _ (Nat.log2_self_le hn)
  · rw [Nat.add_right_comm, Nat.pow_add]
    exact Nat.mul_lt_mul_of_pos_right Nat.lt_log2_self (Nat.two_pow_pos k)

/-- The bits that rounding drops of an integer that fits are zeros. -/
theorem dvd_of_fits {n : Nat} (hn : n ≠ 0) (h : Fits n) : 2 ^ (n.log2 - 52) ∣ n := by
  obtain ⟨m, k, hm, rfl⟩ := h
  have hne : m ≠ 0 := by
    rintro rfl
    simp at hn
  have hlog := (Nat.log2_lt hne).mpr hm
  rw [log2_mul_two_pow hne]
  exact (Nat.pow_dvd_pow 2 (by omega)).mul_left m

/-- A number fits if nothing stands below its first 53 bits. -/
theorem fits_iff {n : Nat} : Fits n ↔ n = 0 ∨ 2 ^ (n.log2 - 52) ∣ n := by
  refine ⟨fun h => or_iff_not_imp_left.mpr fun hn => dvd_of_fits hn h, ?_⟩
  rintro (rfl | ⟨m, hm⟩)
  · exact ⟨0, 0, by decide, rfl⟩
  · refine ⟨m, n.log2 - 52, ?_, hm.trans (Nat.mul_comm _ _)⟩
    have hlt : m * 2 ^ (n.log2 - 52) < 2 ^ 53 * 2 ^ (n.log2 - 52) := by
      calc m * 2 ^ (n.log2 - 52) = n := (hm.trans (Nat.mul_comm _ _)).symm
        _ < 2 ^ (n.log2 + 1) := Nat.lt_log2_self
        _ ≤ 2 ^ (53 + (n.log2 - 52)) := Nat.pow_le_pow_right (by decide) (by omega)
        _ = 2 ^ 53 * 2 ^ (n.log2 - 52) := Nat.pow_add 2 53 _
    exact Nat.lt_of_mul_lt_mul_right hlt

instance (n : Nat) : Decidable (Fits n) :=
  decidable_of_iff _ fits_iff.symm

/-- An integer that fits is converted exactly. -/
theorem value_round_of_fits (s : Sign) {n : Nat} (hn : n ≠ 0) (hsmall : n.log2 ≤ 1000)
    (h : Fits n) :
    value (.ofModel (.pack (UnpackedFloat.round Format.binary64 s n 0))) = s.apply n := by
  obtain ⟨d, hd⟩ : ∃ d, d = 52 - n.log2 := ⟨_, rfl⟩
  have hne : n * 2 ^ d ≠ 0 := Nat.mul_ne_zero hn (Nat.two_pow_pos d).ne'
  have hlog := log2_mul_two_pow hn d
  have htarget : target (n * 2 ^ d) (-d) = n.log2 - 52 := by
    rw [target, hlog]
    omega
  have hround : UnpackedFloat.round Format.binary64 s n 0 =
      roundWithAccuracy Format.binary64 s (n * 2 ^ d) (-d) .exact := by
    have hshift : (0 - Format.binary64.targetExponent (Float.Model.totalExponent n 0)).toNat = d := by
      simp only [Format.targetExponent, Float.Model.totalExponent, mantissaBits_eq,
        Format.minExponent]
      omega
    rw [Int.zero_sub] at hshift
    simp only [UnpackedFloat.round, decreaseExponent, Int.zero_sub, hshift, Nat.shiftLeft_eq]
  obtain ⟨q, hq, hvalue⟩ := denotes_roundWithAccuracy s hne (e := -d) (by omega) (by omega)
  have hdropped : (target (n * 2 ^ d) (-d) - -d).toNat = n.log2 - 52 := by
    omega
  rw [hdropped] at hq
  have hdvd : 2 ^ (n.log2 - 52) ∣ n * 2 ^ d := (dvd_of_fits hn h).mul_right _
  have hkept : q * 2 ^ (n.log2 - 52) = n * 2 ^ d := by
    rw [hq.exact hdvd, Nat.div_mul_cancel hdvd]
  have hrat : (q : ℚ) * 2 ^ ((n.log2 : Int) - 52) = n := by
    have hexponent : (n.log2 : Int) - 52 = (n.log2 - 52 : Nat) - (d : Int) := by omega
    rw [hexponent, zpow_sub₀ two_ne_zero, zpow_natCast, zpow_natCast, ← mul_div_assoc,
      div_eq_iff (pow_ne_zero _ two_ne_zero)]
    exact_mod_cast hkept
  rw [hround, hvalue.value, htarget]
  cases s
  · simp only [Sign.apply, Int.cast_neg, Int.cast_natCast, neg_mul, hrat]
  · simp only [Sign.apply, Int.cast_natCast, hrat]

/-- The integers among the numbers of the format fit. -/
theorem fits_of_value {x : Float} {n : Int} (h : value x = n) : Fits n.natAbs := by
  have hzero : (0 : ℚ) = n → Fits n.natAbs := by
    intro hn
    have hn : n = 0 := by exact_mod_cast hn.symm
    exact ⟨0, 0, by decide, by simp [hn]⟩
  rw [value] at h
  cases hx : x.toModel.unpack with
  | infinity s => exact hzero (by rwa [hx] at h)
  | notANumber => exact hzero (by rwa [hx] at h)
  | zero s => exact hzero (by rwa [hx] at h)
  | finite s m e hm =>
      rw [hx, rat] at h
      have hlt := (stored_of_unpack hx).lt
      have habs : (m : ℚ) * 2 ^ e = n.natAbs := by
        calc (m : ℚ) * 2 ^ e = |(s.apply m : ℚ) * 2 ^ e| := by
              rw [abs_mul, abs_of_pos (zpow_pos (zero_lt_two : (0 : ℚ) < 2) e)]
              cases s <;> simp [Sign.apply]
          _ = n.natAbs := by rw [h, Nat.cast_natAbs, Int.cast_abs]
      by_cases he : 0 ≤ e
      · obtain ⟨k, rfl⟩ := Int.eq_ofNat_of_zero_le he
        refine ⟨m, k, hlt, ?_⟩
        rw [zpow_natCast] at habs
        exact_mod_cast habs.symm
      · obtain ⟨k, hk⟩ := Int.eq_ofNat_of_zero_le (show 0 ≤ -e by omega)
        have hscaled : n.natAbs * 2 ^ k = m := by
          rw [mul_zpow_eq_div hk, div_eq_iff (pow_ne_zero _ two_ne_zero)] at habs
          exact_mod_cast habs.symm
        have hle : n.natAbs ≤ m := hscaled ▸ Nat.le_mul_of_pos_right _ (Nat.two_pow_pos k)
        exact ⟨n.natAbs, 0, by omega, by simp⟩

/-- An integer of 64 bits is converted exactly when it fits. -/
theorem value_ofInt_iff {n : Int} (h : n.natAbs ≤ 2 ^ 64) : value (ofInt n) = n ↔ Fits n.natAbs := by
  refine ⟨fits_of_value, ?_⟩
  intro hfits
  change value (.ofModel (.pack (UnpackedFloat.normalize Format.binary64 n 0 .positive))) = n
  have hlog : n.natAbs.log2 ≤ 1000 := by
    by_cases hzero : n.natAbs = 0
    · simp [hzero]
    · have hlt : n.natAbs < 2 ^ 65 := by omega
      have := (Nat.log2_lt hzero).mpr hlt
      omega
  unfold UnpackedFloat.normalize
  split
  · rename_i hsign
    have hneg := Int.compare_eq_lt.mp hsign
    have habs : (-n).toNat = n.natAbs := by omega
    rw [habs, value_round_of_fits .negative (by omega) hlog hfits]
    simp only [Sign.apply]
    exact_mod_cast (by omega : -(n.natAbs : Int) = n)
  · rename_i hsign
    rw [(denotes_zero .positive).value, Int.compare_eq_eq.mp hsign, Int.cast_zero]
  · rename_i hsign
    have hpos := Int.compare_eq_gt.mp hsign
    have habs : n.toNat = n.natAbs := by omega
    rw [habs, value_round_of_fits .positive (by omega) hlog hfits]
    simp only [Sign.apply]
    exact_mod_cast (by omega : (n.natAbs : Int) = n)

/-! ### Products -/

/-- A product is that of what its factors unpack to. -/
theorem mul_eq_of_unpack {x y : Float} {u v : UnpackedFloat} (hx : x.toModel.unpack = u)
    (hy : y.toModel.unpack = v) :
    x * y = .ofModel (.pack (UnpackedFloat.mul Format.binary64 u v)) := by
  rw [← hx, ← hy]
  rfl

/-- Rounding does not go beyond an integer. -/
theorem Rounds.le_of_le {m k q w : Nat} (h : Rounds m k q) (hle : m ≤ w * 2 ^ k) : q ≤ w := by
  rcases Nat.lt_or_eq_of_le hle with hlt | heq
  · have hbelow : m / 2 ^ k < w := (Nat.div_lt_iff_lt_mul (Nat.two_pow_pos k)).mpr hlt
    exact h.ge.trans hbelow
  · rw [h.exact (heq ▸ Nat.dvd_mul_left _ w), heq, Nat.mul_div_cancel _ (Nat.two_pow_pos k)]

/-- The product of two numbers of the format has bits to drop. -/
theorem Stored.mul_le_target {m n : Nat} {e f : Int} (hm : m ≠ 0) (hn : n ≠ 0) (hx : Stored m e)
    (hy : Stored n f) : e + f ≤ target (m * n) (e + f) := by
  have hfull : ∀ {a b : Nat}, b ≠ 0 → 2 ^ 52 ≤ a → 52 ≤ (a * b).log2 := by
    intro a b hb ha
    have hle : 2 ^ 52 ≤ a * b := ha.trans (Nat.le_mul_of_pos_right a (Nat.pos_of_ne_zero hb))
    exact (Nat.le_log2 (by omega)).mpr hle
  have hleast := hx.least
  have hleast' := hy.least
  rw [target]
  rcases hx.full with hbits | he
  · have := hfull hn hbits
    omega
  · rcases hy.full with hbits | hf
    · have := hfull hm hbits
      rw [Nat.mul_comm] at this
      omega
    · omega

/-- A product of two positive numbers stays at most the integer that the exact product is at most. -/
theorem denotes_mul_le {x y : Float} {m n : Nat} {e f : Int} {hm : 0 < m} {hn : 0 < n}
    (hx : x.toModel.unpack = .finite .positive m e hm)
    (hy : y.toModel.unpack = .finite .positive n f hn) {w : Nat} (hw : w < 2 ^ 53)
    (hle : value x * value y ≤ w) : ∃ r, r ≤ (w : ℚ) ∧ Denotes (x * y) r := by
  have htwo : (2 : ℚ) ≠ 0 := two_ne_zero
  have hexact : ((m * n : Nat) : ℚ) * 2 ^ (e + f) ≤ w := by
    have hvalues : value x * value y = ((m * n : Nat) : ℚ) * 2 ^ (e + f) := by
      rw [value, value, hx, hy, rat, rat, zpow_add₀ htwo]
      simp only [Sign.apply, Int.cast_natCast, Nat.cast_mul]
      ring
    rwa [hvalues] at hle
  have hne : m * n ≠ 0 := Nat.mul_ne_zero hm.ne' hn.ne'
  have hdrop := (stored_of_unpack hx).mul_le_target hm.ne' hn.ne' (stored_of_unpack hy)
  -- the product is below two to the 53rd, so that no unit of its last place is above one
  have hunit : target (m * n) (e + f) ≤ 0 := by
    by_contra hlarge
    have hpower : (53 : Int) ≤ (m * n).log2 + (e + f) := by
      rw [target] at hlarge
      omega
    have hbig : (2 : ℚ) ^ (53 : Int) ≤ ((m * n : Nat) : ℚ) * 2 ^ (e + f) := by
      calc (2 : ℚ) ^ (53 : Int) ≤ 2 ^ (((m * n).log2 : Int) + (e + f)) :=
            zpow_le_zpow_right₀ one_le_two hpower
        _ = ((2 ^ (m * n).log2 : Nat) : ℚ) * 2 ^ (e + f) := by
            rw [zpow_add₀ htwo, zpow_natCast]
            norm_cast
        _ ≤ ((m * n : Nat) : ℚ) * 2 ^ (e + f) :=
            mul_le_mul_of_nonneg_right (by exact_mod_cast Nat.log2_self_le hne)
              (zpow_nonneg zero_le_two _)
    have hw' : (w : ℚ) < 2 ^ (53 : Int) := by
      exact_mod_cast hw
    linarith
  obtain ⟨q, hq, hdenotes⟩ := denotes_roundWithAccuracy .positive hne hdrop (by omega)
  have hproduct : x * y =
      .ofModel (.pack (roundWithAccuracy Format.binary64 .positive (m * n) (e + f) .exact)) :=
    mul_eq_of_unpack hx hy
  rw [hproduct]
  refine ⟨_, ?_, hdenotes⟩
  obtain ⟨j, hj⟩ := Int.eq_ofNat_of_zero_le (show 0 ≤ -target (m * n) (e + f) by omega)
  have hexponent : -(e + f) = (j + (target (m * n) (e + f) - (e + f)).toNat : Nat) := by
    omega
  have hbound : m * n ≤ w * 2 ^ j * 2 ^ (target (m * n) (e + f) - (e + f)).toNat := by
    rw [mul_zpow_eq_div hexponent, div_le_iff₀ (pow_pos zero_lt_two _), pow_add,
      ← mul_assoc] at hexact
    exact_mod_cast hexact
  have hkept := hq.le_of_le hbound
  rw [mul_zpow_eq_div hj, div_le_iff₀ (pow_pos zero_lt_two _)]
  simp only [Sign.apply, Int.cast_natCast]
  exact_mod_cast hkept

/-! ### Nearest integers -/

/-- The nearest integer of 32 bits, halves away from zero; what is not a number becomes zero. -/
def roundToUInt32 (x : Float) : UInt32 :=
  match x.toModel.unpack with
  | .finite .positive m e _ =>
      let n := if 0 ≤ e then m * 2 ^ e.toNat else (2 * m + 2 ^ (-e).toNat) / (2 * 2 ^ (-e).toNat)
      UInt32.ofNat (min n (2 ^ 32 - 1))
  | .infinity .positive => UInt32.ofNat (2 ^ 32 - 1)
  | _ => 0

/-- The nearest integer is at most every integer that the number is at most. -/
theorem roundToUInt32_le {x : Float} (hx : x.isFinite = true) {w : Nat} (hle : value x ≤ w) :
    (roundToUInt32 x).toNat ≤ w := by
  have hfinite : x.toModel.unpack.isFinite = true := hx
  rw [value] at hle
  rw [roundToUInt32]
  cases hu : x.toModel.unpack with
  | notANumber =>
      rw [hu] at hfinite
      cases hfinite
  | infinity s =>
      rw [hu] at hfinite
      cases hfinite
  | zero s => simp
  | finite s m e hm =>
      rw [hu] at hle
      cases s with
      | negative => simp
      | positive =>
          simp only [rat, Sign.apply, Int.cast_natCast] at hle
          have hsmall : ∀ n : Nat, n ≤ w → (UInt32.ofNat (min n (2 ^ 32 - 1))).toNat ≤ w := by
            intro n hn
            rw [UInt32.toNat_ofNat', Nat.mod_eq_of_lt (by omega)]
            omega
          apply hsmall
          split
          · rename_i he
            obtain ⟨k, rfl⟩ := Int.eq_ofNat_of_zero_le he
            rw [zpow_natCast] at hle
            exact_mod_cast hle
          · rename_i he
            obtain ⟨k, hk⟩ := Int.eq_ofNat_of_zero_le (show 0 ≤ -e by omega)
            rw [mul_zpow_eq_div hk, div_le_iff₀ (pow_pos zero_lt_two _)] at hle
            have hbits : m ≤ w * 2 ^ k := by exact_mod_cast hle
            have hpos := Nat.two_pow_pos k
            rw [hk, Int.toNat_natCast]
            apply Nat.le_of_lt_succ
            rw [Nat.div_lt_iff_lt_mul (by omega)]
            nlinarith

end FlagForge.Binary64
