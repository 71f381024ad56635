/-
Module: FlagForge.Web.EvenSplit
Layer: Web
Purpose: The split the dashboard proposes when a flag's default becomes a rollout: equal shares, and
  to the first variant what the division leaves over. The arithmetic of 32 bits is checked, as in a
  build that panics on overflow.
Imports: FlagForge.Core.Validate
Trusted boundary: none
Main exports: evenSplit, EvenlySplit, even_split_valid
-/
import FlagForge.Core.Validate

namespace FlagForge.Web

/-! ### Checked arithmetic

An operation that would overflow, underflow or divide by zero panics, which is `none` here. -/

def checkedAdd (a b : UInt32) : Option UInt32 :=
  if a.toNat + b.toNat < 2 ^ 32 then some (a + b) else none

def checkedSub (a b : UInt32) : Option UInt32 :=
  if b ≤ a then some (a - b) else none

def checkedMul (a b : UInt32) : Option UInt32 :=
  if a.toNat * b.toNat < 2 ^ 32 then some (a * b) else none

def checkedDiv (a b : UInt32) : Option UInt32 :=
  if b = 0 then none else some (a / b)

section

variable {a b : UInt32}

theorem checkedAdd_eq (h : a.toNat + b.toNat < 2 ^ 32) :
    ∃ c, checkedAdd a b = some c ∧ c.toNat = a.toNat + b.toNat := by
  refine ⟨a + b, if_pos h, ?_⟩
  rw [UInt32.toNat_add, Nat.mod_eq_of_lt h]

theorem checkedSub_eq (h : b.toNat ≤ a.toNat) :
    ∃ c, checkedSub a b = some c ∧ c.toNat = a.toNat - b.toNat := by
  have hle : b ≤ a := UInt32.le_iff_toNat_le.mpr h
  exact ⟨a - b, if_pos hle, UInt32.toNat_sub_of_le a b hle⟩

theorem checkedMul_eq (h : a.toNat * b.toNat < 2 ^ 32) :
    ∃ c, checkedMul a b = some c ∧ c.toNat = a.toNat * b.toNat := by
  refine ⟨a * b, if_pos h, ?_⟩
  rw [UInt32.toNat_mul, Nat.mod_eq_of_lt h]

theorem checkedDiv_eq (h : 0 < b.toNat) :
    ∃ c, checkedDiv a b = some c ∧ c.toNat = a.toNat / b.toNat := by
  have hne : b ≠ 0 := by
    rintro rfl
    cases h
  exact ⟨a / b, if_neg hne, UInt32.toNat_div a b⟩

end

/-! ### The split -/

/-- One entry for each variant. An empty list of variants has an empty split. -/
def evenSplit (variants : List Variant) : Option (List WeightedVariant) :=
  if variants.isEmpty then some []
  else do
    -- the cast keeps the low 32 bits
    let count := variants.length.toUInt32
    let share ← checkedDiv totalWeight count
    let weights := variants.map fun variant => WeightedVariant.mk variant.key share
    let assigned ← checkedMul share count
    let left ← checkedSub totalWeight assigned
    match weights with
    | [] => none
    | first :: others => do
        let weight ← checkedAdd first.weight left
        some ({ first with weight } :: others)

/-- A split of the total among the variants: equal shares, and the rest, which is less than one unit
    for each variant, on top of the first. -/
structure EvenlySplit (variants : List Variant) (weights : List WeightedVariant) : Prop where
  keys : weights.map WeightedVariant.variant = variants.map Variant.key
  total : (weights.map fun entry => entry.weight.toNat).sum = totalWeight.toNat
  shares : ∃ first others share, weights = first :: others ∧
    (∀ entry ∈ others, entry.weight = share) ∧ share ≤ first.weight ∧
    first.weight.toNat - share.toNat < variants.length

/-- No operation on the way overflows: the assigned shares are at most the total, and what they
    leave brings the first back to no more than it. -/
theorem evenSplit_eq {variants : List Variant} (hne : variants ≠ [])
    (hlen : variants.length < 2 ^ 32) :
    ∃ weights, evenSplit variants = some weights ∧ EvenlySplit variants weights := by
  cases variants with
  | nil => exact absurd rfl hne
  | cons variant variants =>
      have hcount : (variant :: variants).length.toUInt32.toNat = variants.length + 1 := by
        simpa using hlen
      have htotal : totalWeight.toNat = 100000 := rfl
      generalize hn : (variant :: variants).length.toUInt32 = count at hcount
      obtain ⟨share, hshare, hshareNat⟩ := checkedDiv_eq (a := totalWeight) (b := count) (by omega)
      have hassignedLe : share.toNat * count.toNat ≤ totalWeight.toNat := by
        rw [hshareNat]
        exact Nat.div_mul_le_self _ _
      obtain ⟨assigned, hassigned, hassignedNat⟩ :=
        checkedMul_eq (a := share) (b := count) (by omega)
      obtain ⟨left, hleft, hleftNat⟩ :=
        checkedSub_eq (a := totalWeight) (b := assigned) (by omega)
      have hone : share.toNat ≤ share.toNat * count.toNat :=
        Nat.le_mul_of_pos_right _ (by omega)
      obtain ⟨weight, hweight, hweightNat⟩ := checkedAdd_eq (a := share) (b := left) (by omega)
      have hrest : left.toNat < variants.length + 1 := by
        rw [hleftNat, hassignedNat, hshareNat, ← hcount]
        have hmod := Nat.div_add_mod' totalWeight.toNat count.toNat
        have hlt := Nat.mod_lt totalWeight.toNat (y := count.toNat) (by omega)
        omega
      refine ⟨⟨variant.key, weight⟩ :: variants.map fun v => ⟨v.key, share⟩, ?_, ?_, ?_, ?_⟩
      · rw [evenSplit, if_neg (by simp)]
        simp only [hn, hshare, hassigned, hleft, hweight, List.map_cons, Option.bind_eq_bind,
          Option.bind_some]
      · simp [Function.comp_def]
      · have hothers : ((variants.map fun v => WeightedVariant.mk v.key share).map
            fun entry => entry.weight.toNat).sum = variants.length * share.toNat := by
          simp [Function.comp_def]
        rw [List.map_cons, List.sum_cons, hothers, hweightNat, hleftNat, hassignedNat, hcount]
        rw [hcount] at hassignedLe
        have hexpand : share.toNat * (variants.length + 1) =
            variants.length * share.toNat + share.toNat := by
          rw [Nat.mul_succ, Nat.mul_comm]
        omega
      · refine ⟨_, _, share, rfl, ?_, ?_, ?_⟩
        · intro entry hentry
          obtain ⟨v, _, rfl⟩ := List.mem_map.mp hentry
          rfl
        · rw [UInt32.le_iff_toNat_le]
          exact hweightNat ▸ Nat.le_add_right _ _
        · rw [hweightNat, Nat.add_sub_cancel_left]
          exact hrest

/-- The sum in 64 bits is that of the naturals, as far as it fits. -/
theorem toNat_weightSum (weights : List WeightedVariant) :
    (Bucket.weightSum weights).toNat =
      (weights.map fun entry => entry.weight.toNat).sum % 2 ^ 64 := by
  induction weights with
  | nil => rfl
  | cons entry weights ih =>
      rw [Bucket.weightSum, List.map_cons, List.sum_cons, UInt64.toNat_add, ← Bucket.weightSum, ih,
        UInt32.toNat_toUInt64, List.map_cons, List.sum_cons, Nat.add_mod_mod]

theorem weightSum_of_sum {weights : List WeightedVariant} {total : UInt32}
    (h : (weights.map fun entry => entry.weight.toNat).sum = total.toNat) :
    Bucket.weightSum weights = total.toUInt64 := by
  have hfits : total.toNat < 2 ^ 64 := total.toNat_lt.trans (by decide)
  rw [← UInt64.toNat_inj, toNat_weightSum, h, Nat.mod_eq_of_lt hfits, UInt32.toNat_toUInt64]

/-- Validation accepts the rollout, whatever path it is reported under. -/
theorem EvenlySplit.accepted {variants : List Variant} {weights : List WeightedVariant}
    (h : EvenlySplit variants weights) (hdistinct : (variants.map Variant.key).Nodup)
    (path : String) :
    Validate.checkDistribution (.rollout weights none) path (variants.map Variant.key) = [] := by
  rw [Validate.checkDistribution_eq_nil_iff]
  obtain ⟨first, others, share, hweights, _⟩ := h.shares
  refine .rollout ?_ ?_ ?_ (weightSum_of_sum h.total) ?_
  · rw [hweights]
    exact List.cons_ne_nil _ _
  · rwa [h.keys]
  · intro entry hentry
    rw [← h.keys]
    exact List.mem_map_of_mem hentry
  · intro name hname
    cases hname

/-- An even split is a valid rollout, also of more variants than there are units: the shares differ by
    one at most, add up to the whole, and pass the check of a distribution. -/
theorem even_split_valid (variants : List Variant) (hne : variants ≠ [])
    (hdistinct : (variants.map Variant.key).Nodup) (hlen : variants.length < 2 ^ 32) :
    ∃ weights, evenSplit variants = some weights ∧ EvenlySplit variants weights ∧
      ∀ path, Validate.checkDistribution (.rollout weights none) path
        (variants.map Variant.key) = [] := by
  obtain ⟨weights, heq, hsplit⟩ := evenSplit_eq hne hlen
  exact ⟨weights, heq, hsplit, fun path => hsplit.accepted hdistinct path⟩

/-- Three variants: the first gets the unit that is left. -/
def three : List Variant :=
  [⟨"a", .bool true⟩, ⟨"b", .bool false⟩, ⟨"c", .null⟩]

theorem even_split_valid_three :
    evenSplit three = some [⟨"a", 33334⟩, ⟨"b", 33333⟩, ⟨"c", 33333⟩] ∧
      ∃ weights, evenSplit three = some weights ∧ EvenlySplit three weights ∧
        ∀ path, Validate.checkDistribution (.rollout weights none) path
          (three.map Variant.key) = [] :=
  ⟨by decide +kernel, even_split_valid three (by simp [three]) (by decide) (by decide)⟩

end FlagForge.Web
