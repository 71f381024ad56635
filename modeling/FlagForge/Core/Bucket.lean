/-
Module: FlagForge.Core.Bucket
Layer: Core
Purpose: Deterministic traffic bucketing, and the walk over cumulative weights that turns a bucket
  into a variant. Whether an accumulator of 64 bits may wrap never matters: the walk ends on the
  same sum validation compares.
Imports: FlagForge.Core.Flag, Mathlib.Data.UInt
Trusted boundary: none (the hash function is a parameter)
Main exports: Bucket.bucket, Bucket.bucket_lt, Bucket.pickWeighted, Bucket.exists_of_pickWeighted,
  Bucket.pickWeighted_isSome
-/
import FlagForge.Core.Flag
import Mathlib.Data.UInt

namespace FlagForge.Bucket

/-- The bytes of a 64-bit number, most significant first. -/
def toBeBytes (n : UInt64) : List UInt8 :=
  (List.range 8).map fun i => (n >>> (56 - 8 * i).toUInt64).toUInt8

/-- The 64-bit number with the given bytes, most significant first. -/
def fromBeBytes (bytes : List UInt8) : UInt64 :=
  bytes.foldl (fun acc byte => acc <<< 8 ||| byte.toUInt64) 0

/-- What the hasher is fed: every part behind its length, so that no two triples collide. -/
def hasherInput (parts : List String) : List UInt8 :=
  parts.flatMap fun part => toBeBytes part.utf8ByteSize.toUInt64 ++ part.toUTF8.toList

/-- Maps a subject onto `[0, totalWeight)`. -/
def bucket (sha256 : List UInt8 → Vector UInt8 32) (salt flagKey subject : String) : UInt32 :=
  let digest := sha256 (hasherInput [salt, flagKey, subject])
  let head := fromBeBytes (digest.toList.take 8)
  (head % totalWeight.toUInt64).toUInt32

/-- The bucket of a subject is one of the 100000. -/
theorem bucket_lt (sha256 : List UInt8 → Vector UInt8 32) (salt flagKey subject : String) :
    bucket sha256 salt flagKey subject < totalWeight := by
  have hmod := Nat.mod_lt (fromBeBytes
    ((sha256 (hasherInput [salt, flagKey, subject])).toList.take 8)).toNat
    (y := 100000) (by decide)
  rw [UInt32.lt_iff_toNat_lt]
  simp only [bucket, totalWeight, UInt64.toNat_toUInt32, UInt64.toNat_mod]
  simpa using Nat.lt_of_le_of_lt (Nat.mod_le _ _) hmod

/-- The walk of `pickWeighted` from a weight already passed. -/
def pickWeightedFrom (bucket : UInt32) : UInt64 → List WeightedVariant → Option String
  | _, [] => none
  | cumulative, entry :: weights =>
      let cumulative := cumulative + entry.weight.toUInt64
      if bucket.toUInt64 < cumulative then some entry.variant
      else pickWeightedFrom bucket cumulative weights

/-- Walks the cumulative weights and returns the variant owning `bucket`. -/
def pickWeighted (weights : List WeightedVariant) (bucket : UInt32) : Option String :=
  pickWeightedFrom bucket 0 weights

/-- The total weight of a rollout, summed in 64 bits. -/
def weightSum (weights : List WeightedVariant) : UInt64 :=
  (weights.map fun entry => entry.weight.toUInt64).sum

/-- The invariant of the walk is that the weight passed so far is at most the bucket. So the entry
    that ends it has moved the sum, and its weight is not zero. -/
theorem exists_of_pickWeightedFrom {bucket : UInt32} {key : String} :
    ∀ {weights : List WeightedVariant} {cumulative : UInt64}, cumulative ≤ bucket.toUInt64 →
      pickWeightedFrom bucket cumulative weights = some key →
      ∃ entry ∈ weights, entry.variant = key ∧ 0 < entry.weight
  | [], _, _, h => by cases h
  | entry :: weights, cumulative, hle, h => by
      rw [pickWeightedFrom] at h
      split at h
      · next hlt =>
        refine ⟨entry, List.mem_cons_self, Option.some.inj h, ?_⟩
        by_contra hzero
        have hweight : entry.weight = 0 := by simpa using hzero
        rw [hweight] at hlt
        have hsame : cumulative + (0 : UInt32).toUInt64 = cumulative := by simp
        rw [hsame] at hlt
        exact absurd hlt (UInt64.not_lt.mpr hle)
      · next hge =>
        obtain ⟨e, he, hkey, hpos⟩ := exists_of_pickWeightedFrom (UInt64.not_lt.mp hge) h
        exact ⟨e, List.mem_cons_of_mem _ he, hkey, hpos⟩

/-- A walk that finds nothing has passed the whole sum, which is then at most the bucket. -/
theorem sum_le_of_pickWeightedFrom {bucket : UInt32} :
    ∀ {weights : List WeightedVariant} {cumulative : UInt64}, cumulative ≤ bucket.toUInt64 →
      pickWeightedFrom bucket cumulative weights = none →
      cumulative + weightSum weights ≤ bucket.toUInt64
  | [], cumulative, hle, _ => by simpa [weightSum] using hle
  | entry :: weights, cumulative, _, h => by
      rw [pickWeightedFrom] at h
      split at h
      · cases h
      · next hge =>
        have hrest := sum_le_of_pickWeightedFrom (UInt64.not_lt.mp hge) h
        rwa [UInt64.add_assoc] at hrest

/-- What is picked is an entry with a weight. -/
theorem exists_of_pickWeighted {weights : List WeightedVariant} {bucket : UInt32} {key : String}
    (h : pickWeighted weights bucket = some key) :
    ∃ entry ∈ weights, entry.variant = key ∧ 0 < entry.weight :=
  exists_of_pickWeightedFrom (by simp [UInt64.le_iff_toNat_le]) h

/-- Weights that sum to the total cover every bucket. -/
theorem pickWeighted_isSome {weights : List WeightedVariant} {bucket : UInt32}
    (hsum : weightSum weights = totalWeight.toUInt64) (hlt : bucket < totalWeight) :
    ∃ key, pickWeighted weights bucket = some key := by
  rw [← Option.ne_none_iff_exists']
  intro hnone
  have hle := sum_le_of_pickWeightedFrom (by simp [UInt64.le_iff_toNat_le]) hnone
  rw [UInt64.zero_add, hsum, UInt64.le_iff_toNat_le] at hle
  rw [UInt32.lt_iff_toNat_lt] at hlt
  simp only [UInt32.toNat_toUInt64] at hle
  omega

end FlagForge.Bucket
