/-
Module: FlagForge.Core.HashInput
Layer: Core
Purpose: What bucketing feeds to the hash function determines the triple it was made of, and no
  flag rollout feeds what a segment rollout does.
Imports: FlagForge.Lib.Framing, FlagForge.Core.EngineSoundness
Trusted boundary: none
Main exports: Bucket.fed, Bucket.hash_input_unambiguous
-/
import FlagForge.Lib.Framing
import FlagForge.Core.EngineSoundness

namespace FlagForge.Bucket

open Framing (frames Header)
open Matcher (segmentNamespace)
open Validate (validate isValidKey)

/-- The bytes in front of a part. -/
def lengthHeader (n : Nat) : List UInt8 :=
  toBeBytes n.toUInt64

/-- What the hasher is fed for three byte strings. -/
def fed (salt flagKey subject : List UInt8) : List UInt8 :=
  frames lengthHeader [salt, flagKey, subject]

/-- The bytes of a text. -/
def utf8 (s : String) : List UInt8 :=
  s.toUTF8.toList

/-- Reading bytes from a place on. -/
theorem toList_loop (bytes : ByteArray) (i : Nat) (r : List UInt8) :
    ByteArray.toList.loop bytes i r = r.reverse ++ bytes.data.toList.drop i := by
  fun_induction ByteArray.toList.loop bytes i r with
  | case1 i r hlt ih =>
      have hget : bytes.get! i = bytes.data[i] := by simp [ByteArray.get!, getElem!_pos, hlt]
      have hdrop : bytes.data.toList.drop i = bytes.data[i] :: bytes.data.toList.drop (i + 1) := by
        rw [List.drop_eq_getElem_cons (by simpa using hlt), Array.getElem_toList]
      rw [ih, hget, hdrop, List.reverse_cons, List.append_assoc, List.singleton_append]
  | case2 i r hge =>
      rw [List.drop_of_length_le (by simpa using hge), List.append_nil]

theorem utf8_eq (s : String) : utf8 s = s.toByteArray.data.toList := by
  simp [utf8, ByteArray.toList, toList_loop]

theorem utf8_eq_flatMap (s : String) : utf8 s = s.toList.flatMap String.utf8EncodeChar := by
  rw [utf8_eq, ← String.ofList_toList (s := s), String.toByteArray_ofList, String.toList_ofList,
    List.utf8Encode, List.data_toByteArray]

@[simp] theorem length_utf8 (s : String) : (utf8 s).length = s.utf8ByteSize := by
  simp [utf8_eq]

/-- Different texts have different bytes. -/
theorem utf8_injective {s t : String} (h : utf8 s = utf8 t) : s = t := by
  rw [utf8_eq, utf8_eq] at h
  rw [← String.toByteArray_inj]
  exact ByteArray.ext (Array.toList_inj.mp h)

/-- The hasher is fed the bytes of the three texts. -/
theorem hasherInput_eq (salt flagKey subject : String) :
    hasherInput [salt, flagKey, subject] = fed (utf8 salt) (utf8 flagKey) (utf8 subject) := by
  simp only [hasherInput, fed, frames, lengthHeader, List.flatMap_cons, List.flatMap_nil,
    length_utf8]
  rfl

/-- Eight bytes tell the number. -/
theorem toBeBytes_injective {m n : UInt64} (h : toBeBytes m = toBeBytes n) : m = n := by
  rw [toBeBytes, toBeBytes] at h
  -- the eight digits of the two numbers to the base 256
  simp [List.range_succ, ← UInt8.toNat_inj, UInt64.toNat_shiftRight,
    Nat.shiftRight_eq_div_pow] at h
  apply UInt64.toNat_inj.mp
  have hm := m.toNat_lt
  have hn := n.toNat_lt
  omega

/-- The length of a part stands in eight bytes before it, as long as it fits. -/
theorem lengthHeader_header : Header lengthHeader 8 (2 ^ 64) := by
  constructor
  · exact Nat.zero_lt_succ 7
  · intro n
    simp [lengthHeader, toBeBytes]
  · intro m hm n hn h
    have hsame : m % 2 ^ 64 = n % 2 ^ 64 := congrArg UInt64.toNat (toBeBytes_injective h)
    rwa [Nat.mod_eq_of_lt hm, Nat.mod_eq_of_lt hn] at hsame

/-- So what is fed to the hasher tells its parts. -/
theorem fed_injective {parts parts' : List (List UInt8)}
    (hparts : ∀ part ∈ parts, part.length < 2 ^ 64)
    (hparts' : ∀ part ∈ parts', part.length < 2 ^ 64)
    (h : frames lengthHeader parts = frames lengthHeader parts') : parts = parts' :=
  Framing.frames_injective lengthHeader_header hparts hparts' h

/-- Each text takes less than 2^64 bytes. -/
def Short (texts : List String) : Prop :=
  ∀ s ∈ texts, s.utf8ByteSize < 2 ^ 64

instance (texts : List String) : Decidable (Short texts) :=
  inferInstanceAs (Decidable (∀ s ∈ texts, s.utf8ByteSize < 2 ^ 64))

/-- And the texts that they are made of. -/
theorem hasherInput_injective {salt flagKey subject salt' flagKey' subject' : String}
    (hshort : Short [salt, flagKey, subject]) (hshort' : Short [salt', flagKey', subject'])
    (h : hasherInput [salt, flagKey, subject] = hasherInput [salt', flagKey', subject']) :
    salt = salt' ∧ flagKey = flagKey' ∧ subject = subject' := by
  rw [hasherInput_eq, hasherInput_eq] at h
  have hparts := fed_injective (by simpa [Short] using hshort) (by simpa [Short] using hshort') h
  simp only [List.cons.injEq, and_true] at hparts
  exact ⟨utf8_injective hparts.1, utf8_injective hparts.2.1, utf8_injective hparts.2.2⟩

/-- The colon keeps the namespace out of the key grammar. -/
theorem isValidKey_segmentNamespace (segmentKey : String) :
    isValidKey (segmentNamespace segmentKey) = false := by
  have hcolon : ':' ∈ (segmentNamespace segmentKey).toList := by
    simp only [segmentNamespace, String.toList_append, List.mem_append]
    exact .inl (by decide)
  rw [← Bool.not_eq_true]
  intro hvalid
  simp only [isValidKey, Bool.and_eq_true] at hvalid
  exact absurd (List.all_eq_true.mp hvalid.2 ':' hcolon) (by decide)

/-- Namespaces of different segments differ. -/
theorem segmentNamespace_injective {segmentKey segmentKey' : String}
    (h : segmentNamespace segmentKey = segmentNamespace segmentKey') :
    segmentKey = segmentKey' := by
  have hlist := congrArg String.toList h
  simp only [segmentNamespace, String.toList_append, List.append_cancel_left_eq] at hlist
  exact String.toList_inj.mp hlist

variable (crates : Crates)

/-- The hash input is unambiguous, and rollouts of flags and of segments have inputs apart: each part
    stands behind its length, and no key of a flag begins like the namespace of a segment. -/
theorem hash_input_unambiguous :
    (∀ salt flagKey subject salt' flagKey' subject' : List UInt8,
      (∀ part ∈ [salt, flagKey, subject, salt', flagKey', subject'], part.length < 2 ^ 64) →
      fed salt flagKey subject = fed salt' flagKey' subject' →
      salt = salt' ∧ flagKey = flagKey' ∧ subject = subject') ∧
    (∀ salt flagKey subject : String,
      hasherInput [salt, flagKey, subject] = fed (utf8 salt) (utf8 flagKey) (utf8 subject)) ∧
    (∀ (flag : Flag) (segmentKey salt subject salt' subject' : String),
      validate crates flag = .ok () →
      Short [salt, flag.key, subject] → Short [salt', segmentNamespace segmentKey, subject'] →
      hasherInput [salt, flag.key, subject] ≠
        hasherInput [salt', segmentNamespace segmentKey, subject']) ∧
    ∀ segmentKey segmentKey' salt subject salt' subject' : String, segmentKey ≠ segmentKey' →
      Short [salt, segmentNamespace segmentKey, subject] →
      Short [salt', segmentNamespace segmentKey', subject'] →
      hasherInput [salt, segmentNamespace segmentKey, subject] ≠
        hasherInput [salt', segmentNamespace segmentKey', subject'] := by
  refine ⟨?_, hasherInput_eq, ?_, ?_⟩
  · intro salt flagKey subject salt' flagKey' subject' hshort h
    have hparts := fed_injective (fun part hpart => hshort part (by grind))
      (fun part hpart => hshort part (by grind)) h
    simpa using hparts
  · intro flag segmentKey salt subject salt' subject' hvalid hshort hshort' h
    have hkey : isValidKey flag.key = true := ((Validate.validate_eq_ok_iff crates).mp hvalid).key
    rw [(hasherInput_injective hshort hshort' h).2.1, isValidKey_segmentNamespace] at hkey
    cases hkey
  · intro segmentKey segmentKey' salt subject salt' subject' hne hshort hshort' h
    exact hne (segmentNamespace_injective (hasherInput_injective hshort hshort' h).2.1)

/-- The split of the same letters, a flag and a segment of one key, and two segments. -/
theorem hash_input_unambiguous_checkout :
    fed [97, 98] [99] [] ≠ fed [97] [98, 99] [] ∧
    hasherInput ["salt", "checkout.v2", "user-1"] ≠
      hasherInput ["salt", segmentNamespace "checkout.v2", "user-1"] ∧
    hasherInput ["salt", segmentNamespace "beta", "user-1"] ≠
      hasherInput ["salt", segmentNamespace "staff", "user-1"] := by
  refine ⟨?_, ?_, ?_⟩
  · intro h
    have hparts := (hash_input_unambiguous .plain).1 _ _ _ _ _ _ (by decide) h
    exact absurd hparts.1 (by decide)
  · exact (hash_input_unambiguous .plain).2.2.1 Engine.halfOfAccounts "checkout.v2" "salt" "user-1"
      "salt" "user-1" (by decide) (by decide) (by decide)
  · exact (hash_input_unambiguous .plain).2.2.2 "beta" "staff" "salt" "user-1" "salt" "user-1"
      (by decide) (by decide) (by decide)

end FlagForge.Bucket
