/-
Module: FlagForge.Lib.Utf8
Layer: Lib
Purpose: Which bytes follow each other in UTF-8 text.
Imports: Mathlib.Data.List.Chain
Trusted boundary: none
Main exports: Utf8.Plausible, Utf8.plausible_flatMap, Utf8.map_toNat_of_ascii
-/
import Mathlib.Data.List.Chain

namespace FlagForge.Utf8

/-- The byte begins a character: it is one of ASCII, or the first of several. -/
def Begins (b : UInt8) : Prop :=
  b.toNat < 0x80 ∨ 0xC0 ≤ b.toNat

/-- The bytes of a character: one of ASCII, or a first one and those that continue it. -/
theorem utf8EncodeChar_cases (c : Char) :
    (∃ b, String.utf8EncodeChar c = [b] ∧ b.toNat < 0x80) ∨
      ∃ b rest, String.utf8EncodeChar c = b :: rest ∧ 0xC0 ≤ b.toNat ∧ b.toNat < 0xF5 ∧
        ∀ b' ∈ rest, 0x80 ≤ b'.toNat ∧ b'.toNat < 0xC0 := by
  have hvalid : c.val.toNat < 0x110000 := by
    have hc := c.valid
    simp only [UInt32.isValidChar, Nat.isValidChar] at hc
    omega
  rw [String.utf8EncodeChar]
  split
  · rename_i hascii
    refine .inl ⟨_, rfl, ?_⟩
    rw [UInt8.toNat_ofNat']
    omega
  · refine .inr ?_
    split
    · refine ⟨_, _, rfl, ?_, ?_, ?_⟩ <;>
        simp only [List.mem_singleton, forall_eq, UInt8.toNat_ofNat'] <;> omega
    · split
      · refine ⟨_, _, rfl, ?_, ?_, ?_⟩ <;>
          simp only [List.mem_cons, List.not_mem_nil, or_false, forall_eq_or_imp, forall_eq,
            UInt8.toNat_ofNat'] <;> omega
      · refine ⟨_, _, rfl, ?_, ?_, ?_⟩ <;>
          simp only [List.mem_cons, List.not_mem_nil, or_false, forall_eq_or_imp, forall_eq,
            UInt8.toNat_ofNat'] <;> omega

/-- What is needed here of the bytes of a text: none is from 0xF5 on, and after a character of ASCII
    another one begins. -/
structure Plausible (bytes : List UInt8) : Prop where
  bounded : ∀ b ∈ bytes, b.toNat < 0xF5
  chained : bytes.IsChain fun a b => a.toNat < 0x80 → Begins b

namespace Plausible

theorem tail {b : UInt8} {bytes : List UInt8} (h : Plausible (b :: bytes)) : Plausible bytes where
  bounded c hc := h.bounded c (List.mem_cons_of_mem _ hc)
  chained := h.chained.tail

theorem append {bytes bytes' : List UInt8} (h : Plausible bytes) (h' : Plausible bytes')
    (hbegins : ∀ b ∈ bytes'.head?, Begins b) : Plausible (bytes ++ bytes') where
  bounded b hb := (List.mem_append.mp hb).elim (h.bounded b) (h'.bounded b)
  chained := h.chained.append h'.chained fun _ _ b hb _ => hbegins b hb

end Plausible

theorem plausible_utf8EncodeChar (c : Char) :
    Plausible (String.utf8EncodeChar c) ∧ ∀ b ∈ (String.utf8EncodeChar c).head?, Begins b := by
  rcases utf8EncodeChar_cases c with ⟨b, henc, hascii⟩ | ⟨b, rest, henc, hlow, hhigh, hrest⟩
  · rw [henc]
    simp only [List.head?_cons, Option.mem_some_iff, forall_eq']
    refine ⟨⟨?_, .singleton _⟩, .inl (by omega)⟩
    simp only [List.mem_singleton, forall_eq]
    omega
  · rw [henc]
    simp only [List.head?_cons, Option.mem_some_iff, forall_eq']
    have hbeyond : ∀ b' ∈ b :: rest, 0x80 ≤ b'.toNat ∧ b'.toNat < 0xF5 := by
      refine List.forall_mem_cons.mpr ⟨by omega, fun b' hb' => ?_⟩
      have := hrest b' hb'
      omega
    refine ⟨⟨fun b' hb' => (hbeyond b' hb').2, ?_⟩, .inr hlow⟩
    -- no byte of the character is one of ASCII
    refine (List.pairwise_iff_forall_sublist.mpr fun {a b'} hsub hascii => ?_).isChain
    have := hbeyond a (hsub.subset List.mem_cons_self)
    omega

/-- The bytes of a text are plausible. -/
theorem plausible_flatMap (chars : List Char) :
    Plausible (chars.flatMap String.utf8EncodeChar) ∧
      ∀ b ∈ (chars.flatMap String.utf8EncodeChar).head?, Begins b := by
  induction chars with
  | nil => exact ⟨⟨by simp, .nil⟩, by simp⟩
  | cons c chars ih =>
      obtain ⟨hc, hbegins⟩ := plausible_utf8EncodeChar c
      rw [List.flatMap_cons]
      refine ⟨hc.append ih.1 ih.2, fun b hb => ?_⟩
      rw [List.head?_append] at hb
      cases hhead : (String.utf8EncodeChar c).head? with
      | none =>
          rw [hhead] at hb
          exact ih.2 b hb
      | some b' =>
          rw [hhead] at hb
          exact hbegins b (hhead ▸ hb)

/-- Text of ASCII takes one byte for each character, its number. -/
theorem map_toNat_of_ascii {chars : List Char} (h : ∀ c ∈ chars, c.toNat < 0x80) :
    (chars.flatMap String.utf8EncodeChar).map UInt8.toNat = chars.map Char.toNat := by
  induction chars with
  | nil => rfl
  | cons c chars ih =>
      rw [List.forall_mem_cons] at h
      rw [List.flatMap_cons, List.map_append, ih h.2, List.map_cons]
      have hsmall : c.val.toNat ≤ 0x7F := Nat.le_of_lt_succ h.1
      have hsize : (String.utf8EncodeChar c).map UInt8.toNat = [c.toNat] := by
        rw [String.utf8EncodeChar, if_pos hsmall, List.map_singleton, UInt8.toNat_ofNat',
          Nat.mod_eq_of_lt (by omega)]
        rfl
      rw [hsize, List.singleton_append]

end FlagForge.Utf8
