/-
Module: FlagForge.Api.ClaimedScope
Layer: Api
Purpose: Which user tokens are taken for SDK keys, told from the bytes of the e-mail they are issued
  for. A token claims a scope exactly when the literal of the e-mail has the letter U+0716 and a slash
  where they spell the scope of a client's key, or puts no underscore into the text while the signature
  spells a scope. Of an e-mail of ASCII only the signature is left.
Imports: FlagForge.Lib.Utf8, FlagForge.Api.Tokens
Trusted boundary: the text of an identifier is hyphenated hexadecimal
Main exports: SpellsClient, spelled_encode_iff, Hyphenated, payloadText_iff, claimedScope_issue_iff,
  claimedScope_issue_of_ascii, token_taken_for_key
-/
import FlagForge.Lib.Utf8
import FlagForge.Api.Tokens

namespace FlagForge.Api

open Bucket (utf8 utf8_eq_flatMap)

/-! ### Scopes in base64url text

Between two underscores that a scope stands between are four digits, so both end at the same place of
their groups. In UTF-8 that leaves one place and one scope: bits of ones that end with a byte from 0xC0
on, and the letters `cli`. -/

open Base64Url (encode Marked Underscored)

/-- What the letter U+0716 goes on with, a slash, and the first byte of another character of several. -/
def Completes : List UInt8 → Prop
  | b₀ :: b₁ :: b₂ :: _ => b₀ = 0x96 ∧ b₁ = 0x2F ∧ 0xC0 ≤ b₂.toNat
  | _ => False

instance : (bytes : List UInt8) → Decidable (Completes bytes)
  | _ :: _ :: _ :: _ => inferInstanceAs (Decidable (_ ∧ _))
  | [_, _] | [_] | [] => inferInstanceAs (Decidable False)

/-- The first group of three bytes with an underscore spells `_cli_` with the next: its last byte begins
    the letter U+0716, behind a byte that ends in four ones, and a slash follows and then a character
    beyond ASCII. -/
def SpellsClient : List UInt8 → Prop
  | b₀ :: b₁ :: b₂ :: rest =>
      if Marked b₀ b₁ b₂ then b₁.toNat % 16 = 15 ∧ b₂ = 0xDC ∧ Completes rest else SpellsClient rest
  | _ => False

instance SpellsClient.decidable : (bytes : List UInt8) → Decidable (SpellsClient bytes)
  | b₀ :: b₁ :: b₂ :: rest =>
      have := SpellsClient.decidable rest
      inferInstanceAs (Decidable (if Marked b₀ b₁ b₂ then _ else SpellsClient rest))
  | [_, _] | [_] | [] => inferInstanceAs (Decidable False)

/-- The text goes on with a scope and an underscore. -/
def ScopeFollows (s : List Char) : Prop :=
  ∃ (scope : KeyScope) (after : List Char), s = scope.label.toList ++ '_' :: after

/-- A scope and an underscore are four characters. -/
theorem ScopeFollows.length {s : List Char} (h : ScopeFollows s) : 4 ≤ s.length := by
  obtain ⟨scope, after, rfl⟩ := h
  cases scope <;> simp [KeyScope.label]

/-- Which four. -/
theorem scopeFollows_cons₄ {c₀ c₁ c₂ c₃ : Char} {s : List Char} : ScopeFollows (c₀ :: c₁ :: c₂ :: c₃ :: s) ↔
    c₃ = '_' ∧ (c₀ = 's' ∧ c₁ = 'r' ∧ c₂ = 'v' ∨ c₀ = 'c' ∧ c₁ = 'l' ∧ c₂ = 'i') := by
  constructor
  · rintro ⟨scope, after, heq⟩
    cases scope <;> simp [KeyScope.label] at heq <;> simp [heq]
  · rintro ⟨rfl, ⟨rfl, rfl, rfl⟩ | ⟨rfl, rfl, rfl⟩⟩
    · exact ⟨.server, s, rfl⟩
    · exact ⟨.client, s, rfl⟩

/-- The digits of the scopes. -/
theorem scopeFollows_digits {m₀ m₁ m₂ m₃ : Nat} (h₀ : m₀ < 64) (h₁ : m₁ < 64) (h₂ : m₂ < 64) (h₃ : m₃ < 64)
    {s : List Char} : ScopeFollows (Base64Url.digit m₀ :: Base64Url.digit m₁ :: Base64Url.digit m₂ ::
      Base64Url.digit m₃ :: s) ↔
        m₃ = 63 ∧ (m₀ = 44 ∧ m₁ = 43 ∧ m₂ = 47 ∨ m₀ = 28 ∧ m₁ = 37 ∧ m₂ = 34) := by
  rw [scopeFollows_cons₄, show '_' = Base64Url.digit 63 from rfl, show 's' = Base64Url.digit 44 from rfl,
    show 'r' = Base64Url.digit 43 from rfl, show 'v' = Base64Url.digit 47 from rfl,
    show 'c' = Base64Url.digit 28 from rfl, show 'l' = Base64Url.digit 37 from rfl,
    show 'i' = Base64Url.digit 34 from rfl]
  simp only [Base64Url.digit_eq_iff, h₀, h₁, h₂, h₃, Nat.reduceLT]

section Groups

variable {b₀ b₁ b₂ : UInt8} {rest : List UInt8}

/-- No scope stands behind an underscore that is the second digit of its group: in UTF-8 the second byte
    is from 0xF0 to 0xF4 then. -/
theorem not_scopeFollows_second (hlow : 0xF0 ≤ b₁.toNat) (hhigh : b₁.toNat < 0xF5) {s : List Char} :
    ¬ ScopeFollows (Base64Url.digit (b₁.toNat % 16 * 4 + b₂.toNat / 64) :: s) := by
  have h₂ := b₂.toNat_lt
  rintro ⟨scope, after, heq⟩
  have hdigit : b₁.toNat % 16 * 4 + b₂.toNat / 64 = 44 ∨ b₁.toNat % 16 * 4 + b₂.toNat / 64 = 28 := by
    cases scope with
    | server => exact .inl (Base64Url.digit_inj (by omega) (by decide) (List.cons.inj heq).1)
    | client => exact .inr (Base64Url.digit_inj (by omega) (by decide) (List.cons.inj heq).1)
  omega

/-- Behind an underscore that is the third digit of its group stands the scope of a client's key, if
    one does. -/
theorem scopeFollows_third (h : Utf8.Plausible rest) (hlow : 0xC0 ≤ b₂.toNat) :
    ScopeFollows (Base64Url.digit (b₂.toNat % 64) :: encode rest) ↔ b₂ = 0xDC ∧ Completes rest := by
  have h₂ := b₂.toNat_lt
  match rest with
  | [] => exact ⟨fun hf => by have := hf.length; simp [encode] at this, fun hc => hc.2.elim⟩
  | [x] => exact ⟨fun hf => by have := hf.length; simp [encode] at this, fun hc => hc.2.elim⟩
  | [x, y] =>
      have hx := x.toNat_lt
      have hy := y.toNat_lt
      rw [Base64Url.encode_pair, scopeFollows_digits (by omega) (by omega) (by omega) (by omega)]
      refine ⟨fun hf => ?_, fun hc => hc.2.elim⟩
      omega
  | x :: y :: z :: more =>
      have hx := x.toNat_lt
      have hy := h.bounded y (by simp)
      have hz := z.toNat_lt
      rw [Base64Url.encode_group, scopeFollows_digits (by omega) (by omega) (by omega) (by omega), Completes,
        ← UInt8.toNat_inj, ← UInt8.toNat_inj, ← UInt8.toNat_inj]
      simp only [UInt8.reduceToNat]
      omega

/-- No scope stands between two underscores that end their groups: its last byte would continue a
    character that is one of ASCII. -/
theorem not_scopeFollows_fourth (h : Utf8.Plausible rest) : ¬ ScopeFollows (encode rest) := by
  intro hf
  match rest with
  | [] | [_] | [_, _] =>
      have hlength := hf.length
      simp [encode] at hlength
  | x :: y :: z :: more =>
      have hx := x.toNat_lt
      have hy := y.toNat_lt
      have hz := h.bounded z (by simp)
      have hbegins : y.toNat < 0x80 → z.toNat < 0x80 ∨ 0xC0 ≤ z.toNat := by
        have hchained := h.chained
        rw [List.isChain_cons_cons, List.isChain_cons_cons] at hchained
        exact hchained.2.1
      rw [Base64Url.encode_group, scopeFollows_digits (by omega) (by omega) (by omega) (by omega)] at hf
      omega

/-- A group without an underscore may stand in front. -/
theorem spelled_unmarked (h : ¬ Marked b₀ b₁ b₂) :
    Spelled (encode (b₀ :: b₁ :: b₂ :: rest)) ↔ Spelled (encode rest) := by
  have hgroup : '_' ∉ encode [b₀, b₁, b₂] := by
    rw [Base64Url.underscore_mem_encode_iff]
    simpa [Underscored] using h
  have hsplit : encode (b₀ :: b₁ :: b₂ :: rest) = encode [b₀, b₁, b₂] ++ encode rest := by
    rw [Base64Url.encode_group, Base64Url.encode_group]
    simp [encode]
  rw [hsplit, spelled_append hgroup]

/-- The first group with an underscore, by the digit that is one. -/
theorem spelled_marked (h : Utf8.Plausible (b₀ :: b₁ :: b₂ :: rest)) (hmarked : Marked b₀ b₁ b₂) :
    Spelled (encode (b₀ :: b₁ :: b₂ :: rest)) ↔
      b₁.toNat % 16 = 15 ∧ b₂ = 0xDC ∧ Completes rest := by
  have hb₀ := h.bounded b₀ (by simp)
  have hb₁ := h.bounded b₁ (by simp)
  have hb₂ := h.bounded b₂ (by simp)
  have hdigit : ∀ {m : Nat}, m < 64 → (Base64Url.digit m = '_' ↔ m = 63) :=
    fun hm => Base64Url.digit_eq_iff hm (by decide : 63 < 64)
  have hdc : b₂ = 0xDC ↔ b₂.toNat = 0xDC := UInt8.toNat_inj.symm
  rw [Base64Url.encode_group, spelled_cons (by rw [Ne, hdigit (by omega)]; omega)]
  by_cases hsecond : b₀.toNat % 4 = 3 ∧ 0xF0 ≤ b₁.toNat
  · rw [(hdigit (by omega)).mpr (show b₀.toNat % 4 * 16 + b₁.toNat / 16 = 63 by omega),
      spelled_underscore]
    refine iff_of_false (not_scopeFollows_second hsecond.2 hb₁) ?_
    rintro ⟨hones, _, _⟩
    omega
  rw [spelled_cons (by rw [Ne, hdigit (by omega)]; omega)]
  by_cases hthird : b₁.toNat % 16 = 15 ∧ 0xC0 ≤ b₂.toNat
  · rw [(hdigit (by omega)).mpr (show b₁.toNat % 16 * 4 + b₂.toNat / 64 = 63 by omega),
      spelled_underscore]
    refine (scopeFollows_third h.tail.tail.tail hthird.2).trans ?_
    simp [hthird.1]
  · have hfourth : b₂.toNat % 64 = 63 := by
      unfold Marked at hmarked
      omega
    rw [spelled_cons (by rw [Ne, hdigit (by omega)]; omega), (hdigit (by omega)).mpr hfourth,
      spelled_underscore]
    refine iff_of_false (not_scopeFollows_fourth h.tail.tail.tail) ?_
    rintro ⟨hones, hlast, _⟩
    rw [hdc] at hlast
    omega

end Groups

/-- Where the text of plausible bytes spells a scope, it is that of a client's key. -/
theorem spelled_encode_iff {bytes : List UInt8} (h : Utf8.Plausible bytes) :
    Spelled (encode bytes) ↔ SpellsClient bytes := by
  fun_induction SpellsClient bytes with
  | case1 b₀ b₁ b₂ rest hmarked => exact spelled_marked h hmarked
  | case2 b₀ b₁ b₂ rest hmarked ih => rw [spelled_unmarked hmarked, ih h.tail.tail.tail]
  | case3 bytes hshort =>
      -- what is left over is too short
      refine iff_of_false (fun hspelled => ?_) id
      have hlength := hspelled.length
      match bytes with
      | [] | [_] | [_, _] => simp [encode] at hlength
      | x :: y :: z :: rest => exact hshort x y z rest rfl

/-! ### The bytes of the claims

Before the e-mail stand 99 bytes, 33 groups, and none of them nor of those behind it puts an underscore
anywhere: what the text of the claims spells, the literal of the e-mail spells. -/

/-- A byte of ASCII that puts no underscore into any group. -/
def Calm (n : Nat) : Prop :=
  n < 0x80 ∧ n % 64 ≠ 63

instance (n : Nat) : Decidable (Calm n) :=
  inferInstanceAs (Decidable (_ ∧ _))

def CalmBytes (bytes : List UInt8) : Prop :=
  ∀ b ∈ bytes, Calm b.toNat

section CalmBytes

variable {rest : List UInt8}

/-- Calm bytes put no underscore into their group. -/
theorem not_marked_of_calm {b₀ b₁ b₂ : UInt8} (h₀ : Calm b₀.toNat) (h₁ : Calm b₁.toNat)
    (h₂ : Calm b₂.toNat) : ¬ Marked b₀ b₁ b₂ := by
  unfold Calm at h₀ h₁ h₂
  unfold Marked
  omega

/-- Whole groups of calm bytes may stand in front. -/
theorem lead_calm : ∀ {lead : List UInt8}, CalmBytes lead → lead.length % 3 = 0 →
    (Underscored (lead ++ rest) ↔ Underscored rest) ∧ (SpellsClient (lead ++ rest) ↔ SpellsClient rest)
  | [], _, _ => ⟨Iff.rfl, Iff.rfl⟩
  | [_], _, h | [_, _], _, h => by cases h
  | b₀ :: b₁ :: b₂ :: lead, hcalm, h => by
      have hlead : lead.length % 3 = 0 := by
        simp only [List.length_cons] at h
        omega
      obtain ⟨ihu, ihs⟩ := lead_calm (fun b hb => hcalm b (by simp [hb])) hlead
      have hgroup := not_marked_of_calm (hcalm b₀ (by simp)) (hcalm b₁ (by simp)) (hcalm b₂ (by simp))
      refine ⟨(or_iff_right hgroup).trans ihu, ?_⟩
      rw [List.cons_append, List.cons_append, List.cons_append, SpellsClient, if_neg hgroup]
      exact ihs

/-- Nor into any. -/
theorem not_underscored_of_calm : ∀ {bytes : List UInt8}, CalmBytes bytes → ¬ Underscored bytes
  | [], _ => id
  | [b₀], h => by
      have h₀ := h b₀ (by simp)
      simp only [Underscored, Calm] at h₀ ⊢
      omega
  | [b₀, b₁], h => by
      have h₀ := h b₀ (by simp)
      have h₁ := h b₁ (by simp)
      simp only [Underscored, Calm] at h₀ h₁ ⊢
      omega
  | b₀ :: b₁ :: b₂ :: rest, h => by
      rintro (hmarked | hrest)
      · exact not_marked_of_calm (h b₀ (by simp)) (h b₁ (by simp)) (h b₂ (by simp)) hmarked
      · exact not_underscored_of_calm (fun b hb => h b (by simp [hb])) hrest

/-- What does not come to an underscore does not come to one in front of a scope. -/
theorem underscored_of_spellsClient : ∀ {bytes : List UInt8}, SpellsClient bytes → Underscored bytes
  | b₀ :: b₁ :: b₂ :: rest, h => by
      rw [SpellsClient] at h
      split at h
      · exact .inl ‹_›
      · exact .inr (underscored_of_spellsClient h)
  | [_, _], h | [_], h | [], h => h.elim

/-- So they spell nothing. -/
theorem not_spellsClient_of_calm {bytes : List UInt8} (h : CalmBytes bytes) : ¬ SpellsClient bytes :=
  fun hspells => not_underscored_of_calm h (underscored_of_spellsClient hspells)

/-- Calm bytes behind the literal do not complete what it begins. -/
theorem completes_append_calm {tail : List UInt8} (htail : CalmBytes tail) :
    ∀ {bytes : List UInt8}, (∀ h : bytes ≠ [], Calm (bytes.getLast h).toNat) →
      (Completes (bytes ++ tail) ↔ Completes bytes)
  | [], _ => by
      refine iff_of_false (fun hcompletes => ?_) id
      match tail with
      | [] | [_] | [_, _] => exact hcompletes
      | b₀ :: _ :: _ :: _ =>
          have hb₀ := htail b₀ (by simp)
          rw [hcompletes.1] at hb₀
          exact absurd hb₀ (by decide)
  | [b₀], h => by
      refine iff_of_false (fun hcompletes => ?_) id
      have hb₀ := h (by simp)
      match tail with
      | [] | [_] => exact hcompletes
      | _ :: _ :: _ =>
          rw [List.getLast_singleton, hcompletes.1] at hb₀
          exact absurd hb₀ (by decide)
  | [b₀, b₁], _ => by
      refine iff_of_false (fun hcompletes => ?_) id
      match tail with
      | [] => exact hcompletes
      | b₂ :: _ =>
          have hb₂ := htail b₂ (by simp)
          exact absurd (Nat.lt_of_lt_of_le hb₂.1 (by decide)) (Nat.not_lt.mpr hcompletes.2.2)
  | _ :: _ :: _ :: _, _ => Iff.rfl

/-- Calm bytes may stand behind, if the last one before them is calm. -/
theorem tail_calm {tail : List UInt8} (htail : CalmBytes tail) :
    ∀ {bytes : List UInt8}, (∀ h : bytes ≠ [], Calm (bytes.getLast h).toNat) →
      (Underscored (bytes ++ tail) ↔ Underscored bytes) ∧
        (SpellsClient (bytes ++ tail) ↔ SpellsClient bytes)
  | [], _ => ⟨iff_of_false (not_underscored_of_calm htail) id,
      iff_of_false (not_spellsClient_of_calm htail) id⟩
  | [b₀], h => by
      have hcalm : CalmBytes [b₀] := by simpa [CalmBytes] using h (by simp)
      have hall : CalmBytes ([b₀] ++ tail) := List.forall_mem_append.mpr ⟨hcalm, htail⟩
      exact ⟨iff_of_false (not_underscored_of_calm hall) (not_underscored_of_calm hcalm),
        iff_of_false (not_spellsClient_of_calm hall) id⟩
  | [b₀, b₁], h => by
      have hb₁ : Calm b₁.toNat := h (by simp)
      match tail with
      | [] => exact ⟨Iff.rfl, Iff.rfl⟩
      | c :: tail =>
          have hc := htail c (by simp)
          have hrest : CalmBytes tail := fun b hb => htail b (by simp [hb])
          refine ⟨?_, iff_of_false (fun hspells => ?_) id⟩
          · change Marked b₀ b₁ c ∨ Underscored tail ↔ _
            rw [or_iff_left (not_underscored_of_calm hrest)]
            simp only [Marked, Underscored, Calm] at hb₁ hc ⊢
            omega
          · rw [List.cons_append, List.cons_append, List.nil_append, SpellsClient] at hspells
            split at hspells
            · rw [hspells.2.1] at hc
              exact absurd hc (by decide)
            · exact not_spellsClient_of_calm hrest hspells
  | b₀ :: b₁ :: b₂ :: rest, h => by
      have hlast : ∀ hne : rest ≠ [], Calm (rest.getLast hne).toNat := by
        intro hne
        have hthis := h (by simp)
        rwa [List.getLast_cons (by simp), List.getLast_cons (by simp), List.getLast_cons hne] at hthis
      obtain ⟨ihu, ihs⟩ := tail_calm htail hlast
      refine ⟨or_congr_right ihu, ?_⟩
      rw [List.cons_append, List.cons_append, List.cons_append, SpellsClient, SpellsClient,
        completes_append_calm htail hlast, ihs]

end CalmBytes

/-- The characters whose bytes are calm. -/
def CalmText (s : String) : Prop :=
  ∀ c ∈ s.toList, Calm c.toNat

instance (s : String) : Decidable (CalmText s) :=
  List.decidableBAll _ _

theorem CalmText.append {s t : String} (hs : CalmText s) (ht : CalmText t) : CalmText (s ++ t) := by
  intro c hc
  rw [String.toList_append, List.mem_append] at hc
  exact hc.elim (hs c) (ht c)

/-- The bytes of calm text, one for each character. -/
theorem CalmText.bytes {s : String} (h : CalmText s) :
    CalmBytes (utf8 s) ∧ (utf8 s).length = s.toList.length := by
  have hmap : (utf8 s).map UInt8.toNat = s.toList.map Char.toNat := by
    rw [utf8_eq_flatMap]
    exact Utf8.map_toNat_of_ascii fun c hc => (h c hc).1
  constructor
  · intro b hb
    have hmem : b.toNat ∈ s.toList.map Char.toNat := hmap ▸ List.mem_map_of_mem hb
    obtain ⟨c, hc, heq⟩ := List.mem_map.mp hmem
    rw [← heq]
    exact h c hc
  · simpa using congrArg List.length hmap

/-- A literal of calm characters is calm. -/
theorem calm_quoted {s : String} (hplain : Json.Plain s) (h : CalmText s) :
    CalmText (Json.quoted s) ∧ (Json.quoted s).toList.length = s.toList.length + 2 := by
  have hsame : s.toList.flatMap Json.escape = s.toList := by
    rw [List.flatMap_congr (g := fun c => [c]) hplain, List.flatMap_singleton']
  have hlist : (Json.quoted s).toList = '"' :: s.toList ++ ['"'] := by
    rw [Json.quoted, hsame, String.toList_ofList]
  constructor
  · intro c hc
    rw [hlist, List.cons_append, List.mem_cons, List.mem_append, List.mem_singleton] at hc
    rcases hc with rfl | hc | rfl
    · decide
    · exact h c hc
    · decide
  · rw [hlist]
    simp

theorem calm_repr (n : Nat) : CalmText (Nat.repr n) := by
  intro c hc
  have hdigit : c.isDigit = true :=
    Nat.isDigit_of_mem_toDigits (b := 10) (by decide) (by decide) (by simpa [Nat.repr] using hc)
  have hrange : 48 ≤ c.toNat ∧ c.toNat ≤ 57 := by
    rw [Char.isDigit, Bool.and_eq_true, decide_eq_true_eq, decide_eq_true_eq] at hdigit
    exact hdigit
  unfold Calm
  omega

theorem calm_serI64 (n : Int64) (floatText : Float → String) :
    CalmText (Json.text floatText (Json.serI64 n)) := by
  rw [Json.serI64]
  split
  · exact CalmText.append (by decide) (calm_repr _)
  · exact calm_repr _

/-- The hyphenated text of an identifier, as the crate writes it. -/
structure Hyphenated (text : String) : Prop where
  length : text.toList.length = 36
  digits : ∀ c ∈ text.toList, c ∈ "0123456789abcdef-".toList

instance (text : String) : Decidable (Hyphenated text) :=
  have := List.decidableBAll (· ∈ "0123456789abcdef-".toList) text.toList
  decidable_of_iff (text.toList.length = 36 ∧ ∀ c ∈ text.toList, c ∈ "0123456789abcdef-".toList)
    ⟨fun h => ⟨h.1, h.2⟩, fun h => ⟨h.1, h.2⟩⟩

/-- Digits and hyphens are calm. -/
theorem Hyphenated.calm {text : String} (h : Hyphenated text) :
    CalmText (Json.quoted text) ∧ (Json.quoted text).toList.length = 38 := by
  have hall : ∀ c ∈ "0123456789abcdef-".toList, Json.escape c = [c] ∧ Calm c.toNat := by
    simpa only [List.all_eq_true, decide_eq_true_eq] using
      show "0123456789abcdef-".toList.all (fun c => Json.escape c = [c] ∧ Calm c.toNat) = true by decide
  have hquoted := calm_quoted (fun c hc => (hall c (h.digits c hc)).1) fun c hc =>
    (hall c (h.digits c hc)).2
  exact ⟨hquoted.1, by rw [hquoted.2, h.length]⟩

/-! ### The text of the claims -/

section Payload

/-- The text of the claims in front of the e-mail. -/
def textBefore (crates : Crates) (claims : Claims) : String :=
  "\x7b\"sub\":" ++ Json.quoted (crates.uuidText claims.sub) ++ ",\"org\":" ++
    Json.quoted (crates.uuidText claims.org) ++ ",\"email\":"

/-- The text of the claims behind the e-mail. -/
def textBehind (crates : Crates) (claims : Claims) : String :=
  ",\"role\":" ++ Json.quoted claims.role.asStr ++ ",\"iat\":" ++
    Json.text (fun _ => "") (Json.serI64 claims.iat) ++ ",\"exp\":" ++
    Json.text (fun _ => "") (Json.serI64 claims.exp) ++ ",\"jti\":" ++
    Json.quoted (crates.uuidText claims.jti) ++ "\x7d"

theorem text_ser (crates : Crates) (claims : Claims) : Json.text (fun _ => "") (claims.ser crates) =
    textBefore crates claims ++ Json.quoted claims.email ++ textBehind crates claims := by
  have hkeys : Json.quoted "sub" = "\"sub\"" ∧ Json.quoted "org" = "\"org\"" ∧
      Json.quoted "email" = "\"email\"" ∧ Json.quoted "role" = "\"role\"" ∧
      Json.quoted "iat" = "\"iat\"" ∧ Json.quoted "exp" = "\"exp\"" ∧
      Json.quoted "jti" = "\"jti\"" := by decide
  obtain ⟨hsub, horg, hemail, hrole, hiat, hexp, hjti⟩ := hkeys
  simp only [Claims.ser, Json.text, Json.fieldTexts, Json.joined, hsub, horg, hemail, hrole, hiat, hexp,
    hjti]
  -- by `delta`: the equation of a definition that joins many literals is slow to derive
  delta textBefore textBehind
  rw [← String.toList_inj]
  simp

variable {crates : Crates} (huuid : ∀ id, Hyphenated (crates.uuidText id)) (claims : Claims)

include huuid

/-- In front of the e-mail stand whole groups of calm bytes. -/
theorem calm_textBefore : CalmBytes (utf8 (textBefore crates claims)) ∧
    (utf8 (textBefore crates claims)).length = 99 := by
  have hsub := (huuid claims.sub).calm
  have horg := (huuid claims.org).calm
  have hcalm : CalmText (textBefore crates claims) :=
    (((CalmText.append (by decide) hsub.1).append (by decide)).append horg.1).append (by decide)
  refine ⟨hcalm.bytes.1, hcalm.bytes.2.trans ?_⟩
  delta textBefore
  simp only [String.toList_append, List.length_append, hsub.2, horg.2]
  decide

/-- What stands behind the e-mail is calm: numbers, the texts of identifiers and of a role, and the
    field names. -/
theorem calm_textBehind : CalmBytes (utf8 (textBehind crates claims)) := by
  have hrole : CalmText (Json.quoted claims.role.asStr) := by cases claims.role <;> decide
  have hbefore := ((CalmText.append (by decide : CalmText ",\"role\":") hrole).append
    (by decide : CalmText ",\"iat\":")).append (calm_serI64 claims.iat fun _ => "")
  have hexp := (hbefore.append (by decide : CalmText ",\"exp\":")).append
    (calm_serI64 claims.exp fun _ => "")
  have hall := (hexp.append (by decide : CalmText ",\"jti\":")).append (huuid claims.jti).calm.1
  exact (hall.append (by decide : CalmText "\x7d")).bytes.1

end Payload

/-- The last byte of a literal is its quote. -/
theorem getLast_utf8_quoted (s : String) (h : utf8 (Json.quoted s) ≠ []) :
    Calm ((utf8 (Json.quoted s)).getLast h).toNat := by
  have hsplit : utf8 (Json.quoted s) =
      (Char.ofNat 34 :: s.toList.flatMap Json.escape).flatMap String.utf8EncodeChar ++ [34] := by
    rw [utf8_eq_flatMap, Json.quoted, String.toList_ofList, List.flatMap_append]
    rfl
  simp only [hsplit, List.getLast_append_singleton]
  decide

/-- The text of the claims has an underscore, and spells a scope, where the literal of the e-mail does. -/
theorem payloadText_iff {crates : Crates} (huuid : ∀ id, Hyphenated (crates.uuidText id))
    (claims : Claims) :
    ('_' ∈ payloadText crates claims ↔ Underscored (utf8 (Json.quoted claims.email))) ∧
      (Spelled (payloadText crates claims) ↔ SpellsClient (utf8 (Json.quoted claims.email))) := by
  have hsplit : utf8 (Json.text (fun _ => "") (claims.ser crates)) =
      utf8 (textBefore crates claims) ++
        (utf8 (Json.quoted claims.email) ++ utf8 (textBehind crates claims)) := by
    rw [text_ser, utf8_eq_flatMap, utf8_eq_flatMap, utf8_eq_flatMap, utf8_eq_flatMap,
      String.toList_append, String.toList_append, List.flatMap_append, List.flatMap_append,
      List.append_assoc]
  have hplausible : Utf8.Plausible (utf8 (Json.text (fun _ => "") (claims.ser crates))) := by
    rw [utf8_eq_flatMap]
    exact (Utf8.plausible_flatMap _).1
  obtain ⟨hbefore, hlength⟩ := calm_textBefore huuid claims
  have hlead := @lead_calm (utf8 (Json.quoted claims.email) ++ utf8 (textBehind crates claims))
    (utf8 (textBefore crates claims)) hbefore (by rw [hlength])
  have htail := tail_calm (calm_textBehind huuid claims) (getLast_utf8_quoted claims.email)
  rw [payloadText, Base64Url.underscore_mem_encode_iff, spelled_encode_iff hplausible, hsplit]
  exact ⟨hlead.1.trans htail.1, hlead.2.trans htail.2⟩

/-! ### Claimed scopes -/

/-- A token claims a scope when the literal of the e-mail spells that of a client's key, or has no
    underscore and the signature spells one. -/
theorem claimedScope_issue {crates : Crates} (huuid : ∀ id, Hyphenated (crates.uuidText id)) (jwt : Jwt)
    (secret : String) (claims : Claims) :
    claimedScope (issue crates jwt secret claims) = none ↔
      ¬ (SpellsClient (utf8 (Json.quoted claims.email)) ∨
        ¬ Underscored (utf8 (Json.quoted claims.email)) ∧
          SpellsLabel (signatureText crates jwt secret claims)) := by
  have hheader : '_' ∉ encode jwt.header ++ ['.'] := by
    simpa using jwt.header_plain
  have hskip : secondField (issue crates jwt secret claims).toList =
      secondField (payloadText crates claims ++ '.' :: signatureText crates jwt secret claims) := by
    refine Eq.trans ?_ (secondField_append hheader _)
    simp [issue]
  obtain ⟨hunderscore, hspelled⟩ := payloadText_iff huuid claims
  rw [claimedScope_eq_none_iff, SpellsLabel, hskip, ← SpellsLabel, spellsLabel_join, hspelled,
    hunderscore]

/-- Bytes of ASCII spell no scope. -/
theorem not_spellsClient_of_ascii : ∀ {bytes : List UInt8}, (∀ b ∈ bytes, b.toNat < 0x80) →
    ¬ SpellsClient bytes
  | b₀ :: b₁ :: b₂ :: rest, h => by
      rw [SpellsClient]
      split
      · rintro ⟨_, rfl, _⟩
        exact absurd (h 0xDC (by simp)) (by decide)
      · exact not_spellsClient_of_ascii fun b hb => h b (by simp [hb])
  | [_, _], _ | [_], _ | [], _ => id

/-- The literal of an e-mail of ASCII is of ASCII, its escapes too. -/
theorem ascii_quoted {s : String} (h : ∀ c ∈ s.toList, c.toNat < 0x80) :
    ∀ b ∈ utf8 (Json.quoted s), b.toNat < 0x80 := by
  have hescape : ∀ n < 0x80, (Json.escape (Char.ofNat n)).all (·.toNat < 0x80) = true := by
    decide +kernel
  have hchars : ∀ c ∈ (Json.quoted s).toList, c.toNat < 0x80 := by
    intro c hc
    rw [Json.quoted, String.toList_ofList, List.cons_append, List.mem_cons, List.mem_append,
      List.mem_singleton, List.mem_flatMap] at hc
    rcases hc with rfl | ⟨d, hd, hc⟩ | rfl
    · decide
    · rw [← Char.ofNat_toNat d] at hc
      exact of_decide_eq_true (List.all_eq_true.mp (hescape d.toNat (h d hd)) c hc)
    · decide
  have hmap := Utf8.map_toNat_of_ascii hchars
  rw [← utf8_eq_flatMap] at hmap
  intro b hb
  have hmem : b.toNat ∈ (Json.quoted s).toList.map Char.toNat := hmap ▸ List.mem_map_of_mem hb
  obtain ⟨c, hc, heq⟩ := List.mem_map.mp hmem
  rw [← heq]
  exact hchars c hc

/-- Of an e-mail of ASCII only the signature is left that can spell a scope. -/
theorem claimedScope_issue_of_ascii {crates : Crates} (huuid : ∀ id, Hyphenated (crates.uuidText id))
    (jwt : Jwt) (secret : String) (claims : Claims) (hascii : ∀ c ∈ claims.email.toList, c.toNat < 0x80) :
    claimedScope (issue crates jwt secret claims) = none ↔
      ¬ (¬ Underscored (utf8 (Json.quoted claims.email)) ∧
        SpellsLabel (signatureText crates jwt secret claims)) := by
  rw [claimedScope_issue huuid, or_iff_right (not_spellsClient_of_ascii (ascii_quoted hascii))]

/-- Tokens and keys are told apart, but for tokens of an e-mail that spells the scope of a client's
    key, or has no underscore in its text while the signature spells a scope. A generated key claims
    its scope, whatever its random bytes. -/
theorem claimedScope_issue_iff {crates : Crates} (huuid : ∀ id, Hyphenated (crates.uuidText id))
    (jwt : Jwt) :
    (∀ secret userId organizationId email role now ttl jti,
      claimedScope (issue crates jwt secret
          (claimsOf userId organizationId email role now ttl jti)) = none ↔
        ¬ (SpellsClient (utf8 (Json.quoted email)) ∨ ¬ Underscored (utf8 (Json.quoted email)) ∧
          SpellsLabel (signatureText crates jwt secret
            (claimsOf userId organizationId email role now ttl jti)))) ∧
    ∀ scope bytes, claimedScope (secretOf scope bytes) = some scope := by
  constructor
  · intro secret userId organizationId email role now ttl jti
    exact claimedScope_issue huuid jwt secret _
  · exact claimedScope_secretOf

theorem hyphenated_plain : ∀ id, Hyphenated (Crates.plain.uuidText id) :=
  have hnil : Hyphenated "00000000-0000-0000-0000-000000000000" := by decide
  fun _ => hnil

/-- An owner with an address of ASCII and a signature without an underscore. -/
theorem claimedScope_issue_iff_ada :
    claimedScope (issue .plain .plain "secret"
      (claimsOf .nil .nil "ada@acme.test" .owner 1700000000 43200 .nil)) = none :=
  ((claimedScope_issue_iff hyphenated_plain .plain).1 "secret" .nil .nil "ada@acme.test" .owner
    1700000000 43200 .nil).mpr (by decide +kernel)

/-- An address with two Syriac letters, whose base64url text spells the scope of a client key. -/
def syriacEmail : String :=
  String.ofList ['o', Char.ofNat 0x716, '/', Char.ofNat 0x716, '@', 'a', 'c', 'm', 'e', '.', 't',
    'e', 's', 't']

/-- A token of that address is taken for a client key. -/
theorem token_taken_for_key :
    ¬ ∃ toLowercase : String → String, toLowercase syriacEmail = syriacEmail ∧
      ∀ jwt secret userId organizationId email role now ttl jti,
        AcceptedEmail toLowercase email →
        claimedScope (issue .plain jwt secret
          (claimsOf userId organizationId email role now ttl jti)) = none := by
  rintro ⟨toLowercase, hlower, hall⟩
  have htrim : trim syriacEmail = syriacEmail := by decide +kernel
  have haccepted : AcceptedEmail toLowercase syriacEmail :=
    ⟨syriacEmail, by rw [htrim, hlower], by decide +kernel⟩
  have hspells : SpellsClient (utf8 (Json.quoted syriacEmail)) := by decide +kernel
  have hnone := hall .plain "secret" .nil .nil syriacEmail .owner 1700000000 43200 .nil haccepted
  exact (claimedScope_issue hyphenated_plain .plain "secret" _).mp hnone (.inl hspells)

end FlagForge.Api
