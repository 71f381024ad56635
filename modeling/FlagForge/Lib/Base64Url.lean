/-
Module: FlagForge.Lib.Base64Url
Layer: Lib
Purpose: The URL-safe base64 text of a byte string, without padding, and which bytes put an underscore
  into it.
Imports: none
Trusted boundary: none
Main exports: Base64Url.digit, Base64Url.encode, Base64Url.Underscored,
  Base64Url.underscore_mem_encode_iff
-/

namespace FlagForge.Base64Url

/-- The digit of a number below 64. -/
def digit (n : Nat) : Char :=
  if n < 26 then Char.ofNat (65 + n)
  else if n < 52 then Char.ofNat (71 + n)
  else if n < 62 then Char.ofNat (n - 4)
  else if n = 62 then '-'
  else '_'

/-- The 24 bits of three bytes are four digits; what is left over is filled up with zero bits. -/
def encode : List UInt8 → List Char
  | b₀ :: b₁ :: b₂ :: rest =>
      let n := b₀.toNat * 65536 + b₁.toNat * 256 + b₂.toNat
      digit (n / 262144) :: digit (n / 4096 % 64) :: digit (n / 64 % 64) :: digit (n % 64) ::
        encode rest
  | [b₀, b₁] =>
      let n := b₀.toNat * 1024 + b₁.toNat * 4
      [digit (n / 4096), digit (n / 64 % 64), digit (n % 64)]
  | [b₀] =>
      let n := b₀.toNat * 16
      [digit (n / 64), digit (n % 64)]
  | [] => []

example : String.ofList (encode [0x14, 0xFB, 0x9C, 0x03, 0xD9, 0x7E]) = "FPucA9l-" := by decide

example : String.ofList (encode [0xFF, 0xFF]) = "__8" := by decide

/-- Sextets have different digits. -/
theorem digit_inj {m n : Nat} (hm : m < 64) (hn : n < 64) (h : digit m = digit n) : m = n := by
  have hall : ∀ m < 64, ∀ n < 64, digit m = digit n → m = n := by decide +kernel
  exact hall m hm n hn h

/-- A digit is told by its number. -/
theorem digit_eq_iff {m n : Nat} (hm : m < 64) (hn : n < 64) : digit m = digit n ↔ m = n :=
  ⟨digit_inj hm hn, fun h => h ▸ rfl⟩

/-! ### Digits and bytes -/

/-- A full group by its bytes: what one byte leaves over begins the digit that the next one ends. -/
theorem encode_group (b₀ b₁ b₂ : UInt8) (rest : List UInt8) :
    encode (b₀ :: b₁ :: b₂ :: rest) =
      digit (b₀.toNat / 4) :: digit (b₀.toNat % 4 * 16 + b₁.toNat / 16) ::
        digit (b₁.toNat % 16 * 4 + b₂.toNat / 64) :: digit (b₂.toNat % 64) :: encode rest := by
  have h₁ := b₁.toNat_lt
  have h₂ := b₂.toNat_lt
  have hfirst : (b₀.toNat * 65536 + b₁.toNat * 256 + b₂.toNat) / 262144 = b₀.toNat / 4 := by omega
  have hsecond : (b₀.toNat * 65536 + b₁.toNat * 256 + b₂.toNat) / 4096 % 64 =
      b₀.toNat % 4 * 16 + b₁.toNat / 16 := by omega
  have hthird : (b₀.toNat * 65536 + b₁.toNat * 256 + b₂.toNat) / 64 % 64 =
      b₁.toNat % 16 * 4 + b₂.toNat / 64 := by omega
  have hlast : (b₀.toNat * 65536 + b₁.toNat * 256 + b₂.toNat) % 64 = b₂.toNat % 64 := by omega
  rw [encode, hfirst, hsecond, hthird, hlast]

/-- Two bytes that are left over make three digits. -/
theorem encode_pair (b₀ b₁ : UInt8) :
    encode [b₀, b₁] = [digit (b₀.toNat / 4), digit (b₀.toNat % 4 * 16 + b₁.toNat / 16),
      digit (b₁.toNat % 16 * 4)] := by
  have h₁ := b₁.toNat_lt
  have hfirst : (b₀.toNat * 1024 + b₁.toNat * 4) / 4096 = b₀.toNat / 4 := by omega
  have hsecond : (b₀.toNat * 1024 + b₁.toNat * 4) / 64 % 64 =
      b₀.toNat % 4 * 16 + b₁.toNat / 16 := by omega
  have hlast : (b₀.toNat * 1024 + b₁.toNat * 4) % 64 = b₁.toNat % 16 * 4 := by omega
  rw [encode, hfirst, hsecond, hlast]

/-- One makes two. -/
theorem encode_single (b₀ : UInt8) :
    encode [b₀] = [digit (b₀.toNat / 4), digit (b₀.toNat % 4 * 16)] := by
  have hfirst : b₀.toNat * 16 / 64 = b₀.toNat / 4 := by omega
  have hlast : b₀.toNat * 16 % 64 = b₀.toNat % 4 * 16 := by omega
  rw [encode, hfirst, hlast]

/-- The bytes of a group that put an underscore into its text: six bits of ones, by where they stand. -/
def Marked (b₀ b₁ b₂ : UInt8) : Prop :=
  0xFC ≤ b₀.toNat ∨ b₀.toNat % 4 = 3 ∧ 0xF0 ≤ b₁.toNat ∨ b₁.toNat % 16 = 15 ∧ 0xC0 ≤ b₂.toNat ∨
    b₂.toNat % 64 = 63

instance (b₀ b₁ b₂ : UInt8) : Decidable (Marked b₀ b₁ b₂) :=
  inferInstanceAs (Decidable (_ ∨ _))

/-- Some group of three bytes, or the bytes left over, put an underscore into the text. -/
def Underscored : List UInt8 → Prop
  | b₀ :: b₁ :: b₂ :: rest => Marked b₀ b₁ b₂ ∨ Underscored rest
  | [b₀, b₁] => 0xFC ≤ b₀.toNat ∨ b₀.toNat % 4 = 3 ∧ 0xF0 ≤ b₁.toNat
  | [b₀] => 0xFC ≤ b₀.toNat
  | [] => False

instance Underscored.decidable : (bytes : List UInt8) → Decidable (Underscored bytes)
  | b₀ :: b₁ :: b₂ :: rest =>
      have := Underscored.decidable rest
      inferInstanceAs (Decidable (Marked b₀ b₁ b₂ ∨ Underscored rest))
  | [b₀, b₁] => inferInstanceAs (Decidable (0xFC ≤ b₀.toNat ∨ b₀.toNat % 4 = 3 ∧ 0xF0 ≤ b₁.toNat))
  | [b₀] => inferInstanceAs (Decidable (0xFC ≤ b₀.toNat))
  | [] => inferInstanceAs (Decidable False)

/-- The text has an underscore where six bits of the bytes are ones. -/
theorem underscore_mem_encode_iff (bytes : List UInt8) : '_' ∈ encode bytes ↔ Underscored bytes := by
  have hdigit : ∀ {m : Nat}, m < 64 → ('_' = digit m ↔ m = 63) := by
    intro m hm
    rw [eq_comm]
    exact digit_eq_iff hm (by decide : 63 < 64)
  fun_induction Underscored bytes with
  | case1 b₀ b₁ b₂ rest ih =>
      have h₀ := b₀.toNat_lt
      have h₁ := b₁.toNat_lt
      have h₂ := b₂.toNat_lt
      rw [encode_group, Marked]
      simp only [List.mem_cons, ih]
      rw [hdigit (by omega), hdigit (by omega), hdigit (by omega), hdigit (by omega)]
      by_cases hrest : Underscored rest
      · simp [hrest]
      · simp only [hrest, or_false]
        omega
  | case2 b₀ b₁ =>
      have h₀ := b₀.toNat_lt
      have h₁ := b₁.toNat_lt
      rw [encode_pair]
      simp only [List.mem_cons, List.not_mem_nil, or_false]
      rw [hdigit (by omega), hdigit (by omega), hdigit (by omega)]
      omega
  | case3 b₀ =>
      have h₀ := b₀.toNat_lt
      rw [encode_single]
      simp only [List.mem_cons, List.not_mem_nil, or_false]
      rw [hdigit (by omega), hdigit (by omega)]
      omega
  | case4 => simp [encode]

end FlagForge.Base64Url
