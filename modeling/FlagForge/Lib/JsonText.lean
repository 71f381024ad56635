/-
Module: FlagForge.Lib.JsonText
Layer: Lib
Purpose: The compact text of a JSON tree, and its size in bytes. The order of the fields of an object
  does not matter to the size, so writing a tree through the ordered value keeps it.
Imports: FlagForge.Lib.Json, Mathlib.Algebra.BigOperators.Group.List.Basic
Trusted boundary: the text of a float is given
Main exports: Json.quoted, Json.text, Json.size_text_array, Json.size_text_object, Json.toList_ofList_perm
-/
import FlagForge.Lib.Json
import Mathlib.Algebra.BigOperators.Group.List.Basic

namespace FlagForge.Json

/-- The characters from here on are written as they are, but for the quote and the backslash. -/
def firstPlain : Nat := 0x20

def hexDigit (n : Nat) : Char :=
  Char.ofNat (if n < 10 then 48 + n else 87 + n)

/-- A character inside a string literal. -/
def escape (c : Char) : List Char :=
  if c.toNat = 34 ∨ c.toNat = 92 then [Char.ofNat 92, c]
  else if c.toNat = 8 then [Char.ofNat 92, 'b']
  else if c.toNat = 9 then [Char.ofNat 92, 't']
  else if c.toNat = 10 then [Char.ofNat 92, 'n']
  else if c.toNat = 12 then [Char.ofNat 92, 'f']
  else if c.toNat = 13 then [Char.ofNat 92, 'r']
  else if c.toNat < firstPlain then
    [Char.ofNat 92, 'u', '0', '0', hexDigit (c.toNat / 16), hexDigit (c.toNat % 16)]
  else [c]

/-- A string literal. -/
def quoted (s : String) : String :=
  String.ofList (Char.ofNat 34 :: s.toList.flatMap escape ++ [Char.ofNat 34])

/-- The texts with commas between them. -/
def joined : List String → String
  | [] => ""
  | [s] => s
  | s :: rest => s ++ "," ++ joined rest

section

variable (floatText : Float → String)

def numberText : JsonNumber → String
  | .posInt n => Nat.repr n.toNat
  | .negInt n _ => "-" ++ Nat.repr n.toInt.natAbs
  | .float x _ => floatText x

mutual

/-- The compact text of a tree. -/
def text : Json → String
  | .null => "null"
  | .bool b => if b then "true" else "false"
  | .number n => numberText floatText n
  | .string s => quoted s
  | .array items => "[" ++ joined (texts items) ++ "]"
  | .object fields => "\x7b" ++ joined (fieldTexts fields) ++ "\x7d"

def texts : List Json → List String
  | [] => []
  | item :: items => text item :: texts items

def fieldTexts : List (String × Json) → List String
  | [] => []
  | (key, value) :: fields => (quoted key ++ ":" ++ text value) :: fieldTexts fields

end

end

/-! ### Sizes -/

variable {floatText : Float → String}

/-- No character of the string has to be escaped. -/
def Plain (s : String) : Prop :=
  ∀ c ∈ s.toList, escape c = [c]

instance {s : String} : Decidable (Plain s) :=
  inferInstanceAs (Decidable (∀ c ∈ s.toList, escape c = [c]))

theorem isAlphanum_iff {c : Char} :
    c.isAlphanum = true ↔ 65 ≤ c.toNat ∧ c.toNat ≤ 90 ∨ 97 ≤ c.toNat ∧ c.toNat ≤ 122 ∨
      48 ≤ c.toNat ∧ c.toNat ≤ 57 := by
  change ((decide (65 ≤ c.val ∧ c.val ≤ 90) || (97 ≤ c.val && c.val ≤ 122)) ||
    (48 ≤ c.val && c.val ≤ 57)) = true ↔ _
  simp only [Bool.or_eq_true, Bool.and_eq_true, decide_eq_true_eq, UInt32.le_iff_toNat_le]
  exact or_assoc

/-- A letter or a digit is not escaped. -/
theorem escape_of_isAlphanum {c : Char} (h : c.isAlphanum = true) : escape c = [c] := by
  rw [isAlphanum_iff] at h
  have hrange : 48 ≤ c.toNat ∧ c.toNat ≠ 92 := by omega
  rw [escape, firstPlain]
  simp only [show ¬(c.toNat = 34 ∨ c.toNat = 92) by omega, show ¬c.toNat = 8 by omega,
    show ¬c.toNat = 9 by omega, show ¬c.toNat = 10 by omega, show ¬c.toNat = 12 by omega,
    show ¬c.toNat = 13 by omega, show ¬c.toNat < 0x20 by omega, if_false]

/-- Characters of one byte each. -/
theorem size_ofList : ∀ {chars : List Char}, (∀ c ∈ chars, c.utf8Size = 1) →
    (String.ofList chars).utf8ByteSize = chars.length
  | [], _ => rfl
  | c :: chars, h => by
      have hsplit : String.ofList (c :: chars) = String.singleton c ++ String.ofList chars := by
        rw [String.singleton_eq_ofList, ← String.ofList_append]
        rfl
      rw [List.forall_mem_cons] at h
      rw [hsplit, String.utf8ByteSize_append, String.utf8ByteSize_singleton, h.1, size_ofList h.2,
        List.length_cons, Nat.add_comm]

/-- A letter or a digit takes one byte. -/
theorem utf8Size_of_isAlphanum {c : Char} (h : c.isAlphanum = true) : c.utf8Size = 1 := by
  rw [isAlphanum_iff] at h
  rw [Char.utf8Size_eq_one_iff, UInt32.le_iff_toNat_le]
  change c.toNat ≤ 127
  omega

/-- A number takes a byte for each digit. -/
theorem size_repr (n : Nat) : (Nat.repr n).utf8ByteSize = (Nat.toDigits 10 n).length := by
  apply size_ofList
  intro c hc
  apply utf8Size_of_isAlphanum
  rw [Char.isAlphanum, Nat.isDigit_of_mem_toDigits (by decide) (by decide) hc, Bool.or_true]

theorem size_quoted {s : String} (h : Plain s) :
    (quoted s).utf8ByteSize = s.utf8ByteSize + 2 := by
  have hsame : s.toList.flatMap escape = s.toList := by
    rw [List.flatMap_congr (g := fun c => [c]) h, List.flatMap_singleton']
  have happend : quoted s = String.ofList [Char.ofNat 34] ++ s ++ String.ofList [Char.ofNat 34] := by
    rw [quoted, hsame, ← List.singleton_append, String.ofList_append, String.ofList_append,
      String.ofList_toList]
  rw [happend, String.utf8ByteSize_append, String.utf8ByteSize_append]
  simp only [show (String.ofList [Char.ofNat 34]).utf8ByteSize = 1 by decide]
  omega

/-- The texts, and a comma before each but the first. -/
theorem size_joined : ∀ {parts : List String}, parts ≠ [] →
    (joined parts).utf8ByteSize + 1 = (parts.map fun s => s.utf8ByteSize + 1).sum
  | [s], _ => by simp [joined]
  | s :: s' :: rest, _ => by
      have hrest := @size_joined (s' :: rest) (by simp)
      rw [joined, String.utf8ByteSize_append, String.utf8ByteSize_append, List.map_cons,
        List.sum_cons, ← hrest]
      simp only [show (",": String).utf8ByteSize = 1 by decide]
      · omega
      · simp

theorem texts_eq (items : List Json) : texts floatText items = items.map (text floatText) := by
  induction items with
  | nil => rw [texts, List.map_nil]
  | cons item items ih => rw [texts, List.map_cons, ih]

theorem fieldTexts_eq (fields : List (String × Json)) : fieldTexts floatText fields =
    fields.map fun f => quoted f.1 ++ ":" ++ text floatText f.2 := by
  induction fields with
  | nil => rw [fieldTexts, List.map_nil]
  | cons f fields ih =>
      obtain ⟨key, value⟩ := f
      rw [fieldTexts, List.map_cons, ih]

/-- The bytes of a nonempty array: its items, a separator with each, and one bracket more. -/
theorem size_text_array {items : List Json} (h : items ≠ []) :
    (text floatText (.array items)).utf8ByteSize =
      (items.map fun item => (text floatText item).utf8ByteSize + 1).sum + 1 := by
  have hparts := @size_joined (items.map (text floatText)) (by simpa using h)
  rw [List.map_map] at hparts
  rw [text, texts_eq, String.utf8ByteSize_append, String.utf8ByteSize_append]
  simp only [show ("[" : String).utf8ByteSize = 1 by decide,
    show ("]" : String).utf8ByteSize = 1 by decide]
  change _ = (items.map ((fun s => s.utf8ByteSize + 1) ∘ text floatText)).sum + 1
  omega

/-- The bytes of a field, its separator included. -/
def fieldSize (floatText : Float → String) (f : String × Json) : Nat :=
  (quoted f.1).utf8ByteSize + (text floatText f.2).utf8ByteSize + 2

/-- The bytes of a nonempty object. -/
theorem size_text_object {fields : List (String × Json)} (h : fields ≠ []) :
    (text floatText (.object fields)).utf8ByteSize =
      (fields.map (fieldSize floatText)).sum + 1 := by
  have hparts := @size_joined (fields.map fun f => quoted f.1 ++ ":" ++ text floatText f.2)
    (by simpa using h)
  have hsizes : (fields.map fun f => quoted f.1 ++ ":" ++ text floatText f.2).map
      (fun s => s.utf8ByteSize + 1) = fields.map (fieldSize floatText) := by
    rw [List.map_map]
    apply List.map_congr_left
    intro f _
    simp only [Function.comp_apply, String.utf8ByteSize_append, fieldSize,
      show (":" : String).utf8ByteSize = 1 by decide]
    omega
  rw [hsizes] at hparts
  rw [text, fieldTexts_eq, String.utf8ByteSize_append, String.utf8ByteSize_append]
  simp only [show ("\x7b" : String).utf8ByteSize = 1 by decide,
    show ("\x7d" : String).utf8ByteSize = 1 by decide]
  omega

/-- A map holds the entries it is made of, if their keys are distinct. -/
theorem toList_ofList_perm {α : Type} {entries : List (String × α)}
    (h : (entries.map Prod.fst).Nodup) :
    (Std.ExtTreeMap.ofList entries compare).toList.Perm entries := by
  have hlist : (Std.ExtTreeMap.ofList entries compare).toList.Nodup := by
    refine List.Pairwise.imp ?_ Std.ExtTreeMap.distinct_keys_toList
    intro a b hne heq
    exact hne (by rw [heq]; exact Std.ReflCmp.compare_self)
  rw [List.perm_ext_iff_of_nodup hlist (List.Nodup.of_map _ h)]
  intro e
  refine ⟨mem_toList_ofList, ?_⟩
  intro he
  rw [Std.ExtTreeMap.mem_toList_iff_getElem?_eq_some]
  apply Std.ExtTreeMap.getElem?_ofList_of_mem Std.ReflCmp.compare_self _ he
  rw [List.nodup_iff_pairwise_ne, List.pairwise_map] at h
  refine List.Pairwise.imp ?_ h
  intro a b hne heq
  exact hne (Std.LawfulEqOrd.compare_eq_iff_eq.mp heq)

theorem toValues_eq (items : List Json) : toValues items = items.map toValue := by
  induction items with
  | nil => rw [toValues, List.map_nil]
  | cons item items ih => rw [toValues, List.map_cons, ih]

/-- An object with one field. -/
theorem toValue_object_singleton (key : String) (value : Json) :
    (Json.object [(key, value)]).toValue = .object [(key, value.toValue)] := by
  have hkeys : ([(key, value.toValue)].map Prod.fst).Nodup := List.nodup_singleton _
  have hperm := toList_ofList_perm hkeys
  rw [toValue, toValueFields, toValueFields, List.perm_singleton.mp hperm]

/-- Ordering the fields of an object keeps its size. -/
theorem size_text_toValue {fields : List (String × Json)} (h : fields ≠ [])
    (hkeys : (fields.map Prod.fst).Nodup) (hvalues : ∀ f ∈ fields, f.2.toValue = f.2) :
    (text floatText (Json.object fields).toValue).utf8ByteSize =
      (fields.map (fieldSize floatText)).sum + 1 := by
  have hperm := toList_ofList_perm hkeys
  have hne : (Std.ExtTreeMap.ofList fields compare).toList ≠ [] := by
    intro hnil
    rw [hnil] at hperm
    exact h hperm.symm.eq_nil
  rw [toValue, toValueFields_of_forall hvalues, size_text_object hne,
    (hperm.map _).sum_eq]

end FlagForge.Json
