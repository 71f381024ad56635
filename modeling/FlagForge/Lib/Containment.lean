/-
Module: FlagForge.Lib.Containment
Layer: Lib
Purpose: Containment of document values, as a database asks it of documents: an object contains another
  when it has its fields, with contained values, and an array when each of the other's elements is
  contained in one of its own. A stored document is the value of its text.
Imports: FlagForge.Lib.Json
Trusted boundary: none (the comparison of numbers is a parameter)
Main exports: Json.contains, Json.contains_array_singleton, Json.contains_object_singleton,
  Json.contains_toValue_object
-/
import FlagForge.Lib.Json

namespace FlagForge.Json

/-! ### Containment

The operator's exception for a scalar beside a whole document that is an array concerns scalars that
are documents of their own, and is left out. -/

section

variable (same : JsonNumber → JsonNumber → Bool)

mutual

/-- Whether the value `whole` contains a value. -/
def contains (whole : Json) : Json → Bool
  | .null => match whole with
      | .null => true
      | _ => false
  | .bool b => match whole with
      | .bool b' => b' = b
      | _ => false
  | .number n => match whole with
      | .number n' => same n' n
      | _ => false
  | .string s => match whole with
      | .string s' => s' = s
      | _ => false
  | .array parts => match whole with
      | .array items => containsItems items parts
      | _ => false
  | .object parts => match whole with
      | .object fields => containsFields fields parts
      | _ => false

/-- Whether each part is contained in one of the items. -/
def containsItems (items : List Json) : List Json → Bool
  | [] => true
  | part :: parts => items.any (fun item => contains item part) && containsItems items parts

/-- Whether each part is contained in the field of its name. -/
def containsFields (fields : List (String × Json)) : List (String × Json) → Bool
  | [] => true
  | (name, part) :: parts =>
      fields.any (fun field => field.1 = name && contains field.2 part) &&
        containsFields fields parts

end

end

section

variable {same : JsonNumber → JsonNumber → Bool} {part : Json} {name : String}

@[simp] theorem contains_string_string {s s' : String} :
    contains same (.string s') (.string s) = true ↔ s' = s := by
  simp [contains]

/-- An array contains an array of one part if one of its items does. -/
theorem contains_array_singleton {items : List Json} :
    contains same (.array items) (.array [part]) = true ↔
      ∃ item ∈ items, contains same item part = true := by
  simp [contains, containsItems]

/-- An object contains an object of one field if it has the field, containing the part. -/
theorem contains_object_singleton {fields : List (String × Json)} :
    contains same (.object fields) (.object [(name, part)]) = true ↔
      ∃ j, (name, j) ∈ fields ∧ contains same j part = true := by
  simp [contains, containsFields]

end

/-! ### Documents as they are stored -/

theorem toValues_eq_map (items : List Json) : toValues items = items.map toValue := by
  induction items with
  | nil => rfl
  | cons item items ih => rw [toValues, ih, List.map_cons]

theorem toValueFields_eq_map : ∀ fields : List (String × Json),
    toValueFields fields = fields.map fun f => (f.1, f.2.toValue)
  | [] => rfl
  | (name, j) :: fields => by rw [toValueFields, toValueFields_eq_map fields, List.map_cons]

/-- A map of distinct keys has all of its entries. -/
theorem mem_toList_ofList_iff {α : Type} {l : List (String × α)} {e : String × α}
    (hdistinct : (l.map Prod.fst).Nodup) :
    e ∈ (Std.ExtTreeMap.ofList l compare).toList ↔ e ∈ l := by
  constructor
  · exact mem_toList_ofList
  · obtain ⟨k, v⟩ := e
    intro h
    rw [Std.ExtTreeMap.mem_toList_iff_getElem?_eq_some]
    apply Std.ExtTreeMap.getElem?_ofList_of_mem Std.ReflCmp.compare_self _ h
    rw [List.Nodup, List.pairwise_map] at hdistinct
    apply hdistinct.imp
    intro a b hne heq
    exact hne (Std.LawfulEqOrd.compare_eq_iff_eq.mp heq)

section

variable {same : JsonNumber → JsonNumber → Bool} {part : Json} {name : String}

/-- So it is with an array that was stored. -/
theorem contains_toValue_array {items : List Json} :
    contains same (toValue (.array items)) (.array [part]) = true ↔
      ∃ item ∈ items, contains same item.toValue part = true := by
  rw [toValue, toValues_eq_map, contains_array_singleton]
  simp

/-- A record of distinct fields is stored with all of them. -/
theorem contains_toValue_object {fields : List (String × Json)}
    (hdistinct : (fields.map Prod.fst).Nodup) :
    contains same (toValue (.object fields)) (.object [(name, part)]) = true ↔
      ∃ j, (name, j) ∈ fields ∧ contains same j.toValue part = true := by
  have hkeys : ((toValueFields fields).map Prod.fst).Nodup := by
    rw [toValueFields_eq_map, List.map_map]
    exact hdistinct
  rw [toValue, contains_object_singleton]
  simp only [mem_toList_ofList_iff hkeys]
  rw [toValueFields_eq_map]
  constructor
  · rintro ⟨j, hmem, hpart⟩
    obtain ⟨⟨_, value⟩, hfield, heq⟩ := List.mem_map.mp hmem
    cases heq
    exact ⟨value, hfield, hpart⟩
  · rintro ⟨j, hmem, hpart⟩
    exact ⟨j.toValue, List.mem_map.mpr ⟨(name, j), hmem, rfl⟩, hpart⟩

end

end FlagForge.Json
