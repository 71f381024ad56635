/-
Module: FlagForge.Lib.Json
Layer: Lib
Purpose: JSON trees as a reader without arbitrary precision sees them, and the derived record
  format over them: required, defaulted and skipped fields, duplicate and unknown keys, positional
  records, untagged numbers. A text and its tree are identified; a tree may still repeat a key.
Imports: FlagForge.Lib.Binary64 (integers convert to finite numbers), Std.Data.ExtTreeMap,
  Std.Data.ExtTreeSet, Mathlib.Data.List.Induction, Mathlib.Data.List.Nodup
Trusted boundary: none
Main exports: Json, Json.toValue, Json.toValue_toValue, Json.structFields, Json.structFields_object,
  Json.mapM_map_of_inverse, Json.deMap_serMap
-/
import FlagForge.Lib.Binary64
import Std.Data.ExtTreeMap
import Std.Data.ExtTreeSet
import Mathlib.Data.List.Induction
import Mathlib.Data.List.Nodup

namespace FlagForge

/-- A number of a JSON text: an integer of 64 bits, or else a finite binary64 number. -/
inductive JsonNumber where
  | posInt (n : UInt64)
  | negInt (n : Int64) (negative : n < 0)
  | float (x : Float) (finite : x.isFinite = true)
deriving DecidableEq

/-- The binary64 reading of a number; integers round to the nearest. -/
def JsonNumber.toFloat : JsonNumber → Float
  | .posInt n => Binary64.ofInt n.toNat
  | .negInt n _ => Binary64.ofInt n.toInt
  | .float x _ => x

theorem JsonNumber.isFinite_toFloat : ∀ n : JsonNumber, n.toFloat.isFinite = true
  | .posInt n => Binary64.isFinite_ofInt _ (by have := n.toNat_lt; omega)
  | .negInt n _ => Binary64.isFinite_ofInt _ (by
      have := n.le_toInt
      have := n.toInt_lt
      omega)
  | .float _ finite => finite

/-- A JSON text as a tree. The fields of an object keep the order and the repetitions of the text. -/
inductive Json where
  | null
  | bool (b : Bool)
  | number (n : JsonNumber)
  | string (s : String)
  | array (items : List Json)
  | object (fields : List (String × Json))

namespace Json

/-- An ordered map with string keys. -/
abbrev StringMap (α : Type) := Std.ExtTreeMap String α compare

/-- An ordered set of strings. -/
abbrev StringSet := Std.ExtTreeSet String compare

/-- Listing a map and inserting the entries again gives the map back. -/
theorem ofList_toList {α : Type} (m : StringMap α) :
    Std.ExtTreeMap.ofList m.toList compare = m := by
  apply Std.ExtTreeMap.ext_getElem?
  intro k
  cases hk : m[k]? with
  | some v =>
      exact Std.ExtTreeMap.getElem?_ofList_of_mem Std.ReflCmp.compare_self
        Std.ExtTreeMap.distinct_keys_toList
        (Std.ExtTreeMap.mem_toList_iff_getElem?_eq_some.mpr hk)
  | none =>
      apply Std.ExtTreeMap.getElem?_ofList_of_contains_eq_false
      rw [← Bool.not_eq_true, List.contains_iff_mem, List.mem_map]
      rintro ⟨⟨k', v⟩, hmem, rfl⟩
      rw [Std.ExtTreeMap.mem_toList_iff_getElem?_eq_some] at hmem
      simp_all

/-- Listing a set and inserting the elements again gives the set back. -/
theorem setOfList_toList (s : StringSet) : Std.ExtTreeSet.ofList s.toList compare = s := by
  apply Std.ExtTreeSet.ext_mem
  intro k
  rw [Std.ExtTreeSet.mem_ofList, List.contains_iff_mem, Std.ExtTreeSet.mem_toList]

/-! ### The self-describing value

An object read as a value becomes an ordered map, in which the last of several equal keys wins. -/

mutual

/-- The value a tree denotes: the same tree with every object ordered and free of repetitions. -/
def toValue : Json → Json
  | .null => .null
  | .bool b => .bool b
  | .number n => .number n
  | .string s => .string s
  | .array items => .array (toValues items)
  | .object fields => .object (Std.ExtTreeMap.ofList (toValueFields fields) compare).toList

/-- Pointwise `toValue`. -/
def toValues : List Json → List Json
  | [] => []
  | item :: items => item.toValue :: toValues items

/-- `toValue` on the value of every field. -/
def toValueFields : List (String × Json) → List (String × Json)
  | [] => []
  | (key, value) :: fields => (key, value.toValue) :: toValueFields fields

end

theorem toValueFields_of_forall {fields : List (String × Json)}
    (h : ∀ f ∈ fields, f.2.toValue = f.2) : toValueFields fields = fields := by
  induction fields with
  | nil => rfl
  | cons f fields ih =>
      obtain ⟨key, value⟩ := f
      rw [toValueFields, h (key, value) List.mem_cons_self,
        ih fun f hf => h f (List.mem_cons_of_mem _ hf)]

theorem mem_toList_ofList {α : Type} {l : List (String × α)} {e : String × α}
    (h : e ∈ (Std.ExtTreeMap.ofList l compare).toList) : e ∈ l := by
  obtain ⟨k, v⟩ := e
  rw [Std.ExtTreeMap.mem_toList_iff_getElem?_eq_some] at h
  induction l using List.reverseRecOn with
  | nil => simp at h
  | append_singleton l e ih =>
      rw [Std.ExtTreeMap.ofList_eq_foldl, List.foldl_append, ← Std.ExtTreeMap.ofList_eq_foldl] at h
      simp only [List.foldl_cons, List.foldl_nil, Std.ExtTreeMap.getElem?_insert] at h
      split at h
      · next heq =>
        rw [Std.LawfulEqOrd.compare_eq_iff_eq] at heq
        simp only [Option.some.injEq] at h
        simp [← heq, ← h]
      · exact List.mem_append_left _ (ih h)

/-- Where keys tell values apart, a map holds all of them. -/
theorem mem_toList_ofList_map {β : Type} {key : β → String} {l : List β} {e : String × β}
    (hkeys : ∀ a ∈ l, ∀ b ∈ l, key a = key b → a = b) :
    e ∈ (Std.ExtTreeMap.ofList (l.map fun b => (key b, b)) compare).toList ↔
      e.2 ∈ l ∧ e.1 = key e.2 := by
  have hfrom : ∀ e ∈ (Std.ExtTreeMap.ofList (l.map fun b => (key b, b)) compare).toList,
      e.2 ∈ l ∧ e.1 = key e.2 := by
    intro e he
    obtain ⟨a, ha, rfl⟩ := List.mem_map.mp (mem_toList_ofList he)
    exact ⟨ha, rfl⟩
  refine ⟨hfrom e, ?_⟩
  obtain ⟨k, b⟩ := e
  intro h
  obtain ⟨hb, hk⟩ : b ∈ l ∧ k = key b := h
  rw [hk]
  have hmem : key b ∈ Std.ExtTreeMap.ofList (l.map fun b => (key b, b)) compare := by
    rw [Std.ExtTreeMap.mem_ofList, List.map_map, List.contains_iff_mem]
    exact List.mem_map.mpr ⟨b, hb, rfl⟩
  -- the value that the map has under the key is this one
  have hfound := Std.ExtTreeMap.mem_toList_iff_getElem?_eq_some.mpr
    (Std.ExtTreeMap.getElem?_eq_some_getElem hmem)
  obtain ⟨ha, hkey⟩ := hfrom _ hfound
  have hsame : _ = b := hkeys _ ha b hb hkey.symm
  rwa [show (Std.ExtTreeMap.ofList (l.map fun b => (key b, b)) compare)[key b] = b from hsame]
    at hfound

mutual

/-- Values are fixed points: reading a value as a value changes nothing. -/
theorem toValue_toValue : ∀ j : Json, j.toValue.toValue = j.toValue
  | .null | .bool _ | .number _ | .string _ => rfl
  | .array items => by
      rw [toValue, toValue, toValues_toValues items]
  | .object fields => by
      rw [toValue, toValue, toValueFields_of_forall, ofList_toList]
      intro f hf
      exact toValue_of_mem_toValueFields fields f (mem_toList_ofList hf)

theorem toValues_toValues : ∀ items : List Json, toValues (toValues items) = toValues items
  | [] => rfl
  | item :: items => by
      rw [toValues, toValues, toValue_toValue item, toValues_toValues items]

theorem toValue_of_mem_toValueFields : ∀ (fields : List (String × Json)),
    ∀ f ∈ toValueFields fields, f.2.toValue = f.2
  | [], f, hf => by cases hf
  | (key, value) :: fields, f, hf => by
      rw [toValueFields] at hf
      rcases List.mem_cons.mp hf with rfl | hf
      · exact toValue_toValue value
      · exact toValue_of_mem_toValueFields fields f hf

end

/-! ### Primitive readers and writers

Each pair `serT`, `deT` writes a value of a host type and reads it back; a reader refuses a tree of
another shape and a number out of the type's range. -/

def deBool : Json → Option Bool
  | .bool b => some b
  | _ => none

def deString : Json → Option String
  | .string s => some s
  | _ => none

/-- A finite number is written as it is; the format has no other numbers, so these become `null`. -/
def serFloat (x : Float) : Json :=
  if finite : x.isFinite = true then .number (.float x finite) else .null

/-- Any number of the text is accepted. -/
def deFloat : Json → Option Float
  | .number n => some n.toFloat
  | _ => none

def serU32 (n : UInt32) : Json :=
  .number (.posInt n.toUInt64)

def deU32 : Json → Option UInt32
  | .number (.posInt n) => if n.toNat < 2 ^ 32 then some n.toUInt32 else none
  | _ => none

def serI64 (n : Int64) : Json :=
  if negative : n < 0 then .number (.negInt n negative) else .number (.posInt n.toUInt64)

def deI64 : Json → Option Int64
  | .number (.posInt n) => if n.toNat < 2 ^ 63 then some n.toInt64 else none
  | .number (.negInt n _) => some n
  | _ => none

@[simp] theorem deFloat_serFloat {x : Float} (finite : x.isFinite = true) :
    deFloat (serFloat x) = some x := by
  rw [serFloat, dif_pos finite]
  rfl

@[simp] theorem deU32_serU32 (n : UInt32) : deU32 (serU32 n) = some n := by
  have hlt := n.toNat_lt
  simpa [deU32, serU32] using hlt

@[simp] theorem deI64_serI64 (n : Int64) : deI64 (serI64 n) = some n := by
  unfold serI64
  split
  · rfl
  · next hneg =>
    have hnat : n.toUInt64.toNat < 2 ^ 63 := by
      have hsign : ¬ n.toBitVec.toInt < 0 := by simpa [Int64.lt_iff_toInt_lt] using hneg
      rw [BitVec.toInt_eq_toNat_cond] at hsign
      change n.toBitVec.toNat < 2 ^ 63
      split at hsign <;> omega
    rw [deI64, if_pos hnat]
    simp

/-! ### Optional values, sequences, maps and sets -/

/-- `null` is the absent value. -/
def deOption {α : Type} (de : Json → Option α) : Json → Option (Option α)
  | .null => some none
  | j => (de j).map some

@[simp] theorem deOption_string (s : String) : deOption deString (.string s) = some (some s) := rfl

theorem deOption_object {α : Type} (de : Json → Option α) (fields : List (String × Json)) :
    deOption de (.object fields) = (de (.object fields)).map some := rfl

def serList {α : Type} (ser : α → Json) (items : List α) : Json :=
  .array (items.map ser)

def deList {α : Type} (de : Json → Option α) : Json → Option (List α)
  | .array items => items.mapM de
  | _ => none

def serMap {α : Type} (ser : α → Json) (m : StringMap α) : Json :=
  .object (m.toList.map fun e => (e.1, ser e.2))

/-- A map is read field by field; the last of several equal keys wins. -/
def deMap {α : Type} (de : Json → Option α) : Json → Option (StringMap α)
  | .object fields =>
      (fields.mapM fun f => (de f.2).map fun v => (f.1, v)).map (Std.ExtTreeMap.ofList · compare)
  | _ => none

def serSet (s : StringSet) : Json :=
  .array (s.toList.map .string)

def deSet (j : Json) : Option StringSet :=
  (deList deString j).map (Std.ExtTreeSet.ofList · compare)

/-- Reading back a written sequence, when every element reads back. -/
theorem mapM_map_of_inverse {α β : Type} {ser : α → β} {de : β → Option α} {items : List α}
    (h : ∀ a ∈ items, de (ser a) = some a) : (items.map ser).mapM de = some items := by
  induction items with
  | nil => rfl
  | cons a items ih =>
      rw [List.map_cons, List.mapM_cons, h a List.mem_cons_self,
        ih fun b hb => h b (List.mem_cons_of_mem _ hb)]
      rfl

theorem mapM_forall {α β : Type} {de : β → Option α} {P : α → Prop} :
    ∀ {items : List β} {out : List α}, items.mapM de = some out →
      (∀ b a, de b = some a → P a) → ∀ a ∈ out, P a
  | [], out, h, _, a, ha => by
      simp only [List.mapM_nil] at h
      cases h
      cases ha
  | b :: items, out, h, hP, a, ha => by
      rw [List.mapM_cons] at h
      cases hb : de b with
      | none => simp [hb] at h
      | some first =>
          cases hrest : items.mapM de with
          | none => simp [hb, hrest] at h
          | some rest =>
              simp only [hb, hrest, Option.pure_def, Option.bind_eq_bind, Option.bind_some,
                Option.some.injEq] at h
              subst h
              rcases List.mem_cons.mp ha with rfl | ha
              · exact hP b a hb
              · exact mapM_forall hrest hP a ha

theorem deList_serList {α : Type} {ser : α → Json} {de : Json → Option α} {items : List α}
    (h : ∀ a ∈ items, de (ser a) = some a) : deList de (serList ser items) = some items :=
  mapM_map_of_inverse h

theorem deMap_serMap {α : Type} {ser : α → Json} {de : Json → Option α} {m : StringMap α}
    (h : ∀ (k : String) (v : α), m[k]? = some v → de (ser v) = some v) :
    deMap de (serMap ser m) = some m := by
  have hall : (m.toList.map fun e => (e.1, ser e.2)).mapM
      (fun f => (de f.2).map fun v => (f.1, v)) = some m.toList := by
    apply mapM_map_of_inverse
    rintro ⟨k, v⟩ hmem
    rw [Std.ExtTreeMap.mem_toList_iff_getElem?_eq_some] at hmem
    simp [h k v hmem]
  rw [serMap, deMap, hall, Option.map_some, ofList_toList]

@[simp] theorem deSet_serSet (s : StringSet) : deSet (serSet s) = some s := by
  have hall : deList deString (serSet s) = some s.toList := mapM_map_of_inverse fun _ _ => rfl
  rw [deSet, hall, Option.map_some, setOfList_toList]

/-- A sequence that was read is read back, when its elements are. -/
theorem deList_serList_of_de {α : Type} {ser : α → Json} {de : Json → Option α}
    (hde : ∀ {j : Json} {a : α}, de j = some a → de (ser a) = some a) {j : Json} {items : List α}
    (h : deList de j = some items) : deList de (serList ser items) = some items := by
  cases j with
  | array js => exact deList_serList (mapM_forall h fun b a hb => hde hb)
  | _ => cases h

/-! ### Records

A record is written as an object of its fields in declaration order, some of them skipped. It is
read from an object, in any order and ignoring unknown keys, or from an array by position. -/

/-- The known fields of a record; a known key that occurs twice is an error. -/
def structFields (names : List String) : Json → Option (List (String × Json))
  | .object fields =>
      let known := fields.filter fun f => f.1 ∈ names
      if (known.map Prod.fst).Nodup then some known else none
  | .array items => if items.length ≤ names.length then some (names.zip items) else none
  | _ => none

/-- A required field. -/
def field {α : Type} (fields : List (String × Json)) (name : String) (de : Json → Option α) :
    Option α :=
  (fields.lookup name).bind de

/-- A field with a default for when it is absent. -/
def fieldOr {α : Type} (fields : List (String × Json)) (name : String) (de : Json → Option α)
    (default : α) : Option α :=
  match fields.lookup name with
  | none => some default
  | some j => de j

/-- An optional field that is skipped when it is `none`. -/
def skipNone {α : Type} (name : String) (ser : α → Json) : Option α → List (String × Json)
  | none => []
  | some a => [(name, ser a)]

/-- A sequence that is skipped when it is empty. -/
def skipEmpty {α : Type} (name : String) (ser : α → Json) : List α → List (String × Json)
  | [] => []
  | items => [(name, serList ser items)]

/-- A set that is skipped when it is empty. -/
def skipEmptySet (name : String) (s : StringSet) : List (String × Json) :=
  if s.isEmpty then [] else [(name, serSet s)]

theorem exists_of_field {α : Type} {fields : List (String × Json)} {name : String}
    {de : Json → Option α} {a : α} (h : field fields name de = some a) : ∃ j, de j = some a := by
  obtain ⟨j, _, hj⟩ := Option.bind_eq_some_iff.mp h
  exact ⟨j, hj⟩

theorem exists_of_fieldOr {α : Type} {fields : List (String × Json)} {name : String}
    {de : Json → Option α} {default a : α} (h : fieldOr fields name de default = some a) :
    a = default ∨ ∃ j, de j = some a := by
  unfold fieldOr at h
  cases hlookup : fields.lookup name with
  | none =>
      rw [hlookup] at h
      exact .inl (Option.some.inj h).symm
  | some j =>
      rw [hlookup] at h
      exact .inr ⟨j, h⟩

/-- The fields of a written record are the ones read, when they are declared ones. -/
theorem structFields_object {names : List String} {fields : List (String × Json)}
    (hsub : (fields.map Prod.fst).Sublist names) (hnames : names.Nodup) :
    structFields names (.object fields) = some fields := by
  have hfilter : fields.filter (fun f => f.1 ∈ names) = fields := by
    apply List.filter_eq_self.mpr
    intro f hf
    exact decide_eq_true (hsub.subset (List.mem_map_of_mem hf))
  simp only [structFields, hfilter]
  rw [if_pos (hnames.sublist hsub)]

end Json

end FlagForge
