/-
Module: FlagForge.Lib.Fields
Layer: Lib
Purpose: Lists of fields kept as one text: the text is split at separators, every piece is trimmed and
  the empty ones are dropped. What comes out of a text is plain: not empty, trimmed and without a
  separator; and what was joined comes out again exactly when every field was plain.
Imports: Mathlib.Data.List.DropRight
Trusted boundary: none
Main exports: Fields.trim, Fields.parts, Fields.Plain, Fields.parts_intercalate,
  Fields.plain_of_mem_parts
-/
import Mathlib.Data.List.DropRight

namespace FlagForge.Fields

variable {α : Type*} (sep space : α → Bool)

/-- The text without the space at both ends. -/
def trim (text : List α) : List α :=
  (text.dropWhile space).rdropWhile space

/-- The trimmed pieces between separators that are not empty. -/
def parts (text : List α) : List (List α) :=
  ((text.splitOnP sep).map (trim space)).filter fun part => !part.isEmpty

/-- A field that a text can hold. -/
structure Plain (part : List α) : Prop where
  nonempty : part ≠ []
  apart : ∀ a ∈ part, sep a = false
  trimmed : trim space part = part

instance [DecidableEq α] (part : List α) : Decidable (Plain sep space part) :=
  decidable_of_iff (part ≠ [] ∧ (∀ a ∈ part, sep a = false) ∧ trim space part = part)
    ⟨fun ⟨hnonempty, hapart, htrimmed⟩ => ⟨hnonempty, hapart, htrimmed⟩,
      fun h => ⟨h.nonempty, h.apart, h.trimmed⟩⟩

variable {sep space}

/-! ### Trimming -/

@[simp] theorem trim_nil : trim space [] = [] := by
  simp [trim]

theorem trim_cons_of_space {a : α} (h : space a = true) (text : List α) :
    trim space (a :: text) = trim space text := by
  rw [trim, List.dropWhile_cons_of_pos h, trim]

theorem mem_of_mem_trim {a : α} {text : List α} (h : a ∈ trim space text) : a ∈ text :=
  (List.dropWhile_suffix space).mem ((List.rdropWhile_prefix space _).mem h)

/-- What is left of a text after its leading space is dropped begins without space, and still does
    when its end is dropped. -/
theorem trim_trim (text : List α) : trim space (trim space text) = trim space text := by
  have hkept : (trim space text).dropWhile space = trim space text := by
    cases htrim : trim space text with
    | nil => rfl
    | cons a rest =>
        have hprefix : a :: rest <+: text.dropWhile space := by
          rw [← htrim]
          exact List.rdropWhile_prefix space _
        obtain ⟨dropped, hdropped⟩ := hprefix
        have hne : text.dropWhile space ≠ [] := by
          rw [← hdropped]
          simp
        have hhead := List.head_dropWhile_not space hne
        simp only [← hdropped, List.cons_append, List.head_cons] at hhead
        exact List.dropWhile_cons_of_neg (by simp [hhead])
  calc trim space (trim space text)
      = (trim space text).rdropWhile space := by rw [trim, hkept]
    _ = trim space text := List.rdropWhile_idempotent space _

/-! ### Splitting -/

theorem parts_nil : parts sep space [] = [] := by
  simp [parts]

theorem parts_of_plain {part : List α} (h : Plain sep space part) : parts sep space part = [part] := by
  simp [parts, List.splitOnP_eq_singleton h.apart, h.trimmed, h.nonempty]

/-- A plain field before a separator is the first part. -/
theorem parts_append_cons {part : List α} {c : α} (h : Plain sep space part) (hc : sep c = true)
    (text : List α) : parts sep space (part ++ c :: text) = part :: parts sep space text := by
  simp [parts, List.splitOnP_append_cons_of_forall_mem h.apart c hc, h.trimmed, h.nonempty]

/-- Space before the first piece is trimmed with it. -/
theorem parts_append_of_space {pad : List α} (hspace : ∀ a ∈ pad, space a = true)
    (hsep : ∀ a ∈ pad, sep a = false) (text : List α) :
    parts sep space (pad ++ text) = parts sep space text := by
  induction pad with
  | nil => rfl
  | cons a pad ih =>
      have hrest := ih (fun b hb => hspace b (List.mem_cons_of_mem _ hb))
        fun b hb => hsep b (List.mem_cons_of_mem _ hb)
      rw [← hrest, List.cons_append, parts, parts, List.splitOnP_cons_eq_if_modifyHead,
        hsep a List.mem_cons_self]
      obtain ⟨piece, pieces, hpieces⟩ :=
        List.exists_cons_of_ne_nil (List.splitOnP_ne_nil sep (pad ++ text))
      simp [hpieces, trim_cons_of_space (hspace a List.mem_cons_self)]

/-- Plain fields come out of a text as they were joined, when the joiner is a separator and then
    space. -/
theorem parts_intercalate (c : α) (pad : List α) (hc : sep c = true)
    (hspace : ∀ a ∈ pad, space a = true) (hsep : ∀ a ∈ pad, sep a = false) :
    ∀ {fields : List (List α)}, (∀ part ∈ fields, Plain sep space part) →
      parts sep space ((c :: pad).intercalate fields) = fields
  | [], _ => by simpa using parts_nil
  | [part], h => by
      simpa using parts_of_plain (h part List.mem_cons_self)
  | part :: next :: fields, h => by
      have hrest := parts_intercalate c pad hc hspace hsep fun field hfield =>
        h field (List.mem_cons_of_mem part hfield)
      rw [List.intercalate_cons_cons, List.append_assoc, List.cons_append,
        parts_append_cons (h part List.mem_cons_self) hc, parts_append_of_space hspace hsep, hrest]

/-- No piece has a separator. -/
theorem apart_of_mem_splitOnP {text piece : List α} (h : piece ∈ text.splitOnP sep) :
    ∀ a ∈ piece, sep a = false := by
  induction text generalizing piece with
  | nil =>
      rw [List.splitOnP_nil, List.mem_singleton] at h
      subst h
      intro a ha
      cases ha
  | cons b text ih =>
      rw [List.splitOnP_cons_eq_if_modifyHead] at h
      split at h
      · rcases List.mem_cons.mp h with rfl | h
        · intro a ha
          cases ha
        · exact ih h
      · rename_i hb
        obtain ⟨first, pieces, hpieces⟩ :=
          List.exists_cons_of_ne_nil (List.splitOnP_ne_nil sep text)
        rw [hpieces] at ih h
        rcases List.mem_cons.mp h with rfl | h
        · intro a ha
          rcases List.mem_cons.mp ha with rfl | ha
          · simpa using hb
          · exact ih List.mem_cons_self a ha
        · exact ih (List.mem_cons_of_mem _ h)

/-- Whatever the text, its parts are plain. -/
theorem plain_of_mem_parts {text part : List α} (h : part ∈ parts sep space text) :
    Plain sep space part := by
  obtain ⟨hpart, hne⟩ := List.mem_filter.mp h
  obtain ⟨piece, hpiece, rfl⟩ := List.mem_map.mp hpart
  refine ⟨by simpa using hne, ?_, trim_trim piece⟩
  intro a ha
  exact apart_of_mem_splitOnP hpiece a (mem_of_mem_trim ha)

end FlagForge.Fields
