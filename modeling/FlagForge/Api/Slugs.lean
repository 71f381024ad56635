/-
Module: FlagForge.Api.Slugs
Layer: Api
Purpose: How an organization's slug is derived from its name, and how long it gets: a letter for each
  ASCII letter or digit, and a dash for each gap between two runs of them.
Imports: FlagForge.Api.Handlers, Mathlib.Data.List.DropRight, Mathlib.Data.List.Chain
Trusted boundary: none
Main exports: slugify, slugOf, slugCheck, dashedLength, slugCheck_slugOf_iff, slugOf_injOn
-/
import FlagForge.Api.Handlers
import Mathlib.Data.List.DropRight
import Mathlib.Data.List.Chain

namespace FlagForge.Api

/-! ### The source -/

/-- How many slug variants to try before giving up. -/
def slugAttempts : Nat := 12

/-- The loop of `slugify`: what it pushes for the characters that are left. -/
def slugChars : Bool → List Char → List Char
  | _, [] => []
  | lastWasDash, ch :: chars =>
      if ch.isAlphanum then ch.toLower :: slugChars false chars
      else if lastWasDash then slugChars true chars
      else '-' :: slugChars true chars

/-- `s.trim_end_matches('-')` -/
def trimDashes (slug : List Char) : List Char :=
  slug.rdropWhile (· = '-')

/-- Derives a URL-safe organization slug. -/
def slugify (name : String) : String :=
  -- the first dash is suppressed
  let slug := trimDashes (slugChars true name.toList)
  let trimmed := trimDashes (slug.take 63)
  if trimmed.isEmpty then "org" else String.ofList trimmed

/-- The slug that an attempt tries. -/
def slugOf (name : String) (attempt : Nat) : String :=
  let base := slugify name
  if attempt = 1 then base else s!"{base}-{attempt}"

/-- What a slug has besides dashes. -/
def isSlugChar (c : Char) : Bool :=
  ('a' ≤ c && c ≤ 'z') || ('0' ≤ c && c ≤ '9')

/-- `CHECK (slug ~ '^[a-z0-9][a-z0-9-]{0,62}$')` -/
def slugCheck (slug : String) : Bool :=
  match slug.toList with
  | [] => false
  | c :: rest => isSlugChar c && rest.length ≤ 62 && rest.all fun c => isSlugChar c || c = '-'

/-! ### What is in a name -/

/-- The letters and digits. -/
def kept (chars : List Char) : Nat :=
  chars.countP Char.isAlphanum

/-- The runs of letters and digits that begin here. -/
def runs : Bool → List Char → Nat
  | _, [] => 0
  | inRun, ch :: chars =>
      if ch.isAlphanum then (if inRun then 0 else 1) + runs true chars else runs false chars

/-- Letters, digits, and the gaps between two runs of them. -/
def dashedLength (name : String) : Nat :=
  kept name.toList + (runs false name.toList - 1)

/-! ### Lengths -/

section Lengths

variable {chars : List Char}

/-- Dropping from the right reaches an element only when everything behind it is dropped. -/
theorem trimDashes_cons (c : Char) (chars : List Char) : trimDashes (c :: chars) =
    if trimDashes chars = [] then (if c = '-' then [] else [c]) else c :: trimDashes chars := by
  simp only [trimDashes, List.rdropWhile, List.reverse_cons, List.dropWhile_append]
  by_cases hnil : chars.reverse.dropWhile (· = '-') = []
  · by_cases hc : c = '-' <;> simp [hnil, hc]
  · simp [hnil]

/-- Trimming leaves a start of the slug. -/
theorem trimDashes_start (slug : List Char) : trimDashes slug <+: slug :=
  List.rdropWhile_prefix _ _

/-- A name without a letter or digit has no run of them. -/
theorem runs_eq_zero_iff : runs false chars = 0 ↔ kept chars = 0 := by
  induction chars with
  | nil => simp [runs, kept]
  | cons ch chars ih =>
      by_cases hch : ch.isAlphanum = true
      · simp only [runs, kept, List.countP_cons, hch, if_true]
        simp
      · simpa [runs, kept, List.countP_cons, hch] using ih

/-- Letters and digits make slug characters. -/
theorem isSlugChar_toLower {ch : Char} (h : ch.isAlphanum = true) :
    isSlugChar ch.toLower = true := by
  change ((decide ('A'.val ≤ ch.val ∧ ch.val ≤ 'Z'.val) ||
    ('a'.val ≤ ch.val && ch.val ≤ 'z'.val)) || ('0'.val ≤ ch.val && ch.val ≤ '9'.val)) = true at h
  simp only [Bool.or_eq_true, Bool.and_eq_true, decide_eq_true_eq, UInt32.le_iff_toNat_le] at h
  simp only [isSlugChar, Bool.or_eq_true, Bool.and_eq_true, decide_eq_true_eq, Char.le_def,
    UInt32.le_iff_toNat_le]
  unfold Char.toLower
  split
  · rename_i hupper
    simp only [UInt32.le_iff_toNat_le, ge_iff_le] at hupper
    simp [UInt32.toNat_add] at *
    omega
  · rename_i hupper
    simp only [UInt32.le_iff_toNat_le, ge_iff_le] at hupper
    simp at *
    omega

theorem not_isSlugChar_dash : isSlugChar '-' = false := by
  decide

theorem toLower_ne_dash {ch : Char} (h : ch.isAlphanum = true) : ch.toLower ≠ '-' := by
  intro hdash
  have hslug := isSlugChar_toLower h
  rw [hdash, not_isSlugChar_dash] at hslug
  cases hslug

theorem length_trimDashes_of_ne {c : Char} (hc : c ≠ '-') (chars : List Char) :
    (trimDashes (c :: chars)).length = (trimDashes chars).length + 1 := by
  rw [trimDashes_cons]
  by_cases hnil : trimDashes chars = []
  · simp [hnil, hc]
  · simp [hnil]

theorem length_trimDashes_dash (chars : List Char) : (trimDashes ('-' :: chars)).length =
    if (trimDashes chars).length = 0 then 0 else (trimDashes chars).length + 1 := by
  rw [trimDashes_cons]
  by_cases hnil : trimDashes chars = []
  · simp [hnil]
  · simp [hnil]

/-- What is left after trimming. In a run every further run comes with a dash; behind a dash all but
    the first do. -/
theorem length_trimDashes_slugChars : ∀ chars : List Char,
    (trimDashes (slugChars false chars)).length = kept chars + runs true chars ∧
      (trimDashes (slugChars true chars)).length = kept chars + (runs false chars - 1)
  | [] => ⟨rfl, rfl⟩
  | ch :: chars => by
      obtain ⟨hrun, hdash⟩ := length_trimDashes_slugChars chars
      by_cases hch : ch.isAlphanum = true
      · have hkept : kept (ch :: chars) = kept chars + 1 := by simp [kept, hch]
        simp only [slugChars, if_pos hch, runs, hkept, length_trimDashes_of_ne (toLower_ne_dash hch),
          hrun]
        constructor
        · simp
          omega
        · simp
          omega
      · have hkept : kept (ch :: chars) = kept chars := by simp [kept, hch]
        simp only [slugChars, if_neg hch, runs, hkept, Bool.false_eq_true, if_false, if_true,
          length_trimDashes_dash, hdash, and_true]
        have hnone := @runs_eq_zero_iff chars
        split <;> omega

end Lengths

/-! ### Shape -/

/-- Letters, digits and single dashes, the first of them no dash. -/
structure Dashed (slug : List Char) : Prop where
  letters : ∀ c ∈ slug, (isSlugChar c || c = '-') = true
  leads : ∀ c, slug.head? = some c → isSlugChar c = true
  apart : slug.IsChain fun a b => ¬(a = '-' ∧ b = '-')

section Shape

variable {slug slug' : List Char} {name : String}

/-- A start of a dashed text is dashed. -/
theorem Dashed.of_start (h : Dashed slug) (hstart : slug' <+: slug) : Dashed slug' where
  letters c hc := h.letters c (hstart.subset hc)
  leads c hc := by
    obtain ⟨rest, rfl⟩ := hstart
    exact h.leads c (by rw [List.head?_append, hc]; rfl)
  apart := h.apart.prefix hstart

/-- What the loop pushes: behind a dash it does not begin with one. -/
theorem slugChars_shape : ∀ (chars : List Char) (lastWasDash : Bool),
    (∀ c ∈ slugChars lastWasDash chars, (isSlugChar c || c = '-') = true) ∧
      (slugChars lastWasDash chars).IsChain (fun a b => ¬(a = '-' ∧ b = '-')) ∧
        (lastWasDash = true →
          ∀ c, (slugChars lastWasDash chars).head? = some c → isSlugChar c = true)
  | [], _ => by simp [slugChars]
  | ch :: chars, lastWasDash => by
      obtain ⟨hletters, hapart, _⟩ := slugChars_shape chars false
      obtain ⟨hletters', hapart', hleads'⟩ := slugChars_shape chars true
      rw [slugChars]
      split
      · rename_i hch
        refine ⟨?_, ?_, ?_⟩
        · rw [List.forall_mem_cons]
          exact ⟨by simp [isSlugChar_toLower hch], hletters⟩
        · rw [List.isChain_cons]
          exact ⟨fun _ _ hboth => toLower_ne_dash hch hboth.1, hapart⟩
        · rintro _ c hc
          cases hc
          exact isSlugChar_toLower hch
      · split
        · exact ⟨hletters', hapart', fun _ => hleads' rfl⟩
        · rename_i hlast
          refine ⟨?_, ?_, fun htrue => absurd htrue hlast⟩
          · rw [List.forall_mem_cons]
            exact ⟨by simp, hletters'⟩
          · rw [List.isChain_cons]
            refine ⟨fun c hc hboth => ?_, hapart'⟩
            have hslug := hleads' rfl c hc
            rw [hboth.2, not_isSlugChar_dash] at hslug
            cases hslug

/-- The loop never writes two dashes in a row, nor one at the start. -/
theorem dashed_slugChars (chars : List Char) : Dashed (slugChars true chars) :=
  have h := slugChars_shape chars true
  ⟨h.1, h.2.2 rfl, h.2.1⟩

/-- Where no two dashes meet, trimming takes one at most. -/
theorem length_le_trimDashes : ∀ {slug : List Char}, slug.IsChain (fun a b => ¬(a = '-' ∧ b = '-')) →
    slug.length ≤ (trimDashes slug).length + 1
  | [], _ => Nat.zero_le _
  | c :: slug, h => by
      rw [List.isChain_cons] at h
      have ih := length_le_trimDashes h.2
      rw [List.length_cons]
      by_cases hc : c = '-'
      · subst hc
        rw [length_trimDashes_dash]
        split
        · rename_i hnil
          match slug, h.1 with
          | [], _ => simp
          | d :: rest, hfirst =>
              have hd : d ≠ '-' := fun heq => hfirst d rfl ⟨rfl, heq⟩
              rw [length_trimDashes_of_ne hd] at hnil
              omega
        · omega
      · rw [length_trimDashes_of_ne hc]
        omega

/-- The text of the slug, unless the name has no letter or digit. -/
def trimmedSlug (name : String) : List Char :=
  trimDashes ((trimDashes (slugChars true name.toList)).take 63)

/-- So it is after trimming. -/
theorem dashed_trimmedSlug : Dashed (trimmedSlug name) :=
  (dashed_slugChars name.toList).of_start
    (((trimDashes_start _).trans (List.take_prefix _ _)).trans (trimDashes_start _))

/-- Up to two below the limit, trimming a name that is cut off does not bring it back under. -/
theorem length_trimmedSlug :
    (dashedLength name ≤ 63 → (trimmedSlug name).length = dashedLength name) ∧
      (63 < dashedLength name → 62 ≤ (trimmedSlug name).length) ∧ (trimmedSlug name).length ≤ 63 := by
  have hlength : (trimDashes (slugChars true name.toList)).length = dashedLength name :=
    (length_trimDashes_slugChars name.toList).2
  refine ⟨fun hshort => ?_, fun hlong => ?_, ?_⟩
  · rw [trimmedSlug, List.take_of_length_le (by omega), trimDashes, trimDashes,
      List.rdropWhile_idempotent]
    exact hlength
  · have hcut : Dashed ((trimDashes (slugChars true name.toList)).take 63) :=
      (dashed_slugChars name.toList).of_start ((List.take_prefix _ _).trans (trimDashes_start _))
    have htrim := length_le_trimDashes hcut.apart
    rw [List.length_take, hlength] at htrim
    rw [trimmedSlug]
    omega
  · have htrim := (trimDashes_start ((trimDashes (slugChars true name.toList)).take 63)).length_le
    rw [List.length_take] at htrim
    rw [trimmedSlug]
    omega

/-- A name that leaves nothing gets `org`. -/
theorem toList_slugify : (slugify name).toList =
    if trimmedSlug name = [] then "org".toList else trimmedSlug name := by
  rw [slugify, ← trimmedSlug]
  by_cases hnil : trimmedSlug name = []
  · simp [hnil]
  · simp [hnil, List.isEmpty_iff]

theorem dashed_org : Dashed "org".toList where
  letters := List.all_eq_true.mp (by decide)
  leads c hc := by
    cases hc
    decide
  apart := by decide

/-- Every name gets a slug that the CHECK lets in, its length apart. -/
theorem slugify_shape : Dashed (slugify name).toList ∧ (slugify name).toList ≠ [] := by
  rw [toList_slugify]
  split
  · exact ⟨dashed_org, by decide⟩
  · rename_i hsome
    exact ⟨dashed_trimmedSlug, hsome⟩

/-- A slug fills at most 63 characters. -/
theorem length_slugify_le : (slugify name).toList.length ≤ 63 := by
  rw [toList_slugify]
  split
  · decide
  · exact length_trimmedSlug.2.2

/-- How long the slug is is told from the name's runs of letters and digits, as long as it is
    not cut. -/
theorem length_slugify_le_iff {n : Nat} (hn : 3 ≤ n) (hroom : n ≤ 61) :
    (slugify name).toList.length ≤ n ↔ dashedLength name ≤ n := by
  obtain ⟨hshort, hlong, _⟩ := @length_trimmedSlug name
  rw [toList_slugify]
  split
  · rename_i hnil
    rw [hnil, List.length_nil] at hshort hlong
    have horg : "org".toList.length = 3 := rfl
    omega
  · omega

/-- The constraint is about the length alone. -/
theorem slugCheck_ofList_iff (hshape : Dashed slug) (hsome : slug ≠ [])
    (hletters : ∀ c ∈ slug', (isSlugChar c || c = '-') = true) :
    slugCheck (String.ofList (slug ++ slug')) = true ↔ slug.length + slug'.length ≤ 63 := by
  match slug, hsome with
  | c :: rest, _ =>
      have hall : (rest ++ slug').all (fun c => isSlugChar c || c = '-') = true := by
        rw [List.all_eq_true]
        intro d hd
        rcases List.mem_append.mp hd with hd | hd
        · exact hshape.letters d (List.mem_cons_of_mem _ hd)
        · exact hletters d hd
      simp only [slugCheck, String.toList_ofList, List.cons_append, hall, Bool.and_true,
        hshape.leads c rfl, Bool.true_and, decide_eq_true_eq, List.length_append, List.length_cons]
      omega

/-- The suffix of a later attempt. -/
def suffix (attempt : Nat) : List Char :=
  '-' :: (toString attempt).toList

/-- A later attempt puts its number behind the slug. -/
theorem toList_slugOf {attempt : Nat} (h : attempt ≠ 1) :
    (slugOf name attempt).toList = (slugify name).toList ++ suffix attempt := by
  simp only [slugOf, if_neg h]
  change (slugify name ++ "-" ++ toString attempt).toList = _
  rw [String.toList_append, String.toList_append, List.append_assoc]
  rfl

end Shape

/-- The attempts of the loop, `1..=SLUG_ATTEMPTS`. -/
def attempts : List Nat :=
  List.range' 1 slugAttempts

/-- The numbers of the attempts are slug characters behind a dash, two or three. -/
theorem suffix_spec : ∀ attempt ∈ attempts,
    (∀ c ∈ suffix attempt, (isSlugChar c || c = '-') = true) ∧
      (suffix attempt).length = if attempt < 10 then 2 else 3 := by
  have hall : ∀ attempt ∈ attempts, (suffix attempt).all (fun c => isSlugChar c || c = '-') = true ∧
      (suffix attempt).length = if attempt < 10 then 2 else 3 := by decide
  intro attempt hattempt
  rw [← List.all_eq_true]
  exact hall attempt hattempt

/-- Different attempts have different numbers. -/
theorem suffix_injOn : ∀ attempt ∈ attempts, ∀ attempt' ∈ attempts,
    suffix attempt = suffix attempt' → attempt = attempt' := by
  decide

/-- The first attempt always satisfies the column; a later one does if there is room for its
    suffix. -/
theorem slugCheck_slugOf_iff {name : String} {attempt : Nat} (h : attempt ∈ attempts) :
    slugCheck (slugOf name attempt) = true ↔
      attempt = 1 ∨ dashedLength name ≤ if attempt < 10 then 61 else 60 := by
  obtain ⟨hshape, hsome⟩ := @slugify_shape name
  by_cases hfirst : attempt = 1
  · have hcheck := @slugCheck_ofList_iff _ [] hshape hsome (by simp)
    rw [List.append_nil, String.ofList_toList, List.length_nil, Nat.add_zero] at hcheck
    simp [slugOf, hfirst, hcheck, length_slugify_le]
  · obtain ⟨hletters, hlength⟩ := suffix_spec attempt h
    rw [← String.ofList_toList (s := slugOf name attempt), toList_slugOf hfirst,
      slugCheck_ofList_iff hshape hsome hletters, hlength]
    have h60 := @length_slugify_le_iff name 60 (by decide) (by decide)
    have h61 := @length_slugify_le_iff name 61 (by decide) (by decide)
    split <;> omega

/-- Different attempts try different slugs. -/
theorem slugOf_injOn {name : String} {attempt attempt' : Nat} (h : attempt ∈ attempts)
    (h' : attempt' ∈ attempts) (heq : slugOf name attempt = slugOf name attempt') :
    attempt = attempt' := by
  have hlists := congrArg String.toList heq
  by_cases hfirst : attempt = 1
  · by_cases hfirst' : attempt' = 1
    · rw [hfirst, hfirst']
    · rw [toList_slugOf hfirst', hfirst, slugOf, if_pos rfl] at hlists
      have hlength := congrArg List.length hlists
      simp [suffix] at hlength
  · by_cases hfirst' : attempt' = 1
    · rw [toList_slugOf hfirst, hfirst', slugOf, if_pos rfl] at hlists
      have hlength := congrArg List.length hlists
      simp [suffix] at hlength
    · rw [toList_slugOf hfirst, toList_slugOf hfirst'] at hlists
      exact suffix_injOn attempt h attempt' h' (List.append_cancel_left hlists)

end FlagForge.Api
