/-
Module: FlagForge.Api.Registration
Layer: Api
Purpose: Registration tries one slug after the other until one is free. The retry goes on when the
  slug is taken and gives up on any other error, so it depends on the column accepting every slug.
Imports: FlagForge.Api.Slugs, Mathlib.Data.String.Basic
Trusted boundary: none (`to_lowercase` of Rust and `lower` of SQL are parameters)
Main exports: Accounts, createOrganizationWithOwner, registerWithFreeSlug, SlugsServe,
  slugs_serve_iff
-/
import FlagForge.Api.Slugs
import Mathlib.Data.String.Basic

namespace FlagForge.Api

open Storage
open Storage.Sql (Input SqlError require nameCheck)

/-! ### Accounts -/

structure OrganizationRow where
  id : Uuid
  name : String
  slug : String
  createdAt : Timestamp

structure UserRow where
  id : Uuid
  organizationId : Uuid
  email : String
  /-- Never a raw password. -/
  passwordHash : String
  role : Role
  createdAt : Timestamp

/-- The tables of tenants and their users. -/
structure Accounts where
  organizations : List OrganizationRow
  users : List UserRow

/-- How text is put in lower case, by the application and by the index on the addresses. -/
structure Casing where
  toLowercase : String → String
  lower : String → String

/-- The slug is unique and within the CHECK. -/
def insertOrganization (input : Input) (name slug : String) (a : Accounts) :
    Except SqlError OrganizationRow := do
  require (!input.fails) .other
  require (nameCheck name && slugCheck slug) .checkViolation
  require (a.organizations.all fun o => !(o.id = input.id || o.slug = slug)) .uniqueViolation
  pure { id := input.id, name, slug, createdAt := input.now }

/-- The first user of an organization is its owner. -/
def insertUser (casing : Casing) (input : Input) (organizationId : Uuid)
    (email passwordHash : String) (a : Accounts) : Except SqlError UserRow := do
  require (!input.fails) .other
  require (a.users.all fun u => !(u.id = input.id || casing.lower u.email = casing.lower email))
    .uniqueViolation
  require (a.organizations.any (·.id = organizationId)) .foreignKeyViolation
  pure { id := input.id, organizationId, email, passwordHash, role := .owner,
         createdAt := input.now }

/-- What one attempt meets: the committed rows, and what the database generates for the two new
    ones. -/
structure Meeting where
  accounts : Accounts
  organization : Input
  user : Input

/-- The two rows that were created, and the tables with them. -/
structure Created where
  organization : OrganizationRow
  user : UserRow
  accounts : Accounts

/-- Creates an organization and its first user in one transaction. -/
def createOrganizationWithOwner (casing : Casing) (meeting : Meeting)
    (name slug email passwordHash : String) : Except StorageError Created := do
  let a := meeting.accounts
  let organization ← (insertOrganization meeting.organization name slug a).mapError
    (.fromWrite "organization" slug)
  let a := { a with organizations := a.organizations ++ [organization] }
  let email := casing.toLowercase (trim email)
  let user ← (insertUser casing meeting.user organization.id email passwordHash a).mapError
    (.fromWrite "user" email)
  pure ⟨organization, user, { a with users := a.users ++ [user] }⟩

/-- The retry loop: the next attempt, if it is an organization that is there already. -/
def tryAttempts (exhausted : ApiError) (create : Nat → Except StorageError Created) :
    List Nat → Except ApiError Created
  | [] => .error exhausted
  | attempt :: attempts =>
      match create attempt with
      | .ok created => .ok created
      | .error (.conflict entity key) =>
          if entity = "organization" then tryAttempts exhausted create attempts
          else .error (.ofStorage (.conflict entity key))
      | .error error => .error (.ofStorage error)

/-- Every slug was taken. -/
def exhausted (name : String) : ApiError :=
  .conflict s!"could not derive a free identifier from `{name}` — try a more specific name"

/-- Creates the organization, working around a slug another tenant already has. The tables may
    change from one attempt to the next. -/
def registerWithFreeSlug (casing : Casing) (meets : Nat → Meeting)
    (name email passwordHash : String) : Except ApiError Created :=
  tryAttempts (exhausted name) (fun attempt =>
    createOrganizationWithOwner casing (meets attempt) name (slugOf name attempt) email passwordHash)
    attempts

/-! ### What stands in the way -/

/-- Nobody has the slug that the attempt tries. -/
def Free (meets : Nat → Meeting) (name : String) (attempt : Nat) : Prop :=
  ∀ o ∈ (meets attempt).accounts.organizations, o.slug ≠ slugOf name attempt

/-- Nothing but a slug that is taken stands in the way: the database works and generates new
    identifiers, and nobody has the address. -/
structure Unhindered (casing : Casing) (email : String) (meeting : Meeting) : Prop where
  works : meeting.organization.fails = false ∧ meeting.user.fails = false
  newOrganization : ∀ o ∈ meeting.accounts.organizations, o.id ≠ meeting.organization.id
  newUser : ∀ u ∈ meeting.accounts.users, u.id ≠ meeting.user.id
  newAddress : ∀ u ∈ meeting.accounts.users,
    casing.lower u.email ≠ casing.lower (casing.toLowercase (trim email))

section Create

variable {casing : Casing} {meeting : Meeting} {name slug email passwordHash : String}

/-- Both rows, as an attempt on a free slug leaves them. -/
def createdBy (casing : Casing) (meeting : Meeting) (name slug email passwordHash : String) :
    Created :=
  let organization : OrganizationRow :=
    ⟨meeting.organization.id, name, slug, meeting.organization.now⟩
  let user : UserRow :=
    ⟨meeting.user.id, organization.id, casing.toLowercase (trim email), passwordHash, .owner,
      meeting.user.now⟩
  ⟨organization, user, ⟨meeting.accounts.organizations ++ [organization],
    meeting.accounts.users ++ [user]⟩⟩

/-- With a free slug the account is made. -/
theorem create_of_free (h : Unhindered casing email meeting) (hname : nameCheck name = true)
    (hslug : slugCheck slug = true)
    (hfree : ∀ o ∈ meeting.accounts.organizations, o.slug ≠ slug) :
    createOrganizationWithOwner casing meeting name slug email passwordHash =
      .ok (createdBy casing meeting name slug email passwordHash) := by
  have horganizations : (meeting.accounts.organizations.all fun o =>
      !(o.id = meeting.organization.id || o.slug = slug)) = true := by
    simp only [List.all_eq_true, Bool.not_eq_true', Bool.or_eq_false_iff, decide_eq_false_iff_not]
    exact fun o ho => ⟨h.newOrganization o ho, hfree o ho⟩
  have husers : (meeting.accounts.users.all fun u => !(u.id = meeting.user.id ||
      casing.lower u.email = casing.lower (casing.toLowercase (trim email)))) = true := by
    simp only [List.all_eq_true, Bool.not_eq_true', Bool.or_eq_false_iff, decide_eq_false_iff_not]
    exact fun u hu => ⟨h.newUser u hu, h.newAddress u hu⟩
  simp only [createOrganizationWithOwner, insertOrganization, insertUser, h.works.1, h.works.2,
    hname, hslug, horganizations, husers, require, Bool.not_false, Bool.and_self, if_true]
  simp [createdBy, Except.mapError, bind, Except.bind, pure, Except.pure]

/-- A slug that is taken is the one error on which the loop goes on. -/
theorem create_of_taken (h : Unhindered casing email meeting) (hname : nameCheck name = true)
    (hslug : slugCheck slug = true)
    (htaken : ¬ ∀ o ∈ meeting.accounts.organizations, o.slug ≠ slug) :
    createOrganizationWithOwner casing meeting name slug email passwordHash =
      .error (.conflict "organization" slug) := by
  have horganizations : (meeting.accounts.organizations.all fun o =>
      !(o.id = meeting.organization.id || o.slug = slug)) = false := by
    rw [Bool.eq_false_iff]
    intro hall
    refine htaken fun o ho heq => ?_
    have hnot := List.all_eq_true.mp hall o ho
    simp [heq] at hnot
  simp only [createOrganizationWithOwner, insertOrganization, h.works.1, hname, hslug,
    horganizations, require, Bool.not_false, Bool.and_self, if_true]
  rfl

/-- A slug that the column cannot hold ends the attempt. -/
theorem create_of_column (h : Unhindered casing email meeting) (hslug : slugCheck slug = false) :
    createOrganizationWithOwner casing meeting name slug email passwordHash =
      .error (.invalid "organization") := by
  simp only [createOrganizationWithOwner, insertOrganization, h.works.1, hslug, require,
    Bool.not_false, Bool.and_false, if_true]
  rfl

end Create

/-! ### The loop -/

section Loop

variable {exhausted : ApiError} {create : Nat → Except StorageError Created}

/-- Attempts whose slugs are taken pass to the next. -/
theorem tryAttempts_of_taken (slug : Nat → String) : ∀ {tried rest : List Nat},
    (∀ attempt ∈ tried, create attempt = .error (.conflict "organization" (slug attempt))) →
      tryAttempts exhausted create (tried ++ rest) = tryAttempts exhausted create rest
  | [], _, _ => rfl
  | attempt :: tried, rest, h => by
      rw [List.forall_mem_cons] at h
      rw [List.cons_append, tryAttempts, h.1]
      exact tryAttempts_of_taken slug h.2

/-- The first that succeeds ends the loop. -/
theorem tryAttempts_of_created {attempt : Nat} {rest : List Nat} {created : Created}
    (h : create attempt = .ok created) :
    tryAttempts exhausted create (attempt :: rest) = .ok created := by
  rw [tryAttempts, h]

/-- The loop ends with any error but a conflict. -/
theorem tryAttempts_of_invalid {attempt : Nat} {rest : List Nat} {entity : String}
    (h : create attempt = .error (.invalid entity)) :
    tryAttempts exhausted create (attempt :: rest) = .error (.ofStorage (.invalid entity)) := by
  rw [tryAttempts, h]

end Loop

/-- The slugs of a name do what they are for. -/
structure SlugsServe (name : String) : Prop where
  column : ∀ attempt ∈ attempts, slugCheck (slugOf name attempt) = true
  distinct : ∀ attempt ∈ attempts, ∀ attempt' ∈ attempts,
    slugOf name attempt = slugOf name attempt' → attempt = attempt'
  /-- Registration ends at the first attempt whose slug is free. -/
  succeeds : ∀ casing meets email passwordHash,
    (∀ attempt ∈ attempts, Unhindered casing email (meets attempt)) →
      ∀ attempt ∈ attempts, Free meets name attempt →
        (∀ earlier ∈ attempts, earlier < attempt → ¬ Free meets name earlier) →
          registerWithFreeSlug casing meets name email passwordHash =
            .ok (createdBy casing (meets attempt) name (slugOf name attempt) email passwordHash)
  /-- Or all of them are taken, and it says so. -/
  refused : ∀ casing meets email passwordHash,
    (∀ attempt ∈ attempts, Unhindered casing email (meets attempt)) →
      (∀ attempt ∈ attempts, ¬ Free meets name attempt) →
        registerWithFreeSlug casing meets name email passwordHash = .error (exhausted name)

section Serve

variable {name : String}

/-- A character takes a byte at least. -/
theorem length_le_utf8Len : ∀ chars : List Char, chars.length ≤ String.utf8Len chars
  | [] => le_rfl
  | c :: chars => Nat.add_le_add (length_le_utf8Len chars) c.utf8Size_pos

/-- The column counts characters. -/
theorem nameCheck_of_bytes (h : 1 ≤ name.utf8ByteSize ∧ name.utf8ByteSize ≤ 200) :
    nameCheck name = true := by
  have hlength := length_le_utf8Len name.toList
  rw [String.utf8Len_toList] at hlength
  have hsome : name.toList.length ≠ 0 := by
    intro hzero
    have hempty : name = "" := by simpa using hzero
    rw [hempty] at h
    exact absurd h.1 (by decide)
  simp only [nameCheck, Bool.and_eq_true, decide_eq_true_eq]
  omega

/-- The attempts before one of them, and those from it on. -/
theorem attempts_split : ∀ attempt ∈ attempts,
    attempts = List.range' 1 (attempt - 1) ++ attempt :: List.range' (attempt + 1) (12 - attempt) ∧
      ∀ earlier ∈ List.range' 1 (attempt - 1), earlier ∈ attempts ∧ earlier < attempt := by
  decide

/-- A name whose slugs all fit the column is served. -/
theorem slugsServe_of_column (hname : nameCheck name = true)
    (hcolumn : ∀ attempt ∈ attempts, slugCheck (slugOf name attempt) = true) : SlugsServe name where
  column := hcolumn
  distinct _ h _ h' := slugOf_injOn h h'
  succeeds := by
    intro casing meets email passwordHash hfine attempt hattempt hfree hearlier
    obtain ⟨hsplit, hbefore⟩ := attempts_split attempt hattempt
    rw [registerWithFreeSlug, hsplit, tryAttempts_of_taken (slugOf name)]
    · exact tryAttempts_of_created
        (create_of_free (hfine attempt hattempt) hname (hcolumn attempt hattempt) hfree)
    · intro earlier hmem
      obtain ⟨hmem, hlt⟩ := hbefore earlier hmem
      exact create_of_taken (hfine earlier hmem) hname (hcolumn earlier hmem)
        (hearlier earlier hmem hlt)
  refused := by
    intro casing meets email passwordHash hfine htaken
    rw [registerWithFreeSlug, ← List.append_nil attempts, tryAttempts_of_taken (slugOf name)]
    · rfl
    · exact fun attempt hmem => create_of_taken (hfine attempt hmem) hname (hcolumn attempt hmem)
        (htaken attempt hmem)

end Serve

/-- The slugs of a name serve exactly when its letters and digits, and a dash for each gap between
    two runs of them, leave room for the longest suffix. -/
theorem slugs_serve_iff {name : String} (h : 1 ≤ name.utf8ByteSize ∧ name.utf8ByteSize ≤ 200) :
    SlugsServe name ↔ dashedLength name ≤ 60 := by
  constructor
  · intro hserve
    have hlast := hserve.column 12 (by decide)
    rw [slugCheck_slugOf_iff (by decide)] at hlast
    simpa using hlast
  · intro hroom
    refine slugsServe_of_column (nameCheck_of_bytes h) fun attempt hattempt => ?_
    rw [slugCheck_slugOf_iff hattempt]
    split <;> omega

theorem slugs_serve_iff_acme : SlugsServe "Acme Inc" :=
  (slugs_serve_iff (by decide)).mpr (by decide)

/-- A name whose slug fills the column. -/
def longName : String :=
  String.ofList (List.replicate 63 'a')

/-- Another tenant has it already. -/
def longTaken : Meeting where
  accounts := ⟨[⟨⟨1⟩, longName, longName, 0⟩], []⟩
  organization := ⟨⟨2⟩, 1, false⟩
  user := ⟨⟨3⟩, 1, false⟩

/-- The second attempt does not fit, and registration ends in the error of the constraint. -/
theorem longName_refused :
    longName.utf8ByteSize = 63 ∧ Unhindered ⟨id, id⟩ "ada@example.com" longTaken ∧
      slugOf longName 2 = longName ++ "-2" ∧ slugCheck (slugOf longName 2) = false ∧
        Free (fun _ => longTaken) longName 2 ∧
          registerWithFreeSlug ⟨id, id⟩ (fun _ => longTaken) longName "ada@example.com" "hash" =
            .error (.badRequest "organization failed a database constraint") := by
  have hfirst : slugOf longName 1 = longName := by decide +kernel
  have hsecond : slugOf longName 2 = longName ++ "-2" := by decide +kernel
  have hcolumn : slugCheck (slugOf longName 2) = false := by
    rw [hsecond]
    decide +kernel
  have hunhindered : Unhindered ⟨id, id⟩ "ada@example.com" longTaken := by
    refine ⟨⟨rfl, rfl⟩, ?_, ?_, ?_⟩ <;> simp [longTaken]
  have hfree : Free (fun _ => longTaken) longName 2 := by
    simp only [Free, longTaken, List.forall_mem_singleton, hsecond]
    decide +kernel
  have htaken : ∀ attempt ∈ [1], createOrganizationWithOwner ⟨id, id⟩ longTaken longName
      (slugOf longName attempt) "ada@example.com" "hash" =
        .error (.conflict "organization" (slugOf longName attempt)) := by
    intro attempt hattempt
    rw [List.mem_singleton.mp hattempt, hfirst]
    apply create_of_taken hunhindered (by decide +kernel) (by decide +kernel)
    intro hnew
    exact hnew _ List.mem_cons_self rfl
  refine ⟨by decide +kernel, hunhindered, hsecond, hcolumn, hfree, ?_⟩
  have hattempts : attempts = [1] ++ (2 :: List.range' 3 10) := by decide
  rw [registerWithFreeSlug, hattempts, tryAttempts_of_taken (slugOf longName) htaken,
    tryAttempts_of_invalid (create_of_column hunhindered hcolumn)]
  rfl

end FlagForge.Api
