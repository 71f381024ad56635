/-
Module: FlagForge.Api.Tokens
Layer: Api
Purpose: User tokens beside SDK keys. The scope of a key is read from the second field between
  underscores, whatever the first one is, and the base64url text of a token may have underscores of
  its own. A generated key always claims its scope.
Imports: FlagForge.Lib.Base64Url, FlagForge.Api.Credentials
Trusted boundary: the header segment and the HMAC of a token are given
Main exports: Claims, issue, secretOf, looksLikeEmail, AcceptedEmail, SpellsLabel, Spelled,
  spellsLabel_join, claimedScope_secretOf
-/
import FlagForge.Lib.Base64Url
import FlagForge.Api.Credentials

namespace FlagForge.Api

open Bucket (utf8)

/-! ### Tokens and keys -/

/-- The claims of a token. -/
structure Claims where
  sub : Uuid
  org : Uuid
  email : String
  role : Role
  /-- Issued-at, seconds since the epoch. -/
  iat : Int64
  /-- Expiry, seconds since the epoch. -/
  exp : Int64
  jti : Uuid

/-- The text of a role in the claims. -/
def Role.asStr : Role → String
  | .owner => "owner"
  | .admin => "admin"
  | .member => "member"
  | .viewer => "viewer"

variable (crates : Crates)

def Claims.ser (claims : Claims) : Json :=
  .object [
    ("sub", .string (crates.uuidText claims.sub)),
    ("org", .string (crates.uuidText claims.org)),
    ("email", .string claims.email),
    ("role", .string claims.role.asStr),
    ("iat", Json.serI64 claims.iat),
    ("exp", Json.serI64 claims.exp),
    ("jti", .string (crates.uuidText claims.jti))]

/-- What signing takes from the token crate: the header it writes and the HMAC of a secret and a
    message. -/
structure Jwt where
  header : List UInt8
  hmac : List UInt8 → List UInt8 → Vector UInt8 32
  /-- The text of the header has no underscore. -/
  header_plain : '_' ∉ Base64Url.encode header

/-- The base64url text of the claims; they hold no float. -/
def payloadText (claims : Claims) : List Char :=
  Base64Url.encode (utf8 (Json.text (fun _ => "") (claims.ser crates)))

/-- The base64url text of the signature. -/
def signatureText (jwt : Jwt) (secret : String) (claims : Claims) : List Char :=
  let message := Base64Url.encode jwt.header ++ '.' :: payloadText crates claims
  Base64Url.encode (jwt.hmac (utf8 secret) (utf8 (String.ofList message))).toList

/-- The claims `issue` signs, for the clock's time, the configured lifetime and a random token id. -/
def claimsOf (userId organizationId : Uuid) (email : String) (role : Role) (now ttl : Int64)
    (jti : Uuid) : Claims where
  sub := userId
  org := organizationId
  email := email
  role := role
  iat := now
  exp := now + ttl
  jti := jti

/-- The token for the claims. -/
def issue (jwt : Jwt) (secret : String) (claims : Claims) : String :=
  String.ofList (Base64Url.encode jwt.header ++ '.' :: payloadText crates claims ++
    '.' :: signatureText crates jwt secret claims)

/-- The secret `generate` makes of random bytes. -/
def secretOf (scope : KeyScope) (bytes : Vector UInt8 32) : String :=
  s!"{keyPrefix}_{scope.label}_{String.ofList (Base64Url.encode bytes.toList)}"

/-- Minimal structural check. -/
def looksLikeEmail (candidate : String) : Bool :=
  if candidate.utf8ByteSize > 254 || candidate.toList.any Validate.isWhitespace then false
  else
    match splitOnce candidate '@' with
    | some (localPart, domain) =>
        !localPart.isEmpty && domain.toList.contains '.' && domain.toList.head? != some '.' &&
          domain.toList.getLast? != some '.'
    | none => false

/-- An address that registration accepts: trimmed, in lower case and like an email. -/
def AcceptedEmail (toLowercase : String → String) (email : String) : Prop :=
  ∃ raw, toLowercase (trim raw) = email ∧ looksLikeEmail email = true

/-! ### Fields between underscores -/

/-- The field `claimedScope` looks at. -/
def secondField (s : List Char) : Option (List Char) :=
  (s.splitOn '_')[1]?

/-- The text spells a scope where `claimedScope` looks. -/
def SpellsLabel (s : List Char) : Prop :=
  secondField s = some ['s', 'r', 'v'] ∨ secondField s = some ['c', 'l', 'i']

instance (s : List Char) : Decidable (SpellsLabel s) :=
  inferInstanceAs (Decidable (_ ∨ _))

/-- A text claims no scope exactly when its second field is no label. -/
theorem claimedScope_eq_none_iff {s : String} :
    claimedScope s = none ↔ ¬ SpellsLabel s.toList := by
  rw [claimedScope, SpellsLabel, secondField]
  split <;> simp_all

/-- What stands before without an underscore does not move the fields. -/
theorem secondField_append {before : List Char} (h : '_' ∉ before) (after : List Char) :
    secondField (before ++ after) = secondField after := by
  induction before with
  | nil => rfl
  | cons c before ih =>
      rw [List.mem_cons, not_or] at h
      have hc : (c == '_') = false := by simpa using Ne.symm h.1
      rw [← ih h.2, secondField, secondField, List.cons_append,
        List.splitOn_cons_eq_if_modifyHead, hc]
      cases (before ++ after).splitOn '_' <;> simp

/-- The first field is what stands before the first underscore. -/
theorem firstField (s : List Char) : (s.splitOn '_')[0]? = some (s.takeWhile (· ≠ '_')) := by
  induction s with
  | nil => rfl
  | cons c s ih =>
      rw [List.splitOn_cons_eq_if_modifyHead]
      by_cases hc : c = '_'
      · simp [hc]
      · cases hfields : s.splitOn '_' with
        | nil => exact absurd hfields (by simp)
        | cons field fields =>
            rw [hfields] at ih
            cases Option.some.inj ih
            simp [hc]

/-- The second is what stands behind it, up to the next. -/
theorem secondField_cons {before : List Char} (h : '_' ∉ before) (after : List Char) :
    secondField (before ++ '_' :: after) = some (after.takeWhile (· ≠ '_')) := by
  rw [secondField, List.splitOn_append_cons_self_of_not_mem h, List.getElem?_cons_succ, firstField]

/-- The text spells a scope between its first two underscores. -/
def Spelled (s : List Char) : Prop :=
  ∃ before after, '_' ∉ before ∧ ∃ scope : KeyScope,
    s = before ++ '_' :: (scope.label.toList ++ '_' :: after)

theorem label_plain (scope : KeyScope) : '_' ∉ scope.label.toList := by
  cases scope <;> decide

/-- Nothing is spelled without an underscore. -/
theorem not_spelled_of_not_mem {s : List Char} (h : '_' ∉ s) : ¬ Spelled s := by
  rintro ⟨before, after, _, scope, rfl⟩
  exact h (by simp)

/-- A spelled label takes two underscores and three letters. -/
theorem Spelled.length {s : List Char} (h : Spelled s) : 5 ≤ s.length := by
  obtain ⟨before, after, _, scope, rfl⟩ := h
  cases scope <;> simp [KeyScope.label] <;> omega

/-- Text without an underscore may stand in front. -/
theorem spelled_cons {c : Char} (hc : c ≠ '_') {s : List Char} : Spelled (c :: s) ↔ Spelled s := by
  constructor
  · rintro ⟨before, after, hbefore, scope, heq⟩
    cases before with
    | nil => exact absurd (List.cons.inj heq).1 hc
    | cons c' before =>
        rw [List.mem_cons, not_or] at hbefore
        exact ⟨before, after, hbefore.2, scope, (List.cons.inj heq).2⟩
  · rintro ⟨before, after, hbefore, scope, rfl⟩
    refine ⟨c :: before, after, ?_, scope, rfl⟩
    rw [List.mem_cons, not_or]
    exact ⟨Ne.symm hc, hbefore⟩

theorem spelled_append {before : List Char} (h : '_' ∉ before) {s : List Char} :
    Spelled (before ++ s) ↔ Spelled s := by
  induction before with
  | nil => rfl
  | cons c before ih =>
      rw [List.mem_cons, not_or] at h
      rw [List.cons_append, spelled_cons (Ne.symm h.1), ih h.2]

/-- Behind the first underscore the scope has to follow at once. -/
theorem spelled_underscore {s : List Char} :
    Spelled ('_' :: s) ↔
      ∃ (scope : KeyScope) (after : List Char), s = scope.label.toList ++ '_' :: after := by
  constructor
  · rintro ⟨before, after, hbefore, scope, heq⟩
    cases before with
    | nil => exact ⟨scope, after, (List.cons.inj heq).2⟩
    | cons c before => exact absurd (List.mem_cons.mpr (.inl (List.cons.inj heq).1)) hbefore
  · rintro ⟨scope, after, rfl⟩
    exact ⟨[], after, by simp, scope, rfl⟩

theorem takeWhile_append {field : List Char} (h : '_' ∉ field) (rest : List Char) :
    (field ++ rest).takeWhile (· ≠ '_') = field ++ rest.takeWhile (· ≠ '_') := by
  apply List.takeWhile_append_of_pos
  intro c hc
  rw [decide_eq_true_eq]
  rintro rfl
  exact h hc

/-- The labels are those of the scopes. -/
theorem spellsLabel_iff {s : List Char} :
    SpellsLabel s ↔ ∃ scope : KeyScope, secondField s = some scope.label.toList := by
  constructor
  · rintro (h | h)
    · exact ⟨.server, h⟩
    · exact ⟨.client, h⟩
  · rintro ⟨scope, h⟩
    cases scope with
    | server => exact .inl h
    | client => exact .inr h

/-- Two texts joined by a dot spell a scope when the first does between its underscores, or has none
    and the second does. -/
theorem spellsLabel_join (payload signature : List Char) :
    SpellsLabel (payload ++ '.' :: signature) ↔
      Spelled payload ∨ '_' ∉ payload ∧ SpellsLabel signature := by
  by_cases hmem : '_' ∈ payload
  · obtain ⟨before, after, rfl, hbefore⟩ := List.eq_append_cons_of_mem hmem
    simp only [hmem, not_true_eq_false, false_and, or_false]
    rw [spellsLabel_iff, List.append_assoc, List.cons_append, secondField_cons hbefore]
    constructor
    · rintro ⟨scope, hscope⟩
      have hfield := Option.some.inj hscope
      by_cases hafter : '_' ∈ after
      · obtain ⟨field, rest, rfl, hplain⟩ := List.eq_append_cons_of_mem hafter
        rw [List.append_assoc, takeWhile_append hplain] at hfield
        refine ⟨before, rest, hbefore, scope, ?_⟩
        rw [← hfield]
        simp
      · -- the field runs over the dot into the signature, and no scope has a dot
        have hdot : '.' ∈ scope.label.toList := by
          rw [← hfield, takeWhile_append hafter]
          simp
        cases scope <;> exact absurd hdot (by decide)
    · intro hspelled
      obtain ⟨scope, rest, rfl⟩ := spelled_underscore.mp ((spelled_append hbefore).mp hspelled)
      refine ⟨scope, congrArg some ?_⟩
      rw [List.append_assoc, takeWhile_append (label_plain scope)]
      simp
  · have hdot : secondField (payload ++ '.' :: signature) = secondField signature := by
      rw [secondField_append hmem]
      exact @secondField_append ['.'] (by decide) signature
    rw [SpellsLabel, hdot, ← SpellsLabel]
    simp [hmem, not_spelled_of_not_mem hmem]

/-! ### Generated keys -/

/-- A generated key claims its scope, whatever its random bytes. -/
theorem claimedScope_secretOf (scope : KeyScope) (bytes : Vector UInt8 32) :
    claimedScope (secretOf scope bytes) = some scope := by
  have hlist : (secretOf scope bytes).toList = ['f', 'f'] ++ '_' :: (scope.label.toList ++
      '_' :: Base64Url.encode bytes.toList) := by
    have hconcat : secretOf scope bytes = "ff" ++ "_" ++ scope.label ++ "_" ++
      String.ofList (Base64Url.encode bytes.toList) := rfl
    rw [hconcat]
    simp
  have hlabel : '_' ∉ scope.label.toList := by cases scope <;> decide
  have hfield : ((secretOf scope bytes).toList.splitOn '_')[1]? = some scope.label.toList := by
    rw [hlist]
    refine (secondField_cons (by decide) _).trans ?_
    rw [takeWhile_append hlabel]
    simp
  rw [claimedScope, hfield]
  cases scope <;> rfl

/-- HMAC-SHA256 tokens, with a signature of zero bytes. -/
def Jwt.plain : Jwt where
  header := utf8 "\x7b\"typ\":\"JWT\",\"alg\":\"HS256\"\x7d"
  hmac _ _ := Vector.replicate 32 0
  header_plain := by decide +kernel

end FlagForge.Api
