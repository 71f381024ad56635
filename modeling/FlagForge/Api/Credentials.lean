/-
Module: FlagForge.Api.Credentials
Layer: Api
Purpose: The two kinds of credential, how the extractors read them from the headers, and the key the
  rate limiter gives a caller.
Imports: FlagForge.Core.HashInput, FlagForge.Lib.JsonText, FlagForge.Api.Handlers
Trusted boundary: none (the hash function and the reading of a header value are parameters)
Main exports: KeyScope, hash, claimedScope, HttpRequest, bearer, authUserToken,
  sdkIdentityKey, clientKey
-/
import FlagForge.Core.HashInput
import FlagForge.Lib.JsonText
import FlagForge.Api.Handlers

namespace FlagForge.Api

open Bucket (utf8 utf8_injective)

/-! ### SDK keys -/

inductive KeyScope where
  /-- Full evaluation access; must stay on a server. -/
  | server
  /-- Intended for browsers and mobile apps. -/
  | client
deriving DecidableEq

/-- Every key starts with this. -/
def keyPrefix : String := "ff"

/-- The label of a scope in a key. -/
def KeyScope.label : KeyScope → String
  | .server => "srv"
  | .client => "cli"

def hexByte (b : UInt8) : List Char :=
  [Json.hexDigit (b.toNat / 16), Json.hexDigit (b.toNat % 16)]

/-- Lookup hash for a presented secret. -/
def hash (sha256 : List UInt8 → Vector UInt8 32) (secret : String) : String :=
  String.ofList ((sha256 (utf8 secret)).toList.flatMap hexByte)

/-- Extracts the scope a key claims. -/
def claimedScope (secret : String) : Option KeyScope :=
  match (secret.toList.splitOn '_')[1]? with
  | some ['s', 'r', 'v'] => some .server
  | some ['c', 'l', 'i'] => some .client
  | _ => none

/-! ### Extractors -/

/-- A request: the first value under each header name. -/
structure HttpRequest (Value : Type) where
  headers : String → Option Value

/-- `s.split_once(sep)` -/
def splitOnce (s : String) (sep : Char) : Option (String × String) :=
  match s.toList.span (· ≠ sep) with
  | (_, []) => none
  | (before, _ :: after) => some (String.ofList before, String.ofList after)

/-- `a.eq_ignore_ascii_case(b)` -/
def eqIgnoreAsciiCase (a b : String) : Bool :=
  a.toList.map Char.toLower = b.toList.map Char.toLower

section

variable {Value : Type} (toStr : Value → Option String) (request : HttpRequest Value)

/-- The text of a header, when it has one. -/
def headerText (name : String) : Option String :=
  (request.headers name).bind toStr

def bearer : Option String := do
  let value ← headerText toStr request "authorization"
  let (scheme, credential) ← splitOnce value ' '
  if eqIgnoreAsciiCase scheme "bearer" then some (trim credential) else none

/-- The token `AuthUser` goes on to verify. -/
def authUserToken : Option String :=
  (bearer toStr request).filter fun token => (claimedScope token).isNone

/-- The key `SdkIdentity` goes on to look up. -/
def sdkIdentityKey : Option String :=
  ((bearer toStr request).or (headerText toStr request "x-flagforge-key")).filter fun presented =>
    (claimedScope presented).isSome

/-! ### The caller to limit -/

/-- The first address the request says it was forwarded for. -/
def forwardedAddress : Option String :=
  (headerText toStr request "x-forwarded-for").bind fun value =>
    let first := trim (String.ofList (value.toList.takeWhile (· ≠ ',')))
    if first.isEmpty then none else some first

/-- Identifies the caller to limit. -/
def clientKey (sha256 : List UInt8 → Vector UInt8 32) : String :=
  match headerText toStr request "authorization" with
  -- bucket on a hash so the map never holds live secrets
  | some credential => s!"cred:{hash sha256 credential}"
  | none =>
      match forwardedAddress toStr request with
      | some ip => s!"ip:{ip}"
      | none => "anonymous"

end

/-! ### Keys of callers -/

/-- Two digits tell a byte. -/
theorem hexByte_injective : ∀ {b c : UInt8}, hexByte b = hexByte c → b = c := by
  intro b c h
  simp only [hexByte, List.cons.injEq, and_true] at h
  have hdigit : ∀ m < 16, ∀ n < 16, Json.hexDigit m = Json.hexDigit n → m = n := by decide
  have hb := b.toNat_lt
  have hc := c.toNat_lt
  have hhigh := hdigit _ (by omega) _ (by omega) h.1
  have hlow := hdigit _ (by omega) _ (by omega) h.2
  apply UInt8.toNat_inj.mp
  omega

/-- So the digits tell the bytes. -/
theorem flatMap_hexByte_injective {bs cs : List UInt8} (hlength : bs.length = cs.length)
    (h : bs.flatMap hexByte = cs.flatMap hexByte) : bs = cs := by
  induction bs generalizing cs with
  | nil => exact (List.eq_nil_of_length_eq_zero hlength.symm).symm
  | cons b bs ih =>
      cases cs with
      | nil => cases hlength
      | cons c cs =>
          rw [List.flatMap_cons, List.flatMap_cons] at h
          have hsplit := List.append_inj h rfl
          rw [hexByte_injective hsplit.1, ih (by simpa using hlength) hsplit.2]

/-- Secrets hash alike when their digests are the same. -/
theorem hash_eq_iff {sha256 : List UInt8 → Vector UInt8 32} {s t : String} :
    hash sha256 s = hash sha256 t ↔ sha256 (utf8 s) = sha256 (utf8 t) := by
  constructor
  · intro h
    have hlist := flatMap_hexByte_injective (by simp) (String.ofList_injective h)
    exact Vector.toList_inj.mp hlist
  · intro h
    rw [hash, hash, h]

/-- Buckets of credentials are named apart by the hash. -/
theorem cred_injective {s t : String} (h : s!"cred:{s}" = s!"cred:{t}") : s = t := by
  have hlist := congrArg String.toList h
  simp only [String.toList_append, List.append_cancel_left_eq] at hlist
  exact String.toList_inj.mp hlist

/-- Buckets of addresses by the address. -/
theorem ip_injective {s t : String} (h : s!"ip:{s}" = s!"ip:{t}") : s = t := by
  have hlist := congrArg String.toList h
  simp only [String.toList_append, List.append_cancel_left_eq] at hlist
  exact String.toList_inj.mp hlist

/-- No bucket is of both. -/
theorem cred_ne_ip (s t : String) : s!"cred:{s}" ≠ s!"ip:{t}" := by
  intro h
  have hhead : ("cred:" ++ s).toList.head? = ("ip:" ++ t).toList.head? :=
    congrArg (fun u => u.toList.head?) h
  simp at hhead

theorem cred_ne_anonymous (s : String) : s!"cred:{s}" ≠ "anonymous" := by
  intro h
  have hhead : ("cred:" ++ s).toList.head? = "anonymous".toList.head? :=
    congrArg (fun u => u.toList.head?) h
  simp at hhead

theorem ip_ne_anonymous (s : String) : s!"ip:{s}" ≠ "anonymous" := by
  intro h
  have hhead : ("ip:" ++ s).toList.head? = "anonymous".toList.head? :=
    congrArg (fun u => u.toList.head?) h
  simp at hhead

end FlagForge.Api
