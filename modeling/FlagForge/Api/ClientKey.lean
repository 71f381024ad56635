/-
Module: FlagForge.Api.ClientKey
Layer: Api
Purpose: Whom the limiter takes a request for. Two requests share a bucket when they carry the same
  Authorization text, or carry none and name the same forwarded address: less than sharing a
  credential, and open to whoever names the address of another.
Imports: FlagForge.Lib.Keyed, FlagForge.Api.Credentials, FlagForge.Api.RateLimit
Trusted boundary: none (the hash function and the reading of a header value are parameters)
Main exports: Caller, SameCredential, one_credential_one_bucket_iff, Sent, victimDecisions,
  strangers_change_nothing
-/
import FlagForge.Lib.Keyed
import FlagForge.Api.Credentials
import FlagForge.Api.RateLimit

namespace FlagForge.Api

open Bucket (utf8)

/-- Whom a request is taken for. -/
inductive Caller where
  | credential (text : String)
  | address (ip : String)
  | anonymous
deriving DecidableEq

variable {Value : Type} (toStr : Value → Option String) (sha256 : List UInt8 → Vector UInt8 32)

def caller (request : HttpRequest Value) : Caller :=
  match headerText toStr request "authorization" with
  | some text => .credential text
  | none =>
      match forwardedAddress toStr request with
      | some ip => .address ip
      | none => .anonymous

def Caller.key : Caller → String
  | .credential text => s!"cred:{hash sha256 text}"
  | .address ip => s!"ip:{ip}"
  | .anonymous => "anonymous"

/-- Two callers whose texts have one digest. -/
def Caller.Collides (c d : Caller) : Prop :=
  ∃ s t, c = .credential s ∧ d = .credential t ∧ s ≠ t ∧ sha256 (utf8 s) = sha256 (utf8 t)

variable {toStr sha256}

/-- The bucket key is told from what the limiter takes the request for. -/
theorem clientKey_eq (request : HttpRequest Value) :
    clientKey toStr request sha256 = (caller toStr request).key sha256 := by
  rw [clientKey, caller]
  cases headerText toStr request "authorization" with
  | some text => rfl
  | none => cases forwardedAddress toStr request <;> rfl

/-- But for collisions, callers have keys of their own. -/
theorem Caller.key_eq_iff {c d : Caller} :
    c.key sha256 = d.key sha256 ↔ c = d ∨ Collides sha256 c d := by
  constructor
  · intro h
    cases c with
    | credential s =>
        cases d with
        | credential t =>
            by_cases hsame : s = t
            · exact .inl (congrArg _ hsame)
            · exact .inr ⟨s, t, rfl, rfl, hsame, hash_eq_iff.mp (cred_injective h)⟩
        | address ip => exact absurd h (cred_ne_ip _ _)
        | anonymous => exact absurd h (cred_ne_anonymous _)
    | address ip =>
        cases d with
        | credential t => exact absurd h.symm (cred_ne_ip _ _)
        | address ip' => exact .inl (congrArg _ (ip_injective h))
        | anonymous => exact absurd h (ip_ne_anonymous _)
    | anonymous =>
        cases d with
        | credential t => exact absurd h.symm (cred_ne_anonymous _)
        | address ip => exact absurd h.symm (ip_ne_anonymous _)
        | anonymous => exact .inl rfl
  · intro h
    rcases h with rfl | ⟨s, t, rfl, rfl, _, hdigest⟩
    · rfl
    · rw [key, key, hash_eq_iff.mpr hdigest]

/-! ### One credential -/

variable (toStr)

/-- An extractor reads the same credential from both requests. -/
def SameCredential (first second : HttpRequest Value) : Prop :=
  (∃ token, authUserToken toStr first = some token ∧ authUserToken toStr second = some token) ∨
    ∃ key, sdkIdentityKey toStr first = some key ∧ sdkIdentityKey toStr second = some key

/-- Both carry the same Authorization text; or neither carries one, and both were forwarded for the
    same address or for none. -/
def SameHeaders (first second : HttpRequest Value) : Prop :=
  headerText toStr first "authorization" = headerText toStr second "authorization" ∧
    (headerText toStr first "authorization" = none →
      forwardedAddress toStr first = forwardedAddress toStr second)

variable {toStr}

/-- When two requests are taken for the same caller. -/
theorem caller_eq_iff {first second : HttpRequest Value} :
    caller toStr first = caller toStr second ↔ SameHeaders toStr first second := by
  rw [caller, caller, SameHeaders]
  cases headerText toStr first "authorization" with
  | some s =>
      cases headerText toStr second "authorization" with
      | some t => simp
      | none => cases forwardedAddress toStr second <;> simp
  | none =>
      cases headerText toStr second "authorization" with
      | some t => cases forwardedAddress toStr first <;> simp
      | none =>
          cases forwardedAddress toStr first <;> cases forwardedAddress toStr second <;> simp

/-- Requests with one credential share a bucket exactly when they have the headers that decide it in
    common, unless the hash function collides on their Authorization texts. -/
theorem one_credential_one_bucket_iff (toStr : Value → Option String)
    (sha256 : List UInt8 → Vector UInt8 32) (first second : HttpRequest Value)
    (_h : SameCredential toStr first second) :
    clientKey toStr first sha256 = clientKey toStr second sha256 ↔
      SameHeaders toStr first second ∨
        Caller.Collides sha256 (caller toStr first) (caller toStr second) := by
  rw [clientKey_eq, clientKey_eq, Caller.key_eq_iff, caller_eq_iff]

/-- A request with the given headers, as texts. -/
def requestWith (headers : List (String × String)) : HttpRequest String where
  headers name := (headers.find? fun header => header.1 = name).map Prod.snd

/-- A digest that keeps the first bytes apart. -/
def firstBytes (bytes : List UInt8) : Vector UInt8 32 :=
  Vector.ofFn fun i => bytes[i.val]?.getD 0

theorem one_credential_one_bucket_iff_forwarded :
    clientKey some (requestWith [("authorization", "Bearer ff_srv_x")]) firstBytes =
      clientKey some (requestWith [("x-forwarded-for", "203.0.113.7"),
        ("authorization", "Bearer ff_srv_x")]) firstBytes := by
  refine (one_credential_one_bucket_iff some firstBytes _ _ ?_).mpr ?_
  · exact .inr ⟨"ff_srv_x", by decide +kernel, by decide +kernel⟩
  · exact .inl ⟨by decide +kernel, by decide +kernel⟩

/-- One SDK key, once in `Authorization` and once in `x-flagforge-key`. -/
theorem one_credential_two_buckets :
    ¬ ∃ sha256, ∀ first second : HttpRequest String, SameCredential some first second →
      clientKey some first sha256 = clientKey some second sha256 := by
  rintro ⟨sha256, hall⟩
  have hsame : SameCredential some (requestWith [("authorization", "Bearer ff_srv_x")])
      (requestWith [("x-flagforge-key", "ff_srv_x")]) :=
    .inr ⟨"ff_srv_x", by decide +kernel, by decide +kernel⟩
  have hcallers : caller some (requestWith [("authorization", "Bearer ff_srv_x")]) =
        .credential "Bearer ff_srv_x" ∧
      caller some (requestWith [("x-flagforge-key", "ff_srv_x")]) = .anonymous := by
    decide +kernel
  have hkeys := hall _ _ hsame
  rw [clientKey_eq, clientKey_eq, hcallers.1, hcallers.2] at hkeys
  exact cred_ne_anonymous _ hkeys

/-! ### Other people's requests -/

/-- A request that reaches the limiter, from an attacker or from the victim. -/
structure Sent (Value : Type) where
  attacker : Bool
  request : HttpRequest Value
  now : ℚ

variable (toStr sha256)

/-- What the limiter decides on the victim's requests. -/
def victimDecisions : RateLimiter → List (Sent Value) → List Decision
  | _, [] => []
  | limiter, sent :: run =>
      let served := limiter.update (clientKey toStr sent.request sha256) sent.now
      if sent.attacker then victimDecisions served.2 run
      else served.1 :: victimDecisions served.2 run

/-- The run without the attacker. -/
def withoutAttacker (run : List (Sent Value)) : List (Sent Value) :=
  run.filter fun sent => !sent.attacker

/-- An attacker who does not know the victim's credential, and a victim who has one or is known by
    its address. -/
structure Attack (run : List (Sent Value)) : Prop where
  unknown : ∀ sent ∈ run, ∀ other ∈ run, sent.attacker = true → other.attacker = false →
    ∀ text, headerText toStr sent.request "authorization" = some text →
      headerText toStr other.request "authorization" ≠ some text
  identified : ∀ sent ∈ run, sent.attacker = false → caller toStr sent.request ≠ .anonymous
  /-- The hash function has no collision among the texts of the run. -/
  injective : ∀ sent ∈ run, ∀ other ∈ run,
    ¬ Caller.Collides sha256 (caller toStr sent.request) (caller toStr other.request)

/-- No request of the attacker without an Authorization text names an address that the victim is
    known by. -/
def SparesAddress (run : List (Sent Value)) : Prop :=
  ∀ sent ∈ run, ∀ other ∈ run, sent.attacker = true → other.attacker = false →
    headerText toStr sent.request "authorization" = none →
    headerText toStr other.request "authorization" = none →
    forwardedAddress toStr sent.request ≠ forwardedAddress toStr other.request

variable {toStr sha256} {run : List (Sent Value)}

/-- The limiter serves a cell for each key. -/
theorem victimDecisions_eq (limiter : RateLimiter) (run : List (Sent Value)) :
    victimDecisions toStr sha256 limiter run =
      Keyed.watched (fun sent => clientKey toStr sent.request sha256)
        (fun sent found => touch limiter.limits sent.now found) (fun sent => !sent.attacker)
        (fun key => limiter.buckets[key]?) run := by
  induction run generalizing limiter with
  | nil => rfl
  | cons sent run ih =>
      have hcells : (fun key => (limiter.update (clientKey toStr sent.request sha256)
            sent.now).2.buckets[key]?) =
          (Keyed.serve (fun sent => clientKey toStr sent.request sha256)
            (fun sent found => touch limiter.limits sent.now found)
            (fun key => limiter.buckets[key]?) sent).2 := by
        funext key
        simp only [Keyed.serve, Function.update_apply]
        by_cases hkey : key = clientKey toStr sent.request sha256
        · rw [if_pos hkey, hkey, buckets_update_self]
        · rw [if_neg hkey, buckets_update_of_ne _ (Ne.symm hkey)]
      rw [victimDecisions, Keyed.watched, ih, limits_update, hcells]
      cases sent.attacker <;> rfl

/-- The attacker is taken for someone else. -/
theorem Attack.callers_ne (h : Attack toStr sha256 run) (hspares : SparesAddress toStr run) :
    ∀ sent ∈ run, ∀ other ∈ run, sent.attacker = true → other.attacker = false →
      caller toStr sent.request ≠ caller toStr other.request := by
  intro sent hsent other hother hattacker hvictim heq
  have hheaders := caller_eq_iff.mp heq
  cases htext : headerText toStr sent.request "authorization" with
  | some text =>
      exact h.unknown sent hsent other hother hattacker hvictim text htext
        (hheaders.1 ▸ htext)
  | none =>
      exact hspares sent hsent other hother hattacker hvictim htext (hheaders.1 ▸ htext)
        (hheaders.2 htext)

/-- Strangers who do not name the victim's address change no decision on its requests, however many
    they are and whatever else they send: two runs that differ in nothing but them decide alike. -/
theorem strangers_change_nothing (toStr : Value → Option String)
    (sha256 : List UInt8 → Vector UInt8 32) (limiter : RateLimiter) (run : List (Sent Value))
    (h : Attack toStr sha256 run) (hspares : SparesAddress toStr run) :
    victimDecisions toStr sha256 limiter run =
      victimDecisions toStr sha256 limiter (withoutAttacker run) := by
  rw [victimDecisions_eq, victimDecisions_eq, withoutAttacker]
  apply Keyed.watched_filter
  intro mine hmine other hother hvictim hattacker hkeys
  rw [Bool.not_eq_true'] at hvictim
  rw [Bool.not_eq_false'] at hattacker
  rw [clientKey_eq, clientKey_eq, Caller.key_eq_iff] at hkeys
  rcases hkeys with hsame | hcollides
  · exact h.callers_ne hspares other hother mine hmine hattacker hvictim hsame
  · exact h.injective other hother mine hmine hcollides

/-! ### Two requests -/

/-- The attack of one stranger's request before one of the victim's. -/
theorem attack_pair {stranger victim : Sent Value} (hattacker : stranger.attacker = true)
    (hvictim : victim.attacker = false)
    (hunknown : ∀ text, headerText toStr stranger.request "authorization" = some text →
      headerText toStr victim.request "authorization" ≠ some text)
    (hidentified : caller toStr victim.request ≠ .anonymous)
    (hinjective : ¬ Caller.Collides sha256 (caller toStr stranger.request)
      (caller toStr victim.request)) : Attack toStr sha256 [stranger, victim] where
  unknown sent hsent other hother hs ho := by
    rw [List.mem_pair] at hsent hother
    rcases hsent with rfl | rfl
    · rcases hother with rfl | rfl
      · rw [hs] at ho
        cases ho
      · exact hunknown
    · rw [hvictim] at hs
      cases hs
  identified sent hsent hs := by
    rw [List.mem_pair] at hsent
    rcases hsent with rfl | rfl
    · rw [hattacker] at hs
      cases hs
    · exact hidentified
  injective sent hsent other hother := by
    have hself (c : Caller) : ¬ Caller.Collides sha256 c c := by
      rintro ⟨s, t, rfl, heq, hne, _⟩
      exact hne (Caller.credential.inj heq)
    rw [List.mem_pair] at hsent hother
    rcases hsent with rfl | rfl
    · rcases hother with rfl | rfl
      · exact hself _
      · exact hinjective
    · rcases hother with rfl | rfl
      · rintro ⟨s, t, hs, ht, hne, hdigest⟩
        exact hinjective ⟨t, s, ht, hs, hne.symm, hdigest.symm⟩
      · exact hself _

/-- A stranger who guesses a credential, and the victim with its own. -/
def guessed : List (Sent String) :=
  [⟨true, requestWith [("authorization", "Bearer guess")], 0⟩,
    ⟨false, requestWith [("authorization", "Bearer ff_srv_x")], 0⟩]

theorem strangers_change_nothing_guessed :
    victimDecisions some firstBytes (.new ⟨1, 1⟩) guessed =
      victimDecisions some firstBytes (.new ⟨1, 1⟩) (withoutAttacker guessed) := by
  have hguess : headerText some (requestWith [("authorization", "Bearer guess")])
      "authorization" = some "Bearer guess" := by decide +kernel
  have hcallers : caller some (requestWith [("authorization", "Bearer guess")]) =
        .credential "Bearer guess" ∧
      caller some (requestWith [("authorization", "Bearer ff_srv_x")]) =
        .credential "Bearer ff_srv_x" := by decide +kernel
  have hdigests : firstBytes (utf8 "Bearer guess") ≠ firstBytes (utf8 "Bearer ff_srv_x") := by
    decide +kernel
  apply strangers_change_nothing some firstBytes
  · apply attack_pair rfl rfl
    · intro text htext
      cases hguess.symm.trans htext
      decide +kernel
    · rw [hcallers.2]
      decide
    · rintro ⟨s, t, hs, ht, _, hdigest⟩
      cases hcallers.1.symm.trans hs
      cases hcallers.2.symm.trans ht
      exact hdigests hdigest
  · intro sent hsent other _ hattacker _ hnone
    rw [guessed, List.mem_pair] at hsent
    rcases hsent with rfl | rfl
    · cases hguess.symm.trans hnone
    · cases hattacker

/-- A stranger who names the victim's address, and the victim. -/
def impersonated : List (Sent String) :=
  [⟨true, requestWith [("x-forwarded-for", "203.0.113.7")], 0⟩,
    ⟨false, requestWith [("x-forwarded-for", "203.0.113.7")], 0⟩]

/-- The stranger spends what the victim had. -/
theorem impersonated_narrows :
    ¬ ∃ sha256, ∀ (limiter : RateLimiter) (run : List (Sent String)), Attack some sha256 run →
      victimDecisions some sha256 limiter run =
        victimDecisions some sha256 limiter (withoutAttacker run) := by
  rintro ⟨sha256, hall⟩
  have hcaller : caller some (requestWith [("x-forwarded-for", "203.0.113.7")]) =
      .address "203.0.113.7" := by decide +kernel
  have hattack : Attack some sha256 impersonated := by
    apply attack_pair rfl rfl
    · intro text htext
      cases htext
    · rw [hcaller]
      decide
    · rintro ⟨s, _, hs, _⟩
      cases hcaller.symm.trans hs
  have halone : withoutAttacker impersonated =
      [⟨false, requestWith [("x-forwarded-for", "203.0.113.7")], 0⟩] := rfl
  have heq := hall (.new ⟨1, 1⟩) impersonated hattack
  have hkey : clientKey some (requestWith [("x-forwarded-for", "203.0.113.7")]) sha256 =
      "ip:203.0.113.7" := by
    rw [clientKey_eq, hcaller]
    rfl
  rw [halone] at heq
  simp only [impersonated, victimDecisions, hkey] at heq
  revert heq
  decide +kernel

end FlagForge.Api
