/-
Module: FlagForge.Core.RegexCache
Layer: Core
Purpose: The bounded cache of compiled patterns, shared by every thread that evaluates. Whatever it
  holds, a call returns what compiling its pattern again would, and it never holds more than its
  capacity.
Imports: FlagForge.Lib.Memo, FlagForge.Core.Matcher
Trusted boundary: none
Main exports: RegexCache, RegexCache.step, RegexCache.cache_transparent
-/
import FlagForge.Lib.Memo
import FlagForge.Core.Matcher

namespace FlagForge

/-- Past this many patterns the cache stops growing; nothing is evicted. -/
def regexCacheCapacity : Nat := 1024

/-- A compiled pattern, or `none` for one that does not compile: failures are cached too. -/
abbrev Compiled := Option (String → Bool)

/-- The cache, and the calls of `compiled` that any threads have made. -/
abbrev RegexCache := Memo String Compiled compare

namespace RegexCache

abbrev Move := Memo.Move String

/-- The read lookup, `Regex::new(pattern).ok()`, and the insertion under the write lock. A poisoned
    lock is passed over. -/
abbrev step (crates : Crates) : Move → RegexCache → Option RegexCache :=
  Memo.step (fun pattern => (crates.regexNew pattern).toOption) regexCacheCapacity

/-- What the states of a run have in common: every call that has returned has what compiling its
    pattern gives, every other one can go on, and the cache is within its capacity. -/
structure Transparent (crates : Crates) (s : RegexCache) : Prop where
  returned : ∀ pattern result, Memo.Call.returned pattern result ∈ s.calls →
    result = (crates.regexNew pattern).toOption
  bounded : s.entries.size ≤ regexCacheCapacity
  returns : ∀ (i : Nat) (call : Memo.Call String Compiled), s.calls[i]? = some call →
    (∃ pattern result, call = .returned pattern result) ∨
      ∃ m s' call', step crates m s = some s' ∧ s'.calls[i]? = some call' ∧
        call'.key = call.key ∧ call'.remaining < call.remaining

/-- A sound memory in front of the compiler does not show. -/
theorem transparent_of_sound {crates : Crates} {s : RegexCache}
    (h : Memo.Sound (fun pattern => (crates.regexNew pattern).toOption) regexCacheCapacity s) :
    Transparent crates s where
  returned pattern result hmem := h.calls _ hmem
  bounded := h.size_le
  returns i call hcall := by
    cases call with
    | returned pattern result => exact .inl ⟨pattern, result, rfl⟩
    | begun pattern => exact .inr (Memo.exists_step hcall (Nat.succ_pos _))
    | missed pattern => exact .inr (Memo.exists_step hcall (Nat.succ_pos _))
    | computed pattern result => exact .inr (Memo.exists_step hcall (Nat.succ_pos _))

/-- The cache cannot be told from compiling every time, however the calls interleave: every call
    returns what compiling its pattern gives, and the cache holds no more than its capacity. -/
theorem cache_transparent (crates : Crates) {history : List (RegexCache × Move)}
    {s : RegexCache} (hrun : Machine.Trace (step crates) Memo.start history s) :
    (∀ e ∈ history, Transparent crates e.1) ∧ Transparent crates s := by
  obtain ⟨hearlier, hlast⟩ := Memo.sound_of_trace hrun
  exact ⟨fun e he => transparent_of_sound (hearlier e he), transparent_of_sound hlast⟩

/-- Two threads miss the same pattern and both insert it; a third finds it. -/
def contended : List Move :=
  [.call "a", .call "a", .lookup 0 true, .lookup 1 true, .compute 0, .compute 1, .insert 1 true,
    .call "a", .lookup 2 true, .insert 0 true]

theorem cache_transparent_contended :
    ∃ history s, Machine.Trace (step .plain) Memo.start history s ∧
      history.map Prod.snd = contended.reverse ∧ Transparent .plain s := by
  have hruns : (Machine.follow (step .plain) contended Memo.start).isSome = true := by
    decide +kernel
  obtain ⟨s, hfollow⟩ := Option.isSome_iff_exists.mp hruns
  obtain ⟨history, hrun, hmoves⟩ := Machine.trace_of_follow hfollow
  exact ⟨history, s, hrun, hmoves, (cache_transparent .plain hrun).2⟩

end FlagForge.RegexCache
