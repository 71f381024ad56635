/-
Module: FlagForge.Sdk.Batches
Layer: Sdk
Purpose: The batches that a flush posts, as JSON bodies, and the limits of the ingest endpoint. A batch
  is cut by the number of its events; whether the endpoint takes it also depends on its bytes.
Imports: FlagForge.Sdk.Delivery, FlagForge.Api.Events, FlagForge.Lib.JsonText,
  Mathlib.Algebra.Order.BigOperators.Group.List, Mathlib.Algebra.Order.Group.Nat
Trusted boundary: the text of a float, of which a batch has none
Main exports: batches, body, bodyLimitBytes, Accepted, size_body, batches_accepted_iff
-/
import FlagForge.Sdk.Delivery
import FlagForge.Api.Events
import FlagForge.Lib.JsonText
import Mathlib.Algebra.Order.BigOperators.Group.List
import Mathlib.Algebra.Order.Group.Nat

namespace FlagForge.Sdk

open Storage (Timestamp CounterKind)
open Api (EventDelta)
open Delivery (payload maxEventsPerBatch u32Max)

/-- `#[serde(rename_all = "snake_case")]` -/
def EventKind.asStr : EventKind → String
  | .exposure => "exposure"
  | .conversion => "conversion"

/-- The starts of the chunks: `(0..len).step_by(MAX_EVENTS_PER_BATCH)`. -/
def starts (len : Nat) : List Nat :=
  (List.range ((len + maxEventsPerBatch - 1) / maxEventsPerBatch)).map (· * maxEventsPerBatch)

/-- The batches that a flush of the cells posts, if none of them fails. -/
def batches (cells : List (Cell × Nat)) : List (List (Cell × Nat)) :=
  (starts cells.length).map fun start => payload (cells.drop start)

/-- `EventPayload` -/
def serEvent (e : Cell × Nat) : Json :=
  .object [("experiment_key", .string e.1.experimentKey), ("variant", .string e.1.variant),
    ("kind", .string e.1.kind.asStr), ("count", Json.serU32 (UInt32.ofNat e.2))]

/-- The body of a post. The `json!` macro turns the events into values first. -/
def body (floatText : Float → String) (events : List (Cell × Nat)) : String :=
  Json.text floatText (Json.object [("events", Json.serList serEvent events)]).toValue

/-- `BODY_LIMIT_BYTES` where the environment does not set it. -/
def bodyLimitBytes : Nat := 256 * 1024

/-- An event as the server reads it. -/
def received (e : Cell × Nat) : EventDelta where
  experimentKey := e.1.experimentKey
  variant := e.1.variant
  kind := match e.1.kind with
    | .exposure => .exposure
    | .conversion => .conversion
  count := e.2
  happened := none

/-- The limits of the endpoint. -/
structure Accepted (floatText : Float → String) (now : Timestamp) (events : List (Cell × Nat)) :
    Prop where
  /-- `RequestBodyLimitLayer` -/
  body : (body floatText events).utf8ByteSize ≤ bodyLimitBytes
  /-- The counts are read as `u32`. -/
  counts : ∀ e ∈ events, e.2 ≤ u32Max
  /-- The checks of the handler. -/
  deltas : ∃ deltas, Api.Events.deltas now (events.map received) = .ok deltas

/-! ### The size of a batch -/

/-- The bytes of an event and of the separator behind it: 54 that do not depend on the event. -/
def eventSize (e : Cell × Nat) : Nat :=
  54 + e.1.experimentKey.utf8ByteSize + e.1.variant.utf8ByteSize + e.1.kind.asStr.utf8ByteSize +
    (Nat.toDigits 10 e.2).length

/-- The bytes of a batch. -/
def batchSize (events : List (Cell × Nat)) : Nat :=
  12 + (events.map eventSize).sum

section Size

variable {floatText : Float → String}

theorem plain_of_isValidKey {key : String} (h : Validate.isValidKey key = true) :
    Json.Plain key := by
  intro c hc
  simp only [Validate.isValidKey, Bool.and_eq_true, List.all_eq_true, Bool.or_eq_true,
    beq_iff_eq] at h
  rcases h.2 c hc with ((hc | rfl) | rfl) | rfl
  · exact Json.escape_of_isAlphanum hc
  · decide
  · decide
  · decide

theorem plain_asStr (kind : EventKind) : Json.Plain kind.asStr := by
  have hletters : kind.asStr.toList.all Char.isAlphanum = true := by
    cases kind with
    | exposure => rfl
    | conversion => rfl
  exact fun c hc => Json.escape_of_isAlphanum (List.all_eq_true.mp hletters c hc)

/-- The bytes of an event whose keys are valid, and one for a separator. -/
theorem size_event {e : Cell × Nat} (hkey : Validate.isValidKey e.1.experimentKey = true)
    (hvariant : Validate.isValidKey e.1.variant = true) (hcount : e.2 ≤ u32Max) :
    (Json.text floatText (serEvent e).toValue).utf8ByteSize + 1 = eventSize e := by
  have hread : (UInt32.ofNat e.2).toUInt64.toNat = e.2 := by
    rw [UInt32.toNat_toUInt64, UInt32.toNat_ofNat', Nat.mod_eq_of_lt]
    exact Nat.lt_succ_of_le hcount
  rw [serEvent, Json.size_text_toValue (by simp) (by simp) (by simp [Json.toValue, Json.serU32])]
  simp only [List.map_cons, List.map_nil, List.sum_cons, List.sum_nil, Json.fieldSize, Json.text,
    Json.serU32, Json.numberText, Json.size_quoted (plain_of_isValidKey hkey),
    Json.size_quoted (plain_of_isValidKey hvariant), Json.size_quoted (plain_asStr _),
    Json.size_repr, hread, eventSize, show (Json.quoted "experiment_key").utf8ByteSize = 16 by decide,
    show (Json.quoted "variant").utf8ByteSize = 9 by decide,
    show (Json.quoted "kind").utf8ByteSize = 6 by decide,
    show (Json.quoted "count").utf8ByteSize = 7 by decide]
  omega

/-- The bytes of a batch whose keys are valid. -/
theorem size_body {events : List (Cell × Nat)} (hne : events ≠ [])
    (hkeys : ∀ e ∈ events, Validate.isValidKey e.1.experimentKey = true ∧
      Validate.isValidKey e.1.variant = true) (hcounts : ∀ e ∈ events, e.2 ≤ u32Max) :
    (body floatText events).utf8ByteSize = batchSize events := by
  have hevents : (events.map serEvent).map Json.toValue ≠ [] := by simpa using hne
  have hsizes : ((events.map serEvent).map Json.toValue).map
      (fun item => (Json.text floatText item).utf8ByteSize + 1) = events.map eventSize := by
    rw [List.map_map, List.map_map]
    apply List.map_congr_left
    intro e he
    exact size_event (hkeys e he).1 (hkeys e he).2 (hcounts e he)
  rw [body, Json.toValue_object_singleton, Json.serList, Json.toValue, Json.toValues_eq,
    Json.size_text_object (by simp), batchSize]
  simp only [List.map_cons, List.map_nil, List.sum_cons, List.sum_nil, Json.fieldSize]
  rw [Json.size_text_array hevents, hsizes]
  simp only [show (Json.quoted "events").utf8ByteSize = 8 by decide]
  omega

end Size

/-! ### What the endpoint accepts -/

section Accept

variable {floatText : Float → String} {now : Timestamp} {cells events : List (Cell × Nat)}

theorem mem_starts {len start : Nat} (h : start ∈ starts len) : start < len := by
  simp only [starts, maxEventsPerBatch, List.mem_map, List.mem_range] at h
  obtain ⟨k, hk, rfl⟩ := h
  omega

/-- What is in a batch: some of the cells, with counts that are cut to what an event can carry. -/
theorem mem_batch (h : events ∈ batches cells) : events ≠ [] ∧
    events.length ≤ maxEventsPerBatch ∧
      ∀ e ∈ events, e.2 ≤ u32Max ∧ ∃ e' ∈ cells, e.1 = e'.1 ∧ e.2 ≤ e'.2 := by
  simp only [batches, List.mem_map] at h
  obtain ⟨start, hstart, rfl⟩ := h
  have hlt := mem_starts hstart
  refine ⟨?_, ?_, ?_⟩
  · intro hnil
    have hlength := congrArg List.length hnil
    simp only [payload, List.length_map, List.length_take, List.length_drop, List.length_nil,
      maxEventsPerBatch] at hlength
    omega
  · simp only [payload, List.length_map, List.length_take]
    omega
  · intro e he
    obtain ⟨e', he', rfl⟩ := List.mem_map.mp he
    exact ⟨Nat.min_le_right _ _, e', List.mem_of_mem_drop (List.mem_of_mem_take he'), rfl,
      Nat.min_le_left _ _⟩

theorem variantFits_of_isValidKey {variant : String} (h : Validate.isValidKey variant = true) :
    Api.Events.variantFits variant = true := by
  simp only [Validate.isValidKey, Bool.and_eq_true, Bool.not_eq_true'] at h
  have hsize : variant.utf8ByteSize ≤ 128 := of_decide_eq_true h.1.2
  have hne : variant.utf8ByteSize ≠ 0 := by
    intro hzero
    rw [String.utf8ByteSize_eq_zero_iff.mp hzero] at h
    exact absurd h.1.1 (by decide)
  simp only [Api.Events.variantFits, Bool.and_eq_true, decide_eq_true_eq]
  exact ⟨Nat.pos_of_ne_zero hne, hsize⟩

/-- Of the limits of the endpoint, a batch keeps all but that on its bytes. -/
theorem accepted_iff (hkeys : ∀ e ∈ cells, Validate.isValidKey e.1.experimentKey = true ∧
      Validate.isValidKey e.1.variant = true) (h : events ∈ batches cells) :
    Accepted floatText now events ↔ batchSize events ≤ bodyLimitBytes := by
  obtain ⟨hne, hlength, hmem⟩ := mem_batch h
  have hvalid : ∀ e ∈ events, Validate.isValidKey e.1.experimentKey = true ∧
      Validate.isValidKey e.1.variant = true := by
    intro e he
    obtain ⟨_, e', he', hsame, _⟩ := hmem e he
    rw [hsame]
    exact hkeys e' he'
  have hcounts : ∀ e ∈ events, e.2 ≤ u32Max := fun e he => (hmem e he).1
  have hsize := @size_body floatText events hne hvalid hcounts
  constructor
  · intro haccepted
    rw [← hsize]
    exact haccepted.body
  · intro hbytes
    constructor
    case body =>
      rw [hsize]
      exact hbytes
    case counts => exact hcounts
    case deltas =>
      refine ⟨_, Api.Events.deltas_eq_ok_iff.mpr ⟨?_, ?_, rfl⟩⟩
      · rw [List.length_map]
        exact hlength
      · intro event hevent
        obtain ⟨e, he, rfl⟩ := List.mem_map.mp hevent
        exact variantFits_of_isValidKey (hvalid e he).2

/-- Whatever a recorder with valid keys holds, and in whichever order the map gives it up, every batch
    of a flush is accepted exactly if no batch has too many bytes: the number of cells, the keys and
    the counts of a batch are always within what the endpoint checks. -/
theorem batches_accepted_iff {s : Recorder} (hcells : cells.Perm s.drain.1.1)
    (hkeys : ∀ e ∈ s.counts.entries, Validate.isValidKey e.1.experimentKey = true ∧
      Validate.isValidKey e.1.variant = true) :
    (∀ events ∈ batches cells, Accepted floatText now events) ↔
      ∀ events ∈ batches cells, batchSize events ≤ bodyLimitBytes := by
  have hvalid : ∀ e ∈ cells, Validate.isValidKey e.1.experimentKey = true ∧
      Validate.isValidKey e.1.variant = true := fun e he => hkeys e (hcells.mem_iff.mp he)
  constructor
  · exact fun h events hevents => (accepted_iff hvalid hevents).mp (h events hevents)
  · exact fun h events hevents => (accepted_iff hvalid hevents).mpr (h events hevents)

end Accept

/-! ### A full batch of long keys -/

namespace Long

/-- 125 letters and three digits. -/
def name (i : Nat) : String :=
  String.ofList (List.replicate 125 'x' ++
    [Nat.digitChar (i / 100), Nat.digitChar (i / 10 % 10), Nat.digitChar (i % 10)])

def entry (i : Nat) : Cell × Nat :=
  (⟨name i, name i, .conversion⟩, 1)

theorem name_injective {i j : Nat} (hi : i < 1000) (hj : j < 1000) (h : name i = name j) :
    i = j := by
  have hdigit : ∀ {a b : Nat}, a < 10 → b < 10 → Nat.digitChar a = Nat.digitChar b → a = b := by
    intro a b ha hb heq
    have hnat := congrArg Char.toNat heq
    rw [Nat.toNat_digitChar_of_lt_ten ha, Nat.toNat_digitChar_of_lt_ten hb] at hnat
    omega
  have hlists := List.append_cancel_left (String.ofList_injective h)
  simp only [List.cons.injEq, and_true] at hlists
  have hhundreds := hdigit (by omega) (by omega) hlists.1
  have htens := hdigit (by omega) (by omega) hlists.2.1
  have hones := hdigit (by omega) (by omega) hlists.2.2
  omega

theorem isAlphanum_name {i : Nat} (hi : i < 1000) : ∀ c ∈ (name i).toList, c.isAlphanum = true := by
  intro c hc
  have hdigit : ∀ {n : Nat}, n < 10 → (Nat.digitChar n).isAlphanum = true := by
    intro n hn
    rw [Char.isAlphanum, Nat.isDigit_digitChar, decide_eq_true hn, Bool.or_true]
  rw [name, String.toList_ofList, List.mem_append, List.mem_replicate] at hc
  simp only [List.mem_cons, List.not_mem_nil, or_false] at hc
  rcases hc with ⟨_, rfl⟩ | rfl | rfl | rfl
  · decide
  · exact hdigit (by omega)
  · exact hdigit (by omega)
  · exact hdigit (by omega)

theorem size_name {i : Nat} (hi : i < 1000) : (name i).utf8ByteSize = 128 := by
  rw [name, Json.size_ofList]
  · simp
  · intro c hc
    apply Json.utf8Size_of_isAlphanum
    apply isAlphanum_name hi
    rw [name, String.toList_ofList]
    exact hc

theorem isValidKey_name {i : Nat} (hi : i < 1000) : Validate.isValidKey (name i) = true := by
  simp only [Validate.isValidKey, Bool.and_eq_true, List.all_eq_true, Bool.or_eq_true]
  refine ⟨⟨?_, ?_⟩, ?_⟩
  · simp [name]
  · rw [size_name hi]
    rfl
  · exact fun c hc => .inl (.inl (.inl (isAlphanum_name hi c hc)))

/-- A thousand conversions of as many experiments. -/
def recorder : Recorder where
  counts := {
    entries := (List.range 1000).map entry
    distinct := by
      rw [List.map_map]
      apply List.Nodup.map_on _ List.nodup_range
      intro i hi j hj h
      exact name_injective (List.mem_range.mp hi) (List.mem_range.mp hj) (congrArg Cell.variant h) }
  dropped := 0

theorem mem_entries {e : Cell × Nat} : e ∈ recorder.counts.entries ↔ ∃ i < 1000, entry i = e := by
  simp only [recorder, List.mem_map, List.mem_range]

theorem isValidKey_entries : ∀ e ∈ recorder.counts.entries,
    Validate.isValidKey e.1.experimentKey = true ∧ Validate.isValidKey e.1.variant = true := by
  intro e he
  obtain ⟨i, hi, rfl⟩ := mem_entries.mp he
  have hvalid := isValidKey_name hi
  exact ⟨hvalid, hvalid⟩

theorem length_entries : recorder.counts.entries.length = 1000 := by
  rw [recorder, List.length_map, List.length_range]

/-- One batch, of all of them. -/
theorem batches_entries : batches recorder.counts.entries = [recorder.counts.entries] := by
  have hlength : recorder.counts.entries.length = 1000 := length_entries
  have hpayload : payload recorder.counts.entries = recorder.counts.entries := by
    rw [payload, maxEventsPerBatch, List.take_of_length_le (Nat.le_of_eq hlength)]
    conv_rhs => rw [← List.map_id recorder.counts.entries]
    apply List.map_congr_left
    intro e he
    obtain ⟨i, _, rfl⟩ := mem_entries.mp he
    rfl
  have hstarts : starts recorder.counts.entries.length = [0] := by
    rw [hlength]
    rfl
  rw [batches, hstarts, List.map_singleton, List.drop_zero, hpayload]

theorem batchSize_entries : batchSize recorder.counts.entries = 321012 := by
  have hsizes : recorder.counts.entries.map eventSize = List.replicate 1000 321 := by
    simp only [recorder, List.map_map]
    rw [List.eq_replicate_iff]
    refine ⟨by simp, ?_⟩
    intro n hn
    obtain ⟨i, hi, rfl⟩ := List.mem_map.mp hn
    have hname := size_name (List.mem_range.mp hi)
    simp only [Function.comp_apply, eventSize, entry, hname, EventKind.asStr,
      show ("conversion" : String).utf8ByteSize = 10 by decide,
      show (Nat.toDigits 10 1).length = 1 by decide]
  rw [batchSize, hsizes, List.sum_replicate]
  rfl

end Long

/-- The endpoint refuses the batch, though its keys are valid. -/
theorem long_refused : ∃ s : Recorder,
    (∀ e ∈ s.counts.entries, Validate.isValidKey e.1.experimentKey = true ∧
      Validate.isValidKey e.1.variant = true) ∧ s.counts.size ≤ maxCells ∧
    ∃ events ∈ batches s.drain.1.1, ∀ floatText now, ¬Accepted floatText now events := by
  have hmem : Long.recorder.counts.entries ∈ batches Long.recorder.counts.entries := by
    rw [Long.batches_entries]
    exact List.mem_singleton_self _
  refine ⟨Long.recorder, Long.isValidKey_entries, ?_, Long.recorder.counts.entries, ?_, ?_⟩
  · rw [Counters.CountMap.size, Long.length_entries]
    decide
  · simpa only [Recorder.drain] using hmem
  · intro floatText now haccepted
    rw [accepted_iff Long.isValidKey_entries hmem, Long.batchSize_entries] at haccepted
    exact absurd haccepted (by decide)

/-! ### Two full batches of shorter variants -/

namespace Shorter

def entry (i : Nat) : Cell × Nat :=
  (⟨Long.name (i / 2), "on", if i % 2 = 0 then .exposure else .conversion⟩, 1)

/-- An exposure and a conversion of each of a thousand experiments. -/
def recorder : Recorder where
  counts := {
    entries := (List.range 2000).map entry
    distinct := by
      rw [List.map_map]
      apply List.Nodup.map_on _ List.nodup_range
      intro i hi j hj h
      rw [List.mem_range] at hi hj
      have hname := Long.name_injective (by omega) (by omega) (congrArg Cell.experimentKey h)
      have hkind : i % 2 = j % 2 := by
        have hkinds := congrArg Cell.kind h
        simp only [Function.comp_apply, entry] at hkinds
        split at hkinds <;> split at hkinds <;> first | omega | cases hkinds
      omega }
  dropped := 0

theorem mem_entries {e : Cell × Nat} (h : e ∈ recorder.counts.entries) : ∃ i < 1000,
    e.1.experimentKey = Long.name i ∧ e.1.variant = "on" ∧ e.2 = 1 := by
  simp only [recorder, List.mem_map, List.mem_range] at h
  obtain ⟨i, hi, rfl⟩ := h
  exact ⟨i / 2, by omega, rfl, rfl, rfl⟩

theorem isValidKey_entries : ∀ e ∈ recorder.counts.entries,
    Validate.isValidKey e.1.experimentKey = true ∧ Validate.isValidKey e.1.variant = true := by
  intro e he
  obtain ⟨i, hi, hkey, hvariant, _⟩ := mem_entries he
  rw [hkey, hvariant]
  exact ⟨Long.isValidKey_name hi, by decide⟩

theorem length_batches : (batches recorder.counts.entries).length = 2 := by
  rw [batches, List.length_map, recorder, List.length_map, List.length_range]
  rfl

/-- A thousand events of at most 195 bytes. -/
theorem batchSize_le {events : List (Cell × Nat)} (h : events ∈ batches recorder.counts.entries) :
    batchSize events ≤ bodyLimitBytes := by
  obtain ⟨_, hlength, hmem⟩ := mem_batch h
  have hsize : ∀ n ∈ events.map eventSize, n ≤ 195 := by
    intro n hn
    obtain ⟨e, he, rfl⟩ := List.mem_map.mp hn
    obtain ⟨_, e', he', hsame, hcount⟩ := hmem e he
    obtain ⟨i, hi, hkey, hvariant, hone⟩ := mem_entries he'
    have hkind : e'.1.kind.asStr.utf8ByteSize ≤ 10 := by
      cases e'.1.kind <;> decide
    have hdigits : (Nat.toDigits 10 e.2).length = 1 := by
      have hle : e.2 ≤ 1 := hone ▸ hcount
      rcases Nat.le_one_iff_eq_zero_or_eq_one.mp hle with hzero | hone
      · rw [hzero]
        rfl
      · rw [hone]
        rfl
    rw [eventSize, hsame, hkey, hvariant, Long.size_name hi, hdigits,
      show ("on" : String).utf8ByteSize = 2 by decide]
    omega
  have hsum := List.sum_le_card_nsmul _ _ hsize
  rw [List.length_map, Nat.nsmul_eq_mul] at hsum
  rw [batchSize, bodyLimitBytes]
  rw [maxEventsPerBatch] at hlength
  omega

end Shorter

/-- Two thousand cells are two batches, and both are accepted. -/
theorem batches_accepted_iff_shorter : (batches Shorter.recorder.counts.entries).length = 2 ∧
    ∀ events ∈ batches Shorter.recorder.counts.entries, ∀ floatText now,
      Accepted floatText now events := by
  refine ⟨Shorter.length_batches, fun events hevents floatText now => ?_⟩
  have hdrained : Shorter.recorder.counts.entries.Perm Shorter.recorder.drain.1.1 := by
    rw [Recorder.drain]
  exact (batches_accepted_iff hdrained Shorter.isValidKey_entries).mpr
    (fun _ => Shorter.batchSize_le) events hevents

end FlagForge.Sdk
