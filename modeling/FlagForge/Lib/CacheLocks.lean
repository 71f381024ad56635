/-
Module: FlagForge.Lib.CacheLocks
Layer: Lib
Purpose: What the threads of a cache may rely on while others take steps, and from it that loads are
  stored in a slot in the order in which they began, and that no get goes behind a refresh that has
  completed.
Imports: FlagForge.Lib.NotifiedCache
Trusted boundary: none
Main exports: Rely, Sound, Pc.Knows, Ordered, moved, ordered, never_behind
-/
import FlagForge.Lib.NotifiedCache

namespace FlagForge.NotifiedCache

open Machine (Trace)

variable {Key Part Db Write : Type}

variable (S : NotifyingStore Key Part Db Write)

/-! ### What the threads rely on -/

/-- What every step does to memory. -/
structure Grows (m m' : Memory Key Part Db) : Prop where
  commits : m.commits ≤ m'.commits
  begun : m.begun ≤ m'.begun
  born : ∀ key ∈ m.born, key ∈ m'.born
  refreshed : ∀ key, m.refreshed key ≤ m'.refreshed key
  slot : ∀ i key, (m.slots i).key = some key →
    (m'.slots i).key = some key ∧ (m.slots i).floor ≤ (m'.slots i).floor
  map : ∀ key i, m'.map key = some i → m.map key = some i ∨
    (m.slots i).key = none ∧ m.commits ≤ (m'.slots i).floor

/-- What others do, as a thread sees it: they leave the slots alone that it has locked. -/
structure Rely (u : Nat) (m m' : Memory Key Part Db) : Prop extends Grows m m' where
  held : ∀ i, (m.slots i).holder = some u → m'.slots i = m.slots i

/-- What always holds of memory. -/
structure Sound (m : Memory Key Part Db) : Prop where
  unmade : ∀ i, m.count ≤ i → m.slots i = .unmade
  mapped : ∀ key i, m.map key = some i → (m.slots i).key = some key
  valued : ∀ i load, (m.slots i).value = some load →
    load.number < m.begun ∧ ∃ key ∈ m.born, (m.slots i).key = some key
  floor : ∀ i, (m.slots i).floor ≤ m.commits
  refreshed : ∀ key, m.refreshed key ≤ m.commits
  refreshedFloor : ∀ key i, m.map key = some i → m.refreshed key ≤ (m.slots i).floor
  keysBorn : ∀ key ∈ S.keys m.db, key ∈ m.born

/-- What a call knows of its slot. A refresh has found it in the map, and one that has replaced it
    there was made later. -/
def Call.Suits (m : Memory Key Part Db) (key : Key) (i : Nat) : Call Key → Prop
  | .get floor => floor ≤ (m.slots i).floor
  | .refresh since _ => since ≤ m.commits ∧
      ∀ j, m.map key = some j → j = i ∨ since ≤ (m.slots j).floor

/-- A load that is later than what the slot holds. -/
structure Load.Suits (m : Memory Key Part Db) (call : Call Key) (key : Key) (i : Nat)
    (load : Load Part) : Prop where
  begun : load.number < m.begun
  later : ∀ stored, (m.slots i).value = some stored → stored.number < load.number
  floor : (m.slots i).floor ≤ load.commits
  commits : load.commits ≤ m.commits
  since : ∀ since rest, call = .refresh since rest → since ≤ load.commits
  born : load.parts ≠ [] → key ∈ m.born

/-- What a call has come to before it gives the lock back. -/
def Call.Left (m : Memory Key Part Db) (key : Key) (i : Nat) :
    Call Key → Option (Load Part) → Prop
  | .get floor, result => ∀ load, result = some load → floor ≤ load.commits
  | .refresh since _, some _ => since ≤ (m.slots i).floor
  | .refresh _ _, none => m.map key ≠ some i

/-- What a thread knows where it is. -/
def Pc.Knows (m : Memory Key Part Db) (t : Nat) : Pc Key Part → Prop
  | .idle => True
  | .called (.get floor) key => floor ≤ m.refreshed key
  | .called (.refresh since _) _ => since ≤ m.commits
  | .looking floor key i => (m.slots i).key = some key ∧ floor ≤ (m.slots i).floor
  | .waiting call key i => (m.slots i).key = some key ∧ call.Suits m key i
  | .holding call key i => (m.slots i).key = some key ∧ (m.slots i).holder = some t ∧
      call.Suits m key i
  | .loading call key i load => (m.slots i).key = some key ∧ (m.slots i).holder = some t ∧
      call.Suits m key i ∧ load.Suits m call key i
  | .dropping since rest key i => (m.slots i).key = some key ∧ (m.slots i).holder = some t ∧
      (Call.refresh since rest).Suits m key i
  | .leaving call key i result => (m.slots i).key = some key ∧ (m.slots i).holder = some t ∧
      call.Suits m key i ∧ call.Left m key i result
  | .returned floor _ result => ∀ load, result = some load → floor ≤ load.commits

section Rely

variable {u i : Nat} {key : Key} {m m' : Memory Key Part Db} {slot : Slot Key Part}

theorem Grows.refl : Grows m m :=
  ⟨Nat.le_refl _, Nat.le_refl _, fun _ h => h, fun _ => Nat.le_refl _,
    fun _ _ h => ⟨h, Nat.le_refl _⟩, fun _ _ h => .inl h⟩

theorem Rely.refl : Rely u m m :=
  ⟨.refl, fun _ _ => rfl⟩

theorem Grows.set (hkey : slot.key = (m.slots i).key)
    (hfloor : (m.slots i).floor ≤ slot.floor) : Grows m (m.set i slot) where
  commits := Nat.le_refl _
  begun := Nat.le_refl _
  born _ h := h
  refreshed _ := Nat.le_refl _
  slot j key hj := by
    by_cases hij : j = i
    · subst hij
      rw [Memory.slots_set_self]
      exact ⟨hkey.trans hj, hfloor⟩
    · rw [Memory.slots_set_of_ne hij]
      exact ⟨hj, Nat.le_refl _⟩
  map _ _ h := .inl h

/-- A slot that another thread changes is not locked by this one. -/
theorem Rely.set (hkey : slot.key = (m.slots i).key) (hfloor : (m.slots i).floor ≤ slot.floor)
    (hholder : (m.slots i).holder ≠ some u) : Rely u m (m.set i slot) where
  toGrows := .set hkey hfloor
  held j hj := by
    have hij : j ≠ i := fun heq => hholder (heq ▸ hj)
    exact Memory.slots_set_of_ne hij

theorem Rely.beginLoad : Rely u m m.beginLoad where
  commits := Nat.le_refl _
  begun := Nat.le_succ _
  born _ h := h
  refreshed _ := Nat.le_refl _
  slot _ _ h := ⟨h, Nat.le_refl _⟩
  map _ _ h := .inl h
  held _ _ := rfl

theorem Rely.commit {S : NotifyingStore Key Part Db Write} {db : Db} :
    Rely u m (m.commit S db) where
  commits := Nat.le_succ _
  begun := Nat.le_refl _
  born _ hkey := List.mem_append_left _ hkey
  refreshed _ := Nat.le_refl _
  slot _ _ hkey := ⟨hkey, Nat.le_refl _⟩
  map _ _ hi := .inl hi
  held _ _ := rfl

variable [DecidableEq Key]

theorem Rely.make (hunmade : m.slots m.count = .unmade) : Rely u m (m.make key) where
  commits := Nat.le_refl _
  begun := Nat.le_refl _
  born _ h := h
  refreshed _ := Nat.le_refl _
  slot j other hj := by
    have hne : j ≠ m.count := by
      intro heq
      rw [heq, hunmade] at hj
      cases hj
    rw [Memory.slots_make_of_ne hne]
    exact ⟨hj, Nat.le_refl _⟩
  map other j hj := by
    by_cases hother : other = key
    · rw [hother, Memory.map_make_self] at hj
      cases hj
      rw [hunmade, Memory.slots_make_self]
      exact .inr ⟨rfl, Nat.le_refl _⟩
    · rw [Memory.map_make_of_ne hother] at hj
      exact .inl hj
  held j hj := by
    have hne : j ≠ m.count := by
      intro heq
      rw [heq, hunmade] at hj
      cases hj
    exact Memory.slots_make_of_ne hne

theorem Rely.drop : Rely u m (m.drop key) where
  commits := Nat.le_refl _
  begun := Nat.le_refl _
  born _ h := h
  refreshed _ := Nat.le_refl _
  slot _ _ h := ⟨h, Nat.le_refl _⟩
  map _ _ h := .inl (Memory.map_of_drop h)
  held _ _ := rfl

theorem Rely.finish {since : Nat} (h : Rely u m m') : Rely u m (m'.finish key since) where
  commits := h.commits
  begun := h.begun
  born := h.born
  refreshed other := by
    apply Nat.le_trans (h.refreshed other)
    by_cases hother : other = key
    · rw [hother, Memory.refreshed_finish_self]
      exact Nat.le_max_left _ _
    · exact Nat.le_of_eq (Memory.refreshed_finish_of_ne hother).symm
  slot := h.slot
  map := h.map
  held := h.held

end Rely

section Sound

variable {S} {i : Nat} {key : Key} {m : Memory Key Part Db} {slot : Slot Key Part}

/-- The cold cache is sound. -/
theorem sound_start (db : Db) : Sound S (.start S db) where
  unmade _ _ := rfl
  mapped _ _ h := nomatch h
  valued _ _ h := nomatch h
  floor _ := Nat.le_refl _
  refreshed _ := Nat.le_refl _
  refreshedFloor _ _ h := nomatch h
  keysBorn _ h := h

namespace Sound

/-- The thread that has the lock changes the slot. -/
theorem set (h : Sound S m) (hi : (m.slots i).key = some key) (hkey : slot.key = some key)
    (hfloor : (m.slots i).floor ≤ slot.floor) (hle : slot.floor ≤ m.commits)
    (hvalue : ∀ load, slot.value = some load → load.number < m.begun ∧ key ∈ m.born) :
    Sound S (m.set i slot) where
  unmade j hj := by
    have hold := h.unmade j hj
    have hne : j ≠ i := by
      intro heq
      rw [← heq, hold] at hi
      cases hi
    exact (Memory.slots_set_of_ne hne).trans hold
  mapped other j hj := by
    have hold := h.mapped other j hj
    by_cases hij : j = i
    · subst hij
      rw [Memory.slots_set_self, hkey, ← hi, hold]
    · rw [Memory.slots_set_of_ne hij]
      exact hold
  valued j load hload := by
    by_cases hij : j = i
    · subst hij
      rw [Memory.slots_set_self] at hload ⊢
      exact ⟨(hvalue load hload).1, key, (hvalue load hload).2, hkey⟩
    · rw [Memory.slots_set_of_ne hij] at hload ⊢
      exact h.valued j load hload
  floor j := by
    by_cases hij : j = i
    · subst hij
      rw [Memory.slots_set_self]
      exact hle
    · rw [Memory.slots_set_of_ne hij]
      exact h.floor j
  refreshed := h.refreshed
  refreshedFloor other j hj := by
    have hold := h.refreshedFloor other j hj
    by_cases hij : j = i
    · subst hij
      rw [Memory.slots_set_self]
      exact Nat.le_trans hold hfloor
    · rw [Memory.slots_set_of_ne hij]
      exact hold
  keysBorn := h.keysBorn

theorem beginLoad (h : Sound S m) : Sound S m.beginLoad where
  unmade := h.unmade
  mapped := h.mapped
  valued i load hload :=
    ⟨Nat.lt_succ_of_lt (h.valued i load hload).1, (h.valued i load hload).2⟩
  floor := h.floor
  refreshed := h.refreshed
  refreshedFloor := h.refreshedFloor
  keysBorn := h.keysBorn

theorem commit (h : Sound S m) {db : Db} : Sound S (m.commit S db) where
  unmade := h.unmade
  mapped := h.mapped
  valued i load hload := by
    obtain ⟨hnumber, key, hborn, hkey⟩ := h.valued i load hload
    exact ⟨hnumber, key, List.mem_append_left _ hborn, hkey⟩
  floor i := Nat.le_succ_of_le (h.floor i)
  refreshed key := Nat.le_succ_of_le (h.refreshed key)
  refreshedFloor := h.refreshedFloor
  keysBorn _ hkey := List.mem_append_right _ hkey

/-- A key whose slot holds a load was there when it was loaded. -/
theorem born_of_value (h : Sound S m) {load : Load Part} (hkey : (m.slots i).key = some key)
    (hload : (m.slots i).value = some load) : key ∈ m.born := by
  obtain ⟨_, other, hborn, hother⟩ := h.valued i load hload
  rw [hkey] at hother
  cases hother
  exact hborn

/-- A slot that is mapped was made. -/
theorem ne_count (h : Sound S m) (hi : m.map key = some i) : i ≠ m.count := by
  intro heq
  have hkey := h.mapped key i hi
  rw [heq, h.unmade m.count (Nat.le_refl _)] at hkey
  cases hkey

variable [DecidableEq Key]

/-- Making a slot keeps the memory sound. -/
theorem make (h : Sound S m) : Sound S (m.make key) where
  unmade j hj :=
    (Memory.slots_make_of_ne (Nat.ne_of_gt hj)).trans (h.unmade j (Nat.le_of_succ_le hj))
  mapped other j hj := by
    by_cases hother : other = key
    · rw [hother, Memory.map_make_self] at hj
      cases hj
      rw [Memory.slots_make_self, hother]
    · rw [Memory.map_make_of_ne hother] at hj
      rw [Memory.slots_make_of_ne (h.ne_count hj)]
      exact h.mapped other j hj
  valued j load hload := by
    by_cases hj : j = m.count
    · rw [hj, Memory.slots_make_self] at hload
      cases hload
    · rw [Memory.slots_make_of_ne hj] at hload ⊢
      exact h.valued j load hload
  floor j := by
    by_cases hj : j = m.count
    · rw [hj, Memory.slots_make_self]
      exact Nat.le_refl _
    · rw [Memory.slots_make_of_ne hj]
      exact h.floor j
  refreshed := h.refreshed
  refreshedFloor other j hj := by
    by_cases hother : other = key
    · rw [hother, Memory.map_make_self] at hj
      cases hj
      rw [Memory.slots_make_self, hother]
      exact h.refreshed key
    · rw [Memory.map_make_of_ne hother] at hj
      rw [Memory.slots_make_of_ne (h.ne_count hj)]
      exact h.refreshedFloor other j hj
  keysBorn := h.keysBorn

/-- So does dropping one. -/
theorem drop (h : Sound S m) : Sound S (m.drop key) where
  unmade := h.unmade
  mapped other j hj := h.mapped other j (Memory.map_of_drop hj)
  valued := h.valued
  floor := h.floor
  refreshed := h.refreshed
  refreshedFloor other j hj := h.refreshedFloor other j (Memory.map_of_drop hj)
  keysBorn := h.keysBorn

/-- A refresh completes: what the map has for its key is no older than the refresh. -/
theorem finish (h : Sound S m) {since : Nat} (hsince : since ≤ m.commits)
    (hfloor : ∀ i, m.map key = some i → since ≤ (m.slots i).floor) :
    Sound S (m.finish key since) where
  unmade := h.unmade
  mapped := h.mapped
  valued := h.valued
  floor := h.floor
  refreshed other := by
    by_cases hother : other = key
    · rw [hother, Memory.refreshed_finish_self]
      exact Nat.max_le.mpr ⟨h.refreshed key, hsince⟩
    · rw [Memory.refreshed_finish_of_ne hother]
      exact h.refreshed other
  refreshedFloor other i hi := by
    have hold := h.refreshedFloor other i hi
    by_cases hother : other = key
    · rw [hother] at hi hold ⊢
      rw [Memory.refreshed_finish_self]
      exact Nat.max_le.mpr ⟨hold, hfloor i hi⟩
    · rw [Memory.refreshed_finish_of_ne hother]
      exact hold
  keysBorn := h.keysBorn

end Sound

end Sound

section Threads

variable {S} {t u i : Nat} {key : Key} {m m' : Memory Key Part Db}

/-- What a call knows of its slot others do not change. -/
theorem Call.Suits.stable {call : Call Key} (hm : Sound S m) (h : Grows m m')
    (hkey : (m.slots i).key = some key) (hcall : call.Suits m key i) : call.Suits m' key i := by
  cases call with
  | get floor => exact Nat.le_trans hcall (h.slot i key hkey).2
  | refresh since rest =>
      refine ⟨Nat.le_trans hcall.1 h.commits, ?_⟩
      intro j hj
      rcases h.map key j hj with hold | hnew
      · apply Or.imp_right _ (hcall.2 j hold)
        intro hfloor
        exact Nat.le_trans hfloor (h.slot j key (hm.mapped key j hold)).2
      · exact .inr (Nat.le_trans hcall.1 hnew.2)

/-- What is known of a load others do not change while the slot is locked. -/
theorem Load.Suits.stable {call : Call Key} {load : Load Part} (h : Rely u m m')
    (hholder : (m.slots i).holder = some u) (hload : load.Suits m call key i) :
    load.Suits m' call key i where
  begun := Nat.lt_of_lt_of_le hload.begun h.begun
  later := by
    rw [h.held i hholder]
    exact hload.later
  floor := by
    rw [h.held i hholder]
    exact hload.floor
  commits := Nat.le_trans hload.commits h.commits
  since := hload.since
  born hparts := h.born key (hload.born hparts)

/-- Nor what it leaves with. -/
theorem Call.Left.stable {call : Call Key} {result : Option (Load Part)} (h : Rely u m m')
    (hkey : (m.slots i).key = some key) (hholder : (m.slots i).holder = some u)
    (hleft : call.Left m key i result) : call.Left m' key i result := by
  match call, result with
  | .get _, _ => exact hleft
  | .refresh since _, some _ =>
      have hfloor : since ≤ (m'.slots i).floor := by
        rw [h.held i hholder]
        exact hleft
      exact hfloor
  | .refresh _ _, none =>
      intro hmap
      rcases h.map key i hmap with hold | hnew
      · exact hleft hold
      · rw [hkey] at hnew
        cases hnew.1

/-- What a thread knows stays true whatever the others do. -/
theorem Pc.Knows.stable (hm : Sound S m) (h : Rely u m m') :
    ∀ {pc : Pc Key Part}, pc.Knows m u → pc.Knows m' u
  | .idle, _ => trivial
  | .called (.get _) key, hpc => Nat.le_trans hpc (h.refreshed key)
  | .called (.refresh _ _) _, hpc => Nat.le_trans hpc h.commits
  | .looking _ key i, hpc =>
      ⟨(h.slot i key hpc.1).1, Nat.le_trans hpc.2 (h.slot i key hpc.1).2⟩
  | .waiting _ key i, hpc => ⟨(h.slot i key hpc.1).1, hpc.2.stable hm h.toGrows hpc.1⟩
  | .holding _ key i, hpc => ⟨(h.slot i key hpc.1).1, by rw [h.held i hpc.2.1]; exact hpc.2.1,
      hpc.2.2.stable hm h.toGrows hpc.1⟩
  | .loading _ key i _, hpc => ⟨(h.slot i key hpc.1).1, by rw [h.held i hpc.2.1]; exact hpc.2.1,
      hpc.2.2.1.stable hm h.toGrows hpc.1, hpc.2.2.2.stable h hpc.2.1⟩
  | .dropping _ _ key i, hpc => ⟨(h.slot i key hpc.1).1, by rw [h.held i hpc.2.1]; exact hpc.2.1,
      hpc.2.2.stable hm h.toGrows hpc.1⟩
  | .leaving _ key i _, hpc => ⟨(h.slot i key hpc.1).1, by rw [h.held i hpc.2.1]; exact hpc.2.1,
      hpc.2.2.1.stable hm h.toGrows hpc.1, hpc.2.2.2.stable h hpc.1 hpc.2.1⟩
  | .returned _ _ _, hpc => hpc

/-- What a step of a thread leads to. -/
structure Stepped (S : NotifyingStore Key Part Db Write) (t : Nat) (m m' : Memory Key Part Db)
    (pc' : Pc Key Part) : Prop where
  sound : Sound S m'
  knows : pc'.Knows m' t
  rely : ∀ u, u ≠ t → Rely u m m'

/-- A refresh goes on with its next key knowing nothing of its slot. -/
theorem knows_next {commits : Nat} {rest : List Key} (h : commits ≤ m.commits) :
    (Pc.next commits rest : Pc Key Part).Knows m t := by
  cases rest with
  | nil => trivial
  | cons key rest => exact h

/-- A load begins. -/
theorem stepped_beginLoad {call : Call Key} (hm : Sound S m)
    (hpc : (Pc.holding call key i).Knows m t) :
    Stepped S t m m.beginLoad (.loading call key i ⟨[], m.begun, m.commits⟩) := by
  obtain ⟨hkey, hholder, hcall⟩ := hpc
  refine ⟨hm.beginLoad, ⟨hkey, hholder, ?_, ?_⟩, fun _ _ => .beginLoad⟩
  · exact hcall.stable hm (Rely.beginLoad (u := t)).toGrows hkey
  · refine ⟨Nat.lt_succ_self _, ?_, hm.floor i, Nat.le_refl _, ?_, fun h => absurd rfl h⟩
    · exact fun stored hstored => (hm.valued i stored hstored).1
    · intro since rest heq
      subst heq
      exact hcall.1

/-- The lock is given back. -/
theorem sound_unlocked (hm : Sound S m) (hkey : (m.slots i).key = some key) :
    Sound S (m.set i { m.slots i with holder := none }) := by
  refine hm.set hkey hkey (Nat.le_refl _) (hm.floor i) ?_
  intro load hload
  exact ⟨(hm.valued i load hload).1, hm.born_of_value hkey hload⟩

/-- The reads are done, and what they returned is stored. -/
theorem stepped_store {call : Call Key} {load : Load Part} (hm : Sound S m)
    (hpc : (Pc.loading call key i load).Knows m t) (hparts : load.parts ≠ []) :
    Stepped S t m (m.set i { m.slots i with value := some load })
      (.leaving call key i (some load)) := by
  obtain ⟨hkey, hholder, hcall, hload⟩ := hpc
  have hfloor : (m.slots i).floor ≤ ({ m.slots i with value := some load } : Slot Key Part).floor :=
    hload.floor
  have hgrows : Grows m (m.set i { m.slots i with value := some load }) := .set rfl hfloor
  refine ⟨hm.set hkey hkey hfloor hload.commits ?_, ⟨(hgrows.slot i key hkey).1, ?_, ?_, ?_⟩, ?_⟩
  · intro stored hstored
    cases hstored
    exact ⟨hload.begun, hload.born hparts⟩
  · rw [Memory.slots_set_self]
    exact hholder
  · exact hcall.stable hm hgrows hkey
  · cases call with
    | get floor =>
        intro returned hreturned
        cases hreturned
        exact Nat.le_trans hcall hload.floor
    | refresh since rest =>
        rw [Call.Left, Memory.slots_set_self]
        exact hload.since since rest rfl
  · intro u hu
    refine Rely.set rfl hfloor ?_
    rw [hholder]
    exact fun heq => hu (Option.some.inj heq).symm

variable [DecidableEq Key]

/-- A call that looks up its slot, or makes it. -/
theorem stepped_called {call : Call Key} {pc' : Pc Key Part} (hm : Sound S m)
    (hpc : (Pc.called call key).Knows m t)
    (hstep : thread S t (.called call key) m = some (pc', m')) : Stepped S t m m' pc' := by
  cases call with
  | get floor =>
      rw [thread] at hstep
      split at hstep
      next i hmap =>
        cases hstep
        exact ⟨hm, ⟨hm.mapped key i hmap, Nat.le_trans hpc (hm.refreshedFloor key i hmap)⟩,
          fun _ _ => .refl⟩
      next hmap =>
        cases hstep
        refine ⟨hm.make, ?_, fun _ _ => .make (hm.unmade m.count (Nat.le_refl _))⟩
        rw [Pc.Knows, Memory.slots_make_self]
        exact ⟨rfl, Nat.le_trans hpc (hm.refreshed key)⟩
  | refresh since rest =>
      rw [thread] at hstep
      split at hstep
      next i hmap =>
        cases hstep
        refine ⟨hm, ⟨hm.mapped key i hmap, hpc, ?_⟩, fun _ _ => .refl⟩
        intro j hj
        rw [hmap] at hj
        cases hj
        exact .inl rfl
      next hmap =>
        cases hstep
        refine ⟨hm.finish hpc ?_, knows_next (Nat.le_refl _), fun _ _ => Rely.finish .refl⟩
        intro i hi
        rw [hmap] at hi
        cases hi

/-- A get that looks into its slot without the lock. -/
theorem stepped_looking {floor : Nat} {pc' : Pc Key Part} (hm : Sound S m)
    (hpc : (Pc.looking floor key i).Knows m t)
    (hstep : thread S t (.looking floor key i) m = some (pc', m')) : Stepped S t m m' pc' := by
  rw [thread] at hstep
  split at hstep
  next load hvalue =>
    cases hstep
    refine ⟨hm, ?_, fun _ _ => .refl⟩
    intro returned hreturned
    cases hreturned
    rw [← Slot.floor_of_value hvalue]
    exact hpc.2
  next hvalue =>
    cases hstep
    exact ⟨hm, hpc, fun _ _ => .refl⟩

/-- A call that takes the lock, if it is free. -/
theorem stepped_waiting {call : Call Key} {pc' : Pc Key Part} (hm : Sound S m)
    (hpc : (Pc.waiting call key i).Knows m t)
    (hstep : thread S t (.waiting call key i) m = some (pc', m')) : Stepped S t m m' pc' := by
  rw [thread] at hstep
  split at hstep
  next => cases hstep
  next hfree =>
    cases hstep
    have hgrows : Grows m (m.set i { m.slots i with holder := some t }) :=
      .set rfl (Nat.le_refl _)
    refine ⟨hm.set hpc.1 hpc.1 (Nat.le_refl _) (hm.floor i) ?_, ?_, ?_⟩
    · intro load hload
      exact ⟨(hm.valued i load hload).1, hm.born_of_value hpc.1 hload⟩
    · refine ⟨(hgrows.slot i key hpc.1).1, ?_, hpc.2.stable hm hgrows hpc.1⟩
      rw [Memory.slots_set_self]
    · intro u _
      refine Rely.set rfl (Nat.le_refl _) ?_
      rw [hfree]
      exact nofun

/-- A call with the lock, which finds a load or begins one. -/
theorem stepped_holding {call : Call Key} {pc' : Pc Key Part} (hm : Sound S m)
    (hpc : (Pc.holding call key i).Knows m t)
    (hstep : thread S t (.holding call key i) m = some (pc', m')) : Stepped S t m m' pc' := by
  cases call with
  | get floor =>
      rw [thread] at hstep
      split at hstep
      next load hvalue =>
        cases hstep
        refine ⟨hm, ⟨hpc.1, hpc.2.1, hpc.2.2, ?_⟩, fun _ _ => .refl⟩
        intro returned hreturned
        cases hreturned
        rw [← Slot.floor_of_value hvalue]
        exact hpc.2.2
      next =>
        cases hstep
        exact stepped_beginLoad hm hpc
  | refresh since rest =>
      cases hstep
      exact stepped_beginLoad hm hpc

/-- A load that reads once more, or is done. -/
theorem stepped_loading {call : Call Key} {load : Load Part} {pc' : Pc Key Part} (hm : Sound S m)
    (hpc : (Pc.loading call key i load).Knows m t)
    (hstep : thread S t (.loading call key i load) m = some (pc', m')) : Stepped S t m m' pc' := by
  simp only [thread] at hstep
  split at hstep
  next read hread =>
    split at hstep
    next =>
      split at hstep
      next floor =>
        cases hstep
        exact ⟨hm, ⟨hpc.1, hpc.2.1, hpc.2.2.1, nofun⟩, fun _ _ => .refl⟩
      next since rest =>
        cases hstep
        exact ⟨hm, ⟨hpc.1, hpc.2.1, hpc.2.2.1⟩, fun _ _ => .refl⟩
    next hfound =>
      cases hstep
      refine ⟨hm, ⟨hpc.1, hpc.2.1, hpc.2.2.1, ?_⟩, fun _ _ => .refl⟩
      refine { hpc.2.2.2 with born := fun _ => ?_ }
      by_cases hparts : load.parts = []
      · exact hm.keysBorn key (Decidable.not_not.mp fun hgone => hfound ⟨hparts, hgone⟩)
      · exact hpc.2.2.2.born hparts
  next hdone =>
    cases hstep
    apply stepped_store hm hpc
    intro hparts
    rw [hparts] at hdone
    exact S.reads_ne key (List.eq_nil_of_length_eq_zero
      (Nat.le_zero.mp (List.getElem?_eq_none_iff.mp hdone)))

/-- A refresh of a key that is gone, which drops the slot. -/
theorem stepped_dropping {since : Nat} {rest : List Key} {pc' : Pc Key Part} (hm : Sound S m)
    (hpc : (Pc.dropping since rest key i).Knows m t)
    (hstep : thread S t (.dropping since rest key i) m = some (pc', m')) :
    Stepped S t m m' pc' := by
  cases hstep
  refine ⟨hm.drop, ⟨hpc.1, hpc.2.1, ?_, ?_⟩, fun _ _ => .drop⟩
  · exact hpc.2.2.stable hm (Rely.drop (u := t)).toGrows hpc.1
  · rw [Call.Left, Memory.map_drop_self]
    exact nofun

/-- A call that gives the lock back. -/
theorem stepped_leaving {call : Call Key} {result : Option (Load Part)} {pc' : Pc Key Part}
    (hm : Sound S m) (hpc : (Pc.leaving call key i result).Knows m t)
    (hstep : thread S t (.leaving call key i result) m = some (pc', m')) :
    Stepped S t m m' pc' := by
  obtain ⟨hkey, hholder, hcall, hleft⟩ := hpc
  have hunlocked := sound_unlocked hm hkey
  have hrely : ∀ u, u ≠ t → Rely u m (m.set i { m.slots i with holder := none }) := by
    intro u hu
    refine Rely.set rfl (Nat.le_refl _) ?_
    rw [hholder]
    exact fun heq => hu (Option.some.inj heq).symm
  cases call with
  | get floor =>
      cases hstep
      exact ⟨hunlocked, hleft, hrely⟩
  | refresh since rest =>
      cases hstep
      refine ⟨hunlocked.finish hcall.1 ?_, knows_next (Nat.le_refl _),
        fun u hu => (hrely u hu).finish⟩
      intro j hj
      by_cases hij : j = i
      · -- what the refresh has stored is still there
        subst hij
        rw [Memory.slots_set_self]
        cases result with
        | some load => exact hleft
        | none => exact absurd hj hleft
      · rw [Memory.slots_set_of_ne hij]
        exact (hcall.2 j hj).resolve_left hij

/-- A step of a thread keeps what holds of memory, comes to where the thread knows what it should,
    and does what the others rely on. -/
theorem stepped {pc pc' : Pc Key Part} (hm : Sound S m) (hpc : pc.Knows m t)
    (hstep : thread S t pc m = some (pc', m')) : Stepped S t m m' pc' := by
  cases pc with
  | idle => cases hstep
  | called call key => exact stepped_called hm hpc hstep
  | looking floor key i => exact stepped_looking hm hpc hstep
  | waiting call key i => exact stepped_waiting hm hpc hstep
  | holding call key i => exact stepped_holding hm hpc hstep
  | loading call key i load => exact stepped_loading hm hpc hstep
  | dropping since rest key i => exact stepped_dropping hm hpc hstep
  | leaving call key i result => exact stepped_leaving hm hpc hstep
  | returned floor key result =>
      cases hstep
      exact ⟨hm, trivial, fun _ _ => .refl⟩

end Threads

/-! ### Loads are stored in order -/

section Ordered

variable {S}

/-- Memory is sound, and every thread knows what it should. -/
structure Ordered (S : NotifyingStore Key Part Db Write) (s : Cache Key Part Db) : Prop where
  memory : Sound S s.memory
  threads : ∀ t, (s.pc t).Knows s.memory t

/-- At the start no thread is at work. -/
theorem ordered_start (db : Db) : Ordered S (.start S db) :=
  ⟨sound_start db, fun _ => trivial⟩

namespace Ordered

variable {s : Cache Key Part Db}

/-- Two threads have not locked one slot. -/
theorem exclusive (h : Ordered S s) {t u i : Nat} {key key' : Key} {call call' : Call Key}
    {load load' : Load Part} (ht : s.pc t = .loading call key i load)
    (hu : s.pc u = .loading call' key' i load') : t = u := by
  have hknows := h.threads t
  have hknows' := h.threads u
  rw [ht] at hknows
  rw [hu] at hknows'
  exact Option.some.inj (hknows.2.1.symm.trans hknows'.2.1)

theorem commit (h : Ordered S s) {db : Db} {queue : List Key} :
    Ordered S { s with memory := s.memory.commit S db, queue := queue } := by
  obtain ⟨hm, hthreads⟩ := h
  refine ⟨hm.commit, fun t => (hthreads t).stable hm .commit⟩

/-- A thread is called. -/
theorem goto (h : Ordered S s) {t : Nat} {pc : Pc Key Part} (hpc : pc.Knows s.memory t) :
    Ordered S (s.goto t pc) := by
  refine ⟨h.memory, ?_⟩
  intro u
  by_cases hu : u = t
  · rw [hu, Cache.pc_goto_self]
    exact hpc
  · rw [Cache.pc_goto_of_ne hu]
    exact h.threads u

variable [DecidableEq Key]

/-- So does a step of a thread. -/
theorem thread (h : Ordered S s) {t : Nat} {pc : Pc Key Part} {m : Memory Key Part Db}
    (hstep : thread S t (s.pc t) s.memory = some (pc, m)) :
    Ordered S (Cache.goto { s with memory := m } t pc) := by
  have hstepped := stepped h.memory (h.threads t) hstep
  refine ⟨hstepped.sound, ?_⟩
  intro u
  by_cases hu : u = t
  · rw [hu, Cache.pc_goto_self]
    exact hstepped.knows
  · rw [Cache.pc_goto_of_ne hu]
    exact (h.threads u).stable h.memory (hstepped.rely u hu)

end Ordered

variable [DecidableEq Key]

/-- What a move is: a commit, a notification taken, a call, or a step of a thread. -/
inductive Moved (S : NotifyingStore Key Part Db Write) (s : Cache Key Part Db) :
    Move Key Write → Cache Key Part Db → Prop where
  | commit {w : Write} {notified : List Key} {db : Db}
      (h : S.commit w s.memory.db = some (notified, db)) :
      Moved S s (.commit w) { s with memory := s.memory.commit S db, queue := s.queue ++ notified }
  | take {key : Key} {queue : List Key} (hpc : s.pc 0 = .idle) (hqueue : s.queue = key :: queue) :
      Moved S s .take
        (Cache.goto { s with queue := queue } 0 (.called (.refresh s.memory.commits []) key))
  | call {m : Move Key Write} {t : Nat} {call : Call Key} {key : Key} (ht : t ≠ 0)
      (hknows : (Pc.called call key : Pc Key Part).Knows s.memory t) :
      Moved S s m (s.goto t (.called call key))
  | thread {t : Nat} {pc : Pc Key Part} {m : Memory Key Part Db}
      (h : thread S t (s.pc t) s.memory = some (pc, m)) :
      Moved S s (.advance t) (Cache.goto { s with memory := m } t pc)

/-- What a move can be. -/
theorem moved {m : Move Key Write} {s s' : Cache Key Part Db} (h : step S m s = some s') :
    Moved S s m s' := by
  cases m with
  | commit w =>
      obtain ⟨⟨notified, db⟩, hcommit, rfl⟩ := Option.map_eq_some_iff.mp h
      exact .commit hcommit
  | take =>
      rw [step] at h
      split at h
      next key queue hpc hqueue =>
        cases h
        exact .take hpc hqueue
      next => cases h
  | get t key =>
      cases t with
      | zero => cases h
      | succ t =>
          simp only [step] at h
          split at h
          next =>
            cases h
            exact .call (Nat.succ_ne_zero _) (Nat.le_refl _)
          next => cases h
  | refresh t key rest =>
      cases t with
      | zero => cases h
      | succ t =>
          simp only [step] at h
          split at h
          next =>
            cases h
            exact .call (Nat.succ_ne_zero _) (Nat.le_refl _)
          next => cases h
  | advance t =>
      obtain ⟨⟨pc, memory⟩, hthread, rfl⟩ := Option.map_eq_some_iff.mp h
      exact .thread hthread

/-- Every move keeps the order. -/
theorem Ordered.step {m : Move Key Write} {s s' : Cache Key Part Db} (h : Ordered S s)
    (hstep : step S m s = some s') : Ordered S s' := by
  cases moved hstep with
  | commit => exact h.commit
  | @take key queue _ _ =>
      have hpopped : Ordered S { s with queue := queue } := ⟨h.memory, h.threads⟩
      have hknows : (Pc.called (.refresh s.memory.commits []) key : Pc Key Part).Knows s.memory 0 :=
        Nat.le_refl s.memory.commits
      exact hpopped.goto hknows
  | call _ hknows => exact h.goto hknows
  | thread hthread => exact h.thread hthread

variable {s : Cache Key Part Db} {db : Db} {history : List (Cache Key Part Db × Move Key Write)}

/-- So every run does. -/
theorem ordered (h : Trace (step S) (.start S db) history s) : Ordered S s := by
  induction h with
  | start => exact ordered_start db
  | move _ hstep ih => exact ih.step hstep

/-- A get returns no load from before a refresh that had completed when the get began. -/
theorem never_behind (h : Trace (step S) (.start S db) history s) {t floor : Nat} {key : Key}
    {load : Load Part} (hpc : s.pc t = .returned floor key (some load)) : floor ≤ load.commits := by
  have hknows := (ordered h).threads t
  rw [hpc] at hknows
  exact hknows load rfl

end Ordered

end FlagForge.NotifiedCache
