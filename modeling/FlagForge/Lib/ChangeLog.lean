/-
Module: FlagForge.Lib.ChangeLog
Layer: Lib
Purpose: Rows whose writers note what they changed. A writer reads the row, writes it by a later
  statement and then notes the copy it read and the row it wrote. If nobody writes the row between
  the read and the write, every note shows the row that was replaced, and the notes form a chain in
  the order of their versions; otherwise some note is wrong.
Imports: FlagForge.Lib.Versioned
Trusted boundary: none
Main exports: NotedRow, NotedRow.Kept, NotedRow.Undisturbed, NotedRow.Faithful, NotedRow.Chained,
  NotedRow.Kept.faithful, NotedRow.Kept.undisturbed, NotedRow.kept_of_traced, NotedRow.Kept.chained
-/
import FlagForge.Lib.Versioned

namespace FlagForge

open Prog (Log)
open Pool (Event Traced)
open Pool.Traced (eventsOf)

/-- A versioned row and the notes about it: which answers are of reads of the row, with the copy they
    returned, and which of notes, with the image of the row before and the row after. -/
structure NotedRow (Stmt : Type) (Resp : Stmt → Type) (Db ρ ι : Type) extends
    VersionedRow Stmt Resp Db ρ where
  image : ρ → ι
  read : (s : Stmt) → Resp s → Option (Option ρ)
  note : (s : Stmt) → Resp s → Option (Option ι × ρ)

namespace NotedRow

variable {Stmt : Type} {Resp : Stmt → Type} {Db Input ρ ι : Type}
variable (A : NotedRow Stmt Resp Db ρ ι)

/-! ### Logs -/

/-- Neither a write nor a note. -/
def Quiet (e : (s : Stmt) × Resp s) : Prop :=
  A.write e.1 e.2 = none ∧ A.note e.1 e.2 = none

/-- The log ends with a write, before which the row was read: the note shows the copy of the first
    read, and the row that was written. -/
inductive Tells : Log Stmt Resp → Option ι → ρ → Prop where
  | intro {w r : (s : Stmt) × Resp s} {since older : Log Stmt Resp} {expected : Option Int}
      {copy : Option ρ} {row : ρ} (hwrite : A.write w.1 w.2 = some (expected, row))
      (hnote : A.note w.1 w.2 = none) (hread : A.read r.1 r.2 = some copy)
      (hquiet : ∀ e ∈ since ++ r :: older, A.Quiet e) (hfirst : ∀ e ∈ older, A.read e.1 e.2 = none) :
      Tells (w :: (since ++ r :: older)) (copy.map A.image) row

/-- What a writer may do next: write once, and then note what it wrote. -/
structure Allows (log : Log Stmt Resp) (s : Stmt) : Prop where
  write : ∀ r, (A.write s r).isSome → ∀ e ∈ log, A.Quiet e
  note : ∀ r before after, A.note s r = some (before, after) → A.Tells log before after

/-- What was written was noted. -/
def Closed (log : Log Stmt Resp) : Prop :=
  (∃ e ∈ log, (A.write e.1 e.2).isSome) → ∃ e ∈ log, (A.note e.1 e.2).isSome

/-! ### Runs -/

variable (exec : Input → (s : Stmt) → Db → Resp s × Db)

def readOf (e : Event Stmt Db Input) : Option (Option ρ) :=
  A.read e.stmt (e.answer exec)

def noteOf (e : Event Stmt Db Input) : Option (Option ι × ρ) :=
  A.note e.stmt (e.answer exec)

/-- A successful write leaves the row it returns, one version above a row it replaces; after any
    other statement the row is what it was, or is still missing. -/
def Exact (e : Event Stmt Db Input) : Prop :=
  match A.writeOf exec e with
  | some (_, row) => A.find (e.after exec) = some row ∧
      ∀ old, A.find e.before = some old → A.version row = A.version old + 1
  | none => A.find (e.after exec) = A.find e.before

/-- A history, the newest statement first, of writers that keep to `Allows`. -/
structure Kept (events : List (Event Stmt Db Input)) : Prop where
  chain : events.IsChain fun later earlier => later.before = earlier.after exec
  exact : ∀ e ∈ events, A.Exact exec e
  current : ∀ e ∈ events, ∀ copy, A.readOf exec e = some copy → A.find e.before = copy
  allowed : ∀ {later e earlier}, events = later ++ e :: earlier →
    A.Allows ((eventsOf e.thread earlier).map (Event.learned exec)) e.stmt

/-- Nobody writes the row between a read and a write of it by one thread. -/
def Undisturbed (events : List (Event Stmt Db Input)) : Prop :=
  ∀ later w between r earlier, events = later ++ w :: (between ++ r :: earlier) →
    r.thread = w.thread → (A.readOf exec r).isSome → (A.writeOf exec w).isSome →
      ∀ e ∈ between, A.writeOf exec e = none

/-- Every note shows the row its thread wrote, and the row that this write replaced. -/
def Faithful (events : List (Event Stmt Db Input)) : Prop :=
  ∀ n ∈ events, ∀ before after, A.noteOf exec n = some (before, after) →
    ∃ w ∈ events, w.thread = n.thread ∧ (∃ expected, A.writeOf exec w = some (expected, after)) ∧
      before = (A.find w.before).map A.image

/-- Every write was noted by its thread. -/
def AllNoted (events : List (Event Stmt Db Input)) : Prop :=
  ∀ w ∈ events, (A.writeOf exec w).isSome →
    ∃ n ∈ events, n.thread = w.thread ∧ (A.noteOf exec n).isSome

/-- In the order of their versions, each note begins where the one before it ends. -/
def Chained (notes : List (Option ι × ρ)) : Prop :=
  ∀ sorted : List (Option ι × ρ), sorted.Perm notes →
    sorted.Pairwise (fun a b => A.version a.2 ≤ A.version b.2) →
      sorted.IsChain fun a b => b.1 = some (A.image a.2)

variable {A exec} {events : List (Event Stmt Db Input)}

/-! ### The row along a history -/

/-- A statement that is no write leaves what is found. -/
theorem Exact.unwritten {e : Event Stmt Db Input} (h : A.Exact exec e)
    (hnone : A.writeOf exec e = none) : A.find (e.after exec) = A.find e.before := by
  simpa [Exact, hnone] using h

/-- A write leaves its row, one version on from what was there. -/
theorem Exact.written {e : Event Stmt Db Input} {expected : Option Int} {row : ρ}
    (h : A.Exact exec e) (hsome : A.writeOf exec e = some (expected, row)) :
    A.find (e.after exec) = some row ∧
      ∀ old, A.find e.before = some old → A.version row = A.version old + 1 := by
  simpa [Exact, hsome] using h

/-- What a statement finds is the row of the newest write before it, which has the highest version so
    far, unless there was no write. -/
theorem before_cases : ∀ {events : List (Event Stmt Db Input)} {e : Event Stmt Db Input},
    (e :: events).IsChain (fun later earlier => later.before = earlier.after exec) →
    (∀ e ∈ events, A.Exact exec e) →
      (∀ y ∈ events, A.writeOf exec y = none) ∨
      ∃ v ∈ events, ∃ expected row, A.writeOf exec v = some (expected, row) ∧
        A.find e.before = some row ∧
        ∀ y ∈ events, ∀ z, A.writeOf exec y = some z → A.version z.2 ≤ A.version row := by
  intro events
  induction events with
  | nil => simp
  | cons e' events ih =>
      intro e hchain hexact
      rw [List.isChain_cons_cons] at hchain
      have hrest := ih hchain.2 fun y hy => hexact y (List.mem_cons_of_mem _ hy)
      cases hwrite : A.writeOf exec e' with
      | none =>
          have hsame : A.find e.before = A.find e'.before := by
            rw [hchain.1, (hexact e' List.mem_cons_self).unwritten hwrite]
          rcases hrest with hnone | ⟨v, hv, expected, row, hrow, hfind, hmax⟩
          · exact .inl (by simpa [hwrite] using hnone)
          · refine .inr ⟨v, List.mem_cons_of_mem _ hv, expected, row, hrow, hsame.trans hfind, ?_⟩
            simpa [hwrite] using hmax
      | some x =>
          obtain ⟨hafter, hversion⟩ := (hexact e' List.mem_cons_self).written hwrite
          refine .inr ⟨e', List.mem_cons_self, x.1, x.2, hwrite, by rw [hchain.1, hafter], ?_⟩
          intro y hy z hz
          rcases List.mem_cons.mp hy with rfl | hy
          · cases hwrite.symm.trans hz
            exact Int.le_refl _
          · rcases hrest with hnone | ⟨v, _, _, row, _, hfind, hmax⟩
            · simp [hnone y hy] at hz
            · have hle := hmax y hy z hz
              have hnext := hversion row hfind
              omega

/-- Later writes have higher versions. -/
theorem writes_increase
    (hchain : events.IsChain fun later earlier => later.before = earlier.after exec)
    (hexact : ∀ e ∈ events, A.Exact exec e) :
    events.Pairwise fun later earlier => ∀ x y, A.writeOf exec later = some x →
      A.writeOf exec earlier = some y → A.version y.2 < A.version x.2 := by
  induction events with
  | nil => exact .nil
  | cons e events ih =>
      have hexact' : ∀ y ∈ events, A.Exact exec y := fun y hy => hexact y (List.mem_cons_of_mem _ hy)
      refine .cons ?_ (ih hchain.of_cons hexact')
      intro y hy x z hx hz
      rcases before_cases hchain hexact' with hnone | ⟨v, _, _, row, _, hfind, hmax⟩
      · simp [hnone y hy] at hz
      · have hle := hmax y hy z hz
        have hnext := ((hexact e List.mem_cons_self).written hx).2 row hfind
        omega

/-- Between two statements nobody writes the row, and both find the same; or somebody does, and the
    later one finds a higher version. -/
theorem stretch {r : Event Stmt Db Input} {earlier : List (Event Stmt Db Input)} :
    ∀ {between : List (Event Stmt Db Input)} {w : Event Stmt Db Input},
    (w :: (between ++ r :: earlier)).IsChain
      (fun later earlier => later.before = earlier.after exec) →
    (∀ e ∈ between ++ [r], A.Exact exec e) → A.writeOf exec r = none →
      (∀ e ∈ between, A.writeOf exec e = none) ∧ A.find w.before = A.find r.before ∨
      (∃ e ∈ between, A.writeOf exec e ≠ none) ∧ ∃ new, A.find w.before = some new ∧
        ∀ old, A.find r.before = some old → A.version old < A.version new := by
  intro between
  induction between with
  | nil =>
      intro w hchain hexact hread
      rw [List.nil_append, List.isChain_cons_cons] at hchain
      refine .inl ⟨by simp, ?_⟩
      rw [hchain.1, (hexact r (by simp)).unwritten hread]
  | cons e between ih =>
      intro w hchain hexact hread
      rw [List.cons_append, List.isChain_cons_cons] at hchain
      have hrest := ih hchain.2 (fun y hy => hexact y (List.mem_cons_of_mem _ hy)) hread
      have hthis := hexact e List.mem_cons_self
      rw [hchain.1]
      cases hwrite : A.writeOf exec e with
      | none =>
          rw [hthis.unwritten hwrite]
          rcases hrest with ⟨hnone, hsame⟩ | ⟨⟨y, hy, hsome⟩, hhigher⟩
          · exact .inl ⟨by simpa [hwrite] using hnone, hsame⟩
          · exact .inr ⟨⟨y, List.mem_cons_of_mem _ hy, hsome⟩, hhigher⟩
      | some x =>
          obtain ⟨hafter, hversion⟩ := hthis.written hwrite
          refine .inr ⟨⟨e, List.mem_cons_self, by simp [hwrite]⟩, x.2, hafter, ?_⟩
          intro old hold
          rcases hrest with ⟨_, hsame⟩ | ⟨_, new, hnew, hlower⟩
          · rw [hversion old (hsame.trans hold)]
            exact Int.lt_succ _
          · have hnext := hversion new hnew
            have hlt := hlower old hold
            omega

/-! ### Threads -/

/-- A relation of every event to all earlier ones. -/
theorem pairwise_of_splits {α : Type} {R : α → α → Prop} {l : List α}
    (h : ∀ later e earlier, l = later ++ e :: earlier → ∀ y ∈ earlier, R e y) : l.Pairwise R := by
  induction l with
  | nil => exact .nil
  | cons a l ih =>
      refine .cons (h [] a l rfl) (ih fun later e earlier heq => h (a :: later) e earlier ?_)
      rw [heq, List.cons_append]

theorem related_of_pairwise {α : Type} {R : α → α → Prop} {l : List α} {a b : α}
    (h : l.Pairwise R) (ha : a ∈ l) (hb : b ∈ l) : a = b ∨ R a b ∨ R b a := by
  induction h with
  | nil => cases ha
  | cons hfirst _ ih =>
      rcases List.mem_cons.mp ha with rfl | ha' <;> rcases List.mem_cons.mp hb with rfl | hb'
      · exact .inl rfl
      · exact .inr (.inl (hfirst b hb'))
      · exact .inr (.inr (hfirst a ha'))
      · exact ih ha' hb'

/-- An entry of a thread's log is an event of the thread. -/
theorem split_of_log {i : Nat} {r : (s : Stmt) × Resp s} {older : Log Stmt Resp} :
    ∀ {since : Log Stmt Resp} {events : List (Event Stmt Db Input)},
      (eventsOf i events).map (Event.learned exec) = since ++ r :: older →
      ∃ between e earlier, events = between ++ e :: earlier ∧ e.thread = i ∧ e.learned exec = r ∧
        (eventsOf i earlier).map (Event.learned exec) = older := by
  intro since
  induction since with
  | nil =>
      intro events h
      obtain ⟨e, rest, hfilter, hlearned, hrest⟩ := List.map_eq_cons_iff.mp h
      obtain ⟨between, earlier, hevents, _, hthread, hearlier⟩ := List.filter_eq_cons_iff.mp hfilter
      refine ⟨between, e, earlier, hevents, by simpa using hthread, hlearned, ?_⟩
      rw [eventsOf, hearlier, hrest]
  | cons x since ih =>
      intro events h
      obtain ⟨e, rest, hfilter, _, hrest⟩ := List.map_eq_cons_iff.mp h
      obtain ⟨before, after, rfl, _, _, hafter⟩ := List.filter_eq_cons_iff.mp hfilter
      rw [← hafter] at hrest
      obtain ⟨between, y, earlier, rfl, hy⟩ := ih hrest
      exact ⟨before ++ e :: between, y, earlier, by simp, hy⟩

namespace Kept

variable (h : A.Kept exec events)
include h

/-- Before it writes, a thread has neither written nor noted anything. -/
theorem quiet_of_write {later earlier : List (Event Stmt Db Input)} {w y : Event Stmt Db Input}
    (hevents : events = later ++ w :: earlier) (hwrite : A.writeOf exec w ≠ none)
    (hy : y ∈ earlier) (hthread : w.thread = y.thread) : A.Quiet (y.learned exec) := by
  have hlog := List.mem_map_of_mem (f := Event.learned exec)
    (List.mem_filter.mpr ⟨hy, by simp [hthread]⟩ : y ∈ eventsOf w.thread earlier)
  exact (h.allowed hevents).write _ (Option.ne_none_iff_isSome.mp hwrite) _ hlog

/-- What a note is based on: the first read of its thread, and the write. -/
theorem told {later earlier : List (Event Stmt Db Input)} {n : Event Stmt Db Input}
    {before : Option ι} {after : ρ} (hevents : events = later ++ n :: earlier)
    (hnote : A.noteOf exec n = some (before, after)) :
    ∃ since w between r older expected copy, earlier = since ++ w :: (between ++ r :: older) ∧
      w.thread = n.thread ∧ r.thread = n.thread ∧ A.writeOf exec w = some (expected, after) ∧
      A.readOf exec r = some copy ∧ before = copy.map A.image ∧
      (∀ y ∈ earlier, y.thread = n.thread → A.noteOf exec y = none) ∧
      ∀ y ∈ older, y.thread = n.thread → A.readOf exec y = none := by
  have htells := (h.allowed hevents).note _ _ _ hnote
  have hmem : ∀ {l : List (Event Stmt Db Input)} {y : Event Stmt Db Input}, y ∈ l →
      y.thread = n.thread → y.learned exec ∈ (eventsOf n.thread l).map (Event.learned exec) :=
    fun hy hthread => List.mem_map_of_mem (List.mem_filter.mpr ⟨hy, by simp [hthread]⟩)
  generalize hlog : (eventsOf n.thread earlier).map (Event.learned exec) = log at htells
  cases htells with
  | @intro w r since older expected copy row hwrite hquietw hread hquiet hfirst =>
      have hnotes : ∀ y ∈ earlier, y.thread = n.thread → A.noteOf exec y = none := by
        intro y hy hthread
        have hentry := hmem hy hthread
        rw [hlog, List.mem_cons] at hentry
        rcases hentry with heq | hentry
        · have hnote' : A.note (y.learned exec).1 (y.learned exec).2 = none := by
            rw [heq]
            exact hquietw
          exact hnote'
        · exact (hquiet _ hentry).2
      obtain ⟨since', w', rest, rfl, hw, rfl, hrest⟩ :=
        split_of_log (show _ = [] ++ w :: (since ++ r :: older) from hlog)
      obtain ⟨between, r', older', rfl, hr, rfl, holder⟩ := split_of_log hrest
      refine ⟨since', w', between, r', older', expected, copy, rfl, hw, hr, hwrite, hread, rfl,
        hnotes, ?_⟩
      intro y hy hthread
      exact hfirst _ (holder ▸ hmem hy hthread)

/-- A thread writes once. -/
theorem writes_once : events.Pairwise fun later earlier => A.writeOf exec later ≠ none →
    later.thread = earlier.thread → A.writeOf exec earlier = none :=
  pairwise_of_splits fun _ _ _ hevents _ hy hwrite hthread =>
    (h.quiet_of_write hevents hwrite hy hthread).1

/-- And notes once. -/
theorem notes_once : events.Pairwise fun later earlier => A.noteOf exec later ≠ none →
    later.thread = earlier.thread → A.noteOf exec earlier = none := by
  apply pairwise_of_splits
  intro later n earlier hevents y hy hnote hthread
  obtain ⟨note, hnote⟩ := Option.ne_none_iff_exists'.mp hnote
  obtain ⟨_, _, _, _, _, _, _, _, _, _, _, _, _, hnotes, _⟩ := h.told hevents hnote
  exact hnotes y hy hthread.symm

/-- A thread writes once. -/
theorem eq_of_writes {v w : Event Stmt Db Input} (hv : v ∈ events) (hw : w ∈ events)
    (hwritev : A.writeOf exec v ≠ none) (hwritew : A.writeOf exec w ≠ none)
    (hthread : v.thread = w.thread) : v = w := by
  rcases related_of_pairwise h.writes_once hv hw with heq | hvw | hwv
  · exact heq
  · exact absurd (hvw hwritev hthread) hwritew
  · exact absurd (hwv hwritew hthread.symm) hwritev

/-- Different writes have different versions. -/
theorem eq_of_versions {v w : Event Stmt Db Input} {x y : Option Int × ρ} (hv : v ∈ events)
    (hw : w ∈ events) (hx : A.writeOf exec v = some x) (hy : A.writeOf exec w = some y)
    (hversion : A.version x.2 = A.version y.2) : v = w := by
  rcases related_of_pairwise (writes_increase h.chain h.exact) hv hw with heq | hvw | hwv
  · exact heq
  · exact absurd hversion (Int.ne_of_gt (hvw x y hx hy))
  · exact absurd hversion (Int.ne_of_lt (hwv y x hy hx))

/-- Reads are no writes here, so a stretch after a read of the thread that wrote says it all. -/
theorem stretch {later between older : List (Event Stmt Db Input)} {w r : Event Stmt Db Input}
    (hevents : events = later ++ w :: (between ++ r :: older)) (hthread : r.thread = w.thread)
    (hwrite : A.writeOf exec w ≠ none) :
    (∀ e ∈ between, A.writeOf exec e = none) ∧ A.find w.before = A.find r.before ∨
      (∃ e ∈ between, A.writeOf exec e ≠ none) ∧ ∃ new, A.find w.before = some new ∧
        ∀ old, A.find r.before = some old → A.version old < A.version new := by
  have hread : A.writeOf exec r = none :=
    (h.quiet_of_write hevents hwrite (by simp) hthread.symm).1
  have hchain := h.chain
  rw [hevents] at hchain
  refine NotedRow.stretch hchain.right_of_append ?_ hread
  intro e he
  apply h.exact
  rw [hevents]
  rcases List.mem_append.mp he with he | he
  · simp [he]
  · simp [List.mem_singleton.mp he]

/-- If nobody writes in between, every note shows what was replaced. -/
theorem faithful (hundisturbed : A.Undisturbed exec events) : A.Faithful exec events := by
  intro n hn before after hnote
  obtain ⟨later, earlier, heq⟩ := List.append_of_mem hn
  obtain ⟨since, w, between, r, older, expected, copy, rfl, hw, hr, hwrite, hread, hbefore, _⟩ :=
    h.told heq hnote
  have hevents : events = (later ++ n :: since) ++ w :: (between ++ r :: older) := by simp [heq]
  have hthread : r.thread = w.thread := hr.trans hw.symm
  have hnone := hundisturbed _ _ _ _ _ hevents hthread (by simp [hread]) (by simp [hwrite])
  refine ⟨w, by simp [hevents], hw, ⟨expected, hwrite⟩, ?_⟩
  rcases h.stretch hevents hthread (by simp [hwrite]) with ⟨_, hsame⟩ | ⟨⟨e, he, hsome⟩, _⟩
  · have hcopy := h.current r (by simp [hevents]) copy hread
    rw [hbefore, hsame, hcopy]
  · exact absurd (hnone e he) hsome

/-- If somebody writes in between, the note of the later write is wrong. -/
theorem undisturbed (himage : Function.Injective A.image) (hnoted : A.AllNoted exec events)
    (hfaithful : A.Faithful exec events) : A.Undisturbed exec events := by
  intro later w between r earlier hevents hthread hread hwrite e he
  have hwrite := Option.isSome_iff_ne_none.mp hwrite
  have hw : w ∈ events := by simp [hevents]
  obtain ⟨n, hn, hnw, hnote⟩ := hnoted w hw (Option.ne_none_iff_isSome.mp hwrite)
  obtain ⟨⟨before, after⟩, hnote⟩ := Option.isSome_iff_exists.mp hnote
  obtain ⟨later', earlier', heq⟩ := List.append_of_mem hn
  obtain ⟨since, v, between', r', older, expected, copy, rfl, hv, hr', hwritev, hread', hbefore, _,
    hfirst⟩ := h.told heq hnote
  have hevents' : events = (later' ++ n :: since) ++ v :: (between' ++ r' :: older) := by simp [heq]
  have hvmem : v ∈ events := by simp [hevents']
  have hvw : v = w := h.eq_of_writes hvmem hw (by simp [hwritev]) hwrite (hv.trans hnw)
  subst hvw
  -- the write stands at one place only, and the read of the note is not after the read in question
  have hplace : between ++ r :: earlier = between' ++ r' :: older := by
    have honce := h.writes_once
    rw [hevents, List.pairwise_append, List.pairwise_cons] at honce
    obtain ⟨_, ⟨holder, _⟩, hlater⟩ := honce
    have hnotlater : v ∉ later := fun hmem => hwrite (hlater v hmem v List.mem_cons_self hwrite rfl)
    have hnotolder : v ∉ between ++ r :: earlier := fun hmem => hwrite (holder v hmem hwrite rfl)
    have hsame := hevents.symm.trans hevents'
    exact ((List.append_cons_inj_of_notMem hnotlater hnotolder).mp hsame).2.2
  have hbetween : e ∈ between' := by
    have hr : r ∉ older := fun hmem => by
      simp [hfirst r hmem (hthread.trans hv)] at hread
    rcases List.append_eq_append_iff.mp hplace with ⟨rest, hrest, _⟩ | ⟨rest, hrest, hcons⟩
    · simp [hrest, he]
    · cases rest with
      | nil => simpa [hrest] using he
      | cons x rest =>
          rw [List.cons_append, List.cons.injEq] at hcons
          exact absurd (by simp [hcons.2]) hr
  by_contra hsome
  rcases h.stretch hevents' (hr'.trans hv.symm) hwrite with ⟨hnone, _⟩ | ⟨_, new, hnew, hhigher⟩
  · exact hsome (hnone e hbetween)
  · obtain ⟨u, hu, huthread, ⟨_, hwriteu⟩, hreplaced⟩ := hfaithful n hn before after hnote
    have huv : u = v :=
      h.eq_of_writes hu hw (by simp [hwriteu]) hwrite (huthread.trans hv.symm)
    rw [huv, hnew, hbefore, ← h.current r' (by simp [hevents']) copy hread'] at hreplaced
    obtain ⟨old, hold, himages⟩ := Option.map_eq_some_iff.mp hreplaced
    have hlt := hhigher old hold
    rw [himage himages] at hlt
    exact Int.lt_irrefl _ hlt

/-- Threads that run one after another do not disturb each other. -/
theorem undisturbed_of_serial
    (hserial : events.Pairwise fun later earlier => earlier.thread ≤ later.thread) :
    A.Undisturbed exec events := by
  intro later w between r earlier hevents hthread _ hwrite e he
  have hwrite := Option.isSome_iff_ne_none.mp hwrite
  rw [hevents, List.pairwise_append, List.pairwise_cons, List.pairwise_append] at hserial
  obtain ⟨_, ⟨holder, _, _, hbetween⟩, _⟩ := hserial
  have hle := holder e (by simp [he])
  have hge := hbetween e he r List.mem_cons_self
  exact (h.quiet_of_write hevents hwrite (by simp [he]) (by omega)).1

/-- The notes have different versions. -/
theorem notes_distinct (hfaithful : A.Faithful exec events) :
    (events.filterMap (A.noteOf exec)).Pairwise fun a b => A.version a.2 ≠ A.version b.2 := by
  rw [List.pairwise_filterMap]
  apply h.notes_once.imp_of_mem
  intro n m hn hm honce a ha b hb hversion
  obtain ⟨v, hv, hvn, ⟨_, hwritev⟩, _⟩ := hfaithful n hn a.1 a.2 ha
  obtain ⟨w, hw, hwm, ⟨_, hwritew⟩, _⟩ := hfaithful m hm b.1 b.2 hb
  have hsame := h.eq_of_versions hv hw hwritev hwritew hversion
  have hthread : n.thread = m.thread := by rw [← hvn, hsame, hwm]
  have hnone := honce (by simp [ha]) hthread
  simp [hb] at hnone

end Kept

/-! ### Runs of writers -/

section Writers

variable {α : Type} {initial : Db} {origins : List (Prog Stmt Resp α)}
variable {pool : Pool Stmt Resp α Db} {G : (s : Stmt) × Resp s → Prop}

/-- As long as the answers are as they should be, the program writes once, notes what it wrote, and
    does not end before. -/
def Writer (A : NotedRow Stmt Resp Db ρ ι) (G : (s : Stmt) × Resp s → Prop) :
    Log Stmt Resp → Prog Stmt Resp α → Prop :=
  Prog.Obeys (fun log s => (∀ e ∈ log, G e) → A.Allows log s)
    fun log _ => (∀ e ∈ log, G e) → A.Closed log

/-- In a run of such writers each note tells the writer's own change, and the changes follow one
    another. -/
theorem kept_of_traced (h : Traced exec initial origins events pool)
    (hwriters : ∀ p ∈ origins, A.Writer G [] p) (hG : ∀ e ∈ events, G (e.learned exec))
    (hexact : ∀ e ∈ events, A.Exact exec e)
    (hcurrent : ∀ e ∈ events, ∀ copy, A.readOf exec e = some copy → A.find e.before = copy) :
    A.Kept exec events := by
  refine ⟨h.chained, hexact, hcurrent, ?_⟩
  intro later e earlier hevents
  refine h.justified hwriters hevents ?_
  intro entry hentry
  obtain ⟨y, hy, rfl⟩ := List.mem_map.mp hentry
  exact hG y (by simp [hevents, (List.mem_filter.mp hy).1])

/-- When every program has ended, nothing is left to note. -/
theorem allNoted_of_finished (h : Traced exec initial origins events pool)
    (hwriters : ∀ p ∈ origins, A.Writer G [] p) (hG : ∀ e ∈ events, G (e.learned exec))
    (hfinished : ∀ t ∈ pool.threads, ∃ a, t.prog = .done a) : A.AllNoted exec events := by
  intro w hw hwrite
  obtain ⟨hlength, hthreads⟩ := h.length_eq
  have hlt := hthreads w hw
  have horigin := List.getElem?_eq_getElem (hlength ▸ hlt : w.thread < origins.length)
  obtain ⟨a, hdone⟩ := hfinished _ (List.getElem_mem hlt)
  have hclosed := h.result horigin (List.getElem?_eq_getElem hlt) hdone
    (hwriters _ (List.getElem_mem _))
  have hlearned : ∀ entry ∈ (eventsOf w.thread events).map (Event.learned exec), G entry := by
    intro entry hentry
    obtain ⟨y, hy, rfl⟩ := List.mem_map.mp hentry
    exact hG y (List.mem_filter.mp hy).1
  have hmem := List.mem_map_of_mem (f := Event.learned exec)
    (List.mem_filter.mpr ⟨hw, by simp⟩ : w ∈ eventsOf w.thread events)
  obtain ⟨entry, hentry, hnote⟩ := hclosed hlearned ⟨_, hmem, hwrite⟩
  obtain ⟨n, hn, rfl⟩ := List.mem_map.mp hentry
  obtain ⟨hn, hthread⟩ := List.mem_filter.mp hn
  exact ⟨n, hn, by simpa using hthread, hnote⟩

end Writers

/-! ### Chains -/

/-- A list in increasing order is a chain if related are those with nothing in between. -/
theorem isChain_of_increasing {α : Type} {f : α → Int} {R : α → α → Prop} {l : List α}
    (hsorted : l.Pairwise fun a b => f a < f b)
    (h : ∀ a ∈ l, ∀ b ∈ l, f a < f b → (∀ c ∈ l, f a < f c → f b ≤ f c) → R a b) :
    l.IsChain R := by
  induction hsorted with
  | nil => exact .nil
  | @cons a l hfirst hrest ih =>
      cases l with
      | nil => exact .singleton a
      | cons b l =>
          have hle : ∀ c ∈ b :: l, f b ≤ f c := by
            intro c hc
            rcases List.mem_cons.mp hc with rfl | hc
            · exact Int.le_refl _
            · exact Int.le_of_lt ((List.pairwise_cons.mp hrest).1 c hc)
          refine .cons_cons (h a (by simp) b (by simp) (hfirst b (by simp)) ?_) (ih ?_)
          · intro c hc hlt
            rcases List.mem_cons.mp hc with rfl | hc
            · exact absurd hlt (Int.lt_irrefl _)
            · exact hle c hc
          · intro x hx y hy hlt hnext
            refine h x (List.mem_cons_of_mem _ hx) y (List.mem_cons_of_mem _ hy) hlt ?_
            intro c hc hxc
            rcases List.mem_cons.mp hc with rfl | hc
            · exact absurd (hfirst x hx) (Int.not_lt.mpr (Int.le_of_lt hxc))
            · exact hnext c hc hxc

/-- If every note is right and no write goes without one, the notes form a chain. -/
theorem Kept.chained (h : A.Kept exec events) (hnoted : A.AllNoted exec events)
    (hfaithful : A.Faithful exec events) : A.Chained (events.filterMap (A.noteOf exec)) := by
  intro sorted hperm hle
  have hdistinct : sorted.Pairwise fun a b => A.version a.2 ≠ A.version b.2 :=
    (hperm.pairwise_iff fun hne => hne.symm).mpr (h.notes_distinct hfaithful)
  have hlt : sorted.Pairwise fun a b => A.version a.2 < A.version b.2 :=
    (hle.and hdistinct).imp fun hboth => Int.lt_iff_le_and_ne.mpr hboth
  have hwritten : ∀ a ∈ sorted, ∃ w ∈ events, (∃ expected, A.writeOf exec w = some (expected, a.2)) ∧
      a.1 = (A.find w.before).map A.image := by
    intro a ha
    obtain ⟨n, hn, hnote⟩ := List.mem_filterMap.mp (hperm.mem_iff.mp ha)
    obtain ⟨w, hw, _, hwrite, hbefore⟩ := hfaithful n hn a.1 a.2 hnote
    exact ⟨w, hw, hwrite, hbefore⟩
  apply isChain_of_increasing hlt
  intro a ha b hb hab hnext
  obtain ⟨v, hv, ⟨_, hwritev⟩, _⟩ := hwritten a ha
  obtain ⟨w, hw, ⟨_, hwritew⟩, hbefore⟩ := hwritten b hb
  obtain ⟨later, earlier, hevents⟩ := List.append_of_mem hw
  -- the write of the earlier note is before the write of the later one
  have hvearlier : v ∈ earlier := by
    have hincrease := writes_increase h.chain h.exact
    rw [hevents, List.pairwise_append] at hincrease
    rw [hevents, List.mem_append, List.mem_cons] at hv
    rcases hv with hv | rfl | hv
    · exact absurd (hincrease.2.2 v hv w List.mem_cons_self _ _ hwritev hwritew)
        (Int.not_lt.mpr (Int.le_of_lt hab))
    · have hpair := Option.some.inj (hwritev.symm.trans hwritew)
      rw [congrArg Prod.snd hpair] at hab
      exact absurd hab (Int.lt_irrefl _)
    · exact hv
  have hchain := h.chain
  rw [hevents] at hchain
  rcases before_cases hchain.right_of_append fun y hy => h.exact y (by simp [hevents, hy]) with
    hnone | ⟨u, hu, expected, row, hwriteu, hfind, hmax⟩
  · simp [hnone v hvearlier] at hwritev
  · have humem : u ∈ events := by simp [hevents, hu]
    obtain ⟨m, hm, hmu, hnotem⟩ := hnoted u humem (by simp [hwriteu])
    obtain ⟨⟨before, after⟩, hnotem⟩ := Option.isSome_iff_exists.mp hnotem
    obtain ⟨u', hu', hu'm, ⟨_, hwriteu'⟩, _⟩ := hfaithful m hm before after hnotem
    have hsame : u' = u :=
      h.eq_of_writes hu' humem (by simp [hwriteu']) (by simp [hwriteu]) (hu'm.trans hmu)
    rw [hsame, hwriteu] at hwriteu'
    cases hwriteu'
    have hsorted : (before, row) ∈ sorted :=
      hperm.mem_iff.mpr (List.mem_filterMap.mpr ⟨m, hm, hnotem⟩)
    have hle := hmax v hvearlier _ hwritev
    have hstep := ((h.exact w hw).written hwritew).2 row hfind
    have hversion : A.version a.2 = A.version row := by
      by_contra hne
      have hge := hnext (before, row) hsorted (Int.lt_iff_le_and_ne.mpr ⟨hle, hne⟩)
      simp only at hge
      omega
    have hvu := h.eq_of_versions hv humem hwritev hwriteu hversion
    rw [hvu, hwriteu] at hwritev
    cases hwritev
    rw [hbefore, hfind, Option.map_some]

end NotedRow

end FlagForge
