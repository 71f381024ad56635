/-
Module: FlagForge.Lib.Tenancy
Layer: Lib
Purpose: Tenants that share a store through programs of their own. A program is confined when answers
  of one kind lead it to statements of another; a tenancy says what the statements of a tenant see and
  spare. In any interleaving each tenant's threads then run as they would alone, on the tenant's part
  of the store, and nobody else's statement changes that part.
Imports: FlagForge.Lib.Table, FlagForge.Lib.Trace, Mathlib.Data.List.Forall2
Trusted boundary: none
Main exports: Prog.Confined, Fallible.Confined, Prog.embed, Tenancy, Tenancy.kept, Tenancy.owned,
  Tenancy.thinned, Tenancy.projected
-/
import FlagForge.Lib.Table
import FlagForge.Lib.Trace
import Mathlib.Data.List.Forall2

namespace FlagForge

open Prog (Log)

variable {Stmt Stmt' : Type} {Resp : Stmt → Type} {Resp' : Stmt' → Type} {α β γ ε ε' Db Input : Type}

/-! ### Part of a table

What a query that selects from one part of the rows only sees of the whole table. -/

namespace Part

variable {p q : α → Bool} {rows : List α}

/-- What selects from the part finds there what it finds in the whole. -/
theorem find?_eq (h : ∀ r ∈ rows, q r = true → p r = true) :
    (rows.filter p).find? q = rows.find? q := by
  induction rows with
  | nil => rfl
  | cons r rows ih =>
      have hrest := ih fun r hr => h r (List.mem_cons_of_mem _ hr)
      cases hq : q r with
      | true => simp [h r List.mem_cons_self hq, hq]
      | false => cases hp : p r <;> simp [hp, hq, hrest]

/-- A selection within the part is the same in the part. -/
theorem filter_eq (h : ∀ r ∈ rows, q r = true → p r = true) :
    (rows.filter p).filter q = rows.filter q :=
  Table.filter_filter_of_imp h

theorem any_eq (h : ∀ r ∈ rows, q r = true → p r = true) :
    (rows.filter p).any q = rows.any q := by
  rw [Bool.eq_iff_iff, List.any_eq_true, List.any_eq_true]
  constructor
  · rintro ⟨r, hr, hq⟩
    exact ⟨r, (List.mem_filter.mp hr).1, hq⟩
  · rintro ⟨r, hr, hq⟩
    exact ⟨r, List.mem_filter.mpr ⟨hr, h r hr hq⟩, hq⟩

/-- A condition that holds outside the part holds of the whole when it holds of the part. -/
theorem all_eq (h : ∀ r ∈ rows, q r = false → p r = true) :
    (rows.filter p).all q = rows.all q := by
  rw [Bool.eq_iff_iff, List.all_eq_true, List.all_eq_true]
  constructor
  · intro hall r hr
    cases hq : q r with
    | true => rfl
    | false => exact hq.symm.trans (hall r (List.mem_filter.mpr ⟨hr, h r hr hq⟩))
  · exact fun hall r hr => hall r (List.mem_filter.mp hr).1

theorem filterMap_eq {f : α → Option β} (h : ∀ r ∈ rows, (f r).isSome = true → p r = true) :
    (rows.filter p).filterMap f = rows.filterMap f := by
  induction rows with
  | nil => rfl
  | cons r rows ih =>
      have hrest := ih fun r hr => h r (List.mem_cons_of_mem _ hr)
      cases hf : f r with
      | none => cases hp : p r <;> simp [hp, hf, hrest]
      | some b => simp [h r List.mem_cons_self (by simp [hf]), hf, hrest]

/-- Deleting and taking the part commute. -/
theorem filter_comm : (rows.filter p).filter q = (rows.filter q).filter p := by
  rw [List.filter_filter, List.filter_filter]
  apply List.filter_congr
  intro r _
  exact Bool.and_comm _ _

/-- Deleting from one part leaves the rows outside it. -/
theorem filter_other (h : ∀ r ∈ rows, p r = true → q r = true) :
    (rows.filter q).filter p = rows.filter p :=
  Table.filter_filter_of_imp h

/-- A condition that is another one on the part. -/
theorem filter_congr {q' : α → Bool} (h : ∀ r ∈ rows, p r = true → q' r = q r) :
    (rows.filter p).filter q' = (rows.filter q).filter p := by
  rw [List.filter_filter, List.filter_filter]
  apply List.filter_congr
  intro r hr
  cases hp : p r with
  | true => rw [h r hr hp, Bool.and_true, Bool.true_and]
  | false => rw [Bool.and_false, Bool.false_and]

/-- Updates that take no row out of the part or into it. -/
theorem filter_map {f : α → α} (h : ∀ r, p (f r) = p r) :
    (rows.filter p).map f = (rows.map f).filter p := by
  rw [List.filter_map]
  congr 1
  apply List.filter_congr
  exact fun r _ => (h r).symm

/-- Replacing in the part is replacing in the whole. -/
theorem replace_eq {row : α} (h : ∀ r ∈ rows, q r = true → p r = true) (hrow : p row = true) :
    (Table.replace q row rows).filter p = Table.replace q row (rows.filter p) := by
  apply Table.filter_replace_of_same
  intro r hr hq
  rw [h r hr hq, hrow]

/-- Rows of the part go into the part. -/
theorem append_eq {rows' : List α} (h : ∀ r ∈ rows', p r = true) :
    (rows ++ rows').filter p = rows.filter p ++ rows' := by
  rw [List.filter_append, List.filter_eq_self.mpr h]

/-- Rows of others do not show in it. -/
theorem append_other {rows' : List α} (h : ∀ r ∈ rows', p r = false) :
    (rows ++ rows').filter p = rows.filter p := by
  have hnone : rows'.filter p = [] := List.filter_eq_nil_iff.mpr (by simpa using h)
  rw [List.filter_append, hnone, List.append_nil]

/-- Only own rows are changed, and every row stays good. -/
structure Changed (own : α → Bool) (good : α → Prop) (rows rows' : List α) : Prop where
  outside : ∀ p : α → Bool, (∀ r, p r = true → own r = false) → rows'.filter p = rows.filter p
  keeps : (∀ r ∈ rows, good r) → ∀ r ∈ rows', good r

namespace Changed

variable {own : α → Bool} {good : α → Prop} {rows' rows'' : List α}

theorem refl : Changed own good rows rows :=
  ⟨fun _ _ => rfl, fun h => h⟩

theorem trans (h : Changed own good rows rows') (h' : Changed own good rows' rows'') :
    Changed own good rows rows'' :=
  ⟨fun p hp => (h'.outside p hp).trans (h.outside p hp), fun hgood => h'.keeps (h.keeps hgood)⟩

theorem append (h : ∀ r ∈ rows', own r = true ∧ good r) :
    Changed own good rows (rows ++ rows') where
  outside p hp := by
    apply append_other
    intro r hr
    cases hselected : p r with
    | false => rfl
    | true => exact absurd (hp r hselected) (by rw [(h r hr).1]; decide)
  keeps hgood r hr := by
    rcases List.mem_append.mp hr with hr | hr
    · exact hgood r hr
    · exact (h r hr).2

theorem delete (h : ∀ r ∈ rows, q r = false → own r = true) :
    Changed own good rows (rows.filter q) where
  outside p hp := by
    apply filter_other
    intro r hr hselected
    cases hq : q r with
    | true => rfl
    | false => exact absurd (hp r hselected) (by rw [h r hr hq]; decide)
  keeps hgood r hr := hgood r (List.mem_filter.mp hr).1

/-- Replacing a row of one's own by one of one's own changes nothing of others'. -/
theorem replace {row : α} (h : ∀ r ∈ rows, q r = true → own r = true) (hown : own row = true)
    (hgood : good row) : Changed own good rows (Table.replace q row rows) where
  outside p hp := by
    apply Table.filter_replace_of_disjoint
    · cases hselected : p row with
      | false => rfl
      | true => exact absurd (hp row hselected) (by rw [hown]; decide)
    · intro r hr hq
      cases hselected : p r with
      | false => rfl
      | true => exact absurd (hp r hselected) (by rw [h r hr hq]; decide)
  keeps hall r hr := by
    rcases Table.mem_replace hr with rfl | ⟨hr, _⟩
    · exact hgood
    · exact hall r hr

/-- Nor does an update that leaves the rows of others. -/
theorem map {f : α → α} (houtside : ∀ r ∈ rows, own r = false → f r = r)
    (hown : ∀ r, own (f r) = own r) (hgood : ∀ r, good r → good (f r)) :
    Changed own good rows (rows.map f) where
  outside p hp := by
    induction rows with
    | nil => rfl
    | cons r rows ih =>
        have hrest := ih fun r hr => houtside r (List.mem_cons_of_mem _ hr)
        cases hthis : own r with
        | false =>
            rw [List.map_cons, houtside r List.mem_cons_self hthis, List.filter_cons, hrest,
              List.filter_cons]
        | true =>
            have hnone : ∀ x, own x = true → ¬p x = true := fun x hx hselected => by
              rw [hp x hselected] at hx
              cases hx
            rw [List.map_cons, List.filter_cons_of_neg (hnone _ ((hown r).trans hthis)), hrest,
              List.filter_cons_of_neg (hnone _ hthis)]
  keeps hall r hr := by
    obtain ⟨old, hold, rfl⟩ := List.mem_map.mp hr
    exact hgood old (hall old hold)

end Changed

end Part

/-! ### Confined programs -/

namespace Prog

/-- As long as its answers are of the kind `R`, the program issues statements of the kind `G`, and its
    result is of the kind `Q`. -/
def Confined (R : (s : Stmt) → Resp s → Prop) (G : Stmt → Prop) (Q : α → Prop) :
    Prog Stmt Resp α → Prop
  | .done a => Q a
  | .call s k => G s ∧ ∀ r, R s r → Confined R G Q (k r)

variable {R : (s : Stmt) → Resp s → Prop} {G : Stmt → Prop}

theorem Confined.mono {Q Q' : α → Prop} (hQ : ∀ a, Q a → Q' a) {p : Prog Stmt Resp α} :
    Confined R G Q p → Confined R G Q' p := by
  induction p with
  | done a => exact hQ a
  | call s k ih => exact fun h => ⟨h.1, fun r hr => ih r (h.2 r hr)⟩

/-- Kinds that every statement and every result is of. -/
theorem confined_of_forall {Q : α → Prop} (hG : ∀ s, G s) (hQ : ∀ a, Q a) {p : Prog Stmt Resp α} :
    Confined R G Q p := by
  induction p with
  | done a => exact hQ a
  | call s k ih => exact ⟨hG s, fun r _ => ih r⟩

/-- What holds whatever the answers are is an obligation kept. -/
theorem Confined.obeys {Q : α → Prop} {p : Prog Stmt Resp α} : ∀ {log : Log Stmt Resp},
    Confined (fun _ _ => True) G Q p → Obeys (fun _ s => G s) (fun _ a => Q a) log p := by
  induction p with
  | done a => exact fun h => h
  | call s k ih => exact fun h => ⟨h.1, fun r => ih r (h.2 r trivial)⟩

/-- The rule of sequencing. -/
theorem confined_bind {Q : β → Prop} {p : Prog Stmt Resp α} {f : α → Prog Stmt Resp β} :
    Confined R G (fun a => Confined R G Q (f a)) p → Confined R G Q (p.bind f) := by
  induction p with
  | done a => exact fun h => h
  | call s k ih => exact fun h => ⟨h.1, fun r hr => ih r (h.2 r hr)⟩

/-- A program over one kind of statements as a program over a wider one. -/
def embed (f : Stmt → Stmt') (back : (s : Stmt) → Resp' (f s) → Resp s) :
    Prog Stmt Resp α → Prog Stmt' Resp' α
  | .done a => .done a
  | .call s k => .call (f s) fun r => embed f back (k (back s r))

/-- A confined program stays so under the statements of a larger store. -/
theorem confined_embed {f : Stmt → Stmt'} {back : (s : Stmt) → Resp' (f s) → Resp s}
    {R' : (s : Stmt') → Resp' s → Prop} {G' : Stmt' → Prop} {Q : α → Prop}
    (hG : ∀ s, G s → G' (f s)) (hR : ∀ s r, R' (f s) r → R s (back s r)) {p : Prog Stmt Resp α} :
    Confined R G Q p → Confined R' G' Q (p.embed f back) := by
  induction p with
  | done a => exact fun h => h
  | call s k ih => exact fun h => ⟨hG s h.1, fun r hr => ih _ (h.2 _ (hR s r hr))⟩

/-- An embedded program on a store that the narrower one is a part of. -/
theorem runAlone_embed {Db' Input' : Type} {exec : Input → (s : Stmt) → Db → Resp s × Db}
    {exec' : Input' → (s : Stmt') → Db' → Resp' s × Db'} {f : Stmt → Stmt'}
    {back : (s : Stmt) → Resp' (f s) → Resp s} (part : Db' → Db) (narrow : Input' → Input)
    (hexec : ∀ input s db, back s (exec' input (f s) db).1 = (exec (narrow input) s (part db)).1 ∧
      part (exec' input (f s) db).2 = (exec (narrow input) s (part db)).2)
    {p : Prog Stmt Resp α} : ∀ {inputs : Nat → Input'} {db : Db'},
      (runAlone exec' inputs (p.embed f back) db).1 =
        (runAlone exec (fun n => narrow (inputs n)) p (part db)).1 := by
  induction p with
  | done a => exact rfl
  | call s k ih =>
      intro inputs db
      obtain ⟨hanswer, hpart⟩ := hexec (inputs 0) s db
      rw [embed, runAlone, runAlone, ih, hanswer, hpart]

/-- What only computes with the result runs on as the program does. -/
theorem runAlone_bind_done {exec : Input → (s : Stmt) → Db → Resp s × Db} {g : α → β}
    {p : Prog Stmt Resp α} : ∀ {inputs : Nat → Input} {db : Db},
      (runAlone exec inputs (p.bind fun a => .done (g a)) db).1 =
        g (runAlone exec inputs p db).1 := by
  induction p with
  | done a => exact rfl
  | call s k ih => exact ih _

/-- An embedded program keeps its obligations, on a log that `M` relates to its own. -/
theorem obeys_embed {f : Stmt → Stmt'} {back : (s : Stmt) → Resp' (f s) → Resp s}
    {M : Log Stmt Resp → Log Stmt' Resp' → Prop} {P : Log Stmt Resp → Stmt → Prop}
    {P' : Log Stmt' Resp' → Stmt' → Prop} {Q : Log Stmt Resp → α → Prop} {Q' : α → Prop}
    (hnext : ∀ {log log'} s r, M log log' → M (⟨s, back s r⟩ :: log) (⟨f s, r⟩ :: log'))
    (hP : ∀ {log log' s}, M log log' → P log s → P' log' (f s))
    (hQ : ∀ log a, Q log a → Q' a) {p : Prog Stmt Resp α} : ∀ {log : Log Stmt Resp}
      {log' : Log Stmt' Resp'}, M log log' → Obeys P Q log p →
        Obeys P' (fun _ => Q') log' (p.embed f back) := by
  induction p with
  | done a => exact fun _ h => hQ _ a h
  | call s k ih => exact fun hlog h => ⟨hP hlog h.1, fun r => ih _ (hnext s r hlog) (h.2 _)⟩

end Prog

namespace Fallible

variable {R : (s : Stmt) → Resp s → Prop} {G : Stmt → Prop}

/-- Confined, as far as a success goes. -/
def Confined (R : (s : Stmt) → Resp s → Prop) (G : Stmt → Prop) (Q : α → Prop)
    (p : Fallible Stmt Resp ε α) : Prop :=
  Prog.Confined R G (fun r => ∀ a, r = .ok a → Q a) p.run

/-- A result asks for nothing. -/
theorem confined_pure {Q : α → Prop} {a : α} (h : Q a) :
    Confined R G Q (pure a : Fallible Stmt Resp ε α) := by
  intro b heq
  cases heq
  exact h

/-- Nor does an error. -/
theorem confined_throw {Q : α → Prop} {e : ε} :
    Confined R G Q (throw e : Fallible Stmt Resp ε α) := by
  intro b heq
  cases heq

theorem confined_bind {Q : β → Prop} {p : Fallible Stmt Resp ε α}
    {f : α → Fallible Stmt Resp ε β} (h : Confined R G (fun a => Confined R G Q (f a)) p) :
    Confined R G Q (p >>= f) := by
  apply Prog.confined_bind
  apply Prog.Confined.mono _ h
  intro r hr
  cases r with
  | ok a => exact hr a rfl
  | error e => exact fun _ heq => by cases heq

/-- Changing the type of the errors confines as before. -/
theorem confined_adapt {Q : α → Prop} {p : Fallible Stmt Resp ε α} {f : ε → ε'}
    (h : Confined R G Q p) : Confined R G Q (p.adapt f) := by
  apply Prog.confined_bind
  apply Prog.Confined.mono _ h
  intro r hr a heq
  cases r with
  | ok b =>
      cases heq
      exact hr _ rfl
  | error e => cases heq

/-- A computation without statements. -/
theorem confined_except {Q : α → Prop} {r : Except ε α} (h : ∀ a, r = .ok a → Q a) :
    Confined R G Q (ExceptT.mk (.done r) : Fallible Stmt Resp ε α) :=
  h

theorem Confined.mono {Q Q' : α → Prop} {p : Fallible Stmt Resp ε α} (hQ : ∀ a, Q a → Q' a)
    (h : Confined R G Q p) : Confined R G Q' p :=
  Prog.Confined.mono (fun _ hr a ha => hQ a (hr a ha)) h

/-- What the first part hands over is what the rest relies on. -/
theorem confined_seq {P : α → Prop} {Q : β → Prop} {p : Fallible Stmt Resp ε α}
    {f : α → Fallible Stmt Resp ε β} (hp : Confined R G P p)
    (hf : ∀ a, P a → Confined R G Q (f a)) : Confined R G Q (p >>= f) :=
  confined_bind (hp.mono hf)

end Fallible

/-! ### Tenancies -/

/-- How the statements of tenants share a store. An assumption on the inputs says what the store
    supplies for a tenant, such as identifiers that nobody else has. -/
structure Tenancy (exec : Input → (s : Stmt) → Db → Resp s × Db) (Tenant : Type) where
  /-- The tenant's part of the store. -/
  view : Tenant → Db → Db
  /-- No row belongs to two tenants. -/
  Separate : Db → Prop
  Own : Tenant → Stmt → Prop
  Answer : Tenant → (s : Stmt) → Resp s → Prop
  Supplied : Tenant → Stmt → Input → Prop
  separate : ∀ {t s input db}, Own t s → Supplied t s input → Separate db →
    Separate (exec input s db).2
  answer : ∀ {t s input db}, Own t s → Supplied t s input → Separate db →
    Answer t s (exec input s db).1
  /-- A statement does to the tenant's part what it does to the whole, and answers alike. -/
  sees : ∀ {t s input db}, Own t s → Supplied t s input → Separate db →
    exec input s (view t db) = ((exec input s db).1, view t (exec input s db).2)
  /-- It changes no other tenant's part. -/
  spares : ∀ {t t' s input db}, Own t s → Supplied t s input → Separate db → t' ≠ t →
    view t' (exec input s db).2 = view t' db

namespace Tenancy

variable {exec : Input → (s : Stmt) → Db → Resp s × Db} {Tenant Call : Type}

/-- Related lists, split at an element of the second one. -/
theorem forall₂_split {R : α → β → Prop} {y : β} {after : List β} :
    ∀ {before : List β} {xs : List α}, List.Forall₂ R xs (before ++ y :: after) →
      ∃ first x rest, xs = first ++ x :: rest ∧ List.Forall₂ R first before ∧ R x y ∧
        List.Forall₂ R rest after
  | [], _, .cons hxy hrest => ⟨[], _, _, rfl, .nil, hxy, hrest⟩
  | _ :: _, _, .cons hhead htail => by
      obtain ⟨first, x, rest, hxs, hfirst, hxy, hrest⟩ := forall₂_split htail
      exact ⟨_ :: first, x, rest, by rw [hxs]; rfl, .cons hhead hfirst, hxy, hrest⟩

section Select

variable [DecidableEq Tenant] (owner : Call → Tenant) (t : Tenant)

/-- The entries that stand beside the tenant's calls. -/
def select (calls : List Call) (xs : List β) : List β :=
  ((calls.zip xs).filter fun entry => owner entry.1 = t).map Prod.snd

variable {owner t}

/-- Choosing the own among more calls. -/
theorem select_append {calls calls' : List Call} {xs xs' : List β} (h : calls.length = xs.length) :
    select owner t (calls ++ calls') (xs ++ xs') =
      select owner t calls xs ++ select owner t calls' xs' := by
  rw [select, List.zip_append h, List.filter_append, List.map_append]
  rfl

theorem select_cons_own {c : Call} {calls : List Call} {x : β} {xs : List β} (h : owner c = t) :
    select owner t (c :: calls) (x :: xs) = x :: select owner t calls xs := by
  rw [select, List.zip_cons_cons, List.filter_cons_of_pos (by simpa using h), List.map_cons]
  rfl

theorem select_cons_foreign {c : Call} {calls : List Call} {x : β} {xs : List β}
    (h : owner c ≠ t) : select owner t (c :: calls) (x :: xs) = select owner t calls xs := by
  rw [select, List.zip_cons_cons, List.filter_cons_of_neg (by simpa using h)]
  rfl

/-- Calls that changed, but not their owners. -/
theorem select_map {f : Call → Call} {calls : List Call} (hf : ∀ c, owner (f c) = owner c) :
    ∀ {xs : List β}, select owner t (calls.map f) xs = select owner t calls xs := by
  induction calls with
  | nil => exact rfl
  | cons c calls ih =>
      intro xs
      cases xs with
      | nil => rfl
      | cons x xs =>
          rw [List.map_cons]
          by_cases h : owner c = t
          · rw [select_cons_own ((hf c).trans h), select_cons_own h, ih]
          · rw [select_cons_foreign (hf c ▸ h), select_cons_foreign h, ih]

/-- The calls of the tenant with what stands beside them. -/
theorem zipWith_select {f : β → Call → γ} {p : γ → Bool} (hp : ∀ x c, p (f x c) = decide (owner c = t)) :
    ∀ {calls : List Call} {xs : List β},
      List.zipWith f (select owner t calls xs) (calls.filter fun c => owner c = t) =
        (List.zipWith f xs calls).filter p
  | [], [] => rfl
  | [], _ :: _ => rfl
  | c :: calls, [] => by simp [select]
  | c :: calls, x :: xs => by
      by_cases h : owner c = t
      · rw [select_cons_own h, List.filter_cons_of_pos (by simpa using h), List.zipWith_cons_cons,
          List.zipWith_cons_cons, List.filter_cons_of_pos (by simpa [hp] using h),
          zipWith_select hp]
      · rw [select_cons_foreign h, List.filter_cons_of_neg (by simpa using h),
          List.zipWith_cons_cons, List.filter_cons_of_neg (by simpa [hp] using h),
          zipWith_select hp]

end Select

variable (T : Tenancy exec Tenant) {owner : Call → Tenant} {program : Call → Prog Stmt Resp α}
variable {Q : α → Prop} {initial : Db} {calls : List Call} {events : List (Pool.Event Stmt Db Input)}
variable {pool : Pool Stmt Resp α Db}

/-- The program of a call is confined to what its owner has. -/
def Confines (owner : Call → Tenant) (program : Call → Prog Stmt Resp α) (c : Call) : Prop :=
  (program c).Confined (T.Answer (owner c)) (T.Own (owner c)) fun _ => True

/-- What the store supplied was supplied for the owner of the thread that got it. -/
def SuppliedTo (owner : Call → Tenant) (calls : List Call)
    (events : List (Pool.Event Stmt Db Input)) : Prop :=
  ∀ e ∈ events, ∀ c, calls[e.thread]? = some c → T.Supplied (owner c) e.stmt e.input

variable {T}

theorem SuppliedTo.of_cons {e : Pool.Event Stmt Db Input}
    (h : T.SuppliedTo owner calls (e :: events)) : T.SuppliedTo owner calls events :=
  fun e he => h e (List.mem_cons_of_mem _ he)

theorem SuppliedTo.of_append {later : List Call}
    (h : T.SuppliedTo owner (calls ++ later) events) : T.SuppliedTo owner calls events := by
  intro e he c hc
  apply h e he
  rw [List.getElem?_append_left (List.getElem?_eq_some_iff.mp hc).1]
  exact hc

/-- A run of calls: what is left of a call's program stays confined, and the store separate. -/
theorem kept {origins : List (Prog Stmt Resp α)}
    (h : Pool.Traced exec initial origins events pool) (hinitial : T.Separate initial) :
    ∀ {calls : List Call}, origins = calls.map program →
      (∀ c ∈ calls, T.Confines owner program c) → T.SuppliedTo owner calls events →
      T.Separate pool.db ∧ List.Forall₂ (fun c thread =>
        thread.prog.Confined (T.Answer (owner c)) (T.Own (owner c)) fun _ => True) calls
        pool.threads := by
  induction h with
  | start =>
      intro calls horigins _ _
      cases List.map_eq_nil_iff.mp horigins.symm
      exact ⟨hinitial, .nil⟩
  | @spawn origins events db threads p _ ih =>
      intro calls horigins hconfined hsupplied
      obtain ⟨first, rest, rfl, hfirst, hrest⟩ := List.map_eq_append_iff.mp horigins.symm
      obtain ⟨c, rfl, rfl⟩ := List.map_eq_singleton_iff.mp hrest
      obtain ⟨hseparate, hthreads⟩ := ih hfirst.symm
        (fun c hc => hconfined c (List.mem_append_left _ hc)) hsupplied.of_append
      refine ⟨hseparate, List.rel_append hthreads (.cons ?_ .nil)⟩
      exact hconfined c (by simp)
  | @run origins events db before after log s k input _ ih =>
      intro calls horigins hconfined hsupplied
      obtain ⟨hseparate, hthreads⟩ := ih horigins hconfined hsupplied.of_cons
      obtain ⟨first, c, rest, rfl, hfirst, hcall, hrest⟩ := forall₂_split hthreads
      have hinput := hsupplied _ List.mem_cons_self c (by simp [hfirst.length_eq])
      refine ⟨T.separate hcall.1 hinput hseparate, List.rel_append hfirst (.cons ?_ hrest)⟩
      exact hcall.2 _ (T.answer hcall.1 hinput hseparate)

/-- Every statement was one of the owner of its call, on a separate store. -/
theorem owned {origins : List (Prog Stmt Resp α)}
    (h : Pool.Traced exec initial origins events pool) (hinitial : T.Separate initial) :
    ∀ {calls : List Call}, origins = calls.map program →
      (∀ c ∈ calls, T.Confines owner program c) → T.SuppliedTo owner calls events →
      ∀ e ∈ events, ∀ c, calls[e.thread]? = some c → T.Separate e.before ∧
        T.Own (owner c) e.stmt ∧ T.Supplied (owner c) e.stmt e.input := by
  induction h with
  | start => exact fun _ _ _ e he => by cases he
  | @spawn origins events db threads p hrun ih =>
      intro calls horigins hconfined hsupplied e he c hc
      obtain ⟨first, rest, rfl, hfirst, hrest⟩ := List.map_eq_append_iff.mp horigins.symm
      have hlength : e.thread < first.length := by
        have := hrun.length_eq.2 e he
        rw [← hrun.length_eq.1, ← hfirst, List.length_map] at this
        exact this
      rw [List.getElem?_append_left hlength] at hc
      exact ih hfirst.symm (fun c hc => hconfined c (List.mem_append_left _ hc))
        (hsupplied.of_append) e he c hc
  | @run origins events db before after log s k input hrun ih =>
      intro calls horigins hconfined hsupplied e he c hc
      rcases List.mem_cons.mp he with rfl | he
      · obtain ⟨hseparate, hthreads⟩ := kept hrun hinitial horigins hconfined hsupplied.of_cons
        obtain ⟨first, c', rest, rfl, hfirst, hcall, _⟩ := forall₂_split hthreads
        have hthis : (first ++ c' :: rest)[before.length]? = some c' := by
          simp [hfirst.length_eq]
        cases hthis.symm.trans hc
        exact ⟨hseparate, hcall.1, hsupplied _ List.mem_cons_self _ hthis⟩
      · exact ih horigins hconfined hsupplied.of_cons e he c hc

/-- Whether the thread of the event runs a call of the tenant. -/
def ownEvent [DecidableEq Tenant] (owner : Call → Tenant) (t : Tenant) (calls : List Call)
    (e : Pool.Event Stmt Db Input) : Bool :=
  calls[e.thread]?.any fun c => owner c = t

/-- Some of the events, of which none that is left out is the tenant's. -/
inductive Thinned (own : Pool.Event Stmt Db Input → Bool) :
    List (Pool.Event Stmt Db Input) → List (Pool.Event Stmt Db Input) → Prop where
  | nil : Thinned own [] []
  | keep {kept events : List (Pool.Event Stmt Db Input)} (e : Pool.Event Stmt Db Input)
      (h : Thinned own kept events) : Thinned own (e :: kept) (e :: events)
  | drop {kept events : List (Pool.Event Stmt Db Input)} (e : Pool.Event Stmt Db Input)
      (hforeign : own e = false) (h : Thinned own kept events) : Thinned own kept (e :: events)

namespace Thinned

variable {own : Pool.Event Stmt Db Input → Bool} {kept : List (Pool.Event Stmt Db Input)}

/-- Nothing but the tenant's own events need be kept. -/
theorem filter : Thinned own (events.filter own) events := by
  induction events with
  | nil => exact .nil
  | cons e events ih =>
      cases hown : own e with
      | true =>
          rw [List.filter_cons_of_pos hown]
          exact .keep e ih
      | false =>
          rw [List.filter_cons_of_neg (by simp [hown])]
          exact .drop e hown ih

/-- What is kept before an event is some of what was there before it. -/
theorem split {e : Pool.Event Stmt Db Input} {earlier : List (Pool.Event Stmt Db Input)}
    (h : Thinned own kept events) : ∀ {later : List (Pool.Event Stmt Db Input)},
      kept = later ++ e :: earlier →
        ∃ later' earlier', events = later' ++ e :: earlier' ∧ Thinned own earlier earlier' := by
  induction h with
  | nil =>
      intro later heq
      simp at heq
  | @keep kept events e' h ih =>
      intro later heq
      cases later with
      | nil =>
          rw [List.nil_append, List.cons.injEq] at heq
          obtain ⟨rfl, rfl⟩ := heq
          exact ⟨[], events, rfl, h⟩
      | cons e'' later =>
          rw [List.cons_append, List.cons.injEq] at heq
          obtain ⟨later', earlier', hevents, hearlier⟩ := ih heq.2
          exact ⟨e' :: later', earlier', by rw [hevents, List.cons_append], hearlier⟩
  | @drop kept events e' _ _ ih =>
      intro later heq
      obtain ⟨later', earlier', hevents, hearlier⟩ := ih heq
      exact ⟨e' :: later', earlier', by rw [hevents, List.cons_append], hearlier⟩

end Thinned

/-- Events whose statements are those of the owners of their calls. -/
def Executed (T : Tenancy exec Tenant) (owner : Call → Tenant) (calls : List Call)
    (events : List (Pool.Event Stmt Db Input)) : Prop :=
  ∀ e ∈ events, ∃ c, calls[e.thread]? = some c ∧ T.Own (owner c) e.stmt ∧
    T.Supplied (owner c) e.stmt e.input

theorem Executed.of_cons {e : Pool.Event Stmt Db Input}
    (h : T.Executed owner calls (e :: events)) : T.Executed owner calls events :=
  fun e he => h e (List.mem_cons_of_mem _ he)

/-- Executing some of the statements, the tenant's among them, leaves the tenant with what executing
    all of them does. -/
theorem view_replay [DecidableEq Tenant] {t : Tenant} {kept : List (Pool.Event Stmt Db Input)}
    (h : Thinned (ownEvent owner t calls) kept events) (hinitial : T.Separate initial)
    (hexecuted : T.Executed owner calls events) :
    T.Separate (Pool.replay exec initial kept) ∧ T.Separate (Pool.replay exec initial events) ∧
      T.view t (Pool.replay exec initial kept) = T.view t (Pool.replay exec initial events) := by
  induction h with
  | nil => exact ⟨hinitial, hinitial, rfl⟩
  | @keep kept events e _ ih =>
      obtain ⟨hkept, hall, hview⟩ := ih hexecuted.of_cons
      obtain ⟨c, _, hown, hsupplied⟩ := hexecuted e List.mem_cons_self
      refine ⟨T.separate hown hsupplied hkept, T.separate hown hsupplied hall, ?_⟩
      simp only [Pool.replay]
      by_cases hmine : owner c = t
      · -- an own statement does to both parts alike
        subst hmine
        have hleft := congrArg Prod.snd (T.sees hown hsupplied hkept)
        have hright := congrArg Prod.snd (T.sees hown hsupplied hall)
        rw [hview] at hleft
        exact hleft.symm.trans hright
      · have hother : t ≠ owner c := Ne.symm hmine
        rw [T.spares hown hsupplied hkept hother, T.spares hown hsupplied hall hother, hview]
  | @drop kept events e hforeign _ ih =>
      obtain ⟨hkept, hall, hview⟩ := ih hexecuted.of_cons
      obtain ⟨c, hc, hown, hsupplied⟩ := hexecuted e List.mem_cons_self
      have hother : t ≠ owner c := by
        rintro rfl
        simp [ownEvent, hc] at hforeign
      refine ⟨hkept, T.separate hown hsupplied hall, ?_⟩
      rw [Pool.replay, T.spares hown hsupplied hall hother, hview]

/-- Statements of others can be left out of a run wherever they stand: each statement of the tenant is
    answered as it was in the run, and the tenant has, before each and in the end, what it had there. -/
theorem thinned [DecidableEq Tenant] {origins : List (Prog Stmt Resp α)} {t : Tenant}
    {kept : List (Pool.Event Stmt Db Input)}
    (h : Pool.Traced exec initial origins events pool) (hinitial : T.Separate initial)
    (horigins : origins = calls.map program) (hconfined : ∀ c ∈ calls, T.Confines owner program c)
    (hsupplied : T.SuppliedTo owner calls events)
    (hkept : Thinned (ownEvent owner t calls) kept events) :
    T.view t (Pool.replay exec initial kept) = T.view t pool.db ∧
      ∀ later e earlier, kept = later ++ e :: earlier → ownEvent owner t calls e = true →
        (exec e.input e.stmt (Pool.replay exec initial earlier)).1 = e.answer exec ∧
          T.view t (Pool.replay exec initial earlier) = T.view t e.before := by
  have hexecuted : T.Executed owner calls events := by
    intro e he
    have hlength : e.thread < calls.length := by
      have hbound := h.length_eq.2 e he
      rwa [← h.length_eq.1, horigins, List.length_map] at hbound
    have hcall := List.getElem?_eq_getElem hlength
    obtain ⟨_, hown, hinput⟩ := owned h hinitial horigins hconfined hsupplied e he _ hcall
    exact ⟨_, hcall, hown, hinput⟩
  refine ⟨?_, ?_⟩
  · rw [(view_replay hkept hinitial hexecuted).2.2, h.replay_eq]
  · intro later e earlier heq hmine
    obtain ⟨later', earlier', hevents, hthinned⟩ := hkept.split heq
    have hbefore : T.Executed owner calls earlier' := by
      intro e' he'
      apply hexecuted
      rw [hevents]
      exact List.mem_append_right _ (List.mem_cons_of_mem _ he')
    obtain ⟨hseparate, hseparate', hview⟩ := view_replay hthinned hinitial hbefore
    rw [h.replay_before hevents] at hseparate' hview
    obtain ⟨c, hc, hown, hinput⟩ := hexecuted e (by rw [hevents]; simp)
    have ht : owner c = t := by simpa [ownEvent, hc] using hmine
    subst ht
    refine ⟨?_, hview⟩
    have hleft := congrArg Prod.fst (T.sees hown hinput hseparate)
    have hright := congrArg Prod.fst (T.sees hown hinput hseparate')
    rw [hview] at hleft
    exact hleft.symm.trans hright

/-- What the event says apart from the number of its thread. -/
def content (e : Pool.Event Stmt Db Input) : Input × Stmt × Db :=
  (e.input, e.stmt, e.before)

/-- In a run of everybody's calls, the threads of one tenant run as they would alone on the tenant's
    part of the store: with the same statements, inputs and answers, in the same order. -/
theorem projected [DecidableEq Tenant] {origins : List (Prog Stmt Resp α)} {t : Tenant}
    (h : Pool.Traced exec initial origins events pool) (hinitial : T.Separate initial) :
    ∀ {calls : List Call}, origins = calls.map program →
      (∀ c ∈ calls, T.Confines owner program c) → T.SuppliedTo owner calls events →
      ∃ seen, Pool.Traced exec (T.view t initial)
          ((calls.filter fun c => owner c = t).map program) seen
          ⟨T.view t pool.db, select owner t calls pool.threads⟩ ∧
        seen.map content = (events.filter (ownEvent owner t calls)).map fun e =>
          (e.input, e.stmt, T.view t e.before) := by
  induction h with
  | start =>
      intro calls horigins _ _
      cases List.map_eq_nil_iff.mp horigins.symm
      exact ⟨[], .start, rfl⟩
  | @spawn origins events db threads p hrun ih =>
      intro calls horigins hconfined hsupplied
      obtain ⟨first, rest, rfl, hfirst, hrest⟩ := List.map_eq_append_iff.mp horigins.symm
      obtain ⟨c, rfl, rfl⟩ := List.map_eq_singleton_iff.mp hrest
      have hlength : first.length = threads.length := by
        rw [← List.length_map program, hfirst]
        exact hrun.length_eq.1
      obtain ⟨seen, hseen, hcontent⟩ := ih hfirst.symm
        (fun c hc => hconfined c (List.mem_append_left _ hc)) hsupplied.of_append
      have hevents : events.filter (ownEvent owner t (first ++ [c])) =
          events.filter (ownEvent owner t first) := by
        apply List.filter_congr
        intro e he
        rw [ownEvent, ownEvent, List.getElem?_append_left]
        rw [hlength]
        exact hrun.length_eq.2 e he
      rw [hevents, select_append hlength, List.filter_append]
      by_cases hown : owner c = t
      · refine ⟨seen, ?_, hcontent⟩
        rw [List.filter_cons_of_pos (by simpa using hown), select_cons_own hown, List.map_append]
        exact hseen.spawn (program c)
      · refine ⟨seen, ?_, hcontent⟩
        rw [List.filter_cons_of_neg (by simpa using hown), select_cons_foreign hown]
        simpa [select] using hseen
  | @run origins events db before after log s k input hrun ih =>
      intro calls horigins hconfined hsupplied
      obtain ⟨seen, hseen, hcontent⟩ := ih horigins hconfined hsupplied.of_cons
      obtain ⟨hseparate, hthreads⟩ := kept hrun hinitial horigins hconfined hsupplied.of_cons
      obtain ⟨first, c, rest, rfl, hfirst, hcall, _⟩ := forall₂_split hthreads
      have hthis : (first ++ c :: rest)[before.length]? = some c := by simp [hfirst.length_eq]
      have hinput := hsupplied _ List.mem_cons_self c hthis
      rw [select_append hfirst.length_eq] at hseen ⊢
      by_cases hown : owner c = t
      · -- the tenant's own thread takes the step on the tenant's part
        subst hown
        rw [select_cons_own rfl] at hseen ⊢
        have hstep := hseen.run input
        rw [T.sees hcall.1 hinput hseparate] at hstep
        refine ⟨_, hstep, ?_⟩
        rw [List.filter_cons_of_pos (by simp [ownEvent, hthis]), List.map_cons, List.map_cons,
          hcontent]
        rfl
      · -- somebody else's thread does not show
        rw [select_cons_foreign hown] at hseen ⊢
        rw [T.spares hcall.1 hinput hseparate (Ne.symm hown)]
        refine ⟨seen, hseen, ?_⟩
        rw [List.filter_cons_of_neg (by simpa [ownEvent, hthis] using hown)]
        exact hcontent

end Tenancy

end FlagForge
