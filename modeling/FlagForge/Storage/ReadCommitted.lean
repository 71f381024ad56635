/-
Module: FlagForge.Storage.ReadCommitted
Layer: Storage
Purpose: The two seeding transactions statement by statement. At read committed, each statement sees
  the rows committed when it starts and those of its own transaction; unique indexes and foreign keys
  are checked against the committed rows, and a statement waits for an open transaction that holds
  what it needs.
Imports: FlagForge.Storage.Effects, FlagForge.Lib.Transactions
Trusted boundary: none
Main exports: Tx, transactions, createFlag_alone, createEnvironment_alone
-/
import FlagForge.Storage.Effects
import FlagForge.Lib.Transactions

namespace FlagForge.Storage

open Sql (Input)

theorem ok_of_toOption {ε α : Type} {r : Except ε α} {a : α} (h : r.toOption = some a) :
    r = .ok a := by
  cases r with
  | ok b =>
      cases h
      rfl
  | error e => cases h

/-- The row that an open transaction has inserted. -/
inductive Own where
  | flag (row : FlagRow) (offVariant : String) (fallthrough : Distribution)
  | environment (row : EnvironmentRow)

def Own.isFlag : Own → Bool
  | .flag .. => true
  | .environment _ => false

/-- How far the seeding `INSERT … SELECT` is: not begun, with the rows that its snapshot gives it, or
    with these rows inserted and their references checked. -/
inductive Seeding where
  | pending
  | selected (configs : List ConfigRow)
  | inserted (configs : List ConfigRow)

/-- An open `create_flag` or `create_environment`. -/
structure Tx where
  input : Input
  own : Own
  seeding : Seeding

namespace Tx

def flags (tx : Tx) : List FlagRow :=
  match tx.own with
  | .flag row _ _ => [row]
  | .environment _ => []

def environments (tx : Tx) : List EnvironmentRow :=
  match tx.own with
  | .flag .. => []
  | .environment row => [row]

/-- Whether its seeding statement has its rows. -/
def hasSelected (tx : Tx) : Bool :=
  match tx.seeding with
  | .pending => false
  | _ => true

/-- The configurations it has inserted. -/
def inserted (tx : Tx) : List ConfigRow :=
  match tx.seeding with
  | .inserted configs => configs
  | _ => []

/-- What its statements see. -/
def visible (tx : Tx) (db : Db) : Db :=
  { db with
    flags := db.flags ++ tx.flags
    environments := db.environments ++ tx.environments
    flagConfigs := db.flagConfigs ++ tx.inserted }

/-- The rows that the `SELECT` of the seeding statement gives. -/
def select (projectId : Uuid) (tx : Tx) (db : Db) : Except Sql.SqlError (List ConfigRow) :=
  match tx.own with
  | .flag row offVariant fallthrough =>
      .ok ((Sql.environmentIds projectId (tx.visible db)).map fun id =>
        Sql.firstConfig tx.input row.id id offVariant fallthrough)
  | .environment row =>
      ((tx.visible db).flags.filter (·.projectId = projectId)).mapM fun flag =>
        Sql.seededConfig tx.input row.id flag (tx.visible db)

/-- The foreign keys of the rows, against what the transaction sees by now. -/
def referenced (tx : Tx) (db : Db) (configs : List ConfigRow) : Bool :=
  configs.all fun c => (tx.visible db).flags.any (·.id = c.flagId) &&
    (tx.visible db).environments.any (·.id = c.environmentId)

/-- The primary key of `flag_configs`, also against what the others have inserted. -/
def unique (db : Db) (others : List Tx) (configs : List ConfigRow) : Bool :=
  (db.flagConfigs ++ others.flatMap inserted).all fun c =>
    !configs.any (·.isFor c.flagId c.environmentId)

/-- The seeding statement: its snapshot, and then its rows. A statement that fails rolls the
    transaction back, which every open transaction may do at any time. -/
def advance (projectId : Uuid) (tx : Tx) (db : Db) (others : List Tx) : Option Tx :=
  match tx.seeding with
  | .pending =>
      (tx.select projectId db).toOption.map fun configs => { tx with seeding := .selected configs }
  | .selected configs =>
      if tx.referenced db configs && unique db others configs then
        some { tx with seeding := .inserted configs }
      else none
  | .inserted _ => none

def commit (tx : Tx) (db : Db) : Option Db :=
  match tx.seeding with
  | .inserted _ => some (tx.visible db)
  | _ => none

end Tx

/-- A first statement. -/
inductive Begin where
  | createFlag (input : Input) (key name : String) (description : Option String)
      (variants : List Variant) (offVariant : String) (fallthrough : Distribution)
  | createEnvironment (input : Input) (key name salt : String) (isProduction : Bool)

/-- The own row goes in. A row of another open transaction with its id or key makes it wait. -/
def Begin.start (projectId : Uuid) (db : Db) (opened : List Tx) : Begin → Option Tx
  | .createFlag input key name description variants offVariant fallthrough =>
      (Sql.insertFlag input projectId key name description variants db).toOption.bind fun row =>
        if opened.any fun tx => tx.flags.any fun f => f.id = row.id || f.isFor projectId key then
          none
        else some ⟨input, .flag row offVariant fallthrough, .pending⟩
  | .createEnvironment input key name salt isProduction =>
      (Sql.insertEnvironment input projectId key name salt isProduction db).toOption.bind fun row =>
        if opened.any fun tx =>
            tx.environments.any fun e => e.id = row.id || e.isFor projectId key then
          none
        else some ⟨input, .environment row, .pending⟩

/-- A statement outside of any transaction. -/
inductive Delete where
  | flag (key : String)
  | environment (key : String)

/-- A row that configurations of an open transaction reference is locked, so its delete waits. -/
def Delete.run (projectId : Uuid) (db : Db) (opened : List Tx) : Delete → Option Db
  | .flag key =>
      let ids := (db.flags.filter (·.isFor projectId key)).map FlagRow.id
      if opened.any fun tx => tx.inserted.any fun c => ids.contains c.flagId then none
      else (Sql.deleteFlag projectId key db).toOption.map Sql.Written.db
  | .environment key =>
      let ids := (db.environments.filter (·.isFor projectId key)).map EnvironmentRow.id
      if opened.any fun tx => tx.inserted.any fun c => ids.contains c.environmentId then none
      else (Sql.deleteEnvironment projectId key db).toOption.map Sql.Written.db

/-- The transactions on one project. -/
def transactions (projectId : Uuid) : System Db Tx Begin Delete where
  start b db opened := b.start projectId db opened
  advance := Tx.advance projectId
  commit := Tx.commit
  direct d db opened := d.run projectId db opened

/-! ### One transaction at a time -/

/-- The statements of one transaction with nothing in between. -/
def alone (b : Begin) : List (Sessions.Choice Begin Delete) :=
  [.start b, .advance 0, .advance 0, .commit 0]

variable {projectId : Uuid} {db : Db} {input : Input}

/-- One after another, transactions meet every guard that asks about the others only. -/
theorem allowed_alone {guard : Tx → Db → List Tx → Prop} {b : Begin}
    {rest : List (Sessions.Choice Begin Delete)} (hguard : ∀ tx db, guard tx db [])
    (hrest : ∀ db', Sessions.Allowed (transactions projectId) guard rest ⟨db', []⟩) :
    Sessions.Allowed (transactions projectId) guard (alone b ++ rest) ⟨db, []⟩ := by
  refine ⟨trivial, fun s hs => ?_⟩
  obtain ⟨tx, _, rfl⟩ := Option.map_eq_some_iff.mp hs
  refine ⟨fun _ _ => hguard _ _, fun s hs => ?_⟩
  obtain ⟨tx', _, hs⟩ := Option.bind_eq_some_iff.mp hs
  cases hs
  refine ⟨fun _ _ => hguard _ _, fun s hs => ?_⟩
  obtain ⟨tx'', _, hs⟩ := Option.bind_eq_some_iff.mp hs
  cases hs
  refine ⟨trivial, fun s hs => ?_⟩
  obtain ⟨db', _, hs⟩ := Option.bind_eq_some_iff.mp hs
  cases hs
  exact hrest db'

section

variable {b : Begin} {own : Own}

theorem choose_start (h : b.start projectId db [] = some ⟨input, own, .pending⟩) :
    Sessions.choose (transactions projectId) (.start b) ⟨db, []⟩ =
      some ⟨db, [⟨input, own, .pending⟩]⟩ :=
  congrArg (Option.map _) h

/-- A first statement that fails ends the transaction, -/
theorem follow_alone_none (h : b.start projectId db [] = none) :
    Sessions.follow (transactions projectId) (alone b) ⟨db, []⟩ = none := by
  have hfailed : Sessions.choose (transactions projectId) (.start b) ⟨db, []⟩ = none :=
    congrArg (Option.map _) h
  rw [alone, Sessions.follow, hfailed, Option.bind_none]

/-- and so does a seeding statement that fails. -/
theorem follow_alone_error {e : Sql.SqlError}
    (h : b.start projectId db [] = some ⟨input, own, .pending⟩)
    (hselect : Tx.select projectId ⟨input, own, .pending⟩ db = .error e) :
    Sessions.follow (transactions projectId) (alone b) ⟨db, []⟩ = none := by
  rw [alone, Sessions.follow, choose_start h, Option.bind_some, Sessions.follow]
  simp [Sessions.choose, transactions, Tx.advance, hselect, Except.toOption]

/-- The seeding statement and the commit, with nothing in between. -/
theorem follow_alone {configs : List ConfigRow}
    (h : b.start projectId db [] = some ⟨input, own, .pending⟩)
    (hselect : Tx.select projectId ⟨input, own, .pending⟩ db = .ok configs)
    (hreferenced : Tx.referenced ⟨input, own, .pending⟩ db configs = true) :
    Sessions.follow (transactions projectId) (alone b) ⟨db, []⟩ =
      if Tx.unique db [] configs then some ⟨Tx.visible ⟨input, own, .inserted configs⟩ db, []⟩
      else none := by
  have hselected : Sessions.choose (transactions projectId) (.advance 0)
      ⟨db, [⟨input, own, .pending⟩]⟩ = some ⟨db, [⟨input, own, .selected configs⟩]⟩ := by
    simp [Sessions.choose, transactions, Tx.advance, hselect, Except.toOption]
  have hadvance : Tx.advance projectId ⟨input, own, .selected configs⟩ db [] =
      if Tx.referenced ⟨input, own, .pending⟩ db configs && Tx.unique db [] configs then
        some ⟨input, own, .inserted configs⟩
      else none := rfl
  have hinserted : Sessions.choose (transactions projectId) (.advance 0)
      ⟨db, [⟨input, own, .selected configs⟩]⟩ =
        if Tx.unique db [] configs then some ⟨db, [⟨input, own, .inserted configs⟩]⟩ else none := by
    rw [hreferenced, Bool.true_and] at hadvance
    simp only [Sessions.choose, transactions, List.getElem?_cons_zero, List.eraseIdx_zero,
      List.tail_cons, Option.bind_eq_bind, Option.bind_some, hadvance]
    split <;> rfl
  rw [alone, Sessions.follow, choose_start h, Option.bind_some, Sessions.follow, hselected,
    Option.bind_some, Sessions.follow, hinserted]
  split <;> rfl

end

/-! The rows of an open transaction, seen from outside. -/

theorem visible_environment {row : EnvironmentRow} {configs : List ConfigRow} :
    Tx.visible ⟨input, .environment row, .inserted configs⟩ db =
      { db with
        environments := db.environments ++ [row]
        flagConfigs := db.flagConfigs ++ configs } := by
  simp [Tx.visible, Tx.flags, Tx.environments, Tx.inserted]

theorem visible_flag {row : FlagRow} {offVariant : String} {fallthrough : Distribution}
    {configs : List ConfigRow} :
    Tx.visible ⟨input, .flag row offVariant fallthrough, .inserted configs⟩ db =
      { db with flags := db.flags ++ [row], flagConfigs := db.flagConfigs ++ configs } := by
  simp [Tx.visible, Tx.flags, Tx.environments, Tx.inserted]

/-- With the database to itself, `create_flag` does what it does as one statement. -/
theorem createFlag_alone {key name : String} {description : Option String}
    {variants : List Variant} {offVariant : String} {fallthrough : Distribution} :
    Sessions.follow (transactions projectId)
      (alone (.createFlag input key name description variants offVariant fallthrough)) ⟨db, []⟩ =
    (Sql.createFlag input projectId key name description variants offVariant fallthrough
      db).toOption.map fun w => ⟨w.db, []⟩ := by
  rw [Sql.createFlag]
  cases hrow : Sql.insertFlag input projectId key name description variants db with
  | error e =>
      rw [follow_alone_none (by rw [Begin.start, hrow]; rfl)]
      rfl
  | ok row =>
      have hstart : (Begin.createFlag input key name description variants offVariant
          fallthrough).start projectId db [] =
            some ⟨input, .flag row offVariant fallthrough, .pending⟩ := by
        simp [Begin.start, hrow, Except.toOption]
      have hselect : Tx.select projectId ⟨input, .flag row offVariant fallthrough, .pending⟩ db =
          .ok ((Sql.environmentIds projectId db).map fun id =>
            Sql.firstConfig input row.id id offVariant fallthrough) := by
        simp [Tx.select, Sql.environmentIds, Tx.visible, Tx.environments]
      have hreferenced : Tx.referenced ⟨input, .flag row offVariant fallthrough, .pending⟩ db
          ((Sql.environmentIds projectId db).map fun id =>
            Sql.firstConfig input row.id id offVariant fallthrough) = true := by
        apply List.all_eq_true.mpr
        intro c hc
        obtain ⟨id, hid, rfl⟩ := List.mem_map.mp hc
        obtain ⟨e, he, rfl⟩ := List.mem_map.mp hid
        have hmem := (List.mem_filter.mp he).1
        simp only [Bool.and_eq_true, List.any_eq_true, decide_eq_true_eq]
        exact ⟨⟨row, List.mem_append_right _ List.mem_cons_self, rfl⟩,
          ⟨e, List.mem_append_left _ hmem, rfl⟩⟩
      rw [follow_alone hstart hselect hreferenced]
      simp only [Tx.unique, List.flatMap_nil, List.append_nil]
      rw [visible_flag]
      change _ = Option.map _ ((Sql.require _ _) >>= _).toOption
      generalize db.flagConfigs.all _ = unique
      cases unique <;> rfl

/-- The own environment of a transaction has no configuration yet that a seed could be copied from. -/
theorem seededConfig_visible {row : EnvironmentRow} {flag : FlagRow} {environmentId : Uuid}
    (hforeign : ∀ c ∈ db.flagConfigs, ∃ e ∈ db.environments, e.id = c.environmentId) :
    Sql.seededConfig input environmentId flag
        (Tx.visible ⟨input, .environment row, .pending⟩ db) =
      Sql.seededConfig input environmentId flag db := by
  have hconfigs : Sql.configsOf flag.id (Tx.visible ⟨input, .environment row, .pending⟩ db) =
      Sql.configsOf flag.id db := by
    simp only [Sql.configsOf, Tx.visible, Tx.inserted, Tx.environments, List.append_nil]
    apply List.filterMap_congr
    intro c hc
    obtain ⟨e, he, hid⟩ := hforeign c hc
    have hfound : (db.environments.find? (·.id = c.environmentId)).isSome = true :=
      List.find?_isSome.mpr ⟨e, he, by simpa using hid⟩
    rw [List.find?_append, Option.or_of_isSome hfound]
  rw [Sql.seededConfig, Sql.referenceConfig, hconfigs]
  rfl

/-- With the database to itself, `create_environment` does what it does as one statement, where every
    configuration is of a stored environment. -/
theorem createEnvironment_alone {key name salt : String} {isProduction : Bool}
    (hforeign : ∀ c ∈ db.flagConfigs, ∃ e ∈ db.environments, e.id = c.environmentId) :
    Sessions.follow (transactions projectId)
      (alone (.createEnvironment input key name salt isProduction)) ⟨db, []⟩ =
    (Sql.createEnvironment input projectId key name salt isProduction db).toOption.map
      fun w => ⟨w.db, []⟩ := by
  rw [Sql.createEnvironment]
  cases hrow : Sql.insertEnvironment input projectId key name salt isProduction db with
  | error e =>
      rw [follow_alone_none (by rw [Begin.start, hrow]; rfl)]
      rfl
  | ok row =>
      have hstart : (Begin.createEnvironment input key name salt isProduction).start projectId db [] =
          some ⟨input, .environment row, .pending⟩ := by
        simp [Begin.start, hrow, Except.toOption]
      have hselect : Tx.select projectId ⟨input, .environment row, .pending⟩ db =
          (db.flags.filter (·.projectId = projectId)).mapM fun flag =>
            Sql.seededConfig input row.id flag db := by
        simp only [Tx.select, seededConfig_visible hforeign]
        simp [Tx.visible, Tx.flags]
      cases hconfigs : (db.flags.filter (·.projectId = projectId)).mapM fun flag =>
          Sql.seededConfig input row.id flag db with
      | error e =>
          rw [follow_alone_error hstart (hselect.trans hconfigs)]
          change _ = Option.map _ (((db.flags.filter (·.projectId = projectId)).mapM fun flag =>
            Sql.seededConfig input row.id flag db) >>= _).toOption
          rw [hconfigs]
          rfl
      | ok configs =>
          have hreferenced : Tx.referenced ⟨input, .environment row, .pending⟩ db configs = true := by
            apply List.all_eq_true.mpr
            intro c hc
            obtain ⟨flag, hflag, hseeded⟩ := (Sql.of_mapM hconfigs).1 c hc
            have hmem := (List.mem_filter.mp hflag).1
            have hfirst := (Sql.seededConfig_cases hseeded).1
            simp only [Bool.and_eq_true, List.any_eq_true, decide_eq_true_eq]
            exact ⟨⟨flag, List.mem_append_left _ hmem, by rw [hfirst]; rfl⟩,
              ⟨row, List.mem_append_right _ List.mem_cons_self, by rw [hfirst]; rfl⟩⟩
          rw [follow_alone hstart (hselect.trans hconfigs) hreferenced]
          change _ = Option.map _ (((db.flags.filter (·.projectId = projectId)).mapM fun flag =>
            Sql.seededConfig input row.id flag db) >>= _).toOption
          rw [hconfigs, visible_environment]
          simp only [Tx.unique, List.flatMap_nil, List.append_nil]
          change _ = Option.map _ ((Sql.require _ _) >>= _).toOption
          generalize db.flagConfigs.all _ = unique
          cases unique <;> rfl

end FlagForge.Storage
