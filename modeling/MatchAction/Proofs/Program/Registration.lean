/-
  MatchAction.Proofs.Program.Registration — what a number stands for after any registrations.

  A catalog starts from a program's lists of numbers and names, and declarations are registered
  in it later. Numbers and names may come several times in the lists, a name may be declared
  several times or not at all, and what is registered later need not be of the program.

  A registration puts a declaration under its number: the one that it is given, or the first that
  the program declares under its name. It puts nothing where the program does not declare the
  name. The answer for a number is what the latest registration put there that put anything.

  Proved, for tables and for actions:
  - `table?_register`, `action?_register`: what one registration puts and what it leaves.
  - `lookups_follow_history`: what a catalog answers after a program's lists and any later
    registrations, and that no registration under another number or of the other sort has a say.
  - `oneBased_atPosition?`: keys and parameters are numbered from one.
-/

import MatchAction.Program.Catalog
import MatchAction.Proofs.Latest

namespace MatchAction

/-! ## Registrations -/

/-- What is registered: a declaration itself, or what the program declares under a name. -/
inductive Reference (α : Type) where
  | given (x : α)
  | named (name : String)
  deriving DecidableEq, Repr

def FirstNamed {α : Type} (nameOf : α → String) (declared : List α) (name : String) (x : α) : Prop :=
  ∃ before after, declared = before ++ x :: after ∧ nameOf x = name ∧ ∀ y ∈ before, nameOf y ≠ name

/-- The declaration that a reference stands for. A name that is not declared stands for none. -/
inductive Reference.StandsFor {α : Type} (nameOf : α → String) (declared : List α) : Reference α → α → Prop
  | given (x : α) : StandsFor nameOf declared (.given x) x
  | named {name : String} {x : α} : FirstNamed nameOf declared name x → StandsFor nameOf declared (.named name) x

namespace Reference

variable {α : Type} {nameOf : α → String} {declared : List α} {reference : Reference α} {x : α}

def find? (nameOf : α → String) (declared : List α) : Reference α → Option α
  | given x => some x
  | named name => declared.find? (nameOf · == name)

theorem find?_eq_some_iff : reference.find? nameOf declared = some x ↔ reference.StandsFor nameOf declared x := by
  cases reference with
  | given y =>
    rw [find?, Option.some.injEq]
    constructor
    · rintro rfl
      exact .given y
    · intro h
      cases h with
      | given => rfl
  | named name =>
    rw [find?, List.find?_eq_some_iff_append]
    constructor
    · rintro ⟨hx, before, after, heq, hbefore⟩
      exact .named ⟨before, after, heq, by simpa using hx, fun y hy => by simpa using hbefore y hy⟩
    · intro h
      cases h with
      | named hfirst =>
        obtain ⟨before, after, heq, hx, hbefore⟩ := hfirst
        exact ⟨by simpa using hx, before, after, heq, fun y hy => by simpa using hbefore y hy⟩

theorem find?_eq_none_iff : reference.find? nameOf declared = none ↔ ∀ y, ¬reference.StandsFor nameOf declared y := by
  simp only [Option.eq_none_iff_forall_ne_some, ne_eq, find?_eq_some_iff]

end Reference

inductive Registration where
  | table (id : UInt32) (reference : Reference Table)
  | action (id : UInt32) (reference : Reference Action)
  deriving DecidableEq, Repr

namespace Registration

def tableId? : Registration → Option UInt32
  | table id _ => some id
  | action _ _ => none

def actionId? : Registration → Option UInt32
  | table _ _ => none
  | action id _ => some id

def PutsTable (program : Program) (id : UInt32) (r : Registration) (x : Table) : Prop :=
  ∃ reference, r = table id reference ∧ reference.StandsFor Table.name program.tables x

def PutsAction (program : Program) (id : UInt32) (r : Registration) (x : Action) : Prop :=
  ∃ reference, r = action id reference ∧ reference.StandsFor Action.name program.actions x

/-- The registrations that a program's lists of numbers and names stand for. -/
def ofLists (tableIds actionIds : List (UInt32 × String)) : List Registration :=
  tableIds.map (fun e => table e.1 (.named e.2)) ++ actionIds.map fun e => action e.1 (.named e.2)

end Registration

namespace Catalog

open Registration

variable {program : Program} {catalog : Catalog} {r : Registration} {id : UInt32}

/-- One registration; names are those of `program`. -/
def register (program : Program) (catalog : Catalog) : Registration → Catalog
  | .table id (.given x) => catalog.registerTable id x
  | .table id (.named name) => catalog.addTable program (id, name)
  | .action id (.given x) => catalog.registerAction id x
  | .action id (.named name) => catalog.addAction program (id, name)

def replay (program : Program) (history : List Registration) : Catalog := history.foldl (register program) empty

theorem ofProgram_eq_replay (program : Program) (tableIds actionIds : List (UInt32 × String)) :
    ofProgram program tableIds actionIds = replay program (ofLists tableIds actionIds) := by
  rw [replay, ofLists, List.foldl_append, List.foldl_map, List.foldl_map]
  rfl

/-! ## One registration -/

theorem table?_register_table (i : UInt32) (reference : Reference Table) :
    (catalog.register program (.table i reference)).table? id =
      if id = i then (reference.find? Table.name program.tables).or (catalog.table? id) else catalog.table? id := by
  cases reference with
  | given x => rfl
  | named name =>
    show (catalog.addTable program (i, name)).table? id = if id = i then (program.table? name).or _ else _
    unfold addTable
    cases program.table? name with
    | none => simp
    | some x => rfl

theorem action?_register_action (i : UInt32) (reference : Reference Action) :
    (catalog.register program (.action i reference)).action? id =
      if id = i then (reference.find? Action.name program.actions).or (catalog.action? id) else catalog.action? id := by
  cases reference with
  | given x => rfl
  | named name =>
    show (catalog.addAction program (i, name)).action? id = if id = i then (program.action? name).or _ else _
    unfold addAction
    cases program.action? name with
    | none => simp
    | some x => rfl

theorem table?_register_action (i : UInt32) (reference : Reference Action) :
    (catalog.register program (.action i reference)).table? = catalog.table? := by
  cases reference with
  | given x => rfl
  | named name =>
    show (catalog.addAction program (i, name)).table? = _
    unfold addAction
    split <;> rfl

theorem action?_register_table (i : UInt32) (reference : Reference Table) :
    (catalog.register program (.table i reference)).action? = catalog.action? := by
  cases reference with
  | given x => rfl
  | named name =>
    show (catalog.addTable program (i, name)).action? = _
    unfold addTable
    split <;> rfl

theorem table?_register (catalog : Catalog) (r : Registration) (x : Table) :
    (catalog.register program r).table? id = some x ↔
      r.PutsTable program id x ∨ (∀ y, ¬r.PutsTable program id y) ∧ catalog.table? id = some x := by
  cases r with
  | table i reference =>
    rw [table?_register_table]
    by_cases h : id = i
    · subst h
      simp [PutsTable, Option.or_eq_some_iff, Reference.find?_eq_some_iff, Reference.find?_eq_none_iff]
    · simp [PutsTable, h, Ne.symm h]
  | action i reference =>
    rw [table?_register_action]
    simp [PutsTable]

theorem action?_register (catalog : Catalog) (r : Registration) (x : Action) :
    (catalog.register program r).action? id = some x ↔
      r.PutsAction program id x ∨ (∀ y, ¬r.PutsAction program id y) ∧ catalog.action? id = some x := by
  cases r with
  | table i reference =>
    rw [action?_register_table]
    simp [PutsAction]
  | action i reference =>
    rw [action?_register_action]
    by_cases h : id = i
    · subst h
      simp [PutsAction, Option.or_eq_some_iff, Reference.find?_eq_some_iff, Reference.find?_eq_none_iff]
    · simp [PutsAction, h, Ne.symm h]

/-! ## Any history of them -/

theorem latestAnswer_table? (program : Program) (id : UInt32) (history : List Registration) :
    LatestAnswer (PutsTable program id) history ((replay program history).table? id) :=
  latestAnswer_foldl (fun catalog : Catalog => catalog.table? id) table?_register rfl history

theorem latestAnswer_action? (program : Program) (id : UInt32) (history : List Registration) :
    LatestAnswer (PutsAction program id) history ((replay program history).action? id) :=
  latestAnswer_foldl (fun catalog : Catalog => catalog.action? id) action?_register rfl history

/-- Registrations under other numbers and those of actions may be left out. -/
theorem table?_replay_filter (program : Program) (id : UInt32) (history : List Registration) :
    (replay program history).table? id = (replay program (history.filter (·.tableId? == some id))).table? id := by
  refine (latestAnswer_table? program id history).eq_of_filter ?_ (latestAnswer_table? program id _)
  rintro r x ⟨reference, rfl, -⟩
  exact beq_self_eq_true _

/-- Registrations under other numbers and those of tables may be left out. -/
theorem action?_replay_filter (program : Program) (id : UInt32) (history : List Registration) :
    (replay program history).action? id = (replay program (history.filter (·.actionId? == some id))).action? id := by
  refine (latestAnswer_action? program id history).eq_of_filter ?_ (latestAnswer_action? program id _)
  rintro r x ⟨reference, rfl, -⟩
  exact beq_self_eq_true _

end Catalog

/-! ## Positions -/

structure OneBased {α : Type} (lookup : UInt32 → Option α) (xs : List α) : Prop where
  some_iff : ∀ id x, lookup id = some x ↔ ∃ i, id.toNat = i + 1 ∧ xs[i]? = some x
  none_iff : ∀ id, lookup id = none ↔ id = 0 ∨ xs.length < id.toNat

theorem oneBased_atPosition? {α : Type} (xs : List α) : OneBased (atPosition? xs) xs := by
  refine ⟨fun _ _ => atPosition?_eq_some, fun id => ?_⟩
  unfold atPosition?
  by_cases h : id = 0
  · simp [h]
  · have hpos : id.toNat ≠ 0 := fun h0 => h (UInt32.toNat_inj.mp h0)
    rw [if_neg h, List.getElem?_eq_none_iff, or_iff_right h]
    omega

namespace Catalog

open Registration

/-- After a program's lists and any registrations that follow them, a number stands for what was
    registered latest under it, where a name stands for the first declaration of that name and a name
    that is not declared registers nothing; where nothing was registered, it stands for nothing.
    Registrations under other numbers and of the other sort make no difference. Keys and parameters
    are those at the position before their number. -/
theorem lookups_follow_history (program : Program) (tableIds actionIds : List (UInt32 × String))
    (later : List Registration) :
    let history := ofLists tableIds actionIds ++ later
    let catalog := later.foldl (register program) (ofProgram program tableIds actionIds)
    (∀ id, LatestAnswer (PutsTable program id) history (catalog.table? id)) ∧
    (∀ id, LatestAnswer (PutsAction program id) history (catalog.action? id)) ∧
    (∀ id, catalog.table? id = (replay program (history.filter (·.tableId? == some id))).table? id) ∧
    (∀ id, catalog.action? id = (replay program (history.filter (·.actionId? == some id))).action? id) ∧
    (∀ table : Table, OneBased table.key? table.keys) ∧
    ∀ action : Action, OneBased action.param? action.params := by
  intro history catalog
  have hcatalog : catalog = replay program history := by
    show later.foldl (register program) (ofProgram program tableIds actionIds) = _
    rw [ofProgram_eq_replay, replay, replay, List.foldl_append]
  rw [hcatalog]
  exact ⟨fun id => latestAnswer_table? program id history, fun id => latestAnswer_action? program id history,
    fun id => table?_replay_filter program id history, fun id => action?_replay_filter program id history,
    fun table => oneBased_atPosition? table.keys, fun action => oneBased_atPosition? action.params⟩

/-- Of two tables of one name the first is meant, and a name that is not declared takes nothing away. -/
example : ((ofProgram ⟨[{ name := "acl", actions := ["drop"] }, { name := "acl" }], []⟩
    [(7, "acl"), (7, "nat")] []).table? 7).map Table.actions = some ["drop"] := rfl

end Catalog

end MatchAction
