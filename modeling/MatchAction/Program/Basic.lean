/-
  MatchAction.Program.Basic — the tables and actions of a program, names and types resolved.

  A table matches its keys and invokes one of the actions it lists; the position of an
  action in that list is its ordinal. A program may embed entries in a table: each lists
  one key per declared key and calls an action with constant arguments.
-/

import MatchAction.Term.Basic

namespace MatchAction

structure Key where
  expr : Term
  matchKind : String
  /-- The control-plane name, where the program gives one. -/
  name : Option String := none
  deriving DecidableEq, Repr, Inhabited

namespace Key

/-- The given name, or else the text of the key. -/
def fieldName (key : Key) : String := key.name.getD key.expr.text

def ty (key : Key) : Ty := key.expr.ty

end Key

structure Param where
  name : String
  ty : Ty
  deriving DecidableEq, Repr, Inhabited

structure Action where
  name : String
  params : List Param := []
  deriving DecidableEq, Repr, Inhabited

structure Call where
  action : String
  args : List Nat := []
  deriving DecidableEq, Repr, Inhabited

inductive EmbeddedKey where
  | value (value : Nat)
  | mask (value mask : Nat)
  | range (low high : Nat)
  | dontCare
  deriving DecidableEq, Repr, Inhabited

structure EmbeddedEntry where
  /-- By position, one for each key of the table. -/
  keys : List EmbeddedKey
  action : Call
  deriving DecidableEq, Repr, Inhabited

structure Table where
  name : String
  keys : List Key := []
  /-- The names of the actions that the table may invoke. -/
  actions : List String := []
  defaultAction : Option Call := none
  /-- The embedded entries, where the table has a list of them. -/
  entries : Option (List EmbeddedEntry) := none
  deriving DecidableEq, Repr, Inhabited

/-- The element that a one-based wire number names; zero names none. -/
def atPosition? {α : Type} (xs : List α) (id : UInt32) : Option α :=
  if id = 0 then none else xs[id.toNat - 1]?

theorem atPosition?_eq_some {α : Type} {xs : List α} {id : UInt32} {x : α} :
    atPosition? xs id = some x ↔ ∃ i, id.toNat = i + 1 ∧ xs[i]? = some x := by
  unfold atPosition?
  split
  · rename_i h
    subst h
    constructor
    · intro hx
      cases hx
    · rintro ⟨i, hi, -⟩
      exact absurd hi (Nat.succ_ne_zero i).symm
  · rename_i h
    have hpos : id.toNat ≠ 0 := fun h0 => h (UInt32.toNat_inj.mp h0)
    constructor
    · intro hx
      exact ⟨id.toNat - 1, by omega, hx⟩
    · rintro ⟨i, hi, hx⟩
      rw [hi]
      exact hx

/-- Where the names of the elements are different, a name is at one position. -/
theorem atPosition?_inj {α β : Type} {name : α → β} {xs : List α} (hnames : (xs.map name).Nodup) {i j : UInt32}
    {a b : α} (ha : atPosition? xs i = some a) (hb : atPosition? xs j = some b) (hab : name a = name b) : i = j := by
  obtain ⟨p, hp, ha⟩ := atPosition?_eq_some.mp ha
  obtain ⟨q, hq, hb⟩ := atPosition?_eq_some.mp hb
  have hlt : p < (xs.map name).length := by
    rw [List.length_map]
    exact (List.getElem?_eq_some_iff.mp ha).1
  have hpq : p = q := (List.getElem?_inj hlt hnames).mp (by simp [ha, hb, hab])
  exact UInt32.toNat_inj.mp (by omega)

namespace Table

/-- The first position of `action` among the table's actions, as a 32-bit number. -/
def ordinal? (table : Table) (action : String) : Option UInt32 :=
  (table.actions.findIdx? (· == action)).map UInt32.ofNat

def key? (table : Table) (id : UInt32) : Option Key := atPosition? table.keys id

variable {table : Table}

theorem key?_mem {id : UInt32} {key : Key} (h : table.key? id = some key) : key ∈ table.keys := by
  obtain ⟨i, -, hi⟩ := atPosition?_eq_some.mp h
  exact List.mem_of_getElem? hi

/-- Keys with different names are at different positions. -/
theorem key?_inj (hnames : (table.keys.map Key.fieldName).Nodup) {i j : UInt32} {a b : Key}
    (ha : table.key? i = some a) (hb : table.key? j = some b) (hab : a.fieldName = b.fieldName) : i = j :=
  atPosition?_inj hnames ha hb hab

end Table

def Action.param? (action : Action) (id : UInt32) : Option Param := atPosition? action.params id

structure Program where
  tables : List Table := []
  actions : List Action := []
  deriving DecidableEq, Repr, Inhabited

namespace Program

def table? (program : Program) (name : String) : Option Table := program.tables.find? (·.name == name)

def action? (program : Program) (name : String) : Option Action := program.actions.find? (·.name == name)

theorem table?_name {program : Program} {name : String} {table : Table}
    (h : program.table? name = some table) : table.name = name := by
  have := List.find?_some h
  simpa using this

theorem action?_name {program : Program} {name : String} {action : Action}
    (h : program.action? name = some action) : action.name = name := by
  have := List.find?_some h
  simpa using this

end Program

end MatchAction
