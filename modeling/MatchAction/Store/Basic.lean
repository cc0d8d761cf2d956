/-
  MatchAction.Store.Basic — the configuration of every table, by table name.

  A store grows: an entry, a default action or a mark on a table that is not there yet
  brings the table in. Merging another store appends to each table and replaces nothing
  but a default action.
-/

import MatchAction.Store.Config

namespace MatchAction

structure Store where
  tables : SortedMap String Config
  deriving DecidableEq, Repr

namespace Store

def empty : Store := ⟨∅⟩

instance : EmptyCollection Store := ⟨empty⟩
instance : Inhabited Store := ⟨empty⟩

def table? (store : Store) (name : String) : Option Config := store.tables.get? name

/-- Changes the configuration of `name`, from an empty one where there is none. -/
def update (store : Store) (name : String) (change : Config → Config) : Store :=
  ⟨store.tables.alter name (fun config => change (config.getD { table := name }))⟩

def addRule (store : Store) (name : String) (rule : Rule) : Store := store.update name (·.addRule rule)

/-- Adds a rule that was given no priority. -/
def addEntry (store : Store) (name : String) (keySet : KeySet) (action : Binding) : Store :=
  store.addRule name { keySet, action }

def setDefault (store : Store) (name : String) (action : Binding) : Store :=
  store.update name (·.setDefault action)

def disable (store : Store) (name : String) : Store := store.update name Config.disable

/-- Appends the tables of `later`; what `store` holds stays first. -/
def merge (store later : Store) : Store := ⟨store.tables.mergeWith Config.append later.tables⟩

/-- One constraint for each table, in the order of the names. -/
def constraints (store : Store) : List (String × Term) :=
  store.tables.toList.map fun e => (e.1, e.2.constraint)

def symbols (store : Store) : SymbolSet :=
  store.tables.values.foldl (fun set config => config.constraint.addSymbols set) ∅

end Store

end MatchAction
