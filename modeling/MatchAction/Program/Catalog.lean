/-
  MatchAction.Program.Catalog — which table and which action a wire number stands for.

  Records name tables and actions by numbers. Registering a number again replaces what it
  stood for; a name that the program does not declare registers nothing.
-/

import MatchAction.Program.Basic

namespace MatchAction

structure Catalog where
  table? : UInt32 → Option Table
  action? : UInt32 → Option Action

namespace Catalog

def empty : Catalog := ⟨fun _ => none, fun _ => none⟩

instance : Inhabited Catalog := ⟨empty⟩

def registerTable (catalog : Catalog) (id : UInt32) (table : Table) : Catalog :=
  { catalog with table? := fun i => if i = id then some table else catalog.table? i }

def registerAction (catalog : Catalog) (id : UInt32) (action : Action) : Catalog :=
  { catalog with action? := fun i => if i = id then some action else catalog.action? i }

def addTable (program : Program) (catalog : Catalog) (entry : UInt32 × String) : Catalog :=
  match program.table? entry.2 with
  | some table => catalog.registerTable entry.1 table
  | none => catalog

def addAction (program : Program) (catalog : Catalog) (entry : UInt32 × String) : Catalog :=
  match program.action? entry.2 with
  | some action => catalog.registerAction entry.1 action
  | none => catalog

/-- The catalog of a program's tables and actions under the given numbers, later ones last. -/
def ofProgram (program : Program) (tableIds actionIds : List (UInt32 × String)) : Catalog :=
  actionIds.foldl (addAction program) (tableIds.foldl (addTable program) empty)

end Catalog

end MatchAction
