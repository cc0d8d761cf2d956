/-
  MatchAction.Embedded.Seed — the store that a program's own entries and defaults give.

  The embedded entries of a table are used all or not at all: a fault in any of them
  disables the table's entries and is reported, and the other tables go on. The default
  action is set apart from that. A v1model table that declares no default and lists
  `NoAction` defaults to it.
-/

import MatchAction.Embedded.Match
import MatchAction.Outcome

namespace MatchAction

namespace Call

def arguments : List Param → List Nat → Except Fault (List Argument)
  | param :: params, arg :: args => do
    let value ← checkFits param.name param.ty arg
    return ⟨param.name, param.ty, value⟩ :: (← arguments params args)
  | _, _ => return []

def bind (table : Table) (program : Program) (call : Call) : Except Fault Binding := do
  match program.action? call.action with
  | none => .error (.unknownAction call.action)
  | some action =>
    match table.ordinal? action.name with
    | none => .error (.actionNotInTable table.name action.name)
    | some ordinal =>
      if call.args.length ≠ action.params.length then
        .error (.argumentCount action.name action.params.length call.args.length)
      else return .direct action.name ordinal (← arguments action.params call.args)

end Call

namespace EmbeddedEntry

def addKeys (target : Target) : KeySet → List Key → List EmbeddedKey → Except Fault KeySet
  | keySet, key :: keys, embedded :: rest => do
    match ← target.embeddedPredicate? key embedded with
    | some predicate => addKeys target (keySet.insert key.fieldName predicate) keys rest
    | none => addKeys target keySet keys rest
  | keySet, _, _ => return keySet

def rule (target : Target) (table : Table) (program : Program) (entry : EmbeddedEntry) : Except Fault Rule := do
  if entry.keys.length ≠ table.keys.length then
    .error (.keyCountMismatch table.keys.length entry.keys.length)
  else
    let keySet ← addKeys target ∅ table.keys entry.keys
    let action ← entry.action.bind table program
    return { keySet, action }

end EmbeddedEntry

namespace Target

def defaultBinding? (target : Target) (table : Table) (program : Program) : Option (Except Fault Binding) :=
  match table.defaultAction, target with
  | some call, _ => some (call.bind table program)
  | none, .core => none
  | none, .v1model => (table.ordinal? "NoAction").map fun ordinal => .ok (.direct "NoAction" ordinal [])

def seedDefault (target : Target) (program : Program) (table : Table) (outcome : Outcome) : Outcome :=
  match target.defaultBinding? table program with
  | none => outcome
  | some (.ok action) => { outcome with store := outcome.store.setDefault table.name action }
  | some (.error fault) => outcome.report (.ofFault (some table.name) fault)

def seedEntries (target : Target) (program : Program) (table : Table) (outcome : Outcome) : Outcome :=
  match table.entries with
  | none => outcome
  | some entries =>
    match entries.mapM (EmbeddedEntry.rule target table program) with
    | .ok rules => { outcome with store := rules.foldl (fun store rule => store.addRule table.name rule) outcome.store }
    | .error fault =>
      { outcome with store := outcome.store.disable table.name }.report (.embeddedEntriesDisabled table.name fault)

def seedTable (target : Target) (program : Program) (outcome : Outcome) (table : Table) : Outcome :=
  target.seedEntries program table (target.seedDefault program table outcome)

def seed (target : Target) (program : Program) : Outcome :=
  program.tables.foldl (target.seedTable program) {}

end Target

end MatchAction
