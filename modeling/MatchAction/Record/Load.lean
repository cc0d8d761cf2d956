/-
  MatchAction.Record.Load — what a record does to a store.

  A table entry asks for one change: a rule at the end of its table's list, or a default
  action. An entry that cannot be converted asks for none and is reported; a field the
  table does not have is reported and left out of the match. Entities of other kinds
  change nothing. A record is converted entity by entity, each into a store of its own,
  and the stores are merged in order.
-/

import MatchAction.Outcome
import MatchAction.Program.Catalog
import MatchAction.Record.Match

namespace MatchAction

inductive Change where
  | addRule (table : String) (rule : Rule)
  | setDefault (table : String) (action : Binding)
  deriving DecidableEq, Repr

def Change.apply (store : Store) : Change → Store
  | addRule table rule => store.addRule table rule
  | setDefault table action => store.setDefault table action

namespace ActionCall

/-- The arguments in the order of the call; each names its parameter by position. -/
def arguments (action : Action) : List ParamValue → Except Fault (List Argument)
  | [] => return []
  | given :: rest => do
    match action.param? given.paramId with
    | none => .error (.unknownParam action.name given.paramId)
    | some param =>
      let value ← given.value.checked param.name param.ty
      return ⟨param.name, param.ty, value⟩ :: (← arguments action rest)

def bind (catalog : Catalog) (table : Table) (call : ActionCall) : Except Fault Binding := do
  match catalog.action? call.actionId with
  | none => .error (.unknownActionId call.actionId)
  | some action =>
    match table.ordinal? action.name with
    | none => .error (.actionNotInTable table.name action.name)
    | some ordinal =>
      if call.params.length ≠ action.params.length then
        .error (.argumentCount action.name action.params.length call.params.length)
      else return .direct action.name ordinal (← arguments action call.params)

end ActionCall

namespace TableEntry

def bindProfile (table : Table) (target : ProfileRef) : Attempt Binding := do
  Attempt.report (.profileReference table.name target.text)
  return .profile target

def bindAction (catalog : Catalog) (table : Table) : Option TableAction → Attempt Binding
  | none => .fail .missingAction
  | some (.call call) => .ofExcept (call.bind catalog table)
  | some (.profileMember id) => bindProfile table (.member id)
  | some (.profileGroup id) => bindProfile table (.group id)

/-- Adds the predicates of the matches to `keys`; the fields in `seen` were matched before. -/
def addMatches (table : Table) : (seen : List UInt32) → (keys : KeySet) → List FieldMatch → Attempt KeySet
  | _, keys, [] => return keys
  | seen, keys, m :: rest =>
    if m.fieldId ∈ seen then .fail (.duplicateField table.name m.fieldId)
    else match table.key? m.fieldId with
      | none => do
        Attempt.report (.ofFault (some table.name) (.unknownField table.name m.fieldId))
        addMatches table (m.fieldId :: seen) keys rest
      | some key => do
        match ← Attempt.ofExcept (m.value.predicate? key) with
        | some predicate => addMatches table (m.fieldId :: seen) (keys.insert key.fieldName predicate) rest
        | none => addMatches table (m.fieldId :: seen) keys rest

def attempt (catalog : Catalog) (table : Table) (entry : TableEntry) : Attempt Change :=
  if entry.isDefaultAction then
    if entry.fieldMatches.isEmpty then do
      return .setDefault table.name (← bindAction catalog table entry.action)
    else .fail .defaultActionWithMatches
  else do
    let keySet ← addMatches table [] ∅ entry.fieldMatches
    let action ← bindAction catalog table entry.action
    return .addRule table.name { keySet, action, priority := entry.priority }

def convert (catalog : Catalog) (entry : TableEntry) : Option Change × List Diagnostic :=
  match catalog.table? entry.tableId with
  | none => (none, [.ofFault none (.unknownTable entry.tableId)])
  | some table =>
    let attempt := entry.attempt catalog table
    match attempt.result with
    | .ok change => (some change, attempt.diagnostics)
    | .error fault => (none, attempt.diagnostics ++ [.ofFault (some table.name) fault])

def loadInto (catalog : Catalog) (outcome : Outcome) (entry : TableEntry) : Outcome :=
  let (change, diagnostics) := entry.convert catalog
  ⟨change.elim outcome.store (Change.apply outcome.store), outcome.diagnostics ++ diagnostics⟩

end TableEntry

def Entity.load (catalog : Catalog) : Entity → Outcome
  | tableEntry entry => entry.loadInto catalog {}
  | profileMember _ | profileGroup _ | other _ => {}

def Record.load (catalog : Catalog) (record : Record) : Outcome :=
  record.entities.foldl (fun outcome entity => outcome.merge (entity.load catalog)) {}

end MatchAction
