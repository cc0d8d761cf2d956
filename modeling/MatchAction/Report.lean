/-
  MatchAction.Report — why an entry, a field or a table could not be used.

  A `Fault` is a cause; it concerns one entry and never stops a conversion. `Fault.message`
  words it and `DiagnosticKind.of` classifies it; a `Diagnostic` is what is reported, with
  the table it concerns where that is known.
-/

import MatchAction.Ty

namespace MatchAction

inductive Fault where
  | unknownTable (id : UInt32)
  | unknownField (table : String) (fieldId : UInt32)
  | duplicateField (table : String) (fieldId : UInt32)
  | unknownActionId (id : UInt32)
  | unknownAction (name : String)
  | actionNotInTable (table action : String)
  | unknownParam (action : String) (paramId : UInt32)
  | argumentCount (action : String) (expected found : Nat)
  | missingAction
  | defaultActionWithMatches
  | unsupportedMatchKind (kind : String)
  | matchKindMismatch (field declared configured : String)
  | unsupportedKeyType (field matchKind : String) (ty : Ty)
  | invalidPrefixLength (field : String) (length : UInt32) (width : Nat)
  | valueOutOfRange (name : String) (value : Nat) (ty : Ty)
  | keyCountMismatch (expected found : Nat)
  | embeddedKeyMismatch (field matchKind : String)
  deriving DecidableEq, Repr

def Fault.message : Fault → String
  | unknownTable id => s!"unknown table id {id}"
  | unknownField table fieldId => s!"table '{table}' has no key field with id {fieldId}"
  | duplicateField table fieldId => s!"entry for table '{table}' matches field id {fieldId} more than once"
  | unknownActionId id => s!"unknown action id {id}"
  | unknownAction name => s!"unknown action '{name}'"
  | actionNotInTable table action => s!"action '{action}' is not an action of table '{table}'"
  | unknownParam action paramId => s!"action '{action}' has no parameter with id {paramId}"
  | argumentCount action expected found => s!"action '{action}' expects {expected} arguments, got {found}"
  | missingAction => "table entry has no action"
  | defaultActionWithMatches => "default-action entry must not carry match fields"
  | unsupportedMatchKind kind => s!"match kind '{kind}' is not supported"
  | matchKindMismatch field declared configured =>
    s!"field '{field}' is declared as '{declared}' but configured as '{configured}'"
  | unsupportedKeyType field matchKind ty =>
    s!"match kind '{matchKind}' cannot be applied to field '{field}' of type " ++ ty.text
  | invalidPrefixLength field length width =>
    s!"prefix length {length} exceeds the {width}-bit width of field '{field}'"
  | valueOutOfRange name value ty => s!"value {value} does not fit '{name}' of type " ++ ty.text
  | keyCountMismatch expected found => s!"static entry lists {found} keys, table declares {expected}"
  | embeddedKeyMismatch field matchKind => s!"static key for field '{field}' cannot be matched as '{matchKind}'"

inductive DiagnosticKind where
  | malformedEntity
  | unknownTable
  | unknownField
  | duplicateField
  | unknownAction
  | unsupportedMatchKind
  | matchKindMismatch
  | invalidMatchValue
  | unsupportedActionProfile
  | embeddedEntryMismatch
  deriving DecidableEq, Repr

def DiagnosticKind.of : Fault → DiagnosticKind
  | .unknownTable _ => unknownTable
  | .unknownField _ _ => unknownField
  | .duplicateField _ _ => duplicateField
  | .unknownActionId _ | .unknownAction _ | .actionNotInTable _ _ | .unknownParam _ _ | .argumentCount _ _ _
  | .missingAction => unknownAction
  | .unsupportedMatchKind _ => unsupportedMatchKind
  | .matchKindMismatch _ _ _ | .unsupportedKeyType _ _ _ => matchKindMismatch
  | .invalidPrefixLength _ _ _ | .valueOutOfRange _ _ _ | .defaultActionWithMatches => invalidMatchValue
  | .keyCountMismatch _ _ | .embeddedKeyMismatch _ _ => embeddedEntryMismatch

structure Diagnostic where
  kind : DiagnosticKind
  /-- The table it concerns, where that is known. -/
  table : Option String
  message : String
  deriving DecidableEq, Repr

namespace Diagnostic

def ofFault (table : Option String) (fault : Fault) : Diagnostic := ⟨.of fault, table, fault.message⟩

def malformedEntity : Diagnostic := ⟨.malformedEntity, none, "malformed entity skipped"⟩

/-- An entry points into an action profile, whose contents are not known. -/
def profileReference (table ref : String) : Diagnostic :=
  ⟨.unsupportedActionProfile, some table, s!"action profile {ref} is recorded as an action choice only"⟩

def embeddedEntriesDisabled (table : String) (fault : Fault) : Diagnostic :=
  ⟨.embeddedEntryMismatch, some table, "static entries disabled: " ++ fault.message⟩

end Diagnostic

def countKind (diagnostics : List Diagnostic) (kind : DiagnosticKind) : Nat :=
  diagnostics.countP (·.kind == kind)

end MatchAction
