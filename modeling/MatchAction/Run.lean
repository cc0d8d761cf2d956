/-
  MatchAction.Run — one conversion from a program and a record to constraints.

  The record is read first, and a record that cannot be read stops everything. Then come
  the entries that the program embeds, if the settings want them, and after them what the
  record says.
-/

import MatchAction.Embedded.Seed
import MatchAction.Record.Decode
import MatchAction.Record.Load
import MatchAction.Resolve.Basic
import MatchAction.Settings

namespace MatchAction

def Record.parse (format : Format) (bytes : Octets) : Except Flaw Record :=
  format.decode bytes Record.Decode.readRecord

def Entity.parse (format : Format) (bytes : Octets) : Except Flaw Entity :=
  format.decode bytes fun dialect => Record.Decode.readEntity dialect 1

def TableEntry.parse (format : Format) (bytes : Octets) : Except Flaw TableEntry :=
  format.decode bytes fun dialect => Record.Decode.readTableEntry dialect 1

def FieldMatch.parse (format : Format) (bytes : Octets) : Except Flaw FieldMatch :=
  format.decode bytes fun dialect => Record.Decode.readFieldMatch dialect 1

def TableAction.parse (format : Format) (bytes : Octets) : Except Flaw TableAction :=
  format.decodeDraft bytes Record.Decode.readTableActionDraft (·.tableAction)

/-- What the JSON text of an entity contributes; one that cannot be read is reported. -/
def Entity.loadText (catalog : Catalog) (text : String) : Outcome :=
  match Entity.parse .json text.toUTF8.toList with
  | .ok entity => entity.load catalog
  | .error _ => { diagnostics := [.malformedEntity] }

namespace Settings

def seed (settings : Settings) (program : Program) : Outcome :=
  if settings.seedsEntries then settings.target.seed program else {}

/-- The program's own entries, then the record. -/
def convert (settings : Settings) (program : Program) (catalog : Catalog) (record : Option Record) : Outcome :=
  match record with
  | some record => (settings.seed program).merge (record.load catalog)
  | none => settings.seed program

def run (settings : Settings) (program : Program) (catalog : Catalog) (record : Option Octets) :
    Except Flaw Outcome := do
  match record with
  | some bytes => return settings.convert program catalog (some (← Record.parse settings.recordFormat bytes))
  | none => return settings.convert program catalog none

def resolver (settings : Settings) : Resolver := .ofTarget settings.target

end Settings

end MatchAction
