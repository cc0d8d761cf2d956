/-
  MatchAction.Settings — what a conversion is set to do, and the file that says so.

  A settings file is a YAML record with a version; everything else has a default and
  nothing else is allowed.
-/

import MatchAction.Document.Kinds

namespace MatchAction

structure Settings where
  target : Target := .core
  /-- The entries that programs embed count. -/
  seedsEntries : Bool := true
  recordFormat : Format := .json
  deriving DecidableEq, Repr, Inhabited

inductive SettingsError where
  | missingVersion
  | unsupportedVersion (found : UInt32)
  | unknownTarget (name : String)
  | unknownFormat (path : String)
  | malformed (flaw : Flaw)
  deriving DecidableEq, Repr

def SettingsError.message? : SettingsError → Option String
  | missingVersion =>
    some "Missing 'version' field in configuration file. Add 'version: 1' to the top of your YAML file."
  | unsupportedVersion found => some s!"Unsupported configuration version {found}. Supported versions: 1"
  | unknownTarget name => some s!"Unknown target '{name}'. Valid targets: core, v1model"
  | unknownFormat path =>
    some s!"Cannot infer configuration record format from '{path}'. Use a .json, .yaml or .yml file"
  | malformed _ => none

def Target.parse (name : String) : Except SettingsError Target :=
  match Target.ofName? name with
  | some target => .ok target
  | none => .error (.unknownTarget name)

def Format.parsePath (path : String) : Except SettingsError Format :=
  match Format.ofPath? path with
  | some format => .ok format
  | none => .error (.unknownFormat path)

namespace Settings

structure Draft where
  version : Option (Option UInt32) := none
  target : Option Target := none
  seedsEntries : Option Bool := none
  recordFormat : Option Format := none

def layout (dialect : Dialect) : Layout Draft where
  slots :=
    [.of "version" (Tree.readOption Tree.readUInt32) (·.version) fun a d => { d with version := some a },
     .of "target" (Target.decode dialect) (·.target) fun a d => { d with target := some a },
     .of "seed_static_entries" Tree.readFlag (·.seedsEntries) fun a d => { d with seedsEntries := some a },
     .of "record_format" (Format.decodeSelf dialect) (·.recordFormat) fun a d => { d with recordFormat := some a }]
  others := .refuse

def ofDraft (draft : Draft) : Except SettingsError Settings :=
  match draft.version.getD none with
  | none => .error .missingVersion
  | some version =>
    if version ≠ 1 then .error (.unsupportedVersion version)
    else
      let default : Settings := {}
      .ok ⟨draft.target.getD default.target, draft.seedsEntries.getD default.seedsEntries,
        draft.recordFormat.getD default.recordFormat⟩

def parse (text : String) : Except SettingsError Settings :=
  match Format.yaml.decode text.toUTF8.toList (fun dialect => (layout dialect).read dialect {}) with
  | .ok draft => ofDraft draft
  | .error flaw => .error (.malformed flaw)

def text (settings : Settings) : String :=
  "version: 1\ntarget: " ++ settings.target.name ++ "\nseed_static_entries: " ++ toString settings.seedsEntries
    ++ "\nrecord_format: " ++ settings.recordFormat.name ++ "\n"

end Settings

end MatchAction
