/-
  MatchAction.Document.Format — the formats that documents come in.

  The extension of a file name tells its format, without regard to the case of ASCII
  letters. A name that starts with its only dot has no extension, nor has `..`; slashes and
  single dots at the end of a path do not count.
-/

import MatchAction.Document.Json.Reader
import MatchAction.Document.Yaml.Reader

namespace MatchAction

inductive Format where
  | json
  | yaml
  deriving DecidableEq, Repr, Inhabited

namespace Format

def name : Format → String
  | json => "json"
  | yaml => "yaml"

def dialect : Format → Dialect
  | json => .json
  | yaml => .yaml

def read : Format → Octets → Document
  | json => Json.read
  | yaml => Yaml.read

def decode {α : Type} (format : Format) (bytes : Octets) (read : Dialect → Tree → Reading α) : Except Flaw α :=
  (format.read bytes).decode (read format.dialect)

def decodeDraft {α δ : Type} (format : Format) (bytes : Octets) (read : Dialect → Tree → Reading δ)
    (check : δ → Except Flaw α) : Except Flaw α :=
  (format.read bytes).decodeDraft format.dialect (read format.dialect) check

/-! ## File names -/

def pathParts (path : String) : List (List Char) :=
  (path.toList.splitOn '/').filter fun part => !part.isEmpty && part != ['.']

/-- What follows the last dot of a file name, if something precedes it. -/
def extensionOf? (name : List Char) : Option (List Char) :=
  let extension := name.reverse.takeWhile (· != '.')
  if name = ['.', '.'] || name.length ≤ extension.length + 1 then none else some extension.reverse

def ofExtension? (extension : String) : Option Format :=
  if extension == "json" then some json
  else if extension == "yaml" || extension == "yml" then some yaml
  else none

def ofPath? (path : String) : Option Format := do
  let extension ← extensionOf? (← (pathParts path).getLast?)
  ofExtension? (String.ofList extension).toLower

end Format

end MatchAction
