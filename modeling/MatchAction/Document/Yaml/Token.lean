/-
  MatchAction.Document.Yaml.Token — the tokens of a YAML text.

  Scalars are tokens with their text, folded and unescaped, and the style in which they
  were written. Tags are octets, which need not be UTF-8.
-/

import MatchAction.Octets

namespace MatchAction.Yaml

inductive Style where
  | plain
  | singleQuoted
  | doubleQuoted
  | literal
  | folded
  deriving DecidableEq, Repr

inductive Token where
  | streamEnd
  | versionDirective (major minor : Nat)
  | tagDirective (handle : String) (start : Octets)
  | documentStart
  | documentEnd
  | blockSequenceStart
  | blockMappingStart
  | blockEnd
  | flowSequenceStart
  | flowSequenceEnd
  | flowMappingStart
  | flowMappingEnd
  | blockEntry
  | flowEntry
  | key
  | value
  | reference (name : String)
  | anchor (name : String)
  | tag (handle : String) (suffix : Octets)
  | scalar (text : String) (style : Style)
  deriving DecidableEq, Repr, Inhabited

end MatchAction.Yaml
