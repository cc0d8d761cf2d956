/-
  MatchAction.Target — the targets that programs are written for.

  A target is named without regard to the case of ASCII letters.
-/

namespace MatchAction

inductive Target where
  /-- The match kinds that every target has, and no others. -/
  | core
  | v1model
  deriving DecidableEq, Repr, Inhabited

namespace Target

def name : Target → String
  | core => "core"
  | v1model => "v1model"

def ofName? (text : String) : Option Target :=
  [core, v1model].find? (·.name == text.toLower)

end Target

end MatchAction
