/-
  MatchAction.Store.Config — what one table is configured to do.

  A configuration lists its rules in the order in which they match: a rule fires when its
  keys match and no earlier rule's keys do, and then its binding holds. When no rule
  matches, the default binding holds, where there is one. `constraint` says so in one term.
-/

import MatchAction.Store.Binding

namespace MatchAction

/-- The match predicate of each field that the entry constrains, by field name. -/
abbrev KeySet := SortedMap String Term

structure Rule where
  keySet : KeySet
  action : Binding
  /-- As the controller gave it; the order of the rules is what decides. -/
  priority : Option Int32 := none
  deriving DecidableEq, Repr

namespace Rule

def condition (rule : Rule) : Term := .all rule.keySet.values

def constraint (table : String) (rule : Rule) : Term :=
  .all (rule.keySet.values ++ rule.action.equalities table)

end Rule

structure Config where
  table : String
  rules : List Rule := []
  defaultAction : Option Binding := none
  /-- The embedded entries of the table could not be used. -/
  disabled : Bool := false
  deriving DecidableEq, Repr

namespace Config

def isActive (config : Config) : Bool := !config.rules.isEmpty

def addRule (config : Config) (rule : Rule) : Config := { config with rules := config.rules ++ [rule] }

def setDefault (config : Config) (action : Binding) : Config := { config with defaultAction := some action }

def disable (config : Config) : Config := { config with disabled := true }

/-- `later` after `config`: its rules come last, and its default action, if any, is the default. -/
def append (config later : Config) : Config :=
  { config with
    rules := config.rules ++ later.rules
    defaultAction := later.defaultAction <|> config.defaultAction
    disabled := config.disabled || later.disabled }

/-- The table is active if and only if it has rules. -/
def activeConstraint (config : Config) : Term :=
  .eq (.symbol (.active config.table)) (.bool config.isActive)

/-- None of the conditions in `earlier`, and then `rest`. -/
def afterMisses (earlier rest : List Term) : Term := .all (earlier.map .not ++ rest)

/-- One implication for each rule, where the rules with the conditions `earlier` come before. -/
def ruleConstraints (table : String) : (earlier : List Term) → List Rule → List Term
  | _, [] => []
  | earlier, rule :: rest =>
    .implies (afterMisses earlier [rule.condition]) (.all (rule.action.equalities table))
      :: ruleConstraints table (earlier ++ [rule.condition]) rest

def defaultConstraints (config : Config) : List Term :=
  match config.defaultAction with
  | some action =>
    [.implies (afterMisses (config.rules.map Rule.condition) []) (.all (action.equalities config.table))]
  | none => []

def constraint (config : Config) : Term :=
  .all (config.activeConstraint :: (ruleConstraints config.table [] config.rules ++ config.defaultConstraints))

end Config

end MatchAction
