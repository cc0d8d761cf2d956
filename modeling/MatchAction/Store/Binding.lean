/-
  MatchAction.Store.Binding — the action an entry invokes and what it says of the symbols.

  A direct binding fixes the action choice to the action's ordinal and every argument to
  its value. A binding into an action profile fixes the choice alone, to a number that no
  listed action has.
-/

import MatchAction.Program.Basic

namespace MatchAction

structure Argument where
  param : String
  ty : Ty
  value : Nat
  deriving DecidableEq, Repr, Inhabited

inductive ProfileRef where
  | member (id : UInt32)
  | group (id : UInt32)
  deriving DecidableEq, Repr

def ProfileRef.text : ProfileRef → String
  | member id => s!"member {id}"
  | group id => s!"group {id}"

inductive Binding where
  | direct (action : String) (ordinal : UInt32) (arguments : List Argument)
  | profile (target : ProfileRef)
  deriving DecidableEq, Repr

namespace Binding

def choiceIs (table : String) (n : Nat) : Term :=
  .eq (.symbol (.actionChoice table)) (.constant Symbol.choiceTy n)

def argumentIs (table action : String) (arg : Argument) : Term :=
  .eq (.symbol (.actionArgument table action arg.param arg.ty)) (.literal arg.ty arg.value)

/-- The equalities that bind the table's choice and argument symbols. -/
def equalities (table : String) : Binding → List Term
  | direct action ordinal arguments =>
    choiceIs table ordinal.toNat :: arguments.map (argumentIs table action)
  | profile _ => [choiceIs table Symbol.profileChoice]

end Binding

end MatchAction
