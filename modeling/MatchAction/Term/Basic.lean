/-
  MatchAction.Term.Basic — boolean and bit-vector expressions over program fields and symbols.

  Constraints and match predicates are terms. A term carries its type at its leaves;
  `ty` reads it off without checking the operands. `all` and `any` nest to the left, and
  a single member stands for itself.
-/

import MatchAction.Symbol

namespace MatchAction

inductive BinaryOp where
  | eq
  | ne
  | lt
  | le
  | bitAnd
  | shiftLeft
  | sub
  | and
  | or
  deriving DecidableEq, Repr, Inhabited

namespace BinaryOp

def text : BinaryOp → String
  | eq => "=="
  | ne => "!="
  | lt => "<"
  | le => "<="
  | bitAnd => "&"
  | shiftLeft => "<<"
  | sub => "-"
  | and => "&&"
  | or => "||"

/-- Whether the result is boolean whatever the operands are. -/
def isPredicate : BinaryOp → Bool
  | bitAnd | shiftLeft | sub => false
  | _ => true

end BinaryOp

inductive Term where
  | bool (value : Bool)
  | constant (ty : Ty) (value : Nat)
  | symbol (s : Symbol)
  | field (path : String) (ty : Ty)
  | not (operand : Term)
  | binary (op : BinaryOp) (lhs rhs : Term)
  deriving DecidableEq, Repr, Inhabited

namespace Term

/-- The value of a type as a term: a boolean is true for any number but zero. -/
def literal : Ty → Nat → Term
  | .bool, value => .bool (value != 0)
  | .bits w, value => .constant (.bits w) value

def eq (a b : Term) : Term := .binary .eq a b
def ne (a b : Term) : Term := .binary .ne a b
def lt (a b : Term) : Term := .binary .lt a b
def le (a b : Term) : Term := .binary .le a b
def bitAnd (a b : Term) : Term := .binary .bitAnd a b
def shiftLeft (a b : Term) : Term := .binary .shiftLeft a b
def sub (a b : Term) : Term := .binary .sub a b
def and (a b : Term) : Term := .binary .and a b
def or (a b : Term) : Term := .binary .or a b

def implies (a b : Term) : Term := or (not a) b

/-- The conjunction of a list, true when it is empty. -/
def all : List Term → Term
  | [] => .bool true
  | e :: es => es.foldl and e

def any : List Term → Term
  | [] => .bool false
  | e :: es => es.foldl or e

def ty : Term → Ty
  | bool _ | not _ => .bool
  | constant ty _ | field _ ty => ty
  | symbol s => s.ty
  | binary op lhs _ => if op.isPredicate then .bool else lhs.ty

def isTrue : Term → Bool
  | bool true => true
  | _ => false

/-! ## What a term is written like -/

def text : Term → String
  | bool value => toString value
  | constant .bool value => toString value
  | constant (.bits w) value => s!"{w}w{value}"
  | symbol s => s.text
  | field path _ => path
  | not operand => "!(" ++ operand.text ++ ")"
  | binary op lhs rhs => "(" ++ lhs.text ++ " " ++ op.text ++ " " ++ rhs.text ++ ")"

/-! ## The symbols a term mentions -/

def addSymbols (set : SymbolSet) : Term → SymbolSet
  | symbol s => set.add s
  | not operand => operand.addSymbols set
  | binary _ lhs rhs => rhs.addSymbols (lhs.addSymbols set)
  | bool _ | constant _ _ | field _ _ => set

def symbols (e : Term) : SymbolSet := e.addSymbols ∅

end Term

end MatchAction
