/-
  MatchAction.Term.Eval — the value of a term under an assignment of its fields and symbols.

  Operands are evaluated from left to right. `&&` and `||` stop at an operand that decides
  them; every other operator evaluates both operands before it looks at their sorts.
  Equality compares values of any sorts, so a boolean never equals a number.
  Numbers keep their own size: only a shift and a subtraction reduce their result, modulo
  `2 ^ width` of the left operand's type.
-/

import MatchAction.Term.Basic

namespace MatchAction

inductive Value where
  | bool (b : Bool)
  | bits (n : Nat)
  deriving DecidableEq, Repr, Inhabited

/-- What each field path and each symbol stands for, where anything. -/
structure Assignment where
  field : String → Option Value
  symbol : Symbol → Option Value

namespace Assignment

def empty : Assignment := ⟨fun _ => none, fun _ => none⟩

def setField (env : Assignment) (path : String) (v : Value) : Assignment :=
  { env with field := fun p => if p = path then some v else env.field p }

def setSymbol (env : Assignment) (s : Symbol) (v : Value) : Assignment :=
  { env with symbol := fun t => if t = s then some v else env.symbol t }

end Assignment

inductive EvalError where
  | unboundField (path : String)
  | unboundSymbol (name : String)
  /-- A number stands where a boolean is needed. -/
  | notBoolean
  /-- A boolean is an operand of the bit-vector operator `op`. -/
  | notBits (op : BinaryOp)
  deriving DecidableEq, Repr

def EvalError.message : EvalError → String
  | unboundField path => s!"no value bound for field '{path}'"
  | unboundSymbol name => s!"no value bound for symbolic variable '{name}'"
  | notBoolean => "operator 'bool' expects boolean operands"
  | notBits op => "operator '" ++ op.text ++ "' expects bit-vector operands"

namespace Value

def asBool : Value → Except EvalError Bool
  | bool b => .ok b
  | bits _ => .error .notBoolean

def asBits (op : BinaryOp) : Value → Value → Except EvalError (Nat × Nat)
  | bits a, bits b => .ok (a, b)
  | _, _ => .error (.notBits op)

/-- Shifts within `width` bits: what leaves them is dropped. -/
def shiftLeft (width a shift : Nat) : Nat := if shift < width then Ty.wrap width (a <<< shift) else 0

/-- Subtracts modulo `2 ^ width`. -/
def sub (width a b : Nat) : Nat :=
  let a := Ty.wrap width a
  let b := Ty.wrap width b
  if b ≤ a then a - b else a + 2 ^ width - b

end Value

namespace Term

def eval (env : Assignment) : Term → Except EvalError Value
  | bool b => .ok (.bool b)
  | constant _ n => .ok (.bits n)
  | field path _ => match env.field path with
    | some v => .ok v
    | none => .error (.unboundField path)
  | symbol s => match env.symbol s with
    | some v => .ok v
    | none => .error (.unboundSymbol s.name)
  | not operand => do
    let b ← (← operand.eval env).asBool
    return .bool !b
  | binary op lhs rhs => do
    let left ← lhs.eval env
    match op with
    | .and => if ← left.asBool then return .bool (← (← rhs.eval env).asBool) else return .bool false
    | .or => if ← left.asBool then return .bool true else return .bool (← (← rhs.eval env).asBool)
    | .eq => return .bool (left = (← rhs.eval env))
    | .ne => return .bool (left ≠ (← rhs.eval env))
    | .lt =>
      let (a, b) ← left.asBits op (← rhs.eval env)
      return .bool (a < b)
    | .le =>
      let (a, b) ← left.asBits op (← rhs.eval env)
      return .bool (a ≤ b)
    | .bitAnd =>
      let (a, b) ← left.asBits op (← rhs.eval env)
      return .bits (a &&& b)
    | .shiftLeft =>
      let (a, b) ← left.asBits op (← rhs.eval env)
      return .bits (Value.shiftLeft lhs.ty.width a b)
    | .sub =>
      let (a, b) ← left.asBits op (← rhs.eval env)
      return .bits (Value.sub lhs.ty.width a b)

def evalBool (env : Assignment) (e : Term) : Except EvalError Bool := do (← e.eval env).asBool

end Term

end MatchAction
