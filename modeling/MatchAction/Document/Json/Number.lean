/-
  MatchAction.Document.Json.Number — number literals and the values they have.

  A literal is an integer when it has neither a fraction nor an exponent; minus zero is
  none. Any other use needs a double: the leading digits that fit 64 bits, scaled by a
  power of ten, must not leave the range of doubles.
-/

import MatchAction.Octets
import MatchAction.Ty

namespace MatchAction.Json

/-- A literal by its digits; the exponent has a sign of its own. -/
structure Number where
  isNegative : Bool
  whole : List Nat
  fraction : List Nat := []
  exponent : Option (Bool × List Nat) := none
  isInteger : Bool
  deriving DecidableEq, Repr

namespace Number

def ofDigits (digits : List Nat) : Nat := digits.foldl (fun n d => n * 10 + d) 0

def integer? (number : Number) : Option Int :=
  let n := ofDigits number.whole
  if !number.isInteger then none
  else if number.isNegative then (if n = 0 then none else some (-n)) else some n

def natural? (number : Number) : Option Nat :=
  if number.isInteger && !number.isNegative then some (ofDigits number.whole) else none

def widen? (significand digit : Nat) : Option Nat :=
  let next := significand * 10 + digit
  if next < 2 ^ 64 then some next else none

/-- The digits before the point as a significand and a power of ten. -/
def takeWhole : Nat → List Nat → Nat × Int
  | significand, [] => (significand, 0)
  | significand, digit :: rest => match widen? significand digit with
    | some next => takeWhole next rest
    | none => (significand, rest.length + 1)

def takeFraction : Nat × Int → List Nat → Nat × Int
  | scaled, [] => scaled
  | (significand, power), digit :: rest => match widen? significand digit with
    | some next => takeFraction (next, power - 1) rest
    | none => (significand, power)

def exponentValue : Option (Bool × List Nat) → Int
  | none => 0
  | some (isNegative, digits) => if isNegative then -(ofDigits digits) else ofDigits digits

/-- The nearest number of 53 binary digits and trailing zeros; a tie goes to the even one. -/
def roundToDouble (n : Nat) : Nat :=
  let drop := Ty.bitLength n - 53
  if drop = 0 then n
  else
    let kept := n >>> drop
    let rest := n % 2 ^ drop
    let half := 2 ^ (drop - 1)
    (if half < rest || (rest == half && kept % 2 == 1) then kept + 1 else kept) <<< drop

/-- The literal has a double, possibly zero. -/
def isInRange (number : Number) : Bool :=
  let (significand, power) := takeFraction (takeWhole 0 number.whole) number.fraction
  let power := power + exponentValue number.exponent
  significand = 0 || power < 0 || power ≤ 308
    && roundToDouble significand * roundToDouble (10 ^ power.toNat) < 2 ^ 1024 - 2 ^ 970

end Number

end MatchAction.Json
