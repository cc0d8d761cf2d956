/-
  MatchAction.Document.Json.Reader — the tree of a JSON text.

  The grammar is strict: no comments, no trailing commas, no digits after a leading zero,
  no control characters in strings. A text that breaks off gives the tree as far as it
  goes. A leaf admits one reading, except that nothing else than `null` is nothing.
-/

import MatchAction.Document.Decode
import MatchAction.Document.Json.Number
import MatchAction.Document.Json.Text

namespace MatchAction

/-- Records may be written as lists, and a record of one member names a variant. -/
def Dialect.json : Dialect := ⟨true, true, 127, false⟩

namespace Json

def nullScalar : Scalar := { presence := .absent, isUnit := true }

def flagScalar (flag : Bool) : Scalar := { flag? := some flag }

/-- A string that says nothing has bad surrogates or bytes. -/
def textScalar (text : Option String) : Scalar := { text? := text, hasValue := text.isSome }

def numberScalar (number : Number) : Scalar :=
  { natural? := number.natural?, integer? := number.integer?, hasValue := number.isInRange }

def isBlank (b : UInt8) : Bool := b == 32 || b == 10 || b == 9 || b == 13

def skipBlanks (bytes : Octets) : Octets := bytes.dropWhile isBlank

def isDigit (b : UInt8) : Bool := 48 ≤ b && b ≤ 57

def takeDigits (bytes : Octets) : List Nat × Octets :=
  ((bytes.takeWhile isDigit).map fun b => b.toNat - 48, bytes.dropWhile isDigit)

/-- The integral part: a zero alone, or digits that do not start with one. -/
def scanWhole? (bytes : Octets) : Option (List Nat × Octets) :=
  match takeDigits bytes with
  | ([], _) => none
  | (0 :: _ :: _, _) => none
  | found => some found

def scanFraction? : Octets → Option (List Nat × Octets)
  | 46 :: rest => match takeDigits rest with
    | ([], _) => none
    | found => some found
  | bytes => some ([], bytes)

def scanExponentDigits? (isNegative : Bool) (bytes : Octets) : Option (Option (Bool × List Nat) × Octets) :=
  match takeDigits bytes with
  | ([], _) => none
  | (digits, rest) => some (some (isNegative, digits), rest)

def scanExponent? : Octets → Option (Option (Bool × List Nat) × Octets)
  | 101 :: 43 :: rest | 69 :: 43 :: rest => scanExponentDigits? false rest
  | 101 :: 45 :: rest | 69 :: 45 :: rest => scanExponentDigits? true rest
  | 101 :: rest | 69 :: rest => scanExponentDigits? false rest
  | bytes => some (none, bytes)

def scanNumber? (isNegative : Bool) (bytes : Octets) : Option (Number × Octets) := do
  let (whole, afterWhole) ← scanWhole? bytes
  let (fraction, afterFraction) ← scanFraction? afterWhole
  let (exponent, rest) ← scanExponent? afterFraction
  return (⟨isNegative, whole, fraction, exponent, fraction.isEmpty && exponent.isNone⟩, rest)

/-- A tree and what follows it, where it could be read to its end. -/
abbrev Scan := Tree × Option Octets

def broken : Scan := (.unreadable, none)

def leaf (scalar : Option (Scalar × Octets)) : Scan :=
  match scalar with
  | some (readings, rest) => (.scalar readings, some rest)
  | none => broken

mutual

def scanValue : (fuel : Nat) → Octets → Scan
  | 0, _ => broken
  | fuel + 1, bytes => match bytes with
    | 110 :: 117 :: 108 :: 108 :: rest => (.scalar nullScalar, some rest)
    | 116 :: 114 :: 117 :: 101 :: rest => (.scalar (flagScalar true), some rest)
    | 102 :: 97 :: 108 :: 115 :: 101 :: rest => (.scalar (flagScalar false), some rest)
    | 34 :: rest => leaf ((scanString? rest).map fun (text, rest) => (textScalar text, rest))
    | 45 :: rest => leaf ((scanNumber? true rest).map fun (number, rest) => (numberScalar number, rest))
    | 91 :: rest => match skipBlanks rest with
      | 93 :: rest => (.list [], some rest)
      | rest =>
        let (items, rest) := scanItems fuel [] rest
        (.list items.reverse, rest)
    | 123 :: rest => match skipBlanks rest with
      | 125 :: rest => (.record [], some rest)
      | rest =>
        let (members, rest) := scanMembers fuel [] rest
        (.record members.reverse, rest)
    | b :: _ =>
      if isDigit b then leaf ((scanNumber? false bytes).map fun (number, rest) => (numberScalar number, rest))
      else broken
    | [] => broken

/-- Items from the first byte up to the closing bracket, put before `items` in reverse. -/
def scanItems : (fuel : Nat) → List Tree → Octets → List Tree × Option Octets
  | 0, items, _ => (.unreadable :: items, none)
  | fuel + 1, items, bytes => match scanValue fuel bytes with
    | (item, none) => (item :: items, none)
    | (item, some rest) => match skipBlanks rest with
      | 93 :: rest => (item :: items, some rest)
      | 44 :: rest => scanItems fuel (item :: items) (skipBlanks rest)
      | _ => (.unreadable :: item :: items, none)

def scanMembers : (fuel : Nat) → List (Tree × Tree) → Octets → List (Tree × Tree) × Option Octets
  | 0, members, _ => ((.unreadable, .unreadable) :: members, none)
  | fuel + 1, members, bytes =>
    let (key, rest) := scanKey bytes
    match rest with
    | none => ((key, .unreadable) :: members, none)
    | some rest => match scanValue fuel rest with
      | (value, none) => ((key, value) :: members, none)
      | (value, some rest) => match skipBlanks rest with
        | 125 :: rest => ((key, value) :: members, some rest)
        | 44 :: rest => scanMembers fuel ((key, value) :: members) (skipBlanks rest)
        | _ => ((.unreadable, .unreadable) :: (key, value) :: members, none)

def scanKey : Octets → Scan
  | 34 :: rest => match scanString? rest with
    | some (text, rest) => match skipBlanks rest with
      | 58 :: rest => (.scalar (textScalar text), some (skipBlanks rest))
      | _ => (.scalar (textScalar text), none)
    | none => broken
  | _ => broken

end

def read (bytes : Octets) : Document :=
  match scanValue (2 * bytes.length + 2) (skipBlanks bytes) with
  | (root, some rest) => { root, isComplete := (skipBlanks rest).isEmpty }
  | (root, none) => { root, isComplete := false }

end Json

end MatchAction
