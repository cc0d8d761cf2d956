/-
  MatchAction.Octets — byte strings, the numbers they stand for and their hex text.

  A byte string is a big-endian unsigned number; leading zero bytes change nothing and no
  byte at all is zero. Hex text may start with `0x` or `0X`; an odd number of digits is
  read as if a zero stood before them. A text with anything but digits is refused, naming
  the first byte that is none and its place among the digits.
-/

import MatchAction.Text.Quoted

namespace MatchAction

abbrev Octets := List UInt8

/-- The big-endian unsigned number. -/
def Octets.value (octets : Octets) : Nat := octets.foldl (fun n b => n * 256 + b.toNat) 0

namespace Hex

/-- The byte at `position` among the digits is not a digit. -/
structure NotDigit where
  byte : UInt8
  position : Nat
  deriving DecidableEq, Repr

/-- Shows the byte as the character of that code point. -/
def NotDigit.message (e : NotDigit) : String :=
  s!"Invalid character {Text.quoteChar (Char.ofNat e.byte.toNat)} at position {e.position}"

def digit? (byte : UInt8) : Option UInt8 :=
  if 48 ≤ byte && byte ≤ 57 then some (byte - 48)
  else if 97 ≤ byte && byte ≤ 102 then some (byte - 87)
  else if 65 ≤ byte && byte ≤ 70 then some (byte - 55)
  else none

def digits (position : Nat) : Octets → Except NotDigit Octets
  | [] => .ok []
  | byte :: rest => match digit? byte with
    | some d => (digits (position + 1) rest).map (d :: ·)
    | none => .error ⟨byte, position⟩

/-- Two digits to a byte, the high one first. -/
def joinPairs : Octets → Octets
  | high :: low :: rest => (high * 16 + low) :: joinPairs rest
  | _ => []

/-- The bytes of a text without a leading `0x` or `0X`. -/
def dropMark : Octets → Octets
  | 48 :: 120 :: rest => rest
  | 48 :: 88 :: rest => rest
  | bytes => bytes

/-- An even number of digits, with a zero in front if need be. -/
def padEven (bytes : Octets) : Octets := if bytes.length % 2 = 1 then 48 :: bytes else bytes

def decodeBytes (bytes : Octets) : Except NotDigit Octets :=
  (digits 0 (padEven (dropMark bytes))).map joinPairs

def decode (text : String) : Except NotDigit Octets := decodeBytes text.toUTF8.toList

def digitChar (n : Nat) : Char := if n < 10 then Char.ofNat (48 + n) else Char.ofNat (87 + n)

def encode (octets : Octets) : String :=
  String.ofList (octets.flatMap fun b => [digitChar (b.toNat / 16), digitChar (b.toNat % 16)])

end Hex

end MatchAction
