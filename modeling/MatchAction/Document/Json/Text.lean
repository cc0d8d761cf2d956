/-
  MatchAction.Document.Json.Text — strings of a JSON text.

  Reading a string and knowing what it says are two things: a string that is skipped has
  to have well-formed escapes, and only one that is used has to pair its surrogates and to
  be valid UTF-8.
-/

import MatchAction.Octets

namespace MatchAction.Json

/-- A piece of a string as it is written: a byte for itself, or a UTF-16 unit by its number. -/
inductive Piece where
  | byte (b : UInt8)
  | unit (n : Nat)
  deriving DecidableEq, Repr

def simpleEscape? : UInt8 → Option UInt8
  | 34 => some 34
  | 92 => some 92
  | 47 => some 47
  | 98 => some 8
  | 102 => some 12
  | 110 => some 10
  | 114 => some 13
  | 116 => some 9
  | _ => none

def hexUnit? (a b c d : UInt8) : Option Nat := do
  let digits ← [a, b, c, d].mapM Hex.digit?
  return digits.foldl (fun n x => n * 16 + x.toNat) 0

/-- The pieces after an opening quote, in reverse, and what follows the closing one. -/
def scanPieces : List Piece → Octets → Option (List Piece × Octets)
  | _, [] => none
  | pieces, 34 :: rest => some (pieces, rest)
  | pieces, 92 :: 117 :: a :: b :: c :: d :: rest => match hexUnit? a b c d with
    | some n => scanPieces (.unit n :: pieces) rest
    | none => none
  | pieces, 92 :: c :: rest => match simpleEscape? c with
    | some b => scanPieces (.byte b :: pieces) rest
    | none => none
  | pieces, b :: rest => if b < 32 then none else scanPieces (.byte b :: pieces) rest

def isHighSurrogate (n : Nat) : Bool := 0xd800 ≤ n && n < 0xdc00
def isLowSurrogate (n : Nat) : Bool := 0xdc00 ≤ n && n < 0xe000

/-- The UTF-8 bytes of the pieces, put before `bytes` in reverse; none where a surrogate stands alone. -/
def joinPieces? : Octets → List Piece → Option Octets
  | bytes, [] => some bytes
  | bytes, .byte b :: rest => joinPieces? (b :: bytes) rest
  | bytes, .unit high :: .unit low :: rest =>
    if isHighSurrogate high then
      if isLowSurrogate low then
        let n := 0x10000 + (high - 0xd800) * 0x400 + (low - 0xdc00)
        joinPieces? ((String.utf8EncodeChar (Char.ofNat n)).reverse ++ bytes) rest
      else none
    else if isLowSurrogate high then none
    else joinPieces? ((String.utf8EncodeChar (Char.ofNat high)).reverse ++ bytes) (.unit low :: rest)
  | bytes, .unit n :: rest =>
    if isHighSurrogate n || isLowSurrogate n then none
    else joinPieces? ((String.utf8EncodeChar (Char.ofNat n)).reverse ++ bytes) rest

def textOfPieces? (pieces : List Piece) : Option String := do
  let reversed ← joinPieces? [] pieces
  String.fromUTF8? (ByteArray.mk reversed.reverse.toArray)

def scanString? (bytes : Octets) : Option (Option String × Octets) :=
  (scanPieces [] bytes).map fun (pieces, rest) => (textOfPieces? pieces.reverse, rest)

end MatchAction.Json
