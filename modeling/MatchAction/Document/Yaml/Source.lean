/-
  MatchAction.Document.Yaml.Source — the characters of a YAML text, as far as they can be had.

  Octets come in blocks, and a character that the end of a block cuts short is left to the
  next one. A block with octets that are no UTF-8, or with a character that no text may
  hold, gives nothing, and nothing behind it can be had.
-/

import MatchAction.Octets

namespace MatchAction.Yaml

def isAllowed (c : Char) : Bool :=
  let n := c.toNat
  n == 0x09 || n == 0x0a || n == 0x0d || (0x20 ≤ n && n ≤ 0x7e) || n == 0x85 || (0xa0 ≤ n && n ≤ 0xd7ff)
    || (0xe000 ≤ n && n ≤ 0xfffd) || 0x10000 ≤ n

def octetCount? (octet : Nat) : Option Nat :=
  if octet < 0x80 then some 1
  else if 0xc0 ≤ octet && octet < 0xe0 then some 2
  else if 0xe0 ≤ octet && octet < 0xf0 then some 3
  else if 0xf0 ≤ octet && octet < 0xf8 then some 4
  else none

def charsOf? (octets : Octets) : Option (List Char) := do
  let text ← String.fromUTF8? (ByteArray.mk octets.toArray)
  if text.toList.all isAllowed then some text.toList else none

/-- What can be had of a text, and whether that is not all of it. -/
structure Source where
  chars : List Char
  isCut : Bool
  deriving Repr

namespace Source

def blockSize : Nat := 16384

/-- Whether the last `n` octets begin a character that takes more. -/
def endsWithin (block : Octets) (n : Nat) : Bool :=
  match block[block.length - n]? with
  | some octet => n ≤ block.length && n < (octetCount? octet.toNat).getD 0
  | none => false

def wholeCharacters (block : Octets) : Octets :=
  block.take (block.length - ([3, 2, 1].find? (endsWithin block)).getD 0)

def readBlocks : (fuel : Nat) → (chars : List Char) → Octets → Source
  | 0, chars, _ => ⟨chars, true⟩
  | fuel + 1, chars, octets =>
    if octets.isEmpty then ⟨chars, false⟩
    else
      let block := wholeCharacters (octets.take blockSize)
      match charsOf? block with
      | some (c :: more) => readBlocks fuel (chars ++ c :: more) (octets.drop block.length)
      | _ => ⟨chars, true⟩

def ofOctets (octets : Octets) : Source := readBlocks (octets.length + 1) [] octets

end Source

end MatchAction.Yaml
