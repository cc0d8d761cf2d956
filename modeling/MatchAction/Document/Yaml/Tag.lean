/-
  MatchAction.Document.Yaml.Tag — tags, anchors and directives as they are written.

  A tag is a handle and a suffix: `!<uri>` has no handle, `!a!b` has the handle `!a!`, any
  other has the handle `!`, and a lone `!` is a suffix without a handle. Octets of a tag
  may be written as `%` and two hex digits; one that is zero ends the tag.
-/

import MatchAction.Document.Yaml.Scalar
import MatchAction.Document.Yaml.Source
import MatchAction.Document.Yaml.Token

namespace MatchAction.Yaml

/-! ## Tags -/

def isUriChar (c : Char) : Bool := isWord c || ";/?:@&=+$.!~*'()".toList.contains c

/-- Characters of a tag that stands between angle brackets or in a directive. -/
def isVerbatimChar (c : Char) : Bool := isUriChar c || c == ',' || c == '[' || c == ']'

def scanOctet? (c : Cursor) : Option (Nat × Cursor) := do
  if c.head == '%' then return (← hexValue? [c.look 1, c.look 2], c.advance 3) else none

def scanContinuation? : (n : Nat) → Cursor → Option (Octets × Cursor)
  | 0, c => some ([], c)
  | n + 1, c => do
    let (octet, c) ← scanOctet? c
    if 0x80 ≤ octet && octet < 0xc0 then
      let (more, c) ← scanContinuation? n c
      return (UInt8.ofNat octet :: more, c)
    else none

def scanEscapedChar? (c : Cursor) : Option (Octets × Cursor) := do
  let (octet, c) ← scanOctet? c
  let (more, c) ← scanContinuation? ((← octetCount? octet) - 1) c
  return (UInt8.ofNat octet :: more, c)

def scanUri? (isChar : Char → Bool) : (fuel : Nat) → Octets → Cursor → Option (Octets × Cursor)
  | 0, octets, c => some (octets, c)
  | fuel + 1, octets, c =>
    if c.head == '%' then do
      let (more, c) ← scanEscapedChar? c
      scanUri? isChar fuel (octets ++ more) c
    else if isChar c.head then scanUri? isChar fuel (octets ++ String.utf8EncodeChar c.head) (c.advance 1)
    else some (octets, c)

def scanUriHere? (isChar : Char → Bool) (c : Cursor) : Option (Octets × Cursor) := scanUri? isChar c.fuel [] c

def upToZero (octets : Octets) : Octets := octets.takeWhile (· != 0)

/-- A `!`, word characters, and perhaps another `!`. -/
def scanHandle (c : Cursor) : List Char × Cursor :=
  let (word, c) := (c.advance 1).span isWord
  if c.head == '!' then ('!' :: word ++ ['!'], c.advance 1) else ('!' :: word, c)

def isNamedHandle (handle : List Char) : Bool := 1 < handle.length && handle.getLast? == some '!'

/-- The tag `!<uri>`. -/
def scanVerbatimTag? (c : Cursor) : Option (Token × Cursor) := do
  let (uri, c) ← scanUriHere? isVerbatimChar (c.advance 2)
  if uri.isEmpty || c.head != '>' then none else return (.tag "" (upToZero uri), c.advance 1)

/-- The tags `!a!b`, `!b` and `!`. -/
def scanShorthandTag? (c : Cursor) : Option (Token × Cursor) := do
  let (handle, c) := scanHandle c
  if isNamedHandle handle then
    let (suffix, c) ← scanUriHere? isUriChar c
    if suffix.isEmpty then none else return (.tag (String.ofList handle) (upToZero suffix), c)
  else
    let (uri, c) ← scanUriHere? isUriChar c
    let suffix := upToZero ((handle.drop 1).flatMap String.utf8EncodeChar ++ uri)
    return (if suffix.isEmpty then .tag "" (String.utf8EncodeChar '!') else .tag "!" suffix, c)

/-- A tag, which a space, a line break or the end follows, or a comma between brackets. -/
def scanTag? (inFlow : Bool) (c : Cursor) : Option (Token × Cursor) := do
  let (token, c) ← if c.look 1 == '<' then scanVerbatimTag? c else scanShorthandTag? c
  if isSpaceOrEnd c.head || (inFlow && c.head == ',') then return (token, c) else none

/-! ## Anchors -/

def endsName (c : Char) : Bool := isSpaceOrEnd c || "?:,]\x7d%@`".toList.contains c

def scanName? (c : Cursor) : Option (String × Cursor) :=
  let (name, c) := (c.advance 1).span isWord
  if name.isEmpty || !endsName c.head then none else some (String.ofList name, c)

/-! ## Directives -/

def scanVersionNumber? (c : Cursor) : Option (Nat × Cursor) :=
  let (digits, c) := c.span Char.isDigit
  if digits.isEmpty || 9 < digits.length then none
  else some (digits.foldl (fun n d => n * 10 + (d.toNat - 48)) 0, c)

def scanVersion? (c : Cursor) : Option (Token × Cursor) := do
  let (major, c) ← scanVersionNumber? (c.skipWhile isBlank)
  if c.head == '.' then
    let (minor, c) ← scanVersionNumber? (c.advance 1)
    return (.versionDirective major minor, c)
  else none

def scanTagDirective? (c : Cursor) : Option (Token × Cursor) := do
  let c := c.skipWhile isBlank
  if c.head != '!' then none
  let (handle, c) := scanHandle c
  if !(isNamedHandle handle || handle.length = 1) || !isBlank c.head then none
  let (start, c) ← scanUriHere? isVerbatimChar (c.skipWhile isBlank)
  if start.isEmpty || !isSpaceOrEnd c.head then none
  return (.tagDirective (String.ofList handle) (upToZero start), c)

def scanDirective? (c : Cursor) : Option (Token × Cursor) := do
  let (name, c) := (c.advance 1).span isWord
  if !isSpaceOrEnd c.head then none
  let (token, c) ←
    if name = "YAML".toList then scanVersion? c
    else if name = "TAG".toList then scanTagDirective? c
    else none
  return (token, ← c.skipRestOfLine?)

end MatchAction.Yaml
