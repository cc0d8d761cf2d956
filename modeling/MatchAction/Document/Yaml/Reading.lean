/-
  MatchAction.Document.Yaml.Reading — what a scalar can be read as.

  Any scalar is a text. Only a plain one is a number, a flag or nothing, unless it is
  written literally and tagged as that. Integers are decimal, without leading zeros, or
  start with `0x`, `0o` or `0b`; the sign of a prefixed one comes first.

  A scalar that is merely kept has to be what its tag says, and must not be an integer
  that fits 128 bits but not 64.
-/

import MatchAction.Document.Tree
import MatchAction.Document.Yaml.Node
import MatchAction.Octets
import MatchAction.Ty

namespace MatchAction.Yaml

def coreTag (name : String) : Octets := ("tag:yaml.org,2002:" ++ name).toUTF8.toList

def isLocalTag (tag : Octets) : Bool := tag.head? == some 33

def isNullText (text : String) : Bool := ["null", "Null", "NULL", "~"].contains text

def flagOf? (text : String) : Option Bool :=
  if ["true", "True", "TRUE"].contains text then some true
  else if ["false", "False", "FALSE"].contains text then some false
  else none

/-! ## Integers -/

def digitBelow? (base : Nat) (c : Char) : Option Nat := do
  let d ← Hex.digit? (UInt8.ofNat (min c.toNat 255))
  if d.toNat < base then some d.toNat else none

def ofDigits? (base : Nat) (digits : List Char) : Option Nat :=
  if digits.isEmpty then none
  else digits.foldlM (fun n c => (digitBelow? base c).map (n * base + ·)) 0

def isSign (c : Char) : Bool := c == '+' || c == '-'

def dropSign : List Char → List Char
  | c :: rest => if isSign c then rest else c :: rest
  | [] => []

/-- Several digits of which the first is zero: a text, not a number. -/
def hasLeadingZero (text : List Char) : Bool :=
  match dropSign text with
  | '0' :: rest => !rest.isEmpty && rest.all Char.isDigit
  | _ => false

def takeBase? : List Char → Option (Nat × List Char)
  | '0' :: 'x' :: rest => some (16, rest)
  | '0' :: 'o' :: rest => some (8, rest)
  | '0' :: 'b' :: rest => some (2, rest)
  | _ => none

def magnitudeOf? (text : List Char) : Option Nat :=
  match takeBase? text with
  | some (base, digits) => ofDigits? base digits
  | none => if hasLeadingZero text then none else ofDigits? 10 text

def naturalOf? : List Char → Option Nat
  | '+' :: rest => magnitudeOf? rest
  | text => magnitudeOf? text

def negativeOf? : List Char → Option Nat
  | '-' :: rest => magnitudeOf? rest
  | _ => none

def integerOf? (text : List Char) : Option Int :=
  match negativeOf? text with
  | some n => some (-n)
  | none => (naturalOf? text).map Int.ofNat

def isWordSized (text : List Char) : Bool :=
  match negativeOf? text, naturalOf? text with
  | some n, _ => n ≤ 2 ^ 63
  | none, some n => n < 2 ^ 64
  | none, none => false

def isOversized (text : List Char) : Bool :=
  match negativeOf? text, naturalOf? text with
  | some n, _ => 2 ^ 63 < n && n ≤ 2 ^ 127
  | none, some n => 2 ^ 64 ≤ n && n < 2 ^ 128
  | none, none => false

/-! ## Floating-point numbers -/

/-- Digits, perhaps with a point among or beside them: the digits, and how many follow the point. -/
def takeMantissa? (text : List Char) : Option (List Char × Nat × List Char) :=
  let whole := text.takeWhile Char.isDigit
  match text.dropWhile Char.isDigit with
  | '.' :: rest =>
    let fraction := rest.takeWhile Char.isDigit
    if whole.isEmpty && fraction.isEmpty then none
    else some (whole ++ fraction, fraction.length, rest.dropWhile Char.isDigit)
  | rest => if whole.isEmpty then none else some (whole, 0, rest)

def exponentOf? : List Char → Option Int
  | [] => some 0
  | e :: rest =>
    if e == 'e' || e == 'E' then do
      let n ← ofDigits? 10 (dropSign rest)
      return if rest.head? == some '-' then -n else n
    else none

/-- Whether the number `digits`, scaled by a power of ten, rounds to a finite double. -/
def isFinite (digits : Nat) (power : Int) : Bool :=
  let limit := 2 ^ 1024 - 2 ^ 970
  if digits = 0 then true
  else if 400 < power then false
  else if 0 ≤ power then digits * 10 ^ power.toNat < limit
  else if power < -100000 then true
  else digits < limit * 10 ^ (-power).toNat

def isFiniteDecimal (text : List Char) : Bool :=
  match takeMantissa? text with
  | none => false
  | some (digits, places, rest) => match exponentOf? rest, ofDigits? 10 digits with
    | some power, some n => isFinite n (power - places)
    | _, _ => false

def isFloatText (text : String) : Bool :=
  [".inf", ".Inf", ".INF", "+.inf", "+.Inf", "+.INF", "-.inf", "-.Inf", "-.INF", ".nan", ".NaN", ".NAN"].contains text
    || isFiniteDecimal (dropSign text.toList)

/-! ## Scalars -/

/-- Whether the scalar may be read as what `kind` tags: plain ones may, and literal ones so tagged. -/
def reads (kind : String) (tag : Option Octets) (style : Style) : Bool :=
  style == .plain || (style == .literal && tag == some (coreTag kind))

def presenceOf (tag : Option Octets) (text : String) (style : Style) : Presence :=
  if style != .plain then .present
  else match tag with
    | none => if text.isEmpty || isNullText text then .absent else .present
    | some tag =>
      if tag == coreTag "null" then (if isNullText text then .absent else .contradictory) else .present

def hasValue (tag : Option Octets) (text : String) (style : Style) : Bool :=
  match tag with
  | some tag =>
    if tag == coreTag "bool" then (flagOf? text).isSome
    else if tag == coreTag "int" then isWordSized text.toList
    else if tag == coreTag "float" then isFloatText text
    else if tag == coreTag "null" then isNullText text
    else !(isLocalTag tag && style == .plain && isOversized text.toList)
  | none => style != .plain || !isOversized text.toList

def scalarOf (tag : Option Octets) (text : String) (style : Style) : Scalar where
  text? := some text
  natural? := if reads "int" tag style then naturalOf? text.toList else none
  integer? := if reads "int" tag style then integerOf? text.toList else none
  flag? := if reads "bool" tag style then flagOf? text else none
  presence := presenceOf tag text style
  isBlank := style == .plain && text.isEmpty
  isUnit := style == .plain && (text.isEmpty || isNullText text)
  hasValue := hasValue tag text style

end MatchAction.Yaml
