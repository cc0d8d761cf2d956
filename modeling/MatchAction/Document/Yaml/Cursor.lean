/-
  MatchAction.Document.Yaml.Cursor — a place in a YAML text.

  A text holds no NUL, so the end reads as one. Line breaks are CR LF, CR, LF, NEL, LS and
  PS; the first four are read as a line feed, the other two as themselves.
-/

namespace MatchAction.Yaml

def endMark : Char := Char.ofNat 0

def isEnd (c : Char) : Bool := c == endMark
def isBlank (c : Char) : Bool := c == ' ' || c == '\t'

def isBreak (c : Char) : Bool :=
  c == '\r' || c == '\n' || c == Char.ofNat 0x85 || c == Char.ofNat 0x2028 || c == Char.ofNat 0x2029

def isBreakOrEnd (c : Char) : Bool := isBreak c || isEnd c
def isSpaceOrEnd (c : Char) : Bool := isBlank c || isBreakOrEnd c

def isWord (c : Char) : Bool := c.isAlphanum || c == '_' || c == '-'

structure Cursor where
  rest : List Char
  /-- How many characters the whole text has; no loop along it takes more steps. -/
  size : Nat
  /-- How many octets of UTF-8 have been read. -/
  index : Nat := 0
  line : Nat := 0
  column : Nat := 0
  deriving Repr, Inhabited

namespace Cursor

def ofChars (chars : List Char) : Cursor := { rest := chars, size := chars.length }

def fuel (c : Cursor) : Nat := c.size + 1

def look (c : Cursor) (n : Nat) : Char := c.rest.getD n endMark

def head (c : Cursor) : Char := c.look 0

def octets (c : Cursor) (n : Nat) : Nat := (c.rest.take n).foldl (fun k x => k + x.utf8Size) 0

def advance (c : Cursor) (n : Nat) : Cursor :=
  { c with rest := c.rest.drop n, index := c.index + c.octets n, column := c.column + n }

def span (c : Cursor) (p : Char → Bool) : List Char × Cursor :=
  let taken := c.rest.takeWhile p
  (taken, c.advance taken.length)

def skipWhile (c : Cursor) (p : Char → Bool) : Cursor := (c.span p).2

def newLine (c : Cursor) (n : Nat) : Cursor :=
  { c with rest := c.rest.drop n, index := c.index + c.octets n, line := c.line + 1, column := 0 }

/-- Goes past a line break, if there is one, and says what it is read as. -/
def takeBreak (c : Cursor) : List Char × Cursor :=
  match c.rest with
  | '\r' :: '\n' :: _ => (['\n'], c.newLine 2)
  | b :: _ =>
    if b == '\r' || b == '\n' || b == Char.ofNat 0x85 then (['\n'], c.newLine 1)
    else if isBreak b then ([b], c.newLine 1)
    else ([], c)
  | [] => ([], c)

def skipBreak (c : Cursor) : Cursor := c.takeBreak.2

def atDocumentMark (c : Cursor) (mark : Char) : Bool :=
  c.column == 0 && c.look 0 == mark && c.look 1 == mark && c.look 2 == mark && isSpaceOrEnd (c.look 3)

def atAnyDocumentMark (c : Cursor) : Bool := c.atDocumentMark '-' || c.atDocumentMark '.'

/-- Goes past blanks and a comment up to the end of the line; none where something else stands there. -/
def skipRestOfLine? (c : Cursor) : Option Cursor :=
  let c := c.skipWhile isBlank
  let c := if c.head == '#' then c.skipWhile (fun x => !isBreak x) else c
  if isBreakOrEnd c.head then some c.skipBreak else none

end Cursor

end MatchAction.Yaml
