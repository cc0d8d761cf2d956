/-
  MatchAction.Document.Yaml.Scanner — the tokens of a text, in the order in which they count.

  Indentation is made explicit: a deeper block starts one, a shallower line ends those that
  are deeper. Whether a scalar or a bracket starts the key of a mapping is seen only at the
  `:` behind it, on the same line and not far away, so until then its place is kept and the
  tokens from there on are held back. A text that cannot be scanned to its end gives the
  tokens that were not held back at that point. One that cannot be had to its end counts as
  such a text, and a token is only looked for where four characters can be had.
-/

import MatchAction.Document.Yaml.Tag

namespace MatchAction.Yaml

/-- Where a token stands that may turn out to start a key. -/
structure PossibleKey where
  /-- How many tokens precede it. -/
  position : Nat
  index : Nat
  line : Nat
  column : Nat
  /-- Nothing but a key can stand there. -/
  isRequired : Bool
  deriving Repr

structure Scanner where
  cursor : Cursor
  /-- The text goes on behind what can be had of it. -/
  isCut : Bool := false
  /-- How many tokens have been given out. -/
  given : Nat := 0
  /-- The tokens after those. -/
  held : Array Token := #[]
  /-- The column of the innermost block, none at all being before the first. -/
  indent : Int := -1
  outerIndents : List Int := []
  /-- One place for a key outside all brackets and one in each bracket, the innermost first. -/
  keys : List (Option PossibleKey) := [none]
  keyAllowed : Bool := true

namespace Scanner

def flowLevel (s : Scanner) : Nat := s.keys.length - 1

def inFlow (s : Scanner) : Bool := 0 < s.flowLevel

def column (s : Scanner) : Nat := s.cursor.column

def count (s : Scanner) : Nat := s.given + s.held.size

def emit (s : Scanner) (token : Token) : Scanner := { s with held := s.held.push token }

def insert (s : Scanner) (position : Nat) (token : Token) : Scanner :=
  { s with held := s.held.insertIdxIfInBounds (position - s.given) token }

def emitMark (s : Scanner) (token : Token) (n : Nat) : Scanner :=
  { s with held := s.held.push token, cursor := s.cursor.advance n }

def allowKey (s : Scanner) (allowed : Bool) : Scanner := { s with keyAllowed := allowed }

/-! ## Indentation -/

/-- Starts a block at `column`, if that is deeper; its token goes to `position`. -/
def rollIndent (s : Scanner) (column : Nat) (position : Nat) (token : Token) : Scanner :=
  if !s.inFlow && s.indent < column then
    { s.insert position token with indent := column, outerIndents := s.indent :: s.outerIndents }
  else s

def rollIndentHere (s : Scanner) (token : Token) : Scanner := s.rollIndent s.column s.count token

/-- Ends the blocks among `outer` and the current one that are deeper than `column`. -/
def unrollFrom (column : Int) : Int → List Int → Array Token → Int × List Int × Array Token
  | indent, [], tokens => (indent, [], tokens)
  | indent, next :: outer, tokens =>
    if column < indent then unrollFrom column next outer (tokens.push .blockEnd)
    else (indent, next :: outer, tokens)

def unrollIndent (s : Scanner) (column : Int) : Scanner :=
  if s.inFlow then s
  else
    let (indent, outerIndents, held) := unrollFrom column s.indent s.outerIndents s.held
    { s with indent, outerIndents, held }

/-! ## Possible keys -/

/-- Gives up a place for a key that has to be one. -/
def checkGivenUp? : Option PossibleKey → Option Unit
  | some key => if key.isRequired then none else some ()
  | none => some ()

def removeKey? (s : Scanner) : Option Scanner := do
  checkGivenUp? (s.keys.headD none)
  return { s with keys := none :: s.keys.drop 1 }

def saveKey? (s : Scanner) : Option Scanner := do
  if s.keyAllowed then
    let s ← s.removeKey?
    let key : PossibleKey :=
      { position := s.count, index := s.cursor.index, line := s.cursor.line, column := s.column
        isRequired := !s.inFlow && s.indent == s.column }
    return { s with keys := some key :: s.keys.drop 1 }
  else return s

/-- A key is on one line and takes no more than 1024 octets. -/
def isStale (c : Cursor) (key : PossibleKey) : Bool := key.line < c.line || key.index + 1024 < c.index

def dropStale? (s : Scanner) : Option Scanner := do
  let keys ← s.keys.mapM fun
    | some key => if isStale s.cursor key then do checkGivenUp? (some key); return none else some (some key)
    | none => some none
  return { s with keys }

/-- How many tokens come before every place that may start a key. -/
def settled (s : Scanner) : Nat :=
  s.keys.foldl (fun n key => match key with | some key => min n key.position | none => n) s.count

def release (s : Scanner) : List Token × Scanner :=
  let n := s.settled - s.given
  ((s.held.take n).toList, { s with given := s.given + n, held := s.held.drop n })

/-! ## Tokens -/

def skipToToken (fuel : Nat) (s : Scanner) : Scanner :=
  match fuel with
  | 0 => s
  | fuel + 1 =>
    let c := s.cursor
    let c := if c.column == 0 && c.head == Char.ofNat 0xfeff then c.advance 1 else c
    let c := c.skipWhile fun x => x == ' ' || (x == '\t' && (s.inFlow || !s.keyAllowed))
    let c := if c.head == '#' then c.skipWhile (fun x => !isBreak x) else c
    if isBreak c.head then
      skipToToken fuel { s with cursor := c.skipBreak, keyAllowed := s.keyAllowed || !s.inFlow }
    else { s with cursor := c }

def endBlocks? (s : Scanner) : Option Scanner := do
  return (← (s.unrollIndent (-1)).removeKey?).allowKey false

def fetchStreamEnd? (s : Scanner) : Option Scanner := do
  let s := if s.column = 0 then s else { s with cursor := s.cursor.newLine 0 }
  return (← s.endBlocks?).emit .streamEnd

def fetchDirective? (s : Scanner) : Option Scanner := do
  let s ← s.endBlocks?
  let (token, cursor) ← scanDirective? s.cursor
  return { s with cursor }.emit token

def fetchDocumentMark? (s : Scanner) (token : Token) : Option Scanner := do
  return (← s.endBlocks?).emitMark token 3

def fetchFlowStart? (s : Scanner) (token : Token) : Option Scanner := do
  let s ← s.saveKey?
  return ({ s with keys := none :: s.keys }.allowKey true).emitMark token 1

def fetchFlowEnd? (s : Scanner) (token : Token) : Option Scanner := do
  let s ← s.removeKey?
  let keys := if s.inFlow then s.keys.drop 1 else s.keys
  return ({ s with keys }.allowKey false).emitMark token 1

def fetchFlowEntry? (s : Scanner) : Option Scanner := do
  return ((← s.removeKey?).allowKey true).emitMark .flowEntry 1

def openBlock? (s : Scanner) (token : Token) : Option Scanner :=
  if s.inFlow then some s else if s.keyAllowed then some (s.rollIndentHere token) else none

def fetchBlockEntry? (s : Scanner) : Option Scanner := do
  let s ← s.openBlock? .blockSequenceStart
  return ((← s.removeKey?).allowKey true).emitMark .blockEntry 1

def fetchKey? (s : Scanner) : Option Scanner := do
  let s ← s.openBlock? .blockMappingStart
  return ((← s.removeKey?).allowKey (!s.inFlow)).emitMark .key 1

/-- The `:` after a key. Where a key may have started, it did. -/
def fetchValue? (s : Scanner) : Option Scanner := do
  match s.keys.headD none with
  | some key =>
    let s := { s.insert key.position .key with keys := none :: s.keys.drop 1 }
    return ((s.rollIndent key.column key.position .blockMappingStart).allowKey false).emitMark .value 1
  | none =>
    let s ← s.openBlock? .blockMappingStart
    return (s.allowKey (!s.inFlow)).emitMark .value 1

def fetchAlias? (s : Scanner) : Option Scanner := do
  let s ← s.saveKey?
  let (name, cursor) ← scanName? s.cursor
  return ({ s with cursor }.allowKey false).emit (.reference name)

def fetchAnchor? (s : Scanner) : Option Scanner := do
  let s ← s.saveKey?
  let (name, cursor) ← scanName? s.cursor
  return ({ s with cursor }.allowKey false).emit (.anchor name)

def fetchTag? (s : Scanner) : Option Scanner := do
  let s ← s.saveKey?
  let (token, cursor) ← scanTag? s.inFlow s.cursor
  return ({ s with cursor }.allowKey false).emit token

def fetchBlockScalar? (s : Scanner) (style : Style) : Option Scanner := do
  let s ← s.removeKey?
  let (text, cursor) ← scanBlock? (style == .literal) s.indent (s.cursor.advance 1)
  return ({ s with cursor }.allowKey true).emit (.scalar text style)

def fetchQuoted? (s : Scanner) (style : Style) : Option Scanner := do
  let s ← s.saveKey?
  let (text, cursor) ← scanQuoted? s.cursor
  return ({ s with cursor }.allowKey false).emit (.scalar text style)

def fetchPlain? (s : Scanner) : Option Scanner := do
  let s ← s.saveKey?
  let (text, onNewLine, cursor) ← scanPlain? s.inFlow (s.indent + 1) s.cursor
  return ({ s with cursor }.allowKey onNewLine).emit (.scalar text .plain)

def startsPlain (s : Scanner) : Bool :=
  let c := s.cursor
  !(isSpaceOrEnd c.head || "-?:,[]\x7b\x7d#&*!|>'\"%@`".toList.contains c.head)
    || (c.head == '-' && !isBlank (c.look 1))
    || (!s.inFlow && (c.head == '?' || c.head == ':') && !isSpaceOrEnd (c.look 1))

def fetchHere? (s : Scanner) : Option Scanner :=
  let c := s.cursor
  let standsAlone := isSpaceOrEnd (c.look 1)
  if isEnd c.head then s.fetchStreamEnd?
  else if c.column == 0 && c.head == '%' then s.fetchDirective?
  else if c.atDocumentMark '-' then s.fetchDocumentMark? .documentStart
  else if c.atDocumentMark '.' then s.fetchDocumentMark? .documentEnd
  else if c.head == '[' then s.fetchFlowStart? .flowSequenceStart
  else if c.head == '{' then s.fetchFlowStart? .flowMappingStart
  else if c.head == ']' then s.fetchFlowEnd? .flowSequenceEnd
  else if c.head == '}' then s.fetchFlowEnd? .flowMappingEnd
  else if c.head == ',' then s.fetchFlowEntry?
  else if c.head == '-' && standsAlone then s.fetchBlockEntry?
  else if c.head == '?' && (s.inFlow || standsAlone) then s.fetchKey?
  else if c.head == ':' && (s.inFlow || standsAlone) then s.fetchValue?
  else if c.head == '*' then s.fetchAlias?
  else if c.head == '&' then s.fetchAnchor?
  else if c.head == '!' then s.fetchTag?
  else if c.head == '|' && !s.inFlow then s.fetchBlockScalar? .literal
  else if c.head == '>' && !s.inFlow then s.fetchBlockScalar? .folded
  else if c.head == '\'' then s.fetchQuoted? .singleQuoted
  else if c.head == '"' then s.fetchQuoted? .doubleQuoted
  else if s.startsPlain then s.fetchPlain?
  else none

/-- Whether `n` characters from here on can be had; beyond its end a text has as many as one likes. -/
def has (s : Scanner) (n : Nat) : Bool := !s.isCut || (s.cursor.rest.take n).length = n

def fetch? (s : Scanner) : Option Scanner := do
  let s ← (s.skipToToken s.cursor.fuel).dropStale?
  guard (s.has 4)
  let s ← (s.unrollIndent s.column).fetchHere?
  guard (s.has 1)
  s.dropStale?

def run (s : Scanner) : (fuel : Nat) → List Token
  | 0 => []
  | fuel + 1 => match s.fetch? with
    | some s =>
      let (tokens, s) := s.release
      if tokens.getLast? == some .streamEnd then tokens else tokens ++ s.run fuel
    | none => []

end Scanner

/-- The tokens of a text; they end in `streamEnd` if all of it could be scanned. -/
def tokensOf (source : Source) : List Token :=
  let start : Scanner := { cursor := .ofChars source.chars, isCut := source.isCut }
  start.run (start.cursor.fuel + 1)

end MatchAction.Yaml
