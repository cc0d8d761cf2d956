/-
  MatchAction.Document.Yaml.Scalar — the text of scalars in each style.

  Between the words of plain and quoted scalars stand gaps: blanks within a line stay, a
  single line break becomes a space and further ones stay. Block scalars keep their lines,
  or join them where they are folded, and end their last line as their header says.
-/

import MatchAction.Document.Yaml.Cursor
import MatchAction.Octets

namespace MatchAction.Yaml

/-! ## Gaps -/

/-- Blanks, or else line breaks, between two words. -/
structure Gap where
  blanks : List Char := []
  hasBreak : Bool := false
  firstBreak : List Char := []
  moreBreaks : List Char := []

/-- What a first line break and those after it amount to in running text. -/
def foldBreaks (firstBreak moreBreaks : List Char) : List Char :=
  if firstBreak = ['\n'] then (if moreBreaks.isEmpty then [' '] else moreBreaks) else firstBreak ++ moreBreaks

def Gap.text (gap : Gap) : List Char :=
  if gap.hasBreak then foldBreaks gap.firstBreak gap.moreBreaks else gap.blanks

/-- Reads on to the next word; a tab before column `indent` of a new line is refused. -/
def scanGap? (indent : Int) : (fuel : Nat) → Gap → Cursor → Option (Gap × Cursor)
  | 0, gap, c => some (gap, c)
  | fuel + 1, gap, c =>
    if isBlank c.head then
      if gap.hasBreak then
        if c.head == '\t' && c.column < indent then none else scanGap? indent fuel gap (c.advance 1)
      else scanGap? indent fuel { gap with blanks := gap.blanks ++ [c.head] } (c.advance 1)
    else if isBreak c.head then
      let (text, c) := c.takeBreak
      if gap.hasBreak then scanGap? indent fuel { gap with moreBreaks := gap.moreBreaks ++ text } c
      else scanGap? indent fuel { gap with blanks := [], hasBreak := true, firstBreak := text } c
    else some (gap, c)

/-! ## Plain scalars -/

def isFlowIndicator (c : Char) : Bool := c == ',' || c == '[' || c == ']' || c == '{' || c == '}'

/-- A word of a plain scalar, put before `text` in reverse; `inFlow` says whether brackets end it. -/
def scanPlainWord? (inFlow : Bool) : (fuel : Nat) → List Char → Cursor → Option (List Char × Cursor)
  | 0, text, c => some (text, c)
  | fuel + 1, text, c =>
    if isSpaceOrEnd c.head then some (text, c)
    else if inFlow && c.head == ':' && (isFlowIndicator (c.look 1) || c.look 1 == '?') then none
    else if (c.head == ':' && isSpaceOrEnd (c.look 1)) || (inFlow && isFlowIndicator c.head) then some (text, c)
    else scanPlainWord? inFlow fuel (c.head :: text) (c.advance 1)

/-- The words from here on. `text` is what was read before `gap`, in reverse. The answer also says
whether the scalar was left on another line than its last word. -/
def scanPlainWords? (inFlow : Bool) (indent : Int) :
    (fuel : Nat) → List Char → Gap → Cursor → Option (List Char × Bool × Cursor)
  | 0, text, gap, c => some (text, gap.hasBreak, c)
  | fuel + 1, text, gap, c =>
    if c.atAnyDocumentMark || c.head == '#' then some (text, gap.hasBreak, c)
    else do
      let (word, c) ← scanPlainWord? inFlow c.fuel [] c
      let (text, gap) := if word.isEmpty then (text, gap) else (word ++ gap.text.reverse ++ text, {})
      if isBlank c.head || isBreak c.head then
        let (gap, c) ← scanGap? indent c.fuel gap c
        if !inFlow && c.column < indent then some (text, gap.hasBreak, c)
        else scanPlainWords? inFlow indent fuel text gap c
      else some (text, gap.hasBreak, c)

def scanPlain? (inFlow : Bool) (indent : Int) (c : Cursor) : Option (String × Bool × Cursor) := do
  let (text, onNewLine, c) ← scanPlainWords? inFlow indent c.fuel [] {} c
  return (String.ofList text.reverse, onNewLine, c)

/-! ## Quoted scalars -/

def simpleEscape? : Char → Option Char
  | '0' => some (Char.ofNat 0)
  | 'a' => some (Char.ofNat 7)
  | 'b' => some (Char.ofNat 8)
  | 't' | '\t' => some '\t'
  | 'n' => some '\n'
  | 'v' => some (Char.ofNat 11)
  | 'f' => some (Char.ofNat 12)
  | 'r' => some '\r'
  | 'e' => some (Char.ofNat 27)
  | ' ' => some ' '
  | '"' => some '"'
  | '/' => some '/'
  | '\\' => some '\\'
  | 'N' => some (Char.ofNat 0x85)
  | '_' => some (Char.ofNat 0xa0)
  | 'L' => some (Char.ofNat 0x2028)
  | 'P' => some (Char.ofNat 0x2029)
  | _ => none

def escapeLength? : Char → Option Nat
  | 'x' => some 2
  | 'u' => some 4
  | 'U' => some 8
  | _ => none

def hexValue? (digits : List Char) : Option Nat :=
  digits.foldlM (fun n d => (Hex.digit? (UInt8.ofNat (min d.toNat 255))).map fun x => n * 16 + x.toNat) 0

def charOf? (n : Nat) : Option Char := if n.isValidChar then some (Char.ofNat n) else none

def scanEscape? (c : Cursor) : Option (Char × Cursor) :=
  match escapeLength? c.head with
  | some length => do
    let digits := (c.rest.drop 1).take length
    if digits.length = length then return (← charOf? (← hexValue? digits), c.advance (length + 1)) else none
  | none => (simpleEscape? c.head).map fun x => (x, c.advance 1)

def scanSingleWord : (fuel : Nat) → List Char → Cursor → List Char × Cursor
  | 0, text, c => (text, c)
  | fuel + 1, text, c =>
    if isSpaceOrEnd c.head then (text, c)
    else if c.head == '\'' then
      if c.look 1 == '\'' then scanSingleWord fuel ('\'' :: text) (c.advance 2) else (text, c)
    else scanSingleWord fuel (c.head :: text) (c.advance 1)

/-- A word of a double-quoted scalar, put before `text` in reverse. The answer also says whether an
escaped line break ended it. -/
def scanDoubleWord? : (fuel : Nat) → List Char → Cursor → Option (List Char × Bool × Cursor)
  | 0, text, c => some (text, false, c)
  | fuel + 1, text, c =>
    if isSpaceOrEnd c.head || c.head == '"' then some (text, false, c)
    else if c.head == '\\' then
      if isBreak (c.look 1) then some (text, true, (c.advance 1).skipBreak)
      else do
        let (x, c) ← scanEscape? (c.advance 1)
        scanDoubleWord? fuel (x :: text) c
    else scanDoubleWord? fuel (c.head :: text) (c.advance 1)

def scanQuotedWords? (quote : Char) : (fuel : Nat) → List Char → Cursor → Option (List Char × Cursor)
  | 0, _, _ => none
  | fuel + 1, text, c =>
    if c.atAnyDocumentMark || isEnd c.head then none
    else do
      let (text, escapedBreak, c) ←
        if quote == '\'' then
          let (text, c) := scanSingleWord c.fuel text c
          some (text, false, c)
        else scanDoubleWord? c.fuel text c
      if c.head == quote then some (text, c.advance 1)
      else
        let (gap, c) ← scanGap? (-1) c.fuel { hasBreak := escapedBreak } c
        scanQuotedWords? quote fuel (gap.text.reverse ++ text) c

def scanQuoted? (c : Cursor) : Option (String × Cursor) := do
  let (text, c) ← scanQuotedWords? c.head c.fuel [] (c.advance 1)
  return (String.ofList text.reverse, c)

/-! ## Block scalars -/

/-- What becomes of the line breaks at the end. -/
inductive Chomping where
  | strip
  | clip
  | keep
  deriving DecidableEq, Repr

structure BlockHeader where
  chomping : Chomping := .clip
  /-- By how much the lines are indented, where that is said. -/
  increment : Option Nat := none

def chomping? : Char → Option Chomping
  | '+' => some .keep
  | '-' => some .strip
  | _ => none

def increment? (c : Char) : Option Nat := if '1' ≤ c && c ≤ '9' then some (c.toNat - 48) else none

def scanBlockHeader? (c : Cursor) : Option (BlockHeader × Cursor) := do
  let header : BlockHeader × Cursor :=
    match chomping? c.head with
    | some chomping => match increment? (c.look 1) with
      | some n => (⟨chomping, some n⟩, c.advance 2)
      | none => (⟨chomping, none⟩, c.advance 1)
    | none => match increment? c.head with
      | some n => match chomping? (c.look 1) with
        | some chomping => (⟨chomping, some n⟩, c.advance 2)
        | none => (⟨.clip, some n⟩, c.advance 1)
      | none => ({}, c)
  return (header.1, ← header.2.skipRestOfLine?)

/-- The line breaks before the next line that is not empty, and the deepest column found on the way. -/
def scanBlockBreaks? (indent : Option Nat) :
    (fuel : Nat) → List Char → Nat → Cursor → Option (List Char × Nat × Cursor)
  | 0, breaks, deepest, c => some (breaks, deepest, c)
  | fuel + 1, breaks, deepest, c =>
    let limit := match indent with
      | some n => n - c.column
      | none => c.size
    let c := c.advance ((c.rest.take limit).takeWhile (· == ' ')).length
    let deepest := max deepest c.column
    let isIndentation := match indent with
      | some n => c.column < n
      | none => true
    if isIndentation && c.head == '\t' then none
    else if isBreak c.head then
      let (text, c) := c.takeBreak
      scanBlockBreaks? indent fuel (breaks ++ text) deepest c
    else some (breaks, deepest, c)

/-- The lines of a block scalar that are indented by `indent`, put behind `text` in reverse. The line
break after the last of them and the empty lines that follow are given apart. -/
def scanBlockLines? (isLiteral : Bool) (indent : Nat) (fuel : Nat) (text firstBreak moreBreaks : List Char)
    (afterBlank : Bool) (c : Cursor) : Option (List Char × List Char × List Char × Cursor) :=
  match fuel with
  | 0 => some (text, firstBreak, moreBreaks, c)
  | fuel + 1 =>
    if c.column ≠ indent || isEnd c.head then some (text, firstBreak, moreBreaks, c)
    else do
      let startsBlank := isBlank c.head
      let isFolded := !isLiteral && firstBreak == ['\n'] && !afterBlank && !startsBlank
      let gap := if isFolded then foldBreaks firstBreak moreBreaks else firstBreak ++ moreBreaks
      let (line, c) := c.span (fun x => !isBreak x)
      let (firstBreak, c) := c.takeBreak
      let (moreBreaks, _, c) ← scanBlockBreaks? (some indent) c.fuel [] 0 c
      scanBlockLines? isLiteral indent fuel (line.reverse ++ gap.reverse ++ text) firstBreak moreBreaks startsBlank c

def scanBlock? (isLiteral : Bool) (parent : Int) (c : Cursor) : Option (String × Cursor) := do
  let (header, c) ← scanBlockHeader? c
  let fuel := c.fuel
  let given := header.increment.map fun n => (if 0 ≤ parent then parent else 0).toNat + n
  let (breaks, deepest, c) ← scanBlockBreaks? given fuel [] 0 c
  let indent := given.getD (max (max deepest (parent + 1).toNat) 1)
  let (text, firstBreak, moreBreaks, c) ← scanBlockLines? isLiteral indent fuel [] [] breaks false c
  let tail := match header.chomping with
    | .strip => []
    | .clip => firstBreak
    | .keep => firstBreak ++ moreBreaks
  return (String.ofList (text.reverse ++ tail), c)

end MatchAction.Yaml
