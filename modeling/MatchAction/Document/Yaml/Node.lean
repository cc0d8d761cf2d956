/-
  MatchAction.Document.Yaml.Node — the nodes of the first document of a text.

  A node is a scalar, a sequence, a mapping or an alias, with the tag that it resolves to.
  Where the tokens end or do not fit, the node is cut there and nothing more is read.

  Anchors are numbered by how many different names came before, so that a name given again
  may share a number with a later one; an alias takes the number that its name has at that
  point, and a number stands for the node that got it last, wherever the alias is.
-/

import MatchAction.Document.Yaml.Token

namespace MatchAction.Yaml

inductive Node where
  | scalar (tag : Option Octets) (text : String) (style : Style)
  | sequence (tag : Option Octets) (items : List Node)
  | mapping (tag : Option Octets) (members : List (Node × Node))
  | reference (number : Nat)
  /-- Nothing can be read from here on. -/
  | cut
  deriving Repr, Inhabited

namespace Node

/-- What stands where a value is left out. -/
def blank : Node := scalar none "" .plain

mutual

/-- How many beginnings, ends, scalars and aliases make up the node, as if it had been read to its end. -/
def eventCount : Node → Nat
  | scalar _ _ _ | reference _ => 1
  | sequence _ items => 2 + eventCounts items
  | mapping _ members => 2 + memberEventCounts members
  | cut => 0

def eventCounts : List Node → Nat
  | [] => 0
  | item :: rest => item.eventCount + eventCounts rest

def memberEventCounts : List (Node × Node) → Nat
  | [] => 0
  | (key, value) :: rest => key.eventCount + value.eventCount + memberEventCounts rest

end

mutual

/-- How many sequences and mappings were still open where reading stopped, if it did. -/
def openCount? : Node → Option Nat
  | scalar _ _ _ | reference _ => none
  | sequence _ items => (openCounts? items).map (· + 1)
  | mapping _ members => (memberOpenCounts? members).map (· + 1)
  | cut => some 0

def openCounts? : List Node → Option Nat
  | [] => none
  | item :: rest => item.openCount? <|> openCounts? rest

def memberOpenCounts? : List (Node × Node) → Option Nat
  | [] => none
  | (key, value) :: rest => key.openCount? <|> value.openCount? <|> memberOpenCounts? rest

end

def size (node : Node) : Nat := node.eventCount - node.openCount?.getD 0

end Node

structure Composer where
  tokens : List Token
  /-- How many tokens there were; nothing has more parts. -/
  size : Nat
  /-- Reading stopped at something that does not fit. -/
  isBroken : Bool := false
  /-- What the handles of tags stand for. -/
  handles : List (String × Octets) := []
  /-- The number that each anchor name has by now. -/
  names : List (String × Nat) := []
  /-- How many anchors have been begun. -/
  begun : Nat := 0
  /-- Numbers of anchors, how many were begun before each, and their nodes. -/
  anchored : List (Nat × Nat × Node) := []

namespace Composer

def stop (c : Composer) : Composer := { c with tokens := [], isBroken := true }

def goOn (c : Composer) (tokens : List Token) : Composer := { c with tokens }

/-- Gives `anchor` its number; the answer is what to record when the node is complete. -/
def beginAnchor (c : Composer) : Option String → Option (Nat × Nat) × Composer
  | none => (none, c)
  | some name =>
    let number := c.names.length
    let names := (name, number) :: c.names.filter (·.1 != name)
    (some (number, c.begun), { c with names, begun := c.begun + 1 })

def endAnchor (c : Composer) (anchor : Option (Nat × Nat)) (node : Node) : Composer :=
  match anchor with
  | some (number, order) => { c with anchored := (number, order, node) :: c.anchored }
  | none => c

/-- The node that a number stands for: the one that was begun last. -/
def target? (c : Composer) (number : Nat) : Option Node :=
  let candidates := c.anchored.filter (·.1 == number)
  let last := candidates.foldl (fun n e => max n e.2.1) 0
  (candidates.find? (·.2.1 == last)).map (·.2.2)

def targets (c : Composer) : List (Nat × Node) :=
  (List.range c.begun).filterMap fun number => (c.target? number).map (number, ·)

def resolveTag? (c : Composer) (handle : String) (suffix : Octets) : Option Octets :=
  if handle.isEmpty then some suffix else (c.handles.lookup handle).map (· ++ suffix)

structure Properties where
  anchor : Option String := none
  tag : Option (String × Octets) := none

def takeProperties : List Token → Properties × List Token
  | .anchor name :: .tag handle suffix :: rest => (⟨some name, some (handle, suffix)⟩, rest)
  | .tag handle suffix :: .anchor name :: rest => (⟨some name, some (handle, suffix)⟩, rest)
  | .anchor name :: rest => (⟨some name, none⟩, rest)
  | .tag handle suffix :: rest => (⟨none, some (handle, suffix)⟩, rest)
  | tokens => ({}, tokens)

/-- Reads a node. `inBlock` says whether it may be an indented block, `indentless` whether it may be a
sequence that is not indented. -/
abbrev NodeReader := (inBlock indentless : Bool) → Composer → Node × Composer

/-- The items of an indented sequence, put before `items` in reverse. -/
def takeBlockItems (node : NodeReader) : (fuel : Nat) → List Node → Composer → List Node × Composer
  | 0, items, c => (.cut :: items, c.stop)
  | fuel + 1, items, c =>
    match c.tokens with
    | .blockEnd :: rest => (items, c.goOn rest)
    | .blockEntry :: .blockEntry :: rest =>
      takeBlockItems node fuel (.blank :: items) (c.goOn (.blockEntry :: rest))
    | .blockEntry :: .blockEnd :: rest =>
      takeBlockItems node fuel (.blank :: items) (c.goOn (.blockEnd :: rest))
    | .blockEntry :: rest =>
      let (item, c) := node true false (c.goOn rest)
      if c.isBroken then (item :: items, c) else takeBlockItems node fuel (item :: items) c
    | _ => (.cut :: items, c.stop)

def takeIndentless (node : NodeReader) : (fuel : Nat) → List Node → Composer → List Node × Composer
  | 0, items, c => (.cut :: items, c.stop)
  | fuel + 1, items, c =>
    match c.tokens with
    | .blockEntry :: rest =>
      match rest with
      | .blockEntry :: _ | .key :: _ | .value :: _ | .blockEnd :: _ =>
        takeIndentless node fuel (.blank :: items) (c.goOn rest)
      | _ =>
        let (item, c) := node true false (c.goOn rest)
        if c.isBroken then (item :: items, c) else takeIndentless node fuel (item :: items) c
    | [] => (.cut :: items, c.stop)
    | _ => (items, c)

def takeBlockPart (node : NodeReader) (c : Composer) : Node × Composer :=
  match c.tokens with
  | .key :: _ | .value :: _ | .blockEnd :: _ => (.blank, c)
  | _ => node true true c

def takeBlockValue (node : NodeReader) (c : Composer) : Node × Composer :=
  match c.tokens with
  | .value :: rest => takeBlockPart node (c.goOn rest)
  | [] => (.cut, c.stop)
  | _ => (.blank, c)

def takeBlockMembers (node : NodeReader) :
    (fuel : Nat) → List (Node × Node) → Composer → List (Node × Node) × Composer
  | 0, members, c => ((.cut, .cut) :: members, c.stop)
  | fuel + 1, members, c =>
    match c.tokens with
    | .blockEnd :: rest => (members, c.goOn rest)
    | .key :: rest =>
      let (key, c) := takeBlockPart node (c.goOn rest)
      if c.isBroken then ((key, .cut) :: members, c)
      else
        let (value, c) := takeBlockValue node c
        if c.isBroken then ((key, value) :: members, c)
        else takeBlockMembers node fuel ((key, value) :: members) c
    | _ => ((.cut, .cut) :: members, c.stop)

def takeFlowValue (node : NodeReader) (close : Token) (c : Composer) : Node × Composer :=
  match c.tokens with
  | .value :: next :: rest =>
    if next == .flowEntry || next == close then (.blank, c.goOn (next :: rest))
    else node false false (c.goOn (next :: rest))
  | .value :: [] | [] => (.cut, c.stop)
  | _ => (.blank, c)

/-- The key of a single member between brackets. One that is left out takes the token after it along. -/
def takePairKey (node : NodeReader) (c : Composer) : Node × Composer :=
  match c.tokens with
  | .value :: rest | .flowEntry :: rest | .flowSequenceEnd :: rest => (.blank, c.goOn rest)
  | _ => node false false c

def takePair (node : NodeReader) (c : Composer) : Node × Composer :=
  let (key, c) := takePairKey node c
  if c.isBroken then (.mapping none [(key, .cut)], c)
  else
    let (value, c) := takeFlowValue node .flowSequenceEnd c
    (.mapping none [(key, value)], c)

def takeFlowItem (node : NodeReader) (c : Composer) : Node × Composer :=
  match c.tokens with
  | .key :: rest => takePair node (c.goOn rest)
  | _ => node false false c

def takeFlowItems (node : NodeReader) :
    (fuel : Nat) → (isFirst : Bool) → List Node → Composer → List Node × Composer
  | 0, _, items, c => (.cut :: items, c.stop)
  | fuel + 1, isFirst, items, c =>
    match isFirst, c.tokens with
    | _, .flowSequenceEnd :: rest => (items, c.goOn rest)
    | false, .flowEntry :: .flowSequenceEnd :: rest => (items, c.goOn rest)
    | true, tokens | false, .flowEntry :: tokens =>
      let (item, c) := takeFlowItem node (c.goOn tokens)
      if c.isBroken then (item :: items, c) else takeFlowItems node fuel false (item :: items) c
    | false, _ => (.cut :: items, c.stop)

def takeFlowKey (node : NodeReader) (c : Composer) : Node × Composer :=
  match c.tokens with
  | .value :: _ | .flowEntry :: _ | .flowMappingEnd :: _ => (.blank, c)
  | _ => node false false c

def takeFlowMember (node : NodeReader) (c : Composer) : (Node × Node) × Composer :=
  match c.tokens with
  | .key :: rest =>
    let (key, c) := takeFlowKey node (c.goOn rest)
    if c.isBroken then ((key, .cut), c)
    else
      let (value, c) := takeFlowValue node .flowMappingEnd c
      ((key, value), c)
  | _ =>
    let (key, c) := node false false c
    if c.tokens.isEmpty then ((key, .cut), c.stop) else ((key, .blank), c)

def takeFlowMembers (node : NodeReader) :
    (fuel : Nat) → (isFirst : Bool) → List (Node × Node) → Composer → List (Node × Node) × Composer
  | 0, _, members, c => ((.cut, .cut) :: members, c.stop)
  | fuel + 1, isFirst, members, c =>
    match isFirst, c.tokens with
    | _, .flowMappingEnd :: rest => (members, c.goOn rest)
    | false, .flowEntry :: .flowMappingEnd :: rest => (members, c.goOn rest)
    | true, tokens | false, .flowEntry :: tokens =>
      let (member, c) := takeFlowMember node (c.goOn tokens)
      if c.isBroken then (member :: members, c) else takeFlowMembers node fuel false (member :: members) c
    | false, _ => ((.cut, .cut) :: members, c.stop)

/-- An empty scalar, where properties stand for one. -/
def takeNothing (anchor : Option String) (tag : Option Octets) (c : Composer) : Node × Composer :=
  if c.tokens.isEmpty || (anchor.isNone && tag.isNone) then (.cut, c.stop)
  else
    let (mark, c) := c.beginAnchor anchor
    (.scalar tag "" .plain, c.endAnchor mark (.scalar tag "" .plain))

def takeSequence (anchor : Option String) (tag : Option Octets) (c : Composer)
    (take : Composer → List Node × Composer) : Node × Composer :=
  let (mark, c) := c.beginAnchor anchor
  let (items, c) := take c
  (.sequence tag items.reverse, c.endAnchor mark (.sequence tag items.reverse))

def takeMapping (anchor : Option String) (tag : Option Octets) (c : Composer)
    (take : Composer → List (Node × Node) × Composer) : Node × Composer :=
  let (mark, c) := c.beginAnchor anchor
  let (members, c) := take c
  (.mapping tag members.reverse, c.endAnchor mark (.mapping tag members.reverse))

def takeContent (node : NodeReader) (inBlock indentless : Bool) (anchor : Option String) (tag : Option Octets)
    (c : Composer) : Node × Composer :=
  let fuel := c.size + 1
  match c.tokens with
  | .scalar text style :: rest =>
    let (mark, c) := c.beginAnchor anchor
    (.scalar tag text style, (c.goOn rest).endAnchor mark (.scalar tag text style))
  | .flowSequenceStart :: rest => takeSequence anchor tag (c.goOn rest) (takeFlowItems node fuel true [])
  | .flowMappingStart :: rest => takeMapping anchor tag (c.goOn rest) (takeFlowMembers node fuel true [])
  | .blockSequenceStart :: rest =>
    if inBlock then takeSequence anchor tag (c.goOn rest) (takeBlockItems node fuel [])
    else takeNothing anchor tag c
  | .blockMappingStart :: rest =>
    if inBlock then takeMapping anchor tag (c.goOn rest) (takeBlockMembers node fuel [])
    else takeNothing anchor tag c
  | .blockEntry :: _ =>
    if indentless then takeSequence anchor tag c (takeIndentless node fuel []) else takeNothing anchor tag c
  | _ => takeNothing anchor tag c

def takeNode : (fuel : Nat) → NodeReader
  | 0, _, _, c => (.cut, c.stop)
  | fuel + 1, inBlock, indentless, c =>
    match c.tokens with
    | .reference name :: rest => match c.names.lookup name with
      | some number => (.reference number, c.goOn rest)
      | none => (.cut, c.stop)
    | tokens =>
      let (properties, tokens) := takeProperties tokens
      let content := takeContent (takeNode fuel) inBlock indentless properties.anchor
      match properties.tag with
      | none => content none (c.goOn tokens)
      | some (handle, suffix) => match c.resolveTag? handle suffix with
        | some tag => content (some tag) (c.goOn tokens)
        | none => (.cut, c.stop)

def defaultHandles : List (String × Octets) :=
  [("!", "!".toUTF8.toList), ("!!", "tag:yaml.org,2002:".toUTF8.toList)]

def takeDirectives? (hasVersion : Bool) (handles : List (String × Octets)) :
    List Token → Option (List (String × Octets) × List Token)
  | .versionDirective major minor :: rest =>
    if hasVersion || major ≠ 1 || (minor ≠ 1 && minor ≠ 2) then none else takeDirectives? true handles rest
  | .tagDirective handle start :: rest =>
    if (handles.lookup handle).isSome then none else takeDirectives? hasVersion ((handle, start) :: handles) rest
  | tokens => some (handles, tokens)

def endsDocument : Token → Bool
  | .versionDirective _ _ | .tagDirective _ _ | .documentStart | .documentEnd | .streamEnd => true
  | _ => false

def isDirective : Token → Bool
  | .versionDirective _ _ | .tagDirective _ _ => true
  | _ => false

def takeRoot (tokens : List Token) : Option Node × Composer :=
  let c : Composer := { tokens, size := tokens.length, handles := defaultHandles }
  let fuel := c.size + 1
  let root (node : Node × Composer) := (some node.1, node.2)
  match tokens with
  | .streamEnd :: _ => (none, c)
  | first :: _ =>
    if isDirective first || first == .documentStart then
      match takeDirectives? false [] tokens with
      | some (handles, .documentStart :: rest) =>
        let c := { c with tokens := rest, handles := handles ++ defaultHandles }
        match rest with
        | next :: _ => if endsDocument next then (some .blank, c) else root (takeNode fuel true false c)
        | [] => (some .cut, c.stop)
      | _ => (some .cut, c.stop)
    else root (takeNode fuel true false c)
  | [] => (some .cut, c.stop)

def isFinished (c : Composer) : Bool :=
  !c.isBroken && c.tokens.dropWhile (· == .documentEnd) == [.streamEnd]

end Composer

end MatchAction.Yaml
