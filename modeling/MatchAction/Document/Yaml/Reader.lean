/-
  MatchAction.Document.Yaml.Reader — the tree of a YAML text.

  Only the first document counts, and it has to be the only one. A tag of the document's
  own, which starts with `!`, marks its value with the name of a kind; other tags bear on
  scalars alone. Aliases may be followed a hundred times for each scalar, alias, beginning
  and end of the document. One that stands for a value around it goes on within itself
  for longer than any value may be nested, and ends in one of which nothing can be read.
-/

import MatchAction.Document.Decode
import MatchAction.Document.Yaml.Reading
import MatchAction.Document.Yaml.Scanner

namespace MatchAction

/-- Records are mappings, and a kind is named by a tag. -/
def Dialect.yaml : Dialect := ⟨false, false, 128, true⟩

namespace Yaml

def localName? (tag : Octets) : Option String :=
  if isLocalTag tag then
    if tag.length = 1 then some "!" else String.fromUTF8? (ByteArray.mk (tag.drop 1).toArray)
  else none

def markedBy (tag : Option Octets) (tree : Tree) : Tree :=
  match tag.bind localName? with
  | some name => .tagged name tree
  | none => tree

/-- A value that is there and cannot be read as anything. -/
def endless : Tree := .scalar { hasValue := false }

def treeOfScalar (tag : Option Octets) (text : String) (style : Style) : Tree :=
  markedBy tag (.scalar (scalarOf (if (tag.bind localName?).isSome then none else tag) text style))

mutual

/-- The tree of a node; `targets` are the trees that its aliases stand for. -/
def treeOf (targets : List (Nat × Tree)) : Node → Tree
  | .scalar tag text style => treeOfScalar tag text style
  | .sequence tag items => markedBy tag (.list (treesOf targets items))
  | .mapping tag members => markedBy tag (.record (memberTreesOf targets members))
  | .reference number => .shared ((targets.lookup number).getD endless)
  | .cut => .unreadable

def treesOf (targets : List (Nat × Tree)) : List Node → List Tree
  | [] => []
  | item :: rest => treeOf targets item :: treesOf targets rest

def memberTreesOf (targets : List (Nat × Tree)) : List (Node × Node) → List (Tree × Tree)
  | [] => []
  | (key, value) :: rest => (treeOf targets key, treeOf targets value) :: memberTreesOf targets rest

end

/-- What aliases stand for, within `nesting` aliases inside each other. -/
def targetTrees (targets : List (Nat × Node)) : (nesting : Nat) → List (Nat × Tree)
  | 0 => []
  | nesting + 1 =>
    let inner := targetTrees targets nesting
    targets.map fun (number, node) => (number, treeOf inner node)

/-- An empty text says nothing at all. -/
def voidTree : Tree := .scalar { presence := .absent, isBlank := true, hasValue := false }

def read (octets : Octets) : Document :=
  let (root, composer) := Composer.takeRoot (tokensOf (.ofOctets octets))
  match root with
  | none => { root := voidTree, isComplete := composer.isFinished }
  | some node =>
    { root := treeOf (targetTrees composer.targets (Dialect.yaml.maxDepth + 1)) node
      isComplete := composer.isFinished
      aliasLimit := 100 * node.size }

end Yaml

end MatchAction
