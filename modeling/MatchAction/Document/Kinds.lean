/-
  MatchAction.Document.Kinds — types, targets and formats, named in a document.

  Each is a variant by its name. Only a type of bits carries something, a record with its
  width.
-/

import MatchAction.Document.Format
import MatchAction.Target
import MatchAction.Ty

namespace MatchAction

structure WidthDraft where
  width : Option UInt32 := none

def widthLayout : Layout WidthDraft where
  slots := [.of "width" Tree.readUInt32 (·.width) fun a d => { d with width := some a }]

def Ty.decode (dialect : Dialect) (tree : Tree) : Reading Ty := do
  match ← tree.readVariant dialect with
  | ("bool", body) =>
    Tree.readUnit body
    return .bool
  | ("bits", some body) =>
    let draft ← widthLayout.read dialect {} body
    return .bits (← require "width" draft.width).toNat
  | ("bits", none) => throw .notVariant
  | (name, _) => throw (.unknown name)

def decodeName {α : Type} (values : List α) (name : α → String) (dialect : Dialect) (tree : Tree) :
    Reading α := do
  let (text, body) ← tree.readVariant dialect
  match values.find? (name · == text) with
  | some value =>
    Tree.readUnit body
    return value
  | none => throw (.unknown text)

def Target.decode : Dialect → Tree → Reading Target := decodeName [.core, .v1model] Target.name

def Format.decodeSelf : Dialect → Tree → Reading Format := decodeName [.json, .yaml] Format.name

end MatchAction
