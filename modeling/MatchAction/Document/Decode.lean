/-
  MatchAction.Document.Decode — reading values of a given shape off a tree.

  A reader goes through its tree in order and stops at the first flaw. On its way it
  follows aliases, which it may do so often and no more. A record is read by its layout:
  the members it knows, each of which may come once, and what becomes of the others. They
  are skipped, refused, or kept, in which case their names are collected. The members that
  are missing are the reader's business once all have been read.

  What one format permits and another does not is a `Dialect`.
-/

import MatchAction.Document.Tree
import MatchAction.Octets

namespace MatchAction

inductive Flaw where
  | unreadable
  /-- Something follows the value that should be all. -/
  | trailing
  | notText
  | notNumber
  | notFlag
  | notList
  | notRecord
  | notVariant
  | notHex (cause : Hex.NotDigit)
  /-- It says that it is nothing and is something. -/
  | contradictory
  | missing (name : String)
  | repeated (name : String)
  | unknown (name : String)
  /-- A value that has to be kept cannot be. -/
  | notKept
  /-- Aliases were followed as often as they may be. -/
  | aliasesUsedUp
  /-- A list that stands for a record has more items than the record has members. -/
  | surplus
  | noAction
  | severalActions
  deriving DecidableEq, Repr

def Flaw.message? : Flaw → Option String
  | noAction => some "table action names no action"
  | severalActions => some "table action names more than one action"
  | _ => none

/-- What a format lets stand for what. -/
structure Dialect where
  /-- A list may stand for a record, its items for the members in their order. -/
  listsAsRecords : Bool
  /-- A record of one member names a variant and gives what it carries. -/
  membersAsVariants : Bool
  /-- How deeply a value that is kept may lie, counted from the root. -/
  maxDepth : Nat
  /-- That a document has an end is seen to before its root is judged as a whole. -/
  endsFirst : Bool
  deriving DecidableEq, Repr

/-- Reading under way; the state says how many more times an alias may be followed. -/
abbrev Reading (α : Type) := StateT Nat (Except Flaw) α

namespace Reading

def ofExcept {α : Type} (result : Except Flaw α) : Reading α := liftM result

def countAlias : Reading Unit := do
  match ← get with
  | 0 => throw .aliasesUsedUp
  | left + 1 => set left

end Reading

namespace Tree

def follow : Tree → Reading Tree
  | shared target => do
    Reading.countAlias
    target.follow
  | tree => return tree

/-- The value that the tree stands for, without the mark of a kind. -/
def content (tree : Tree) : Reading Tree := return (← tree.follow).body

def readText (tree : Tree) : Reading String := do
  match ← tree.content with
  | scalar { text? := some text, .. } => return text
  | unreadable => throw .unreadable
  | _ => throw .notText

def readUInt32 (tree : Tree) : Reading UInt32 := do
  match ← tree.content with
  | scalar { natural? := some n, .. } => if n < UInt32.size then return .ofNat n else throw .notNumber
  | unreadable => throw .unreadable
  | _ => throw .notNumber

def readInt32 (tree : Tree) : Reading Int32 := do
  match ← tree.content with
  | scalar { integer? := some n, .. } =>
    if Int32.minValue.toInt ≤ n ∧ n ≤ Int32.maxValue.toInt then return .ofInt n else throw .notNumber
  | unreadable => throw .unreadable
  | _ => throw .notNumber

def readFlag (tree : Tree) : Reading Bool := do
  match ← tree.content with
  | scalar { flag? := some flag, .. } => return flag
  | unreadable => throw .unreadable
  | _ => throw .notFlag

def readHex (tree : Tree) : Reading Octets := do
  match Hex.decode (← tree.readText) with
  | .ok octets => return octets
  | .error cause => throw (.notHex cause)

def readList {α : Type} (read : Tree → Reading α) (tree : Tree) : Reading (List α) := do
  match ← tree.content with
  | list items => items.mapM read
  | scalar readings => if readings.isBlank then return [] else throw .notList
  | unreadable => throw .unreadable
  | _ => throw .notList

def readOption {α : Type} (read : Tree → Reading α) (tree : Tree) : Reading (Option α) := do
  match ← tree.follow with
  | scalar { presence := .absent, .. } => return none
  | scalar { presence := .contradictory, .. } => throw .contradictory
  | unreadable => throw .unreadable
  | tree => return some (← read tree)

def readVariant (dialect : Dialect) (tree : Tree) : Reading (String × Option Tree) := do
  match ← tree.follow with
  | tagged tag body => return (tag, some body)
  | scalar { text? := some text, .. } => return (text, none)
  | record [(key, body)] =>
    if dialect.membersAsVariants then return (← key.readText, some body) else throw .notVariant
  | unreadable => throw .unreadable
  | _ => throw .notVariant

def readUnit : Option Tree → Reading Unit
  | none | some (scalar { isUnit := true, .. }) => return
  | some unreadable => throw .unreadable
  | some _ => throw .notVariant

/-! ## Values that are kept -/

mutual

/-- Goes through a value that is kept: every leaf has a value, none is marked, and at most `levels`
lists and records are nested. -/
def keep (levels : Nat) : Tree → Reading Unit
  | scalar readings => if readings.hasValue then return else throw .notKept
  | list items => if levels = 0 then throw .notKept else keepItems (levels - 1) items
  | record members => if levels = 0 then throw .notKept else keepMembers (levels - 1) members
  | shared target => do
    Reading.countAlias
    target.keep levels
  | tagged _ _ => throw .notKept
  | unreadable => throw .unreadable

def keepItems (levels : Nat) : List Tree → Reading Unit
  | [] => return
  | item :: rest => do
    item.keep levels
    keepItems levels rest

def keepMembers (levels : Nat) : List (Tree × Tree) → Reading Unit
  | [] => return
  | (key, value) :: rest => do
    key.keep levels
    value.keep levels
    keepMembers levels rest

end

end Tree

/-! ## Records -/

/-- A member that a record may have; `δ` is what has been read of the record so far. `read` reads
the member, `get` finds what was read of it and `set` puts it in. -/
structure Slot (δ : Type) where
  of ::
  {α : Type}
  name : String
  read : Tree → Reading α
  get : δ → Option α
  set : α → δ → δ

namespace Slot

variable {δ : Type}

def isFilled (slot : Slot δ) (draft : δ) : Bool := (slot.get draft).isSome

def fill (slot : Slot δ) (tree : Tree) (draft : δ) : Reading δ := return slot.set (← slot.read tree) draft

end Slot

/-- What becomes of members that a record does not know. -/
inductive Others (δ : Type) where
  | skip
  | refuse
  /-- Each is kept, within the levels left, and its name collected. -/
  | keep (levels : Nat) (collect : String → δ → δ)

structure Layout (δ : Type) where
  slots : List (Slot δ)
  others : Others δ := .skip

namespace Layout

variable {δ : Type}

def readOther (layout : Layout δ) (name : String) (value : Tree) (draft : δ) : Reading δ := do
  match layout.others with
  | .skip => if value.isReadable then return draft else throw .unreadable
  | .refuse => throw (.unknown name)
  | .keep levels collect =>
    value.keep levels
    return collect name draft

def readMember (layout : Layout δ) (draft : δ) (member : Tree × Tree) : Reading δ := do
  let name ← member.1.readText
  match layout.slots.find? (·.name == name) with
  | some slot => if slot.isFilled draft then throw (.repeated name) else slot.fill member.2 draft
  | none => layout.readOther name member.2 draft

def readItems : List (Slot δ) → List Tree → δ → Reading δ
  | _, [], draft => return draft
  | [], _ :: _, _ => throw .surplus
  | slot :: slots, item :: items, draft => do readItems slots items (← slot.fill item draft)

/-- Whether a list may stand for the record: it cannot where other members are kept. -/
def admitsLists (layout : Layout δ) (dialect : Dialect) : Bool :=
  match layout.others with
  | .keep _ _ => false
  | _ => dialect.listsAsRecords

def read (layout : Layout δ) (dialect : Dialect) (draft : δ) (tree : Tree) : Reading δ := do
  match ← tree.content with
  | .record members => members.foldlM layout.readMember draft
  | .list items => if layout.admitsLists dialect then readItems layout.slots items draft else throw .notRecord
  | .scalar readings => if readings.isBlank then return draft else throw .notRecord
  | .unreadable => throw .unreadable
  | .tagged _ _ | .shared _ => throw .notRecord

end Layout

def require {α : Type} (name : String) : Option α → Reading α
  | some a => return a
  | none => throw (.missing name)

namespace Document

variable {α δ : Type}

def decode (document : Document) (read : Tree → Reading α) : Except Flaw α := do
  let (a, _) ← (read document.root).run document.aliasLimit
  if document.isComplete then return a else throw .trailing

def decodeDraft (document : Document) (dialect : Dialect) (read : Tree → Reading δ) (check : δ → Except Flaw α) :
    Except Flaw α :=
  if dialect.endsFirst then do check (← document.decode read)
  else document.decode fun tree => do Reading.ofExcept (check (← read tree))

end Document

end MatchAction
