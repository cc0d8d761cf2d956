/-
  MatchAction.Document.Tree — what a document says, whatever it is written in.

  A tree keeps its leaves as they were written: a scalar comes with every reading that its
  format gives it, so that a decoder asks for a text, a number or a flag and takes what is
  there. A tree also keeps how far the text could be read: `unreadable` stands where it
  stopped, as the last item or member of everything that was still open. A decoder that
  goes through a tree in order thus finds its own objections to the part before that point.

  A value that stands in several places is written once and shared by the others. Whoever
  looks at it there follows the alias; a value that is skipped has its aliases skipped with
  it, so an alias may even stand inside the value it stands for.
-/

namespace MatchAction

/-- Whether a value stands for something where none may be given. -/
inductive Presence where
  | present
  | absent
  /-- It says that it is nothing and is something. -/
  | contradictory
  deriving DecidableEq, Repr

/-- A leaf with the readings that it admits. -/
structure Scalar where
  text? : Option String := none
  natural? : Option Nat := none
  integer? : Option Int := none
  flag? : Option Bool := none
  presence : Presence := .present
  /-- It is as good as a list or a record without members. -/
  isBlank : Bool := false
  /-- It may accompany the name of a variant that carries nothing. -/
  isUnit : Bool := false
  /-- It has a value, apart from what anyone reads it as. -/
  hasValue : Bool := true
  deriving DecidableEq, Repr

inductive Tree where
  | scalar (readings : Scalar)
  | list (items : List Tree)
  | record (members : List (Tree × Tree))
  /-- A value marked with the name of a kind. -/
  | tagged (tag : String) (body : Tree)
  /-- An alias for a value that is written elsewhere. -/
  | shared (target : Tree)
  /-- The text cannot be read from here on. -/
  | unreadable
  deriving Inhabited

namespace Tree

mutual

/-- The text could be read to the end of the value, whatever its aliases stand for. -/
def isReadable : Tree → Bool
  | scalar _ | shared _ => true
  | list items => areReadable items
  | record members => membersReadable members
  | tagged _ body => body.isReadable
  | unreadable => false

def areReadable : List Tree → Bool
  | [] => true
  | item :: rest => item.isReadable && areReadable rest

def membersReadable : List (Tree × Tree) → Bool
  | [] => true
  | (key, value) :: rest => key.isReadable && value.isReadable && membersReadable rest

end

def body : Tree → Tree
  | tagged _ body => body.body
  | tree => tree

end Tree

structure Document where
  root : Tree
  /-- The text ends where the tree does. -/
  isComplete : Bool
  /-- How often aliases may be followed. -/
  aliasLimit : Nat := 0
  deriving Inhabited

end MatchAction
