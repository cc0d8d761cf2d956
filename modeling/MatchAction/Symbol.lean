/-
  MatchAction.Symbol — the unknowns that the control plane decides.

  Every unknown of a table has exactly one name, and whoever needs it asks here: the
  entries of a program, the records sent at run time and the predicates of a table's
  hits agree on an unknown because they ask for the same name and type.
  A symbol is its name and its type; symbols are listed by name, then by type.
-/

import MatchAction.SortedMap
import MatchAction.Ty

namespace MatchAction

structure Symbol where
  name : String
  ty : Ty
  deriving DecidableEq, Repr, Inhabited

namespace Symbol

def text (s : Symbol) : String := "|" ++ s.name ++ "|"

instance : Ord Symbol := ⟨compareLex (compareOn name) (compareOn ty)⟩

instance : Std.TransOrd Symbol :=
  inferInstanceAs (Std.TransCmp (compareLex (compareOn name) (compareOn ty)))

instance : Std.LawfulEqOrd Symbol where
  compare_self {a} := by
    show compareLex (compareOn name) (compareOn ty) a a = .eq
    simp [compareLex, compareOn]
  eq_of_compare {a b} h := by
    have h : compareLex (compareOn name) (compareOn ty) a b = .eq := h
    simp only [compareLex, Ordering.then_eq_eq, compareOn, Std.LawfulEqCmp.compare_eq_iff_eq] at h
    cases a; cases b; simp_all

/-! ## The names of a table's unknowns -/

def choiceTy : Ty := .bits 32

def profileChoice : Nat := 2 ^ 32 - 1

/-- Whether the control plane configures `table`. -/
def active (table : String) : Symbol := ⟨table ++ ".active", .bool⟩

/-- Which of its actions `table` invokes. -/
def actionChoice (table : String) : Symbol := ⟨table ++ ".action_choice", choiceTy⟩

def key (table field : String) (ty : Ty) : Symbol := ⟨table ++ ".key." ++ field, ty⟩

def ternaryMask (table field : String) (ty : Ty) : Symbol := ⟨table ++ ".key." ++ field ++ ".mask", ty⟩

def lpmPrefix (table field : String) (ty : Ty) : Symbol := ⟨table ++ ".key." ++ field ++ ".lpm_prefix", ty⟩

def rangeLow (table field : String) (ty : Ty) : Symbol := ⟨table ++ ".key." ++ field ++ ".range_low", ty⟩

def rangeHigh (table field : String) (ty : Ty) : Symbol := ⟨table ++ ".key." ++ field ++ ".range_high", ty⟩

/-- The stand-in for the input of an action selector. -/
def selectorKey (table field : String) (ty : Ty) : Symbol := ⟨table ++ ".selector." ++ field, ty⟩

def actionArgument (table action param : String) (ty : Ty) : Symbol :=
  ⟨table ++ ".action." ++ action ++ "." ++ param, ty⟩

end Symbol

/-- Symbols without repetition, in their order. -/
abbrev SymbolSet := SortedMap Symbol Unit

namespace SymbolSet

def add (set : SymbolSet) (s : Symbol) : SymbolSet := SortedMap.insert set s ()

def toList (set : SymbolSet) : List Symbol := set.keys

end SymbolSet

end MatchAction
