/-
  MatchAction.Match.Predicate — the predicates that say that a key matches.

  Embedded entries and records build their predicates here, so that equal entries give
  equal terms. A longest-prefix match folds the mask into the value it compares with.
-/

import MatchAction.PrefixMask
import MatchAction.Program.Basic
import MatchAction.Report

namespace MatchAction

namespace Predicate

def exact (key : Term) (ty : Ty) (value : Nat) : Term := .eq key (.literal ty value)

def ternary (key : Term) (ty : Ty) (value mask : Nat) : Term :=
  .eq (.bitAnd key (.constant ty mask)) (.bitAnd (.constant ty value) (.constant ty mask))

def lpm (key : Term) (ty : Ty) (value length : Nat) : Term :=
  let mask := prefixMask ty.width length
  .eq (.bitAnd key (.constant ty mask)) (.constant ty (value &&& mask))

def range (key : Term) (ty : Ty) (low high : Nat) : Term :=
  .and (.le (.constant ty low) key) (.le key (.constant ty high))

end Predicate

def checkFits (name : String) (ty : Ty) (value : Nat) : Except Fault Nat :=
  if ty.fits value then .ok value else .error (.valueOutOfRange name value ty)

end MatchAction
