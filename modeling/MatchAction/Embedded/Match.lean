/-
  MatchAction.Embedded.Match — the predicate that an embedded key puts on a key field.

  Every target has `exact`, `ternary` and `lpm` keys: a plain value on a ternary key
  matches all its bits, one on an lpm key is a prefix of full length, and the mask of an
  lpm key must be the mask of a prefix. The v1model target adds `range` keys, where a
  plain value is an interval of one point, and `optional` keys.
-/

import MatchAction.Match.Predicate
import MatchAction.Target

namespace MatchAction

namespace EmbeddedKey

def mismatch (key : Key) : Fault := .embeddedKeyMismatch key.fieldName key.matchKind

def checked (key : Key) (value : Nat) : Except Fault Nat := checkFits key.fieldName key.ty value

def exactPredicate? (key : Key) : EmbeddedKey → Except Fault (Option Term)
  | value v => return some (Predicate.exact key.expr key.ty (← checked key v))
  | dontCare => return none
  | _ => .error (mismatch key)

def ternaryPredicate? (key : Key) (embedded : EmbeddedKey) : Except Fault (Option Term) :=
  match embedded, key.ty with
  | dontCare, _ => return none
  | _, .bool => .error (mismatch key)
  | value v, ty => return some (Predicate.ternary key.expr ty (← checked key v) ty.maxValue)
  | mask v m, ty => do
    let v ← checked key v
    let m ← checked key m
    return some (Predicate.ternary key.expr ty v m)
  | range _ _, _ => .error (mismatch key)

def lpmPredicate? (key : Key) (embedded : EmbeddedKey) : Except Fault (Option Term) :=
  match embedded, key.ty with
  | dontCare, _ => return none
  | _, .bool => .error (mismatch key)
  | value v, ty => return some (Predicate.lpm key.expr ty (← checked key v) ty.width)
  | mask v m, ty =>
    match prefixLength? ty.width m with
    | some length => return some (Predicate.lpm key.expr ty (← checked key v) length)
    | none => .error (mismatch key)
  | range _ _, _ => .error (mismatch key)

def rangePredicate? (key : Key) (embedded : EmbeddedKey) : Except Fault (Option Term) :=
  match embedded, key.ty with
  | dontCare, _ => return none
  | _, .bool => .error (mismatch key)
  | range low high, ty => do
    let low ← checked key low
    let high ← checked key high
    return some (Predicate.range key.expr ty low high)
  | value v, ty => do
    let v ← checked key v
    return some (Predicate.range key.expr ty v v)
  | mask _ _, _ => .error (mismatch key)

/-- On a key of a kind without embedded values. -/
def noPredicate? (key : Key) : EmbeddedKey → Except Fault (Option Term)
  | dontCare => return none
  | _ => .error (mismatch key)

def corePredicate? (key : Key) (embedded : EmbeddedKey) : Except Fault (Option Term) :=
  match key.matchKind with
  | "exact" => embedded.exactPredicate? key
  | "ternary" => embedded.ternaryPredicate? key
  | "lpm" => embedded.lpmPredicate? key
  | _ => embedded.noPredicate? key

end EmbeddedKey

/-- The predicate of an embedded key, or nothing where the key is not matched. -/
def Target.embeddedPredicate? (target : Target) (key : Key) (embedded : EmbeddedKey) :
    Except Fault (Option Term) :=
  match target, key.matchKind with
  | .v1model, "range" => embedded.rangePredicate? key
  | .v1model, "optional" => embedded.exactPredicate? key
  | _, _ => embedded.corePredicate? key

end MatchAction
