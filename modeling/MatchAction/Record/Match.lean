/-
  MatchAction.Record.Match — the predicate that a match value of a record puts on a key.

  The match kind must be the one the key declares, a boolean key has no bits to mask or
  bounds to compare, and every value must fit. An optional match that is not set puts
  nothing on the key. A fault drops the whole entry.
-/

import MatchAction.Match.Predicate
import MatchAction.Record.Basic

namespace MatchAction

def Octets.checked (octets : Octets) (name : String) (ty : Ty) : Except Fault Nat :=
  checkFits name ty octets.value

namespace MatchValue

def suitsBool : MatchValue → Bool
  | exact _ | optional _ => true
  | _ => false

def checkKind (value : MatchValue) (key : Key) : Except Fault Unit :=
  match value with
  | unsupported kind => .error (.unsupportedMatchKind kind)
  | _ =>
    if key.matchKind ≠ value.kindName then
      .error (.matchKindMismatch key.fieldName key.matchKind value.kindName)
    else if key.ty.isBool && !value.suitsBool then
      .error (.unsupportedKeyType key.fieldName value.kindName key.ty)
    else .ok ()

/-- The predicate of a value whose kind suits the key, or nothing for an optional match not set. -/
def build (key : Key) : MatchValue → Except Fault (Option Term)
  | exact value => return some (Predicate.exact key.expr key.ty (← value.checked key.fieldName key.ty))
  | ternary value mask => do
    let value ← value.checked key.fieldName key.ty
    let mask ← mask.checked key.fieldName key.ty
    return some (Predicate.ternary key.expr key.ty value mask)
  | lpm value length =>
    if key.ty.width < length.toNat then .error (.invalidPrefixLength key.fieldName length key.ty.width)
    else return some (Predicate.lpm key.expr key.ty (← value.checked key.fieldName key.ty) length.toNat)
  | range low high => do
    let low ← low.checked key.fieldName key.ty
    let high ← high.checked key.fieldName key.ty
    return some (Predicate.range key.expr key.ty low high)
  | optional (some value) => return some (Predicate.exact key.expr key.ty (← value.checked key.fieldName key.ty))
  | optional none => return none
  | unsupported kind => .error (.unsupportedMatchKind kind)

def predicate? (key : Key) (value : MatchValue) : Except Fault (Option Term) := do
  value.checkKind key
  value.build key

end MatchValue

end MatchAction
