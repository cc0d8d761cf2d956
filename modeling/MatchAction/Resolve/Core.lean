/-
  MatchAction.Resolve.Core — when a key matches at run time, said of the control plane's symbols.

  The predicate relates the key to the symbols of its table, so that whatever the control
  plane binds them to decides whether the table hits. The kinds `exact`, `ternary` and
  `lpm` are the same on every target; the mask of an lpm key is all ones shifted left by
  what the prefix leaves over.
-/

import MatchAction.Program.Basic

namespace MatchAction

structure MatchContext where
  table : String
  key : Key
  /-- The key's value is not known. -/
  tainted : Bool := false
  deriving DecidableEq, Repr

inductive CoreKind where
  | exact
  | ternary
  | lpm
  deriving DecidableEq, Repr

namespace CoreKind

def name : CoreKind → String
  | exact => "exact"
  | ternary => "ternary"
  | lpm => "lpm"

def ofName? (text : String) : Option CoreKind := [exact, ternary, lpm].find? (·.name == text)

theorem ofName?_eq (kind : String) : ofName? kind = match kind with
    | "exact" => some .exact
    | "ternary" => some .ternary
    | "lpm" => some .lpm
    | _ => none := by
  split
  · rfl
  · rfl
  · rfl
  · rename_i hexact hternary hlpm
    refine List.find?_eq_none.mpr fun k _ => ?_
    rw [beq_iff_eq]
    cases k with
    | exact => exact fun h => hexact h.symm
    | ternary => exact fun h => hternary h.symm
    | lpm => exact fun h => hlpm h.symm

end CoreKind

namespace MatchContext

def field (ctx : MatchContext) : String := ctx.key.fieldName
def ty (ctx : MatchContext) : Ty := ctx.key.ty
def expr (ctx : MatchContext) : Term := ctx.key.expr

def symbol (ctx : MatchContext) (name : (table field : String) → Ty → Symbol) : Term :=
  .symbol (name ctx.table ctx.field ctx.ty)

def exactPredicate (ctx : MatchContext) : Term := .eq ctx.expr (ctx.symbol .key)

/-- The key agrees with its symbol where `mask` has ones. -/
def maskedPredicate (ctx : MatchContext) (mask : Term) : Term :=
  .eq (.bitAnd ctx.expr mask) (.bitAnd (ctx.symbol .key) mask)

def ternaryPredicate (ctx : MatchContext) : Term := ctx.maskedPredicate (ctx.symbol .ternaryMask)

/-- All ones, shifted left by the width less the prefix length. -/
def lpmMask (ctx : MatchContext) : Term :=
  .shiftLeft (.literal ctx.ty ctx.ty.maxValue) (.sub (.constant ctx.ty ctx.ty.width) (ctx.symbol .lpmPrefix))

def lpmPredicate (ctx : MatchContext) : Term := ctx.maskedPredicate ctx.lpmMask

def corePredicate? (ctx : MatchContext) : Option Term :=
  (CoreKind.ofName? ctx.key.matchKind).map fun
    | .exact => ctx.exactPredicate
    | .ternary => ctx.ternaryPredicate
    | .lpm => ctx.lpmPredicate

end MatchContext

end MatchAction
