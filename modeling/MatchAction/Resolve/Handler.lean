/-
  MatchAction.Resolve.Handler — match kinds that a target adds.

  A handler lists the kinds it recognises and answers for a key, or defers to whoever
  comes next. The v1model handler adds `optional`, `selector` and `range`: an optional
  match on a key that is not known excludes nothing, a range on such a key is the full
  interval with the key at its lower end, and a selector only names its symbol.
-/

import MatchAction.Resolve.Core
import MatchAction.Target

namespace MatchAction

structure Handler where
  target : String
  kinds : List String
  predicate? : MatchContext → Option Term

def Handler.handles (handler : Handler) (kind : String) : Bool := handler.kinds.contains kind

namespace MatchContext

def optionalPredicate (ctx : MatchContext) : Term := if ctx.tainted then .bool true else ctx.exactPredicate

def selectorPredicate (ctx : MatchContext) : Term := .eq ctx.expr (ctx.symbol .selectorKey)

/-- The bounds are in order and `key` lies between them. -/
def between (low high key : Term) : Term := .and (.and (.lt low high) (.le low key)) (.le key high)

def rangePredicate (ctx : MatchContext) : Term :=
  if ctx.tainted then
    between (.literal ctx.ty 0) (.literal ctx.ty ctx.ty.maxValue) (.literal ctx.ty 0)
  else between (ctx.symbol .rangeLow) (ctx.symbol .rangeHigh) ctx.expr

def addedPredicate? (ctx : MatchContext) : Option Term :=
  match ctx.key.matchKind with
  | "optional" => some ctx.optionalPredicate
  | "selector" => some ctx.selectorPredicate
  | "range" => some ctx.rangePredicate
  | _ => none

end MatchContext

def Handler.v1model : Handler where
  target := Target.v1model.name
  kinds := ["optional", "selector", "range"]
  predicate? := MatchContext.addedPredicate?

def Target.handlers : Target → List Handler
  | core => []
  | v1model => [.v1model]

end MatchAction
