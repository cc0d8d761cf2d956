/-
  MatchAction.Resolve.Basic — the predicate of a key and the condition under which a table hits.

  Handlers are asked in the order in which they were registered, then the kinds that every
  target has. A kind that needs bits is refused on a boolean key before anyone is asked; a
  kind that nobody recognises is a defect of the target, not of the program.
-/

import MatchAction.Resolve.Handler
import MatchAction.Text.Quoted

namespace MatchAction

inductive ResolveError where
  | booleanKey (table field matchKind : String)
  | unhandledKind (table matchKind : String)
  deriving DecidableEq, Repr

def ResolveError.message : ResolveError → String
  | booleanKey table field matchKind =>
    s!"match kind '{matchKind}' cannot be applied to boolean key '{field}' of table '{table}'"
  | unhandledKind table matchKind => s!"BUG: no handler for match kind '{matchKind}' of table '{table}'"

/-- Match kinds that look at the bits of a key. -/
def bitKinds : List String := ["ternary", "lpm", "range"]

structure Resolver where
  handlers : List Handler

namespace Resolver

def ofTarget (target : Target) : Resolver := ⟨target.handlers⟩

def register (resolver : Resolver) (handler : Handler) : Resolver := ⟨resolver.handlers ++ [handler]⟩

def supports (resolver : Resolver) (kind : String) : Bool :=
  (CoreKind.ofName? kind).isSome || resolver.handlers.any (·.handles kind)

def predicate (resolver : Resolver) (ctx : MatchContext) : Except ResolveError Term :=
  if ctx.ty.isBool && bitKinds.contains ctx.key.matchKind then
    .error (.booleanKey ctx.table ctx.field ctx.key.matchKind)
  else match resolver.handlers.findSome? (·.predicate? ctx) <|> ctx.corePredicate? with
    | some predicate => .ok predicate
    | none => .error (.unhandledKind ctx.table ctx.key.matchKind)

/-- The table is active and every key matches; `tainted` says whose value is not known. -/
def hitCondition (resolver : Resolver) (table : Table) (tainted : Term → Bool) : Except ResolveError Term := do
  let parts ← table.keys.mapM fun key => resolver.predicate ⟨table.name, key, tainted key.expr⟩
  return .all (.symbol (.active table.name) :: parts)

def text (resolver : Resolver) : String :=
  "TableMatchResolver \x7b handlers: ["
    ++ ", ".intercalate (resolver.handlers.map fun h => Text.quoteString h.target) ++ "] \x7d"

end Resolver

end MatchAction
