/-
  MatchAction.Outcome — the store a conversion built and what it could not use.

  Outcomes are merged in order: the later store after the earlier one, the later
  diagnostics after the earlier ones. An `Attempt` is a conversion under way: whatever it
  has reported stays reported, also when a fault ends it.
-/

import MatchAction.Report
import MatchAction.Store.Basic

namespace MatchAction

structure Outcome where
  store : Store := ∅
  diagnostics : List Diagnostic := []
  deriving DecidableEq, Repr, Inhabited

namespace Outcome

def merge (outcome later : Outcome) : Outcome :=
  ⟨outcome.store.merge later.store, outcome.diagnostics ++ later.diagnostics⟩

def report (outcome : Outcome) (diagnostic : Diagnostic) : Outcome :=
  { outcome with diagnostics := outcome.diagnostics ++ [diagnostic] }

end Outcome

structure Attempt (α : Type) where
  diagnostics : List Diagnostic
  result : Except Fault α

namespace Attempt

variable {α β : Type}

def report (diagnostic : Diagnostic) : Attempt Unit := ⟨[diagnostic], .ok ()⟩

def fail (fault : Fault) : Attempt α := ⟨[], .error fault⟩

def ofExcept (result : Except Fault α) : Attempt α := ⟨[], result⟩

def bind (x : Attempt α) (f : α → Attempt β) : Attempt β :=
  match x.result with
  | .ok a =>
    let y := f a
    ⟨x.diagnostics ++ y.diagnostics, y.result⟩
  | .error fault => ⟨x.diagnostics, .error fault⟩

instance : Monad Attempt where
  pure a := ⟨[], .ok a⟩
  bind := bind

end Attempt

end MatchAction
