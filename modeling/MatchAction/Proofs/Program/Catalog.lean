/-
  MatchAction.Proofs.Program.Catalog — the numbers of a program stand for its own declarations.

  Whatever lists of numbers and names a catalog is made of, in whatever order and with
  repetitions: a number that stands for a table or an action stands for the one that the
  program declares under its name, so that looking it up by number and by name gives the same.
-/

import Mathlib.Data.List.Basic
import MatchAction.Program.Catalog

namespace MatchAction

namespace Catalog

/-- Every number stands for what the program declares under that name. -/
def DeclaredIn (catalog : Catalog) (program : Program) : Prop :=
  (∀ id table, catalog.table? id = some table → program.table? table.name = some table) ∧
    ∀ id action, catalog.action? id = some action → program.action? action.name = some action

variable {program : Program} {catalog : Catalog}

theorem declaredIn_addTable (h : catalog.DeclaredIn program) (entry : UInt32 × String) :
    (catalog.addTable program entry).DeclaredIn program := by
  unfold addTable
  split
  · rename_i table htable
    refine ⟨fun id t ht => ?_, h.2⟩
    simp only [registerTable] at ht
    split at ht
    · obtain rfl := Option.some.inj ht
      rw [Program.table?_name htable]
      exact htable
    · exact h.1 id t ht
  · exact h

theorem declaredIn_addAction (h : catalog.DeclaredIn program) (entry : UInt32 × String) :
    (catalog.addAction program entry).DeclaredIn program := by
  unfold addAction
  split
  · rename_i action haction
    refine ⟨h.1, fun id a ha => ?_⟩
    simp only [registerAction] at ha
    split at ha
    · obtain rfl := Option.some.inj ha
      rw [Program.action?_name haction]
      exact haction
    · exact h.2 id a ha
  · exact h

theorem declaredIn_ofProgram (program : Program) (tableIds actionIds : List (UInt32 × String)) :
    (ofProgram program tableIds actionIds).DeclaredIn program := by
  have hempty : empty.DeclaredIn program := ⟨nofun, nofun⟩
  have htables : (tableIds.foldl (addTable program) empty).DeclaredIn program :=
    List.foldlRecOn (motive := (DeclaredIn · program)) tableIds _ hempty fun _ h entry _ => declaredIn_addTable h entry
  exact List.foldlRecOn (motive := (DeclaredIn · program)) actionIds _ htables fun _ h entry _ =>
    declaredIn_addAction h entry

end Catalog

end MatchAction
