/-
  MatchAction.Proofs.Record.Reordering — records that list the same entities in another order.

  Every entity is converted into a store of its own, and merging looks at one table at a
  time: what a record does to a table is what the entries for that table do, in their order.
  Several numbers may stand for one table, so the entries of a table are those whose number
  resolves to its name. They may move past entries for other tables, past entries that are
  dropped and past entities of other kinds, and nothing changes but the order of the reports.

  Proved:
  - `table?_foldl_load`: what a record holds for a table is what the entries of that table
    alone hold for it.
  - `Reordered.entriesFor_eq`: a reordering leaves the entries of every table in their order.
  - `load_reordered`: a reordered record gives the same store and the same reports, in
    another order.
-/

import Mathlib.Data.Fin.VecNotation
import MatchAction.Proofs.Lists
import MatchAction.Proofs.Record.Concatenation

namespace MatchAction

namespace Entity

variable {catalog : Catalog} {entity : Entity} {name : String}

def table? (catalog : Catalog) : Entity → Option String
  | tableEntry entry => (catalog.table? entry.tableId).map (·.name)
  | profileMember _ | profileGroup _ | other _ => none

/-- An entity puts nothing into a table that it is no entry for. -/
theorem table?_load_of_ne (h : entity.table? catalog ≠ some name) :
    (entity.load catalog).store.table? name = none := by
  cases entity with
  | profileMember member => rfl
  | profileGroup group => rfl
  | other kind => rfl
  | tableEntry entry =>
    have hconverts := entry.converts catalog
    simp only [load, TableEntry.loadInto]
    generalize (entry.convert catalog).1 = change, (entry.convert catalog).2 = reported at hconverts ⊢
    cases hconverts with
    | dropped _ _ => rfl
    | rule ht _ _ =>
      rw [table?, ht, Option.map_some, ne_eq, Option.some.injEq] at h
      exact (Store.puts_addRule ∅ _ _).2 name (Ne.symm h)
    | default ht _ =>
      rw [table?, ht, Option.map_some, ne_eq, Option.some.injEq] at h
      exact (Store.puts_setDefault ∅ _ _).2 name (Ne.symm h)

end Entity

namespace Record

variable {catalog : Catalog} {a b : Record} {name : String}

def entriesFor (catalog : Catalog) (record : Record) (name : String) : List Entity :=
  record.entities.filter (·.table? catalog == some name)

/-- One more entity: for every table it is the entity's own contribution that counts, whatever
    else the outcomes hold. -/
theorem table?_merge_load (entity : Entity) {outcome other : Outcome}
    (h : outcome.store.table? name = other.store.table? name) :
    (outcome.merge (entity.load catalog)).store.table? name =
      (other.merge (entity.load catalog)).store.table? name := by
  show (outcome.store.merge _).table? name = (other.store.merge _).table? name
  rw [Store.table?_merge, Store.table?_merge, h]

/-- Entities that are no entries for a table can be left out, as far as that table goes. -/
theorem table?_foldl_load (entities : List Entity) {outcome other : Outcome}
    (h : outcome.store.table? name = other.store.table? name) :
    (entities.foldl (fun outcome entity => outcome.merge (entity.load catalog)) outcome).store.table? name =
      ((entities.filter (·.table? catalog == some name)).foldl
        (fun outcome entity => outcome.merge (entity.load catalog)) other).store.table? name := by
  induction entities generalizing outcome other with
  | nil => exact h
  | cons entity rest ih =>
    by_cases hentity : entity.table? catalog = some name
    · rw [List.filter_cons_of_pos (by simp [hentity])]
      exact ih (table?_merge_load entity h)
    · rw [List.filter_cons_of_neg (by simp [hentity])]
      refine ih ?_
      show (outcome.store.merge (entity.load catalog).store).table? name = _
      rw [Store.table?_merge, Entity.table?_load_of_ne hentity, h]
      cases other.store.table? name <;> rfl

theorem table?_load (record : Record) : (record.load catalog).store.table? name =
    (Record.load catalog ⟨record.entriesFor catalog name⟩).store.table? name :=
  table?_foldl_load record.entities rfl

/-- Every entity of `a` is moved to a place of `b`, so that entries whose numbers resolve to one
    table stand in the same order as before. -/
def Reordered (catalog : Catalog) (a b : Record) : Prop :=
  ∃ move : Fin a.entities.length ≃ Fin b.entities.length,
    (∀ i, b.entities[move i] = a.entities[i]) ∧
    ∀ i j, i < j → (a.entities[i].table? catalog).isSome →
      a.entities[i].table? catalog = a.entities[j].table? catalog → move i < move j

theorem Reordered.entriesFor_eq (h : a.Reordered catalog b) (name : String) :
    a.entriesFor catalog name = b.entriesFor catalog name := by
  obtain ⟨move, hmove, horder⟩ := h
  refine filter_eq_of_moved move hmove fun i j hij hi hj => ?_
  rw [beq_iff_eq] at hi hj
  exact horder i j hij (Option.isSome_of_eq_some hi) (hi.trans hj.symm)

theorem Reordered.perm (h : a.Reordered catalog b) : a.entities.Perm b.entities := by
  obtain ⟨move, hmove, -⟩ := h
  exact perm_of_moved move hmove

/-- Entities in another order that keeps the entries of every table in theirs: the stores are the
    same, and the same is reported, in another order. -/
theorem load_reordered (h : a.Reordered catalog b) :
    (a.load catalog).store = (b.load catalog).store ∧
      (a.load catalog).diagnostics.Perm (b.load catalog).diagnostics := by
  constructor
  · refine Store.ext_table? fun name => ?_
    rw [table?_load a, table?_load b, h.entriesFor_eq name]
  · rw [diagnostics_load, diagnostics_load]
    exact h.perm.flatMap_right fun entity => (entity.load catalog).diagnostics

def twoTables : Catalog where
  table? := fun id =>
    if id = 1 ∨ id = 3 then some { name := "acl", actions := ["permit"] }
    else if id = 2 then some { name := "route" } else none
  action? := fun id => if id = 10 then some { name := "permit" } else none

/-- A rule and a default action for `acl` under different numbers, between them a group and an
    entry for `route`, and an entry for no table. -/
def mixedEntries : Record where
  entities := [
    .tableEntry { tableId := 1, action := some (.call { actionId := 10 }) },
    .profileGroup { profileId := 5, groupId := 6 },
    .tableEntry { tableId := 3, action := some (.profileMember 7), isDefaultAction := true },
    .tableEntry { tableId := 2, action := some (.profileGroup 6) },
    .tableEntry { tableId := 9 }]

/-- The same entities; those of `acl` are still in their order. -/
def mixedEntriesMoved : Record where
  entities := [
    .tableEntry { tableId := 9 },
    .tableEntry { tableId := 2, action := some (.profileGroup 6) },
    .tableEntry { tableId := 1, action := some (.call { actionId := 10 }) },
    .tableEntry { tableId := 3, action := some (.profileMember 7), isDefaultAction := true },
    .profileGroup { profileId := 5, groupId := 6 }]

def movedPlaces : Fin 5 ≃ Fin 5 where
  toFun := ![2, 4, 3, 1, 0]
  invFun := ![4, 3, 0, 2, 1]
  left_inv := show ∀ i, ![4, 3, 0, 2, 1] (![2, 4, 3, 1, 0] i) = i by decide
  right_inv := show ∀ j, ![2, 4, 3, 1, 0] (![4, 3, 0, 2, 1] j) = j by decide

theorem load_reordered_mixedEntries :
    mixedEntries.Reordered twoTables mixedEntriesMoved ∧
      (mixedEntries.load twoTables).store = (mixedEntriesMoved.load twoTables).store ∧
      (mixedEntries.load twoTables).diagnostics.Perm (mixedEntriesMoved.load twoTables).diagnostics := by
  have hmoved : mixedEntries.Reordered twoTables mixedEntriesMoved := ⟨movedPlaces, by decide, by decide⟩
  exact ⟨hmoved, load_reordered hmoved⟩

end Record

end MatchAction
