/-
  MatchAction.Proofs.Record.Concatenation — records that are sent one after the other.

  A record is converted entity by entity, each into a store of its own. Nothing that an
  entity contributes depends on the entities before it, and merging keeps the order, so it
  does not matter where one record ends and the next begins, nor whether the entries of
  tables are merged or put directly into the store that the earlier ones filled.

  Proved:
  - `appends_merge_load`, `diagnostics_load`: converting the next entity only adds to the outcome,
    and to the reports what it reports by itself.
  - `load_compositional`: a record in two parts, and a record as its table entries one by one.
-/

import MatchAction.Proofs.Outcome
import MatchAction.Proofs.Record.Accounting

namespace MatchAction.Record

variable {catalog : Catalog}

theorem appends_merge_load (catalog : Catalog) :
    Outcome.Appends fun (outcome : Outcome) (entity : Entity) => outcome.merge (entity.load catalog) :=
  fun outcome later entity => Outcome.merge_assoc outcome later (entity.load catalog)

theorem load_append (catalog : Catalog) (r₁ r₂ : List Entity) :
    Record.load catalog ⟨r₁ ++ r₂⟩ = (Record.load catalog ⟨r₁⟩).merge (Record.load catalog ⟨r₂⟩) :=
  (appends_merge_load catalog).foldl_append r₁ r₂

/-- What a record reports is what its entities report, in their order. -/
theorem diagnostics_load (record : Record) :
    (record.load catalog).diagnostics = record.entities.flatMap fun entity => (entity.load catalog).diagnostics :=
  (appends_merge_load catalog).diagnostics_foldl record.entities

/-- The entries of a record, put one by one into what was there before. -/
theorem foldl_loadInto (catalog : Catalog) (record : Record) (outcome : Outcome) :
    record.tableEntries.foldl (TableEntry.loadInto catalog) outcome = outcome.merge (record.load catalog) := by
  rw [← foldl_merge_load]
  exact (appends_merge_load catalog).foldl_eq_merge record.entities outcome

theorem tableEntries_map (entries : List TableEntry) :
    Record.tableEntries ⟨entries.map .tableEntry⟩ = entries := by
  simp only [tableEntries, List.filterMap_map, Function.comp_def, List.filterMap_some]

/-- Converting two lists of entities as one record merges what they give apart, the reports of the
    second after those of the first. The merged conversion of a record is also that of its table
    entries put one by one into one store, from nothing as from what was there before, and entities
    of other kinds contribute nothing. -/
theorem load_compositional (catalog : Catalog) :
    (∀ r₁ r₂ : List Entity,
      (Record.load catalog ⟨r₁ ++ r₂⟩).store =
        (Record.load catalog ⟨r₁⟩).store.merge (Record.load catalog ⟨r₂⟩).store ∧
      (Record.load catalog ⟨r₁ ++ r₂⟩).diagnostics =
        (Record.load catalog ⟨r₁⟩).diagnostics ++ (Record.load catalog ⟨r₂⟩).diagnostics) ∧
    ∀ record : Record,
      record.load catalog = record.tableEntries.foldl (TableEntry.loadInto catalog) {} ∧
      (∀ outcome : Outcome, outcome.merge (record.load catalog) =
        record.tableEntries.foldl (TableEntry.loadInto catalog) outcome) ∧
      record.load catalog = Record.load catalog ⟨record.tableEntries.map .tableEntry⟩ := by
  refine ⟨fun r₁ r₂ => ?_, fun record => ⟨load_eq_foldl catalog record, fun outcome => ?_, ?_⟩⟩
  · rw [load_append]
    exact ⟨rfl, rfl⟩
  · exact (foldl_loadInto catalog record outcome).symm
  · rw [load_eq_foldl, load_eq_foldl, tableEntries_map]

end MatchAction.Record
