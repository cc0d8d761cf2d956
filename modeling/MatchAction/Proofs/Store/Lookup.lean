/-
  MatchAction.Proofs.Store.Lookup — what a store holds for each table.

  Every change of a store is a change of one table, seen by looking that table up; two
  stores in which every table looks the same are one store. Merging keeps the order: stores
  with merging are a monoid, and a change of the later store is a change of the merged one.

  Proved:
  - `table?_update`, `table?_merge`: what a change and a merge leave for each table.
  - `puts_addRule`, `puts_setDefault`: a change of one table leaves the others as they are.
  - `merge_assoc`, `empty_merge`, `merge_empty`: how stores are put together does not matter.
  - `merge_addRule`, `merge_setDefault`, `merge_disable`: a change before merging or after.
  - `config_addRules`, `addRules_setDefault`: rules that are added one after the other come last,
    in order, and a default action may be set before them or after.
  - `length_rules_addRule`, `length_rules_setDefault`: how many rules there are after a change.
  - `length_disabledTables_addRules`, `length_disabledTables_disable`: how many disabled tables.
-/

import MatchAction.Proofs.SortedMap
import MatchAction.Store.Basic

namespace MatchAction

namespace Config

/-- Nothing to append. -/
@[simp] theorem append_start (config : Config) (name : String) : config.append { table := name } = config := by
  simp [append]

theorem append_assoc (a b c : Config) : (a.append b).append c = a.append (b.append c) := by
  cases h : c.defaultAction <;> simp [append, h, List.append_assoc, Bool.or_assoc]

instance : Std.Associative append := ⟨append_assoc⟩

theorem append_addRule (config later : Config) (rule : Rule) :
    config.append (later.addRule rule) = (config.append later).addRule rule := by
  simp [append, addRule]

theorem append_setDefault (config later : Config) (action : Binding) :
    config.append (later.setDefault action) = (config.append later).setDefault action := rfl

theorem append_disable (config later : Config) : config.append later.disable = (config.append later).disable := by
  simp [append, disable]

end Config

namespace Store

variable {store later : Store} {name other : String} {change : Config → Config}

/-- What `store` holds for `name`, or the configuration that a first change starts from. -/
def config (store : Store) (name : String) : Config := (store.table? name).getD { table := name }

theorem ext_table? (h : ∀ name, store.table? name = later.table? name) : store = later := by
  cases store
  cases later
  exact congrArg _ (SortedMap.ext_get? h)

@[simp] theorem table?_empty (name : String) : (∅ : Store).table? name = none := rfl

theorem table?_update : (store.update name change).table? other =
    if other = name then some (change (store.config name)) else store.table? other := by
  simp only [table?, update, SortedMap.get?_alter, Std.LawfulEqCmp.compare_eq_iff_eq, config]

theorem table?_update_self : (store.update name change).table? name = some (change (store.config name)) := by
  rw [table?_update, if_pos rfl]

theorem table?_update_of_ne (h : other ≠ name) : (store.update name change).table? other = store.table? other := by
  rw [table?_update, if_neg h]

theorem config_update_self : (store.update name change).config name = change (store.config name) := by
  rw [config, table?_update_self, Option.getD_some]

theorem config_update_of_ne (h : other ≠ name) : (store.update name change).config other = store.config other := by
  rw [config, table?_update_of_ne h, config]

theorem update_update (store : Store) (name : String) (f g : Config → Config) :
    (store.update name f).update name g = store.update name (g ∘ f) := by
  refine ext_table? fun other => ?_
  by_cases h : other = name
  · subst h
    rw [table?_update_self, table?_update_self, config_update_self]
    rfl
  · rw [table?_update_of_ne h, table?_update_of_ne h, table?_update_of_ne h]

theorem config_addRule (store : Store) (name : String) (rule : Rule) :
    (store.addRule name rule).config name = (store.config name).addRule rule := config_update_self

theorem config_setDefault (store : Store) (name : String) (action : Binding) :
    (store.setDefault name action).config name = (store.config name).setDefault action := config_update_self

theorem config_disable (store : Store) (name : String) :
    (store.disable name).config name = (store.config name).disable := config_update_self

/-- `after` holds `config` for `name`, and for every other table what `store` holds. -/
def Puts (store after : Store) (name : String) (config : Config) : Prop :=
  after.table? name = some config ∧ ∀ other, other ≠ name → after.table? other = store.table? other

theorem puts_update (store : Store) (name : String) (change : Config → Config) :
    store.Puts (store.update name change) name (change (store.config name)) :=
  ⟨table?_update_self, fun _ h => table?_update_of_ne h⟩

theorem puts_addRule (store : Store) (name : String) (rule : Rule) :
    store.Puts (store.addRule name rule) name
      { store.config name with rules := (store.config name).rules ++ [rule] } := puts_update ..

theorem puts_setDefault (store : Store) (name : String) (action : Binding) :
    store.Puts (store.setDefault name action) name { store.config name with defaultAction := some action } :=
  puts_update ..

theorem table?_merge : (store.merge later).table? name =
    Option.merge Config.append (store.table? name) (later.table? name) := SortedMap.get?_mergeWith ..

theorem rules_config_merge (store later : Store) (name : String) :
    ((store.merge later).config name).rules = (store.config name).rules ++ (later.config name).rules := by
  unfold config
  rw [table?_merge]
  cases store.table? name with
  | none => cases later.table? name <;> rfl
  | some a =>
    cases later.table? name with
    | none => exact (List.append_nil a.rules).symm
    | some b => rfl

@[simp] theorem merge_empty (store : Store) : store.merge ∅ = store := rfl

theorem empty_merge (store : Store) : (∅ : Store).merge store = store := by
  refine ext_table? fun name => ?_
  rw [table?_merge, table?_empty, Option.merge_none_left]

theorem merge_assoc (a b c : Store) : (a.merge b).merge c = a.merge (b.merge c) := by
  refine ext_table? fun name => ?_
  simp only [table?_merge]
  exact Std.Associative.assoc ..

/-- A change that can be made before appending or after can be made before merging or after. -/
theorem merge_update (h : ∀ a b : Config, a.append (change b) = change (a.append b)) :
    store.merge (later.update name change) = (store.merge later).update name change := by
  refine ext_table? fun other => ?_
  by_cases hother : other = name
  · subst hother
    rw [table?_merge, table?_update_self, table?_update_self]
    unfold config
    rw [table?_merge]
    cases store.table? other with
    | none => rw [Option.merge_none_left, Option.merge_none_left]
    | some a =>
      cases later.table? other with
      | none =>
        have hstart := h a { table := other }
        rw [Config.append_start] at hstart
        exact congrArg some hstart
      | some b => exact congrArg some (h a b)
  · rw [table?_merge, table?_update_of_ne hother, table?_update_of_ne hother, table?_merge]

theorem merge_addRule (store later : Store) (name : String) (rule : Rule) :
    store.merge (later.addRule name rule) = (store.merge later).addRule name rule :=
  merge_update fun a b => Config.append_addRule a b rule

theorem merge_setDefault (store later : Store) (name : String) (action : Binding) :
    store.merge (later.setDefault name action) = (store.merge later).setDefault name action :=
  merge_update fun a b => Config.append_setDefault a b action

theorem merge_disable (store later : Store) (name : String) :
    store.merge (later.disable name) = (store.merge later).disable name := merge_update Config.append_disable

/-! ## Many rules -/

def addRules (store : Store) (name : String) (rules : List Rule) : Store :=
  rules.foldl (fun store rule => store.addRule name rule) store

theorem table?_addRules_of_ne (rules : List Rule) (h : other ≠ name) :
    (store.addRules name rules).table? other = store.table? other := by
  induction rules generalizing store with
  | nil => rfl
  | cons rule rest ih => exact ih.trans (table?_update_of_ne h)

theorem config_addRules (store : Store) (name : String) (rules : List Rule) :
    (store.addRules name rules).config name =
      { store.config name with rules := (store.config name).rules ++ rules } := by
  induction rules generalizing store with
  | nil => simp [addRules]
  | cons rule rest ih =>
    refine (ih (store.addRule name rule)).trans ?_
    rw [config_addRule]
    simp [Config.addRule]

theorem merge_addRules (store later : Store) (name : String) (rules : List Rule) :
    store.merge (later.addRules name rules) = (store.merge later).addRules name rules := by
  induction rules generalizing later with
  | nil => rfl
  | cons rule rest ih => exact (ih (later.addRule name rule)).trans (by rw [merge_addRule]; rfl)

/-- A default action may be set before the rules are added or after. -/
theorem addRules_setDefault (store : Store) (name : String) (action : Binding) (rules : List Rule) :
    (store.setDefault name action).addRules name rules = (store.addRules name rules).setDefault name action := by
  induction rules generalizing store with
  | nil => rfl
  | cons rule rest ih =>
    have hrule : (store.setDefault name action).addRule name rule =
        (store.addRule name rule).setDefault name action := by
      rw [setDefault, addRule, update_update, setDefault, addRule, update_update]
      rfl
    calc (store.setDefault name action).addRules name (rule :: rest)
      _ = ((store.addRule name rule).setDefault name action).addRules name rest :=
        congrArg (addRules · name rest) hrule
      _ = (store.addRules name (rule :: rest)).setDefault name action := ih (store.addRule name rule)

/-! ## Counting rules and disabled tables -/

/-- What the tables list together changes by what the changed table lists. -/
theorem length_flatMap_update {γ : Type} (f : Config → List γ) (store : Store) (name : String)
    (change : Config → Config) (hstart : f { table := name } = []) :
    ((store.update name change).tables.values.flatMap f).length + (f (store.config name)).length =
      (store.tables.values.flatMap f).length + (f (change (store.config name))).length := by
  have h := SortedMap.length_flatMap_alter f store.tables name fun config => change (config.getD { table := name })
  have hold : (store.tables.get? name).elim [] f = f (store.config name) := by
    rw [config, table?]
    cases store.tables.get? name with
    | none => exact hstart.symm
    | some config => rfl
  rw [hold] at h
  exact h

def rules (store : Store) : List Rule := store.tables.values.flatMap (·.rules)

@[simp] theorem rules_empty : (∅ : Store).rules = [] := rfl

theorem length_rules_update (store : Store) (name : String) (change : Config → Config) :
    (store.update name change).rules.length + (store.config name).rules.length =
      store.rules.length + (change (store.config name)).rules.length :=
  length_flatMap_update (·.rules) store name change rfl

theorem length_rules_addRule (store : Store) (name : String) (rule : Rule) :
    (store.addRule name rule).rules.length = store.rules.length + 1 := by
  have h := length_rules_update store name (·.addRule rule)
  simp only [Config.addRule, List.length_append, List.length_singleton] at h
  show (store.update name (·.addRule rule)).rules.length = _
  simp only [Config.addRule]
  omega

theorem length_rules_setDefault (store : Store) (name : String) (action : Binding) :
    (store.setDefault name action).rules.length = store.rules.length :=
  Nat.add_right_cancel (length_rules_update store name (·.setDefault action))

def disabledTables (store : Store) : List Config := store.tables.values.filter (·.disabled)

theorem disabledTables_eq_flatMap (store : Store) :
    store.disabledTables = store.tables.values.flatMap fun config => (Option.guard (·.disabled) config).toList := by
  rw [disabledTables, ← List.filterMap_eq_filter, List.filterMap_eq_flatMap_toList]

theorem length_disabledTables_update (store : Store) (name : String) (change : Config → Config) :
    (store.update name change).disabledTables.length + (store.config name).disabled.toNat =
      store.disabledTables.length + (change (store.config name)).disabled.toNat := by
  have hlength : ∀ config : Config, (Option.guard (·.disabled) config).toList.length = config.disabled.toNat := by
    intro config
    cases h : config.disabled <;> simp [Option.guard, h]
  have h := length_flatMap_update (fun config => (Option.guard (·.disabled) config).toList) store name change rfl
  rw [hlength, hlength, ← disabledTables_eq_flatMap, ← disabledTables_eq_flatMap] at h
  exact h

theorem length_disabledTables_setDefault (store : Store) (name : String) (action : Binding) :
    (store.setDefault name action).disabledTables.length = store.disabledTables.length :=
  Nat.add_right_cancel (length_disabledTables_update store name (·.setDefault action))

theorem length_disabledTables_addRules (store : Store) (name : String) (rules : List Rule) :
    (store.addRules name rules).disabledTables.length = store.disabledTables.length := by
  induction rules generalizing store with
  | nil => rfl
  | cons rule rest ih =>
    exact (ih (store.addRule name rule)).trans
      (Nat.add_right_cancel (length_disabledTables_update store name (·.addRule rule)))

theorem length_disabledTables_disable (h : (store.config name).disabled = false) :
    (store.disable name).disabledTables.length = store.disabledTables.length + 1 := by
  have hupdate := length_disabledTables_update store name Config.disable
  rw [h] at hupdate
  exact hupdate

end Store

end MatchAction
