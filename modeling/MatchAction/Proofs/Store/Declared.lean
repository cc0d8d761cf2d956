/-
  MatchAction.Proofs.Store.Declared — stores that say of each table only what the program
  declares.

  The invariant: the rules of a table match keys of a table of that name with numbers that
  fit, and its bindings invoke actions that such a table lists, at their ordinals and with
  declared parameters. It is a matter of single rules and bindings, so every change of a
  store keeps it, and so does merging. A table name that is declared twice stands for both
  tables.

  Proved:
  - `Store.Declared.apply`, `Store.Declared.disable`, `Store.Declared.merge`: what is done to
    a store keeps the invariant.
  - `Config.Declared.formula`: the constraint of a declared configuration is well-typed and
    boolean, if the keys of the program are well-typed.
  - `Config.mem_fields_constraint`: its fields are those of the key predicates.
  - `Store.Declared.settled`: it evaluates to a boolean wherever the symbols that are
    collected from the store and the fields of the table's keys are bound.
-/

import MatchAction.Proofs.KeyPredicate
import MatchAction.Proofs.Store.Lookup
import MatchAction.Proofs.Store.Symbols
import MatchAction.Record.Load

namespace MatchAction

/-! ## The invariant -/

def Argument.Declared (program : Program) (action : String) (arg : Argument) : Prop :=
  ∃ decl, program.action? action = some decl ∧ ⟨arg.param, arg.ty⟩ ∈ decl.params ∧ arg.value < 2 ^ arg.ty.width

/-- A table of that name lists the action at its ordinal, and the arguments are declared. -/
def Binding.Declared (program : Program) (name : String) : Binding → Prop
  | direct action ordinal arguments =>
    (∃ table ∈ program.tables, table.name = name ∧ table.actions[ordinal.toNat]? = some action) ∧
      ∀ arg ∈ arguments, arg.Declared program action
  | profile _ => True

structure Rule.Declared (program : Program) (name : String) (rule : Rule) : Prop where
  keys : ∀ e ∈ rule.keySet.values, ∃ table ∈ program.tables, table.name = name ∧
    ∃ key ∈ table.keys, KeyPredicate key e
  action : rule.action.Declared program name

structure Config.Declared (program : Program) (name : String) (config : Config) : Prop where
  table : config.table = name
  rules : ∀ rule ∈ config.rules, rule.Declared program name
  default : ∀ action, config.defaultAction = some action → action.Declared program name

def Store.Declared (program : Program) (store : Store) : Prop :=
  ∀ name config, store.table? name = some config → config.Declared program name

def Change.Declared (program : Program) : Change → Prop
  | addRule name rule => rule.Declared program name
  | setDefault name action => action.Declared program name

variable {program : Program} {name : String}

/-! ## What is done to a store keeps it -/

namespace Config.Declared

variable {config later : Config}

theorem start (program : Program) (name : String) : Config.Declared program name { table := name } :=
  ⟨rfl, List.forall_mem_nil _, nofun⟩

theorem addRule (h : config.Declared program name) {rule : Rule} (hrule : rule.Declared program name) :
    (config.addRule rule).Declared program name :=
  ⟨h.table, List.forall_mem_append.mpr ⟨h.rules, List.forall_mem_singleton.mpr hrule⟩, h.default⟩

theorem setDefault (h : config.Declared program name) {action : Binding} (haction : action.Declared program name) :
    (config.setDefault action).Declared program name :=
  ⟨h.table, h.rules, fun _ heq => Option.some.inj heq ▸ haction⟩

theorem disable (h : config.Declared program name) : config.disable.Declared program name :=
  ⟨h.table, h.rules, h.default⟩

theorem append (h : config.Declared program name) (hlater : later.Declared program name) :
    (config.append later).Declared program name := by
  refine ⟨h.table, List.forall_mem_append.mpr ⟨h.rules, hlater.rules⟩, fun action haction => ?_⟩
  have haction : (later.defaultAction <|> config.defaultAction) = some action := haction
  cases hdefault : later.defaultAction with
  | none =>
    rw [hdefault] at haction
    exact h.default action haction
  | some replaced =>
    rw [hdefault] at haction
    exact Option.some.inj haction ▸ hlater.default replaced hdefault

end Config.Declared

namespace Store.Declared

variable {store later : Store}

theorem empty (program : Program) : (∅ : Store).Declared program := nofun

theorem config (h : store.Declared program) (name : String) : (store.config name).Declared program name := by
  unfold Store.config
  cases hconfig : store.table? name with
  | none => exact .start program name
  | some config => exact h name config hconfig

theorem update (h : store.Declared program) {change : Config → Config}
    (hchange : ∀ config : Config, config.Declared program name → (change config).Declared program name) :
    (store.update name change).Declared program := by
  intro other config hconfig
  by_cases hother : other = name
  · subst hother
    rw [Store.table?_update_self] at hconfig
    exact Option.some.inj hconfig ▸ hchange _ (h.config other)
  · rw [Store.table?_update_of_ne hother] at hconfig
    exact h other config hconfig

theorem addRule (h : store.Declared program) {rule : Rule} (hrule : rule.Declared program name) :
    (store.addRule name rule).Declared program := h.update fun _ hconfig => hconfig.addRule hrule

theorem setDefault (h : store.Declared program) {action : Binding} (haction : action.Declared program name) :
    (store.setDefault name action).Declared program := h.update fun _ hconfig => hconfig.setDefault haction

theorem apply (h : store.Declared program) {change : Change} (hchange : change.Declared program) :
    (change.apply store).Declared program := by
  cases change with
  | addRule name rule => exact h.addRule hchange
  | setDefault name action => exact h.setDefault hchange

theorem disable (h : store.Declared program) (name : String) : (store.disable name).Declared program :=
  h.update fun _ hconfig => hconfig.disable

theorem merge (h : store.Declared program) (hlater : later.Declared program) :
    (store.merge later).Declared program := by
  intro name config hconfig
  rw [Store.table?_merge] at hconfig
  cases hold : store.table? name with
  | none =>
    rw [hold, Option.merge_none_left] at hconfig
    exact hlater name config hconfig
  | some old =>
    cases hnew : later.table? name with
    | none =>
      rw [hold, hnew] at hconfig
      exact Option.some.inj hconfig ▸ h name old hold
    | some new =>
      rw [hold, hnew] at hconfig
      exact Option.some.inj hconfig ▸ (h name old hold).append (hlater name new hnew)

end Store.Declared

/-! ## The constraint of a table -/

def Program.KeysTyped (program : Program) : Prop :=
  ∀ table ∈ program.tables, ∀ key ∈ table.keys, key.expr.WellTyped

open Term

theorem Binding.Declared.equality_formula {action : Binding} (h : action.Declared program name) (table : String) :
    ∀ e ∈ action.equalities table, e.Formula := by
  have hchoice : ∀ n, n < 2 ^ 32 → (Binding.choiceIs table n).Formula := fun n hn =>
    .eq trivial (constant_wellTyped hn) rfl
  cases action with
  | direct action ordinal arguments =>
    refine List.forall_mem_cons.mpr ⟨hchoice _ ordinal.toNat_lt, List.forall_mem_map.mpr fun arg harg => ?_⟩
    obtain ⟨decl, -, -, hfits⟩ := h.2 arg harg
    exact .eq trivial (literal_wellTyped (Ty.fits_iff.mpr hfits)) (literal_ty ..).symm
  | profile target => exact List.forall_mem_singleton.mpr (hchoice _ (by decide))

theorem Rule.Declared.predicate_formula (hkeys : program.KeysTyped) {rule : Rule} (h : rule.Declared program name) :
    ∀ e ∈ rule.keySet.values, e.Formula := by
  intro e he
  obtain ⟨table, htable, -, key, hkey, hpredicate⟩ := h.keys e he
  exact hpredicate.formula (hkeys table htable key hkey)

namespace Config

variable {config : Config}

theorem afterMisses_formula {earlier rest : List Term} (hearlier : ∀ e ∈ earlier, e.Formula)
    (hrest : ∀ e ∈ rest, e.Formula) : (afterMisses earlier rest).Formula :=
  .all (List.forall_mem_append.mpr ⟨List.forall_mem_map.mpr fun e he => (hearlier e he).not, hrest⟩)

theorem Declared.formula (hkeys : program.KeysTyped) (h : config.Declared program name) :
    config.constraint.Formula := by
  have hcondition : ∀ rule ∈ config.rules, rule.condition.Formula := fun rule hrule =>
    .all ((h.rules rule hrule).predicate_formula hkeys)
  refine .all (List.forall_mem_cons.mpr ⟨.eq trivial trivial rfl, List.forall_mem_append.mpr ⟨?_, ?_⟩⟩)
  · intro e he
    obtain ⟨i, rule, hi, rfl⟩ := mem_ruleConstraints.mp he
    have hrule := List.mem_of_getElem? hi
    refine .implies (afterMisses_formula ?_ (List.forall_mem_singleton.mpr (hcondition rule hrule)))
      (.all ((h.rules rule hrule).action.equality_formula _))
    exact List.forall_mem_map.mpr fun earlier hearlier => hcondition earlier (List.mem_of_mem_take hearlier)
  · intro e he
    obtain ⟨action, haction, rfl⟩ := mem_defaultConstraints.mp he
    exact .implies (afterMisses_formula (List.forall_mem_map.mpr hcondition) (List.forall_mem_nil _))
      (.all ((h.default action haction).equality_formula _))

/-! ## Where it evaluates -/

theorem mem_fields_implies {a b : Term} {f : String × Ty} :
    f ∈ (implies a b).fields ↔ f ∈ a.fields ∨ f ∈ b.fields := List.mem_append

theorem equality_fields {table : String} {action : Binding} : ∀ e ∈ action.equalities table, e.fields = [] := by
  cases action with
  | direct action ordinal arguments =>
    refine List.forall_mem_cons.mpr ⟨rfl, List.forall_mem_map.mpr fun arg _ => ?_⟩
    cases harg : arg.ty <;> simp [Binding.argumentIs, harg, literal, Term.eq, fields]
  | profile target => exact List.forall_mem_singleton.mpr rfl

theorem mem_fields_afterMisses {earlier rest : List Term} {f : String × Ty}
    (h : f ∈ (afterMisses earlier rest).fields) : ∃ e ∈ earlier ++ rest, f ∈ e.fields := by
  obtain ⟨e, he, hf⟩ := mem_fields_all.mp h
  rcases List.mem_append.mp he with he | he
  · obtain ⟨condition, hcondition, rfl⟩ := List.mem_map.mp he
    exact ⟨condition, List.mem_append_left _ hcondition, hf⟩
  · exact ⟨e, List.mem_append_right _ he, hf⟩

/-- The implication says no more of the fields than the conditions before it and its own. -/
theorem mem_fields_implication {earlier rest : List Term} {table : String} {action : Binding} {f : String × Ty}
    (h : f ∈ (implies (afterMisses earlier rest) (.all (action.equalities table))).fields) :
    ∃ e ∈ earlier ++ rest, f ∈ e.fields := by
  rcases mem_fields_implies.mp h with h | h
  · exact mem_fields_afterMisses h
  · obtain ⟨e, he, hf⟩ := mem_fields_all.mp h
    rw [equality_fields e he] at hf
    cases hf

theorem mem_fields_constraint {f : String × Ty} (h : f ∈ config.constraint.fields) :
    ∃ rule ∈ config.rules, ∃ e ∈ rule.keySet.values, f ∈ e.fields := by
  have hcondition : ∀ e, (∃ rule ∈ config.rules, rule.condition = e) → f ∈ e.fields →
      ∃ rule ∈ config.rules, ∃ e ∈ rule.keySet.values, f ∈ e.fields := by
    rintro _ ⟨rule, hrule, rfl⟩ hf
    exact ⟨rule, hrule, mem_fields_all.mp hf⟩
  obtain ⟨e, he, hf⟩ := mem_fields_all.mp h
  rcases List.mem_cons.mp he with rfl | he
  · cases hf
  rcases List.mem_append.mp he with he | he
  · obtain ⟨i, rule, hi, rfl⟩ := mem_ruleConstraints.mp he
    obtain ⟨e, he, hf⟩ := mem_fields_implication hf
    refine hcondition e ?_ hf
    -- the conditions of the rules before it are repeated, and its own comes last
    rcases List.mem_append.mp he with he | he
    · obtain ⟨earlier, hearlier, rfl⟩ := List.mem_map.mp he
      exact ⟨earlier, List.mem_of_mem_take hearlier, rfl⟩
    · obtain rfl := List.mem_singleton.mp he
      exact ⟨rule, List.mem_of_getElem? hi, rfl⟩
  · obtain ⟨action, -, rfl⟩ := mem_defaultConstraints.mp he
    obtain ⟨e, he, hf⟩ := mem_fields_implication hf
    rw [List.append_nil] at he
    exact hcondition e (List.mem_map.mp he) hf

end Config

/-- Every symbol of the store and every field of a key of the table has a value of its type. -/
structure Store.Bound (program : Program) (store : Store) (name : String) (env : Assignment) : Prop where
  symbols : ∀ s ∈ store.symbols.toList, ∃ v, env.symbol s = some v ∧ v.Fits s.ty
  fields : ∀ table ∈ program.tables, table.name = name → ∀ key ∈ table.keys, ∀ f ∈ key.expr.fields,
    ∃ v, env.field f.1 = some v ∧ v.Fits f.2

theorem Store.Declared.settled (hkeys : program.KeysTyped) {store : Store} (h : store.Declared program)
    {config : Config} (hconfig : store.table? name = some config) {env : Assignment}
    (hbound : store.Bound program name env) : ∃ b, config.constraint.evalBool env = .ok b := by
  have hdeclared := h name config hconfig
  refine (hdeclared.formula hkeys).settled (bound_iff.mpr ⟨?_, ?_⟩)
  · intro s hs
    exact hbound.symbols s (Store.mem_symbols_iff.mpr ⟨name, config, hconfig, hs⟩)
  · intro f hf
    obtain ⟨rule, hrule, e, he, hf⟩ := Config.mem_fields_constraint hf
    obtain ⟨table, htable, hname, key, hkey, hpredicate⟩ := (hdeclared.rules rule hrule).keys e he
    exact hbound.fields table htable hname key hkey f (hpredicate.mem_fields.mp hf)

end MatchAction
