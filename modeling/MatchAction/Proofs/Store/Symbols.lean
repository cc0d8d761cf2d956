/-
  MatchAction.Proofs.Store.Symbols — the symbols of a store are those that it names.

  The symbols are collected from the constraints of the tables, where every rule repeats the
  conditions of the rules before it and negates them. None of this loses a symbol or brings one in:
  what is collected from a table is its active symbol, the symbols of its key predicates, and for
  each of its bindings the action choice and an argument for each of its parameters. A merged store
  names what the two stores name, but for the default actions that are replaced.

  Whatever is not collected does not matter to the constraints.

  Proved:
  - `mem_symbols_iff_mentions`: collecting finds the symbols that a term mentions.
  - `Config.mem_symbols_constraint`: the symbols of the constraint of a table.
  - `mem_symbols_iff`: the symbols of a store are those of the constraints of its tables.
  - `symbols_are_named`: the symbols of every store that comes about, in their order, and those of
    a merged store.
  - `collected_decides`: environments that agree on the symbols that are collected, and on fields,
    give the same values and the same errors.
-/

import MatchAction.Proofs.Store.FirstMatch
import MatchAction.Proofs.Store.Log
import MatchAction.Proofs.Term.Formula
import MatchAction.Proofs.TextOrder

namespace MatchAction

/-! ## The order of symbols -/

/-- By the bytes of the names, then by type, booleans first. -/
def Symbol.Before (s t : Symbol) : Prop :=
  s.name.toUTF8.toList < t.name.toUTF8.toList ∨ s.name = t.name ∧ s.ty.rank < t.ty.rank

theorem Symbol.before_of_compare {s t : Symbol} (h : compare s t = .lt) : s.Before t := by
  have hthen : ((compare s.name t.name).then (compare s.ty.rank t.ty.rank)) = .lt := h
  cases hname : compare s.name t.name with
  | lt => exact .inl (bytes_lt_iff.mpr (compareOfLessAndEq_eq_lt.mp hname))
  | eq =>
    rw [hname] at hthen
    exact .inr ⟨Std.LawfulEqCmp.eq_of_compare hname, Nat.compare_eq_lt.mp hthen⟩
  | gt =>
    rw [hname] at hthen
    cases hthen

theorem Symbol.Before.ne {s t : Symbol} (h : s.Before t) : s ≠ t := by
  rintro rfl
  rcases h with h | ⟨-, h⟩
  · exact List.lt_irrefl _ h
  · exact Nat.lt_irrefl _ h

theorem SymbolSet.pairwise_before (set : SymbolSet) : set.toList.Pairwise Symbol.Before :=
  List.pairwise_map.mpr (set.sorted.imp Symbol.before_of_compare)

namespace Term

variable {a b e : Term} {es : List Term} {s : Symbol}

def Mentions (s : Symbol) : Term → Prop
  | symbol t => s = t
  | not a => a.Mentions s
  | binary _ a b => a.Mentions s ∨ b.Mentions s
  | bool _ | constant _ _ | field _ _ => False

theorem mem_symbols_iff_mentions : s ∈ e.symbols.toList ↔ e.Mentions s := by
  induction e with
  | bool value => exact iff_of_false List.not_mem_nil id
  | constant ty n => exact iff_of_false List.not_mem_nil id
  | symbol t => exact List.mem_singleton
  | field path ty => exact iff_of_false List.not_mem_nil id
  | not a ih => exact ih
  | binary op a b iha ihb => rw [mem_symbols_binary, iha, ihb, Mentions]

theorem mem_symbols_implies : s ∈ (implies a b).symbols.toList ↔ s ∈ a.symbols.toList ∨ s ∈ b.symbols.toList :=
  mem_symbols_binary

theorem mem_symbols_afterMisses {earlier rest : List Term} :
    s ∈ (Config.afterMisses earlier rest).symbols.toList ↔ ∃ e ∈ earlier ++ rest, s ∈ e.symbols.toList := by
  rw [Config.afterMisses, mem_symbols_all]
  simp only [List.mem_append, List.mem_map, or_and_right, exists_or, exists_exists_and_eq_and]
  exact Iff.rfl

theorem mem_symbols_equalities {table : String} {action : Binding} :
    s ∈ (all (action.equalities table)).symbols.toList ↔ s ∈ action.symbols table := by
  have hequality : ∀ t rhs, rhs.symbols.toList = [] → (s ∈ (Term.eq (symbol t) rhs).symbols.toList ↔ s = t) := by
    intro t rhs hrhs
    rw [Term.eq, mem_symbols_binary, hrhs, or_iff_left List.not_mem_nil]
    exact List.mem_singleton
  rw [mem_symbols_all]
  cases action with
  | direct action ordinal arguments =>
    rw [Binding.equalities, Binding.symbols, List.exists_mem_cons_iff, List.mem_cons, List.mem_map]
    refine or_congr (hequality _ _ rfl) ?_
    simp only [List.mem_map, exists_exists_and_eq_and]
    refine exists_congr fun arg => and_congr_right fun _ => ?_
    rw [Binding.argumentIs, hequality _ _ (symbols_literal ..), eq_comm]
  | profile target =>
    rw [Binding.equalities, Binding.symbols, List.exists_mem_cons_iff, List.mem_singleton]
    refine (or_iff_left ?_).trans (hequality _ _ rfl)
    rintro ⟨_, h, -⟩
    exact List.not_mem_nil h

end Term

/-! ## One table -/

/-- The configuration says something of the symbol, as that of the table `name`. -/
inductive Config.Names (name : String) (config : Config) : Symbol → Prop
  | active : Names name config (.active name)
  | predicate {rule : Rule} {e : Term} {s : Symbol} : rule ∈ config.rules → e ∈ rule.keySet.values → e.Mentions s →
      Names name config s
  | binding {rule : Rule} {s : Symbol} : rule ∈ config.rules → s ∈ rule.action.symbols name → Names name config s
  | default {action : Binding} {s : Symbol} : config.defaultAction = some action → s ∈ action.symbols name →
      Names name config s

namespace Config

variable {config later : Config} {name : String} {s : Symbol}

open Term

theorem mem_symbols_condition {rule : Rule} :
    s ∈ rule.condition.symbols.toList ↔ ∃ e ∈ rule.keySet.values, e.Mentions s := by
  rw [Rule.condition, mem_symbols_all]
  exact exists_congr fun e => and_congr_right fun _ => mem_symbols_iff_mentions

/-- An implication is about the conditions that it repeats and the binding that it asks for. -/
theorem mem_symbols_implication {earlier rest : List Term} {table : String} {action : Binding} :
    s ∈ (Term.implies (afterMisses earlier rest) (.all (action.equalities table))).symbols.toList ↔
      (∃ e ∈ earlier ++ rest, s ∈ e.symbols.toList) ∨ s ∈ action.symbols table := by
  rw [mem_symbols_implies, mem_symbols_afterMisses, mem_symbols_equalities]

theorem names_of_condition {e : Term} (he : e ∈ config.rules.map Rule.condition) (hs : s ∈ e.symbols.toList) :
    config.Names name s := by
  obtain ⟨rule, hrule, rfl⟩ := List.mem_map.mp he
  obtain ⟨e, he, hmentions⟩ := mem_symbols_condition.mp hs
  exact .predicate hrule he hmentions

theorem names_of_ruleConstraint {e : Term} (he : e ∈ ruleConstraints config.table [] config.rules)
    (hs : s ∈ e.symbols.toList) : config.Names config.table s := by
  obtain ⟨i, rule, hi, rfl⟩ := mem_ruleConstraints.mp he
  have hrule := List.mem_of_getElem? hi
  rcases mem_symbols_implication.mp hs with ⟨e, he, hs⟩ | hs
  · refine names_of_condition ?_ hs
    rcases List.mem_append.mp he with he | he
    · exact List.map_subset _ (List.take_subset ..) he
    · exact List.mem_singleton.mp he ▸ List.mem_map_of_mem hrule
  · exact .binding hrule hs

theorem names_of_defaultConstraint {e : Term} (he : e ∈ config.defaultConstraints) (hs : s ∈ e.symbols.toList) :
    config.Names config.table s := by
  obtain ⟨action, haction, rfl⟩ := mem_defaultConstraints.mp he
  rcases mem_symbols_implication.mp hs with ⟨e, he, hs⟩ | hs
  · rw [List.append_nil] at he
    exact names_of_condition he hs
  · exact .default haction hs

/-- The constraint is about what the configuration names: the conditions that it repeats say
    nothing new, and every rule has an implication with its own condition and binding. -/
theorem mem_symbols_constraint : s ∈ config.constraint.symbols.toList ↔ config.Names config.table s := by
  rw [constraint, mem_symbols_all, List.exists_mem_cons_iff]
  constructor
  · rintro (hs | ⟨e, he, hs⟩)
    · rcases mem_symbols_binary.mp hs with hs | hs
      · exact List.mem_singleton.mp hs ▸ .active
      · exact absurd hs List.not_mem_nil
    · rcases List.mem_append.mp he with he | he
      · exact names_of_ruleConstraint he hs
      · exact names_of_defaultConstraint he hs
  · have hrule : ∀ rule ∈ config.rules, ∃ earlier,
        Term.implies (afterMisses earlier [rule.condition]) (.all (rule.action.equalities config.table)) ∈
          ruleConstraints config.table [] config.rules := by
      intro rule hrule
      obtain ⟨i, hi⟩ := List.mem_iff_getElem?.mp hrule
      exact ⟨_, mem_ruleConstraints.mpr ⟨i, rule, hi, rfl⟩⟩
    intro h
    cases h with
    | active => exact .inl (mem_symbols_binary.mpr (.inl (List.mem_singleton_self _)))
    | @predicate rule e s hmem he hmentions =>
      obtain ⟨earlier, hmem⟩ := hrule rule hmem
      have hown : rule.condition ∈ earlier ++ [rule.condition] :=
        List.mem_append_right _ (List.mem_singleton_self _)
      have hs : s ∈ rule.condition.symbols.toList := mem_symbols_condition.mpr ⟨e, he, hmentions⟩
      exact .inr ⟨_, List.mem_append_left _ hmem, mem_symbols_implication.mpr (.inl ⟨_, hown, hs⟩)⟩
    | binding hmem hs =>
      obtain ⟨earlier, hmem⟩ := hrule _ hmem
      exact .inr ⟨_, List.mem_append_left _ hmem, mem_symbols_implication.mpr (.inr hs)⟩
    | default haction hs =>
      have hmem := mem_defaultConstraints.mpr ⟨_, haction, rfl⟩
      exact .inr ⟨_, List.mem_append_right _ hmem, mem_symbols_implication.mpr (.inr hs)⟩

/-! ## One configuration after another -/

theorem names_of_append (h : (config.append later).Names name s) : config.Names name s ∨ later.Names name s := by
  cases h with
  | active => exact .inl .active
  | predicate hmem he hmentions =>
    rcases List.mem_append.mp hmem with hmem | hmem
    · exact .inl (.predicate hmem he hmentions)
    · exact .inr (.predicate hmem he hmentions)
  | binding hmem hs =>
    rcases List.mem_append.mp hmem with hmem | hmem
    · exact .inl (.binding hmem hs)
    · exact .inr (.binding hmem hs)
  | @default action s haction hs =>
    have haction : (later.defaultAction <|> config.defaultAction) = some action := haction
    cases hlater : later.defaultAction with
    | none =>
      rw [hlater] at haction
      exact .inl (.default haction hs)
    | some replacing =>
      rw [hlater] at haction
      exact .inr (.default (hlater.trans haction) hs)

theorem Names.append_right (h : later.Names name s) : (config.append later).Names name s := by
  cases h with
  | active => exact .active
  | predicate hmem he hmentions => exact .predicate (List.mem_append_right _ hmem) he hmentions
  | binding hmem hs => exact .binding (List.mem_append_right _ hmem) hs
  | default haction hs =>
    refine .default (?_ : (later.defaultAction <|> config.defaultAction) = _) hs
    rw [haction]
    rfl

/-- Nothing is lost but a default action that is replaced. -/
theorem Names.append_left (h : config.Names name s)
    (hdefault : config.defaultAction = none ∨ later.defaultAction = none) : (config.append later).Names name s := by
  cases h with
  | active => exact .active
  | predicate hmem he hmentions => exact .predicate (List.mem_append_left _ hmem) he hmentions
  | binding hmem hs => exact .binding (List.mem_append_left _ hmem) hs
  | default haction hs =>
    have hlater : later.defaultAction = none := hdefault.resolve_left (by rw [haction]; exact Option.some_ne_none _)
    refine .default (?_ : (later.defaultAction <|> config.defaultAction) = _) hs
    rw [hlater]
    exact haction

end Config

/-! ## All tables -/

namespace Store

variable {store later : Store} {name : String} {s : Symbol}

theorem mem_collect (configs : List Config) (set : SymbolSet) :
    s ∈ SymbolSet.toList (configs.foldl (fun set config => config.constraint.addSymbols set) set) ↔
      s ∈ set.toList ∨ ∃ config ∈ configs, s ∈ config.constraint.symbols.toList := by
  induction configs generalizing set with
  | nil => simp
  | cons config rest ih => rw [List.foldl_cons, ih, Term.mem_addSymbols, List.exists_mem_cons_iff, or_assoc]

/-- Collecting goes through the constraints of all tables. -/
theorem mem_symbols_iff : s ∈ store.symbols.toList ↔
    ∃ name config, store.table? name = some config ∧ s ∈ config.constraint.symbols.toList := by
  have hempty : s ∉ SymbolSet.toList ∅ := List.not_mem_nil
  rw [symbols, mem_collect, or_iff_right hempty]
  constructor
  · rintro ⟨config, hconfig, hs⟩
    obtain ⟨name, hname⟩ := SortedMap.mem_values.mp hconfig
    exact ⟨name, config, hname, hs⟩
  · rintro ⟨name, config, hconfig, hs⟩
    exact ⟨config, SortedMap.mem_values.mpr ⟨name, hconfig⟩, hs⟩

/-- A store that comes about finds every table under its name. -/
theorem Script.table_eq {script : Script} {config : Config} (h : script.run.table? name = some config) :
    config.table = name := by
  rw [script.run_eq_replay, table?_replay] at h
  split at h
  · exact Option.some.inj h ▸ rfl
  · cases h

theorem Script.mem_symbols (script : Script) : s ∈ script.run.symbols.toList ↔
    ∃ name config, script.run.table? name = some config ∧ config.Names name s := by
  rw [mem_symbols_iff]
  refine exists_congr fun name => exists_congr fun config => and_congr_right fun h => ?_
  rw [Config.mem_symbols_constraint, Script.table_eq h]

/-- A merged store names what the one or the other does. -/
theorem names_of_merge {config : Config} (hconfig : (store.merge later).table? name = some config)
    (h : config.Names name s) :
    (∃ old, store.table? name = some old ∧ old.Names name s) ∨
      ∃ new, later.table? name = some new ∧ new.Names name s := by
  rw [table?_merge] at hconfig
  cases hold : store.table? name with
  | none =>
    cases hnew : later.table? name with
    | none => rw [hold, hnew] at hconfig; cases hconfig
    | some new =>
      rw [hold, hnew] at hconfig
      exact .inr ⟨new, rfl, Option.some.inj hconfig ▸ h⟩
  | some old =>
    cases hnew : later.table? name with
    | none =>
      rw [hold, hnew] at hconfig
      exact .inl ⟨old, rfl, Option.some.inj hconfig ▸ h⟩
    | some new =>
      rw [hold, hnew] at hconfig
      obtain rfl := Option.some.inj hconfig
      exact (Config.names_of_append h).imp (⟨old, rfl, ·⟩) (⟨new, rfl, ·⟩)

/-- The tables for which both stores set a default action are those that lose one. -/
def DefaultsApart (store later : Store) : Prop :=
  ∀ name old new, store.table? name = some old → later.table? name = some new →
    old.defaultAction = none ∨ new.defaultAction = none

theorem names_merge_left {old : Config} (hdefaults : store.DefaultsApart later)
    (hold : store.table? name = some old) (h : old.Names name s) :
    ∃ config, (store.merge later).table? name = some config ∧ config.Names name s := by
  rw [table?_merge, hold]
  cases hnew : later.table? name with
  | none => exact ⟨old, rfl, h⟩
  | some new => exact ⟨old.append new, rfl, h.append_left (hdefaults name old new hold hnew)⟩

theorem names_merge_right {new : Config} (hnew : later.table? name = some new) (h : new.Names name s) :
    ∃ config, (store.merge later).table? name = some config ∧ config.Names name s := by
  rw [table?_merge, hnew]
  cases store.table? name with
  | none => exact ⟨new, rfl, h⟩
  | some old => exact ⟨old.append new, rfl, h.append_right⟩

/-- The symbols of a store are listed in their order, each once, and are those that its tables name.
    Merging brings none in, and loses none where no default action is replaced. -/
theorem symbols_are_named :
    (∀ script : Script, script.run.symbols.toList.Pairwise Symbol.Before ∧ script.run.symbols.toList.Nodup ∧
      ∀ s, s ∈ script.run.symbols.toList ↔
        ∃ name config, script.run.table? name = some config ∧ config.Names name s) ∧
    ∀ a b : Script,
      (∀ s ∈ (a.run.merge b.run).symbols.toList, s ∈ a.run.symbols.toList ∨ s ∈ b.run.symbols.toList) ∧
      (a.run.DefaultsApart b.run → ∀ s, s ∈ (a.run.merge b.run).symbols.toList ↔
        s ∈ a.run.symbols.toList ∨ s ∈ b.run.symbols.toList) := by
  have hmerge : ∀ a b : Script, ∀ s ∈ (a.run.merge b.run).symbols.toList,
      s ∈ a.run.symbols.toList ∨ s ∈ b.run.symbols.toList := by
    intro a b s hs
    obtain ⟨name, config, hconfig, hnames⟩ := (Script.merge a b).mem_symbols.mp hs
    rcases names_of_merge hconfig hnames with ⟨old, hold, hnames⟩ | ⟨new, hnew, hnames⟩
    · exact .inl (a.mem_symbols.mpr ⟨name, old, hold, hnames⟩)
    · exact .inr (b.mem_symbols.mpr ⟨name, new, hnew, hnames⟩)
  refine ⟨fun script => ?_, fun a b => ⟨hmerge a b, fun hdefaults s => ⟨hmerge a b s, fun hs => ?_⟩⟩⟩
  · have hbefore := script.run.symbols.pairwise_before
    exact ⟨hbefore, hbefore.imp Symbol.Before.ne, fun s => script.mem_symbols⟩
  · rcases hs with hs | hs
    · obtain ⟨name, old, hold, hnames⟩ := a.mem_symbols.mp hs
      exact (Script.merge a b).mem_symbols.mpr ⟨name, names_merge_left hdefaults hold hnames⟩
    · obtain ⟨name, new, hnew, hnames⟩ := b.mem_symbols.mp hs
      exact (Script.merge a b).mem_symbols.mpr ⟨name, names_merge_right hnew hnames⟩

def guarded : Script :=
  .edit (.edit .start (.addRule "acl"
      { keySet := .ofList [("src", .field "ip.src" (.bits 8))], action := .profile (.member 7) }))
    (.setDefault "acl" (.direct "drop" 1 []))

def forwarding : Script :=
  .edit (.edit .start (.addRule "acl" { keySet := ∅, action := .direct "forward" 0 [⟨"port", .bits 9, 5⟩] }))
    (.setDefault "nat" (.direct "drop" 0 []))

theorem symbols_are_named_forwarding : guarded.run.DefaultsApart forwarding.run ∧
    ∀ s, s ∈ (guarded.run.merge forwarding.run).symbols.toList ↔
      s ∈ guarded.run.symbols.toList ∨ s ∈ forwarding.run.symbols.toList := by
  have hdefaults : guarded.run.DefaultsApart forwarding.run := by
    have hguarded : ∀ e ∈ guarded.run.tables.toList, e.1 ≠ "nat" := by decide
    have hforwarding : ∀ e ∈ forwarding.run.tables.toList, e.2.defaultAction = none ∨ e.1 = "nat" := by decide
    intro name old new hold hnew
    refine .inr ((hforwarding (name, new) (SortedMap.mem_toList.mpr hnew)).resolve_right ?_)
    exact hguarded (name, old) (SortedMap.mem_toList.mpr hold)
  exact ⟨hdefaults, (symbols_are_named.2 guarded forwarding).2 hdefaults⟩

end Store

/-- What is collected from a term or from a store, and fields, are all that values and errors
    depend on. -/
theorem collected_decides :
    (∀ (e : Term) (env other : Assignment), (∀ s ∈ e.symbols.toList, env.symbol s = other.symbol s) →
      (∀ f ∈ e.fields, env.field f.1 = other.field f.1) →
      e.eval env = e.eval other ∧ e.evalBool env = e.evalBool other) ∧
    ∀ (store : Store) (env other : Assignment), (∀ s ∈ store.symbols.toList, env.symbol s = other.symbol s) →
      (∀ path, env.field path = other.field path) →
      ∀ name config, store.table? name = some config →
        config.constraint.eval env = config.constraint.eval other ∧
          config.constraint.evalBool env = config.constraint.evalBool other := by
  have hterm : ∀ (e : Term) (env other : Assignment), (∀ s ∈ e.symbols.toList, env.symbol s = other.symbol s) →
      (∀ f ∈ e.fields, env.field f.1 = other.field f.1) →
      e.eval env = e.eval other ∧ e.evalBool env = e.evalBool other := by
    intro e env other hsymbols hfields
    have heval := Term.eval_congr hsymbols hfields
    exact ⟨heval, by rw [Term.evalBool, Term.evalBool, heval]⟩
  refine ⟨hterm, fun store env other hsymbols hfields name config hconfig => ?_⟩
  refine hterm _ env other (fun s hs => hsymbols s ?_) fun f _ => hfields f.1
  exact Store.mem_symbols_iff.mpr ⟨name, config, hconfig, hs⟩

def asked : Assignment := Assignment.empty.setSymbol (.active "acl") (.bool true)

def askedForBoth : Assignment := asked.setSymbol (.active "nat") (.bits 1)

theorem collected_decides_asked :
    (∀ s ∈ Store.guarded.run.symbols.toList, asked.symbol s = askedForBoth.symbol s) ∧
    (∃ config, Store.guarded.run.table? "acl" = some config ∧
      config.constraint.eval asked = config.constraint.eval askedForBoth) ∧
    (Term.not (.symbol (.active "acl"))).eval asked = (Term.not (.symbol (.active "acl"))).eval askedForBoth := by
  have hother : ∀ {s : Symbol}, s ≠ .active "nat" → asked.symbol s = askedForBoth.symbol s :=
    fun hs => (if_neg hs).symm
  have hstore : ∀ s ∈ Store.guarded.run.symbols.toList, s ≠ .active "nat" := by decide +kernel
  have hterm : ∀ s ∈ (Term.not (.symbol (.active "acl"))).symbols.toList, s ≠ .active "nat" := by decide
  obtain ⟨config, hconfig⟩ : ∃ config, Store.guarded.run.table? "acl" = some config :=
    Option.isSome_iff_exists.mp (by decide)
  refine ⟨fun s hs => hother (hstore s hs), ⟨config, hconfig, ?_⟩, ?_⟩
  · exact (collected_decides.2 _ asked askedForBoth (fun s hs => hother (hstore s hs)) (fun _ => rfl) _ _ hconfig).1
  · exact (collected_decides.1 _ asked askedForBoth (fun s hs => hother (hterm s hs)) (List.forall_mem_nil _)).1

end MatchAction
