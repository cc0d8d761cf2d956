/-
  MatchAction.Proofs.Embedded.Extension — what v1model makes of a program that core accepts.

  v1model has embedded values for keys of two more kinds and a default action for tables that
  list `NoAction` and declare none. Where core has a predicate for an embedded key, v1model has
  the same one; the keys on which the two differ are those that core refuses, and one of them
  disables its table. The default that v1model adds is always bound and is set apart from the
  entries, so it shows in nothing else.

  Proved:
  - `embeddedPredicate?_of_core`, `addKeys_of_core`, `rule_of_core`, `embeddedRules_of_core`: what
    core converts, key by key and entry by entry, v1model converts to the same.
  - `seededDefault?_of_added`, `seededDefault?_of_not_added`: the default is the one that v1model
    adds where it adds one, and that of core everywhere else.
  - `seedTable_v1model`: so a table that core does not disable differs by the added default alone.
  - `v1model_extends_core`: and for a whole program, the outcomes differ there and on tables that
    core disables.
-/

import MatchAction.Proofs.Embedded.Equivalence
import MatchAction.Proofs.Embedded.Seed

namespace MatchAction

def Store.enables (store : Store) (d : Diagnostic) : Bool := d.table.all fun name => !(store.config name).disabled

/-- The default action that v1model adds to a table. -/
def Table.addedDefault? (table : Table) : Option Binding :=
  match table.defaultAction with
  | some _ => none
  | none => (table.ordinal? "NoAction").map fun ordinal => .direct "NoAction" ordinal []

/-! ## Entries -/

theorem EmbeddedKey.noPredicate?_eq_ok_iff {key : Key} {embedded : EmbeddedKey} {predicate? : Option Term} :
    embedded.noPredicate? key = .ok predicate? ↔ embedded = .dontCare ∧ none = predicate? := by
  cases embedded <;> simp [noPredicate?, pure, Except.pure]

namespace Target

variable {program : Program} {table : Table}

/-- On keys of the kinds that v1model adds core has nothing but the key that is not matched. -/
theorem embeddedPredicate?_of_core {key : Key} {embedded : EmbeddedKey} {predicate? : Option Term}
    (h : core.embeddedPredicate? key embedded = .ok predicate?) :
    v1model.embeddedPredicate? key embedded = .ok predicate? := by
  have hcore : embedded.corePredicate? key = .ok predicate? := h
  by_cases hadded : key.matchKind = "range" ∨ key.matchKind = "optional"
  · have hnone : embedded.corePredicate? key = embedded.noPredicate? key := by
      unfold EmbeddedKey.corePredicate?
      rcases hadded with hkind | hkind
      · rw [hkind]
        rfl
      · rw [hkind]
        rfl
    rw [hnone, EmbeddedKey.noPredicate?_eq_ok_iff] at hcore
    obtain ⟨rfl, rfl⟩ := hcore
    exact embeddedPredicate?_dontCare key
  · rw [not_or] at hadded
    rw [← hcore]
    unfold embeddedPredicate?
    split
    · exact absurd ‹_› hadded.1
    · exact absurd ‹_› hadded.2
    · rfl

theorem addKeys_of_core {keys : List Key} {embedded : List EmbeddedKey} {keySet result : KeySet}
    (h : EmbeddedEntry.addKeys core keySet keys embedded = .ok result) :
    EmbeddedEntry.addKeys v1model keySet keys embedded = .ok result := by
  induction keys generalizing keySet embedded with
  | nil => exact h
  | cons key keys ih =>
    cases embedded with
    | nil => exact h
    | cons value rest =>
      rw [EmbeddedEntry.addKeys, bind_eq_ok] at h ⊢
      obtain ⟨predicate?, hpredicate, hrest⟩ := h
      refine ⟨predicate?, embeddedPredicate?_of_core hpredicate, ?_⟩
      cases predicate? with
      | none => exact ih hrest
      | some predicate => exact ih hrest

theorem rule_of_core {entry : EmbeddedEntry} {rule : Rule} (h : entry.rule core table program = .ok rule) :
    entry.rule v1model table program = .ok rule := by
  unfold EmbeddedEntry.rule at h ⊢
  split at h
  · cases h
  · rename_i hcount
    rw [if_neg hcount]
    rw [bind_eq_ok] at h ⊢
    obtain ⟨keySet, hkeys, haction⟩ := h
    exact ⟨keySet, addKeys_of_core hkeys, haction⟩

theorem embeddedRules_of_core {rules : List Rule} (h : core.embeddedRules program table = .ok rules) :
    v1model.embeddedRules program table = .ok rules :=
  mapM_eq_ok.mpr ((mapM_eq_ok.mp h).imp fun _ _ => rule_of_core)

/-! ## Defaults -/

theorem addedDefault?_of_declared {call : Call} (h : table.defaultAction = some call) :
    table.addedDefault? = none := by
  rw [Table.addedDefault?, h]

theorem seededDefault?_of_added {action : Binding} (h : table.addedDefault? = some action) :
    core.seededDefault? program table = none ∧ v1model.seededDefault? program table = some action := by
  unfold Table.addedDefault? at h
  unfold seededDefault? defaultBinding?
  cases hdeclared : table.defaultAction with
  | some call =>
    rw [hdeclared] at h
    cases h
  | none =>
    rw [hdeclared] at h
    obtain ⟨ordinal, hordinal, rfl⟩ := Option.map_eq_some_iff.mp h
    rw [hordinal]
    exact ⟨rfl, rfl⟩

theorem seededDefault?_of_not_added (h : table.addedDefault? = none) :
    v1model.seededDefault? program table = core.seededDefault? program table := by
  unfold Table.addedDefault? at h
  unfold seededDefault? defaultBinding?
  cases hdeclared : table.defaultAction with
  | some call => rfl
  | none =>
    rw [hdeclared] at h
    rw [Option.map_eq_none_iff.mp h]
    rfl

theorem defaultReports_v1model : v1model.defaultReports program table = core.defaultReports program table := by
  unfold defaultReports defaultBinding?
  cases table.defaultAction with
  | some call => rfl
  | none => cases table.ordinal? "NoAction" <;> rfl

/-! ## Tables -/

theorem exists_rules_of_enabled {target : Target}
    (h : ((target.seedTable program {} table).store.config table.name).disabled = false) :
    ∃ rules, target.embeddedRules program table = .ok rules := by
  obtain ⟨_, hentries, -⟩ := config_seedTable target program table
  cases hentries with
  | used hrules _ => exact ⟨_, mapM_eq_ok.mpr hrules⟩
  | refused _ _ _ _ hdisabled =>
    rw [hdisabled] at h
    cases h

theorem seedTable_of_ok {target : Target} {rules : List Rule} (h : target.embeddedRules program table = .ok rules) :
    target.seedTable program {} table =
      ⟨Store.addRules ((target.seededDefault? program table).elim ∅ (Store.setDefault ∅ table.name)) table.name rules,
        target.defaultReports program table⟩ := by
  rw [seedTable, seedDefault_eq, seedEntries_of_ok h]
  rfl

/-- The default that v1model adds may as well be set last. -/
theorem seedTable_v1model {rules : List Rule} (h : core.embeddedRules program table = .ok rules) :
    v1model.seedTable program {} table =
      ⟨table.addedDefault?.elim (core.seedTable program {} table).store
          ((core.seedTable program {} table).store.setDefault table.name),
        (core.seedTable program {} table).diagnostics⟩ := by
  rw [seedTable_of_ok h, seedTable_of_ok (embeddedRules_of_core h), defaultReports_v1model]
  cases hadded : table.addedDefault? with
  | none =>
    rw [seededDefault?_of_not_added hadded]
    rfl
  | some action =>
    obtain ⟨hcore, hv1model⟩ := seededDefault?_of_added hadded
    rw [hcore, hv1model]
    exact congrArg (Outcome.mk · _) (Store.addRules_setDefault ..)

/-- Of a table that is not disabled, `later` says what `outcome` does, but for the default action that
    v1model adds. -/
structure Extends (table : Table) (outcome later : Outcome) : Prop where
  enabled : (later.store.config table.name).disabled = false
  rules : (later.store.config table.name).rules = (outcome.store.config table.name).rules
  same : table.addedDefault? = none → later.store.table? table.name = outcome.store.table? table.name
  added : ∀ action, table.addedDefault? = some action →
    (outcome.store.config table.name).defaultAction = none ∧
      later.store.table? table.name = some { outcome.store.config table.name with defaultAction := some action }
  reports : later.reportsOf table.name = outcome.reportsOf table.name

theorem Extends.congr {outcome later other otherLater : Outcome} (h : Extends table outcome later)
    (hother : other.AgreeOn outcome table.name) (hlater : otherLater.AgreeOn later table.name) :
    Extends table other otherLater where
  enabled := hlater.config_eq ▸ h.enabled
  rules := by rw [hlater.config_eq, hother.config_eq, h.rules]
  same hnone := by rw [hlater.1, hother.1, h.same hnone]
  added action hadded := by
    rw [hlater.1, hother.config_eq]
    exact h.added action hadded
  reports := by rw [hlater.2, hother.2, h.reports]

theorem extends_seedTable (h : ((core.seedTable program {} table).store.config table.name).disabled = false) :
    Extends table (core.seedTable program {} table) (v1model.seedTable program {} table) := by
  obtain ⟨rules, hrules⟩ := exists_rules_of_enabled h
  have hdefault : ((core.seedTable program {} table).store.config table.name).defaultAction =
      core.seededDefault? program table := by
    obtain ⟨_, -, hdefault, -⟩ := config_seedTable core program table
    exact hdefault
  rw [seedTable_v1model hrules]
  cases hadded : table.addedDefault? with
  | none => exact ⟨h, rfl, fun _ => rfl, fun _ hsome => (nomatch hadded.symm.trans hsome), rfl⟩
  | some action =>
    have hputs := Store.puts_setDefault (core.seedTable program {} table).store table.name action
    have hconfig := Store.config_setDefault (core.seedTable program {} table).store table.name action
    refine ⟨?_, ?_, fun hnone => (nomatch hadded.symm.trans hnone), fun action' hsome => ⟨?_, ?_⟩, rfl⟩
    · exact (congrArg Config.disabled hconfig).trans h
    · exact (congrArg Config.rules hconfig).trans rfl
    · exact hdefault.trans (seededDefault?_of_added hadded).1
    · obtain rfl := Option.some.inj (hadded.symm.trans hsome)
      exact hputs.1

/-! ## The whole program -/

theorem diagnostics_seed (target : Target) (program : Program) : (target.seed program).diagnostics =
    program.tables.flatMap fun table => (target.seedTable program {} table).diagnostics :=
  (appends_seedTable target program).diagnostics_foldl program.tables

theorem reportsOf_seed (target : Target) (hnames : (program.tables.map (·.name)).Nodup)
    (htable : table ∈ program.tables) :
    (target.seed program).reportsOf table.name = (target.seedTable program {} table).diagnostics := by
  rw [(seed_agrees target hnames htable).2, (within_seedTable target program table).reportsOf_eq]

/-- In the order of the program, but for the tables that core disables. -/
theorem filter_diagnostics_seed (hnames : (program.tables.map (·.name)).Nodup) :
    (v1model.seed program).diagnostics.filter (core.seed program).store.enables =
      (core.seed program).diagnostics.filter (core.seed program).store.enables := by
  rw [diagnostics_seed, diagnostics_seed core, List.filter_flatMap, List.filter_flatMap]
  refine List.flatMap_congr fun table htable => ?_
  by_cases henabled : ((core.seed program).store.config table.name).disabled = false
  · rw [(seed_agrees core hnames htable).config_eq] at henabled
    obtain ⟨rules, hrules⟩ := exists_rules_of_enabled henabled
    rw [seedTable_v1model hrules]
  · -- all reports of a table are on the table
    have hnone : ∀ target : Target,
        (target.seedTable program {} table).diagnostics.filter (core.seed program).store.enables = [] := by
      refine fun target => List.filter_eq_nil_iff.mpr fun d hd henables => henabled ?_
      obtain ⟨name, hname, htable'⟩ := (within_seedTable target program table).reports d hd
      rw [Store.enables, htable', List.mem_singleton.mp hname] at henables
      simpa using henables
    rw [hnone, hnone]

/-- A table that core does not disable is not disabled by v1model, and has the same rules and
    reports; its default action is the one that v1model adds, or is the same. A declared default is
    bound or reported alike for every table. Nothing is held or reported of other tables, and
    the reports come in one order. -/
theorem v1model_extends_core {program : Program} (hnames : (program.tables.map (·.name)).Nodup) :
    (∀ table ∈ program.tables, ((core.seed program).store.config table.name).disabled = false →
      Extends table (core.seed program) (v1model.seed program)) ∧
    (∀ table ∈ program.tables,
      (∀ call, table.defaultAction = some call →
        ((v1model.seed program).store.config table.name).defaultAction =
          ((core.seed program).store.config table.name).defaultAction) ∧
      ((v1model.seed program).reportsOf table.name).filter (·.kind != .embeddedEntryMismatch) =
        ((core.seed program).reportsOf table.name).filter (·.kind != .embeddedEntryMismatch)) ∧
    (core.seed program).Within (program.tables.map (·.name)) ∧
    (v1model.seed program).Within (program.tables.map (·.name)) ∧
    (v1model.seed program).diagnostics.filter (core.seed program).store.enables =
      (core.seed program).diagnostics.filter (core.seed program).store.enables := by
  refine ⟨fun table htable henabled => ?_, fun table htable => ⟨fun call hcall => ?_, ?_⟩, ?_, ?_, ?_⟩
  · have hcore := seed_agrees core hnames htable
    rw [hcore.config_eq] at henabled
    exact (extends_seedTable henabled).congr hcore (seed_agrees v1model hnames htable)
  · obtain ⟨_, -, hcore, -⟩ := config_seedTable core program table
    obtain ⟨_, -, hv1model, -⟩ := config_seedTable v1model program table
    rw [(seed_agrees core hnames htable).config_eq, (seed_agrees v1model hnames htable).config_eq, hcore, hv1model,
      seededDefault?_of_not_added (addedDefault?_of_declared hcall)]
  · obtain ⟨-, -, hcore⟩ := seedTable_spec core program table
    obtain ⟨-, -, hv1model⟩ := seedTable_spec v1model program table
    rw [reportsOf_seed core hnames htable, reportsOf_seed v1model hnames htable, hcore, hv1model,
      defaultReports_v1model]
  · exact within_foldl core program program.tables
  · exact within_foldl v1model program program.tables
  · exact filter_diagnostics_seed hnames

/-- A range is embedded only for v1model. -/
def portsTable : Table where
  name := "ports"
  keys := [⟨.field "tcp.port" (.bits 16), "range", some "port"⟩]
  actions := ["permit", "drop"]
  defaultAction := some ⟨"drop", []⟩
  entries := some [⟨[.range 80 90], ⟨"permit", [1]⟩⟩]

def hopTable : Table where
  name := "hop"
  keys := [⟨.field "ip.dst" (.bits 8), "lpm", some "dst"⟩]
  actions := ["drop", "NoAction"]
  entries := some [⟨[.mask 0xa0 0xf0], ⟨"drop", []⟩⟩]

def edge : Program where
  tables := [portsTable, hopTable, filterTable]
  actions := gateway.actions

theorem v1model_extends_core_edge :
    (edge.tables.map (·.name)).Nodup ∧
    ((core.seed edge).store.config "ports").disabled = true ∧
    ((v1model.seed edge).store.config "ports").defaultAction = some (.direct "drop" 1 []) ∧
    ((core.seed edge).store.config "hop").rules.length = 1 ∧
    (v1model.seed edge).store.table? "hop" =
      some { (core.seed edge).store.config "hop" with defaultAction := some (.direct "NoAction" 1 []) } ∧
    (v1model.seed edge).store.table? "filter" = (core.seed edge).store.table? "filter" := by
  have hnames : (edge.tables.map (·.name)).Nodup := by decide
  obtain ⟨hextends, hdefaults, -⟩ := v1model_extends_core hnames
  have hhop := hextends hopTable (by decide) rfl
  have hfilter := hextends filterTable (by decide) rfl
  refine ⟨hnames, rfl, ?_, rfl, (hhop.added _ rfl).2, hfilter.same rfl⟩
  exact ((hdefaults portsTable (by decide)).1 _ rfl).trans rfl

end Target

end MatchAction
