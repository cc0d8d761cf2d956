/-
  MatchAction.Proofs.Embedded.Seed — what the tables of a program give by themselves.

  The tables are converted one after the other into one store and one list of reports. What
  a table gives is of that table alone: the embedded entries of the table are used together
  or not at all, its default action is set or reported apart from them, and nothing of the
  other tables is looked at. Where the names of the tables are different, what the outcome
  holds for a table is therefore what the table gives from nothing.

  Proved:
  - `appends_seedTable`, `within_seedTable`: converting a table adds to the outcome, and
    nothing for other tables.
  - `seed_agrees`: the outcome says of each table what the table gives from nothing.
  - `accounted_seedTable`, `accounted_seed`: each step, and so the whole conversion, reports
    as many mismatches as it disables tables.
  - `seed_all_or_nothing`: all of this for every table of a program.
-/

import Mathlib.Data.List.Nodup
import MatchAction.Embedded.Seed
import MatchAction.Proofs.Attempt
import MatchAction.Proofs.Outcome

namespace MatchAction

/-! ## Faults of calls -/

theorem Call.arguments_fault {params : List Param} {args : List Nat} {fault : Fault}
    (h : Call.arguments params args = .error fault) : DiagnosticKind.of fault ≠ .embeddedEntryMismatch := by
  induction params generalizing args with
  | nil => cases h
  | cons param params ih =>
    cases args with
    | nil => cases h
    | cons arg args =>
      rw [Call.arguments, bind_eq_error] at h
      rcases h with h | ⟨_, -, h⟩
      · rw [checkFits] at h
        split at h
        · cases h
        · cases h
          nofun
      · rcases bind_eq_error.mp h with h | ⟨_, -, h⟩
        · exact ih h
        · cases h

/-- A call is never refused as an embedded entry that does not fit the keys. -/
theorem Call.bind_fault {table : Table} {program : Program} {call : Call} {fault : Fault}
    (h : call.bind table program = .error fault) : DiagnosticKind.of fault ≠ .embeddedEntryMismatch := by
  unfold Call.bind at h
  split at h
  · cases h
    nofun
  · split at h
    · cases h
      nofun
    · split at h
      · cases h
        nofun
      · rcases bind_eq_error.mp h with h | ⟨_, -, h⟩
        · exact Call.arguments_fault h
        · cases h

theorem Target.defaultBinding?_fault {target : Target} {table : Table} {program : Program} {fault : Fault}
    (h : target.defaultBinding? table program = some (.error fault)) :
    DiagnosticKind.of fault ≠ .embeddedEntryMismatch := by
  unfold defaultBinding? at h
  split at h
  · exact Call.bind_fault (Option.some.inj h)
  · cases h
  · obtain ⟨ordinal, -, hordinal⟩ := Option.map_eq_some_iff.mp h
    cases hordinal

namespace Target

variable {target : Target} {program : Program} {table : Table}

/-! ## What a table gives -/

def embeddedRules (target : Target) (program : Program) (table : Table) : Except Fault (List Rule) :=
  (table.entries.getD []).mapM (EmbeddedEntry.rule target table program)

def seededDefault? (target : Target) (program : Program) (table : Table) : Option Binding :=
  (target.defaultBinding? table program).bind (·.toOption)

def defaultReports (target : Target) (program : Program) (table : Table) : List Diagnostic :=
  match target.defaultBinding? table program with
  | some (.error fault) => [.ofFault (some table.name) fault]
  | _ => []

/-- How the embedded entries of a table end up in its configuration, and the mismatches that are
    reported of it: every entry has its rule, in order, or the table is disabled for its first
    entry without one. -/
inductive EntriesSeeded (target : Target) (program : Program) (table : Table) (config : Config) :
    List Diagnostic → Prop
  | used : List.Forall₂ (fun entry rule => EmbeddedEntry.rule target table program entry = .ok rule)
      (table.entries.getD []) config.rules → config.disabled = false → EntriesSeeded target program table config []
  | refused {before after : List EmbeddedEntry} {entry : EmbeddedEntry} {fault : Fault} :
      table.entries.getD [] = before ++ entry :: after →
      (∀ earlier ∈ before, ∃ rule, earlier.rule target table program = .ok rule) →
      entry.rule target table program = .error fault → config.rules = [] → config.disabled = true →
      EntriesSeeded target program table config [.embeddedEntriesDisabled table.name fault]

theorem seedEntries_of_ok {rules : List Rule} (h : target.embeddedRules program table = .ok rules) (outcome : Outcome) :
    target.seedEntries program table outcome =
      { outcome with store := outcome.store.addRules table.name rules } := by
  unfold embeddedRules at h
  unfold seedEntries
  cases hentries : table.entries with
  | none =>
    rw [hentries] at h
    obtain rfl := pure_eq_ok.mp h
    rfl
  | some entries =>
    rw [hentries] at h
    simp only [show entries.mapM _ = _ from h]
    rfl

theorem seedEntries_of_error {fault : Fault} (h : target.embeddedRules program table = .error fault)
    (outcome : Outcome) :
    target.seedEntries program table outcome =
      { outcome with store := outcome.store.disable table.name }.report
        (.embeddedEntriesDisabled table.name fault) := by
  unfold embeddedRules at h
  unfold seedEntries
  cases hentries : table.entries with
  | none =>
    rw [hentries] at h
    cases h
  | some entries =>
    rw [hentries] at h
    simp only [show entries.mapM _ = _ from h]

theorem seedDefault_eq (target : Target) (program : Program) (table : Table) (outcome : Outcome) :
    target.seedDefault program table outcome =
      ⟨(target.seededDefault? program table).elim outcome.store (outcome.store.setDefault table.name),
        outcome.diagnostics ++ target.defaultReports program table⟩ := by
  unfold seedDefault seededDefault? defaultReports
  cases target.defaultBinding? table program with
  | none => simp
  | some result =>
    cases result with
    | ok action => simp [Except.toOption]
    | error fault => rfl

theorem config_seedDefault (target : Target) (program : Program) (table : Table) (outcome : Outcome) :
    (target.seedDefault program table outcome).store.config table.name =
      (target.seededDefault? program table).elim (outcome.store.config table.name)
        (outcome.store.config table.name).setDefault := by
  rw [seedDefault_eq]
  cases target.seededDefault? program table with
  | none => rfl
  | some action => exact Store.config_setDefault ..

theorem kind_of_mem_defaultReports {d : Diagnostic} (h : d ∈ target.defaultReports program table) :
    d.kind ≠ .embeddedEntryMismatch := by
  unfold defaultReports at h
  split at h
  · rename_i fault hfault
    obtain rfl := List.mem_singleton.mp h
    exact defaultBinding?_fault hfault
  · cases h

theorem table_of_mem_defaultReports {d : Diagnostic} (h : d ∈ target.defaultReports program table) :
    d.table = some table.name := by
  unfold defaultReports at h
  split at h
  · exact congrArg Diagnostic.table (List.mem_singleton.mp h)
  · cases h

theorem EntriesSeeded.of_mem {config : Config} {mismatches : List Diagnostic}
    (h : EntriesSeeded target program table config mismatches) :
    ∀ d ∈ mismatches, d.kind = .embeddedEntryMismatch ∧ d.table = some table.name := by
  cases h with
  | used _ _ => exact List.forall_mem_nil _
  | refused _ _ _ _ _ => exact List.forall_mem_singleton.mpr ⟨rfl, rfl⟩

/-- From nothing: the default action, all rules or none, and what is reported. -/
theorem config_seedTable (target : Target) (program : Program) (table : Table) :
    ∃ mismatches,
      EntriesSeeded target program table ((target.seedTable program {} table).store.config table.name) mismatches ∧
      ((target.seedTable program {} table).store.config table.name).defaultAction =
        target.seededDefault? program table ∧
      (target.seedTable program {} table).diagnostics = target.defaultReports program table ++ mismatches := by
  have hconfig : (target.seedDefault program table {}).store.config table.name =
      { table := table.name, defaultAction := target.seededDefault? program table } := by
    rw [config_seedDefault]
    cases target.seededDefault? program table <;> rfl
  have hdiagnostics : (target.seedDefault program table {}).diagnostics = target.defaultReports program table :=
    congrArg Outcome.diagnostics (seedDefault_eq target program table {})
  unfold seedTable
  cases h : target.embeddedRules program table with
  | ok rules =>
    rw [seedEntries_of_ok h]
    refine ⟨[], ?_, ?_, ?_⟩
    · rw [Store.config_addRules, hconfig]
      exact .used (mapM_eq_ok.mp h) rfl
    · rw [Store.config_addRules, hconfig]
    · rw [List.append_nil]
      exact hdiagnostics
  | error fault =>
    rw [seedEntries_of_error h]
    obtain ⟨before, entry, after, hentries, hbefore, hentry⟩ := mapM_eq_error.mp h
    refine ⟨[.embeddedEntriesDisabled table.name fault], ?_, ?_, ?_⟩
    · rw [Outcome.report, Store.config_disable, hconfig]
      exact .refused hentries hbefore hentry rfl rfl
    · rw [Outcome.report, Store.config_disable, hconfig]
      rfl
    · rw [← hdiagnostics]
      rfl

/-- The mismatch is told from the report on the default action by its kind. -/
theorem seedTable_spec (target : Target) (program : Program) (table : Table) :
    EntriesSeeded target program table ((target.seedTable program {} table).store.config table.name)
      ((target.seedTable program {} table).diagnostics.filter (·.kind == .embeddedEntryMismatch)) ∧
    (∀ action, ((target.seedTable program {} table).store.config table.name).defaultAction = some action ↔
      target.defaultBinding? table program = some (.ok action)) ∧
    (target.seedTable program {} table).diagnostics.filter (·.kind != .embeddedEntryMismatch) =
      target.defaultReports program table := by
  obtain ⟨mismatches, hentries, hdefault, hdiagnostics⟩ := config_seedTable target program table
  have hother : ∀ d ∈ target.defaultReports program table, d.kind ≠ .embeddedEntryMismatch :=
    fun _ hd => kind_of_mem_defaultReports hd
  rw [hdefault, hdiagnostics, List.filter_append, List.filter_append]
  refine ⟨?_, fun action => ?_, ?_⟩
  · rw [List.filter_eq_nil_iff.mpr fun d hd => by simpa using hother d hd, List.nil_append,
      List.filter_eq_self.mpr fun d hd => by simpa using (hentries.of_mem d hd).1]
    exact hentries
  · simp only [seededDefault?, Option.bind_eq_some_iff, toOption_eq_some, exists_eq_right]
  · rw [List.filter_eq_self.mpr fun d hd => by simpa using hother d hd,
      List.filter_eq_nil_iff.mpr fun d hd => by simpa using (hentries.of_mem d hd).1, List.append_nil]

/-! ## Each table by itself -/

theorem appends_seedDefault (outcome later : Outcome) (table : Table) :
    target.seedDefault program table (outcome.merge later) =
      outcome.merge (target.seedDefault program table later) := by
  rw [seedDefault_eq, seedDefault_eq]
  cases target.seededDefault? program table with
  | none => simp [Outcome.merge]
  | some action => simp [Outcome.merge, Store.merge_setDefault]

theorem appends_seedEntries (outcome later : Outcome) (table : Table) :
    target.seedEntries program table (outcome.merge later) =
      outcome.merge (target.seedEntries program table later) := by
  cases h : target.embeddedRules program table with
  | ok rules => simp only [seedEntries_of_ok h, Outcome.merge, Store.merge_addRules]
  | error fault =>
    simp only [seedEntries_of_error h, Outcome.merge, Outcome.report, Store.merge_disable, List.append_assoc]

theorem appends_seedTable (target : Target) (program : Program) : Outcome.Appends (target.seedTable program) := by
  intro outcome later table
  rw [seedTable, appends_seedDefault, appends_seedEntries]
  rfl

theorem table?_seedTable_of_ne {name : String} (h : name ≠ table.name) (outcome : Outcome) :
    (target.seedTable program outcome table).store.table? name = outcome.store.table? name := by
  have hdefault : (target.seedDefault program table outcome).store.table? name = outcome.store.table? name := by
    rw [seedDefault_eq]
    cases target.seededDefault? program table with
    | none => rfl
    | some action => exact (outcome.store.puts_setDefault table.name action).2 name h
  rw [← hdefault, seedTable]
  cases hrules : target.embeddedRules program table with
  | ok rules =>
    rw [seedEntries_of_ok hrules]
    exact Store.table?_addRules_of_ne rules h
  | error fault =>
    rw [seedEntries_of_error hrules]
    exact Store.table?_update_of_ne h

theorem within_seedTable (target : Target) (program : Program) (table : Table) :
    (target.seedTable program {} table).Within [table.name] := by
  constructor
  · intro name hname
    exact table?_seedTable_of_ne (List.ne_of_not_mem_cons hname) {}
  · intro d hd
    refine ⟨table.name, List.mem_singleton_self _, ?_⟩
    obtain ⟨mismatches, hentries, -, hdiagnostics⟩ := config_seedTable target program table
    rw [hdiagnostics] at hd
    rcases List.mem_append.mp hd with hd | hd
    · exact table_of_mem_defaultReports hd
    · exact (hentries.of_mem d hd).2

theorem within_foldl (target : Target) (program : Program) (tables : List Table) :
    (tables.foldl (target.seedTable program) {}).Within (tables.map (·.name)) := by
  induction tables with
  | nil => exact .empty
  | cons table rest ih =>
    rw [List.foldl_cons, (appends_seedTable target program).foldl_eq_merge]
    exact (within_seedTable target program table).merge ih

theorem exists_entry_of_mem_seedTable {name : String} {rule : Rule}
    (h : rule ∈ ((target.seedTable program {} table).store.config name).rules) :
    table.name = name ∧ ∃ entry ∈ table.entries.getD [], EmbeddedEntry.rule target table program entry = .ok rule := by
  by_cases hname : name = table.name
  · subst hname
    obtain ⟨_, hentries, -⟩ := config_seedTable target program table
    cases hentries with
    | used hrules _ => exact ⟨rfl, (mem_of_mapM (mapM_eq_ok.mpr hrules)).mp h⟩
    | refused _ _ _ hnil _ =>
      rw [hnil] at h
      cases h
  · have hnone := (within_seedTable target program table).store name fun heq => hname (List.mem_singleton.mp heq)
    rw [Store.config, hnone] at h
    cases h

/-- Every rule is that of an embedded entry, also where several tables have one name. -/
theorem exists_entry_of_mem_foldl {name : String} {rule : Rule} {tables : List Table}
    (h : rule ∈ ((tables.foldl (target.seedTable program) {}).store.config name).rules) :
    ∃ table ∈ tables, table.name = name ∧ ∃ entry ∈ table.entries.getD [],
      EmbeddedEntry.rule target table program entry = .ok rule := by
  induction tables with
  | nil => cases h
  | cons table rest ih =>
    rw [List.foldl_cons, (appends_seedTable target program).foldl_eq_merge, Outcome.merge,
      Store.rules_config_merge] at h
    rcases List.mem_append.mp h with h | h
    · exact ⟨table, List.mem_cons_self .., exists_entry_of_mem_seedTable h⟩
    · obtain ⟨other, hother, hentry⟩ := ih h
      exact ⟨other, List.mem_cons_of_mem _ hother, hentry⟩

/-- The outcome says of a table what the table gives from nothing. -/
theorem seed_agrees (target : Target) (hnames : (program.tables.map (·.name)).Nodup) (htable : table ∈ program.tables) :
    (target.seed program).AgreeOn (target.seedTable program {} table) table.name := by
  -- neither the tables before it nor those after it have its name
  obtain ⟨before, after, htables⟩ := List.append_of_mem htable
  rw [htables, List.map_append, List.map_cons, List.nodup_middle, List.nodup_cons, List.mem_append, not_or] at hnames
  have happends := appends_seedTable target program
  have hseed : target.seed program = (before.foldl (target.seedTable program) {}).merge
      ((target.seedTable program {} table).merge (after.foldl (target.seedTable program) {})) := by
    rw [seed, htables, happends.foldl_append, List.foldl_cons, happends.foldl_eq_merge after]
  rw [hseed]
  have hbefore := (within_foldl target program before).merge_right hnames.1.1
    ((target.seedTable program {} table).merge (after.foldl (target.seedTable program) {}))
  have hafter := (within_foldl target program after).merge_left hnames.1.2 (target.seedTable program {} table)
  exact hbefore.trans hafter

/-- Of the program a table asks for the actions alone. -/
theorem seedTable_congr {other : Program} (h : other.actions = program.actions) :
    target.seedTable other = target.seedTable program := by
  cases program
  cases other
  obtain rfl := h
  rfl

/-! ## Mismatches and disabled tables -/

/-- As many mismatches are reported as tables are disabled. -/
def Accounted (outcome : Outcome) : Prop :=
  countKind outcome.diagnostics .embeddedEntryMismatch = outcome.store.disabledTables.length

theorem accounted_seedDefault {outcome : Outcome} (h : Accounted outcome) :
    Accounted (target.seedDefault program table outcome) := by
  have hnone : countKind (target.defaultReports program table) .embeddedEntryMismatch = 0 :=
    List.countP_eq_zero.mpr fun d hd => by simpa using kind_of_mem_defaultReports hd
  have hstore : (target.seedDefault program table outcome).store.disabledTables.length =
      outcome.store.disabledTables.length := by
    rw [seedDefault_eq]
    cases target.seededDefault? program table with
    | none => rfl
    | some action => exact Store.length_disabledTables_setDefault ..
  rw [Accounted, hstore, seedDefault_eq, countKind, List.countP_append]
  exact (congrArg (_ + ·) hnone).trans h

theorem accounted_seedEntries {outcome : Outcome} (h : Accounted outcome)
    (hnew : (outcome.store.config table.name).disabled = false) :
    Accounted (target.seedEntries program table outcome) := by
  cases hrules : target.embeddedRules program table with
  | ok rules =>
    rw [seedEntries_of_ok hrules]
    exact h.trans (Store.length_disabledTables_addRules ..).symm
  | error fault =>
    rw [seedEntries_of_error hrules]
    have hcount :
        countKind (outcome.diagnostics ++ [.embeddedEntriesDisabled table.name fault]) .embeddedEntryMismatch =
          countKind outcome.diagnostics .embeddedEntryMismatch + 1 := List.countP_append ..
    exact hcount.trans ((congrArg (· + 1) h).trans (Store.length_disabledTables_disable hnew).symm)

theorem disabled_seedDefault (outcome : Outcome) :
    ((target.seedDefault program table outcome).store.config table.name).disabled =
      (outcome.store.config table.name).disabled := by
  rw [config_seedDefault]
  cases target.seededDefault? program table <;> rfl

/-- One table, if it has not been disabled before. -/
theorem accounted_seedTable {outcome : Outcome} (h : Accounted outcome)
    (hnew : (outcome.store.config table.name).disabled = false) :
    Accounted (target.seedTable program outcome table) :=
  accounted_seedEntries (accounted_seedDefault h) ((disabled_seedDefault outcome).trans hnew)

/-- Tables with different names, none of which has been disabled before. -/
theorem accounted_foldl {tables : List Table} (hnames : (tables.map (·.name)).Nodup) {outcome : Outcome}
    (h : Accounted outcome) (hnew : ∀ table ∈ tables, (outcome.store.config table.name).disabled = false) :
    Accounted (tables.foldl (target.seedTable program) outcome) := by
  induction tables generalizing outcome with
  | nil => exact h
  | cons table rest ih =>
    obtain ⟨hfirst, hrest⟩ := List.nodup_cons.mp hnames
    obtain ⟨htable, hnew⟩ := List.forall_mem_cons.mp hnew
    -- a table that is still to come has another name, so this one did not disable it
    refine ih hrest (accounted_seedTable h htable) fun other hother => ?_
    have hne : other.name ≠ table.name := by
      intro heq
      have hmem : other.name ∈ rest.map (·.name) := List.mem_map_of_mem hother
      rw [heq] at hmem
      exact hfirst hmem
    rw [Store.config, table?_seedTable_of_ne hne]
    exact hnew other hother

/-! ## The whole program -/

theorem accounted_seed (target : Target) (hnames : (program.tables.map (·.name)).Nodup) :
    Accounted (target.seed program) := accounted_foldl hnames rfl fun _ _ => rfl

/-- For every table, all embedded entries have their rules in order or the table is disabled with
    one mismatch; its default action is the binding there is, and where there is a fault instead,
    that is reported and is no mismatch; and any other program with this table and the same actions
    says the same of it. Nothing else is held or reported, and there are as many mismatches as
    disabled tables. -/
theorem seed_all_or_nothing (target : Target) {program : Program} (hnames : (program.tables.map (·.name)).Nodup) :
    (∀ table ∈ program.tables,
      EntriesSeeded target program table ((target.seed program).store.config table.name)
        (((target.seed program).reportsOf table.name).filter (·.kind == .embeddedEntryMismatch)) ∧
      (∀ action, ((target.seed program).store.config table.name).defaultAction = some action ↔
        target.defaultBinding? table program = some (.ok action)) ∧
      ((target.seed program).reportsOf table.name).filter (·.kind != .embeddedEntryMismatch) =
        target.defaultReports program table ∧
      ∀ other : Program, (other.tables.map (·.name)).Nodup → other.actions = program.actions → table ∈ other.tables →
        (target.seed other).AgreeOn (target.seed program) table.name) ∧
    (target.seed program).Within (program.tables.map (·.name)) ∧
    countKind (target.seed program).diagnostics .embeddedEntryMismatch =
      (target.seed program).store.disabledTables.length := by
  refine ⟨fun table htable => ?_, within_foldl target program program.tables, accounted_seed target hnames⟩
  have hagree := seed_agrees target hnames htable
  obtain ⟨hentries, hdefault, hreports⟩ := seedTable_spec target program table
  rw [← (within_seedTable target program table).reportsOf_eq] at hentries hreports
  rw [hagree.config_eq, hagree.2]
  refine ⟨hentries, hdefault, hreports, fun other hothers hactions htable' => ?_⟩
  have hsame := seed_agrees target hothers htable'
  rw [seedTable_congr hactions] at hsame
  exact hsame.trans hagree.symm

def filterTable : Table where
  name := "filter"
  keys := [⟨.field "tcp.port" (.bits 16), "exact", some "port"⟩]
  actions := ["permit", "drop"]
  defaultAction := some ⟨"drop", []⟩
  entries := some [⟨[.value 80], ⟨"permit", [1]⟩⟩, ⟨[.dontCare], ⟨"drop", []⟩⟩]

/-- The mask of the second entry is not that of a prefix, and the default action takes a class. -/
def routeTable : Table where
  name := "route"
  keys := [⟨.field "ip.dst" (.bits 8), "lpm", some "dst"⟩]
  actions := ["permit", "drop"]
  defaultAction := some ⟨"permit", []⟩
  entries := some [⟨[.value 7], ⟨"drop", []⟩⟩, ⟨[.mask 0xa0 0x0f], ⟨"drop", []⟩⟩]

def gateway : Program where
  tables := [routeTable, filterTable]
  actions := [⟨"permit", [⟨"class", .bits 4⟩]⟩, ⟨"drop", []⟩]

/-- The gateway with the mask put right, the default taken out and a table added. -/
def mended : Program where
  tables := [filterTable, { name := "log", actions := ["drop"], defaultAction := some ⟨"drop", []⟩ },
    { routeTable with defaultAction := none, entries := some [⟨[.mask 0xa0 0xf0], ⟨"drop", []⟩⟩] }]
  actions := gateway.actions

theorem seed_all_or_nothing_gateway :
    (gateway.tables.map (·.name)).Nodup ∧ (mended.tables.map (·.name)).Nodup ∧
      (Target.core.seed mended).AgreeOn (Target.core.seed gateway) "filter" ∧
      EntriesSeeded .core gateway filterTable ((Target.core.seed gateway).store.config "filter") [] ∧
      ((Target.core.seed gateway).store.config "filter").rules.length = 2 ∧
      EntriesSeeded .core gateway routeTable ((Target.core.seed gateway).store.config "route")
        [.embeddedEntriesDisabled "route" (.embeddedKeyMismatch "dst" "lpm")] ∧
      (∀ action, ((Target.core.seed gateway).store.config "route").defaultAction ≠ some action) ∧
      (Target.core.seed gateway).store.disabledTables.length = 1 := by
  have hnames : (gateway.tables.map (·.name)).Nodup := by decide
  have hmended : (mended.tables.map (·.name)).Nodup := by decide
  obtain ⟨htables, -, hcount⟩ := seed_all_or_nothing .core hnames
  obtain ⟨hfilter, -, -, hsame⟩ := htables filterTable (by decide)
  obtain ⟨hroute, hdefault, -, -⟩ := htables routeTable (by decide)
  refine ⟨hnames, hmended, hsame mended hmended rfl (by decide), hfilter, rfl, hroute, fun action haction => ?_, ?_⟩
  · have hbinding := (hdefault action).mp haction
    cases hbinding
  · exact hcount.symm.trans (by decide)

end Target

end MatchAction
