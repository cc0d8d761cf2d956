/-
  MatchAction.Proofs.Record.Accounting — every entry of a record is accounted for.

  An entry of a record becomes a rule at the end of its table's list, or the default action
  of its table, or it is dropped. Two kinds of reports are of entries that are kept: a field
  that the table does not have, and a binding into an action profile. Every other report
  says why an entry was dropped, and an entry is dropped with exactly one of these, as the
  last thing that is reported of it.

  Proved:
  - `converts`: the ways in which converting an entry can end, with all that is reported.
  - `merge_load`, `load_eq_foldl`: entities converted apart and merged are the entries
    converted one after the other into one store.
  - `every_entry_accounted`: of the three ways each entry takes exactly one, whatever was
    converted before it; a dropped one leaves the store as it was. So the entries of a record
    are as many as the rules, the uses as a default and the reasons for dropping together.
-/

import MatchAction.Proofs.Record.Conversion
import MatchAction.Proofs.Store.Lookup

namespace MatchAction

/-- A report of that kind is the reason why an entry was dropped. -/
def DiagnosticKind.drops : DiagnosticKind → Bool
  | unknownField | unsupportedActionProfile => false
  | _ => true

/-! ## The faults that end a conversion -/

/-- Whatever fault ends the conversion drops the entry. -/
def OnlyDrops {α : Type} (x : Except Fault α) : Prop :=
  ∀ fault, x = .error fault → (DiagnosticKind.of fault).drops = true

namespace OnlyDrops

variable {α β : Type}

theorem ok (a : α) : OnlyDrops (.ok a) := fun _ h => nomatch h

theorem error {fault : Fault} (h : (DiagnosticKind.of fault).drops = true) :
    OnlyDrops (.error fault : Except Fault α) := fun _ heq => Except.error.inj heq ▸ h

theorem bind {x : Except Fault α} {f : α → Except Fault β} (hx : OnlyDrops x) (hf : ∀ a, OnlyDrops (f a)) :
    OnlyDrops (x >>= f) := by
  cases x with
  | error fault => exact error (hx fault rfl)
  | ok a => exact hf a

end OnlyDrops

theorem checkFits_onlyDrops (name : String) (ty : Ty) (value : Nat) : OnlyDrops (checkFits name ty value) := by
  unfold checkFits
  split
  · exact .ok _
  · exact .error rfl

namespace MatchValue

theorem checkKind_onlyDrops (value : MatchValue) (key : Key) : OnlyDrops (value.checkKind key) := by
  unfold checkKind
  split
  · exact .error rfl
  · split
    · exact .error rfl
    · split
      · exact .error rfl
      · exact .ok _

theorem build_onlyDrops (key : Key) (value : MatchValue) : OnlyDrops (value.build key) := by
  cases value with
  | exact value => exact .bind (checkFits_onlyDrops _ _ _) fun _ => .ok _
  | ternary value mask =>
    exact .bind (checkFits_onlyDrops _ _ _) fun _ => .bind (checkFits_onlyDrops _ _ _) fun _ => .ok _
  | lpm value length =>
    rw [build]
    split
    · exact .error rfl
    · exact .bind (checkFits_onlyDrops _ _ _) fun _ => .ok _
  | range low high =>
    exact .bind (checkFits_onlyDrops _ _ _) fun _ => .bind (checkFits_onlyDrops _ _ _) fun _ => .ok _
  | optional value =>
    cases value with
    | none => exact .ok _
    | some value => exact .bind (checkFits_onlyDrops _ _ _) fun _ => .ok _
  | unsupported kind => exact .error rfl

theorem predicate?_onlyDrops (key : Key) (value : MatchValue) : OnlyDrops (value.predicate? key) :=
  .bind (checkKind_onlyDrops value key) fun _ => build_onlyDrops key value

end MatchValue

namespace ActionCall

theorem arguments_onlyDrops (action : Action) (given : List ParamValue) : OnlyDrops (arguments action given) := by
  induction given with
  | nil => exact .ok _
  | cons value rest ih =>
    unfold arguments
    cases action.param? value.paramId with
    | none => exact .error rfl
    | some param => exact .bind (checkFits_onlyDrops _ _ _) fun _ => .bind ih fun _ => .ok _

theorem bind_onlyDrops (catalog : Catalog) (table : Table) (call : ActionCall) :
    OnlyDrops (call.bind catalog table) := by
  unfold ActionCall.bind
  cases catalog.action? call.actionId with
  | none => exact .error rfl
  | some action =>
    dsimp only
    cases table.ordinal? action.name with
    | none => exact .error rfl
    | some ordinal =>
      dsimp only
      split
      · exact .error rfl
      · exact .bind (arguments_onlyDrops _ _) fun _ => .ok _

end ActionCall

namespace TableEntry

variable {catalog : Catalog} {table : Table} {entry : TableEntry}

theorem addMatches_onlyDrops (table : Table) (seen : List UInt32) (keys : KeySet) (ms : List FieldMatch) :
    OnlyDrops (addMatches table seen keys ms).result := by
  induction ms generalizing seen keys with
  | nil => exact .ok _
  | cons m rest ih =>
    unfold addMatches
    split
    · exact .error rfl
    · cases table.key? m.fieldId with
      | none => exact ih _ _
      | some key =>
        dsimp only
        rw [Attempt.bind_result]
        refine .bind (MatchValue.predicate?_onlyDrops key m.value) fun predicate => ?_
        cases predicate with
        | none => exact ih _ _
        | some e => exact ih _ _

/-- Also where a fault ends the matches, only fields that the table does not have were reported. -/
theorem addMatches_reports (table : Table) (seen : List UInt32) (keys : KeySet) (ms : List FieldMatch) :
    ∀ d ∈ (addMatches table seen keys ms).diagnostics, d.kind = .unknownField := by
  induction ms generalizing seen keys with
  | nil => exact List.forall_mem_nil _
  | cons m rest ih =>
    unfold addMatches
    split
    · exact List.forall_mem_nil _
    · cases table.key? m.fieldId with
      | none => exact List.forall_mem_cons.mpr ⟨rfl, ih _ _⟩
      | some key =>
        dsimp only
        cases hp : m.value.predicate? key with
        | error fault => exact List.forall_mem_nil _
        | ok predicate =>
          cases predicate with
          | none => exact ih _ _
          | some e => exact ih _ _

theorem bindAction_onlyDrops (catalog : Catalog) (table : Table) (action : Option TableAction) :
    OnlyDrops (bindAction catalog table action).result := by
  cases action with
  | none => exact .error rfl
  | some action =>
    cases action with
    | call call => exact ActionCall.bind_onlyDrops _ _ _
    | profileMember id => exact .ok _
    | profileGroup id => exact .ok _

def profileReports (table : Table) : Binding → List Diagnostic
  | .profile target => [.profileReference table.name target.text]
  | .direct _ _ _ => []

theorem bindAction_diagnostics {action : Option TableAction} {binding : Binding}
    (h : (bindAction catalog table action).result = .ok binding) :
    (bindAction catalog table action).diagnostics = profileReports table binding := by
  cases action with
  | none => cases h
  | some action =>
    cases action with
    | call call =>
      obtain ⟨action, ordinal, args, -, -, -, -, rfl⟩ := ActionCall.eq_direct_of_bind h
      rfl
    | profileMember id =>
      obtain rfl := Except.ok.inj h
      rfl
    | profileGroup id =>
      obtain rfl := Except.ok.inj h
      rfl

theorem bindAction_reports_nothing {action : Option TableAction} {fault : Fault}
    (h : (bindAction catalog table action).result = .error fault) :
    (bindAction catalog table action).diagnostics = [] := by
  cases action with
  | none => rfl
  | some action =>
    cases action with
    | call call => rfl
    | profileMember id => cases h
    | profileGroup id => cases h

theorem attempt_onlyDrops (catalog : Catalog) (table : Table) (entry : TableEntry) :
    OnlyDrops (entry.attempt catalog table).result := by
  unfold attempt
  split
  · split
    · rw [Attempt.bind_result]
      exact .bind (bindAction_onlyDrops _ _ _) fun _ => .ok _
    · exact .error rfl
  · simp only [Attempt.bind_result]
    exact .bind (addMatches_onlyDrops _ _ _ _) fun _ => .bind (bindAction_onlyDrops _ _ _) fun _ => .ok _

/-- What was reported of an entry before a fault ended it. -/
theorem attempt_reports {fault : Fault} (h : (entry.attempt catalog table).result = .error fault) :
    ∀ d ∈ (entry.attempt catalog table).diagnostics, d.kind = .unknownField := by
  cases hdefault : entry.isDefaultAction with
  | true =>
    simp only [attempt, hdefault, if_true] at h ⊢
    split at h
    · rename_i hempty
      rw [if_pos hempty]
      -- only a binding that succeeds is reported, so none is left behind by a fault
      cases haction : (bindAction catalog table entry.action).result with
      | error fault =>
        rw [Attempt.bind_diagnostics_of_error haction, bindAction_reports_nothing haction]
        exact List.forall_mem_nil _
      | ok action =>
        rw [Attempt.bind_result, haction] at h
        cases h
    · rename_i hempty
      rw [if_neg hempty]
      exact List.forall_mem_nil _
  | false =>
    rw [attempt_result hdefault] at h
    simp only [attempt, hdefault, Bool.false_eq_true, if_false]
    have hmatches := addMatches_reports table [] ∅ entry.fieldMatches
    cases hkeys : (addMatches table [] ∅ entry.fieldMatches).result with
    | error fault =>
      rw [Attempt.bind_diagnostics_of_error hkeys]
      exact hmatches
    | ok keySet =>
      cases haction : (bindAction catalog table entry.action).result with
      | error fault =>
        rw [Attempt.bind_diagnostics hkeys, Attempt.bind_diagnostics_of_error haction,
          bindAction_reports_nothing haction, List.append_nil]
        exact hmatches
      | ok action =>
        rw [hkeys, haction] at h
        cases h

/-! ## One entry -/

inductive Fate where
  | rule
  | default
  | dropped
  deriving DecidableEq, Repr

/-- The ways in which converting an entry can end: the change that it makes, and all that is reported. -/
inductive Converts (catalog : Catalog) (entry : TableEntry) : Option Change → List Diagnostic → Prop
  | rule {table : Table} {rule : Rule} : catalog.table? entry.tableId = some table → entry.isDefaultAction = false →
      rule.priority = entry.priority →
      Converts catalog entry (some (.addRule table.name rule))
        (unknownFields table entry.fieldMatches ++ profileReports table rule.action)
  | default {table : Table} {action : Binding} : catalog.table? entry.tableId = some table →
      entry.isDefaultAction = true →
      Converts catalog entry (some (.setDefault table.name action)) (profileReports table action)
  | dropped {others : List Diagnostic} {reason : Diagnostic} : (∀ d ∈ others, d.kind = .unknownField) →
      reason.kind.drops = true → Converts catalog entry none (others ++ [reason])

theorem converts (catalog : Catalog) (entry : TableEntry) :
    entry.Converts catalog (entry.convert catalog).1 (entry.convert catalog).2 := by
  cases ht : catalog.table? entry.tableId with
  | none =>
    simp only [convert, ht]
    exact .dropped (List.forall_mem_nil _) rfl
  | some table =>
    cases hresult : (entry.attempt catalog table).result with
    | error fault =>
      simp only [convert, ht, hresult]
      exact .dropped (attempt_reports hresult) (attempt_onlyDrops catalog table entry fault hresult)
    | ok change =>
      rw [convert_eq_of_result ht hresult]
      obtain ⟨action, haction, hasks⟩ := attempt_eq_ok.mp hresult
      rw [hasks.diagnostics haction, bindAction_diagnostics haction]
      cases hasks with
      | default hdefault hempty =>
        rw [hempty]
        exact .default ht hdefault
      | rule hrule => exact .rule ht hrule rfl

/-- What the store and the reports show of an entry that met this fate. -/
def Meets (catalog : Catalog) (entry : TableEntry) (before after : Store) (reported : List Diagnostic) : Fate → Prop
  | .rule => entry.isDefaultAction = false ∧ ∃ table rule, catalog.table? entry.tableId = some table ∧
      rule.priority = entry.priority ∧
      before.Puts after table.name
        { before.config table.name with rules := (before.config table.name).rules ++ [rule] } ∧
      reported = unknownFields table entry.fieldMatches ++ profileReports table rule.action
  | .default => entry.isDefaultAction = true ∧ ∃ table action, catalog.table? entry.tableId = some table ∧
      before.Puts after table.name { before.config table.name with defaultAction := some action } ∧
      reported = profileReports table action
  | .dropped => after = before ∧ ∃ others reason, reported = others ++ [reason] ∧
      (∀ d ∈ others, d.kind = .unknownField) ∧ reason.kind.drops = true

def fate (catalog : Catalog) (entry : TableEntry) : Fate :=
  match (entry.convert catalog).1 with
  | some (.addRule _ _) => .rule
  | some (.setDefault _ _) => .default
  | none => .dropped

theorem meets_fate (catalog : Catalog) (outcome : Outcome) (entry : TableEntry) :
    entry.Meets catalog outcome.store (entry.loadInto catalog outcome).store (entry.convert catalog).2
      (entry.fate catalog) := by
  have h := entry.converts catalog
  simp only [loadInto, fate]
  generalize (entry.convert catalog).1 = change, (entry.convert catalog).2 = reported at h ⊢
  cases h with
  | rule ht hdefault hpriority => exact ⟨hdefault, _, _, ht, hpriority, Store.puts_addRule .., rfl⟩
  | default ht hdefault => exact ⟨hdefault, _, _, ht, Store.puts_setDefault .., rfl⟩
  | dropped hothers hreason => exact ⟨rfl, _, _, rfl, hothers, hreason⟩

theorem unknownFields_kind (table : Table) (ms : List FieldMatch) :
    ∀ d ∈ unknownFields table ms, d.kind = .unknownField := by
  intro d hd
  obtain ⟨m, -, rfl⟩ := List.mem_map.mp hd
  rfl

theorem countP_drops_eq_zero {reported : List Diagnostic} (h : ∀ d ∈ reported, d.kind = .unknownField) :
    reported.countP (·.kind.drops) = 0 :=
  List.countP_eq_zero.mpr fun d hd => by rw [h d hd]; decide

theorem countP_drops_profileReports (table : Table) (action : Binding) :
    (profileReports table action).countP (·.kind.drops) = 0 := by
  cases action <;> rfl

/-- Only the reason for dropping an entry is of a kind that drops one. -/
theorem Meets.countP_drops {before after : Store} {reported : List Diagnostic} {fate : Fate}
    (h : entry.Meets catalog before after reported fate) :
    reported.countP (·.kind.drops) = if fate = .dropped then 1 else 0 := by
  cases fate with
  | rule =>
    obtain ⟨-, table, rule, -, -, -, rfl⟩ := h
    rw [List.countP_append, countP_drops_eq_zero (unknownFields_kind _ _), countP_drops_profileReports]
    rfl
  | default =>
    obtain ⟨-, table, action, -, -, rfl⟩ := h
    exact countP_drops_profileReports table action
  | dropped =>
    obtain ⟨-, others, reason, rfl, hothers, hreason⟩ := h
    rw [List.countP_append, countP_drops_eq_zero hothers, List.countP_singleton, hreason]
    rfl

/-- An entry that is dropped is told from the others by its reason, and these by whether they
    set the default action. -/
theorem Meets.unique {before after : Store} {reported : List Diagnostic} {fate other : Fate}
    (h : entry.Meets catalog before after reported fate) (h' : entry.Meets catalog before after reported other) :
    fate = other := by
  have hcount := h.countP_drops.symm.trans h'.countP_drops
  cases fate with
  | rule =>
    cases other with
    | rule => rfl
    | default => exact absurd (h.1.symm.trans h'.1) Bool.false_ne_true
    | dropped => cases hcount
  | default =>
    cases other with
    | rule => exact absurd (h'.1.symm.trans h.1) Bool.false_ne_true
    | default => rfl
    | dropped => cases hcount
  | dropped =>
    cases other with
    | rule => cases hcount
    | default => cases hcount
    | dropped => rfl

theorem length_rules_loadInto (catalog : Catalog) (outcome : Outcome) (entry : TableEntry) :
    (entry.loadInto catalog outcome).store.rules.length =
      outcome.store.rules.length + if entry.fate catalog = .rule then 1 else 0 := by
  cases hchange : (entry.convert catalog).1 with
  | none => simp [loadInto, fate, hchange]
  | some change =>
    cases change with
    | addRule table rule =>
      simp only [loadInto, fate, hchange, if_true]
      exact Store.length_rules_addRule ..
    | setDefault table action =>
      simp only [loadInto, fate, hchange, reduceCtorEq, if_false]
      exact Store.length_rules_setDefault ..

/-! ## All entries -/

/-- Entries converted one after the other into one store: each adds one to the rules, to the uses
    as a default or to the reasons for dropping. -/
theorem foldl_loadInto_accounted (catalog : Catalog) (entries : List TableEntry) (outcome : Outcome) :
    (entries.foldl (loadInto catalog) outcome).store.rules.length +
        entries.countP (fun entry => entry.fate catalog = .default) +
        (entries.foldl (loadInto catalog) outcome).diagnostics.countP (·.kind.drops) =
      outcome.store.rules.length + outcome.diagnostics.countP (·.kind.drops) + entries.length := by
  induction entries generalizing outcome with
  | nil => simp
  | cons entry rest ih =>
    have hrules := length_rules_loadInto catalog outcome entry
    have hdrops := (meets_fate catalog outcome entry).countP_drops
    have hreports : (entry.loadInto catalog outcome).diagnostics =
        outcome.diagnostics ++ (entry.convert catalog).2 := rfl
    have := ih (entry.loadInto catalog outcome)
    rw [hreports, List.countP_append, hdrops, hrules] at this
    have hone : (if entry.fate catalog = .rule then 1 else 0) + (if entry.fate catalog = .default then 1 else 0) +
        (if entry.fate catalog = .dropped then 1 else 0) = 1 := by cases entry.fate catalog <;> rfl
    rw [List.foldl_cons, List.countP_cons, List.length_cons]
    simp only [decide_eq_true_eq]
    omega

theorem merge_load (catalog : Catalog) (outcome : Outcome) (entry : TableEntry) :
    outcome.merge ((Entity.tableEntry entry).load catalog) = entry.loadInto catalog outcome := by
  simp only [Entity.load, loadInto, Outcome.merge, List.nil_append]
  cases (entry.convert catalog).1 with
  | none => rfl
  | some change =>
    cases change with
    | addRule table rule => exact congrArg (Outcome.mk · _) (Store.merge_addRule ..)
    | setDefault table action => exact congrArg (Outcome.mk · _) (Store.merge_setDefault ..)

end TableEntry

namespace Record

def tableEntries (record : Record) : List TableEntry :=
  record.entities.filterMap fun
    | .tableEntry entry => some entry
    | _ => none

/-- Entities merged one by one into what was there before. -/
theorem foldl_merge_load (catalog : Catalog) (record : Record) (outcome : Outcome) :
    record.entities.foldl (fun outcome entity => outcome.merge (entity.load catalog)) outcome =
      record.tableEntries.foldl (TableEntry.loadInto catalog) outcome := by
  unfold tableEntries
  induction record.entities generalizing outcome with
  | nil => rfl
  | cons entity rest ih =>
    rw [List.foldl_cons, ih]
    cases entity with
    | tableEntry entry => rw [TableEntry.merge_load]; rfl
    | profileMember _ => simp [Entity.load, Outcome.merge]
    | profileGroup _ => simp [Entity.load, Outcome.merge]
    | other _ => simp [Entity.load, Outcome.merge]

theorem load_eq_foldl (catalog : Catalog) (record : Record) :
    record.load catalog = record.tableEntries.foldl (TableEntry.loadInto catalog) {} :=
  foldl_merge_load catalog record {}

/-- Whatever was converted before, each entry becomes a rule, sets a default action or is dropped,
    and only one of these; and the entries of a record are as many as the rules, the uses as a
    default and the reasons for dropping together. -/
theorem every_entry_accounted (catalog : Catalog) :
    (∀ (outcome : Outcome) (entry : TableEntry), ∃ reported,
      (entry.loadInto catalog outcome).diagnostics = outcome.diagnostics ++ reported ∧
      ∀ fate, entry.Meets catalog outcome.store (entry.loadInto catalog outcome).store reported fate ↔
        fate = entry.fate catalog) ∧
    ∀ record : Record, record.tableEntries.length = (record.load catalog).store.rules.length +
      record.tableEntries.countP (fun entry => entry.fate catalog = .default) +
      (record.load catalog).diagnostics.countP (·.kind.drops) := by
  constructor
  · intro outcome entry
    refine ⟨(entry.convert catalog).2, rfl, fun fate => ⟨fun h => h.unique (TableEntry.meets_fate ..), ?_⟩⟩
    rintro rfl
    exact TableEntry.meets_fate catalog outcome entry
  · intro record
    have h := TableEntry.foldl_loadInto_accounted catalog record.tableEntries {}
    rw [load_eq_foldl, h]
    simp

end Record

end MatchAction
