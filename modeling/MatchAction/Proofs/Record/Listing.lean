/-
  MatchAction.Proofs.Record.Listing — entries that list their matches or parameters in another order.

  The matches of an entry are added to its key set one by one: a field that was matched before ends
  the conversion, a field that the table does not have is passed over, and a match that is faulty
  ends it too. Which fault is reported depends on the order. Whether there is one does not, and
  neither does what is converted: every match by itself adds one predicate or none, and the key set
  is a map by field name. Arguments are kept in the order of the call, so there the order is seen in
  the binding, but not in what the binding asks for.

  Proved:
  - `keyPredicates_perm`, `arguments_perm`: what is converted is converted in any order, into the
    same in another order.
  - `ArgumentsMoved.agree`: bindings that list the same arguments ask for the same.
  - `convert_relisted`: where the keys of the table have different names, an entry with its matches
    in another order asks for the same change, and one with its parameters in another order for a
    change that differs in the order of the arguments alone.
-/

import Mathlib.Data.List.Perm.Basic
import Mathlib.Data.List.ReduceOption
import MatchAction.Proofs.Record.Arguments
import MatchAction.Proofs.Store.FirstMatch

namespace MatchAction

variable {catalog : Catalog} {table : Table} {entry : TableEntry} {change : Change} {action other : Binding}

/-! ## Matches -/

/-- What a match adds to a key set: a predicate under the name of its field, or nothing. -/
inductive FieldMatch.Adds (table : Table) (m : FieldMatch) : Option (String × Term) → Prop
  | unknown : table.key? m.fieldId = none → Adds table m none
  | known {key : Key} {predicate : Option Term} : table.key? m.fieldId = some key →
      m.value.predicate? key = .ok predicate → Adds table m (predicate.map fun e => (key.fieldName, e))

namespace TableEntry

variable {ms others : List FieldMatch}

theorem keyPredicates_eq_ok {predicates : List (String × Term)} :
    keyPredicates table ms = .ok predicates ↔
      ∃ added, List.Forall₂ (FieldMatch.Adds table) ms added ∧ added.reduceOption = predicates := by
  induction ms generalizing predicates with
  | nil =>
    rw [keyPredicates, pure_eq_ok]
    simp only [List.forall₂_nil_left_iff, exists_eq_left, List.reduceOption_nil]
  | cons m rest ih =>
    simp only [List.forall₂_cons_left_iff]
    rw [keyPredicates]
    constructor
    · intro h
      cases hk : table.key? m.fieldId with
      | none =>
        rw [hk] at h
        obtain ⟨added, hadded, rfl⟩ := ih.mp h
        exact ⟨none :: added, ⟨none, added, .unknown hk, hadded, rfl⟩, List.reduceOption_cons_of_none _⟩
      | some key =>
        simp only [hk, bind_eq_ok, pure_eq_ok] at h
        obtain ⟨predicate, hp, more, hmore, rfl⟩ := h
        obtain ⟨added, hadded, rfl⟩ := ih.mp hmore
        refine ⟨_, ⟨_, added, .known hk hp, hadded, rfl⟩, ?_⟩
        cases predicate <;> rfl
    · rintro ⟨_, ⟨one, added, hone, hadded, rfl⟩, rfl⟩
      have hmore := ih.mpr ⟨added, hadded, rfl⟩
      cases hone with
      | unknown hk =>
        rw [hk]
        exact hmore
      | @known key predicate hk hp =>
        simp only [hk, hp, hmore]
        cases predicate <;> rfl

theorem keyPredicates_perm (hperm : ms.Perm others) {predicates : List (String × Term)}
    (h : keyPredicates table ms = .ok predicates) :
    ∃ moved, keyPredicates table others = .ok moved ∧ predicates.Perm moved := by
  obtain ⟨added, hadded, rfl⟩ := keyPredicates_eq_ok.mp h
  obtain ⟨moved, hmoved, hadds⟩ := List.perm_comp_forall₂ hperm.symm hadded
  exact ⟨moved.reduceOption, keyPredicates_eq_ok.mpr ⟨moved, hmoved, rfl⟩, (hadds.filterMap id).symm⟩

theorem Fresh.perm (h : Fresh [] ms) (hperm : ms.Perm others) : Fresh [] others :=
  ⟨(hperm.map (·.fieldId)).nodup_iff.mp h.1, fun _ _ => List.not_mem_nil⟩

theorem Asks.relist (hnames : (table.keys.map Key.fieldName).Nodup) (hperm : entry.fieldMatches.Perm ms)
    (h : entry.Asks table action change) : { entry with fieldMatches := ms }.Asks table action change := by
  cases h with
  | default hdefault hempty => exact .default hdefault (List.nil_perm.mp (hempty ▸ hperm))
  | @rule predicates hrule hfresh hp =>
    obtain ⟨moved, hmoved, hmove⟩ := keyPredicates_perm hperm hp
    rw [SortedMap.ofList_perm (nodup_keyPredicates hnames hfresh hp) hmove]
    exact .rule hrule (hfresh.perm hperm) hmoved

end TableEntry

/-! ## Parameters -/

theorem ActionCall.arguments_perm {action : Action} {given others : List ParamValue} (hperm : given.Perm others)
    {args : List Argument} (h : arguments action given = .ok args) :
    ∃ moved, arguments action others = .ok moved ∧ args.Perm moved := by
  obtain ⟨moved, hmoved, hargs⟩ := List.perm_comp_forall₂ hperm.symm (arguments_eq_ok.mp h)
  exact ⟨moved, arguments_eq_ok.mpr hmoved, hargs.symm⟩

/-- The bindings invoke the same action with the same arguments, listed in any order. -/
inductive Binding.ArgumentsMoved : Binding → Binding → Prop
  | direct {name : String} {ordinal : UInt32} {args moved : List Argument} : args.Perm moved →
      ArgumentsMoved (.direct name ordinal args) (.direct name ordinal moved)

/-- Their equalities are the same, so they hold together wherever their symbols are bound. -/
theorem Binding.ArgumentsMoved.agree (h : action.ArgumentsMoved other) {name : String} {env : Assignment}
    (hbound : ∀ s ∈ action.symbols name, ∃ v, env.symbol s = some v) :
    ∃ b, (Term.all (action.equalities name)).evalBool env = .ok b ∧
      (Term.all (other.equalities name)).evalBool env = .ok b := by
  cases h with
  | @direct invoked ordinal args moved hperm =>
    have hsymbols := (hperm.map fun arg => Symbol.actionArgument name invoked arg.param arg.ty).cons (.actionChoice name)
    have hequalities := (hperm.map (argumentIs name invoked)).cons (choiceIs name ordinal.toNat)
    have hother : ∀ s ∈ (Binding.direct invoked ordinal moved).symbols name, ∃ v, env.symbol s = some v :=
      fun s hs => hbound s (hsymbols.mem_iff.mpr hs)
    refine (decides_equalities hbound).agree (decides_equalities hother) ?_
    exact forall_congr' fun e => imp_congr_left hequalities.mem_iff

theorem ActionCall.bind_perm {call : ActionCall} {params : List ParamValue} (hperm : call.params.Perm params)
    (h : call.bind catalog table = .ok action) :
    ∃ other, { call with params }.bind catalog table = .ok other ∧ action.ArgumentsMoved other := by
  obtain ⟨invoked, ordinal, args, haction, hordinal, hlength, hargs, rfl⟩ := eq_direct_of_bind h
  obtain ⟨moved, hmoved, hmove⟩ := arguments_perm hperm hargs
  refine ⟨.direct invoked.name ordinal moved, ?_, .direct hmove⟩
  simp only [bind, haction, hordinal, hperm.length_eq.symm.trans hlength, ne_eq, not_true, if_false, hmoved]
  rfl

inductive Change.ArgumentsMoved : Change → Change → Prop
  | addRule {name : String} {keySet : KeySet} {priority : Option Int32} {action other : Binding} :
      action.ArgumentsMoved other →
      ArgumentsMoved (.addRule name ⟨keySet, action, priority⟩) (.addRule name ⟨keySet, other, priority⟩)
  | setDefault {name : String} {action other : Binding} : action.ArgumentsMoved other →
      ArgumentsMoved (.setDefault name action) (.setDefault name other)

namespace TableEntry

theorem Asks.rebind (h : entry.Asks table action change) (hmoved : action.ArgumentsMoved other)
    (given : Option TableAction) :
    ∃ moved, { entry with action := given }.Asks table other moved ∧ change.ArgumentsMoved moved := by
  cases h with
  | default hdefault hempty => exact ⟨_, .default hdefault hempty, .setDefault hmoved⟩
  | rule hrule hfresh hp => exact ⟨_, .rule hrule hfresh hp, .addRule hmoved⟩

theorem convert_fieldMatches (hperm : entry.fieldMatches.Perm ms)
    (hnames : ∀ table, catalog.table? entry.tableId = some table → (table.keys.map Key.fieldName).Nodup) :
    ({ entry with fieldMatches := ms }.convert catalog).1 = (entry.convert catalog).1 := by
  refine Option.ext fun change => ?_
  rw [convert_eq_some, convert_eq_some]
  constructor
  · rintro ⟨table, action, ht, haction, hasks⟩
    have hback := hasks.relist (hnames table ht) hperm.symm
    exact ⟨table, action, ht, haction, hback⟩
  · rintro ⟨table, action, ht, haction, hasks⟩
    exact ⟨table, action, ht, haction, hasks.relist (hnames table ht) hperm⟩

theorem convert_params {call : ActionCall} {params : List ParamValue} (hperm : call.params.Perm params)
    (hcall : entry.action = some (.call call)) (h : (entry.convert catalog).1 = some change) :
    ∃ moved, ({ entry with action := some (.call { call with params }) }.convert catalog).1 = some moved ∧
      change.ArgumentsMoved moved := by
  obtain ⟨table, action, ht, haction, hasks⟩ := convert_eq_some.mp h
  rw [hcall] at haction
  obtain ⟨other, hother, hmoved⟩ := ActionCall.bind_perm hperm haction
  obtain ⟨moved, hmoves, hchange⟩ := hasks.rebind hmoved (some (.call { call with params }))
  exact ⟨moved, convert_eq_some.mpr ⟨table, other, ht, hother, hmoves⟩, hchange⟩

end TableEntry

def Change.binding : Change → Binding
  | addRule _ rule => rule.action
  | setDefault _ action => action

theorem Change.ArgumentsMoved.binding {moved : Change} (h : change.ArgumentsMoved moved) :
    change.binding.ArgumentsMoved moved.binding := by
  cases h with
  | addRule hmoved => exact hmoved
  | setDefault hmoved => exact hmoved

namespace TableEntry

/-- An entry with its matches in another order asks for the same change, or for none if it did not
    ask for one, and so leaves the same store. With the parameters of its call in another order it
    asks for a change that differs only in the order of the arguments, or for none as before; and
    the bindings of the two ask for the same. -/
theorem convert_relisted
    (hnames : ∀ table, catalog.table? entry.tableId = some table → (table.keys.map Key.fieldName).Nodup) :
    (∀ ms, entry.fieldMatches.Perm ms →
      ({ entry with fieldMatches := ms }.convert catalog).1 = (entry.convert catalog).1 ∧
        ∀ outcome, ({ entry with fieldMatches := ms }.loadInto catalog outcome).store =
          (entry.loadInto catalog outcome).store) ∧
    ∀ call params, entry.action = some (.call call) → call.params.Perm params →
      Option.Rel
        (fun change moved => change.ArgumentsMoved moved ∧
          ∀ name env, (∀ s ∈ change.binding.symbols name, ∃ v, env.symbol s = some v) →
            ∃ b, (Term.all (change.binding.equalities name)).evalBool env = .ok b ∧
              (Term.all (moved.binding.equalities name)).evalBool env = .ok b)
        (entry.convert catalog).1 ({ entry with action := some (.call { call with params }) }.convert catalog).1 := by
  constructor
  · intro ms hperm
    have hchange := convert_fieldMatches hperm hnames
    refine ⟨hchange, fun outcome => ?_⟩
    simp only [loadInto, hchange]
  · intro call params hcall hperm
    have hback : { entry with action := some (.call call) } = entry := by rw [← hcall]
    cases h : (entry.convert catalog).1 with
    | some change =>
      obtain ⟨moved, hmoved, hchange⟩ := convert_params hperm hcall h
      rw [hmoved]
      exact .some ⟨hchange, fun _ _ hbound => hchange.binding.agree hbound⟩
    | none =>
      cases hother : ({ entry with action := some (.call { call with params }) }.convert catalog).1 with
      | none => exact .none
      | some moved =>
        obtain ⟨change, hchange, -⟩ := convert_params hperm.symm rfl hother
        rw [hback, h] at hchange
        cases hchange

def flowTable : Table where
  name := "flow"
  keys := [⟨.field "ip.dst" (.bits 8), "lpm", some "dst"⟩, ⟨.field "meta.vrf" (.bits 4), "exact", some "vrf"⟩]
  actions := ["drop", "tunnel"]

def flowCatalog : Catalog :=
  .ofProgram { tables := [flowTable], actions := [ActionCall.tunnel] } [(1, "flow")] [(8, "tunnel")]

/-- The second key first, between the two a field that the table does not have. -/
def flowEntry : TableEntry where
  tableId := 1
  fieldMatches := [⟨2, .exact [3]⟩, ⟨9, .exact [0]⟩, ⟨1, .lpm [0xa7] 4⟩]
  action := some (.call ActionCall.tunnelCall)
  priority := some 5

theorem flowCatalog_names (table : Table) (h : flowCatalog.table? flowEntry.tableId = some table) :
    (table.keys.map Key.fieldName).Nodup := by
  obtain rfl : flowTable = table := Option.some.inj h
  decide

def flowCall : ActionCall := { ActionCall.tunnelCall with params := ActionCall.tunnelCall.params.reverse }

theorem convert_relisted_flow :
    (∀ table, flowCatalog.table? flowEntry.tableId = some table → (table.keys.map Key.fieldName).Nodup) ∧
    (∃ rule, (flowEntry.convert flowCatalog).1 = some (.addRule "flow" rule) ∧
      ({ flowEntry with fieldMatches := flowEntry.fieldMatches.reverse }.convert flowCatalog).1 =
        some (.addRule "flow" rule)) ∧
    ∃ change moved, (flowEntry.convert flowCatalog).1 = some change ∧
      ({ flowEntry with action := some (.call flowCall) }.convert flowCatalog).1 = some moved ∧
      change.binding = .direct "tunnel" 1 [⟨"label", .bits 20, 3⟩, ⟨"port", .bits 9, 7⟩] ∧
      moved.binding = .direct "tunnel" 1 [⟨"port", .bits 9, 7⟩, ⟨"label", .bits 20, 3⟩] ∧
      change.ArgumentsMoved moved := by
  obtain ⟨rule, hrule, hbinding⟩ : ∃ rule, (flowEntry.convert flowCatalog).1 = some (.addRule "flow" rule) ∧
      rule.action = .direct "tunnel" 1 [⟨"label", .bits 20, 3⟩, ⟨"port", .bits 9, 7⟩] := ⟨_, rfl, rfl⟩
  obtain ⟨moved, hmoved, hother⟩ : ∃ moved,
      ({ flowEntry with action := some (.call flowCall) }.convert flowCatalog).1 = some moved ∧
      moved.binding = .direct "tunnel" 1 [⟨"port", .bits 9, 7⟩, ⟨"label", .bits 20, 3⟩] := ⟨_, rfl, rfl⟩
  obtain ⟨hmatches, hparams⟩ := convert_relisted flowCatalog_names
  have hsame := (hmatches _ (List.reverse_perm _).symm).1
  have hrelated : Option.Rel _ (flowEntry.convert flowCatalog).1
      ({ flowEntry with action := some (.call flowCall) }.convert flowCatalog).1 :=
    hparams ActionCall.tunnelCall _ rfl (List.reverse_perm _).symm
  refine ⟨flowCatalog_names, ⟨rule, hrule, hsame.trans hrule⟩, _, moved, hrule, hmoved, hbinding, hother, ?_⟩
  rw [hrule, hmoved] at hrelated
  cases hrelated with
  | some h => exact h.1

end TableEntry

end MatchAction
