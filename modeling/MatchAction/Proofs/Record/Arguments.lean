/-
  MatchAction.Proofs.Record.Arguments — which parameters the arguments of a call are for.

  A call of a record names a parameter with each of its values, in any order. It is accepted
  where it has as many values as the action has parameters, every value names one and every
  value fits. Nothing keeps it from naming a parameter twice; then another one is left without
  an argument, and the binding asks two things of one symbol.

  Proved, for actions whose parameters have different names:
  - `nodup_parameters_iff`: the arguments are for different parameters exactly when the call
    names different ones.
  - `arguments_perm_iff`: exactly then the arguments are for all the parameters.
  - `ActionCall.binds_each_parameter_iff`: so an accepted call binds every parameter once
    exactly when it names none twice; otherwise some parameter is not bound.
  - `ActionCall.repeated_parameter_accepted`: a call that names its first parameter twice is
    accepted.
-/

import Mathlib.Data.List.Nodup
import Mathlib.Data.List.Perm.Subperm
import MatchAction.Proofs.Record.Conversion

namespace MatchAction

variable {catalog : Catalog} {table : Table} {action : Action} {given : List ParamValue} {args : List Argument}

/-- A number names one parameter, and a parameter has one number. -/
theorem Action.param?_biUnique (hnames : (action.params.map Param.name).Nodup) :
    Relator.BiUnique fun id param => action.param? id = some param := by
  constructor
  · intro id param other h hother
    exact atPosition?_inj hnames h hother rfl
  · intro id param other h hother
    exact Option.some.inj (h.symm.trans hother)

theorem nodup_parameters_iff (hnames : (action.params.map Param.name).Nodup)
    (h : ActionCall.arguments action given = .ok args) :
    (args.map Argument.parameter).Nodup ↔ (given.map ParamValue.paramId).Nodup := by
  have hnamed : List.Forall₂ (fun id param => action.param? id = some param) (given.map ParamValue.paramId)
      (args.map Argument.parameter) := by
    rw [List.forall₂_map_left_iff, List.forall₂_map_right_iff]
    exact (ActionCall.arguments_eq_ok.mp h).imp fun _ _ hgives => hgives.parameter
  exact (List.rel_nodup (Action.param?_biUnique hnames) hnamed).symm

theorem length_parameters (hlength : given.length = action.params.length)
    (h : ActionCall.arguments action given = .ok args) :
    (args.map Argument.parameter).length = action.params.length := by
  rw [List.length_map, ← hlength]
  exact (ActionCall.arguments_eq_ok.mp h).length_eq.symm

/-- As many arguments as parameters, each for a parameter: they are for all of them where they are
    for different ones. -/
theorem arguments_perm_iff (hnames : (action.params.map Param.name).Nodup)
    (hlength : given.length = action.params.length) (h : ActionCall.arguments action given = .ok args) :
    (args.map Argument.parameter).Perm action.params ↔ (given.map ParamValue.paramId).Nodup := by
  have hparams : action.params.Nodup := hnames.of_map
  rw [← nodup_parameters_iff hnames h]
  constructor
  · intro hperm
    exact hperm.nodup_iff.mpr hparams
  · intro hnodup
    have hdeclared : args.map Argument.parameter ⊆ action.params := by
      intro param hparam
      obtain ⟨arg, harg, rfl⟩ := List.mem_map.mp hparam
      exact (ActionCall.arguments_declared h arg harg).1
    exact (hnodup.subperm hdeclared).perm_of_length_le (Nat.le_of_eq (length_parameters hlength h).symm)

/-- Where a parameter is named twice, there is one that no argument is for. -/
theorem exists_unbound (hnames : (action.params.map Param.name).Nodup)
    (hlength : given.length = action.params.length) (h : ActionCall.arguments action given = .ok args)
    (hrepeated : ¬(given.map ParamValue.paramId).Nodup) :
    ∃ param ∈ action.params, ∀ arg ∈ args, arg.parameter ≠ param := by
  by_contra hnone
  apply hrepeated
  rw [← arguments_perm_iff hnames hlength h]
  have hparams : action.params.Nodup := hnames.of_map
  have hall : action.params ⊆ args.map Argument.parameter := by
    intro param hparam
    by_contra hunbound
    refine hnone ⟨param, hparam, fun arg harg heq => hunbound ?_⟩
    exact List.mem_map.mpr ⟨arg, harg, heq⟩
  exact ((hparams.subperm hall).perm_of_length_le (Nat.le_of_eq (length_parameters hlength h))).symm

namespace ActionCall

/-- Every argument of an accepted call is for a parameter of the action and fits its type. The
    arguments are the parameters in another order exactly when the call names no parameter twice;
    otherwise some parameter has no argument. -/
theorem binds_each_parameter_iff {call : ActionCall} {name : String} {ordinal : UInt32}
    (hnames : ∀ id action, catalog.action? id = some action → (action.params.map Param.name).Nodup)
    (h : (TableEntry.bindAction catalog table (some (.call call))).result = .ok (.direct name ordinal args)) :
    ∃ action, catalog.action? call.actionId = some action ∧ action.name = name ∧
      (∀ arg ∈ args, arg.parameter ∈ action.params ∧ arg.value < 2 ^ arg.ty.width) ∧
      ((args.map Argument.parameter).Perm action.params ↔ (call.params.map ParamValue.paramId).Nodup) ∧
      (¬(call.params.map ParamValue.paramId).Nodup → ∃ param ∈ action.params, ∀ arg ∈ args, arg.parameter ≠ param) := by
  obtain ⟨action, ordinal', args', haction, -, hlength, hargs, hbinding⟩ := eq_direct_of_bind h
  obtain ⟨rfl, rfl, rfl⟩ := Binding.direct.inj hbinding
  have hdistinct := hnames call.actionId action haction
  exact ⟨action, haction, rfl, arguments_declared hargs, arguments_perm_iff hdistinct hlength hargs,
    exists_unbound hdistinct hlength hargs⟩

def encapTable : Table where
  name := "encap"
  keys := [⟨.field "ip.dst" (.bits 8), "exact", none⟩]
  actions := ["drop", "tunnel"]

def tunnel : Action := ⟨"tunnel", [⟨"port", .bits 9⟩, ⟨"label", .bits 20⟩]⟩

def encapCatalog : Catalog :=
  .ofProgram { tables := [encapTable], actions := [⟨"drop", []⟩, tunnel] } [(1, "encap")] [(7, "drop"), (8, "tunnel")]

theorem encapCatalog_names (id : UInt32) (action : Action) (h : encapCatalog.action? id = some action) :
    (action.params.map Param.name).Nodup := by
  have haction : action = tunnel ∨ action = ⟨"drop", []⟩ := by
    change (if id = 8 then some tunnel else if id = 7 then some ⟨"drop", []⟩ else none) = some action at h
    split at h
    · exact .inl (Option.some.inj h).symm
    · split at h
      · exact .inr (Option.some.inj h).symm
      · cases h
  rcases haction with rfl | rfl
  · decide
  · decide

/-- Label 3 and port 7, the last parameter first. -/
def tunnelCall : ActionCall := ⟨8, [⟨2, [3]⟩, ⟨1, [0, 7]⟩]⟩

theorem binds_each_parameter_iff_tunnel :
    (∀ id action, encapCatalog.action? id = some action → (action.params.map Param.name).Nodup) ∧
      (TableEntry.bindAction encapCatalog encapTable (some (.call tunnelCall))).result =
        .ok (.direct "tunnel" 1 [⟨"label", .bits 20, 3⟩, ⟨"port", .bits 9, 7⟩]) ∧
      ([⟨"label", .bits 20, 3⟩, ⟨"port", .bits 9, 7⟩].map Argument.parameter).Perm tunnel.params := by
  have hbind : (TableEntry.bindAction encapCatalog encapTable (some (.call tunnelCall))).result =
      .ok (.direct "tunnel" 1 [⟨"label", .bits 20, 3⟩, ⟨"port", .bits 9, 7⟩]) := by rfl
  obtain ⟨action, haction, -, -, hperm, -⟩ := binds_each_parameter_iff encapCatalog_names hbind
  obtain rfl : tunnel = action := Option.some.inj haction
  exact ⟨encapCatalog_names, hbind, hperm.mpr (by decide)⟩

/-- A call that gives the port twice and no label has as many values as there are parameters, and is
    accepted. -/
theorem repeated_parameter_accepted :
    (∀ id action, encapCatalog.action? id = some action → (action.params.map Param.name).Nodup) ∧
      (TableEntry.bindAction encapCatalog encapTable (some (.call ⟨8, [⟨1, [5]⟩, ⟨1, [6]⟩]⟩))).result =
        .ok (.direct "tunnel" 1 [⟨"port", .bits 9, 5⟩, ⟨"port", .bits 9, 6⟩]) ∧
      encapCatalog.action? 8 = some tunnel ∧
      ¬([⟨"port", .bits 9, 5⟩, ⟨"port", .bits 9, 6⟩].map Argument.parameter).Perm tunnel.params :=
  ⟨encapCatalog_names, rfl, rfl, by decide⟩

end ActionCall

end MatchAction
