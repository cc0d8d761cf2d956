/-
  MatchAction.Proofs.Resolve.Admission — the encoding excludes no packet that is configured.

  A table is resolved to a condition on symbols and its configuration to a constraint on
  them. For every packet that the keys and the entries can be evaluated on, some symbols
  make both true: the active symbol says whether there are entries, the action choice and
  the arguments are those of the first entry that matches, every key is compared with its own
  value, and every range is the full interval. The unknowns that get these values have
  different symbols, so that no two of them get in each other's way.

  Proved:
  - `exists_symbols`: values for unknowns with different symbols are those of some symbols.
  - `Relevant.symbol_inj`: the unknowns of a table that matter have different symbols.
  - `exists_predicate_holds`: every resolved key is true where its symbols are these.
  - `admits_packet`: the constraint is true, and the hit condition if there are entries.
-/

import MatchAction.Proofs.Lists
import MatchAction.Proofs.Resolve.Convergence
import MatchAction.Proofs.Store.Precedence
import MatchAction.Proofs.Symbol

namespace MatchAction

open Term

theorem literalValue_fits {ty : Ty} {n : Nat} (h : ty.fits n = true) : (literalValue ty n).Fits ty := by
  cases ty with
  | bool => trivial
  | bits w => exact Ty.fits_iff.mp h

namespace Assignment

def withSymbols (packet : Assignment) (symbols : Symbol → Value) : Assignment :=
  { packet with symbol := fun s => some (symbols s) }

variable {packet : Assignment} {symbols : Symbol → Value}

theorem eval_withSymbols {e : Term} (h : e.symbols.toList = []) :
    e.eval (packet.withSymbols symbols) = e.eval packet := by
  refine Term.eval_congr (fun s hs => ?_) fun _ _ => rfl
  rw [h] at hs
  cases hs

theorem evalBool_withSymbols {e : Term} (h : e.symbols.toList = []) :
    e.evalBool (packet.withSymbols symbols) = e.evalBool packet := by
  rw [evalBool, eval_withSymbols h, evalBool]

end Assignment

/-! ## Symbols for unknowns -/

/-- Values for unknowns that have different symbols: some symbols have them, and every symbol
    stands for a value of its type. -/
theorem exists_symbols (table : String) (Relevant : Unknown → Prop) (value : Unknown → Value)
    (hinj : ∀ a b, Relevant a → Relevant b → a.symbol table = b.symbol table → a = b)
    (hfits : ∀ a, Relevant a → (value a).Fits a.ty) :
    ∃ symbols : Symbol → Value, (∀ s, (symbols s).Fits s.ty) ∧
      ∀ a, Relevant a → symbols (a.symbol table) = value a := by
  classical
  refine ⟨fun s => if h : ∃ a, Relevant a ∧ a.symbol table = s then value h.choose else literalValue s.ty 0, ?_, ?_⟩
  · intro s
    dsimp only
    split
    · rename_i h
      obtain ⟨hrelevant, hsymbol⟩ := h.choose_spec
      have hty : h.choose.ty = s.ty := by rw [← Unknown.symbol_ty table, hsymbol]
      rw [← hty]
      exact hfits _ hrelevant
    · exact literalValue_fits (Ty.fits_zero _)
  · intro a ha
    have h : ∃ b, Relevant b ∧ b.symbol table = a.symbol table := ⟨a, ha, rfl⟩
    obtain ⟨hrelevant, hsymbol⟩ := h.choose_spec
    dsimp only
    rw [dif_pos h, hinj _ _ hrelevant ha hsymbol]

/-! ## The first match of a configuration -/

namespace Binding

def choice : Binding → Nat
  | direct _ ordinal _ => ordinal.toNat
  | profile _ => Symbol.profileChoice

def arguments : Binding → List Argument
  | direct _ _ arguments => arguments
  | profile _ => []

/-- The parameters are different ones, and every argument is a value of its type. -/
structure Consistent (action : Binding) : Prop where
  distinct : (action.arguments.map fun arg => (arg.param, arg.ty)).Nodup
  fits : ∀ arg ∈ action.arguments, arg.ty.fits arg.value

theorem choice_fits (action : Binding) : (Value.bits action.choice).Fits Symbol.choiceTy := by
  cases action with
  | direct action ordinal arguments => exact ordinal.toNat_lt
  | profile target =>
    show 2 ^ 32 - 1 < 2 ^ 32
    omega

/-- The symbols stand for what the binding fixes. -/
theorem holds_of_symbols {env : Assignment} {table : String} {binding : Binding}
    (hchoice : env.symbol (.actionChoice table) = some (.bits binding.choice))
    (hargs : ∀ action ordinal args, binding = .direct action ordinal args → ∀ arg ∈ args,
      env.symbol (.actionArgument table action arg.param arg.ty) = some (literalValue arg.ty arg.value)) :
    binding.Holds env table := by
  intro e he
  cases binding with
  | direct action ordinal arguments =>
    rcases List.mem_cons.mp he with rfl | he
    · exact (decides_eq (eval_symbol hchoice) rfl).holds_iff.mpr rfl
    · obtain ⟨arg, harg, rfl⟩ := List.mem_map.mp he
      have hs := hargs action ordinal arguments rfl arg harg
      exact (decides_eq (eval_symbol hs) (eval_literal ..)).holds_iff.mpr rfl
  | profile target =>
    obtain rfl := List.mem_singleton.mp he
    exact (decides_eq (eval_symbol hchoice) rfl).holds_iff.mpr rfl

end Binding

namespace Config

variable {config : Config} {packet : Assignment}

/-- What the table does with a packet: the binding of the first rule that matches or, where none
    does, the default binding. -/
theorem exists_chosen (config : Config) (packet : Assignment) :
    ∃ chosen : Option Binding, (∀ action, chosen = some action → action ∈ config.bindings) ∧
      (∀ i rule, config.FirstMatch packet i rule → chosen = some rule.action) ∧
      (config.Misses packet → chosen = config.defaultAction) := by
  by_cases hmiss : config.Misses packet
  · refine ⟨config.defaultAction, fun action ha => ?_, fun i rule hfirst => ?_, fun _ => rfl⟩
    · exact List.mem_append_right _ (by rw [ha]; exact List.mem_singleton_self _)
    · exact absurd hfirst.2.1 (hmiss rule (List.mem_of_getElem? hfirst.1))
  · have hex : ∃ rule ∈ config.rules, rule.Matches packet := by
      by_contra hnone
      exact hmiss fun rule hrule hmatch => hnone ⟨rule, hrule, hmatch⟩
    obtain ⟨rule, hrule, hmatch⟩ := hex
    obtain ⟨i, first, hfirst⟩ := exists_firstMatch hrule hmatch
    refine ⟨some first.action, fun action ha => ?_, fun j other hother => ?_, fun h => absurd h hmiss⟩
    · obtain rfl := Option.some.inj ha
      exact List.mem_append_left _ (List.mem_map_of_mem (List.mem_of_getElem? hfirst.1))
    · rw [hfirst.unique hother]

end Config

/-! ## The unknowns of a table that matter -/

namespace Table

/-- The keys of the table can be resolved for v1model, and their fields can be told apart. -/
structure Matchable (table : Table) : Prop where
  symbolFree : ∀ key ∈ table.keys, key.expr.symbols.toList = []
  supported : ∀ key ∈ table.keys, (Resolver.ofTarget .v1model).supports key.matchKind
  bits : ∀ key ∈ table.keys, key.matchKind ∈ bitKinds → key.ty ≠ .bool
  range : ∀ key ∈ table.keys, key.matchKind = "range" → 1 ≤ key.ty.width
  names : (table.keys.map Key.fieldName).Nodup
  plain : ∀ key ∈ table.keys, KeyPart.Plain key.fieldName

inductive Relevant (table : Table) (chosen : Option Binding) : Unknown → Prop
  | active : Relevant table chosen .active
  | actionChoice : Relevant table chosen .actionChoice
  | ofKey {key : Key} (part : KeyPart) : key ∈ table.keys → Relevant table chosen (.ofKey part key.fieldName key.ty)
  | selectorKey {key : Key} : key ∈ table.keys → Relevant table chosen (.selectorKey key.fieldName key.ty)
  | argument {action : String} {ordinal : UInt32} {args : List Argument} {arg : Argument} :
      chosen = some (.direct action ordinal args) → arg ∈ args →
      Relevant table chosen (.actionArgument action arg.param arg.ty)

variable {table : Table} {chosen : Option Binding} {packet : Assignment} {a b : Unknown} {key : Key}

theorem Relevant.plainKey (htable : table.Matchable) (h : table.Relevant chosen a) : a.PlainKey := by
  cases h with
  | active => trivial
  | actionChoice => trivial
  | ofKey part hkey => exact htable.plain _ hkey
  | selectorKey hkey => trivial
  | argument hchosen harg => trivial

theorem Relevant.chosen_eq {action param : String} {ty : Ty}
    (h : table.Relevant chosen (.actionArgument action param ty)) :
    ∃ ordinal args, chosen = some (.direct action ordinal args) := by
  cases h with
  | argument hchosen harg => exact ⟨_, _, hchosen⟩

/-- All arguments are of one action, so that those that are called the same, with the action in
    front, are for one parameter. -/
theorem Relevant.symbol_inj (htable : table.Matchable) (ha : table.Relevant chosen a)
    (hb : table.Relevant chosen b) (h : a.symbol table.name = b.symbol table.name) : a = b := by
  rcases Unknown.symbol_eq_cases (ha.plainKey htable) (hb.plainKey htable) h with
    heq | ⟨action, param, action', param', ty, rfl, rfl, hdotted⟩
  · exact heq
  · obtain ⟨ordinal, args, hchosen⟩ := ha.chosen_eq
    obtain ⟨ordinal', args', hchosen'⟩ := hb.chosen_eq
    have haction : action = action' := by
      rw [hchosen, Option.some.injEq, Binding.direct.injEq] at hchosen'
      exact hchosen'.1
    subst haction
    rw [(String.append_right_inj _).mp hdotted]

end Table

/-- The values of a key's symbols with which it matches: it is compared with itself, and a range
    is the full interval. -/
def Key.admitting (packet : Assignment) (key : Key) : KeyPart → Value
  | .value => (key.expr.eval packet).toOption.getD (literalValue key.ty 0)
  | .rangeHigh => literalValue key.ty key.ty.maxValue
  | .ternaryMask | .lpmPrefix | .rangeLow => literalValue key.ty 0

namespace Table

/-- The values of the unknowns with which the packet passes and the binding is invoked. -/
def admitting (table : Table) (packet : Assignment) (isActive : Bool) (chosen : Option Binding) : Unknown → Value
  | .active => .bool isActive
  | .actionChoice => .bits (chosen.elim 0 Binding.choice)
  | .ofKey part name ty =>
    (table.keys.find? (·.fieldName == name)).elim (literalValue ty 0) (·.admitting packet part)
  | .selectorKey name ty =>
    (table.keys.find? (·.fieldName == name)).elim (literalValue ty 0) (·.admitting packet .value)
  | .actionArgument _ param ty =>
    ((chosen.elim [] Binding.arguments).find? fun arg => (arg.param, arg.ty) == (param, ty)).elim
      (literalValue ty 0) fun arg => literalValue ty arg.value

variable {table : Table} {chosen : Option Binding} {packet : Assignment} {isActive : Bool} {key : Key}

theorem admitting_ofKey (htable : table.Matchable) (hkey : key ∈ table.keys) (part : KeyPart) :
    table.admitting packet isActive chosen (.ofKey part key.fieldName key.ty) = key.admitting packet part := by
  rw [admitting, find?_of_nodup Key.fieldName htable.names hkey]
  rfl

theorem admitting_selectorKey (htable : table.Matchable) (hkey : key ∈ table.keys) :
    table.admitting packet isActive chosen (.selectorKey key.fieldName key.ty) = key.admitting packet .value := by
  rw [admitting, find?_of_nodup Key.fieldName htable.names hkey]
  rfl

theorem admitting_argument {action : String} {ordinal : UInt32} {args : List Argument} {arg : Argument}
    (hconsistent : (Binding.direct action ordinal args).Consistent) (harg : arg ∈ args) :
    table.admitting packet isActive (some (.direct action ordinal args)) (.actionArgument action arg.param arg.ty) =
      literalValue arg.ty arg.value := by
  have hfind : args.find? (fun other => (other.param, other.ty) == (arg.param, arg.ty)) = some arg :=
    find?_of_nodup (fun arg : Argument => (arg.param, arg.ty)) hconsistent.distinct harg
  simp only [admitting, Option.elim_some, Binding.arguments, hfind]

end Table

/-! ## A packet passes -/

/-- The packet has a value of its type for every key, and every predicate of the entries is true or
    false of it. -/
structure Config.Reads (table : Table) (config : Config) (packet : Assignment) : Prop where
  keys : ∀ key ∈ table.keys, ∃ v, key.expr.eval packet = .ok v ∧ v.Fits key.ty
  entries : ∀ rule ∈ config.rules, ∀ e ∈ rule.keySet.values, ∃ b, e.evalBool packet = .ok b

section Passes

variable {table : Table} {chosen : Option Binding} {packet env : Assignment} {isActive : Bool} {key : Key}
  {a : Unknown} {v : Value}

theorem Key.admitting_value (h : key.expr.eval packet = .ok v) : key.admitting packet .value = v := by
  rw [admitting, h]
  rfl

theorem Key.admitting_fits (h : key.expr.eval packet = .ok v) (hfits : v.Fits key.ty) (part : KeyPart) :
    (key.admitting packet part).Fits key.ty := by
  cases part with
  | value =>
    rw [Key.admitting_value h]
    exact hfits
  | ternaryMask => exact literalValue_fits (Ty.fits_zero _)
  | lpmPrefix => exact literalValue_fits (Ty.fits_zero _)
  | rangeLow => exact literalValue_fits (Ty.fits_zero _)
  | rangeHigh => exact literalValue_fits (Ty.fits_maxValue _)

theorem Table.Relevant.admitting_fits (htable : table.Matchable)
    (hkeys : ∀ key ∈ table.keys, ∃ v, key.expr.eval packet = .ok v ∧ v.Fits key.ty)
    (hchosen : ∀ action, chosen = some action → action.Consistent) (h : table.Relevant chosen a) :
    (table.admitting packet isActive chosen a).Fits a.ty := by
  cases h with
  | active => trivial
  | actionChoice =>
    cases chosen with
    | none => exact literalValue_fits (Ty.fits_zero Symbol.choiceTy)
    | some action => exact action.choice_fits
  | ofKey part hkey =>
    obtain ⟨v, hv, hfits⟩ := hkeys _ hkey
    rw [admitting_ofKey htable hkey]
    exact Key.admitting_fits hv hfits part
  | selectorKey hkey =>
    obtain ⟨v, hv, hfits⟩ := hkeys _ hkey
    rw [admitting_selectorKey htable hkey]
    exact Key.admitting_fits hv hfits .value
  | argument hdirect harg =>
    have hconsistent := hchosen _ hdirect
    subst hdirect
    rw [admitting_argument hconsistent harg]
    exact literalValue_fits (hconsistent.fits _ harg)

theorem literalValue_bits {ty : Ty} {w n : Nat} (h : ty = .bits w) : literalValue ty n = .bits n := by
  rw [h]
  rfl

/-- A value under a mask is itself under the mask. -/
theorem holds_maskedPredicate {ctx : MatchContext} {mask : Term} {w m : Nat} (hty : ctx.ty = .bits w)
    (hfits : v.Fits ctx.ty) (hkey : ctx.expr.eval env = .ok v)
    (hvalue : env.symbol (.key ctx.table ctx.field ctx.ty) = some v) (hmask : mask.eval env = .ok (.bits m)) :
    (ctx.maskedPredicate mask).Holds env := by
  rw [hty] at hfits
  cases v with
  | bool b => cases hfits
  | bits k => exact (decides_maskedPredicate hkey hvalue hmask).holds_iff.mpr rfl

/-- A key matches where its symbols admit it. -/
theorem Resolves.holds {ctx : MatchContext} {e : Term} (h : Resolves ctx e) (htainted : ctx.tainted = false)
    (hkey : ctx.expr.eval env = .ok v) (hfits : v.Fits ctx.ty) (hvalue : ctx.key.admitting packet .value = v)
    (hwidth : ctx.key.matchKind = "range" → 1 ≤ ctx.ty.width)
    (hparts : ∀ part : KeyPart, env.symbol (part.symbol ctx.table ctx.field ctx.ty) = some (ctx.key.admitting packet part))
    (hselector : env.symbol (.selectorKey ctx.table ctx.field ctx.ty) = some v) : e.Holds env := by
  have hsymbol : env.symbol (.key ctx.table ctx.field ctx.ty) = some v := hvalue ▸ hparts .value
  cases h with
  | exact hkind => exact (decides_eq hkey (eval_symbol hsymbol)).holds_iff.mpr rfl
  | ternary hkind hty =>
    have hmask := hparts .ternaryMask
    rw [Key.admitting, literalValue_bits (show ctx.key.ty = _ from hty)] at hmask
    exact holds_maskedPredicate hty hfits hkey hsymbol (eval_symbol hmask)
  | lpm hkind hty =>
    have hlength := hparts .lpmPrefix
    rw [Key.admitting, literalValue_bits (show ctx.key.ty = _ from hty)] at hlength
    exact holds_maskedPredicate hty hfits hkey hsymbol (eval_lpmMask hty (Nat.zero_le _) hlength)
  | optional hkind =>
    rw [MatchContext.optionalPredicate, htainted, if_neg Bool.false_ne_true]
    exact (decides_eq hkey (eval_symbol hsymbol)).holds_iff.mpr rfl
  | selector hkind => exact (decides_eq hkey (eval_symbol hselector)).holds_iff.mpr rfl
  | range hkind hty =>
    have hlow := hparts .rangeLow
    have hhigh := hparts .rangeHigh
    rw [Key.admitting, literalValue_bits (show ctx.key.ty = _ from hty)] at hlow
    rw [Key.admitting, literalValue_bits (show ctx.key.ty = _ from hty)] at hhigh
    rw [MatchContext.rangePredicate, htainted, if_neg Bool.false_ne_true]
    exact holds_full_interval (hwidth hkind) (eval_symbol hlow) (eval_symbol hhigh) hty hfits hkey

/-- Every key is resolved to a predicate, which is true where the symbols are the admitting ones. -/
theorem exists_predicate_holds (htable : table.Matchable) (hkey : key ∈ table.keys)
    (hv : key.expr.eval packet = .ok v) (hfits : v.Fits key.ty) {symbols : Symbol → Value}
    (hsymbols : ∀ a, table.Relevant chosen a →
      symbols (a.symbol table.name) = table.admitting packet isActive chosen a) :
    ∃ e, (Resolver.ofTarget .v1model).predicate ⟨table.name, key, false⟩ = .ok e ∧
      e.Holds (packet.withSymbols symbols) := by
  obtain ⟨e, he⟩ := exists_resolves ⟨table.name, key, false⟩ (htable.supported key hkey) (htable.bits key hkey)
  have heval : key.expr.eval (packet.withSymbols symbols) = .ok v :=
    (Assignment.eval_withSymbols (htable.symbolFree key hkey)).trans hv
  have hparts : ∀ part : KeyPart,
      symbols (part.symbol table.name key.fieldName key.ty) = key.admitting packet part := by
    intro part
    rw [← Table.admitting_ofKey htable hkey]
    exact hsymbols _ (.ofKey part hkey)
  have hselector : symbols (.selectorKey table.name key.fieldName key.ty) = v := by
    rw [← Key.admitting_value hv, ← Table.admitting_selectorKey htable hkey]
    exact hsymbols _ (.selectorKey hkey)
  refine ⟨e, he.predicate_eq, he.holds rfl heval hfits (Key.admitting_value hv) (htable.range key hkey) ?_ ?_⟩
  · exact fun part => congrArg some (hparts part)
  · exact congrArg some hselector

/-- The table hits, if it is active. -/
theorem exists_hitCondition_holds (htable : table.Matchable)
    (hkeys : ∀ key ∈ table.keys, ∃ v, key.expr.eval packet = .ok v ∧ v.Fits key.ty)
    {symbols : Symbol → Value} (hactive : symbols (.active table.name) = .bool true)
    (hsymbols : ∀ a, table.Relevant chosen a →
      symbols (a.symbol table.name) = table.admitting packet isActive chosen a) :
    ∃ hit, (Resolver.ofTarget .v1model).hitCondition table (fun _ => false) = .ok hit ∧
      hit.Holds (packet.withSymbols symbols) := by
  have hresolved : ∀ key ∈ table.keys, ∃ e,
      (Resolver.ofTarget .v1model).predicate ⟨table.name, key, false⟩ = .ok e ∧
        e.Holds (packet.withSymbols symbols) := by
    intro key hkey
    obtain ⟨v, hv, hfits⟩ := hkeys key hkey
    exact exists_predicate_holds htable hkey hv hfits hsymbols
  obtain ⟨parts, hparts⟩ := mapM_settled fun key hkey => (hresolved key hkey).imp fun _ h => h.1
  refine ⟨.all (.symbol (.active table.name) :: parts), ?_, ?_⟩
  · simp only [Resolver.hitCondition, hparts]
    rfl
  · have hall : ∀ e ∈ Term.symbol (.active table.name) :: parts, e.Holds (packet.withSymbols symbols) := by
      intro e he
      rcases List.mem_cons.mp he with rfl | he
      · have hsymbol : (packet.withSymbols symbols).symbol (.active table.name) = some (.bool true) :=
          congrArg some hactive
        exact (decides_of_eval (eval_symbol hsymbol) Iff.rfl).holds_iff.mpr rfl
      · obtain ⟨key, hkey, hpredicate⟩ := (mem_of_mapM hparts).mp he
        obtain ⟨e', he', hholds⟩ := hresolved key hkey
        obtain rfl : e' = e := Except.ok.inj (he'.symm.trans hpredicate)
        exact hholds
    exact (Decides.all (P := Holds _) fun e he => decides_holds ⟨true, hall e he⟩).holds_iff.mpr hall

end Passes

namespace Config

variable {config : Config} {packet : Assignment} {symbols : Symbol → Value}

structure Consistent (config : Config) : Prop where
  symbolFree : ∀ rule ∈ config.rules, ∀ e ∈ rule.keySet.values, e.symbols.toList = []
  bindings : ∀ action ∈ config.bindings, action.Consistent

theorem matches_withSymbols {rule : Rule} (hconfig : config.Consistent) (hrule : rule ∈ config.rules) :
    rule.Matches (packet.withSymbols symbols) ↔ rule.Matches packet := by
  refine forall₂_congr fun e he => ?_
  rw [Holds, Assignment.evalBool_withSymbols (hconfig.symbolFree rule hrule e he), Holds]

theorem FirstMatch.of_withSymbols {i : Nat} {rule : Rule} (hconfig : config.Consistent)
    (h : config.FirstMatch (packet.withSymbols symbols) i rule) : config.FirstMatch packet i rule := by
  obtain ⟨hi, hmatch, hearlier⟩ := h
  refine ⟨hi, (matches_withSymbols hconfig (List.mem_of_getElem? hi)).mp hmatch, fun j hj earlier hearly => ?_⟩
  rw [← matches_withSymbols hconfig (List.mem_of_getElem? hearly)]
  exact hearlier j hj earlier hearly

theorem Misses.of_withSymbols (hconfig : config.Consistent) (h : config.Misses (packet.withSymbols symbols)) :
    config.Misses packet := by
  intro rule hrule
  rw [← matches_withSymbols hconfig hrule]
  exact h rule hrule

/-- The constraint is true where the active symbol says whether there are rules and the binding
    that the packet asks for holds. -/
theorem constraint_holds (hconfig : config.Consistent)
    (hentries : ∀ rule ∈ config.rules, ∀ e ∈ rule.keySet.values, ∃ b, e.evalBool packet = .ok b)
    (hactive : symbols (.active config.table) = .bool config.isActive)
    (hfirst : ∀ i rule, config.FirstMatch packet i rule →
      rule.action.Holds (packet.withSymbols symbols) config.table)
    (hdefault : config.Misses packet → ∀ action, config.defaultAction = some action →
      action.Holds (packet.withSymbols symbols) config.table) :
    config.constraint.Holds (packet.withSymbols symbols) := by
  have heval : config.Evaluable (packet.withSymbols symbols) := by
    refine ⟨fun rule hrule e he => ?_, ⟨_, rfl⟩, fun _ _ _ _ => ⟨_, rfl⟩⟩
    rw [Assignment.evalBool_withSymbols (hconfig.symbolFree rule hrule e he)]
    exact hentries rule hrule e he
  refine (Decides.all (P := Holds _) fun e he => decides_holds (constraint_settled heval e he)).holds_iff.mpr ?_
  rw [List.forall_mem_cons, List.forall_mem_append, forall_ruleConstraints heval, forall_defaultConstraints heval,
    (decides_activeConstraint heval).holds_iff]
  refine ⟨congrArg some hactive, fun i rule h => hfirst i rule (h.of_withSymbols hconfig), fun h => ?_⟩
  exact hdefault (h.of_withSymbols hconfig)

/-- For every packet that the keys and the entries of a table can be evaluated on there are symbols,
    each a value of its type, with which the constraint is true: the action choice and the arguments
    are those of the first entry that matches, or of the default action where none does. With the
    same symbols the table hits, where it has entries. -/
theorem admits_packet {table : Table} (htable : table.Matchable) (hname : config.table = table.name)
    (hconfig : config.Consistent) (hreads : config.Reads table packet) :
    ∃ symbols : Symbol → Value, (∀ s, (symbols s).Fits s.ty) ∧
      config.constraint.evalBool (packet.withSymbols symbols) = .ok true ∧
      (∀ i rule, config.FirstMatch packet i rule →
        rule.action.Holds (packet.withSymbols symbols) config.table) ∧
      (config.Misses packet → ∀ action, config.defaultAction = some action →
        action.Holds (packet.withSymbols symbols) config.table) ∧
      (config.rules ≠ [] → ∃ hit, (Resolver.ofTarget .v1model).hitCondition table (fun _ => false) = .ok hit ∧
        hit.evalBool (packet.withSymbols symbols) = .ok true) := by
  obtain ⟨chosen, hmember, hfirst, hdefault⟩ := exists_chosen config packet
  have hconsistent : ∀ action, chosen = some action → action.Consistent := fun action h =>
    hconfig.bindings action (hmember action h)
  obtain ⟨symbols, hfits, hsymbols⟩ := exists_symbols table.name (table.Relevant chosen)
    (table.admitting packet config.isActive chosen) (fun _ _ ha hb => ha.symbol_inj htable hb)
    (fun _ ha => ha.admitting_fits htable hreads.keys hconsistent)
  have hactive : symbols (.active table.name) = .bool config.isActive := hsymbols _ .active
  have hholds : ∀ action, chosen = some action → action.Holds (packet.withSymbols symbols) config.table := by
    intro action hchosen
    rw [hname]
    refine Binding.holds_of_symbols ?_ fun name ordinal args haction arg harg => ?_
    · exact congrArg some ((hsymbols _ .actionChoice).trans (by rw [hchosen]; rfl))
    · subst haction
      have hargument := hsymbols _ (.argument hchosen harg)
      subst hchosen
      rw [Table.admitting_argument (hconsistent _ rfl) harg] at hargument
      exact congrArg some hargument
  have hfirstHolds : ∀ i rule, config.FirstMatch packet i rule →
      rule.action.Holds (packet.withSymbols symbols) config.table := fun i rule h =>
    hholds rule.action (hfirst i rule h)
  have hdefaultHolds : config.Misses packet → ∀ action, config.defaultAction = some action →
      action.Holds (packet.withSymbols symbols) config.table := fun hmiss action h =>
    hholds action ((hdefault hmiss).trans h)
  refine ⟨symbols, hfits, ?_, hfirstHolds, hdefaultHolds, fun hrules => ?_⟩
  · exact constraint_holds hconfig hreads.entries (hname ▸ hactive) hfirstHolds hdefaultHolds
  · have htrue : config.isActive = true := by
      cases hrules' : config.rules with
      | nil => exact absurd hrules' hrules
      | cons rule rest => simp [isActive, hrules']
    rw [htrue] at hactive hsymbols
    exact exists_hitCondition_holds htable hreads.keys hactive hsymbols

def routeTable : Table where
  name := "ingress.route"
  keys := [⟨.field "hdr.ipv4.dst" (.bits 8), "lpm", none⟩, ⟨.field "meta.port" (.bits 16), "range", some "port"⟩,
    ⟨.field "meta.hash" (.bits 14), "selector", some "hash"⟩]
  actions := ["forward", "drop"]

/-- The prefix 0xa0/4 is forwarded, everything from port 80 up goes to a group, the rest is dropped. -/
def routes : Config where
  table := "ingress.route"
  rules := [
    { keySet := .ofList [("hdr.ipv4.dst", Predicate.lpm (.field "hdr.ipv4.dst" (.bits 8)) (.bits 8) 0xa7 4)]
      action := .direct "forward" 0 [⟨"port", .bits 9, 3⟩, ⟨"class", .bits 4, 3⟩] },
    { keySet := .ofList [("port", Predicate.range (.field "meta.port" (.bits 16)) (.bits 16) 80 65535)]
      action := .profile (.group 1) }]
  defaultAction := some (.direct "drop" 1 [])

def routedPacket : Assignment :=
  ((Assignment.empty.setField "hdr.ipv4.dst" (.bits 0xa3)).setField "meta.port" (.bits 65535)).setField "meta.hash"
    (.bits 5)

theorem routeTable_matchable : routeTable.Matchable :=
  ⟨by decide, by decide, by decide, by decide, by decide, by decide⟩

theorem routes_consistent : routes.Consistent := by
  refine ⟨by decide, fun action haction => ⟨?_, ?_⟩⟩
  · revert action
    decide
  · revert action
    decide

theorem routes_reads : routes.Reads routeTable routedPacket := by
  constructor
  · intro key hkey
    simp only [routeTable, List.mem_cons, List.not_mem_nil, or_false] at hkey
    rcases hkey with rfl | rfl | rfl
    · exact ⟨.bits 0xa3, rfl, by decide⟩
    · exact ⟨.bits 65535, rfl, by decide⟩
    · exact ⟨.bits 5, rfl, by decide⟩
  · intro rule hrule e he
    simp only [routes, List.mem_cons, List.not_mem_nil, or_false] at hrule
    rcases hrule with rfl | rfl
    · obtain rfl := List.mem_singleton.mp he
      exact ⟨true, rfl⟩
    · obtain rfl := List.mem_singleton.mp he
      exact ⟨true, rfl⟩

theorem admits_packet_route :
    routeTable.Matchable ∧ routes.table = routeTable.name ∧ routes.Consistent ∧
      routes.Reads routeTable routedPacket ∧ ∃ symbols : Symbol → Value,
        routes.constraint.evalBool (routedPacket.withSymbols symbols) = .ok true ∧
        ∃ hit, (Resolver.ofTarget .v1model).hitCondition routeTable (fun _ => false) = .ok hit ∧
          hit.evalBool (routedPacket.withSymbols symbols) = .ok true := by
  refine ⟨routeTable_matchable, rfl, routes_consistent, routes_reads, ?_⟩
  obtain ⟨symbols, -, hconstraint, -, -, hhit⟩ :=
    admits_packet routeTable_matchable rfl routes_consistent routes_reads
  exact ⟨symbols, hconstraint, hhit (by decide)⟩

end Config

end MatchAction
