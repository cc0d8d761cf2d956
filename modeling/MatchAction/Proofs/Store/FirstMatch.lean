/-
  MatchAction.Proofs.Store.FirstMatch — what the constraint of a table says.

  The constraint lists one implication for each rule, and each repeats the conditions of
  all rules before it. Read rule by rule it says that the first rule whose keys match
  decides what the table does, and the default action only where no rule matches; the
  rules after the first match and the default ask for nothing.

  Proved: the constraint evaluates without an error wherever the key predicates do and the
  table's symbols are bound, and it is true exactly when
  - the active symbol says whether there are rules,
  - the binding of the first rule that matches holds, and
  - the default binding, if any, holds where no rule matches.
-/

import MatchAction.Proofs.Term.Decides
import MatchAction.Store.Config

namespace MatchAction

variable {env : Assignment}

/-! ## What bindings and rules say -/

def Binding.symbols (table : String) : Binding → List Symbol
  | direct action _ arguments =>
    .actionChoice table :: arguments.map fun arg => .actionArgument table action arg.param arg.ty
  | profile _ => [.actionChoice table]

def Binding.Holds (env : Assignment) (table : String) (action : Binding) : Prop :=
  ∀ e ∈ action.equalities table, e.Holds env

def Rule.Matches (env : Assignment) (rule : Rule) : Prop := ∀ e ∈ rule.keySet.values, e.Holds env

theorem Binding.equality_settled {table : String} {action : Binding}
    (h : ∀ s ∈ action.symbols table, ∃ v, env.symbol s = some v) :
    ∀ e ∈ action.equalities table, ∃ b, e.evalBool env = .ok b := by
  intro e he
  cases action with
  | direct action ordinal arguments =>
    rcases List.mem_cons.mp he with rfl | he
    · obtain ⟨v, hv⟩ := h _ (List.mem_cons_self ..)
      exact (Term.decides_eq (Term.eval_symbol hv) rfl).settled
    · obtain ⟨arg, harg, rfl⟩ := List.mem_map.mp he
      obtain ⟨v, hv⟩ := h _ (List.mem_cons_of_mem _ (List.mem_map.mpr ⟨arg, harg, rfl⟩))
      exact (Term.decides_eq (Term.eval_symbol hv) (Term.eval_literal ..)).settled
  | profile target =>
    obtain rfl := List.mem_singleton.mp he
    obtain ⟨v, hv⟩ := h _ (List.mem_cons_self ..)
    exact (Term.decides_eq (Term.eval_symbol hv) rfl).settled

theorem Binding.decides_equalities {table : String} {action : Binding}
    (h : ∀ s ∈ action.symbols table, ∃ v, env.symbol s = some v) :
    (Term.all (action.equalities table)).Decides env (action.Holds env table) :=
  Term.Decides.all fun e he => Term.decides_holds (Binding.equality_settled h e he)

theorem Rule.decides_condition {rule : Rule} (h : ∀ e ∈ rule.keySet.values, ∃ b, e.evalBool env = .ok b) :
    rule.condition.Decides env (rule.Matches env) :=
  Term.Decides.all fun e he => Term.decides_holds (h e he)

namespace Config

/-! ## The constraint, rule by rule -/

theorem getElem?_ruleConstraints (table : String) (earlier : List Term) (rules : List Rule) (i : Nat) :
    (ruleConstraints table earlier rules)[i]? = rules[i]?.map fun rule =>
      .implies (afterMisses (earlier ++ (rules.take i).map Rule.condition) [rule.condition])
        (.all (rule.action.equalities table)) := by
  induction rules generalizing earlier i with
  | nil => rfl
  | cons rule rest ih =>
    cases i with
    | zero => simp [ruleConstraints]
    | succ i => simp [ruleConstraints, ih]

theorem mem_ruleConstraints {table : String} {rules : List Rule} {e : Term} :
    e ∈ ruleConstraints table [] rules ↔ ∃ i rule, rules[i]? = some rule ∧
      .implies (afterMisses ((rules.take i).map Rule.condition) [rule.condition])
        (.all (rule.action.equalities table)) = e := by
  simp only [List.mem_iff_getElem?, getElem?_ruleConstraints, Option.map_eq_some_iff, List.nil_append]

def bindings (config : Config) : List Binding := config.rules.map (·.action) ++ config.defaultAction.toList

/-- Every key predicate evaluates to a boolean, and the symbols of the table are bound. -/
structure Evaluable (config : Config) (env : Assignment) : Prop where
  keys : ∀ rule ∈ config.rules, ∀ e ∈ rule.keySet.values, ∃ b, e.evalBool env = .ok b
  active : ∃ v, env.symbol (.active config.table) = some v
  symbols : ∀ action ∈ config.bindings, ∀ s ∈ action.symbols config.table, ∃ v, env.symbol s = some v

/-- The keys of the rule at `i` match, and those of no rule before it. -/
def FirstMatch (config : Config) (env : Assignment) (i : Nat) (rule : Rule) : Prop :=
  config.rules[i]? = some rule ∧ rule.Matches env ∧
    ∀ j < i, ∀ earlier, config.rules[j]? = some earlier → ¬earlier.Matches env

def Misses (config : Config) (env : Assignment) : Prop := ∀ rule ∈ config.rules, ¬rule.Matches env

theorem decides_afterMisses {rules : List Rule} {rest : List Term}
    (hrules : ∀ rule ∈ rules, ∀ e ∈ rule.keySet.values, ∃ b, e.evalBool env = .ok b)
    (hrest : ∀ e ∈ rest, ∃ b, e.evalBool env = .ok b) :
    (afterMisses (rules.map Rule.condition) rest).Decides env
      ((∀ rule ∈ rules, ¬rule.Matches env) ∧ ∀ e ∈ rest, e.Holds env) := by
  have hmiss : ∀ rule ∈ rules, (Term.not rule.condition).Decides env (¬rule.Matches env) := fun rule hr =>
    (Rule.decides_condition (hrules rule hr)).not
  refine (Term.Decides.all (P := Term.Holds env) fun e he => ?_).congr ?_
  · rcases List.mem_append.mp he with he | he
    · obtain ⟨_, hc, rfl⟩ := List.mem_map.mp he
      obtain ⟨rule, hr, rfl⟩ := List.mem_map.mp hc
      exact Term.decides_holds (hmiss rule hr).settled
    · exact Term.decides_holds (hrest e he)
  · simp only [List.forall_mem_append, List.forall_mem_map]
    exact and_congr_left' (forall₂_congr fun rule hr => (hmiss rule hr).holds_iff)

theorem mem_take_iff {rules : List Rule} {i : Nat} {rule : Rule} :
    rule ∈ rules.take i ↔ ∃ j < i, rules[j]? = some rule := by
  simp only [List.mem_iff_getElem?, List.getElem?_take]
  constructor
  · intro ⟨j, hj⟩
    split at hj
    · exact ⟨j, ‹_›, hj⟩
    · cases hj
  · intro ⟨j, hji, hj⟩
    exact ⟨j, by rw [if_pos hji]; exact hj⟩

/-- The implication of the rule at `i`: if it is the first to match, its binding holds. -/
theorem decides_ruleConstraint {config : Config} (h : config.Evaluable env) {i : Nat} {rule : Rule}
    (hi : config.rules[i]? = some rule) :
    (Term.implies (afterMisses ((config.rules.take i).map Rule.condition) [rule.condition])
      (.all (rule.action.equalities config.table))).Decides env
      (config.FirstMatch env i rule → rule.action.Holds env config.table) := by
  have hmem : rule ∈ config.rules := List.mem_of_getElem? hi
  have hcond := Rule.decides_condition (h.keys rule hmem)
  have hfires := decides_afterMisses
    (fun r (hr : r ∈ config.rules.take i) => h.keys r (List.mem_of_mem_take hr))
    (List.forall_mem_singleton.mpr hcond.settled)
  have haction := Binding.decides_equalities
    (h.symbols rule.action (List.mem_append_left _ (List.mem_map_of_mem hmem)))
  refine (hfires.implies haction).congr (imp_congr_left ?_)
  simp only [FirstMatch, hi, true_and, List.forall_mem_singleton, hcond.holds_iff, mem_take_iff]
  constructor
  · intro ⟨hmiss, hmatch⟩
    exact ⟨hmatch, fun j hj r hr => hmiss r ⟨j, hj, hr⟩⟩
  · intro ⟨hmatch, hmiss⟩
    exact ⟨fun r ⟨j, hj, hr⟩ => hmiss j hj r hr, hmatch⟩

theorem forall_ruleConstraints {config : Config} (h : config.Evaluable env) :
    (∀ e ∈ ruleConstraints config.table [] config.rules, e.Holds env) ↔
      ∀ i rule, config.FirstMatch env i rule → rule.action.Holds env config.table := by
  simp only [mem_ruleConstraints]
  constructor
  · intro hall i rule hfirst
    exact (decides_ruleConstraint h hfirst.1).holds_iff.mp (hall _ ⟨i, rule, hfirst.1, rfl⟩) hfirst
  · rintro hall e ⟨i, rule, hi, rfl⟩
    exact (decides_ruleConstraint h hi).holds_iff.mpr (hall i rule)

theorem decides_activeConstraint {config : Config} (h : config.Evaluable env) :
    config.activeConstraint.Decides env (env.symbol (.active config.table) = some (.bool config.isActive)) := by
  obtain ⟨v, hv⟩ := h.active
  refine (Term.decides_eq (Term.eval_symbol hv) rfl).congr ?_
  rw [hv, Option.some.injEq]

/-- If no rule matches, the default binding holds. -/
theorem decides_defaultConstraint {config : Config} (h : config.Evaluable env) {action : Binding}
    (ha : config.defaultAction = some action) :
    (Term.implies (afterMisses (config.rules.map Rule.condition) [])
      (.all (action.equalities config.table))).Decides env
      (config.Misses env → action.Holds env config.table) := by
  have haction := Binding.decides_equalities
    (h.symbols action (List.mem_append_right _ (by rw [ha]; exact List.mem_singleton_self _)))
  refine ((decides_afterMisses h.keys (List.forall_mem_nil _)).implies haction).congr (imp_congr_left ?_)
  exact and_iff_left (List.forall_mem_nil _)

theorem mem_defaultConstraints {config : Config} {e : Term} :
    e ∈ config.defaultConstraints ↔ ∃ action, config.defaultAction = some action ∧
      .implies (afterMisses (config.rules.map Rule.condition) []) (.all (action.equalities config.table)) = e := by
  unfold defaultConstraints
  cases config.defaultAction with
  | none => simp
  | some action => simp [eq_comm]

theorem forall_defaultConstraints {config : Config} (h : config.Evaluable env) :
    (∀ e ∈ config.defaultConstraints, e.Holds env) ↔
      (config.Misses env → ∀ action, config.defaultAction = some action → action.Holds env config.table) := by
  simp only [mem_defaultConstraints]
  constructor
  · intro hall hmiss action ha
    exact (decides_defaultConstraint h ha).holds_iff.mp (hall _ ⟨action, ha, rfl⟩) hmiss
  · rintro hall e ⟨action, ha, rfl⟩
    exact (decides_defaultConstraint h ha).holds_iff.mpr fun hmiss => hall hmiss action ha

theorem constraint_settled {config : Config} (h : config.Evaluable env) :
    ∀ e ∈ config.activeConstraint ::
      (ruleConstraints config.table [] config.rules ++ config.defaultConstraints), ∃ b, e.evalBool env = .ok b := by
  simp only [List.forall_mem_cons, List.forall_mem_append, mem_ruleConstraints, mem_defaultConstraints]
  refine ⟨(decides_activeConstraint h).settled, ?_, ?_⟩
  · rintro e ⟨i, rule, hi, rfl⟩
    exact (decides_ruleConstraint h hi).settled
  · rintro e ⟨action, ha, rfl⟩
    exact (decides_defaultConstraint h ha).settled

/-- The constraint always evaluates, and to true exactly when the active symbol says whether
    there are rules, the binding of the first matching rule holds, and where no rule matches
    the default binding holds. -/
theorem first_match_wins {config : Config} (h : config.Evaluable env) :
    ∃ b, config.constraint.evalBool env = .ok b ∧
      (b = true ↔
        env.symbol (.active config.table) = some (.bool (!config.rules.isEmpty)) ∧
        (∀ i rule, config.FirstMatch env i rule → rule.action.Holds env config.table) ∧
        (config.Misses env → ∀ action, config.defaultAction = some action →
          action.Holds env config.table)) := by
  refine (Term.Decides.all (P := Term.Holds env) fun e he =>
    Term.decides_holds (constraint_settled h e he)).congr ?_
  rw [List.forall_mem_cons, List.forall_mem_append, forall_ruleConstraints h, forall_defaultConstraints h]
  exact and_congr_left' (decides_activeConstraint h).holds_iff

/-- Port 5 is permitted; anything else is marked by the second rule, which the third repeats. -/
def overlapping : Config where
  table := "acl"
  rules := [
    { keySet := (∅ : KeySet).insert "port" (.eq (.field "port" (.bits 8)) (.constant (.bits 8) 5))
      action := .direct "permit" 0 [] },
    { keySet := ∅, action := .direct "mark" 1 [⟨"class", .bits 4, 3⟩] },
    { keySet := ∅, action := .profile (.member 7) }]
  defaultAction := some (.direct "drop" 2 [])

def markedPacket : Assignment :=
  (((Assignment.empty.setField "port" (.bits 7)).setSymbol (.active "acl") (.bool true)).setSymbol
    (.actionChoice "acl") (.bits 1)).setSymbol (.actionArgument "acl" "mark" "class" (.bits 4)) (.bits 3)

theorem overlapping_evaluable : overlapping.Evaluable markedPacket := by
  have hsymbols : ∀ action ∈ overlapping.bindings, ∀ s ∈ action.symbols overlapping.table,
      (markedPacket.symbol s).isSome := by decide
  refine ⟨?_, ⟨_, rfl⟩, fun action ha s hs => Option.isSome_iff_exists.mp (hsymbols action ha s hs)⟩
  intro rule hr e he
  simp only [overlapping, List.mem_cons, List.not_mem_nil, or_false] at hr
  rcases hr with rfl | rfl | rfl
  · obtain rfl := List.mem_singleton.mp he
    exact ⟨_, rfl⟩
  · cases he
  · cases he

theorem first_match_wins_overlapping :
    overlapping.Evaluable markedPacket ∧ overlapping.constraint.evalBool markedPacket = .ok true ∧
      (Binding.direct "mark" 1 [⟨"class", .bits 4, 3⟩]).Holds markedPacket "acl" := by
  have htrue : overlapping.constraint.evalBool markedPacket = .ok true := by rfl
  obtain ⟨b, hb, hiff⟩ := first_match_wins overlapping_evaluable
  refine ⟨overlapping_evaluable, htrue, ?_⟩
  obtain rfl : true = b := by rw [htrue] at hb; exact Except.ok.inj hb
  obtain ⟨-, hfirst, -⟩ := hiff.mp rfl
  refine hfirst 1 _ ⟨rfl, List.forall_mem_nil _, ?_⟩
  intro j hj earlier hearlier hmatch
  obtain rfl : j = 0 := by omega
  obtain rfl := Option.some.inj hearlier
  have : (Except.ok false : Except EvalError Bool) = .ok true := hmatch _ (List.mem_singleton_self _)
  cases this

end Config

end MatchAction
