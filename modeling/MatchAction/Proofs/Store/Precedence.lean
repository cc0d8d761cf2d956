/-
  MatchAction.Proofs.Store.Precedence — what is put after a rule that matches asks for nothing.

  A configuration continues an earlier one if it starts with the rules of that one; whatever
  is merged into a store continues what the store held. Where one of the earlier rules
  matches, the implication of every later rule and that of the default have a false premise.
  They are true before their conclusions are evaluated, and before the conditions of the
  later rules are, so that nothing has to be known of what was added.

  Proved:
  - `exists_continues`: merging a store continues its tables.
  - `exists_firstMatch`: where a rule matches, one is the first.
  - `Continues.decides`: the constraint of the later configuration says that the table is active
    and that the first match among the earlier rules has its binding.
  - `evaluable_of_bound`: where the later constraint is bound, the earlier rules evaluate.
-/

import Mathlib.Data.Nat.Find
import MatchAction.Proofs.Store.FirstMatch
import MatchAction.Proofs.Store.Lookup
import MatchAction.Proofs.Term.Formula
import MatchAction.Proofs.Term.Scan

namespace MatchAction

variable {env : Assignment} {config earlier : Config}

open Term

namespace Config

/-- The rules of `config` start with those of `earlier`, and it is for the same table. -/
structure Continues (config earlier : Config) : Prop where
  table : config.table = earlier.table
  rules : earlier.rules <+: config.rules

theorem Continues.refl (config : Config) : config.Continues config := ⟨rfl, List.prefix_rfl⟩

theorem continues_append (earlier later : Config) : (earlier.append later).Continues earlier :=
  ⟨rfl, List.prefix_append ..⟩

end Config

theorem Store.exists_continues {store : Store} {name : String} (h : store.table? name = some earlier) (later : Store) :
    ∃ config, (store.merge later).table? name = some config ∧ config.Continues earlier := by
  rw [table?_merge, h]
  cases later.table? name with
  | none => exact ⟨earlier, rfl, .refl earlier⟩
  | some added => exact ⟨earlier.append added, rfl, Config.continues_append earlier added⟩

namespace Config

/-! ## The first match -/

theorem exists_firstMatch {rule : Rule} (hrule : rule ∈ config.rules) (hmatch : rule.Matches env) :
    ∃ i first, config.FirstMatch env i first := by
  classical
  have hex : ∃ i : Nat, ∃ first : Rule, config.rules[i]? = some first ∧ first.Matches env := by
    obtain ⟨i, hi⟩ := List.mem_iff_getElem?.mp hrule
    exact ⟨i, rule, hi, hmatch⟩
  obtain ⟨first, hfirst, hmatches⟩ := Nat.find_spec hex
  exact ⟨Nat.find hex, first, hfirst, hmatches, fun j hj other hother hmatch =>
    Nat.find_min hex hj ⟨other, hother, hmatch⟩⟩

theorem FirstMatch.unique {i j : Nat} {first other : Rule} (h : config.FirstMatch env i first)
    (hother : config.FirstMatch env j other) : first = other := by
  obtain ⟨hi, hmatch, hmiss⟩ := h
  obtain ⟨hj, hmatch', hmiss'⟩ := hother
  rcases Nat.lt_trichotomy i j with hlt | rfl | hlt
  · exact absurd hmatch (hmiss' i hlt first hi)
  · exact Option.some.inj (hi.symm.trans hj)
  · exact absurd hmatch' (hmiss j hlt other hj)

/-! ## After a match -/

theorem ruleConstraints_append (table : String) (conditions : List Term) (front back : List Rule) :
    ruleConstraints table conditions (front ++ back) =
      ruleConstraints table conditions front ++
        ruleConstraints table (conditions ++ front.map Rule.condition) back := by
  induction front generalizing conditions with
  | nil => simp [ruleConstraints]
  | cons rule rest ih => simp [ruleConstraints, ih]

section

variable {front : List Rule} (hkeys : ∀ rule ∈ front, ∀ e ∈ rule.keySet.values, ∃ b, e.evalBool env = .ok b)
  (hmatch : ∃ rule ∈ front, rule.Matches env)

include hkeys hmatch

/-- The premise is false, whatever else it asks for. -/
theorem afterMisses_of_match (more rest : List Term) :
    (afterMisses (front.map Rule.condition ++ more) rest).evalBool env = .ok false := by
  obtain ⟨rule, hrule, hmatch⟩ := hmatch
  obtain ⟨b, hb, hiff⟩ := decides_afterMisses hkeys (List.forall_mem_nil _)
  have hfalse : b = false := by
    rw [← Bool.not_eq_true]
    exact fun htrue => (hiff.mp htrue).1 rule hrule hmatch
  rw [hfalse, afterMisses, List.append_nil] at hb
  rw [afterMisses, List.map_append, List.append_assoc]
  exact evalBool_all_append_of_false hb _

theorem ruleConstraints_of_match (table : String) (more : List Term) (back : List Rule) :
    ∀ e ∈ ruleConstraints table (front.map Rule.condition ++ more) back, e.Holds env := by
  induction back generalizing more with
  | nil => exact List.forall_mem_nil _
  | cons rule rest ih =>
    refine List.forall_mem_cons.mpr ⟨?_, ?_⟩
    · exact evalBool_implies_of_false (afterMisses_of_match hkeys hmatch more _) _
    · rw [List.append_assoc]
      exact ih _

theorem defaultConstraints_of_match {back : List Rule} (hrules : front ++ back = config.rules) :
    ∀ e ∈ config.defaultConstraints, e.Holds env := by
  intro e he
  obtain ⟨action, -, rfl⟩ := mem_defaultConstraints.mp he
  rw [← hrules, List.map_append]
  exact evalBool_implies_of_false (afterMisses_of_match hkeys hmatch _ _) _

end

/-- With a rule among the earlier ones the table is active. -/
theorem Continues.decides_active (h : config.Continues earlier)
    (hactive : ∃ v, env.symbol (.active earlier.table) = some v) {rule : Rule} (hrule : rule ∈ earlier.rules) :
    config.activeConstraint.Decides env (env.symbol (.active earlier.table) = some (.bool true)) := by
  have hrules : config.isActive = true := by
    have hmem : rule ∈ config.rules := h.rules.subset hrule
    rw [isActive, Bool.not_eq_true', List.isEmpty_eq_false_iff]
    exact List.ne_nil_of_mem hmem
  obtain ⟨v, hv⟩ := hactive
  rw [activeConstraint, h.table, hrules]
  refine (decides_eq (eval_symbol hv) rfl).congr ?_
  rw [hv, Option.some.injEq]

/-- Nothing but the first match among the earlier rules matters, not even their default. -/
theorem Continues.decides (h : config.Continues earlier)
    (heval : { earlier with defaultAction := none }.Evaluable env) {i : Nat} {first : Rule}
    (hfirst : earlier.FirstMatch env i first) :
    config.constraint.Decides env
      (env.symbol (.active earlier.table) = some (.bool true) ∧ first.action.Holds env earlier.table) := by
  obtain ⟨back, hrules⟩ := h.rules
  have hmem : first ∈ earlier.rules := List.mem_of_getElem? hfirst.1
  have hmatch : ∃ rule ∈ earlier.rules, rule.Matches env := ⟨first, hmem, hfirst.2.1⟩
  have hactive := h.decides_active heval.active hmem
  have hfront : (∀ e ∈ ruleConstraints earlier.table [] earlier.rules, e.Holds env) ↔
      first.action.Holds env earlier.table := by
    refine (forall_ruleConstraints heval).trans ⟨fun hall => hall i first hfirst, fun hholds j other hother => ?_⟩
    exact FirstMatch.unique hfirst hother ▸ hholds
  have hback : ∀ e ∈ ruleConstraints earlier.table (earlier.rules.map Rule.condition) back, e.Holds env := by
    have := ruleConstraints_of_match heval.keys hmatch earlier.table [] back
    rwa [List.append_nil] at this
  have hdefault := defaultConstraints_of_match heval.keys hmatch hrules
  rw [constraint, h.table, ← hrules, ruleConstraints_append, List.nil_append]
  -- every member evaluates, the later ones because their premises are false; so only the front is left to say
  refine (Decides.all (P := Holds env) fun e he => decides_holds ?_).congr ?_
  · rcases List.mem_cons.mp he with rfl | he
    · exact hactive.settled
    rcases List.mem_append.mp he with he | he
    · rcases List.mem_append.mp he with he | he
      · obtain ⟨j, rule, hj, rfl⟩ := mem_ruleConstraints.mp he
        exact (decides_ruleConstraint heval hj).settled
      · exact ⟨true, hback e he⟩
    · exact ⟨true, hdefault e he⟩
  · rw [List.forall_mem_cons, List.forall_mem_append, List.forall_mem_append, hactive.holds_iff, hfront]
    exact and_congr_right' ((and_iff_left hdefault).trans (and_iff_left hback))

end Config

/-! ## Where the earlier rules evaluate -/

theorem Binding.symbols_of_bound {table : String} {action : Binding}
    (h : ∀ e ∈ action.equalities table, e.Bound env) : ∀ s ∈ action.symbols table, ∃ v, env.symbol s = some v := by
  have hleft : ∀ {s e}, (Term.eq (.symbol s) e).Bound env → ∃ v, env.symbol s = some v := fun hbound =>
    hbound.1.imp fun _ hv => hv.1
  cases action with
  | direct action ordinal arguments =>
    obtain ⟨hchoice, harguments⟩ := List.forall_mem_cons.mp h
    refine List.forall_mem_cons.mpr ⟨hleft hchoice, List.forall_mem_map.mpr fun arg harg => ?_⟩
    exact hleft (List.forall_mem_map.mp harguments arg harg)
  | profile target =>
    exact List.forall_mem_singleton.mpr (hleft (List.forall_mem_singleton.mp h))

namespace Config

/-- Everything that a rule says is part of the constraint. -/
theorem bound_rule (h : config.constraint.Bound env) {rule : Rule} (hrule : rule ∈ config.rules) :
    (∀ e ∈ rule.keySet.values, e.Bound env) ∧ ∀ e ∈ rule.action.equalities config.table, e.Bound env := by
  obtain ⟨i, hi⟩ := List.mem_iff_getElem?.mp hrule
  have hmem : _ ∈ ruleConstraints config.table [] config.rules := mem_ruleConstraints.mpr ⟨i, rule, hi, rfl⟩
  obtain ⟨hpremise, hconclusion⟩ := bound_all.mp h _ (List.mem_cons_of_mem _ (List.mem_append_left _ hmem))
  have hcondition := bound_all.mp hpremise _ (List.mem_append_right _ (List.mem_singleton_self _))
  exact ⟨bound_all.mp hcondition, bound_all.mp hconclusion⟩

/-- Whatever was added, the constraint is bound only where the earlier rules are. -/
theorem Continues.evaluable (h : config.Continues earlier) (hbound : config.constraint.Bound env)
    (hformula : ∀ rule ∈ earlier.rules, ∀ e ∈ rule.keySet.values, e.Formula) :
    { earlier with defaultAction := none }.Evaluable env := by
  have hrule : ∀ rule ∈ earlier.rules, rule ∈ config.rules := fun _ hrule => h.rules.subset hrule
  constructor
  · intro rule hr e he
    exact (hformula rule hr e he).settled ((bound_rule hbound (hrule rule hr)).1 e he)
  · have hactive : config.activeConstraint.Bound env := bound_all.mp hbound _ (List.mem_cons_self ..)
    obtain ⟨v, hv, -⟩ := hactive.1
    exact ⟨v, h.table ▸ hv⟩
  · intro action haction
    rw [bindings, Option.toList_none, List.append_nil] at haction
    obtain ⟨rule, hr, rfl⟩ := List.mem_map.mp haction
    exact Binding.symbols_of_bound (h.table ▸ (bound_rule hbound (hrule rule hr)).2)

end Config

end MatchAction
