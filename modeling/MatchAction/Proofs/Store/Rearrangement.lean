/-
  MatchAction.Proofs.Store.Rearrangement — rules in another order, and rules that decide nothing.

  For one packet a configuration comes down to the binding in force: that of the first rule
  that matches, or else the default. So a rule may be moved past every rule that does not match
  together with it, and a rule that does not match, or stands behind one that does, may be taken
  out. The constraint also says whether the table has rules at all, so the last rule has to stay.

  Proved, for a packet under which the configuration evaluates:
  - `decides_inForce`: the constraint says that the table is as active as it has rules and that
    the binding in force holds.
  - `Reordered.inForce_eq`, `Idle.inForce_eq`: neither a reordering in which no two rules that
    match change places nor the removal of an idle rule changes what is in force.
  - `constraint_rearranged`: so neither changes the value of the constraint.
-/

import Mathlib.Data.Fin.VecNotation
import MatchAction.Proofs.Lists
import MatchAction.Proofs.Store.FirstMatch

namespace MatchAction

variable {env : Assignment} {config : Config} {rules : List Rule}

instance (env : Assignment) (rule : Rule) : Decidable (rule.Matches env) :=
  inferInstanceAs (Decidable (∀ e ∈ rule.keySet.values, e.evalBool env = .ok true))

namespace Config

/-! ## The binding in force -/

/-- The binding of the first rule that matches, or else the default. -/
def inForce (config : Config) (env : Assignment) : Option Binding :=
  ((config.rules.find? (·.Matches env)).map (·.action)).or config.defaultAction

theorem FirstMatch.find?_eq {i : Nat} {rule : Rule} (h : config.FirstMatch env i rule) :
    config.rules.find? (·.Matches env) = some rule := by
  obtain ⟨hi, hmatch, hmiss⟩ := h
  obtain ⟨hlt, hget⟩ := List.getElem?_eq_some_iff.mp hi
  refine List.find?_eq_some_iff_getElem.mpr ⟨decide_eq_true hmatch, i, hlt, hget, fun j hj => ?_⟩
  have hearlier := hmiss j hj _ (List.getElem?_eq_getElem (Nat.lt_trans hj hlt))
  simpa using hearlier

theorem exists_firstMatch_of_find? {rule : Rule} (h : config.rules.find? (·.Matches env) = some rule) :
    ∃ i, config.FirstMatch env i rule := by
  obtain ⟨hmatch, i, hlt, hget, hmiss⟩ := List.find?_eq_some_iff_getElem.mp h
  refine ⟨i, List.getElem?_eq_some_iff.mpr ⟨hlt, hget⟩, of_decide_eq_true hmatch, fun j hj earlier hearlier => ?_⟩
  obtain ⟨-, rfl⟩ := List.getElem?_eq_some_iff.mp hearlier
  simpa using hmiss j hj

theorem misses_iff : config.Misses env ↔ config.rules.find? (·.Matches env) = none := by
  simp [Misses, List.find?_eq_none]

/-- The first match and the default together ask for what is in force. -/
theorem inForce_holds_iff :
    (∀ action, config.inForce env = some action → action.Holds env config.table) ↔
      (∀ i rule, config.FirstMatch env i rule → rule.action.Holds env config.table) ∧
        (config.Misses env → ∀ action, config.defaultAction = some action → action.Holds env config.table) := by
  unfold inForce
  rw [misses_iff]
  cases hfind : config.rules.find? (·.Matches env) with
  | none =>
    have hnone : ∀ i rule, ¬config.FirstMatch env i rule := fun i rule hfirst => by
      rw [hfirst.find?_eq] at hfind
      cases hfind
    simp [hnone]
  | some first =>
    obtain ⟨i, hi⟩ := exists_firstMatch_of_find? hfind
    have hunique : ∀ j rule, config.FirstMatch env j rule → rule = first := fun j rule hfirst =>
      Option.some.inj (hfirst.find?_eq.symm.trans hfind)
    constructor
    · intro h
      refine ⟨fun j rule hfirst => ?_, nofun⟩
      rw [hunique j rule hfirst]
      exact h _ rfl
    · rintro ⟨h, -⟩ action haction
      obtain rfl := Option.some.inj haction
      exact h i first hi

theorem decides_inForce (h : config.Evaluable env) :
    config.constraint.Decides env
      (env.symbol (.active config.table) = some (.bool config.isActive) ∧
        ∀ action, config.inForce env = some action → action.Holds env config.table) := by
  refine (Term.Decides.all (P := Term.Holds env) fun e he =>
    Term.decides_holds (constraint_settled h e he)).congr ?_
  rw [List.forall_mem_cons, List.forall_mem_append, forall_ruleConstraints h, forall_defaultConstraints h,
    inForce_holds_iff]
  exact and_congr_left' (decides_activeConstraint h).holds_iff

/-- Fewer rules ask for less. -/
theorem Evaluable.of_subset (h : config.Evaluable env) (hrules : rules ⊆ config.rules) :
    { config with rules }.Evaluable env := by
  refine ⟨fun rule hrule => h.keys rule (hrules hrule), h.active, fun action haction => h.symbols action ?_⟩
  rcases List.mem_append.mp haction with haction | haction
  · exact List.mem_append_left _ (List.map_subset _ hrules haction)
  · exact List.mem_append_right _ haction

/-- With other rules of its own that leave the same in force, the table has a constraint of the
    same value. -/
theorem constraint_agrees (h : config.Evaluable env) (hrules : rules ⊆ config.rules)
    (hempty : rules.isEmpty = config.rules.isEmpty)
    (hforce : { config with rules }.inForce env = config.inForce env) :
    ∃ b, config.constraint.evalBool env = .ok b ∧ { config with rules }.constraint.evalBool env = .ok b := by
  refine (decides_inForce h).agree (decides_inForce (h.of_subset hrules)) ?_
  rw [hforce]
  simp only [isActive, hempty]

/-! ## Rules in another order -/

/-- Every rule is moved to a place of its own in `rules`, and of two rules that change places not
    both match. -/
def Reordered (config : Config) (env : Assignment) (rules : List Rule) : Prop :=
  ∃ move : Fin config.rules.length ≃ Fin rules.length,
    (∀ i, rules[move i] = config.rules[i]) ∧
    ∀ i j, i < j → move j < move i → ¬(config.rules[i].Matches env ∧ config.rules[j].Matches env)

theorem Reordered.perm (h : config.Reordered env rules) : config.rules.Perm rules := by
  obtain ⟨move, hmove, -⟩ := h
  exact perm_of_moved move hmove

/-- The rules that match are in their order, so the first of them is the same. -/
theorem Reordered.inForce_eq (h : config.Reordered env rules) :
    { config with rules }.inForce env = config.inForce env := by
  obtain ⟨move, hmove, hinverted⟩ := h
  have hfilter : config.rules.filter (·.Matches env) = rules.filter (·.Matches env) := by
    refine filter_eq_of_moved move hmove fun i j hij hi hj => ?_
    by_contra hnot
    have hne : move j ≠ move i := fun heq => absurd (move.injective heq) (ne_of_gt hij)
    have hlt : move j < move i := lt_of_le_of_ne (not_lt.mp hnot) hne
    exact hinverted i j hij hlt ⟨of_decide_eq_true hi, of_decide_eq_true hj⟩
  simp only [inForce, ← List.head?_filter, hfilter]

/-! ## Rules that decide nothing -/

/-- The rule at `k` does not match, or one before it does. -/
def Idle (config : Config) (env : Assignment) (k : Fin config.rules.length) : Prop :=
  ¬config.rules[k].Matches env ∨ ∃ j < k, config.rules[j].Matches env

theorem Idle.inForce_eq {k : Fin config.rules.length} (h : config.Idle env k) :
    { config with rules := config.rules.eraseIdx k }.inForce env = config.inForce env := by
  have hsplit : config.rules = config.rules.take k ++ config.rules[k] :: config.rules.drop (k + 1) := by
    have hdrop : config.rules.drop k = config.rules[k] :: config.rules.drop (k + 1) :=
      List.drop_eq_getElem_cons k.isLt
    rw [← hdrop, List.take_append_drop]
  have hfind : (config.rules.eraseIdx k).find? (·.Matches env) = config.rules.find? (·.Matches env) := by
    conv_rhs => rw [hsplit]
    rw [List.eraseIdx_eq_take_drop_succ, List.find?_append, List.find?_append]
    rcases h with hmiss | ⟨j, hj, hmatch⟩
    · rw [List.find?_cons_of_neg (by simpa using hmiss)]
    · have hfront : ((config.rules.take k).find? (·.Matches env)).isSome := by
        rw [List.find?_isSome]
        exact ⟨config.rules[j], List.mem_take_iff_getElem.mpr ⟨j, by omega, rfl⟩, decide_eq_true hmatch⟩
      obtain ⟨first, hfirst⟩ := Option.isSome_iff_exists.mp hfront
      rw [hfirst, Option.some_or, Option.some_or]
  simp only [inForce, hfind]

/-- Where the configuration evaluates, its constraint has the same value with its rules in an order
    in which no two that match have changed places, and without a rule that does not match or stands
    behind one that does, as long as a rule remains. -/
theorem constraint_rearranged (h : config.Evaluable env) :
    (∀ rules, config.Reordered env rules →
      ∃ b, config.constraint.evalBool env = .ok b ∧ { config with rules }.constraint.evalBool env = .ok b) ∧
    ∀ k, config.Idle env k → config.rules.eraseIdx k ≠ [] →
      ∃ b, config.constraint.evalBool env = .ok b ∧
        { config with rules := config.rules.eraseIdx k }.constraint.evalBool env = .ok b := by
  constructor
  · intro rules hreordered
    have hperm := hreordered.perm
    exact constraint_agrees h hperm.symm.subset hperm.symm.isEmpty_eq hreordered.inForce_eq
  · intro k hidle hremains
    refine constraint_agrees h (List.eraseIdx_subset ..) ?_ hidle.inForce_eq
    have hrules : config.rules ≠ [] := List.ne_nil_of_length_pos (Fin.pos k)
    rw [List.isEmpty_eq_false_iff.mpr hremains, List.isEmpty_eq_false_iff.mpr hrules]

def portLast : List Rule := overlapping.rules.drop 1 ++ overlapping.rules.take 1

def portLastPlaces : Fin 3 ≃ Fin 3 where
  toFun := ![2, 0, 1]
  invFun := ![1, 2, 0]
  left_inv := show ∀ i, ![1, 2, 0] (![2, 0, 1] i) = i by decide
  right_inv := show ∀ j, ![2, 0, 1] (![1, 2, 0] j) = j by decide

/-- Two rules match, and they stay in their order; the later one can go. -/
theorem constraint_rearranged_overlapping :
    overlapping.Evaluable markedPacket ∧ overlapping.Reordered markedPacket portLast ∧
      overlapping.Idle markedPacket ⟨2, by decide⟩ ∧
      { overlapping with rules := portLast }.constraint.evalBool markedPacket = .ok true ∧
      { overlapping with rules := overlapping.rules.eraseIdx 2 }.constraint.evalBool markedPacket = .ok true := by
  have htrue : overlapping.constraint.evalBool markedPacket = .ok true := by rfl
  have hreordered : overlapping.Reordered markedPacket portLast := ⟨portLastPlaces, by decide, by decide⟩
  have hidle : overlapping.Idle markedPacket ⟨2, by decide⟩ := .inr ⟨⟨1, by decide⟩, by decide, by decide⟩
  obtain ⟨hmoved, hremoved⟩ := constraint_rearranged overlapping_evaluable
  obtain ⟨b, hb, hsame⟩ := hmoved portLast hreordered
  obtain ⟨c, hc, hrest⟩ := hremoved ⟨2, by decide⟩ hidle (by decide)
  obtain rfl : true = b := Except.ok.inj (htrue.symm.trans hb)
  obtain rfl : true = c := Except.ok.inj (htrue.symm.trans hc)
  exact ⟨overlapping_evaluable, hreordered, hidle, hsame, hrest⟩

end Config

end MatchAction
