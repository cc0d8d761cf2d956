/-
  MatchAction.Proofs.Term.Decides — terms that evaluate to the truth of a proposition.

  `Decides env e p` says that `e` evaluates under `env`, without an error, to a boolean
  that is true exactly when `p` is. It goes through every builder of terms, so that what
  a large conjunction means is read off its members, in whatever order they stand and
  wherever the evaluation stops.

  Proved:
  - `eval_and`, `eval_eq`, `eval_sub` and so on: the value of each operator.
  - `all_iff`, `all_iff_exists`: what is so of a conjunction with two operands is so of a list.
  - `evalBool_all`: a conjunction is evaluated member by member from the left and stops at
    the first that is not true.
  - `Decides.all`: a conjunction of terms that decide something decides all of it.
  - `all_agree`: the order of a conjunction and repeated members do not change its value.
  - `Decides.agree`: terms that decide equivalent propositions evaluate to the same boolean.
-/

import Mathlib.Logic.Basic
import MatchAction.Term.Eval

namespace MatchAction.Term

variable {env : Assignment} {a b e : Term} {es : List Term} {p q : Prop}

/-! ## The value of each operator

One equation for each, so that no proof has to unfold the evaluator. -/

theorem eval_symbol {s : Symbol} {v : Value} (h : env.symbol s = some v) : (Term.symbol s).eval env = .ok v := by
  simp [eval, h]

theorem eval_field {path : String} {ty : Ty} {v : Value} (h : env.field path = some v) :
    (Term.field path ty).eval env = .ok v := by
  simp [eval, h]

theorem eval_not_eq (e : Term) : (Term.not e).eval env = do return .bool !(← (← e.eval env).asBool) := rfl

theorem eval_and_eq (a b : Term) : (Term.and a b).eval env = do
    if ← (← a.eval env).asBool then return .bool (← (← b.eval env).asBool) else return .bool false := rfl

theorem eval_or_eq (a b : Term) : (Term.or a b).eval env = do
    if ← (← a.eval env).asBool then return .bool true else return .bool (← (← b.eval env).asBool) := rfl

theorem eval_not {x : Bool} (h : e.eval env = .ok (.bool x)) : (Term.not e).eval env = .ok (.bool !x) := by
  rw [eval_not_eq, h]
  rfl

theorem eval_and {x y : Bool} (ha : a.eval env = .ok (.bool x)) (hb : b.eval env = .ok (.bool y)) :
    (Term.and a b).eval env = .ok (.bool (x && y)) := by
  rw [eval_and_eq, ha, hb]
  cases x <;> rfl

theorem eval_or {x y : Bool} (ha : a.eval env = .ok (.bool x)) (hb : b.eval env = .ok (.bool y)) :
    (Term.or a b).eval env = .ok (.bool (x || y)) := by
  rw [eval_or_eq, ha, hb]
  cases x <;> rfl

theorem eval_eq {v w : Value} (ha : a.eval env = .ok v) (hb : b.eval env = .ok w) :
    (Term.eq a b).eval env = .ok (.bool (v = w)) := by
  show (do return Value.bool ((← a.eval env) = (← b.eval env))) = _
  rw [ha, hb]
  rfl

theorem eval_ne {v w : Value} (ha : a.eval env = .ok v) (hb : b.eval env = .ok w) :
    (Term.ne a b).eval env = .ok (.bool (v ≠ w)) := by
  show (do return Value.bool ((← a.eval env) ≠ (← b.eval env))) = _
  rw [ha, hb]
  rfl

theorem eval_lt {x y : Nat} (ha : a.eval env = .ok (.bits x)) (hb : b.eval env = .ok (.bits y)) :
    (Term.lt a b).eval env = .ok (.bool (x < y)) := by
  show (do let p ← (← a.eval env).asBits .lt (← b.eval env); return Value.bool (p.1 < p.2)) = _
  rw [ha, hb]
  rfl

theorem eval_le {x y : Nat} (ha : a.eval env = .ok (.bits x)) (hb : b.eval env = .ok (.bits y)) :
    (Term.le a b).eval env = .ok (.bool (x ≤ y)) := by
  show (do let p ← (← a.eval env).asBits .le (← b.eval env); return Value.bool (p.1 ≤ p.2)) = _
  rw [ha, hb]
  rfl

theorem eval_bitAnd {x y : Nat} (ha : a.eval env = .ok (.bits x)) (hb : b.eval env = .ok (.bits y)) :
    (Term.bitAnd a b).eval env = .ok (.bits (x &&& y)) := by
  show (do let p ← (← a.eval env).asBits .bitAnd (← b.eval env); return Value.bits (p.1 &&& p.2)) = _
  rw [ha, hb]
  rfl

theorem eval_shiftLeft {x y : Nat} (ha : a.eval env = .ok (.bits x)) (hb : b.eval env = .ok (.bits y)) :
    (Term.shiftLeft a b).eval env = .ok (.bits (Value.shiftLeft a.ty.width x y)) := by
  show (do
    let p ← (← a.eval env).asBits .shiftLeft (← b.eval env)
    return Value.bits (Value.shiftLeft a.ty.width p.1 p.2)) = _
  rw [ha, hb]
  rfl

theorem eval_sub {x y : Nat} (ha : a.eval env = .ok (.bits x)) (hb : b.eval env = .ok (.bits y)) :
    (Term.sub a b).eval env = .ok (.bits (Value.sub a.ty.width x y)) := by
  show (do
    let p ← (← a.eval env).asBits .sub (← b.eval env)
    return Value.bits (Value.sub a.ty.width p.1 p.2)) = _
  rw [ha, hb]
  rfl

def literalValue : Ty → Nat → Value
  | .bool, n => .bool (n != 0)
  | .bits _, n => .bits n

theorem eval_literal (ty : Ty) (n : Nat) : (Term.literal ty n).eval env = .ok (literalValue ty n) := by
  cases ty <;> rfl

/-! ## Conjunctions of lists -/

theorem foldl_and_iff {P : Term → Prop} (hand : ∀ a b, P (and a b) ↔ P a ∧ P b) (e : Term) (es : List Term) :
    P (es.foldl and e) ↔ P e ∧ ∀ e' ∈ es, P e' := by
  induction es generalizing e with
  | nil => simp
  | cons e' es ih => rw [List.foldl_cons, ih, hand, List.forall_mem_cons, and_assoc]

/-- What holds of a conjunction where it holds of both operands holds of a list where it holds of every member. -/
theorem all_iff {P : Term → Prop} (htrue : P (.bool true)) (hand : ∀ a b, P (and a b) ↔ P a ∧ P b) :
    P (all es) ↔ ∀ e ∈ es, P e := by
  cases es with
  | nil => exact iff_of_true htrue (List.forall_mem_nil _)
  | cons e es => rw [all, foldl_and_iff hand, List.forall_mem_cons]

/-- And what holds of it where it holds of one of the operands, of some member. -/
theorem all_iff_exists {P : Term → Prop} (htrue : ¬P (.bool true)) (hand : ∀ a b, P (and a b) ↔ P a ∨ P b) :
    P (all es) ↔ ∃ e ∈ es, P e := by
  have hnot : ¬P (all es) ↔ ∀ e ∈ es, ¬P e :=
    all_iff (P := fun e => ¬P e) htrue fun a b => (not_congr (hand a b)).trans not_or
  rw [← not_iff_not, hnot]
  simp

/-! ## The boolean value of each builder -/

theorem evalBool_not (e : Term) : (Term.not e).evalBool env = do return !(← e.evalBool env) := by
  rw [evalBool, eval_not_eq, evalBool]
  cases e.eval env with
  | error fault => rfl
  | ok v => cases v <;> rfl

/-- A value that had to be boolean is boolean. -/
theorem bool_asBool (x : Except EvalError Value) :
    (do return Value.bool (← (← x).asBool)) >>= Value.asBool = x >>= Value.asBool := by
  cases x with
  | error fault => rfl
  | ok v => cases v <;> rfl

theorem evalBool_and (a b : Term) :
    (Term.and a b).evalBool env = do if ← a.evalBool env then b.evalBool env else return false := by
  rw [evalBool, eval_and_eq, evalBool, evalBool]
  cases a.eval env with
  | error fault => rfl
  | ok v =>
    cases v with
    | bits n => rfl
    | bool x =>
      cases x with
      | false => rfl
      | true => exact bool_asBool (b.eval env)

theorem evalBool_or (a b : Term) :
    (Term.or a b).evalBool env = (do if ← a.evalBool env then return true else b.evalBool env) := by
  rw [evalBool, eval_or_eq, evalBool, evalBool]
  cases a.eval env with
  | error fault => rfl
  | ok v =>
    cases v with
    | bits n => rfl
    | bool x =>
      cases x with
      | true => rfl
      | false => exact bool_asBool (b.eval env)

theorem evalBool_foldl_and (e : Term) (es : List Term) :
    (es.foldl and e).evalBool env = (e :: es).allM (·.evalBool env) := by
  induction es generalizing e with
  | nil =>
    simp only [List.foldl_nil, List.allM_cons, List.allM_nil]
    cases e.evalBool env with
    | error fault => rfl
    | ok x => cases x <;> rfl
  | cons f es ih =>
    rw [List.foldl_cons, ih]
    simp only [List.allM_cons, evalBool_and]
    cases e.evalBool env with
    | error fault => rfl
    | ok x => cases x <;> rfl

theorem evalBool_all (es : List Term) : (Term.all es).evalBool env = es.allM (·.evalBool env) := by
  cases es with
  | nil => rfl
  | cons e es => exact evalBool_foldl_and e es

/-- What a false premise implies is not evaluated. -/
theorem evalBool_implies_of_false (h : a.evalBool env = .ok false) (b : Term) :
    (Term.implies a b).evalBool env = .ok true := by
  show (Term.or (.not a) b).evalBool env = .ok true
  rw [evalBool_or, evalBool_not, h]
  rfl

/-! ## Deciding a proposition -/

def Holds (env : Assignment) (e : Term) : Prop := e.evalBool env = .ok true

theorem holds_symbol_iff {s : Symbol} : Holds env (.symbol s) ↔ env.symbol s = some (.bool true) := by
  unfold Holds evalBool eval
  cases env.symbol s with
  | none => exact ⟨nofun, nofun⟩
  | some v =>
    cases v with
    | bool b => cases b <;> simp [Value.asBool, bind, Except.bind]
    | bits n => exact ⟨nofun, nofun⟩

theorem holds_and_iff : Holds env (.and a b) ↔ Holds env a ∧ Holds env b := by
  unfold Holds
  rw [evalBool_and]
  cases a.evalBool env with
  | error fault => exact ⟨nofun, nofun⟩
  | ok x =>
    cases x with
    | false => exact ⟨nofun, nofun⟩
    | true => exact (and_iff_right rfl).symm

/-- A conjunction is true exactly when every member is: a member that is not, or does not
    evaluate, ends it. -/
theorem holds_all_iff : Holds env (.all es) ↔ ∀ e ∈ es, Holds env e := all_iff rfl fun _ _ => holds_and_iff

/-- The term evaluates to a boolean, which is true exactly when `p` is. -/
def Decides (env : Assignment) (e : Term) (p : Prop) : Prop := ∃ b, e.evalBool env = .ok b ∧ (b = true ↔ p)

theorem Decides.settled (h : Decides env e p) : ∃ b, e.evalBool env = .ok b := h.imp fun _ hb => hb.1

theorem Decides.holds_iff (h : Decides env e p) : Holds env e ↔ p := by
  obtain ⟨b, hb, hp⟩ := h
  rw [Holds, hb, Except.ok.injEq]
  exact hp

theorem decides_holds (h : ∃ b, e.evalBool env = .ok b) : Decides env e (Holds env e) := by
  obtain ⟨b, hb⟩ := h
  exact ⟨b, hb, by rw [Holds, hb, Except.ok.injEq]⟩

theorem Decides.congr (h : Decides env e p) (hpq : p ↔ q) : Decides env e q := by
  obtain ⟨b, hb, hp⟩ := h
  exact ⟨b, hb, hp.trans hpq⟩

theorem Decides.agree (ha : Decides env a p) (hb : Decides env b q) (hpq : p ↔ q) :
    ∃ x, a.evalBool env = .ok x ∧ b.evalBool env = .ok x := by
  obtain ⟨x, hx, hxp⟩ := ha
  obtain ⟨y, hy, hyq⟩ := hb
  have : x = y := Bool.eq_iff_iff.mpr (hxp.trans (hpq.trans hyq.symm))
  exact ⟨x, hx, this ▸ hy⟩

theorem Decides.not (h : Decides env e p) : Decides env (.not e) (¬p) := by
  obtain ⟨x, hx, hp⟩ := h
  refine ⟨!x, by rw [evalBool_not, hx]; rfl, ?_⟩
  rw [← hp]; cases x <;> simp

theorem Decides.and (ha : Decides env a p) (hb : Decides env b q) : Decides env (.and a b) (p ∧ q) := by
  obtain ⟨x, hx, hp⟩ := ha
  obtain ⟨y, hy, hq⟩ := hb
  refine ⟨x && y, ?_, by rw [← hp, ← hq, Bool.and_eq_true]⟩
  rw [evalBool_and, hx, hy]
  cases x <;> rfl

theorem Decides.or (ha : Decides env a p) (hb : Decides env b q) : Decides env (.or a b) (p ∨ q) := by
  obtain ⟨x, hx, hp⟩ := ha
  obtain ⟨y, hy, hq⟩ := hb
  refine ⟨x || y, ?_, by rw [← hp, ← hq, Bool.or_eq_true]⟩
  rw [evalBool_or, hx, hy]
  cases x <;> rfl

theorem Decides.implies (ha : Decides env a p) (hb : Decides env b q) : Decides env (.implies a b) (p → q) :=
  (ha.not.or hb).congr imp_iff_not_or.symm

theorem Decides.all {P : Term → Prop} (h : ∀ e ∈ es, Decides env e (P e)) :
    Decides env (.all es) (∀ e ∈ es, P e) := by
  rw [Decides, evalBool_all]
  induction es with
  | nil => exact ⟨true, rfl, by simp⟩
  | cons e es ih =>
    obtain ⟨x, hx, hp⟩ := h e (by simp)
    obtain ⟨y, hy, hq⟩ := ih fun f hf => h f (List.mem_cons_of_mem _ hf)
    refine ⟨x && y, ?_, by rw [Bool.and_eq_true, hp, hq, List.forall_mem_cons]⟩
    rw [List.allM_cons, hx]
    cases x
    · rfl
    · exact hy

/-- Conjunctions whose members have the same values, whatever the order, have the same value. -/
theorem all_agree {fs : List Term}
    (hes : ∀ e ∈ es, ∃ x, e.evalBool env = .ok x ∧ ∃ f ∈ fs, f.evalBool env = .ok x)
    (hfs : ∀ f ∈ fs, ∃ x, f.evalBool env = .ok x ∧ ∃ e ∈ es, e.evalBool env = .ok x) :
    ∃ x, (Term.all es).evalBool env = .ok x ∧ (Term.all fs).evalBool env = .ok x := by
  refine Decides.agree (.all (P := Holds env) fun e he => decides_holds ((hes e he).imp fun _ h => h.1))
    (.all (P := Holds env) fun f hf => decides_holds ((hfs f hf).imp fun _ h => h.1)) ?_
  constructor
  · intro hall f hf
    obtain ⟨x, hx, e, he, hex⟩ := hfs f hf
    rw [Holds, hx, ← hex]
    exact hall e he
  · intro hall e he
    obtain ⟨x, hx, f, hf, hfx⟩ := hes e he
    rw [Holds, hx, ← hfx]
    exact hall f hf

/-! ## Comparisons of values -/

/-- A boolean for the booleans, any number for bit vectors. -/
def HasSort : Ty → Value → Prop
  | .bool, .bool _ => True
  | .bits _, .bits _ => True
  | _, _ => False

theorem HasSort.eq_bits {v : Value} {w : Nat} (h : HasSort (.bits w) v) : ∃ k, v = .bits k := by
  cases v with
  | bool b => cases h
  | bits k => exact ⟨k, rfl⟩

theorem decides_of_eval {x : Bool} (h : e.eval env = .ok (.bool x)) (hp : x = true ↔ p) : Decides env e p := by
  refine ⟨x, ?_, hp⟩
  rw [evalBool, h]
  rfl

theorem decides_eq {v w : Value} (ha : a.eval env = .ok v) (hb : b.eval env = .ok w) :
    Decides env (.eq a b) (v = w) := decides_of_eval (eval_eq ha hb) decide_eq_true_iff

theorem decides_lt {x y : Nat} (ha : a.eval env = .ok (.bits x)) (hb : b.eval env = .ok (.bits y)) :
    Decides env (.lt a b) (x < y) := decides_of_eval (eval_lt ha hb) decide_eq_true_iff

theorem decides_le {x y : Nat} (ha : a.eval env = .ok (.bits x)) (hb : b.eval env = .ok (.bits y)) :
    Decides env (.le a b) (x ≤ y) := decides_of_eval (eval_le ha hb) decide_eq_true_iff

end MatchAction.Term
