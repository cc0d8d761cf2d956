/-
  MatchAction.Proofs.Term.Operands — the operands that operators are given.

  An evaluation comes to an operator when the operands that the operator asks for have values:
  `!` has one, `&&` and `||` ask for the right one only where the left one leaves the result
  open, and every other operator asks for both. Operands have to be of the sorts that the
  operator takes, and all operators but two refuse others with an error that names them. `==`
  and `!=` take two values of one sort as well and look at nothing: a boolean and a number are
  compared, and are different.

  Proved:
  - `eval_binary_eq`: the evaluation of all operators with two operands in one equation.
  - `Reaches.eval_of_refused`, `mismatched_of_eval`: an evaluation ends with a mismatch exactly when
    it comes to an operator that refuses its operands.
  - `wrong_operands_reported`: so operands of the wrong sorts are reported by every operator but
    `==` and `!=`, and in an evaluation with a value only these can have been given them.
-/

import MatchAction.Proofs.Attempt
import MatchAction.Proofs.Term.Decides

namespace MatchAction

namespace Value

variable {v w : Value} {fault : EvalError} {op : BinaryOp}

def isBool : Value → Bool
  | bool _ => true
  | bits _ => false

theorem asBool_eq_error_iff : v.asBool = .error fault ↔ ¬v.isBool ∧ .notBoolean = fault := by
  cases v <;> simp [asBool, isBool]

theorem asBits_eq_error_iff :
    v.asBits op w = .error fault ↔ ¬(¬v.isBool ∧ ¬w.isBool) ∧ .notBits op = fault := by
  cases v <;> cases w <;> simp [asBits, isBool]

end Value

/-- An operand is not of the sort that an operator takes; the other errors are about names that are
    not bound. -/
def EvalError.IsMismatch : EvalError → Prop
  | notBoolean | notBits _ => True
  | unboundField _ | unboundSymbol _ => False

/-! ## One operator -/

namespace BinaryOp

/-- The left operand leaves the result open. -/
def asksForRight : BinaryOp → Value → Bool
  | and, .bool b => b
  | or, .bool b => !b
  | and, .bits _ | or, .bits _ => false
  | _, _ => true

def ofLeft (v : Value) : Except EvalError Value := v.asBool.map .bool

def ofBoth (width : Nat) (op : BinaryOp) (v w : Value) : Except EvalError Value :=
  match op with
  | and | or => w.asBool.map .bool
  | eq => .ok (.bool (v = w))
  | ne => .ok (.bool (v ≠ w))
  | lt => (v.asBits op w).map fun (a, b) => .bool (a < b)
  | le => (v.asBits op w).map fun (a, b) => .bool (a ≤ b)
  | bitAnd => (v.asBits op w).map fun (a, b) => .bits (a &&& b)
  | shiftLeft => (v.asBits op w).map fun (a, b) => .bits (Value.shiftLeft width a b)
  | sub => (v.asBits op w).map fun (a, b) => .bits (Value.sub width a b)

end BinaryOp

/-- An operator that an evaluation comes to, and the operands that it is given there. -/
inductive Visit where
  | not (v : Value)
  /-- `&&` or `||`, of which the left operand settles the result. -/
  | left (op : BinaryOp) (v : Value)
  | both (op : BinaryOp) (v w : Value)

namespace Visit

def Suited : Visit → Prop
  | not v | left _ v => v.isBool
  | both .and v w | both .or v w => v.isBool ∧ w.isBool
  | both .eq v w | both .ne v w => v.isBool = w.isBool
  | both _ v w => ¬v.isBool ∧ ¬w.isBool

def IsEquality : Visit → Prop
  | both .eq _ _ | both .ne _ _ => True
  | _ => False

def fault : Visit → EvalError
  | not _ | left _ _ | both .and _ _ | both .or _ _ => .notBoolean
  | both op _ _ => .notBits op

/-- The operator looks at the sorts of its operands, and they are not those that it takes. -/
def Refused (visit : Visit) : Prop := ¬visit.IsEquality ∧ ¬visit.Suited

end Visit

namespace BinaryOp

variable {op : BinaryOp} {v w : Value} {fault : EvalError} {width : Nat}

theorem ofLeft_eq_error_iff :
    ofLeft v = .error fault ↔ (Visit.left op v).Refused ∧ (Visit.left op v).fault = fault := by
  rw [ofLeft, map_eq_error, Value.asBool_eq_error_iff]
  exact and_congr_left' (and_iff_right id).symm

theorem ofBoth_eq_error_iff (h : op.asksForRight v = true) :
    op.ofBoth width v w = .error fault ↔ (Visit.both op v w).Refused ∧ (Visit.both op v w).fault = fault := by
  -- the left operand of `&&` and `||` is a boolean, otherwise the right one is not asked for
  have hboolean : op = .and ∨ op = .or → v.isBool = true := by
    cases v with
    | bool b => exact fun _ => rfl
    | bits n => rintro (rfl | rfl) <;> cases h
  cases op with
  | and | or =>
    rw [ofBoth, map_eq_error, Value.asBool_eq_error_iff]
    simp [Visit.Refused, Visit.IsEquality, Visit.Suited, Visit.fault, hboolean]
  | eq | ne => exact ⟨nofun, fun hrefused => absurd trivial hrefused.1.1⟩
  | lt | le | bitAnd | shiftLeft | sub =>
    rw [ofBoth, map_eq_error, Value.asBits_eq_error_iff]
    exact and_congr_left' (and_iff_right id).symm

end BinaryOp

namespace Term

variable {env : Assignment} {a b e : Term} {op : BinaryOp} {visit : Visit} {fault : EvalError} {v w : Value}

theorem eval_symbol_eq_error_iff {s : Symbol} :
    (symbol s).eval env = .error fault ↔ env.symbol s = none ∧ .unboundSymbol s.name = fault := by
  cases h : env.symbol s <;> simp [eval, h]

theorem eval_field_eq_error_iff {path : String} {ty : Ty} :
    (field path ty).eval env = .error fault ↔ env.field path = none ∧ .unboundField path = fault := by
  cases h : env.field path <;> simp [eval, h]

theorem eval_not_eq_bind (a : Term) :
    (Term.not a).eval env = a.eval env >>= fun v => v.asBool.map fun b => .bool !b := by
  rw [eval_not_eq]
  cases a.eval env with
  | error fault => rfl
  | ok v => cases v <;> rfl

theorem eval_binary_eq (op : BinaryOp) (a b : Term) : (binary op a b).eval env = a.eval env >>= fun v =>
    if op.asksForRight v then b.eval env >>= op.ofBoth a.ty.width v else BinaryOp.ofLeft v := by
  show (a.eval env >>= _) = _
  cases a.eval env with
  | error fault => rfl
  | ok v =>
    cases op with
    | and | or =>
      cases v with
      | bits n => rfl
      | bool x =>
        cases x with
        | false => rfl
        | true =>
          cases b.eval env with
          | error fault => rfl
          | ok w => cases w <;> rfl
    | eq | ne => rfl
    | lt | le | bitAnd | shiftLeft | sub =>
      cases b.eval env with
      | error fault => rfl
      | ok w => cases v <;> cases w <;> rfl

theorem eval_binary_left (ha : a.eval env = .ok v) (h : op.asksForRight v = false) :
    (binary op a b).eval env = BinaryOp.ofLeft v := by
  rw [eval_binary_eq, ha]
  exact if_neg (ne_true_of_eq_false h)

theorem eval_binary_both (ha : a.eval env = .ok v) (h : op.asksForRight v = true) :
    (binary op a b).eval env = b.eval env >>= op.ofBoth a.ty.width v := by
  rw [eval_binary_eq, ha]
  exact if_pos h

/-- The evaluation of a term comes to an operator of it. -/
inductive Reaches (env : Assignment) : Term → Visit → Prop
  | not {a : Term} {v : Value} : a.eval env = .ok v → Reaches env (.not a) (.not v)
  | left {op : BinaryOp} {a b : Term} {v : Value} : a.eval env = .ok v → op.asksForRight v = false →
      Reaches env (.binary op a b) (.left op v)
  | both {op : BinaryOp} {a b : Term} {v w : Value} : a.eval env = .ok v → op.asksForRight v = true →
      b.eval env = .ok w → Reaches env (.binary op a b) (.both op v w)
  | inOperand {a : Term} {visit : Visit} : Reaches env a visit → Reaches env (.not a) visit
  | inLeft {op : BinaryOp} {a b : Term} {visit : Visit} : Reaches env a visit → Reaches env (.binary op a b) visit
  | inRight {op : BinaryOp} {a b : Term} {v : Value} {visit : Visit} : a.eval env = .ok v →
      op.asksForRight v = true → Reaches env b visit → Reaches env (.binary op a b) visit

/-- The evaluation comes to an operator that refuses its operands with this error. -/
def Mismatched (env : Assignment) (e : Term) (fault : EvalError) : Prop :=
  ∃ visit, e.Reaches env visit ∧ visit.Refused ∧ visit.fault = fault

/-- An operator that refuses its operands ends the evaluation, however deep it stands. -/
theorem Reaches.eval_of_refused (h : e.Reaches env visit) (hrefused : visit.Refused) :
    e.eval env = .error visit.fault := by
  induction h with
  | not ha =>
    rw [eval_not_eq_bind, ha]
    exact map_eq_error.mpr (Value.asBool_eq_error_iff.mpr ⟨hrefused.2, rfl⟩)
  | left ha hleft =>
    rw [eval_binary_left ha hleft]
    exact BinaryOp.ofLeft_eq_error_iff.mpr ⟨hrefused, rfl⟩
  | both ha hright hb =>
    rw [eval_binary_both ha hright, hb]
    exact (BinaryOp.ofBoth_eq_error_iff hright).mpr ⟨hrefused, rfl⟩
  | inOperand _ ih =>
    rw [eval_not_eq_bind, ih hrefused]
    rfl
  | inLeft _ ih =>
    rw [eval_binary_eq, ih hrefused]
    rfl
  | inRight ha hright _ ih =>
    rw [eval_binary_both ha hright, ih hrefused]
    rfl

/-- What ends the evaluation of `!`. -/
theorem of_eval_not_error (h : (Term.not a).eval env = .error fault) :
    a.eval env = .error fault ∨ (Term.not a).Mismatched env fault := by
  rw [eval_not_eq_bind, bind_eq_error] at h
  refine h.imp_right fun ⟨v, ha, hv⟩ => ?_
  obtain ⟨hbool, hfault⟩ := Value.asBool_eq_error_iff.mp (map_eq_error.mp hv)
  exact ⟨.not v, .not ha, ⟨id, hbool⟩, hfault⟩

/-- What ends the evaluation of an operator with two operands. -/
theorem of_eval_binary_error (h : (binary op a b).eval env = .error fault) :
    a.eval env = .error fault ∨
    (∃ v, a.eval env = .ok v ∧ op.asksForRight v = true ∧ b.eval env = .error fault) ∨
    (binary op a b).Mismatched env fault := by
  cases ha : a.eval env with
  | error fault' =>
    rw [eval_binary_eq, ha] at h
    exact .inl h
  | ok v =>
    cases hright : op.asksForRight v with
    | false =>
      rw [eval_binary_left ha hright] at h
      exact .inr (.inr ⟨.left op v, .left ha hright, BinaryOp.ofLeft_eq_error_iff.mp h⟩)
    | true =>
      rw [eval_binary_both ha hright, bind_eq_error] at h
      rcases h with hb | ⟨w, hb, h⟩
      · exact .inr (.inl ⟨v, rfl, hright, hb⟩)
      · exact .inr (.inr ⟨.both op v w, .both ha hright hb, (BinaryOp.ofBoth_eq_error_iff hright).mp h⟩)

/-- Nothing else ends an evaluation with a mismatch. -/
theorem mismatched_of_eval (h : e.eval env = .error fault) (hmismatch : fault.IsMismatch) :
    e.Mismatched env fault := by
  induction e with
  | bool x => cases h
  | constant ty n => cases h
  | symbol s =>
    obtain ⟨-, rfl⟩ := eval_symbol_eq_error_iff.mp h
    cases hmismatch
  | field path ty =>
    obtain ⟨-, rfl⟩ := eval_field_eq_error_iff.mp h
    cases hmismatch
  | not a ih =>
    rcases of_eval_not_error h with ha | hhere
    · obtain ⟨visit, hreaches, hrefused⟩ := ih ha
      exact ⟨visit, .inOperand hreaches, hrefused⟩
    · exact hhere
  | binary op a b iha ihb =>
    rcases of_eval_binary_error h with ha | ⟨v, ha, hright, hb⟩ | hhere
    · obtain ⟨visit, hreaches, hrefused⟩ := iha ha
      exact ⟨visit, .inLeft hreaches, hrefused⟩
    · obtain ⟨visit, hreaches, hrefused⟩ := ihb hb
      exact ⟨visit, .inRight ha hright hreaches, hrefused⟩
    · exact hhere

/-- An evaluation ends with a mismatch exactly when it comes to an operator that looks at its operands
    and is given some of other sorts, and with the error of that operator. So in an evaluation with
    a value all operators but `==` and `!=` have been given what they take; these two find a boolean
    and a number different. -/
theorem wrong_operands_reported (e : Term) (env : Assignment) :
    (∀ fault, fault.IsMismatch → (e.eval env = .error fault ↔
      ∃ visit, e.Reaches env visit ∧ visit.Refused ∧ visit.fault = fault)) ∧
    (∀ v, e.eval env = .ok v → ∀ visit, e.Reaches env visit → visit.Suited ∨ visit.IsEquality) ∧
    ∀ a b v w, a.eval env = .ok v → b.eval env = .ok w → v.isBool ≠ w.isBool →
      (Term.eq a b).eval env = .ok (.bool false) ∧ (Term.ne a b).eval env = .ok (.bool true) := by
  refine ⟨fun fault hmismatch => ?_, fun v hv visit hreaches => ?_, fun a b v w ha hb hsorts => ?_⟩
  · refine ⟨fun h => mismatched_of_eval h hmismatch, ?_⟩
    rintro ⟨visit, hreaches, hrefused, rfl⟩
    exact hreaches.eval_of_refused hrefused
  · by_contra hnot
    rw [not_or] at hnot
    have hfault := hreaches.eval_of_refused ⟨hnot.2, hnot.1⟩
    rw [hv] at hfault
    cases hfault
  · have hne : v ≠ w := fun heq => hsorts (congrArg Value.isBool heq)
    rw [eval_eq ha hb, eval_ne ha hb, decide_eq_false hne, decide_eq_true hne]
    exact ⟨rfl, rfl⟩

def classless : Assignment := (Assignment.empty.setField "meta.ok" (.bool true)).setField "meta.class" (.bool true)

/-- `meta.ok && 3 < meta.class`, and the class compared for equality. -/
theorem wrong_operands_reported_class :
    (Term.and (.field "meta.ok" .bool) (.lt (.constant (.bits 4) 3) (.field "meta.class" (.bits 4)))).eval classless =
      .error (.notBits .lt) ∧
    (Term.eq (.constant (.bits 4) 3) (.field "meta.class" (.bits 4))).eval classless = .ok (.bool false) := by
  constructor
  · refine ((wrong_operands_reported _ classless).1 (.notBits .lt) trivial).mpr
      ⟨.both .lt (.bits 3) (.bool true), ?_, ⟨id, nofun⟩, rfl⟩
    exact .inRight (v := .bool true) rfl rfl (.both rfl rfl rfl)
  · exact ((wrong_operands_reported (.bool true) classless).2.2 _ _ (.bits 3) (.bool true) rfl rfl nofun).1

/-- `true == 8w1` is false, although one operand is a boolean and the other a number. -/
theorem mixed_equality_unreported :
    (Term.eq (.bool true) (.constant (.bits 8) 1)).eval .empty = .ok (.bool false) ∧
    (Term.eq (.bool true) (.constant (.bits 8) 1)).Reaches .empty (.both .eq (.bool true) (.bits 1)) ∧
    ¬(Visit.both .eq (.bool true) (.bits 1)).Suited :=
  ⟨rfl, .both rfl rfl rfl, nofun⟩

end Term

end MatchAction
