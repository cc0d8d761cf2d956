/-
  MatchAction.Proofs.Term.Bindings — what further bindings do to an evaluation.

  An evaluation that ends with a value or with a mismatch has looked up only names that are
  bound, and further bindings leave it as it is. Whether it gets to a name depends on the
  values before it: an operand that settles the result hides the names on its right, and a
  mismatch comes after the operands that it is about. Only an evaluation that ends at a name
  without a binding is still open.

  Proved:
  - `Stays.bind`: a step after a step, where each of the two stays as it is once it is settled.
  - `eval_stays`: so a settled evaluation is the same under all further bindings.
  - `truthful_of_eval`: an error names a field or a symbol of the term that has no binding.
-/

import MatchAction.Proofs.Term.Formula
import MatchAction.Proofs.Term.Operands

namespace MatchAction

/-- `other` binds all that `env` binds, to the same values. -/
structure Assignment.Extends (other env : Assignment) : Prop where
  field : ∀ path v, env.field path = some v → other.field path = some v
  symbol : ∀ s v, env.symbol s = some v → other.symbol s = some v

theorem Assignment.extends_setField {env : Assignment} {path : String} (h : env.field path = none) (v : Value) :
    (env.setField path v).Extends env where
  field p w hp := by
    have hne : p ≠ path := by
      rintro rfl
      rw [h] at hp
      cases hp
    exact (if_neg hne).trans hp
  symbol _ _ hs := hs

section Settled

variable {α β : Type} {x y : Except EvalError α} {f g : α → Except EvalError β}

/-- A result that waits for no binding. -/
def Settled : Except EvalError α → Prop
  | .ok _ => True
  | .error fault => fault.IsMismatch

/-- `y` is `x` if `x` is settled. -/
def Stays (x y : Except EvalError α) : Prop := Settled x → y = x

theorem Stays.refl (x : Except EvalError α) : Stays x x := fun _ => rfl

theorem Stays.bind (hx : Stays x y) (hf : ∀ a, x = .ok a → Stays (f a) (g a)) : Stays (x >>= f) (y >>= g) := by
  intro hsettled
  cases x with
  | error fault =>
    rw [hx hsettled]
    rfl
  | ok a =>
    rw [hx trivial]
    exact hf a rfl hsettled

end Settled

/-- The name without a binding is one of the term, and has none. -/
def EvalError.Truthful (env : Assignment) (e : Term) : EvalError → Prop
  | unboundField path => (∃ ty, (path, ty) ∈ e.fields) ∧ env.field path = none
  | unboundSymbol name => ∃ s ∈ e.symbols.toList, s.name = name ∧ env.symbol s = none
  | notBoolean | notBits _ => True

theorem EvalError.Truthful.mono {fault : EvalError} {env : Assignment} {a e : Term} (h : fault.Truthful env a)
    (hfields : ∀ f ∈ a.fields, f ∈ e.fields) (hsymbols : ∀ s ∈ a.symbols.toList, s ∈ e.symbols.toList) :
    fault.Truthful env e := by
  cases fault with
  | unboundField path =>
    obtain ⟨⟨ty, hpath⟩, hnone⟩ := h
    exact ⟨⟨ty, hfields _ hpath⟩, hnone⟩
  | unboundSymbol name =>
    obtain ⟨s, hs, hname, hnone⟩ := h
    exact ⟨s, hsymbols s hs, hname, hnone⟩
  | notBoolean | notBits op => trivial

namespace Term

variable {env other : Assignment} {e : Term} {fault : EvalError}

theorem eval_stays (hext : other.Extends env) (e : Term) : Stays (e.eval env) (e.eval other) := by
  induction e with
  | bool x => exact .refl _
  | constant ty n => exact .refl _
  | symbol s =>
    intro hsettled
    cases hs : env.symbol s with
    | none =>
      rw [eval_symbol_eq_error_iff.mpr ⟨hs, rfl⟩] at hsettled
      cases hsettled
    | some v => rw [eval_symbol hs, eval_symbol (hext.symbol s v hs)]
  | field path ty =>
    intro hsettled
    cases hpath : env.field path with
    | none =>
      rw [eval_field_eq_error_iff.mpr ⟨hpath, rfl⟩] at hsettled
      cases hsettled
    | some v => rw [eval_field hpath, eval_field (hext.field path v hpath)]
  | not a ih =>
    rw [eval_not_eq_bind, eval_not_eq_bind]
    exact ih.bind fun v _ => .refl _
  | binary op a b iha ihb =>
    rw [eval_binary_eq, eval_binary_eq]
    -- the value on the left stays, so the right operand is asked for or left out under both
    refine iha.bind fun v _ => ?_
    split
    · exact ihb.bind fun w _ => .refl _
    · exact .refl _

theorem Mismatched.truthful (h : e.Mismatched env fault) : fault.Truthful env e := by
  obtain ⟨visit, -, -, rfl⟩ := h
  cases visit with
  | not v | left op v => trivial
  | both op v w => cases op <;> trivial

theorem truthful_of_eval (h : e.eval env = .error fault) : fault.Truthful env e := by
  induction e with
  | bool x => cases h
  | constant ty n => cases h
  | symbol s =>
    obtain ⟨hnone, rfl⟩ := eval_symbol_eq_error_iff.mp h
    exact ⟨s, List.mem_singleton_self s, rfl, hnone⟩
  | field path ty =>
    obtain ⟨hnone, rfl⟩ := eval_field_eq_error_iff.mp h
    exact ⟨⟨ty, List.mem_singleton_self _⟩, hnone⟩
  | not a ih =>
    rcases of_eval_not_error h with ha | hhere
    · exact ih ha
    · exact hhere.truthful
  | binary op a b iha ihb =>
    rcases of_eval_binary_error h with ha | ⟨v, -, -, hb⟩ | hhere
    · exact (iha ha).mono (fun f hf => List.mem_append_left _ hf) fun s hs => mem_symbols_binary.mpr (.inl hs)
    · exact (ihb hb).mono (fun f hf => List.mem_append_right _ hf) fun s hs => mem_symbols_binary.mpr (.inr hs)
    · exact hhere.truthful

/-- An error about a name is about one that the term has and the assignment does not bind; values and
    mismatches stay under all further bindings. -/
theorem errors_truthful_answers_stay (e : Term) (env : Assignment) :
    (∀ path, e.eval env = .error (.unboundField path) →
      (∃ ty, (path, ty) ∈ e.fields) ∧ env.field path = none) ∧
    (∀ name, e.eval env = .error (.unboundSymbol name) →
      ∃ s ∈ e.symbols.toList, s.name = name ∧ env.symbol s = none) ∧
    ∀ other : Assignment, other.Extends env →
      (∀ v, e.eval env = .ok v → e.eval other = .ok v) ∧
      ∀ fault, fault.IsMismatch → e.eval env = .error fault → e.eval other = .error fault := by
  refine ⟨fun path h => truthful_of_eval h, fun name h => truthful_of_eval h, fun other hext => ⟨?_, ?_⟩⟩
  · intro v h
    rw [eval_stays hext e (h ▸ trivial), h]
  · intro fault hmismatch h
    rw [eval_stays hext e (h ▸ hmismatch), h]

def partlyBound : Assignment :=
  (Assignment.empty.setField "meta.ok" (.bool true)).setField "meta.class" (.bits 3)

/-- `!meta.ok && meta.dir` is settled although `meta.dir` has no value, and so is `meta.class || meta.dir`,
    which does not get as far; `meta.ok && acl.active` waits for the symbol. -/
theorem errors_truthful_answers_stay_direction :
    let dir := Term.field "meta.dir" .bool
    let active := Term.symbol (.active "acl")
    let other := partlyBound.setField "meta.dir" (.bool true)
    (Term.and (.not (.field "meta.ok" .bool)) dir).eval other = .ok (.bool false) ∧
    (Term.or (.field "meta.class" (.bits 4)) dir).eval other = .error .notBoolean ∧
    ∃ s ∈ (Term.and (.field "meta.ok" .bool) active).symbols.toList,
      s.name = "acl.active" ∧ partlyBound.symbol s = none := by
  intro dir active other
  have hext : other.Extends partlyBound := Assignment.extends_setField rfl _
  refine ⟨?_, ?_, ?_⟩
  · exact ((errors_truthful_answers_stay (.and (.not _) dir) partlyBound).2.2 other hext).1 _ rfl
  · exact ((errors_truthful_answers_stay (.or _ dir) partlyBound).2.2 other hext).2 _ trivial rfl
  · exact (errors_truthful_answers_stay (.and _ active) partlyBound).2.1 _ rfl

end Term

end MatchAction
