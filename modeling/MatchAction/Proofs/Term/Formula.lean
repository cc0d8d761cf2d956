/-
  MatchAction.Proofs.Term.Formula — well-typed boolean terms and the leaves of a term.

  A term is evaluated by looking up its fields and its symbols. `fields` lists the fields
  with their types; the symbols are collected in a set that is handed from operand to
  operand. Whether a term is bound is a matter of these two alone, so the environments under
  which a large term evaluates are those that bind what is collected from it.

  Proved:
  - `mem_addSymbols`: collecting adds the symbols of the term and loses none.
  - `eval_congr`: environments that agree on these leaves give the term the same value.
  - `bound_iff`: a term is bound where the symbols that are collected and its fields are.
  - `bound_all`, `mem_fields_all`, `mem_symbols_all`: the leaves of a conjunction are those of its
    members.
  - `Formula.all`, `Formula.implies`: the builders of constraints keep a term well-typed and
    boolean.
  - `Formula.settled`: such a term evaluates to a boolean wherever it is bound.
-/

import MatchAction.Proofs.SortedMap
import MatchAction.Proofs.Term.Typing

namespace MatchAction

namespace SymbolSet

variable {set : SymbolSet} {s t : Symbol}

theorem mem_toList : s ∈ set.toList ↔ set.get? s = some () := by
  show s ∈ set.keys ↔ _
  rw [SortedMap.mem_keys]
  constructor
  · rintro ⟨_, h⟩
    exact h
  · intro h
    exact ⟨(), h⟩

theorem mem_add : s ∈ (set.add t).toList ↔ s = t ∨ s ∈ set.toList := by
  rw [mem_toList, mem_toList, add, SortedMap.get?_insert_eq_some]
  by_cases h : s = t <;> simp [h]

end SymbolSet

namespace Term

variable {env : Assignment} {a b e : Term} {es : List Term} {s : Symbol}

/-! ## The leaves of a term -/

def fields : Term → List (String × Ty)
  | field path ty => [(path, ty)]
  | not a => a.fields
  | binary _ a b => a.fields ++ b.fields
  | bool _ | constant _ _ | symbol _ => []

def constants : Term → List (Ty × Nat)
  | constant ty n => [(ty, n)]
  | not a => a.constants
  | binary _ a b => a.constants ++ b.constants
  | bool _ | symbol _ | field _ _ => []

theorem fields_literal (ty : Ty) (n : Nat) : (literal ty n).fields = [] := by
  cases ty <;> rfl

theorem symbols_literal (ty : Ty) (n : Nat) : (literal ty n).symbols.toList = [] := by
  cases ty <;> rfl

theorem WellTyped.constants_fit (h : e.WellTyped) : ∀ c ∈ e.constants, c.2 < 2 ^ c.1.width := by
  induction e with
  | bool b => exact List.forall_mem_nil _
  | constant ty n => exact List.forall_mem_singleton.mpr h.2
  | symbol s => exact List.forall_mem_nil _
  | field path ty => exact List.forall_mem_nil _
  | not a ih => exact ih h.1
  | binary op a b iha ihb => exact List.forall_mem_append.mpr ⟨iha h.1, ihb h.2.1⟩

/-- What is collected is what was there before and the symbols of the term. -/
theorem mem_addSymbols (e : Term) (set : SymbolSet) :
    s ∈ (e.addSymbols set).toList ↔ s ∈ set.toList ∨ s ∈ e.symbols.toList := by
  have hempty : s ∉ (∅ : SymbolSet).toList := List.not_mem_nil
  induction e generalizing set with
  | bool b => simp [symbols, addSymbols, hempty]
  | constant ty n => simp [symbols, addSymbols, hempty]
  | symbol t => simp [symbols, addSymbols, SymbolSet.mem_add, hempty, or_comm]
  | field path ty => simp [symbols, addSymbols, hempty]
  | not a ih => exact ih set
  | binary op a b iha ihb =>
    calc s ∈ (b.addSymbols (a.addSymbols set)).toList
      _ ↔ s ∈ (a.addSymbols set).toList ∨ s ∈ b.symbols.toList := ihb (a.addSymbols set)
      _ ↔ (s ∈ set.toList ∨ s ∈ a.symbols.toList) ∨ s ∈ b.symbols.toList := or_congr_left (iha set)
      _ ↔ s ∈ set.toList ∨ s ∈ a.symbols.toList ∨ s ∈ b.symbols.toList := or_assoc
      _ ↔ s ∈ set.toList ∨ s ∈ (b.addSymbols a.symbols).toList := or_congr_right (ihb a.symbols).symm

theorem mem_symbols_binary {op : BinaryOp} :
    s ∈ (binary op a b).symbols.toList ↔ s ∈ a.symbols.toList ∨ s ∈ b.symbols.toList :=
  mem_addSymbols b a.symbols

/-- The value of a term is a matter of the symbols that are collected from it and of its fields. -/
theorem eval_congr {other : Assignment} (hsymbols : ∀ s ∈ e.symbols.toList, env.symbol s = other.symbol s)
    (hfields : ∀ f ∈ e.fields, env.field f.1 = other.field f.1) : e.eval env = e.eval other := by
  induction e with
  | bool b => rfl
  | constant ty n => rfl
  | symbol s =>
    have hs : env.symbol s = other.symbol s := hsymbols s (List.mem_singleton_self s)
    simp only [eval, hs]
  | field path ty =>
    have hpath : env.field path = other.field path := hfields (path, ty) (List.mem_singleton_self _)
    simp only [eval, hpath]
  | not a ih => rw [eval_not_eq, eval_not_eq, ih hsymbols hfields]
  | binary op a b iha ihb =>
    have ha := iha (fun s hs => hsymbols s (mem_symbols_binary.mpr (.inl hs)))
      (fun f hf => hfields f (List.mem_append_left _ hf))
    have hb := ihb (fun s hs => hsymbols s (mem_symbols_binary.mpr (.inr hs)))
      (fun f hf => hfields f (List.mem_append_right _ hf))
    simp only [eval, ha, hb]

theorem bound_iff : e.Bound env ↔
    (∀ s ∈ e.symbols.toList, ∃ v, env.symbol s = some v ∧ v.Fits s.ty) ∧
      ∀ f ∈ e.fields, ∃ v, env.field f.1 = some v ∧ v.Fits f.2 := by
  induction e with
  | bool b => exact iff_of_true trivial ⟨List.forall_mem_nil _, List.forall_mem_nil _⟩
  | constant ty n => exact iff_of_true trivial ⟨List.forall_mem_nil _, List.forall_mem_nil _⟩
  | symbol s =>
    constructor
    · intro h
      exact ⟨List.forall_mem_singleton.mpr h, List.forall_mem_nil _⟩
    · intro h
      exact h.1 s (List.mem_singleton_self s)
  | field path ty =>
    constructor
    · intro h
      exact ⟨List.forall_mem_nil _, List.forall_mem_singleton.mpr h⟩
    · intro h
      exact h.2 (path, ty) (List.mem_singleton_self _)
  | not a ih => exact ih
  | binary op a b iha ihb =>
    simp only [Bound, iha, ihb, mem_symbols_binary, fields, List.forall_mem_append]
    constructor
    · intro ⟨⟨hsa, hfa⟩, hsb, hfb⟩
      exact ⟨fun s hs => hs.elim (hsa s) (hsb s), hfa, hfb⟩
    · intro ⟨hs, hfa, hfb⟩
      exact ⟨⟨fun s h => hs s (.inl h), hfa⟩, fun s h => hs s (.inr h), hfb⟩

theorem bound_all : (all es).Bound env ↔ ∀ e ∈ es, e.Bound env := all_iff trivial fun _ _ => Iff.rfl

theorem mem_fields_all {f : String × Ty} : f ∈ (all es).fields ↔ ∃ e ∈ es, f ∈ e.fields :=
  all_iff_exists (P := fun e => f ∈ e.fields) nofun fun _ _ => List.mem_append

theorem mem_symbols_all : s ∈ (all es).symbols.toList ↔ ∃ e ∈ es, s ∈ e.symbols.toList :=
  all_iff_exists (P := fun e => s ∈ e.symbols.toList) nofun fun _ _ => mem_symbols_binary

/-! ## Formulas -/

structure Formula (e : Term) : Prop where
  typed : e.WellTyped
  boolean : e.ty = .bool

namespace Formula

theorem eq (ha : a.WellTyped) (hb : b.WellTyped) (h : a.ty = b.ty) : (Term.eq a b).Formula := ⟨⟨ha, hb, h⟩, rfl⟩

theorem le {w : Nat} (ha : a.WellTyped) (hb : b.WellTyped) (hta : a.ty = .bits w) (htb : b.ty = .bits w) :
    (Term.le a b).Formula :=
  ⟨⟨ha, hb, hta ▸ nofun, hta.trans htb.symm⟩, rfl⟩

theorem not (h : e.Formula) : (Term.not e).Formula := ⟨⟨h.typed, h.boolean⟩, rfl⟩

theorem and_iff : (Term.and a b).Formula ↔ a.Formula ∧ b.Formula := by
  constructor
  · rintro ⟨⟨ha, hb, hta, htb⟩, -⟩
    exact ⟨⟨ha, hta⟩, hb, htb⟩
  · intro h
    exact ⟨⟨h.1.typed, h.2.typed, h.1.boolean, h.2.boolean⟩, rfl⟩

theorem and (ha : a.Formula) (hb : b.Formula) : (Term.and a b).Formula := and_iff.mpr ⟨ha, hb⟩

theorem implies (ha : a.Formula) (hb : b.Formula) : (Term.implies a b).Formula :=
  ⟨⟨ha.not.typed, hb.typed, rfl, hb.boolean⟩, rfl⟩

theorem all (h : ∀ e ∈ es, e.Formula) : (Term.all es).Formula :=
  (all_iff ⟨trivial, rfl⟩ fun _ _ => and_iff).mpr h

theorem settled (h : e.Formula) (hbound : e.Bound env) : ∃ b, e.evalBool env = .ok b :=
  h.typed.evalBool h.boolean hbound

end Formula

end Term

end MatchAction
