/-
  MatchAction.Proofs.Symbol — the names of a table's unknowns are told apart.

  A symbol's name is flat: the name of the table, a dot, the beginning that is proper to the
  kind of unknown, and what the unknown itself is called. Tables, fields and actions are
  called after paths and have dots of their own, so a name is not taken apart at its dots.
  It is taken apart at its two ends: no beginning continues another one, and neither does an
  ending that says what part of a key is meant continue another one.

  Proved:
  - `lead_body_eq`: equal symbols of one table are of one kind and called the same.
  - `symbol_eq_cases`: so the unknowns are equal, but for the arguments of actions, where it
    does not show where the name of the action ends.
  - `symbols_distinct`: for one table, and for two of which none is named inside the other.
-/

import Mathlib.Data.List.Infix
import MatchAction.Symbol

namespace MatchAction

theorem toList_prefix_append (s rest : String) : s.toList <+: (s ++ rest).toList := by
  rw [String.toList_append]
  exact List.prefix_append ..

theorem toList_suffix_append (rest s : String) : s.toList <:+ (rest ++ s).toList := by
  rw [String.toList_append]
  exact List.suffix_append ..

/-! ## The parts of a key -/

inductive KeyPart where
  | value
  | ternaryMask
  | lpmPrefix
  | rangeLow
  | rangeHigh
  deriving DecidableEq, Repr

namespace KeyPart

variable {p q : KeyPart} {f g : String}

/-- How the names end; the value itself is named like the field. -/
def suffix : KeyPart → String
  | value => ""
  | ternaryMask => ".mask"
  | lpmPrefix => ".lpm_prefix"
  | rangeLow => ".range_low"
  | rangeHigh => ".range_high"

def symbol : KeyPart → (table field : String) → Ty → Symbol
  | value => Symbol.key
  | ternaryMask => Symbol.ternaryMask
  | lpmPrefix => Symbol.lpmPrefix
  | rangeLow => Symbol.rangeLow
  | rangeHigh => Symbol.rangeHigh

theorem symbol_eq (p : KeyPart) (table field : String) (ty : Ty) :
    p.symbol table field ty = Symbol.key table (field ++ p.suffix) ty := by
  cases p <;> simp only [symbol, Symbol.key, Symbol.ternaryMask, Symbol.lpmPrefix, Symbol.rangeLow,
    Symbol.rangeHigh, suffix, String.append_assoc, String.append_empty]

theorem eq_of_suffix (hp : p ≠ .value) (h : p.suffix.toList <:+ q.suffix.toList) : p = q := by
  revert hp h
  cases p <;> cases q <;> decide

/-- The field is not called like the mask, the prefix length or a bound of another one. -/
def Plain (field : String) : Prop :=
  ∀ p ∈ [ternaryMask, lpmPrefix, rangeLow, rangeHigh], ¬p.suffix.toList <:+ field.toList

instance (field : String) : Decidable (Plain field) := inferInstanceAs (Decidable (∀ p ∈ _, _))

theorem Plain.eq_value (hf : Plain f) (h : p.suffix.toList <:+ f.toList) : p = .value := by
  by_contra hp
  have hmem : p ∈ [ternaryMask, lpmPrefix, rangeLow, rangeHigh] := by
    revert hp
    cases p <;> decide
  exact hf p hmem h

/-- Plain fields of equal names up to their endings are equal, and so are the endings. -/
theorem eq_of_append_suffix (hf : Plain f) (hg : Plain g) (h : f ++ p.suffix = g ++ q.suffix) : f = g ∧ p = q := by
  have hpq : p = q := by
    have hp : p.suffix.toList <:+ (f ++ p.suffix).toList := toList_suffix_append ..
    have hq : q.suffix.toList <:+ (f ++ p.suffix).toList := h ▸ toList_suffix_append ..
    by_cases hpvalue : p = .value
    · subst hpvalue
      rw [suffix, String.append_empty] at hq
      exact (hf.eq_value hq).symm
    · by_cases hqvalue : q = .value
      · subst hqvalue
        rw [h, suffix, String.append_empty] at hp
        exact hg.eq_value hp
      · rcases List.suffix_or_suffix_of_suffix hp hq with hsuffix | hsuffix
        · exact eq_of_suffix hpvalue hsuffix
        · exact (eq_of_suffix hqvalue hsuffix).symm
  subst hpq
  exact ⟨(String.append_left_inj _).mp h, rfl⟩

end KeyPart

/-! ## The unknowns of a table -/

/-- What a symbol of a table stands for. -/
inductive Unknown where
  | active
  | actionChoice
  | ofKey (part : KeyPart) (field : String) (ty : Ty)
  | selectorKey (field : String) (ty : Ty)
  | actionArgument (action param : String) (ty : Ty)
  deriving DecidableEq, Repr

/-- How the names of the unknowns of a kind begin, after the table. -/
inductive Lead where
  | active
  | actionChoice
  | key
  | selector
  | action
  deriving DecidableEq, Repr

namespace Lead

def text : Lead → String
  | active => "active"
  | actionChoice => "action_choice"
  | key => "key."
  | selector => "selector."
  | action => "action."

theorem eq_of_prefix {a b : Lead} (h : a.text.toList <+: b.text.toList) : a = b := by
  revert h
  cases a <;> cases b <;> decide

end Lead

namespace Unknown

variable {table other : String} {a b : Unknown}

def symbol (table : String) : Unknown → Symbol
  | active => .active table
  | actionChoice => .actionChoice table
  | ofKey part field ty => part.symbol table field ty
  | selectorKey field ty => .selectorKey table field ty
  | actionArgument action param ty => .actionArgument table action param ty

def lead : Unknown → Lead
  | active => .active
  | actionChoice => .actionChoice
  | ofKey _ _ _ => .key
  | selectorKey _ _ => .selector
  | actionArgument _ _ _ => .action

def body : Unknown → String
  | active | actionChoice => ""
  | ofKey part field _ => field ++ part.suffix
  | selectorKey field _ => field
  | actionArgument action param _ => action ++ "." ++ param

def ty : Unknown → Ty
  | active => .bool
  | actionChoice => Symbol.choiceTy
  | ofKey _ _ ty | selectorKey _ ty | actionArgument _ _ ty => ty

theorem symbol_eq (table : String) (a : Unknown) :
    a.symbol table = ⟨table ++ "." ++ (a.lead.text ++ a.body), a.ty⟩ := by
  have hjoin : "." ++ (a.lead.text ++ a.body) = "." ++ a.lead.text ++ a.body := String.append_assoc.symm
  rw [String.append_assoc, hjoin]
  cases a with
  | active => rfl
  | actionChoice => rfl
  | ofKey part field ty =>
    rw [symbol, KeyPart.symbol_eq, Symbol.key, String.append_assoc]
    rfl
  | selectorKey field ty =>
    rw [symbol, Symbol.selectorKey, String.append_assoc]
    rfl
  | actionArgument action param ty =>
    rw [symbol, Symbol.actionArgument, body]
    simp only [String.append_assoc]
    rfl

@[simp] theorem symbol_ty (table : String) (a : Unknown) : (a.symbol table).ty = a.ty := by
  rw [symbol_eq]

/-- Equal symbols of one table begin alike and end alike. -/
theorem lead_body_eq (h : a.symbol table = b.symbol table) : a.lead = b.lead ∧ a.body = b.body := by
  rw [symbol_eq, symbol_eq, Symbol.mk.injEq, String.append_right_inj] at h
  have hlead : a.lead = b.lead := by
    have ha : a.lead.text.toList <+: (a.lead.text ++ a.body).toList := toList_prefix_append ..
    have hb : b.lead.text.toList <+: (a.lead.text ++ a.body).toList := h.1 ▸ toList_prefix_append ..
    rcases List.prefix_or_prefix_of_prefix ha hb with hprefix | hprefix
    · exact Lead.eq_of_prefix hprefix
    · exact (Lead.eq_of_prefix hprefix).symm
  rw [hlead, String.append_right_inj] at h
  exact ⟨hlead, h.1⟩

/-- The fields of keys are plain. -/
def PlainKey : Unknown → Prop
  | ofKey _ field _ => KeyPart.Plain field
  | _ => True

/-- Equal symbols of one table stand for the same unknown, or for arguments of actions that are
    called the same when the parameter is put behind the action. -/
theorem symbol_eq_cases (ha : a.PlainKey) (hb : b.PlainKey) (h : a.symbol table = b.symbol table) :
    a = b ∨ ∃ action param action' param' ty, a = actionArgument action param ty ∧
      b = actionArgument action' param' ty ∧ action ++ "." ++ param = action' ++ "." ++ param' := by
  obtain ⟨hlead, hbody⟩ := lead_body_eq h
  have hty : a.ty = b.ty := by rw [← symbol_ty table a, h, symbol_ty]
  -- unknowns that begin alike are built alike
  cases a <;> cases b <;> cases hlead
  case active.active => exact .inl rfl
  case actionChoice.actionChoice => exact .inl rfl
  case ofKey.ofKey part field ty part' field' ty' =>
    obtain ⟨rfl, rfl⟩ := KeyPart.eq_of_append_suffix ha hb hbody
    obtain rfl : ty = ty' := hty
    exact .inl rfl
  case selectorKey.selectorKey field ty field' ty' =>
    obtain rfl : field = field' := hbody
    obtain rfl : ty = ty' := hty
    exact .inl rfl
  case actionArgument.actionArgument action param ty action' param' ty' =>
    obtain rfl : ty = ty' := hty
    exact .inr ⟨action, param, action', param', ty, rfl, rfl, hbody⟩

/-- A last dot ends the name of the action, where the parameter has none. -/
theorem eq_of_dotted {action param action' param' : String} (hp : '.' ∉ param.toList) (hp' : '.' ∉ param'.toList)
    (h : action ++ "." ++ param = action' ++ "." ++ param') : action = action' ∧ param = param' := by
  have hparam : param = param' := by
    have hlists := congrArg String.toList h
    simp only [String.append_assoc, String.toList_append] at hlists
    have hlast : '.' :: param.toList <:+ action.toList ++ '.' :: param.toList := List.suffix_append ..
    have hlast' : '.' :: param'.toList <:+ action.toList ++ '.' :: param.toList := hlists ▸ List.suffix_append ..
    rcases List.suffix_or_suffix_of_suffix hlast hlast' with hsuffix | hsuffix
    · rcases List.suffix_cons_iff.mp hsuffix with heq | hinside
      · exact String.toList_inj.mp (List.cons.inj heq).2
      · exact absurd (hinside.subset (List.mem_cons_self ..)) hp'
    · rcases List.suffix_cons_iff.mp hsuffix with heq | hinside
      · exact (String.toList_inj.mp (List.cons.inj heq).2).symm
      · exact absurd (hinside.subset (List.mem_cons_self ..)) hp
  subst hparam
  rw [String.append_left_inj, String.append_left_inj] at h
  exact ⟨h, rfl⟩

def Plain : Unknown → Prop
  | ofKey _ field _ => KeyPart.Plain field
  | actionArgument _ param _ => '.' ∉ param.toList
  | _ => True

theorem Plain.plainKey (h : a.Plain) : a.PlainKey := by
  cases a with
  | active => trivial
  | actionChoice => trivial
  | ofKey part field ty => exact h
  | selectorKey field ty => trivial
  | actionArgument action param ty => trivial

theorem symbol_inj (ha : a.Plain) (hb : b.Plain) (h : a.symbol table = b.symbol table) : a = b := by
  rcases symbol_eq_cases ha.plainKey hb.plainKey h with heq | ⟨action, param, action', param', ty, rfl, rfl, hdotted⟩
  · exact heq
  · obtain ⟨rfl, rfl⟩ := eq_of_dotted ha hb hdotted
    rfl

/-- The name of neither table goes on, after a dot, in that of the other. -/
def Apart (table other : String) : Prop :=
  ¬(table ++ ".").toList <+: (other ++ ".").toList ∧ ¬(other ++ ".").toList <+: (table ++ ".").toList

instance (table other : String) : Decidable (Apart table other) := inferInstanceAs (Decidable (_ ∧ _))

theorem symbol_ne_of_apart (h : Apart table other) : a.symbol table ≠ b.symbol other := by
  intro heq
  rw [symbol_eq, symbol_eq, Symbol.mk.injEq] at heq
  have ha : (table ++ ".").toList <+: (table ++ "." ++ (a.lead.text ++ a.body)).toList := toList_prefix_append ..
  have hb : (other ++ ".").toList <+: (table ++ "." ++ (a.lead.text ++ a.body)).toList := heq.1 ▸ toList_prefix_append ..
  rcases List.prefix_or_prefix_of_prefix ha hb with hprefix | hprefix
  · exact h.1 hprefix
  · exact h.2 hprefix

/-- The symbols of one table tell its unknowns apart, where the fields of keys are plain and
    parameters have no dot; and no symbol is that of two tables, where neither is named inside the
    other. Fields have to be plain: the value of a key whose field has the ending of a mask, a prefix
    length or a bound stands for that of the field without the ending. -/
theorem symbols_distinct :
    (∀ (table : String) (a b : Unknown), a.Plain → b.Plain → a.symbol table = b.symbol table → a = b) ∧
    (∀ (table other : String) (a b : Unknown), Apart table other → a.symbol table ≠ b.symbol other) ∧
    ∀ (table field : String) (part : KeyPart) (ty : Ty),
      (ofKey .value (field ++ part.suffix) ty).symbol table = (ofKey part field ty).symbol table := by
  refine ⟨fun table a b ha hb h => symbol_inj ha hb h, fun table other a b h => symbol_ne_of_apart h, ?_⟩
  intro table field part ty
  exact (part.symbol_eq table field ty).symm

/-- A key and its mask, and a key of a table that is called like the first one with more behind it. -/
theorem symbols_distinct_acl :
    KeyPart.Plain "hdr.ipv4.dst" ∧
      Symbol.key "ingress.acl" "hdr.ipv4.dst" (.bits 32) ≠ Symbol.ternaryMask "ingress.acl" "hdr.ipv4.dst" (.bits 32) ∧
      Apart "ingress.acl" "ingress.acl_v6" ∧
      Symbol.key "ingress.acl" "hdr.ipv4.dst" (.bits 32) ≠ Symbol.key "ingress.acl_v6" "hdr.ipv4.dst" (.bits 32) := by
  have hplain : KeyPart.Plain "hdr.ipv4.dst" := by decide
  have hapart : Apart "ingress.acl" "ingress.acl_v6" := by decide
  refine ⟨hplain, fun h => ?_, hapart, ?_⟩
  · have heq := symbols_distinct.1 "ingress.acl" (ofKey .value "hdr.ipv4.dst" (.bits 32))
      (ofKey .ternaryMask "hdr.ipv4.dst" (.bits 32)) hplain hplain h
    cases heq
  · exact symbols_distinct.2.1 "ingress.acl" "ingress.acl_v6" (ofKey .value "hdr.ipv4.dst" (.bits 32))
      (ofKey .value "hdr.ipv4.dst" (.bits 32)) hapart

end Unknown

end MatchAction
