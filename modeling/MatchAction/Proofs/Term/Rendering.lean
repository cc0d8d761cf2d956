/-
  MatchAction.Proofs.Term.Rendering — a term can be read off its text.

  A flag, a constant and a field are one word. A symbol stands between bars, and whatever has
  operands is in parentheses, so the first character of a text tells which of these it is. A word
  goes up to the next blank or closing parenthesis, the name of a symbol up to the next bar;
  between parentheses an operand, an operator and another operand follow each other in the same
  way. So two texts that begin alike are of terms that are alike, and go on alike after them.

  The text does not show the types of fields and symbols, but that of a constant.

  Proved:
  - `eq_of_word`: a word tells whether it is a flag, a constant or a field.
  - `eq_of_text_append`: what stands in front of two equal texts is one term.
  - `text_determines`: terms have the same text if and only if they are the same up to the types of
    their fields and symbols, and so keys that are called by their text share a field name only
    if they match the same term.
-/

import MatchAction.Program.Basic
import MatchAction.Proofs.Lists

namespace MatchAction

namespace Term

variable {a b e : Term} {rest more : List Char}

/-- The term without the types of its fields and symbols. -/
def untyped : Term → Term
  | bool value => bool value
  | constant ty n => constant ty n
  | symbol s => symbol ⟨s.name, .bool⟩
  | field path _ => field path .bool
  | not a => not a.untyped
  | binary op a b => binary op a.untyped b.untyped

theorem text_untyped (e : Term) : e.untyped.text = e.text := by
  induction e with
  | bool value => rfl
  | constant ty n => rfl
  | symbol s => rfl
  | field path ty => rfl
  | not a ih => simp only [untyped, text, ih]
  | binary op a b iha ihb => simp only [untyped, text, iha, ihb]

/-! ## Names that can be told from the rest of a text -/

def marks : List Char := [' ', '(', ')', '|', '!']

/-- The path is a word, and neither a number nor a flag. -/
structure PlainPath (path : String) : Prop where
  nonempty : path ≠ ""
  unmarked : ∀ c ∈ path.toList, c ∉ marks
  noNumber : ∀ c ∈ path.toList.head?, ¬c.isDigit
  noFlag : path ≠ "true" ∧ path ≠ "false"

/-- The paths of the fields are plain, and no symbol has a bar in its name. -/
def Legible : Term → Prop
  | bool _ | constant _ _ => True
  | symbol s => '|' ∉ s.name.toList
  | field path _ => PlainPath path
  | not a => a.Legible
  | binary _ a b => a.Legible ∧ b.Legible

/-! ## Words -/

/-- How a term begins that is not written as one word. -/
def lead : Term → Option Char
  | bool _ | constant _ _ | field _ _ => none
  | symbol _ => some '|'
  | not _ => some '!'
  | binary _ _ _ => some '('

theorem isDigit_of_mem_repr {n : Nat} {c : Char} (h : c ∈ (toString n).toList) : c.isDigit := by
  rw [Nat.toString_eq_repr, Nat.toList_repr] at h
  exact Nat.isDigit_of_mem_toDigits (by decide) (by decide) h

theorem repr_inj {m n : Nat} (h : (toString m).toList = (toString n).toList) : m = n := by
  rw [Nat.toString_eq_repr, Nat.toString_eq_repr, Nat.toList_repr, Nat.toList_repr] at h
  have hvalue := congrArg (fun digits => Nat.ofDigitChars 10 digits 0) h
  simpa only [Nat.ofDigitChars_toDigits (b := 10) (by decide) (by decide)] using hvalue

theorem exists_digit_repr (n : Nat) : ∃ c tail, (toString n).toList = c :: tail ∧ c.isDigit := by
  cases h : (toString n).toList with
  | nil =>
    rw [Nat.toString_eq_repr, Nat.toList_repr] at h
    exact absurd h Nat.toDigits_ne_nil
  | cons c tail => exact ⟨c, tail, rfl, isDigit_of_mem_repr (h ▸ List.mem_cons_self)⟩

/-- A digit is no mark and does not begin a flag. -/
theorem not_mem_of_isDigit {c : Char} (h : c.isDigit) : c ∉ marks ∧ c ≠ 't' ∧ c ≠ 'f' ∧ c ≠ 'w' := by
  have hall : ∀ m ∈ 't' :: 'f' :: 'w' :: marks, (!m.isDigit) = true := List.all_eq_true.mp (by decide)
  have hne : ∀ m ∈ 't' :: 'f' :: 'w' :: marks, c ≠ m := by
    rintro m hm rfl
    exact absurd h (by simpa using hall c hm)
  exact ⟨fun hc => hne c (by simp [hc]) rfl, hne 't' (by simp), hne 'f' (by simp), hne 'w' (by simp)⟩

theorem chars_bits (w n : Nat) :
    (constant (.bits w) n).text.toList = (toString w).toList ++ 'w' :: (toString n).toList := by
  simp only [text, String.toList_append, toString]
  simp

theorem chars_symbol (s : Symbol) : (symbol s).text.toList = '|' :: (s.name.toList ++ ['|']) := by
  simp [text, Symbol.text]

theorem chars_not (a : Term) : (not a).text.toList = '!' :: '(' :: (a.text.toList ++ [')']) := by
  simp [text]

theorem chars_binary (op : BinaryOp) (a b : Term) : (binary op a b).text.toList =
    '(' :: (a.text.toList ++ ' ' :: (op.text.toList ++ ' ' :: (b.text.toList ++ [')']))) := by
  simp [text]

theorem exists_digit_constant (ty : Ty) (n : Nat) :
    ∃ c tail, (constant ty n).text.toList = c :: tail ∧ c.isDigit := by
  cases ty with
  | bool => exact exists_digit_repr n
  | bits w =>
    obtain ⟨c, tail, hw, hc⟩ := exists_digit_repr w
    exact ⟨c, tail ++ 'w' :: (toString n).toList, by rw [chars_bits, hw, List.cons_append], hc⟩

theorem unmarked_constant (ty : Ty) (n : Nat) : ∀ c ∈ (constant ty n).text.toList, c ∉ marks := by
  intro c hc
  cases ty with
  | bool => exact (not_mem_of_isDigit (isDigit_of_mem_repr hc)).1
  | bits w =>
    rw [chars_bits, List.mem_append, List.mem_cons] at hc
    rcases hc with hc | rfl | hc
    · exact (not_mem_of_isDigit (isDigit_of_mem_repr hc)).1
    · decide
    · exact (not_mem_of_isDigit (isDigit_of_mem_repr hc)).1

/-- A constant shows its type, as a number of bits before its value. -/
theorem constant_text_inj {ty ty' : Ty} {n n' : Nat} (h : (constant ty n).text = (constant ty' n').text) :
    ty = ty' ∧ n = n' := by
  have hw : ∀ k : Nat, ∀ c ∈ (toString k).toList, c ≠ 'w' := fun k c hc =>
    (not_mem_of_isDigit (isDigit_of_mem_repr hc)).2.2.2
  have hmixed : ∀ w k k' : Nat, (toString k).toList ≠ (constant (.bits w) k').text.toList := by
    intro w k k' heq
    have hmem : 'w' ∈ (constant (.bits w) k').text.toList := by
      rw [chars_bits]
      exact List.mem_append_right _ List.mem_cons_self
    exact hw k 'w' (heq ▸ hmem) rfl
  cases ty with
  | bool =>
    cases ty' with
    | bool => exact ⟨rfl, repr_inj (congrArg String.toList h)⟩
    | bits w => exact absurd (congrArg String.toList h) (hmixed w n n')
  | bits w =>
    cases ty' with
    | bool => exact absurd (congrArg String.toList h).symm (hmixed w n' n)
    | bits w' =>
      have hchars := congrArg String.toList h
      rw [chars_bits, chars_bits] at hchars
      obtain ⟨hwidth, hvalue⟩ := append_inj_of_stop (hw w) (hw w') (by simp) (by simp) hchars
      have hwidth : w = w' := repr_inj hwidth
      have hvalue : n = n' := repr_inj (List.cons.inj hvalue).2
      exact ⟨congrArg Ty.bits hwidth, hvalue⟩

theorem flag_ne_constant (value : Bool) (ty : Ty) (n : Nat) : (bool value).text ≠ (constant ty n).text := by
  intro h
  obtain ⟨c, tail, hchars, hc⟩ := exists_digit_constant ty n
  rw [← h] at hchars
  obtain ⟨-, ht, hf, -⟩ := not_mem_of_isDigit hc
  cases value
  · exact hf (List.cons.inj hchars).1.symm
  · exact ht (List.cons.inj hchars).1.symm

theorem PlainPath.ne_flag {path : String} (h : PlainPath path) (value : Bool) : (bool value).text ≠ path := by
  cases value
  · exact h.noFlag.2.symm
  · exact h.noFlag.1.symm

theorem PlainPath.ne_constant {path : String} (h : PlainPath path) (ty : Ty) (n : Nat) :
    (constant ty n).text ≠ path := by
  rintro rfl
  obtain ⟨c, tail, hchars, hc⟩ := exists_digit_constant ty n
  exact h.noNumber c (by rw [hchars]; rfl) hc

/-- A word tells whether it is a flag, a constant or a field. -/
theorem eq_of_word (ha : a.lead = none) (hb : b.lead = none) (hla : a.Legible) (hlb : b.Legible) (h : a.text = b.text) :
    a.untyped = b.untyped := by
  cases a with
  | bool value =>
    cases b with
    | bool value' => revert h; cases value <;> cases value' <;> decide
    | constant ty n => exact absurd h (flag_ne_constant value ty n)
    | field path ty => exact absurd h (PlainPath.ne_flag hlb value)
    | symbol s => exact nomatch hb
    | not b => exact nomatch hb
    | binary op b b' => exact nomatch hb
  | constant ty n =>
    cases b with
    | bool value => exact absurd h.symm (flag_ne_constant value ty n)
    | constant ty' n' =>
      obtain ⟨rfl, rfl⟩ := constant_text_inj h
      rfl
    | field path ty' => exact absurd h (PlainPath.ne_constant hlb ty n)
    | symbol s => exact nomatch hb
    | not b => exact nomatch hb
    | binary op b b' => exact nomatch hb
  | field path ty =>
    cases b with
    | bool value => exact absurd h.symm (PlainPath.ne_flag hla value)
    | constant ty' n => exact absurd h.symm (PlainPath.ne_constant hla ty' n)
    | field path' ty' =>
      obtain rfl : path = path' := h
      rfl
    | symbol s => exact nomatch hb
    | not b => exact nomatch hb
    | binary op b b' => exact nomatch hb
  | symbol s => exact nomatch ha
  | not a => exact nomatch ha
  | binary op a a' => exact nomatch ha

/-! ## One term after another -/

theorem unmarked_of_word (hword : e.lead = none) (h : e.Legible) : ∀ c ∈ e.text.toList, c ∉ marks := by
  cases e with
  | bool value => cases value <;> simp [text, toString, marks]
  | constant ty n => exact unmarked_constant ty n
  | field path ty => exact h.unmarked
  | symbol s => nomatch hword
  | not a => nomatch hword
  | binary op a b => nomatch hword

/-- A term begins as it has to, and a word with no mark. -/
theorem exists_lead (h : e.Legible) :
    ∃ c tail, e.text.toList = c :: tail ∧ (e.lead = some c ∨ e.lead = none ∧ c ∉ marks) := by
  have hword : e.text.toList ≠ [] → e.lead = none →
      ∃ c tail, e.text.toList = c :: tail ∧ (e.lead = some c ∨ e.lead = none ∧ c ∉ marks) := by
    intro hne hlead
    obtain ⟨c, tail, hchars⟩ := List.exists_cons_of_ne_nil hne
    exact ⟨c, tail, hchars, .inr ⟨hlead, unmarked_of_word hlead h c (hchars ▸ List.mem_cons_self)⟩⟩
  cases e with
  | bool value => exact hword (by cases value <;> decide) rfl
  | constant ty n =>
    obtain ⟨c, tail, hchars, -⟩ := exists_digit_constant ty n
    exact hword (hchars ▸ List.cons_ne_nil c tail) rfl
  | field path ty => exact hword (fun hnil => h.nonempty (String.toList_eq_nil_iff.mp hnil)) rfl
  | symbol s => exact ⟨'|', _, chars_symbol s, .inl rfl⟩
  | not a => exact ⟨'!', _, chars_not a, .inl rfl⟩
  | binary op a b => exact ⟨'(', _, chars_binary op a b, .inl rfl⟩

/-- The first character tells how a term begins. -/
theorem lead_eq (ha : a.Legible) (hb : b.Legible) (h : a.text.toList ++ rest = b.text.toList ++ more) :
    a.lead = b.lead := by
  have hmark : ∀ (e : Term) (c : Char), e.lead = some c → c ∈ marks := by
    intro e c hc
    cases e <;> simp only [lead, Option.some.injEq, reduceCtorEq] at hc <;> subst hc <;> decide
  obtain ⟨c, tail, hca, hleada⟩ := exists_lead ha
  obtain ⟨d, tail', hcb, hleadb⟩ := exists_lead hb
  rw [hca, hcb] at h
  obtain rfl : c = d := (List.cons.inj h).1
  rcases hleada with hleada | ⟨hleada, hplain⟩
  · rcases hleadb with hleadb | ⟨-, hplain⟩
    · rw [hleada, hleadb]
    · exact absurd (hmark a c hleada) hplain
  · rcases hleadb with hleadb | ⟨hleadb, -⟩
    · exact absurd (hmark b c hleadb) hplain
    · rw [hleada, hleadb]

/-- What follows a term inside of another one, if anything does. -/
def Ends (rest : List Char) : Prop := ∀ c ∈ rest.head?, c = ' ' ∨ c = ')'

theorem ends_blank (rest : List Char) : Ends (' ' :: rest) := fun _ hc => .inl (Option.some.inj hc).symm

theorem ends_close (rest : List Char) : Ends (')' :: rest) := fun _ hc => .inr (Option.some.inj hc).symm

theorem ne_end_of_unmarked {c : Char} (h : c ∉ marks) : ¬(c = ' ' ∨ c = ')') := by
  rintro (rfl | rfl) <;> exact h (by decide)

theorem eq_of_word_append (hleada : a.lead = none) (hleadb : b.lead = none) (ha : a.Legible) (hb : b.Legible)
    (hrest : Ends rest) (hmore : Ends more) (h : a.text.toList ++ rest = b.text.toList ++ more) :
    a.untyped = b.untyped ∧ rest = more := by
  obtain ⟨htext, hafter⟩ := append_inj_of_stop
    (fun c hc => ne_end_of_unmarked (unmarked_of_word hleada ha c hc))
    (fun c hc => ne_end_of_unmarked (unmarked_of_word hleadb hb c hc)) hrest hmore h
  exact ⟨eq_of_word hleada hleadb ha hb (String.toList_injective htext), hafter⟩

theorem operator_append_inj {op op' : BinaryOp} (h : op.text.toList ++ ' ' :: rest = op'.text.toList ++ ' ' :: more) :
    op = op' ∧ rest = more := by
  have hunmarked : ∀ op : BinaryOp, ∀ c ∈ op.text.toList, c ≠ ' ' := by
    intro op
    cases op <;> simp [BinaryOp.text]
  obtain ⟨htext, hafter⟩ := append_inj_of_stop (hunmarked op) (hunmarked op') (by simp) (by simp) h
  refine ⟨?_, (List.cons.inj hafter).2⟩
  revert htext
  cases op <;> cases op' <;> decide

theorem eq_of_text_append (ha : a.Legible) (hb : b.Legible) (hrest : Ends rest) (hmore : Ends more)
    (h : a.text.toList ++ rest = b.text.toList ++ more) : a.untyped = b.untyped ∧ rest = more := by
  have hlead : a.lead = b.lead := lead_eq ha hb h
  induction a generalizing b rest more with
  | bool value => exact eq_of_word_append rfl hlead.symm ha hb hrest hmore h
  | constant ty n => exact eq_of_word_append rfl hlead.symm ha hb hrest hmore h
  | field path ty => exact eq_of_word_append rfl hlead.symm ha hb hrest hmore h
  | symbol s =>
    cases b with
    | symbol t =>
      rw [chars_symbol, chars_symbol, List.cons_append, List.cons_append, List.append_assoc, List.append_assoc] at h
      have hs : ∀ c ∈ s.name.toList, ¬c = '|' := fun c hc heq => ha (heq ▸ hc)
      have ht : ∀ c ∈ t.name.toList, ¬c = '|' := fun c hc heq => hb (heq ▸ hc)
      obtain ⟨hname, hafter⟩ := append_inj_of_stop hs ht (by simp) (by simp) (List.cons.inj h).2
      have hname : s.name = t.name := String.toList_injective hname
      exact ⟨by rw [untyped, untyped, hname], (List.cons.inj hafter).2⟩
    | _ => nomatch hlead
  | not a ih =>
    cases b with
    | not b =>
      rw [chars_not, chars_not] at h
      simp only [List.cons_append, List.append_assoc, List.cons.injEq, true_and, List.nil_append] at h
      have hb : b.Legible := hb
      obtain ⟨hoperand, hafter⟩ := ih ha hb (ends_close rest) (ends_close more) h (lead_eq ha hb h)
      exact ⟨congrArg Term.not hoperand, (List.cons.inj hafter).2⟩
    | _ => nomatch hlead
  | binary op a a' iha iha' =>
    cases b with
    | binary op' b b' =>
      rw [chars_binary, chars_binary] at h
      simp only [List.cons_append, List.append_assoc, List.cons.injEq, true_and, List.nil_append] at h
      obtain ⟨hleft, hfromOperator⟩ := iha ha.1 hb.1 (ends_blank _) (ends_blank _) h (lead_eq ha.1 hb.1 h)
      obtain ⟨rfl, hfromRight⟩ := operator_append_inj (List.cons.inj hfromOperator).2
      obtain ⟨hright, hafter⟩ := iha' ha.2 hb.2 (ends_close rest) (ends_close more) hfromRight
        (lead_eq ha.2 hb.2 hfromRight)
      exact ⟨congrArg₂ (Term.binary op) hleft hright, (List.cons.inj hafter).2⟩
    | _ => nomatch hlead

/-- The text of a term leaves nothing open but the types of its fields and symbols. So keys that are
    called by their text share a field name only where they match the same term. -/
theorem text_determines :
    (∀ a b : Term, a.Legible → b.Legible → (a.text = b.text ↔ a.untyped = b.untyped)) ∧
      ∀ k l : Key, k.name = none → l.name = none → k.expr.Legible → l.expr.Legible → k.fieldName = l.fieldName →
        k.expr.untyped = l.expr.untyped := by
  have hiff : ∀ a b : Term, a.Legible → b.Legible → (a.text = b.text ↔ a.untyped = b.untyped) := by
    intro a b ha hb
    constructor
    · intro h
      have hnil : Ends [] := fun c hc => nomatch hc
      exact (eq_of_text_append ha hb hnil hnil (by rw [h])).1
    · intro h
      rw [← text_untyped a, ← text_untyped b, h]
  refine ⟨hiff, fun k l hk hl hke hle h => (hiff _ _ hke hle).mp ?_⟩
  rw [Key.fieldName, Key.fieldName, hk, hl] at h
  exact h

/-- An address under a mask that is unknown; the unknown is called after a key without a name. -/
def maskedAddress (w : Nat) : Term :=
  .eq (.bitAnd (.field "hdr.ip.dst" (.bits w)) (.symbol ⟨"acl.key.(hdr.ip.dst & 8w7).mask", .bits w⟩))
    (.constant (.bits 8) 3)

theorem maskedAddress_legible (w : Nat) : (maskedAddress w).Legible := by
  have hpath : PlainPath "hdr.ip.dst" := ⟨by decide, by simp [marks], by simp, by decide⟩
  have hname : '|' ∉ "acl.key.(hdr.ip.dst & 8w7).mask".toList := by simp
  exact ⟨⟨hpath, hname⟩, trivial⟩

/-- The same address with other types has the same text. -/
theorem text_determines_maskedAddress :
    (maskedAddress 32).Legible ∧ (maskedAddress 16).Legible ∧
      ((maskedAddress 32).text = (maskedAddress 16).text ↔
        (maskedAddress 32).untyped = (maskedAddress 16).untyped) ∧
      Key.fieldName ⟨maskedAddress 32, "ternary", none⟩ = Key.fieldName ⟨maskedAddress 16, "ternary", none⟩ ∧
      (maskedAddress 32).untyped = (maskedAddress 16).untyped := by
  have hname : Key.fieldName ⟨maskedAddress 32, "ternary", none⟩ =
      Key.fieldName ⟨maskedAddress 16, "ternary", none⟩ := by decide
  exact ⟨maskedAddress_legible 32, maskedAddress_legible 16,
    text_determines.1 _ _ (maskedAddress_legible 32) (maskedAddress_legible 16), hname,
    text_determines.2 ⟨maskedAddress 32, "ternary", none⟩ ⟨maskedAddress 16, "ternary", none⟩ rfl rfl
      (maskedAddress_legible 32) (maskedAddress_legible 16) hname⟩

/-- A path that begins with a digit can be taken for a constant. -/
example : (field "8w3" .bool).text = (constant (.bits 8) 3).text := by decide

end Term

end MatchAction
