/-
  MatchAction.Proofs.Term.Typing — well-typed terms and what their value is.

  A term is well-typed when every operator has operands of the types it takes and every
  constant is a number below `2 ^ width` of a bit-vector type. `Ty.Carrier` is the type of
  the values proper, booleans and bit vectors of the width, and `denote` is the meaning of a
  term over them: comparisons are unsigned, a shift drops what leaves the width, and a
  subtraction wraps. The evaluator works on numbers of any size instead and reduces only
  what it must.

  Proved: for a well-typed term whose fields and symbols are bound to values of their types,
  - `eval_eq_denote`: evaluation succeeds with the number or boolean that `denote` gives;
  - `WellTyped.eval_sound`: so the value is one of the term's type, below `2 ^ width` for bits.
-/

import MatchAction.Proofs.ModularArithmetic
import MatchAction.Proofs.Term.Decides

namespace MatchAction

/-! ## Values of a type -/

def Value.Fits : Value → Ty → Prop
  | bool _, .bool => True
  | bits n, .bits w => n < 2 ^ w
  | _, _ => False

instance : (v : Value) → (ty : Ty) → Decidable (v.Fits ty)
  | .bool _, .bool => .isTrue trivial
  | .bits n, .bits w => inferInstanceAs (Decidable (n < 2 ^ w))
  | .bool _, .bits _ | .bits _, .bool => .isFalse id

/-- The values of a type: booleans, or bit vectors of its width. -/
abbrev Ty.Carrier : Ty → Type
  | bool => Bool
  | bits w => BitVec w

instance : (ty : Ty) → DecidableEq ty.Carrier
  | .bool => inferInstanceAs (DecidableEq Bool)
  | .bits w => inferInstanceAs (DecidableEq (BitVec w))

def Ty.Carrier.value : {ty : Ty} → ty.Carrier → Value
  | .bool, b => .bool b
  | .bits _, x => .bits (BitVec.toNat x)

def Ty.read : (ty : Ty) → Option Value → ty.Carrier
  | bool, some (.bool b) => b
  | bits w, some (.bits n) => BitVec.ofNat w n
  | bool, _ => false
  | bits w, _ => BitVec.zero w

theorem Ty.Carrier.value_fits {ty : Ty} (x : ty.Carrier) : x.value.Fits ty := by
  cases ty with
  | bool => trivial
  | bits w => exact BitVec.isLt x

theorem Ty.value_read {ty : Ty} {v : Value} (h : v.Fits ty) : (ty.read (some v)).value = v := by
  cases v with
  | bool b =>
    cases ty with
    | bool => rfl
    | bits w => cases h
  | bits n =>
    cases ty with
    | bool => cases h
    | bits w => exact congrArg Value.bits ((BitVec.toNat_ofNat n w).trans (Nat.mod_eq_of_lt h))

theorem Ty.Carrier.value_inj {ty : Ty} {x y : ty.Carrier} : x.value = y.value ↔ x = y := by
  cases ty with
  | bool =>
    constructor
    · exact Value.bool.inj
    · exact congrArg _
  | bits w =>
    constructor
    · intro h
      exact BitVec.eq_of_toNat_eq (Value.bits.inj h)
    · exact congrArg _

/-! ## Well-typed terms -/

/-- The operands that an operator takes: two booleans, two values of one type, or two bit
    vectors of one width. -/
def BinaryOp.Takes : BinaryOp → Ty → Ty → Prop
  | and, l, r | or, l, r => l = .bool ∧ r = .bool
  | eq, l, r | ne, l, r => l = r
  | lt, l, r | le, l, r | bitAnd, l, r | shiftLeft, l, r | sub, l, r => l ≠ .bool ∧ l = r

instance (op : BinaryOp) (l r : Ty) : Decidable (op.Takes l r) := by
  cases op <;> unfold BinaryOp.Takes <;> infer_instance

theorem Ty.eq_bits_of_ne_bool {l r : Ty} (h : l ≠ .bool ∧ l = r) : ∃ w, l = .bits w ∧ r = .bits w := by
  obtain ⟨hl, rfl⟩ := h
  cases l with
  | bool => exact absurd rfl hl
  | bits w => exact ⟨w, rfl, rfl⟩

namespace Value

theorem shiftLeft_toNat {w : Nat} (x y : BitVec w) : shiftLeft w x.toNat y.toNat = (x <<< y).toNat := by
  rw [shiftLeft_eq_mod, BitVec.shiftLeft_eq', BitVec.toNat_shiftLeft, Nat.shiftLeft_eq]

theorem sub_toNat {w : Nat} (x y : BitVec w) : sub w x.toNat y.toNat = (x - y).toNat := by
  have hy := y.isLt
  have hplus : x.toNat + 2 ^ w - y.toNat = 2 ^ w - y.toNat + x.toNat := by omega
  rw [sub_eq_mod, Nat.mod_eq_of_lt x.isLt, Nat.mod_eq_of_lt hy, BitVec.toNat_sub, hplus]

end Value

namespace Term

def WellTyped : Term → Prop
  | bool _ | symbol _ | field _ _ => True
  | constant ty n => ty ≠ .bool ∧ n < 2 ^ ty.width
  | not a => a.WellTyped ∧ a.ty = .bool
  | binary op a b => a.WellTyped ∧ b.WellTyped ∧ op.Takes a.ty b.ty

instance decidableWellTyped : (e : Term) → Decidable e.WellTyped
  | bool _ | symbol _ | field _ _ => .isTrue trivial
  | constant ty n => inferInstanceAs (Decidable (ty ≠ .bool ∧ n < 2 ^ ty.width))
  | not a =>
    have := decidableWellTyped a
    inferInstanceAs (Decidable (a.WellTyped ∧ a.ty = .bool))
  | binary op a b =>
    have := decidableWellTyped a
    have := decidableWellTyped b
    inferInstanceAs (Decidable (a.WellTyped ∧ b.WellTyped ∧ op.Takes a.ty b.ty))

/-- Every field and every symbol of the term is bound to a value of its type. -/
def Bound (env : Assignment) : Term → Prop
  | bool _ | constant _ _ => True
  | symbol s => ∃ v, env.symbol s = some v ∧ v.Fits s.ty
  | field path ty => ∃ v, env.field path = some v ∧ v.Fits ty
  | not a => a.Bound env
  | binary _ a b => a.Bound env ∧ b.Bound env

/-- The meaning of a term as a value of `ty`, in arithmetic of fixed width. Only the terms of
    that type have one; of any other type a term means false or zero. -/
def denote (env : Assignment) : Term → (ty : Ty) → ty.Carrier
  | bool b, .bool => b
  | constant _ n, .bits w => BitVec.ofNat w n
  | symbol s, ty => ty.read (env.symbol s)
  | field path _, ty => ty.read (env.field path)
  | not a, .bool => !a.denote env .bool
  | binary .and a b, .bool => a.denote env .bool && b.denote env .bool
  | binary .or a b, .bool => a.denote env .bool || b.denote env .bool
  | binary .eq a b, .bool => decide (a.denote env a.ty = b.denote env a.ty)
  | binary .ne a b, .bool => decide (a.denote env a.ty ≠ b.denote env a.ty)
  | binary .lt a b, .bool => (a.denote env (.bits a.ty.width)).ult (b.denote env (.bits a.ty.width))
  | binary .le a b, .bool => (a.denote env (.bits a.ty.width)).ule (b.denote env (.bits a.ty.width))
  | binary .bitAnd a b, .bits w => a.denote env (.bits w) &&& b.denote env (.bits w)
  | binary .shiftLeft a b, .bits w => a.denote env (.bits w) <<< b.denote env (.bits w)
  | binary .sub a b, .bits w => a.denote env (.bits w) - b.denote env (.bits w)
  | _, .bool => false
  | _, .bits w => BitVec.zero w

/-! ## The evaluator has the meaning -/

variable {env : Assignment} {a b e : Term}

/-- One operator, whose operands evaluate to what they mean. -/
theorem eval_binary {op : BinaryOp} {ty : Ty} (hop : op.Takes a.ty b.ty) (hty : (binary op a b).ty = ty)
    (ha : ∀ {t}, a.ty = t → a.eval env = .ok (a.denote env t).value)
    (hb : ∀ {t}, b.ty = t → b.eval env = .ok (b.denote env t).value) :
    (binary op a b).eval env = .ok ((binary op a b).denote env ty).value := by
  subst hty
  cases op with
  | and => exact eval_and (ha hop.1) (hb hop.2)
  | or => exact eval_or (ha hop.1) (hb hop.2)
  | eq =>
    have hop : a.ty = b.ty := hop
    refine (eval_eq (ha rfl) (hb hop.symm)).trans ?_
    simp only [Ty.Carrier.value_inj]
    rfl
  | ne =>
    have hop : a.ty = b.ty := hop
    refine (eval_ne (ha rfl) (hb hop.symm)).trans ?_
    simp only [ne_eq, Ty.Carrier.value_inj]
    rfl
  | lt =>
    obtain ⟨w, hta, htb⟩ := Ty.eq_bits_of_ne_bool hop
    have hw : a.ty.width = w := congrArg Ty.width hta
    subst hw
    exact eval_lt (ha hta) (hb htb)
  | le =>
    obtain ⟨w, hta, htb⟩ := Ty.eq_bits_of_ne_bool hop
    have hw : a.ty.width = w := congrArg Ty.width hta
    subst hw
    exact eval_le (ha hta) (hb htb)
  | bitAnd =>
    obtain ⟨w, hta, htb⟩ := Ty.eq_bits_of_ne_bool hop
    show _ = Except.ok ((binary .bitAnd a b).denote env a.ty).value
    rw [hta]
    exact (eval_bitAnd (ha hta) (hb htb)).trans (congrArg (Except.ok ∘ Value.bits) (BitVec.toNat_and ..).symm)
  | shiftLeft =>
    obtain ⟨w, hta, htb⟩ := Ty.eq_bits_of_ne_bool hop
    refine (eval_shiftLeft (ha hta) (hb htb)).trans ?_
    show _ = Except.ok ((binary .shiftLeft a b).denote env a.ty).value
    rw [hta]
    exact congrArg (Except.ok ∘ Value.bits) (Value.shiftLeft_toNat ..)
  | sub =>
    obtain ⟨w, hta, htb⟩ := Ty.eq_bits_of_ne_bool hop
    refine (eval_sub (ha hta) (hb htb)).trans ?_
    show _ = Except.ok ((binary .sub a b).denote env a.ty).value
    rw [hta]
    exact congrArg (Except.ok ∘ Value.bits) (Value.sub_toNat ..)

theorem eval_eq_denote {ty : Ty} (h : e.WellTyped) (hbound : e.Bound env) (hty : e.ty = ty) :
    e.eval env = .ok (e.denote env ty).value := by
  induction e generalizing ty with
  | bool b =>
    subst hty
    rfl
  | constant t n =>
    subst hty
    obtain ⟨ht, hn⟩ := h
    cases t with
    | bool => exact absurd rfl ht
    | bits w => exact congrArg (Except.ok ∘ Value.bits) ((BitVec.toNat_ofNat n w).trans (Nat.mod_eq_of_lt hn)).symm
  | symbol s =>
    subst hty
    obtain ⟨v, hv, hfits⟩ := hbound
    rw [eval_symbol hv, denote, hv]
    exact congrArg _ (Ty.value_read hfits).symm
  | field path t =>
    subst hty
    obtain ⟨v, hv, hfits⟩ := hbound
    rw [eval_field hv, denote, hv]
    exact congrArg _ (Ty.value_read hfits).symm
  | not a ih =>
    subst hty
    exact eval_not (ih h.1 hbound h.2)
  | binary op a b iha ihb => exact eval_binary h.2.2 hty (iha h.1 hbound.1) (ihb h.2.1 hbound.2)

theorem WellTyped.evalBool (h : e.WellTyped) (hty : e.ty = .bool) (hbound : e.Bound env) :
    ∃ b, e.evalBool env = .ok b := by
  refine ⟨e.denote env .bool, ?_⟩
  rw [Term.evalBool, eval_eq_denote h hbound hty]
  rfl

/-- Evaluating a well-typed term never fails: the value is one of the term's type, and it is the
    one that arithmetic of fixed width gives. -/
theorem WellTyped.eval_sound (h : e.WellTyped) (hbound : e.Bound env) :
    ∃ v, e.eval env = .ok v ∧ v.Fits e.ty ∧ v = (e.denote env e.ty).value :=
  ⟨_, eval_eq_denote h hbound rfl, Ty.Carrier.value_fits _, rfl⟩

/-- `(ip.ttl - 200) << 3`, where both the subtraction and the shift leave the eight bits. -/
def wrapping : Term :=
  .shiftLeft (.sub (.field "ip.ttl" (.bits 8)) (.constant (.bits 8) 200)) (.constant (.bits 8) 3)

def ttl100 : Assignment := Assignment.empty.setField "ip.ttl" (.bits 100)

theorem wrapping_bound : wrapping.Bound ttl100 :=
  ⟨⟨⟨.bits 100, rfl, by decide⟩, trivial⟩, trivial⟩

theorem eval_sound_wrapping : wrapping.WellTyped ∧ wrapping.Bound ttl100 ∧
    wrapping.eval ttl100 = .ok (.bits 224) ∧ (Value.bits 224).Fits (.bits 8) := by
  have htyped : wrapping.WellTyped := by decide
  obtain ⟨v, hv, hfits, hmeans⟩ := WellTyped.eval_sound htyped wrapping_bound
  obtain rfl : v = .bits 224 := hmeans.trans (by decide)
  exact ⟨htyped, wrapping_bound, hv, hfits⟩

end Term

end MatchAction
