/-
  MatchAction.Proofs.ModularArithmetic — shifts and differences in the bits of a type.

  A shift and a subtraction give their result modulo `2 ^ width`. Their operands need not be of
  that width: a constant and an assignment hold any number, and a shift may be by any amount.

  Nothing is ever subtracted from a smaller number on the way. To say so, the same numbers are
  computed a second time, with masks and remainders and with a subtraction that is refused below
  zero; none is refused, and the results are the same.

  Proved:
  - `shiftLeft_eq_mod`, `sub_eq_mod`, `sub_eq_emod`: the results as remainders, of natural numbers
    and of integers.
  - `maxValue?_eq`, `shiftLeft?_eq`, `sub?_eq`, `prefixMask?_eq`: no subtraction is refused.
-/

import Mathlib.Data.Nat.PSub
import MatchAction.PrefixMask
import MatchAction.Term.Eval

namespace MatchAction

/-! ## Results as remainders -/

namespace Value

theorem shiftLeft_eq_mod (w a s : Nat) : shiftLeft w a s = a * 2 ^ s % 2 ^ w := by
  unfold shiftLeft
  split
  · rw [Ty.wrap_eq, Nat.shiftLeft_eq]
  · rename_i h
    exact (Nat.mod_eq_zero_of_dvd (Nat.dvd_mul_left_of_dvd (Nat.pow_dvd_pow 2 (Nat.not_lt.mp h)) a)).symm

/-- The modulus is added before the subtraction, whether there is a borrow or not. -/
theorem sub_eq_mod (w a b : Nat) : sub w a b = (a % 2 ^ w + 2 ^ w - b % 2 ^ w) % 2 ^ w := by
  have ha : a % 2 ^ w < 2 ^ w := Nat.mod_lt a (Nat.two_pow_pos w)
  have hb : b % 2 ^ w < 2 ^ w := Nat.mod_lt b (Nat.two_pow_pos w)
  simp only [sub, Ty.wrap_eq]
  by_cases h : b % 2 ^ w ≤ a % 2 ^ w
  · have hplus : a % 2 ^ w + 2 ^ w - b % 2 ^ w = a % 2 ^ w - b % 2 ^ w + 2 ^ w := by omega
    have hlt : a % 2 ^ w - b % 2 ^ w < 2 ^ w := by omega
    rw [if_pos h, hplus, Nat.add_mod_right, Nat.mod_eq_of_lt hlt]
  · have hlt : a % 2 ^ w + 2 ^ w - b % 2 ^ w < 2 ^ w := by omega
    rw [if_neg h, Nat.mod_eq_of_lt hlt]

/-- Without a borrow, subtracting is subtraction. -/
theorem sub_of_le {w a b : Nat} (ha : a < 2 ^ w) (h : b ≤ a) : sub w a b = a - b := by
  have hb : b < 2 ^ w := Nat.lt_of_le_of_lt h ha
  simp only [sub, Ty.wrap_eq, Nat.mod_eq_of_lt ha, Nat.mod_eq_of_lt hb, if_pos h]

theorem sub_eq_emod (w a b : Nat) : ((sub w a b : Nat) : Int) = ((a : Int) - (b : Int)) % ((2 ^ w : Nat) : Int) := by
  rw [sub_eq_mod]
  generalize hm : 2 ^ w = m
  have hpos : 0 < m := hm ▸ Nat.two_pow_pos w
  have hle : b % m ≤ a % m + m := by
    have := Nat.mod_lt b hpos
    omega
  have hcast : ((a % m + m - b % m : Nat) : Int) = (a : Int) % m - (b : Int) % m + m := by
    omega
  rw [Int.natCast_emod, hcast, Int.add_emod_right, ← Int.sub_emod]

end Value

/-! ## The same numbers with a subtraction that can be refused -/

theorem psub_one_shiftLeft (n : Nat) : Nat.psub (1 <<< n) 1 = some (2 ^ n - 1) := by
  rw [Nat.one_shiftLeft]
  exact Nat.psub_eq_sub (Nat.two_pow_pos n)

def Ty.maxValue? (ty : Ty) : Option Nat :=
  if ty.width = 0 then some 0 else Nat.psub (1 <<< ty.width) 1

theorem Ty.maxValue?_eq (ty : Ty) : ty.maxValue? = some ty.maxValue := by
  unfold Ty.maxValue? Ty.maxValue
  by_cases h : ty.width = 0
  · rw [if_pos h, h]
    rfl
  · rw [if_neg h, psub_one_shiftLeft]

namespace Value

def shiftLeft? (ty : Ty) (a shift : Nat) : Option Nat :=
  if shift < ty.width then do return a <<< shift &&& (← ty.maxValue?) else some 0

theorem shiftLeft?_eq (ty : Ty) (a shift : Nat) : shiftLeft? ty a shift = some (shiftLeft ty.width a shift) := by
  unfold shiftLeft? shiftLeft
  by_cases h : shift < ty.width
  · rw [if_pos h, if_pos h, Ty.maxValue?_eq, Ty.wrap_eq, ← Nat.and_two_pow_sub_one_eq_mod]
    rfl
  · rw [if_neg h, if_neg h]

/-- The remainders subtracted, after the modulus has been added to the first. -/
def sub? (ty : Ty) (a b : Nat) : Option Nat := do
  let modulus := (← ty.maxValue?) + 1
  let difference ← Nat.psub (a % modulus + modulus) (b % modulus)
  return difference % modulus

theorem sub?_eq (ty : Ty) (a b : Nat) : sub? ty a b = some (sub ty.width a b) := by
  have hpos := Nat.two_pow_pos ty.width
  have hmodulus : ty.maxValue + 1 = 2 ^ ty.width := Nat.sub_add_cancel hpos
  have hle : b % 2 ^ ty.width ≤ a % 2 ^ ty.width + 2 ^ ty.width := by
    have := Nat.mod_lt b hpos
    omega
  simp only [sub?, Ty.maxValue?_eq, Option.bind_eq_bind, Option.bind_some, hmodulus, Nat.psub_eq_sub hle, sub_eq_mod]
  rfl

end Value

def prefixMask? (width length : Nat) : Option Nat := do
  let length := min length width
  if length = 0 then return 0
  let ones ← Nat.psub (1 <<< length) 1
  let rest ← Nat.psub width length
  return ones <<< rest

theorem prefixMask?_eq (width length : Nat) : prefixMask? width length = some (prefixMask width length) := by
  unfold prefixMask? prefixMask
  by_cases h : min length width = 0
  · simp only [h, if_true]
    rfl
  · simp only [h, if_false, psub_one_shiftLeft, Nat.psub_eq_sub (Nat.min_le_right length width)]
    exact congrArg some (Nat.shiftLeft_eq ..)

/-! ## The operators -/

/-- A shift and a subtraction are arithmetic modulo `2 ^ width`, for operands of any size and a shift
    by any amount, and no subtraction is below zero: neither that of two operands nor those with
    which the greatest value of a type and the mask of a prefix are computed. -/
theorem operators_modular (ty : Ty) (a b : Nat) :
    Value.shiftLeft ty.width a b = a * 2 ^ b % 2 ^ ty.width ∧
    ((Value.sub ty.width a b : Nat) : Int) = ((a : Int) - (b : Int)) % ((2 ^ ty.width : Nat) : Int) ∧
    Value.shiftLeft? ty a b = some (Value.shiftLeft ty.width a b) ∧
    Value.sub? ty a b = some (Value.sub ty.width a b) ∧
    ty.maxValue? = some ty.maxValue ∧
    ∀ width length, prefixMask? width length = some (prefixMask width length) :=
  ⟨Value.shiftLeft_eq_mod .., Value.sub_eq_emod .., Value.shiftLeft?_eq .., Value.sub?_eq .., ty.maxValue?_eq,
    prefixMask?_eq⟩

end MatchAction
