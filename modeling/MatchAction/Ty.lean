/-
  MatchAction.Ty — the types a key field, an action parameter or an unknown can have:
  booleans and unsigned bit vectors.

  A value fits a type when its binary digits do; `fits_iff` says that this is the bound
  `2 ^ width`, which is not computed, so widths may be as large as a wire number. `wrap`
  is the remainder modulo that bound (`wrap_eq`).
-/

namespace MatchAction

/-- A power of numbers is that of `Nat`, also where the power of a monoid is in scope. -/
@[default_instance 20000]
instance (priority := high) natPow : Pow Nat Nat := instPowNat

inductive Ty where
  | bool
  | bits (width : Nat)
  deriving DecidableEq, Repr, Inhabited

namespace Ty

def width : Ty → Nat
  | bool => 1
  | bits w => w

def isBool : Ty → Bool
  | bool => true
  | bits _ => false

def maxValue (ty : Ty) : Nat := 2 ^ ty.width - 1

def text : Ty → String
  | bool => "bool"
  | bits w => s!"bit<{w}>"

/-- How many binary digits `n` has; zero has none. -/
def bitLength (n : Nat) : Nat := if n = 0 then 0 else n.log2 + 1

def fits (ty : Ty) (value : Nat) : Bool := bitLength value ≤ ty.width

theorem bitLength_le_iff {n w : Nat} : bitLength n ≤ w ↔ n < 2 ^ w := by
  unfold bitLength
  split
  · rename_i h
    subst h
    exact iff_of_true (Nat.zero_le w) (Nat.two_pow_pos w)
  · rename_i h
    exact Nat.log2_lt h

theorem fits_iff {ty : Ty} {value : Nat} : ty.fits value = true ↔ value < 2 ^ ty.width := by
  simp [fits, bitLength_le_iff]

theorem fits_zero (ty : Ty) : ty.fits 0 = true := fits_iff.mpr (Nat.two_pow_pos ty.width)

theorem fits_maxValue (ty : Ty) : ty.fits ty.maxValue = true := by
  have := Nat.two_pow_pos ty.width
  rw [fits_iff, maxValue]
  omega

/-- What is left of `n` in `width` binary digits; the bound is computed only where it is exceeded. -/
def wrap (width n : Nat) : Nat := if bitLength n ≤ width then n else n % 2 ^ width

theorem wrap_eq (width n : Nat) : wrap width n = n % 2 ^ width := by
  unfold wrap
  split
  · rename_i h; exact (Nat.mod_eq_of_lt (bitLength_le_iff.1 h)).symm
  · rfl

/-! ## Order: booleans first, then by width -/

def rank : Ty → Nat
  | bool => 0
  | bits w => w + 1

theorem rank_inj {a b : Ty} (h : a.rank = b.rank) : a = b := by
  cases a <;> cases b <;> simp_all [rank]

instance : Ord Ty := ⟨compareOn rank⟩

instance : Std.TransOrd Ty := inferInstanceAs (Std.TransCmp (compareOn rank))

instance : Std.LawfulEqOrd Ty where
  compare_self {a} := Nat.compare_eq_eq.2 (Eq.refl a.rank)
  eq_of_compare {_ _} h := rank_inj (Nat.compare_eq_eq.1 h)

end Ty

end MatchAction
