/-
  MatchAction.Proofs.PrefixMask — the mask of a prefix, as a shift and read back.

  A resolved key shifts all ones to the left by what the prefix leaves over, in the bits of
  the key; a converted entry carries the mask of its prefix as a number. The two are the
  same number for every prefix that is no longer than the key, and no bit is left of the
  shift for a longer one (`shiftLeft_sub_eq`). An embedded entry gives the mask itself: it
  is the mask of at most one prefix, and the search finds that one.

  The mask of a prefix has the top bits of the width set and no others (`testBit_prefixMask`).
  A number with other bits set, or with bits above the width, is the mask of no prefix
  (`prefixLength?_eq_none`), and every length comes back from its mask (`prefixMask_inverse`).

  Numbers agree under a mask where they agree in its bits (`and_eq_and_iff`); under the mask
  of a prefix, where they agree in what is left above the rest (`and_prefixMask_eq_iff`).
-/

import MatchAction.Proofs.ModularArithmetic

namespace MatchAction

theorem prefixMask_eq {w p : Nat} (h : p ≤ w) : prefixMask w p = 2 ^ w - 2 ^ (w - p) := by
  rw [prefixMask, Nat.min_eq_left h]
  split
  · rename_i h0
    rw [h0, Nat.sub_zero, Nat.sub_self]
  · rw [Nat.sub_mul, Nat.one_mul, ← Nat.pow_add, Nat.add_sub_cancel' h]

theorem prefixMask_lt (w p : Nat) : prefixMask w p < 2 ^ w := by
  have hw := Nat.two_pow_pos w
  have hmin : prefixMask w p = prefixMask w (min p w) := by
    rw [prefixMask, prefixMask, Nat.min_assoc, Nat.min_self]
  rw [hmin, prefixMask_eq (Nat.min_le_right p w)]
  have hrest := Nat.two_pow_pos (w - min p w)
  omega

theorem testBit_prefixMask (w p i : Nat) :
    (prefixMask w p).testBit i = (decide (w - p ≤ i) && decide (i < w)) := by
  rw [prefixMask]
  split
  · rename_i h
    rw [Nat.zero_testBit, eq_comm, Bool.and_eq_false_iff, decide_eq_false_iff_not, decide_eq_false_iff_not]
    omega
  · rw [Nat.testBit_mul_two_pow, Nat.testBit_two_pow_sub_one, Bool.eq_iff_iff]
    simp only [Bool.and_eq_true, decide_eq_true_eq]
    omega

theorem prefixMask_inj {w p q : Nat} (hp : p ≤ w) (hq : q ≤ w) (h : prefixMask w p = prefixMask w q) : p = q := by
  rw [prefixMask_eq hp, prefixMask_eq hq] at h
  have hple : 2 ^ (w - p) ≤ 2 ^ w := Nat.pow_le_pow_right Nat.two_pos (Nat.sub_le w p)
  have hqle : 2 ^ (w - q) ≤ 2 ^ w := Nat.pow_le_pow_right Nat.two_pos (Nat.sub_le w q)
  have hpow : 2 ^ (w - p) = 2 ^ (w - q) := by omega
  have hexp : w - p = w - q := Nat.pow_right_injective (Nat.le_refl 2) hpow
  omega

/-- The search finds the least of the lengths it tries whose mask is `mask`. -/
theorem findPrefixLength_eq_some {w mask tries start p : Nat} :
    findPrefixLength w mask tries start = some p ↔
      start ≤ p ∧ p < start + tries ∧ prefixMask w p = mask ∧ ∀ q, start ≤ q → q < p → prefixMask w q ≠ mask := by
  induction tries generalizing start with
  | zero =>
    simp only [findPrefixLength, reduceCtorEq, false_iff]
    intro ⟨h1, h2, _⟩
    omega
  | succ tries ih =>
    rw [findPrefixLength]
    split
    · rename_i h
      constructor
      · intro hp
        obtain rfl := Option.some.inj hp
        exact ⟨Nat.le_refl _, by omega, h, fun q h1 h2 => by omega⟩
      · intro ⟨h1, _, _, hleast⟩
        have : start = p := by
          by_contra hne
          exact hleast start (Nat.le_refl _) (by omega) h
        rw [this]
    · rename_i h
      rw [ih]
      constructor
      · intro ⟨h1, h2, hp, hleast⟩
        refine ⟨by omega, by omega, hp, fun q hq hqp => ?_⟩
        by_cases hqs : q = start
        · rw [hqs]
          exact h
        · exact hleast q (by omega) hqp
      · intro ⟨h1, h2, hp, hleast⟩
        have : start ≠ p := fun heq => h (heq ▸ hp)
        exact ⟨by omega, by omega, hp, fun q hq hqp => hleast q (by omega) hqp⟩

theorem prefixLength?_eq_some {w mask p : Nat} : prefixLength? w mask = some p ↔ p ≤ w ∧ prefixMask w p = mask := by
  rw [prefixLength?, findPrefixLength_eq_some]
  constructor
  · intro ⟨_, h, hp, _⟩
    exact ⟨by omega, hp⟩
  · rintro ⟨h, rfl⟩
    refine ⟨Nat.zero_le p, by omega, rfl, fun q _ hqp hq => ?_⟩
    have := prefixMask_inj (by omega) h hq
    omega

/-! ## Masks of top bits -/

/-- The bits that are set are the top `length` of the width. -/
def IsTopBits (width length mask : Nat) : Prop := ∀ i, mask.testBit i = true ↔ width - length ≤ i ∧ i < width

theorem isTopBits_prefixMask (w p : Nat) : IsTopBits w (min p w) (prefixMask w p) := by
  intro i
  rw [testBit_prefixMask, Bool.and_eq_true, decide_eq_true_eq, decide_eq_true_eq]
  omega

/-- No other number has the same bits set. -/
theorem isTopBits_iff {w mask p : Nat} (h : p ≤ w) : IsTopBits w p mask ↔ prefixMask w p = mask := by
  have hmask := isTopBits_prefixMask w p
  rw [Nat.min_eq_left h] at hmask
  constructor
  · intro hbits
    exact Nat.eq_of_testBit_eq fun i => Bool.eq_iff_iff.mpr ((hmask i).trans (hbits i).symm)
  · rintro rfl
    exact hmask

theorem prefixLength?_eq_none {w mask : Nat} : prefixLength? w mask = none ↔ ¬∃ p ≤ w, IsTopBits w p mask := by
  rw [Option.eq_none_iff_forall_ne_some]
  constructor
  · rintro h ⟨p, hp, hbits⟩
    exact h p (prefixLength?_eq_some.mpr ⟨hp, (isTopBits_iff hp).mp hbits⟩)
  · intro h p hp
    obtain ⟨hle, hmask⟩ := prefixLength?_eq_some.mp hp
    exact h ⟨p, hle, (isTopBits_iff hle).mpr hmask⟩

/-- A mask that is wider than the field is the mask of no prefix. -/
theorem prefixLength?_of_le {w mask : Nat} (h : 2 ^ w ≤ mask) : prefixLength? w mask = none := by
  rw [Option.eq_none_iff_forall_ne_some]
  intro p hp
  obtain ⟨-, rfl⟩ := prefixLength?_eq_some.mp hp
  exact absurd (prefixMask_lt w p) (Nat.not_lt.mpr h)

/-- The mask of a prefix has exactly the top bits set, and the length that is read off a mask is that
    of its prefix: every length comes back, and a number that is not some top bits of the width has none. -/
theorem prefixMask_inverse (width : Nat) :
    (∀ length, IsTopBits width (min length width) (prefixMask width length)) ∧
    (∀ mask length, prefixLength? width mask = some length ↔ length ≤ width ∧ mask = prefixMask width length) ∧
    (∀ mask, prefixLength? width mask = none ↔ ¬∃ length ≤ width, IsTopBits width length mask) ∧
    (∀ mask, 2 ^ width ≤ mask → prefixLength? width mask = none) ∧
    ∀ length ≤ width, prefixLength? width (prefixMask width length) = some length := by
  refine ⟨isTopBits_prefixMask width, fun mask length => ?_, fun _ => prefixLength?_eq_none,
    fun _ => prefixLength?_of_le, fun length h => prefixLength?_eq_some.mpr ⟨h, rfl⟩⟩
  rw [prefixLength?_eq_some, eq_comm]

/-- The top four of eight bits are a prefix, with one bit above the width they are none. -/
theorem prefixMask_inverse_byte :
    (prefixMask 8 4 = 0xf0 ∧ prefixLength? 8 0xf0 = some 4) ∧ prefixLength? 8 0x1f0 = none := by
  obtain ⟨-, -, -, hwide, hback⟩ := prefixMask_inverse 8
  exact ⟨⟨by decide, hback 4 (by decide)⟩, hwide 0x1f0 (by decide)⟩

/-! ## Numbers under a mask -/

theorem and_eq_and_iff {k v m : Nat} : k &&& m = v &&& m ↔ ∀ i, m.testBit i = true → k.testBit i = v.testBit i := by
  constructor
  · intro h i hi
    have hbit : (k &&& m).testBit i = (v &&& m).testBit i := by rw [h]
    rw [Nat.testBit_and, Nat.testBit_and, hi, Bool.and_true, Bool.and_true] at hbit
    exact hbit
  · intro h
    apply Nat.eq_of_testBit_eq
    intro i
    rw [Nat.testBit_and, Nat.testBit_and]
    cases hi : m.testBit i with
    | false => rw [Bool.and_false, Bool.and_false]
    | true => rw [h i hi]

theorem div_two_pow_eq_iff {k v s : Nat} :
    k / 2 ^ s = v / 2 ^ s ↔ ∀ i, s ≤ i → k.testBit i = v.testBit i := by
  constructor
  · intro h i hi
    have hbit : (k / 2 ^ s).testBit (i - s) = (v / 2 ^ s).testBit (i - s) := by rw [h]
    rw [Nat.testBit_div_two_pow, Nat.testBit_div_two_pow, Nat.sub_add_cancel hi] at hbit
    exact hbit
  · intro h
    apply Nat.eq_of_testBit_eq
    intro i
    rw [Nat.testBit_div_two_pow, Nat.testBit_div_two_pow]
    exact h (i + s) (Nat.le_add_left s i)

/-- Under the mask of a prefix only the bits from `w - p` up to the width count, and numbers of that
    width have no others above them. -/
theorem and_prefixMask_eq_iff {w p k v : Nat} (hk : k < 2 ^ w) (hv : v < 2 ^ w) :
    k &&& prefixMask w p = v &&& prefixMask w p ↔ k / 2 ^ (w - p) = v / 2 ^ (w - p) := by
  rw [and_eq_and_iff, div_two_pow_eq_iff]
  refine forall_congr' fun i => ?_
  rw [testBit_prefixMask, Bool.and_eq_true, decide_eq_true_eq, decide_eq_true_eq]
  constructor
  · intro h hi
    by_cases hw : i < w
    · exact h ⟨hi, hw⟩
    · have hpow : 2 ^ w ≤ 2 ^ i := Nat.pow_le_pow_right Nat.two_pos (Nat.not_lt.mp hw)
      rw [Nat.testBit_lt_two_pow (Nat.lt_of_lt_of_le hk hpow), Nat.testBit_lt_two_pow (Nat.lt_of_lt_of_le hv hpow)]
  · intro h hi
    exact h hi.1

/-! ## A mask as a shift -/

theorem pred_mul_mod {n d : Nat} (hd : 0 < d) (hdn : d ≤ n) : (n - 1) * d % n = n - d := by
  have hn : n ≤ n * d := Nat.le_mul_of_pos_right n hd
  have h : (n - 1) * d = n * (d - 1) + (n - d) := by
    rw [Nat.sub_mul, Nat.mul_sub, Nat.one_mul, Nat.mul_one]
    omega
  rw [h, Nat.mul_add_mod, Nat.mod_eq_of_lt (by omega)]

namespace Value

/-- All ones, shifted left by what a prefix leaves over, is the mask of the prefix. -/
theorem shiftLeft_sub_eq_prefixMask {w p : Nat} (h : p ≤ w) :
    shiftLeft w (2 ^ w - 1) (sub w w p) = prefixMask w p := by
  rw [sub_of_le Nat.lt_two_pow_self h, shiftLeft_eq_mod, prefixMask_eq h]
  exact pred_mul_mod (Nat.two_pow_pos _) (Nat.pow_le_pow_right Nat.two_pos (Nat.sub_le w p))

/-- A prefix that is longer than the key leaves less than nothing over: the difference wraps to a
    number above the width, and a shift by that leaves no bit. -/
theorem shiftLeft_sub_eq_zero {w p : Nat} (a : Nat) (h : w < p) (hp : p < 2 ^ w) : shiftLeft w a (sub w w p) = 0 := by
  have hw : w < 2 ^ w := Nat.lt_two_pow_self
  have hwrapped : sub w w p = w + 2 ^ w - p := by
    rw [sub_eq_mod, Nat.mod_eq_of_lt hw, Nat.mod_eq_of_lt hp, Nat.mod_eq_of_lt (by omega)]
  rw [hwrapped, shiftLeft, if_neg (by omega)]

theorem shiftLeft_sub_eq {w p : Nat} (hp : p < 2 ^ w) :
    shiftLeft w (2 ^ w - 1) (sub w w p) = if p ≤ w then prefixMask w p else 0 := by
  by_cases h : p ≤ w
  · rw [if_pos h, shiftLeft_sub_eq_prefixMask h]
  · rw [if_neg h, shiftLeft_sub_eq_zero _ (Nat.not_le.mp h) hp]

end Value

end MatchAction
