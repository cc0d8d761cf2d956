/-
  MatchAction.Proofs.Resolve.LongPrefix — the mask of a resolved lpm key, whatever its prefix is.

  The prefix of a resolved lpm key is a symbol of the key's own type, so the control plane may
  bind it to any number below `2 ^ width`, also to one above the width. What the prefix leaves
  over is computed in the bits of the key, and so is the shift by it.

  Proved: up to the width the mask is that of the prefix (`prefixMask`), and above the width it
  is zero. A key under the mask zero agrees with every value, so the table then matches
  whatever the key is.
-/

import MatchAction.Proofs.Resolve.Convergence

namespace MatchAction

open Term

variable {env : Assignment} {ctx : MatchContext} {w p : Nat}

theorem corePredicate?_lpm (hkind : ctx.key.matchKind = "lpm") :
    ctx.corePredicate? = some (ctx.maskedPredicate ctx.lpmMask) := by
  rw [MatchContext.corePredicate?, hkind]
  rfl

theorem eval_lpmMask_of_lt (hty : ctx.ty = .bits w) (hp : p < 2 ^ w)
    (hs : env.symbol (.lpmPrefix ctx.table ctx.field ctx.ty) = some (.bits p)) :
    ctx.lpmMask.eval env = .ok (.bits (if p ≤ w then prefixMask w p else 0)) := by
  rw [eval_lpmMask_eq hty hs, Value.shiftLeft_sub_eq hp]

/-- Under a mask without bits the key and its value agree, whatever they are. -/
theorem holds_of_mask_zero {mask : Term} {k v : Nat} (hmask : mask.eval env = .ok (.bits 0))
    (hk : ctx.expr.eval env = .ok (.bits k))
    (hv : env.symbol (.key ctx.table ctx.field ctx.ty) = some (.bits v)) : (ctx.maskedPredicate mask).Holds env := by
  refine (decides_maskedPredicate hk hv hmask).holds_iff.mpr ?_
  rw [Nat.and_zero, Nat.and_zero]

namespace MatchContext

/-- The mask that an lpm key of `w` bits is resolved with is the mask of the prefix up to the width of
    the key, and zero for a longer prefix that the bits of the key can hold: then the predicate is
    true of every key. -/
theorem lpmMask_any_prefix (hkind : ctx.key.matchKind = "lpm") (hty : ctx.ty = .bits w) (hp : p < 2 ^ w)
    (hs : env.symbol (.lpmPrefix ctx.table ctx.field ctx.ty) = some (.bits p)) :
    ctx.corePredicate? = some (ctx.maskedPredicate ctx.lpmMask) ∧
    ctx.lpmMask.eval env = .ok (.bits (if p ≤ w then prefixMask w p else 0)) ∧
    (w < p → ∀ k v, ctx.expr.eval env = .ok (.bits k) →
      env.symbol (.key ctx.table ctx.field ctx.ty) = some (.bits v) →
      (ctx.maskedPredicate ctx.lpmMask).evalBool env = .ok true) := by
  have hmask := eval_lpmMask_of_lt hty hp hs
  refine ⟨corePredicate?_lpm hkind, hmask, ?_⟩
  intro hlong k v hk hv
  rw [if_neg (Nat.not_le.mpr hlong)] at hmask
  exact holds_of_mask_zero hmask hk hv

end MatchContext

def lanePrefix : MatchContext where
  table := "steer"
  key := ⟨.field "meta.lane" (.bits 2), "lpm", some "lane"⟩

/-- A packet in lane 1 of a table whose value is 2, with a prefix of `length` bits. -/
def laneAssignment (length : Nat) : Assignment :=
  ((Assignment.empty.setField "meta.lane" (.bits 1)).setSymbol (.key "steer" "lane" (.bits 2)) (.bits 2)).setSymbol
    (.lpmPrefix "steer" "lane" (.bits 2)) (.bits length)

/-- A prefix of three of two bits is no prefix: lane 1 matches lane 2. -/
theorem lpmMask_any_prefix_lane :
    lanePrefix.lpmMask.eval (laneAssignment 3) = .ok (.bits 0) ∧
    (lanePrefix.maskedPredicate lanePrefix.lpmMask).evalBool (laneAssignment 3) = .ok true := by
  have hprefix : (laneAssignment 3).symbol (.lpmPrefix "steer" "lane" (.bits 2)) = some (.bits 3) := rfl
  obtain ⟨-, hmask, hlong⟩ := lanePrefix.lpmMask_any_prefix (w := 2) rfl rfl (by decide) hprefix
  exact ⟨hmask, hlong (by decide) 1 2 rfl rfl⟩

end MatchAction
