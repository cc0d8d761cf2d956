/-
  MatchAction.PrefixMask — masks that select the top bits of a field.

  `prefixMask w p` has the top `p` of `w` bits set; a longer prefix than the field counts
  as the whole field. `prefixLength?` reads the length back off a mask.
-/

import MatchAction.Ty

namespace MatchAction

/-- The mask of the top `length` bits of a field of `width` bits. -/
def prefixMask (width length : Nat) : Nat :=
  let length := min length width
  if length = 0 then 0 else (2 ^ length - 1) * 2 ^ (width - length)

/-- The least length from `length` up whose mask is `mask`, trying `tries` lengths. -/
def findPrefixLength (width mask : Nat) : (tries length : Nat) → Option Nat
  | 0, _ => none
  | tries + 1, length =>
    if prefixMask width length = mask then some length else findPrefixLength width mask tries (length + 1)

def prefixLength? (width mask : Nat) : Option Nat := findPrefixLength width mask (width + 1) 0

end MatchAction
