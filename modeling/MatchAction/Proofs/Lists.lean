/-
  MatchAction.Proofs.Lists — lists whose members have names, and lists in another order.

  A list in another order is given by where each of its places goes. What a test lets through
  stays in its order where the places of the members that pass do.

  Proved:
  - `find?_of_nodup`: a member is found by a name that no other member has.
  - `append_inj_of_stop`: what comes before the first member that stops a list is told from the rest.
  - `perm_of_moved`, `filter_eq_of_moved`: what a list and the moved list have in common.
-/

import Mathlib.Data.Fin.Embedding
import Mathlib.Data.List.FinRange

namespace MatchAction

variable {α : Type*} {xs ys : List α}

theorem find?_of_nodup {β : Type*} [BEq β] [LawfulBEq β] (name : α → β) (h : (xs.map name).Nodup) {x : α}
    (hx : x ∈ xs) : xs.find? (name · == name x) = some x := by
  induction xs with
  | nil => cases hx
  | cons y ys ih =>
    rw [List.map_cons, List.nodup_cons] at h
    rcases List.mem_cons.mp hx with rfl | hx
    · exact List.find?_cons_of_pos (beq_self_eq_true _)
    · have hne : name y ≠ name x := fun heq => h.1 (heq ▸ List.mem_map_of_mem hx)
      rw [List.find?_cons_of_neg (by simpa using hne)]
      exact ih h.2 hx

/-- Two lists go on alike before the first member that stops them, and from there on. -/
theorem append_inj_of_stop {stop : α → Prop} {rest more : List α} (hxs : ∀ x ∈ xs, ¬stop x) (hys : ∀ y ∈ ys, ¬stop y)
    (hrest : ∀ x ∈ rest.head?, stop x) (hmore : ∀ y ∈ more.head?, stop y) (h : xs ++ rest = ys ++ more) :
    xs = ys ∧ rest = more := by
  induction xs generalizing ys with
  | nil =>
    cases ys with
    | nil => exact ⟨rfl, h⟩
    | cons y ys =>
      have hstop : stop y := hrest y (by rw [show rest = y :: ys ++ more from h]; rfl)
      exact absurd hstop (hys y List.mem_cons_self)
  | cons x xs ih =>
    cases ys with
    | nil =>
      have hstop : stop x := hmore x (by rw [← show x :: xs ++ rest = more from h]; rfl)
      exact absurd hstop (hxs x List.mem_cons_self)
    | cons y ys =>
      obtain ⟨rfl, htail⟩ := List.cons.inj h
      obtain ⟨rfl, hrest⟩ := ih (fun x hx => hxs x (List.mem_cons_of_mem _ hx))
        (fun y hy => hys y (List.mem_cons_of_mem _ hy)) htail
      exact ⟨rfl, hrest⟩

/-! ## In another order -/

/-- The places of a list, each moved to a place of its own in another list: the other list has as many. -/
theorem finRange_moved {m n : Nat} (move : Fin m ≃ Fin n) : ((List.finRange m).map move).Perm (List.finRange n) := by
  obtain rfl : m = n := Fin.equiv_iff_eq.mp ⟨move⟩
  exact Equiv.Perm.map_finRange_perm move

theorem map_getElem_moved (move : Fin xs.length ≃ Fin ys.length) (hmove : ∀ i, ys[move i] = xs[i]) :
    ((List.finRange xs.length).map move).map (ys[·]) = xs := by
  rw [List.map_map]
  have heach : ((ys[·]) ∘ move : Fin xs.length → α) = (xs[·]) := funext hmove
  rw [heach]
  exact List.map_getElem_finRange xs

theorem perm_of_moved (move : Fin xs.length ≃ Fin ys.length) (hmove : ∀ i, ys[move i] = xs[i]) :
    xs.Perm ys := by
  have hperm := (finRange_moved move).map (ys[·])
  rw [map_getElem_moved move hmove] at hperm
  have hys : (List.finRange ys.length).map (ys[·]) = ys := List.map_getElem_finRange ys
  rw [hys] at hperm
  exact hperm

/-- The members that pass a test are the same in the same order, where the move keeps the order
    of these. -/
theorem filter_eq_of_moved (move : Fin xs.length ≃ Fin ys.length) (hmove : ∀ i, ys[move i] = xs[i])
    {p : α → Bool} (horder : ∀ i j, i < j → p xs[i] → p xs[j] → move i < move j) :
    xs.filter p = ys.filter p := by
  -- the places that pass, in increasing order: there is one way to list them
  have hplaces : ((List.finRange xs.length).map move).filter (fun j => p ys[j]) =
      (List.finRange ys.length).filter fun j => p ys[j] := by
    have hsorted : ((List.finRange ys.length).filter fun j => p ys[j]).Pairwise (· < ·) :=
      (List.pairwise_lt_finRange _).filter _
    have hmoved : (((List.finRange xs.length).map move).filter fun j => p ys[j]).Pairwise (· < ·) := by
      rw [List.pairwise_filter, List.pairwise_map]
      refine (List.pairwise_lt_finRange _).imp fun {i j} hij hi hj => ?_
      rw [hmove] at hi hj
      exact horder i j hij hi hj
    have hperm := (finRange_moved move).filter fun j => p ys[j]
    exact hperm.eq_of_pairwise (fun i j _ _ hij hji => absurd hij (lt_asymm hji)) hmoved hsorted
  have hxs : xs.filter p = (((List.finRange xs.length).map move).filter fun j => p ys[j]).map (ys[·]) := by
    conv_lhs => rw [← map_getElem_moved move hmove, List.filter_map]
    rfl
  have hys : ys.filter p = ((List.finRange ys.length).filter fun j => p ys[j]).map (ys[·]) := by
    conv_lhs => rw [← List.map_getElem_finRange ys, List.filter_map]
    rfl
  rw [hxs, hys, hplaces]

end MatchAction
