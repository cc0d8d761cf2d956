/-
  MatchAction.Proofs.SortedMap — sorted maps by their members.

  A map lists exactly the pairs that looking up gives. A map made of a list of pairs holds
  the last pair of each key, so where the keys are different it holds them all, in whatever
  order they came. Changing what one key holds changes what the values list together by
  what that key lists.
-/

import MatchAction.Proofs.Latest
import MatchAction.SortedMap

namespace MatchAction.SortedMap

variable {κ β : Type} [Ord κ] [Std.TransOrd κ] [Std.LawfulEqOrd κ] {k : κ} {b : β}

theorem mem_iff_find {l : List (κ × β)} (h : l.Pairwise fun x y => compare x.1 y.1 = .lt) :
    (k, b) ∈ l ↔ find k l = some b := by
  induction l with
  | nil => simp [find]
  | cons e rest ih =>
    obtain ⟨k', b'⟩ := e
    obtain ⟨hlt, hrest⟩ := List.pairwise_cons.mp h
    rw [List.mem_cons, Prod.mk.injEq, ih hrest, find]
    by_cases hk : k = k'
    · subst hk
      rw [if_pos Std.ReflCmp.compare_self, find_eq_none_of_lt hlt, Option.some.injEq]
      simp [eq_comm]
    · rw [if_neg fun h => hk (Std.LawfulEqCmp.eq_of_compare h)]
      simp [hk]

theorem mem_toList {m : SortedMap κ β} : (k, b) ∈ m.toList ↔ m.get? k = some b := mem_iff_find m.sorted

theorem mem_values {m : SortedMap κ β} : b ∈ m.values ↔ ∃ k, m.get? k = some b := by
  simp only [values, List.mem_map, Prod.exists, mem_toList, exists_eq_right]

theorem mem_keys {m : SortedMap κ β} : k ∈ m.keys ↔ ∃ b, m.get? k = some b := by
  simp only [keys, List.mem_map, Prod.exists, mem_toList, exists_and_right, exists_eq_right]

theorem get?_insert_eq_some {m : SortedMap κ β} {k' : κ} {b' : β} :
    (m.insert k' b').get? k = some b ↔ k = k' ∧ b' = b ∨ k ≠ k' ∧ m.get? k = some b := by
  simp only [get?_insert, Std.LawfulEqCmp.compare_eq_iff_eq]
  by_cases h : k = k' <;> simp [h]

/-! ## A map made of a list of pairs -/

/-- The pair is in the list and no later pair has its key. -/
def IsLast (l : List (κ × β)) (k : κ) (b : β) : Prop :=
  ∃ before after, l = before ++ (k, b) :: after ∧ k ∉ after.map (·.1)

omit [Ord κ] [Std.TransOrd κ] [Std.LawfulEqOrd κ] in
theorem not_mem_keys_iff {l : List (κ × β)} : k ∉ l.map (·.1) ↔ ∀ e ∈ l, ∀ b, e ≠ (k, b) := by
  constructor
  · rintro h e he b rfl
    exact h (List.mem_map_of_mem he)
  · intro h hk
    obtain ⟨⟨k', b⟩, he, rfl⟩ := List.mem_map.mp hk
    exact h _ he b rfl

omit [Ord κ] [Std.TransOrd κ] [Std.LawfulEqOrd κ] in
/-- Each pair is a change of what its key holds. -/
theorem isLast_iff_latest {l : List (κ × β)} : IsLast l k b ↔ Latest (fun e b => e = (k, b)) l b := by
  simp only [IsLast, Latest, not_mem_keys_iff]
  constructor
  · rintro ⟨before, after, heq, hafter⟩
    exact ⟨before, _, after, heq, rfl, hafter⟩
  · rintro ⟨before, e, after, heq, rfl, hafter⟩
    exact ⟨before, after, heq, hafter⟩

omit [Ord κ] [Std.TransOrd κ] [Std.LawfulEqOrd κ] in
theorem isLast_cons {e : κ × β} {rest : List (κ × β)} :
    IsLast (e :: rest) k b ↔ IsLast rest k b ∨ e = (k, b) ∧ k ∉ rest.map (·.1) := by
  rw [isLast_iff_latest, isLast_iff_latest, latest_cons, not_mem_keys_iff]

omit [Ord κ] [Std.TransOrd κ] [Std.LawfulEqOrd κ] in
theorem IsLast.mem {l : List (κ × β)} (h : IsLast l k b) : (k, b) ∈ l := by
  obtain ⟨before, after, rfl, -⟩ := h
  exact List.mem_append_right _ (List.mem_cons_self ..)

omit [Ord κ] [Std.TransOrd κ] [Std.LawfulEqOrd κ] in
/-- Where the keys are different, every pair is the last of its key. -/
theorem isLast_iff_mem {l : List (κ × β)} (h : (l.map (·.1)).Nodup) : IsLast l k b ↔ (k, b) ∈ l := by
  induction l with
  | nil => simp [IsLast]
  | cons e rest ih =>
    obtain ⟨hnot, hrest⟩ := List.nodup_cons.mp h
    rw [isLast_cons, ih hrest, List.mem_cons]
    constructor
    · rintro (hmem | ⟨rfl, -⟩)
      · exact .inr hmem
      · exact .inl rfl
    · rintro (rfl | hmem)
      · exact .inr ⟨rfl, hnot⟩
      · exact .inl hmem

/-- Pairs put into a map one after the other: the last pair of a key decides what the key holds. -/
theorem get?_foldl_insert (l : List (κ × β)) (m : SortedMap κ β) :
    (l.foldl (fun m e => m.insert e.1 e.2) m).get? k = some b ↔
      IsLast l k b ∨ k ∉ l.map (·.1) ∧ m.get? k = some b := by
  have hstep : ∀ (m : SortedMap κ β) (e : κ × β) (b : β), (m.insert e.1 e.2).get? k = some b ↔
      e = (k, b) ∨ (∀ c, e ≠ (k, c)) ∧ m.get? k = some b := by
    rintro m ⟨k', b'⟩ b
    rw [get?_insert_eq_some]
    by_cases h : k = k'
    · subst h
      simp
    · simp [h, Ne.symm h]
  rw [isLast_iff_latest, not_mem_keys_iff]
  exact foldl_eq_some_iff (fun m : SortedMap κ β => m.get? k) hstep m

theorem get?_ofList {l : List (κ × β)} : (ofList l).get? k = some b ↔ IsLast l k b := by
  simp [ofList, get?_foldl_insert]

theorem mem_of_mem_values_ofList {l : List (κ × β)} (h : b ∈ (ofList l).values) : ∃ k, (k, b) ∈ l := by
  obtain ⟨k, hk⟩ := mem_values.mp h
  exact ⟨k, (get?_ofList.mp hk).mem⟩

theorem mem_values_ofList {l : List (κ × β)} (h : (l.map (·.1)).Nodup) :
    b ∈ (ofList l).values ↔ ∃ k, (k, b) ∈ l := by
  simp only [mem_values, get?_ofList, isLast_iff_mem h]

/-- Pairs with different keys make the same map in any order. -/
theorem ofList_perm {l r : List (κ × β)} (h : (l.map (·.1)).Nodup) (hperm : l.Perm r) : ofList l = ofList r := by
  have hr : (r.map (·.1)).Nodup := (hperm.map (·.1)).nodup_iff.mp h
  refine ext_get? fun k => Option.ext fun b => ?_
  rw [get?_ofList, get?_ofList, isLast_iff_mem h, isLast_iff_mem hr, hperm.mem_iff]

/-! ## What the values list together -/

omit [Std.LawfulEqOrd κ] in
theorem length_flatMap_place {γ : Type} (f : β → List γ) (g : Option β → β) {l : List (κ × β)}
    (h : l.Pairwise fun x y => compare x.1 y.1 = .lt) :
    ((place k g l).flatMap fun e => f e.2).length + ((find k l).elim [] f).length =
      (l.flatMap fun e => f e.2).length + (f (g (find k l))).length := by
  induction l with
  | nil => simp [place, find]
  | cons e rest ih =>
    obtain ⟨k', b'⟩ := e
    obtain ⟨hlt, hrest⟩ := List.pairwise_cons.mp h
    simp only [place, find]
    split
    · rename_i hk
      have hnone : find k rest = none := find_eq_none_of_lt fun e he => Std.TransCmp.lt_trans hk (hlt e he)
      simp only [hk, reduceCtorEq, if_false, hnone, List.flatMap_cons, List.length_append, Option.elim_none,
        List.length_nil]
      omega
    · rename_i hk
      simp only [hk, if_true, List.flatMap_cons, List.length_append, Option.elim_some]
      omega
    · rename_i hk
      have := ih hrest
      simp only [hk, reduceCtorEq, if_false, List.flatMap_cons, List.length_append]
      omega

omit [Std.LawfulEqOrd κ] in
theorem length_flatMap_alter {γ : Type} (f : β → List γ) (m : SortedMap κ β) (k : κ) (g : Option β → β) :
    ((m.alter k g).values.flatMap f).length + ((m.get? k).elim [] f).length =
      (m.values.flatMap f).length + (f (g (m.get? k))).length := by
  simp only [values, List.flatMap_map]
  exact length_flatMap_place f g m.sorted

end MatchAction.SortedMap
