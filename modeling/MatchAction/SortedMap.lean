/-
  MatchAction.SortedMap — finite maps kept in the order of their keys.

  A map is its list of pairs with strictly increasing keys, so two maps with the same
  lookups are equal, and listing one is the order in which everything is printed.
  `alter` is the only way in: it puts a value computed from what the key held before.

  Proved:
  - `get?_alter`: after `alter`, the key holds the computed value and no other key moved.
  - `get?_mergeWith`: merging looks a key up in both maps and joins what it finds.
  - `ext_get?`: maps with the same lookups are equal.
-/

namespace MatchAction

/-- A map as its pairs in strictly increasing order of the keys. -/
structure SortedMap (κ β : Type) [Ord κ] where
  toList : List (κ × β)
  sorted : toList.Pairwise (fun a b => compare a.1 b.1 = .lt)

namespace SortedMap

variable {κ β : Type} [Ord κ]

instance [DecidableEq κ] [DecidableEq β] : DecidableEq (SortedMap κ β) := fun m n =>
  if h : m.toList = n.toList then
    .isTrue (by cases m; cases n; cases h; rfl)
  else .isFalse (fun e => h (e ▸ rfl))

instance [Repr κ] [Repr β] : Repr (SortedMap κ β) := ⟨fun m p => reprPrec m.toList p⟩

def empty : SortedMap κ β := ⟨[], .nil⟩

instance : EmptyCollection (SortedMap κ β) := ⟨empty⟩
instance : Inhabited (SortedMap κ β) := ⟨empty⟩

def keys (m : SortedMap κ β) : List κ := m.toList.map (·.1)
def values (m : SortedMap κ β) : List β := m.toList.map (·.2)
def size (m : SortedMap κ β) : Nat := m.toList.length
def isEmpty (m : SortedMap κ β) : Bool := m.toList.isEmpty

def find (k : κ) : List (κ × β) → Option β
  | [] => none
  | (k', b) :: rest => if compare k k' = .eq then some b else find k rest

def get? (m : SortedMap κ β) (k : κ) : Option β := find k m.toList

def contains (m : SortedMap κ β) (k : κ) : Bool := (m.get? k).isSome

def place (k : κ) (f : Option β → β) : List (κ × β) → List (κ × β)
  | [] => [(k, f none)]
  | (k', b) :: rest =>
    match compare k k' with
    | .lt => (k, f none) :: (k', b) :: rest
    | .eq => (k', f (some b)) :: rest
    | .gt => (k', b) :: place k f rest

theorem mem_place {k : κ} {f : Option β → β} {e : κ × β} :
    ∀ {l : List (κ × β)}, e ∈ place k f l → e ∈ l ∨ e.1 = k ∨ ∃ e' ∈ l, e.1 = e'.1
  | [], h => by simp [place] at h; simp [h]
  | (k', b) :: rest, h => by
    simp only [place] at h
    split at h
    · rcases List.mem_cons.1 h with rfl | h
      · exact .inr (.inl rfl)
      · exact .inl h
    · rcases List.mem_cons.1 h with rfl | h
      · exact .inr (.inr ⟨(k', b), by simp, rfl⟩)
      · exact .inl (List.mem_cons_of_mem _ h)
    · rcases List.mem_cons.1 h with rfl | h
      · exact .inl (by simp)
      · rcases mem_place h with h | h | ⟨e', h, he⟩
        · exact .inl (List.mem_cons_of_mem _ h)
        · exact .inr (.inl h)
        · exact .inr (.inr ⟨e', List.mem_cons_of_mem _ h, he⟩)

theorem place_sorted [Std.TransOrd κ] (k : κ) (f : Option β → β) :
    ∀ {l : List (κ × β)}, l.Pairwise (fun a b => compare a.1 b.1 = .lt) →
      (place k f l).Pairwise (fun a b => compare a.1 b.1 = .lt)
  | [], _ => by simp [place]
  | (k', b) :: rest, h => by
    have hrest := List.pairwise_cons.1 h
    simp only [place]
    split
    · rename_i hk
      refine List.pairwise_cons.2 ⟨fun e he => ?_, h⟩
      rcases List.mem_cons.1 he with rfl | he
      · exact hk
      · exact Std.TransCmp.lt_trans hk (hrest.1 e he)
    · exact List.pairwise_cons.2 ⟨fun e he => hrest.1 e he, hrest.2⟩
    · rename_i hk
      refine List.pairwise_cons.2 ⟨fun e he => ?_, place_sorted k f hrest.2⟩
      rcases mem_place he with he | he | ⟨e', he, heq⟩
      · exact hrest.1 e he
      · rw [he]; exact Std.OrientedCmp.gt_iff_lt.1 hk
      · rw [heq]; exact hrest.1 e' he

def alter [Std.TransOrd κ] (m : SortedMap κ β) (k : κ) (f : Option β → β) : SortedMap κ β :=
  ⟨place k f m.toList, place_sorted k f m.sorted⟩

def insert [Std.TransOrd κ] (m : SortedMap κ β) (k : κ) (b : β) : SortedMap κ β := m.alter k (fun _ => b)

def ofList [Std.TransOrd κ] (l : List (κ × β)) : SortedMap κ β :=
  l.foldl (fun m e => m.insert e.1 e.2) ∅

/-- The pairs of `n` put into `m` one after the other, joined with `f` where `m` holds the key. -/
def mergeWith [Std.TransOrd κ] (f : β → β → β) (m n : SortedMap κ β) : SortedMap κ β :=
  n.toList.foldl (fun m e => m.alter e.1 (fun old => match old with | some a => f a e.2 | none => e.2)) m

/-! ## Lookups -/

theorem find_congr [Std.TransOrd κ] {k k' : κ} (h : compare k k' = .eq) (l : List (κ × β)) :
    find k l = find k' l := by
  induction l with
  | nil => rfl
  | cons e rest ih => rw [find, find, Std.TransCmp.congr_left h, ih]

theorem find_eq_none_of_lt [Std.TransOrd κ] {k : κ} {l : List (κ × β)} (h : ∀ e ∈ l, compare k e.1 = .lt) :
    find k l = none := by
  induction l with
  | nil => rfl
  | cons e rest ih =>
    obtain ⟨he, hrest⟩ := List.forall_mem_cons.1 h
    simp only [find, he]
    exact ih hrest

theorem find_place [Std.TransOrd κ] {k k' : κ} {f : Option β → β} {l : List (κ × β)}
    (h : l.Pairwise fun a b => compare a.1 b.1 = .lt) :
    find k' (place k f l) = if compare k' k = .eq then some (f (find k l)) else find k' l := by
  induction l with
  | nil => simp [place, find]
  | cons e rest ih =>
    obtain ⟨k₁, b⟩ := e
    obtain ⟨hlt, hrest⟩ := List.pairwise_cons.1 h
    simp only [place]
    split
    · rename_i hk
      have hnone : find k rest = none := find_eq_none_of_lt fun e he => Std.TransCmp.lt_trans hk (hlt e he)
      by_cases hkk : compare k' k = .eq
      · simp [find, hkk, hk, hnone]
      · simp [find, hkk]
    · rename_i hk
      by_cases hkk : compare k' k = .eq
      · have hk' : compare k' k₁ = .eq := Std.TransCmp.eq_trans hkk hk
        simp [find, hkk, hk, hk']
      · have hk' : compare k' k₁ ≠ .eq := fun h => hkk (Std.TransCmp.eq_trans h (Std.OrientedCmp.eq_symm hk))
        simp [find, hkk, hk']
    · rename_i hk
      by_cases hkk : compare k' k = .eq
      · have hk' : compare k' k₁ = .gt := by rw [Std.TransCmp.congr_left hkk, hk]
        simp [find, hkk, hk, hk', ih hrest]
      · simp [find, hkk, ih hrest]

theorem get?_alter [Std.TransOrd κ] (m : SortedMap κ β) (k k' : κ) (f : Option β → β) :
    (m.alter k f).get? k' = if compare k' k = .eq then some (f (m.get? k)) else m.get? k' :=
  find_place m.sorted

theorem get?_insert [Std.TransOrd κ] (m : SortedMap κ β) (k k' : κ) (b : β) :
    (m.insert k b).get? k' = if compare k' k = .eq then some b else m.get? k' :=
  get?_alter m k k' _

@[simp] theorem get?_empty (k : κ) : (∅ : SortedMap κ β).get? k = none := rfl

/-- A key that comes before a list is not found in it, so a list with the same lookups does not start with it. -/
theorem not_lt_of_find [Std.TransOrd κ] {k₁ k₂ : κ} {b₁ b₂ : β} {l r : List (κ × β)}
    (hr : ∀ e ∈ r, compare k₂ e.1 = .lt) (h : find k₁ ((k₁, b₁) :: l) = find k₁ ((k₂, b₂) :: r)) :
    compare k₁ k₂ ≠ .lt := by
  intro hlt
  have hnone : find k₁ ((k₂, b₂) :: r) = none :=
    find_eq_none_of_lt (List.forall_mem_cons.2 ⟨hlt, fun e he => Std.TransCmp.lt_trans hlt (hr e he)⟩)
  rw [hnone, find, if_pos Std.ReflCmp.compare_self] at h
  cases h

theorem ext_find [Std.TransOrd κ] [Std.LawfulEqOrd κ] {l r : List (κ × β)}
    (hl : l.Pairwise fun a b => compare a.1 b.1 = .lt) (hr : r.Pairwise fun a b => compare a.1 b.1 = .lt)
    (h : ∀ k, find k l = find k r) : l = r := by
  induction l generalizing r with
  | nil =>
    cases r with
    | nil => rfl
    | cons e r =>
      have he := h e.1
      simp [find] at he
  | cons e l ih =>
    cases r with
    | nil =>
      have he := h e.1
      simp [find] at he
    | cons e' r =>
      obtain ⟨k₁, b₁⟩ := e
      obtain ⟨k₂, b₂⟩ := e'
      obtain ⟨hlt, hrest⟩ := List.pairwise_cons.1 hl
      obtain ⟨hlt', hrest'⟩ := List.pairwise_cons.1 hr
      have hk : k₁ = k₂ := by
        cases hc : compare k₁ k₂ with
        | eq => exact Std.LawfulEqCmp.eq_of_compare hc
        | lt => exact absurd hc (not_lt_of_find hlt' (h k₁))
        | gt => exact absurd (Std.OrientedCmp.gt_iff_lt.1 hc) (not_lt_of_find hlt (h k₂).symm)
      subst hk
      have hb : b₁ = b₂ := by simpa [find] using h k₁
      subst hb
      refine congrArg _ (ih hrest hrest' fun k => ?_)
      by_cases hk : k = k₁
      · subst hk
        rw [find_eq_none_of_lt hlt, find_eq_none_of_lt hlt']
      · have hne : compare k k₁ ≠ .eq := fun heq => hk (Std.LawfulEqCmp.eq_of_compare heq)
        simpa [find, hne] using h k

theorem ext_get? [Std.TransOrd κ] [Std.LawfulEqOrd κ] {m n : SortedMap κ β}
    (h : ∀ k, m.get? k = n.get? k) : m = n := by
  cases m; cases n
  simp only [mk.injEq]
  exact ext_find ‹_› ‹_› h

/-- Pairs in strictly increasing order change every key at most once. -/
theorem get?_foldl_alter [Std.TransOrd κ] {γ : Type} (g : γ → Option β → β) {l : List (κ × γ)}
    (h : l.Pairwise fun a b => compare a.1 b.1 = .lt) (m : SortedMap κ β) (k : κ) :
    (l.foldl (fun m e => m.alter e.1 (g e.2)) m).get? k =
      (find k l).elim (m.get? k) fun c => some (g c (m.get? k)) := by
  induction l generalizing m with
  | nil => rfl
  | cons e rest ih =>
    obtain ⟨k', c⟩ := e
    obtain ⟨hlt, hrest⟩ := List.pairwise_cons.1 h
    rw [List.foldl_cons, ih hrest, get?_alter, find]
    by_cases hk : compare k k' = .eq
    · have hnone : find k rest = none := find_eq_none_of_lt fun e he => by
        rw [Std.TransCmp.congr_left hk]
        exact hlt e he
      have hm : m.get? k = m.get? k' := find_congr hk m.toList
      rw [if_pos hk, if_pos hk, hnone, hm]
      rfl
    · rw [if_neg hk, if_neg hk]

theorem get?_mergeWith [Std.TransOrd κ] (f : β → β → β) (m n : SortedMap κ β) (k : κ) :
    (m.mergeWith f n).get? k = Option.merge f (m.get? k) (n.get? k) := by
  have hfold := get?_foldl_alter (fun b old => match old with | some a => f a b | none => b) n.sorted m k
  refine Eq.trans hfold ?_
  rw [get?, get?]
  cases find k m.toList <;> cases find k n.toList <;> rfl

end SortedMap

end MatchAction
