/-
  MatchAction.Proofs.Document.Acceptance — which values of JSON a layout reads as which draft.

  A lawful layout that keeps what it does not know reads objects and nothing else. It is content
  with an object that has each known name at most once, a value that its slot reads under each, and
  a value that can be kept under each other name. The draft has in its slots what is read there and
  has collected the other names, so it says nothing of the order of the members.

  Proved:
  - `Lawful.readMember_inv`, `Lawful.foldlM_inv`: what one member and what all members must have been.
  - `Lawful.exists_read_iff`: the values that are read, as some draft.
  - `Lawful.takes_of_read`: the draft of an object.
-/

import MatchAction.Proofs.Document.Settled

namespace MatchAction

variable {δ : Type}

open Reading
open Json (IsValue IsMember)

theorem Json.IsValue.isBlank_eq {readings : Scalar} (h : IsValue (.scalar readings)) : readings.isBlank = false := by
  cases h with
  | null => rfl
  | flag b => rfl
  | string h =>
    obtain ⟨text, heq⟩ := h
    cases heq
    rfl
  | number literal => rfl

namespace Layout

variable {layout : Layout δ} {found : δ → List String} {target draft after next : δ} {levels : Nat}
  {collect : String → δ → δ} {members : List (String × Tree)}

/-- One member goes into an empty slot of its name, or is kept. -/
theorem Lawful.readMember_inv (h : layout.Lawful found) (hslots : SlotsSettled layout.slots)
    (hothers : layout.others = .keep levels collect) {m : Tree × Tree} (hm : IsMember m)
    (hread : layout.readMember draft m = pure next) :
    ∃ name, m.1 = Json.text name ∧ layout.Took found [(name, m.2)] draft next := by
  obtain ⟨key, value⟩ := m
  obtain ⟨⟨text, hkey⟩, hvalue⟩ := hm
  cases text with
  | none =>
    subst hkey
    exact absurd hread throw_ne_pure
  | some name =>
    obtain rfl : key = Json.text name := hkey
    refine ⟨name, rfl, ?_⟩
    rw [readMember, Tree.readText_text, pure_bind] at hread
    split at hread
    · rename_i slot hfind
      have hslot := List.mem_of_find?_eq_some hfind
      obtain rfl : slot.name = name := by simpa using List.find?_some hfind
      split at hread
      · exact absurd hread throw_ne_pure
      · rename_i hempty
        obtain ⟨a, ha, hset⟩ := (bind_eq_pure_iff (hslots slot hslot _ hvalue)).mp hread
        obtain rfl := pure_inj hset
        exact h.took_known hslot ha (by simpa [Slot.isFilled] using hempty)
    · rename_i hfind
      have hname : ∀ slot ∈ layout.slots, slot.name ≠ name := by simpa using hfind
      rw [readOther, hothers] at hread
      obtain ⟨_, hkeep, hcollect⟩ := (bind_eq_pure_iff (Tree.settled_keep hvalue)).mp hread
      obtain rfl := pure_inj hcollect
      exact h.took_kept hothers hname hkeep

theorem Lawful.foldlM_inv (h : layout.Lawful found) (hslots : SlotsSettled layout.slots)
    (hothers : layout.others = .keep levels collect) {members : List (Tree × Tree)}
    (hmembers : ∀ m ∈ members, IsMember m) (hread : members.foldlM layout.readMember draft = pure after) :
    ∃ named, members = named.map (fun m => (Json.text m.1, m.2)) ∧ layout.Took found named draft after := by
  induction members generalizing draft with
  | nil =>
    obtain rfl : draft = after := pure_inj hread
    exact ⟨[], rfl, .nil draft⟩
  | cons m rest ih =>
    obtain ⟨hm, hrest⟩ := List.forall_mem_cons.mp hmembers
    rw [List.foldlM_cons] at hread
    obtain ⟨next, hnext, hlater⟩ := (bind_eq_pure_iff (settled_readMember hslots hm draft)).mp hread
    obtain ⟨name, hname, htook⟩ := h.readMember_inv hslots hothers hm hnext
    obtain ⟨named, rfl, hnamed⟩ := ih hrest hlater
    refine ⟨(name, m.2) :: named, ?_, htook.cons hnamed⟩
    rw [List.map_cons, ← hname]

/-- Lists and leaves are no objects where members are kept. -/
theorem Lawful.read_inv (h : layout.Lawful found) (hslots : SlotsSettled layout.slots)
    (hothers : layout.others = .keep levels collect) {dialect : Dialect} {tree : Tree} (htree : IsValue tree)
    (hread : layout.read dialect draft tree = pure after) :
    ∃ members, tree = Json.object members ∧ layout.Took found members draft after := by
  rw [read, Tree.content_eq htree, pure_bind] at hread
  split at hread
  · rename_i members
    obtain ⟨named, rfl, htook⟩ := h.foldlM_inv hslots hothers htree.isMember hread
    exact ⟨named, rfl, htook⟩
  · rw [admitsLists, hothers] at hread
    exact absurd hread throw_ne_pure
  · rw [htree.isBlank_eq] at hread
    exact absurd hread throw_ne_pure
  · exact absurd hread throw_ne_pure
  · exact absurd hread throw_ne_pure
  · exact absurd hread throw_ne_pure

/-- Each known name comes at most once and is read, and what is under the others can be kept. -/
structure Fits (layout : Layout δ) (levels : Nat) (members : List (String × Tree)) : Prop where
  once : ∀ slot ∈ layout.slots, (members.map Prod.fst).count slot.name ≤ 1
  reads : ∀ slot ∈ layout.slots, ∀ tree, (slot.name, tree) ∈ members → ∃ a, slot.read tree = pure a
  others : ∀ m ∈ members, m.1 ∉ layout.slots.map (·.name) → Json.Value levels m.2

theorem Took.fits (h : layout.Lawful found) (htook : layout.Took found members draft target)
    (hothers : layout.others = .keep levels collect) (hempty : ∀ slot ∈ layout.slots, slot.get draft = none)
    (hvalues : ∀ m ∈ members, IsValue m.2) : layout.Fits levels members := by
  refine ⟨htook.once, fun slot hslot tree hmem => ?_, fun m hm hunknown => ?_⟩
  · obtain ⟨a, hread, -⟩ := (htook.takes h hempty slot hslot).read tree hmem
    exact ⟨a, hread⟩
  · have hvalue := hvalues m hm
    cases htook.accepts m hm with
    | known hslot _ _ => exact absurd (List.mem_map_of_mem hslot) hunknown
    | kept hkept _ hkeep =>
      obtain ⟨rfl, -⟩ := Others.keep.inj (hkept.symm.trans hothers)
      exact (Tree.keep_eq_pure_iff hvalue).mp hkeep

theorem Fits.accepts (h : layout.Lawful found) (hfits : layout.Fits levels members)
    (hothers : layout.others = .keep levels collect) (draft : δ) :
    ∀ m ∈ members, ∃ target, layout.Accepts target m := by
  intro m hm
  by_cases hknown : m.1 ∈ layout.slots.map (·.name)
  · obtain ⟨slot, hslot, hname⟩ := List.mem_map.mp hknown
    obtain ⟨name, tree⟩ := m
    subst hname
    obtain ⟨a, hread⟩ := hfits.reads slot hslot tree hm
    exact ⟨slot.set a draft, .known hslot hread (h.get_set slot hslot a draft)⟩
  · exact ⟨draft, .kept hothers (not_mem_names.mp hknown) (Tree.keep_of_value (hfits.others m hm hknown))⟩

/-- The objects that are read, as some draft. -/
theorem Lawful.exists_read_iff (h : layout.Lawful found) (hslots : SlotsSettled layout.slots)
    (hothers : layout.others = .keep levels collect) {dialect : Dialect}
    (hempty : ∀ slot ∈ layout.slots, slot.get draft = none) {tree : Tree} (htree : IsValue tree) :
    (∃ target, layout.read dialect draft tree = pure target) ↔
      ∃ members, tree = Json.object members ∧ layout.Fits levels members := by
  constructor
  · rintro ⟨target, hread⟩
    obtain ⟨members, rfl, htook⟩ := h.read_inv hslots hothers htree hread
    exact ⟨members, rfl, htook.fits h hothers hempty htree.of_object⟩
  · rintro ⟨members, rfl, hfits⟩
    obtain ⟨target, hread, -⟩ := h.foldlM_took hfits.once (hfits.accepts h hothers draft) fun slot hslot _ =>
      hempty slot hslot
    exact ⟨target, hread⟩

/-- The draft that an object is read as: what is read under the known names, and the other names. -/
theorem Lawful.takes_of_read (h : layout.Lawful found) (hslots : SlotsSettled layout.slots)
    (hothers : layout.others = .keep levels collect) {dialect : Dialect}
    (hempty : ∀ slot ∈ layout.slots, slot.get draft = none) (hnone : found draft = [])
    (hvalue : IsValue (Json.object members)) (hread : layout.read dialect draft (Json.object members) = pure target) :
    (∀ slot ∈ layout.slots, slot.Takes members target) ∧ found target = (layout.unknown members).reverse := by
  obtain ⟨named, heq, htook⟩ := h.read_inv hslots hothers hvalue hread
  obtain rfl := Json.object_inj heq
  refine ⟨htook.takes h hempty, ?_⟩
  rw [htook.found, hnone, List.append_nil]

end Layout

end MatchAction
