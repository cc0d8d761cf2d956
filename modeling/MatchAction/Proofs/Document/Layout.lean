/-
  MatchAction.Proofs.Document.Layout — objects are read by name, in whatever order.

  A record is read member by member into a draft. Where the slots of its layout are lawful,
  each holds what was last put into it whatever was put into the others, so that the draft of
  an object depends only on what the object has under each name. The order of the members
  does not matter, and members that are left out leave their slot empty.

  Proved:
  - `Took.cons`: what one member and those after it do to a draft, which `Took` puts down.
  - `Lawful.readMember_took`, `Lawful.foldlM_took`: one member, and one after the other, into any
    draft that has room for them.
  - `Lawful.read_object`: the object as a whole, into an empty draft.
  - `Lawful.read_known`, `Lawful.read_keeping`: layouts that know all members, and layouts that
    keep one.
  - `Member.require`, `Member.getD`: a member that has to be there, and one that may be left out.
-/

import MatchAction.Proofs.Document.Json
import MatchAction.Proofs.Lists

namespace MatchAction

variable {α δ : Type}

/-- The tree is an object with these members, which have different names, all among `names`. -/
structure Json.IsObject (names : List String) (members : List (String × Tree)) (tree : Tree) : Prop where
  eq : tree = Json.object members
  nodup : (members.map Prod.fst).Nodup
  names : ∀ m ∈ members, m.1 ∈ names

namespace Json

variable {names : List String} {members : List (String × Tree)} {tree : Tree}

theorem isObject_object (hnodup : (members.map Prod.fst).Nodup) (hnames : ∀ m ∈ members, m.1 ∈ names) :
    IsObject names members (object members) := ⟨rfl, hnodup, hnames⟩

theorem IsObject.count_le_one (h : IsObject names members tree) (name : String) :
    (members.map Prod.fst).count name ≤ 1 := List.nodup_iff_count_le_one.mp h.nodup name

theorem IsObject.isPresent (h : IsObject names members tree) : IsPresent tree := by
  rw [h.eq]
  trivial

/-- What is written as an object says that there is something. -/
theorem isPresent_of_object {form : List (String × Tree) → Prop}
    (h : ∃ members, IsObject names members tree ∧ form members) : IsPresent tree := by
  obtain ⟨members, hobject, -⟩ := h
  exact hobject.isPresent

end Json

/-- What the members have under the name of the slot is read as `target` has it. -/
structure Slot.Takes (slot : Slot δ) (members : List (String × Tree)) (target : δ) : Prop where
  read : ∀ tree, (slot.name, tree) ∈ members → ∃ a, slot.read tree = pure a ∧ slot.get target = some a
  empty : slot.name ∉ members.map Prod.fst → slot.get target = none

/-- What the members have decides what is in the slot. -/
theorem Slot.Takes.get_eq {slot : Slot δ} {members : List (String × Tree)} {target other : δ}
    (h : slot.Takes members target) (hother : slot.Takes members other) : slot.get target = slot.get other := by
  by_cases hname : slot.name ∈ members.map Prod.fst
  · obtain ⟨⟨name, tree⟩, hmem, rfl⟩ := List.mem_map.mp hname
    obtain ⟨a, hread, hget⟩ := h.read tree hmem
    obtain ⟨b, hread', hget'⟩ := hother.read tree hmem
    rw [hget, hget', Reading.pure_inj (hread.symm.trans hread')]
  · rw [h.empty hname, hother.empty hname]

namespace Layout

/-- The slots are told apart by their names and hold what is put into them. The names that are
    collected, which `found` finds, are not in any slot, and a draft is nothing but the two. -/
structure Lawful (layout : Layout δ) (found : δ → List String) : Prop where
  names : (layout.slots.map (·.name)).Nodup
  get_set : ∀ slot ∈ layout.slots, ∀ a draft, slot.get (slot.set a draft) = some a
  get_set_of_ne : ∀ slot ∈ layout.slots, ∀ other ∈ layout.slots, other.name ≠ slot.name →
    ∀ a draft, other.get (slot.set a draft) = other.get draft
  found_set : ∀ slot ∈ layout.slots, ∀ a draft, found (slot.set a draft) = found draft
  get_collect : ∀ levels collect, layout.others = .keep levels collect → ∀ slot ∈ layout.slots,
    ∀ name draft, slot.get (collect name draft) = slot.get draft
  found_collect : ∀ levels collect, layout.others = .keep levels collect →
    ∀ name draft, found (collect name draft) = name :: found draft
  ext : ∀ draft other, (∀ slot ∈ layout.slots, slot.get draft = slot.get other) → found draft = found other →
    draft = other

/-- The member is one that the layout knows and reads as `target` has it, or one that it keeps. -/
inductive Accepts (layout : Layout δ) (target : δ) : String × Tree → Prop
  | known {slot : Slot δ} {a : slot.α} {tree : Tree} : slot ∈ layout.slots → slot.read tree = pure a →
      slot.get target = some a → Accepts layout target (slot.name, tree)
  | kept {levels : Nat} {collect : String → δ → δ} {name : String} {tree : Tree} :
      layout.others = .keep levels collect → (∀ slot ∈ layout.slots, slot.name ≠ name) → tree.keep levels = pure () →
      Accepts layout target (name, tree)

def unknown (layout : Layout δ) (members : List (String × Tree)) : List String :=
  (members.map Prod.fst).filter fun name => !layout.slots.any (·.name == name)

variable {layout : Layout δ} {found : δ → List String} {target draft : δ} {members : List (String × Tree)}
  {name : String} {tree : Tree} {after next : δ} {levels : Nat} {collect : String → δ → δ}

theorem not_mem_names : name ∉ layout.slots.map (·.name) ↔ ∀ slot ∈ layout.slots, slot.name ≠ name := by
  simp only [List.mem_map, not_exists, not_and, ne_eq]

theorem find?_slot (h : layout.Lawful found) {slot : Slot δ} (hslot : slot ∈ layout.slots) :
    layout.slots.find? (·.name == slot.name) = some slot := find?_of_nodup Slot.name h.names hslot

/-- A member that the layout knows goes into its slot, if nothing is there. -/
theorem readMember_known (h : layout.Lawful found) {slot : Slot δ} {a : slot.α} (hslot : slot ∈ layout.slots)
    (hread : slot.read tree = pure a) (hempty : slot.get draft = none) :
    layout.readMember draft (Json.text slot.name, tree) = pure (slot.set a draft) := by
  rw [readMember, Tree.readText_text, pure_bind, find?_slot h hslot]
  simp only [Slot.isFilled, hempty, Option.isSome_none, Bool.false_eq_true, if_false, Slot.fill, hread, pure_bind]

theorem readMember_kept {levels : Nat} {collect : String → δ → δ} (hothers : layout.others = .keep levels collect)
    (hname : ∀ slot ∈ layout.slots, slot.name ≠ name) (hkeep : tree.keep levels = pure ()) :
    layout.readMember draft (Json.text name, tree) = pure (collect name draft) := by
  have hfind : layout.slots.find? (·.name == name) = none :=
    List.find?_eq_none.mpr fun slot hslot => by simpa using hname slot hslot
  rw [readMember, Tree.readText_text, pure_bind, hfind]
  simp only [readOther, hothers, hkeep, pure_bind]

theorem mem_unknown :
    name ∈ layout.unknown members ↔ name ∈ members.map Prod.fst ∧ name ∉ layout.slots.map (·.name) := by
  have hany : layout.slots.any (·.name == name) = true ↔ name ∈ layout.slots.map (·.name) := by
    simp only [List.any_eq_true, beq_iff_eq, List.mem_map]
  rw [unknown, List.mem_filter, Bool.not_eq_true', Bool.eq_false_iff, ne_eq, hany]

theorem unknown_known {slot : Slot δ} (hslot : slot ∈ layout.slots) : layout.unknown [(slot.name, tree)] = [] := by
  have hany : layout.slots.any (·.name == slot.name) = true :=
    List.any_eq_true.mpr ⟨slot, hslot, beq_self_eq_true _⟩
  simp only [unknown, List.map_cons, List.map_nil, List.filter_cons, hany, Bool.not_true, Bool.false_eq_true, if_false,
    List.filter_nil]

theorem unknown_kept (hname : ∀ slot ∈ layout.slots, slot.name ≠ name) : layout.unknown [(name, tree)] = [name] := by
  have hany : layout.slots.any (·.name == name) = false :=
    List.any_eq_false.mpr fun slot hslot => by simpa using hname slot hslot
  simp only [unknown, List.map_cons, List.map_nil, List.filter_cons, hany, Bool.not_false, if_true, List.filter_nil]

theorem unknown_cons (m : String × Tree) (rest : List (String × Tree)) :
    layout.unknown (m :: rest) = layout.unknown [m] ++ layout.unknown rest :=
  List.filter_append [m.1] (rest.map Prod.fst)

/-- What the members must have been that took the first draft to the second. -/
structure Took (layout : Layout δ) (found : δ → List String) (members : List (String × Tree)) (draft after : δ) :
    Prop where
  once : ∀ slot ∈ layout.slots, (members.map Prod.fst).count slot.name ≤ 1
  accepts : ∀ m ∈ members, layout.Accepts after m
  room : ∀ slot ∈ layout.slots, slot.name ∈ members.map Prod.fst → slot.get draft = none
  stays : ∀ slot ∈ layout.slots, slot.name ∉ members.map Prod.fst → slot.get after = slot.get draft
  found : found after = (layout.unknown members).reverse ++ found draft

theorem Took.nil (draft : δ) : layout.Took found [] draft draft where
  once := fun _ _ => Nat.zero_le _
  accepts := List.forall_mem_nil _
  room := fun _ _ h => absurd h List.not_mem_nil
  stays := fun _ _ _ => rfl
  found := rfl

/-- One member and those after it: a slot that is filled is not filled again. -/
theorem Took.cons {m : String × Tree} {rest : List (String × Tree)} (hm : layout.Took found [m] draft next)
    (hrest : layout.Took found rest next after) : layout.Took found (m :: rest) draft after := by
  have hsingle : ∀ {name : String}, name ∈ [m].map Prod.fst ↔ name = m.1 := List.mem_singleton
  have hlater : ∀ slot ∈ layout.slots, ∀ a, slot.get next = some a → slot.name ∉ rest.map Prod.fst := by
    intro slot hslot a hget hmem
    rw [hrest.room slot hslot hmem] at hget
    cases hget
  have haccepts : layout.Accepts after m ∧ ∀ slot ∈ layout.slots, slot.name = m.1 → m.1 ∉ rest.map Prod.fst := by
    cases hm.accepts m List.mem_cons_self with
    | @known slot a tree hslot hread hget =>
      have hnot := hlater slot hslot a hget
      exact ⟨.known hslot hread ((hrest.stays slot hslot hnot).trans hget), fun _ _ _ => hnot⟩
    | kept hothers hname hkeep =>
      exact ⟨.kept hothers hname hkeep, fun slot hslot heq => absurd heq (hname slot hslot)⟩
  constructor
  · intro slot hslot
    rw [List.map_cons]
    by_cases hname : slot.name = m.1
    · have hcount : (rest.map Prod.fst).count slot.name = 0 :=
        List.count_eq_zero.mpr (hname ▸ haccepts.2 slot hslot hname)
      rw [← hname, List.count_cons_self, hcount]
    · rw [List.count_cons_of_ne (Ne.symm hname)]
      exact hrest.once slot hslot
  · exact List.forall_mem_cons.mpr ⟨haccepts.1, hrest.accepts⟩
  · intro slot hslot hmem
    by_cases hname : slot.name = m.1
    · exact hm.room slot hslot (hsingle.mpr hname)
    · rw [← hm.stays slot hslot (mt hsingle.mp hname)]
      exact hrest.room slot hslot ((List.mem_cons.mp hmem).resolve_left hname)
  · intro slot hslot hmem
    obtain ⟨hname, hmem⟩ := not_or.mp (mt List.mem_cons.mpr hmem)
    rw [hrest.stays slot hslot hmem, hm.stays slot hslot (mt hsingle.mp hname)]
  · rw [hrest.found, hm.found, unknown_cons m rest, List.reverse_append, List.append_assoc]

theorem Lawful.took_known (h : layout.Lawful found) {slot : Slot δ} {a : slot.α} {tree : Tree}
    (hslot : slot ∈ layout.slots) (hread : slot.read tree = pure a) (hempty : slot.get draft = none) :
    layout.Took found [(slot.name, tree)] draft (slot.set a draft) := by
  have hself : ∀ other ∈ layout.slots, other.name = slot.name → other = slot := fun other hother hname =>
    Option.some.inj ((find?_slot h hother).symm.trans (hname ▸ find?_slot h hslot))
  constructor
  · exact fun _ _ => List.count_le_length
  · exact List.forall_mem_singleton.mpr (.known hslot hread (h.get_set slot hslot a draft))
  · intro other hother hmem
    rw [hself other hother (List.mem_singleton.mp hmem)]
    exact hempty
  · intro other hother hmem
    exact h.get_set_of_ne slot hslot other hother (mt List.mem_singleton.mpr hmem) a draft
  · rw [h.found_set slot hslot, unknown_known hslot]
    rfl

theorem Lawful.took_kept (h : layout.Lawful found) (hothers : layout.others = .keep levels collect) {name : String}
    {tree : Tree} (hname : ∀ slot ∈ layout.slots, slot.name ≠ name) (hkeep : tree.keep levels = pure ()) :
    layout.Took found [(name, tree)] draft (collect name draft) := by
  constructor
  · exact fun _ _ => List.count_le_length
  · exact List.forall_mem_singleton.mpr (.kept hothers hname hkeep)
  · exact fun slot hslot hmem => absurd (List.mem_singleton.mp hmem) (hname slot hslot)
  · exact fun slot hslot _ => h.get_collect levels collect hothers slot hslot name draft
  · rw [h.found_collect levels collect hothers, unknown_kept hname]
    rfl

/-- One member, read into a draft that has room for it. -/
theorem Lawful.readMember_took (h : layout.Lawful found) {m : String × Tree} (haccepts : layout.Accepts target m)
    (hempty : ∀ slot ∈ layout.slots, slot.name = m.1 → slot.get draft = none) :
    ∃ next, layout.readMember draft (Json.text m.1, m.2) = pure next ∧ layout.Took found [m] draft next := by
  cases haccepts with
  | @known slot a tree hslot hread _ =>
    have hroom := hempty slot hslot rfl
    exact ⟨slot.set a draft, readMember_known h hslot hread hroom, h.took_known hslot hread hroom⟩
  | @kept levels collect name tree hothers hname hkeep =>
    exact ⟨collect name draft, readMember_kept hothers hname hkeep, h.took_kept hothers hname hkeep⟩

/-- The members one after the other, where each can be read and no known name comes twice. -/
theorem Lawful.foldlM_took (h : layout.Lawful found)
    (honce : ∀ slot ∈ layout.slots, (members.map Prod.fst).count slot.name ≤ 1)
    (haccepts : ∀ m ∈ members, ∃ target, layout.Accepts target m)
    (hempty : ∀ slot ∈ layout.slots, slot.name ∈ members.map Prod.fst → slot.get draft = none) :
    ∃ after, (members.map fun m => (Json.text m.1, m.2)).foldlM layout.readMember draft = pure after ∧
      layout.Took found members draft after := by
  induction members generalizing draft with
  | nil => exact ⟨draft, rfl, .nil draft⟩
  | cons m rest ih =>
    obtain ⟨⟨target, hm⟩, hrest⟩ := List.forall_mem_cons.mp haccepts
    obtain ⟨next, hnext, htook⟩ := h.readMember_took hm fun slot hslot hname =>
      hempty slot hslot (hname ▸ List.mem_cons_self)
    have hfresh : ∀ slot ∈ layout.slots, slot.name ∈ rest.map Prod.fst → slot.get next = none := by
      intro slot hslot hmem
      have hne : slot.name ∉ [m].map Prod.fst := by
        intro heq
        have hcount := honce slot hslot
        rw [List.map_cons, ← List.mem_singleton.mp heq, List.count_cons_self] at hcount
        exact absurd (List.count_pos_iff.mpr hmem) (by omega)
      rw [htook.stays slot hslot hne]
      exact hempty slot hslot (List.mem_cons_of_mem _ hmem)
    have honce : ∀ slot ∈ layout.slots, (rest.map Prod.fst).count slot.name ≤ 1 := fun slot hslot =>
      List.count_le_count_cons.trans (honce slot hslot)
    obtain ⟨after, hafter, hlater⟩ := ih honce hrest hfresh
    refine ⟨after, ?_, htook.cons hlater⟩
    rw [List.map_cons, List.foldlM_cons, hnext, pure_bind, hafter]

theorem Took.takes (h : layout.Lawful found) {members : List (String × Tree)}
    (htook : layout.Took found members draft target) (hempty : ∀ slot ∈ layout.slots, slot.get draft = none) :
    ∀ slot ∈ layout.slots, slot.Takes members target := by
  intro slot hslot
  constructor
  · intro tree hmem
    have haccepts := htook.accepts _ hmem
    generalize hm : (slot.name, tree) = m at haccepts
    cases haccepts with
    | @known other a tree hother hread hget =>
      obtain ⟨hname, rfl⟩ := Prod.mk.inj hm
      obtain rfl : slot = other :=
        Option.some.inj ((find?_slot h hslot).symm.trans (hname ▸ find?_slot h hother))
      exact ⟨a, hread, hget⟩
    | kept hothers hname hkeep => exact absurd (Prod.mk.inj hm).1 (hname slot hslot)
  · intro hmem
    rw [htook.stays slot hslot hmem, hempty slot hslot]

/-- The object as a whole, read into a draft without members. -/
theorem Lawful.read_object (h : layout.Lawful found) (dialect : Dialect)
    (honce : ∀ slot ∈ layout.slots, (members.map Prod.fst).count slot.name ≤ 1)
    (hslots : ∀ slot ∈ layout.slots, slot.Takes members target)
    (hothers : ∀ m ∈ members, (∀ slot ∈ layout.slots, slot.name ≠ m.1) →
      ∃ levels collect, layout.others = .keep levels collect ∧ m.2.keep levels = pure ())
    (hempty : ∀ slot ∈ layout.slots, slot.get draft = none) (hnone : found draft = [])
    (hfound : found target = (layout.unknown members).reverse) :
    layout.read dialect draft (Json.object members) = pure target := by
  have haccepts : ∀ m ∈ members, ∃ target, layout.Accepts target m := by
    intro m hm
    refine ⟨target, ?_⟩
    by_cases hknown : ∃ slot ∈ layout.slots, slot.name = m.1
    · obtain ⟨slot, hslot, hname⟩ := hknown
      obtain ⟨name, tree⟩ := m
      subst hname
      obtain ⟨a, hread, htarget⟩ := (hslots slot hslot).read tree hm
      exact .known hslot hread htarget
    · have hname : ∀ slot ∈ layout.slots, slot.name ≠ m.1 := fun slot hslot heq => hknown ⟨slot, hslot, heq⟩
      obtain ⟨levels, collect, hkeep, hvalue⟩ := hothers m hm hname
      exact .kept hkeep hname hvalue
  obtain ⟨after, hafter, htook⟩ := h.foldlM_took honce haccepts fun slot hslot _ => hempty slot hslot
  have htarget : after = target := by
    refine h.ext after target (fun slot hslot => ?_) ?_
    · exact (htook.takes h hempty slot hslot).get_eq (hslots slot hslot)
    · rw [htook.found, hnone, List.append_nil, hfound]
  subst htarget
  show (members.map fun m => (Json.text m.1, m.2)).foldlM layout.readMember draft = pure after
  exact hafter

/-- The same for a layout that knows all members. -/
theorem Lawful.read_known (h : layout.Lawful fun _ => []) (dialect : Dialect)
    (hobject : Json.IsObject (layout.slots.map (·.name)) members tree)
    (hslots : ∀ slot ∈ layout.slots, slot.Takes members target)
    (hempty : ∀ slot ∈ layout.slots, slot.get draft = none) : layout.read dialect draft tree = pure target := by
  have hknown : ∀ m ∈ members, ∃ slot ∈ layout.slots, slot.name = m.1 := fun m hm =>
    List.mem_map.mp (hobject.names m hm)
  have hunknown : layout.unknown members = [] := by
    refine List.eq_nil_iff_forall_not_mem.mpr fun name hname => ?_
    obtain ⟨hmem, hunknown⟩ := mem_unknown.mp hname
    obtain ⟨m, hm, rfl⟩ := List.mem_map.mp hmem
    exact hunknown (hobject.names m hm)
  rw [hobject.eq]
  refine h.read_object dialect (fun _ _ => hobject.count_le_one _) hslots (fun m hm hname => ?_) hempty rfl ?_
  · obtain ⟨slot, hslot, heq⟩ := hknown m hm
    exact absurd heq (hname slot hslot)
  · rw [hunknown]
    rfl

/-- The same for a layout that keeps the one member it may not know. -/
theorem Lawful.read_keeping {levels : Nat} {collect : String → δ → δ} (h : layout.Lawful found) (dialect : Dialect)
    (hkeep : layout.others = .keep levels collect)
    (hobject : Json.IsObject (name :: layout.slots.map (·.name)) members tree)
    (hvalue : name ∉ layout.slots.map (·.name) → ∀ value, (name, value) ∈ members → Json.Value levels value)
    (hslots : ∀ slot ∈ layout.slots, slot.Takes members target)
    (hempty : ∀ slot ∈ layout.slots, slot.get draft = none) (hnone : found draft = [])
    (hfound : found target = (layout.unknown members).reverse) : layout.read dialect draft tree = pure target := by
  rw [hobject.eq]
  refine h.read_object dialect (fun _ _ => hobject.count_le_one _) hslots (fun m hm hname => ?_) hempty hnone hfound
  have hunknown : m.1 ∉ layout.slots.map (·.name) := not_mem_names.mpr hname
  obtain ⟨other, value⟩ := m
  rcases List.mem_cons.mp (hobject.names _ hm) with heq | hmem
  · obtain rfl : other = name := heq
    exact ⟨levels, collect, hkeep, Tree.keep_of_value (hvalue hunknown value hm)⟩
  · exact absurd hmem hunknown

/-- A member that the layout does not know is the only one. -/
theorem unknown_eq (hobject : Json.IsObject (name :: layout.slots.map (·.name)) members tree)
    (hname : name ∉ layout.slots.map (·.name)) (hmem : name ∈ members.map Prod.fst) :
    layout.unknown members = [name] := by
  have hnodup : (layout.unknown members).Nodup := hobject.nodup.filter _
  apply List.perm_singleton.mp
  rw [List.perm_ext_iff_of_nodup hnodup (List.nodup_singleton name)]
  intro other
  rw [List.mem_singleton, mem_unknown]
  constructor
  · rintro ⟨hother, hne⟩
    obtain ⟨m, hm, rfl⟩ := List.mem_map.mp hother
    exact (List.mem_cons.mp (hobject.names m hm)).resolve_right hne
  · rintro rfl
    exact ⟨hmem, hname⟩

end Layout

/-! ## Members that may be left out -/

/-- `a`, where there is a member of that name. -/
def given (members : List (String × Tree)) (name : String) (a : α) : Option α :=
  if name ∈ members.map Prod.fst then some a else none

/-- The member `name` has this form, and is left out only where it may be. -/
structure Member (members : List (String × Tree)) (name : String) (omittable : Prop) (form : Tree → Prop) :
    Prop where
  form : ∀ tree, (name, tree) ∈ members → form tree
  omitted : name ∉ members.map Prod.fst → omittable

namespace Member

variable {members : List (String × Tree)} {name : String} {omittable : Prop} {form : Tree → Prop} {target : δ}

/-- A member that is there, among members with different names. -/
theorem of_mem {tree : Tree} (hnodup : (members.map Prod.fst).Nodup) (hmem : (name, tree) ∈ members)
    (hform : form tree) : Member members name omittable form := by
  constructor
  · intro other hother
    have heq : (name, other) = (name, tree) := List.inj_on_of_nodup_map hnodup hother hmem rfl
    rw [(Prod.mk.inj heq).2]
    exact hform
  · intro hname
    exact absurd (List.mem_map_of_mem hmem) hname

/-- A member that is left out. -/
theorem of_not_mem (hname : name ∉ members.map Prod.fst) (homit : omittable) : Member members name omittable form :=
  ⟨fun _ hmem => absurd (List.mem_map_of_mem hmem) hname, fun _ => homit⟩

theorem mem (h : Member members name False form) : name ∈ members.map Prod.fst := by
  by_contra hname
  exact h.omitted hname

theorem require (h : Member members name False form) (a : α) : require name (given members name a) = pure a := by
  rw [given, if_pos h.mem]
  rfl

theorem getD {a default : α} (h : Member members name (a = default) form) :
    (given members name a).getD default = a := by
  unfold given
  split
  · rfl
  · rename_i hmem
    exact (h.omitted hmem).symm

theorem takes {slot : Slot δ} {a : slot.α} (h : Member members slot.name omittable form)
    (hread : ∀ tree, form tree → slot.read tree = pure a) (hget : slot.get target = given members slot.name a) :
    slot.Takes members target := by
  constructor
  · intro tree hmem
    have hname : slot.name ∈ members.map Prod.fst := List.mem_map_of_mem hmem
    exact ⟨a, hread tree (h.form tree hmem), hget.trans (if_pos hname)⟩
  · intro hname
    exact hget.trans (if_neg hname)

end Member

end MatchAction
