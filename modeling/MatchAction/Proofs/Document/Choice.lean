/-
  MatchAction.Proofs.Document.Choice — objects that name what they are by one of their members.

  An object may have several kinds at once, and each of them as null. The first kind that is set, in
  a fixed order of the kinds, counts; where none is set the least of the names that are not known
  does. All of this is said of the members as a collection, so their order does not matter, and names
  that are not known matter only where no kind is set.

  Proved:
  - `Selects.unique`: an object selects one thing at most.
  - `Admits.perm`, `Admits.append`, `Selects.perm`, `Selects.append`: what becomes of an object whose
    members are put in another order or that gets members with other names.
  - `Governs.of_selects`: a reader that follows the choice does not heed the order of the members.
-/

import MatchAction.Proofs.Document.Acceptance
import MatchAction.Proofs.TextOrder

namespace MatchAction

open Reading
open Json (IsValue)

variable {α β δ : Type} {members others added : List (String × Tree)}

/-! ## What objects have under their names -/

def SameUnder (names : List String) (members others : List (String × Tree)) : Prop :=
  ∀ name ∈ names, ∀ tree, (name, tree) ∈ members ↔ (name, tree) ∈ others

theorem eq_of_once {name : String} {tree other : Tree} (honce : (members.map Prod.fst).count name ≤ 1)
    (htree : (name, tree) ∈ members) (hother : (name, other) ∈ members) : tree = other := by
  induction members with
  | nil => cases htree
  | cons m rest ih =>
    have hlater : ∀ {t}, (name, t) ∈ rest → name ≠ m.1 := by
      rintro t ht rfl
      rw [List.map_cons, List.count_cons_self] at honce
      have hpos : 0 < (rest.map Prod.fst).count m.1 := List.count_pos_iff.mpr (List.mem_map.mpr ⟨_, ht, rfl⟩)
      omega
    rcases List.mem_cons.mp htree with hfirst | hrest
    · rcases List.mem_cons.mp hother with hsecond | hrest
      · exact (Prod.mk.inj (hfirst.trans hsecond.symm)).2
      · exact absurd (congrArg Prod.fst hfirst) (hlater hrest)
    · rcases List.mem_cons.mp hother with hsecond | hrest'
      · exact absurd (congrArg Prod.fst hsecond) (hlater hrest)
      · exact ih (List.count_le_count_cons.trans honce) hrest hrest'

/-! ## Kinds -/

/-- A kind that an object may be of, and what is read under its name. -/
structure Kind (α : Type) where
  name : String
  read : Tree → Reading α

namespace Kind

variable {kind : Kind α} {kinds : List (Kind α)} {a b : α}

/-- The kind is left out, or null. -/
def Unset (kind : Kind α) (members : List (String × Tree)) : Prop :=
  ∀ tree, (kind.name, tree) ∈ members → tree = Json.null

def Gives (kind : Kind α) (members : List (String × Tree)) (a : α) : Prop :=
  ∃ tree, (kind.name, tree) ∈ members ∧ tree ≠ Json.null ∧ kind.read tree = pure a

inductive FirstGives (members : List (String × Tree)) : List (Kind α) → α → Prop
  | here {kind : Kind α} {kinds : List (Kind α)} {a : α} : kind.Gives members a → FirstGives members (kind :: kinds) a
  | later {kind : Kind α} {kinds : List (Kind α)} {a : α} : kind.Unset members → FirstGives members kinds a →
      FirstGives members (kind :: kinds) a

def Has (kind : Kind α) (members : List (String × Tree)) : Option α → Prop
  | none => kind.Unset members
  | some a => kind.Gives members a

theorem Unset.congr (h : kind.Unset members) (hsame : SameUnder [kind.name] members others) : kind.Unset others :=
  fun tree hmem => h tree ((hsame _ (List.mem_singleton_self _) tree).mpr hmem)

theorem Gives.congr (h : kind.Gives members a) (hsame : SameUnder [kind.name] members others) :
    kind.Gives others a := by
  obtain ⟨tree, hmem, hread⟩ := h
  exact ⟨tree, (hsame _ (List.mem_singleton_self _) tree).mp hmem, hread⟩

theorem Gives.not_unset (h : kind.Gives members a) : ¬kind.Unset members := by
  obtain ⟨tree, hmem, hset, -⟩ := h
  exact fun hunset => hset (hunset tree hmem)

theorem Gives.unique (h : kind.Gives members a) (hb : kind.Gives members b)
    (honce : (members.map Prod.fst).count kind.name ≤ 1) : a = b := by
  obtain ⟨tree, hmem, -, hread⟩ := h
  obtain ⟨other, hother, -, hread'⟩ := hb
  obtain rfl := eq_of_once honce hmem hother
  exact pure_inj (hread.symm.trans hread')

theorem FirstGives.congr (h : FirstGives members kinds a) (hsame : SameUnder (kinds.map Kind.name) members others) :
    FirstGives others kinds a := by
  induction h with
  | here hgives =>
    obtain ⟨hkind, -⟩ := List.forall_mem_cons.mp hsame
    exact .here (hgives.congr (List.forall_mem_singleton.mpr hkind))
  | later hunset _ ih =>
    obtain ⟨hkind, hkinds⟩ := List.forall_mem_cons.mp hsame
    exact .later (hunset.congr (List.forall_mem_singleton.mpr hkind)) (ih hkinds)

theorem FirstGives.exists_gives (h : FirstGives members kinds a) : ∃ kind ∈ kinds, kind.Gives members a := by
  induction h with
  | here hgives => exact ⟨_, List.mem_cons_self, hgives⟩
  | later _ _ ih =>
    obtain ⟨kind, hkind, hgives⟩ := ih
    exact ⟨kind, List.mem_cons_of_mem _ hkind, hgives⟩

theorem FirstGives.unique (h : FirstGives members kinds a) (hb : FirstGives members kinds b)
    (honce : ∀ kind ∈ kinds, (members.map Prod.fst).count kind.name ≤ 1) : a = b := by
  induction h with
  | here hgives =>
    cases hb with
    | here hother => exact hgives.unique hother (honce _ List.mem_cons_self)
    | later hunset _ => exact absurd hunset hgives.not_unset
  | later hunset _ ih =>
    cases hb with
    | here hother => exact absurd hunset hother.not_unset
    | later _ hrest => exact ih hrest (List.forall_mem_cons.mp honce).2

theorem firstGives_of_has {values : List (Option α)}
    (h : List.Forall₂ (fun kind value => kind.Has members value) kinds values)
    (ha : values.findSome? id = some a) : FirstGives members kinds a := by
  induction h with
  | nil => cases ha
  | @cons kind value kinds values hkind _ ih =>
    cases value with
    | none => exact .later hkind (ih ha)
    | some x =>
      obtain rfl : x = a := Option.some.inj ha
      exact .here hkind

theorem unset_of_has {values : List (Option α)}
    (h : List.Forall₂ (fun kind value => kind.Has members value) kinds values)
    (hnone : values.findSome? id = none) : ∀ kind ∈ kinds, kind.Unset members := by
  induction h with
  | nil => exact List.forall_mem_nil _
  | @cons kind value kinds values hkind _ ih =>
    cases value with
    | none => exact List.forall_mem_cons.mpr ⟨hkind, ih hnone⟩
    | some x => cases hnone

end Kind

/-! ## The choice among them -/

/-- The kinds that an object may be of, in the order in which they count. -/
structure Choice (α : Type) where
  kinds : List (Kind α)
  /-- The names of the members that say nothing of the kind. -/
  fields : List String := []
  /-- What an object is of whose kind is not known. -/
  other : String → α
  /-- The name of a kind that is not given. -/
  fallback : String

namespace Choice

variable {choice : Choice α} {levels : Nat} {a b : α}

def names (choice : Choice α) : List String := choice.fields ++ choice.kinds.map Kind.name

def Unknown (choice : Choice α) (members : List (String × Tree)) (name : String) : Prop :=
  name ∈ members.map Prod.fst ∧ name ∉ choice.names

/-- Known names come once at most, and the kinds that are set have payloads, selected or not. -/
structure WellFormed (choice : Choice α) (members : List (String × Tree)) : Prop where
  once : ∀ name ∈ choice.names, (members.map Prod.fst).count name ≤ 1
  payloads : ∀ kind ∈ choice.kinds, ∀ tree, (kind.name, tree) ∈ members → tree ≠ Json.null →
    ∃ a, kind.read tree = pure a

/-- What is under the other names can also be kept. -/
structure Admits (choice : Choice α) (levels : Nat) (members : List (String × Tree)) : Prop
    extends choice.WellFormed members where
  others : ∀ m ∈ members, m.1 ∉ choice.names → Json.Value levels m.2

def Unset (choice : Choice α) (members : List (String × Tree)) : Prop := ∀ kind ∈ choice.kinds, kind.Unset members

/-- The first kind that is set, or else the least of the names that are not known, by its bytes. -/
inductive Selects (choice : Choice α) (members : List (String × Tree)) : α → Prop
  | first {a : α} : Kind.FirstGives members choice.kinds a → Selects choice members a
  | least {name : String} : choice.Unset members → choice.Unknown members name →
      (∀ other, choice.Unknown members other → ¬other.toUTF8.toList < name.toUTF8.toList) →
      Selects choice members (choice.other name)
  | fallback : choice.Unset members → (∀ name, ¬choice.Unknown members name) →
      Selects choice members (choice.other choice.fallback)

theorem Selects.unique (h : choice.Selects members a) (hb : choice.Selects members b)
    (honce : ∀ name ∈ choice.names, (members.map Prod.fst).count name ≤ 1) : a = b := by
  have hset : ∀ {x}, Kind.FirstGives members choice.kinds x → ¬choice.Unset members := by
    intro x hfirst hunset
    obtain ⟨kind, hkind, hgives⟩ := hfirst.exists_gives
    exact hgives.not_unset (hunset kind hkind)
  cases h with
  | first hfirst =>
    cases hb with
    | first hother =>
      exact hfirst.unique hother fun kind hkind => honce _ (List.mem_append_right _ (List.mem_map_of_mem hkind))
    | least hunset _ _ => exact absurd hunset (hset hfirst)
    | fallback hunset _ => exact absurd hunset (hset hfirst)
  | least hunset hname hleast =>
    cases hb with
    | first hother => exact absurd hunset (hset hother)
    | least _ hname' hleast' =>
      have hle := hleast _ hname'
      have hge := hleast' _ hname
      rw [bytes_lt_iff] at hle hge
      rw [le_antisymm (not_lt.mp hge) (not_lt.mp hle)]
    | fallback _ hnone => exact absurd hname (hnone _)
  | fallback hunset hnone =>
    cases hb with
    | first hother => exact absurd hunset (hset hother)
    | least _ hname _ => exact absurd hname (hnone _)
    | fallback _ _ => rfl

theorem Unset.congr (h : choice.Unset members) (hsame : SameUnder choice.names members others) :
    choice.Unset others := fun kind hkind =>
  (h kind hkind).congr (List.forall_mem_singleton.mpr
    (hsame _ (List.mem_append_right _ (List.mem_map_of_mem hkind))))

theorem firstGives_congr (h : Kind.FirstGives members choice.kinds a) (hsame : SameUnder choice.names members others) :
    Kind.FirstGives others choice.kinds a := h.congr fun name hname => hsame name (List.mem_append_right _ hname)

/-! ## Members in another order, and further members -/

theorem sameUnder_of_perm (h : members.Perm others) (names : List String) : SameUnder names members others :=
  fun _ _ _ => h.mem_iff

theorem Admits.perm (h : choice.Admits levels members) (hperm : members.Perm others) : choice.Admits levels others where
  once := fun name hname => (hperm.map Prod.fst).count_eq name ▸ h.once name hname
  payloads := fun kind hkind tree hmem => h.payloads kind hkind tree (hperm.mem_iff.mpr hmem)
  others := fun m hm => h.others m (hperm.mem_iff.mpr hm)

theorem Selects.perm (h : choice.Selects members a) (hperm : members.Perm others) : choice.Selects others a := by
  have hsame := sameUnder_of_perm hperm choice.names
  have hunknown : ∀ {name}, choice.Unknown others name ↔ choice.Unknown members name :=
    and_congr_left' (hperm.map Prod.fst).mem_iff.symm
  cases h with
  | first hfirst => exact .first (firstGives_congr hfirst hsame)
  | least hunset hname hleast =>
    exact .least (hunset.congr hsame) (hunknown.mpr hname) fun other hother => hleast other (hunknown.mp hother)
  | fallback hunset hnone => exact .fallback (hunset.congr hsame) fun name hname => hnone name (hunknown.mp hname)

theorem sameUnder_append (hadded : ∀ m ∈ added, m.1 ∉ choice.names) :
    SameUnder choice.names members (members ++ added) := by
  intro name hname tree
  rw [List.mem_append]
  exact (or_iff_left fun hmem => hadded _ hmem hname).symm

theorem Admits.append (h : choice.Admits levels members) (hadded : ∀ m ∈ added, m.1 ∉ choice.names)
    (hvalues : ∀ m ∈ added, Json.Value levels m.2) : choice.Admits levels (members ++ added) where
  once := by
    intro name hname
    have hnone : (added.map Prod.fst).count name = 0 := by
      refine List.count_eq_zero.mpr fun hmem => ?_
      obtain ⟨m, hm, rfl⟩ := List.mem_map.mp hmem
      exact hadded m hm hname
    rw [List.map_append, List.count_append, hnone]
    exact h.once name hname
  payloads := fun kind hkind tree hmem =>
    h.payloads kind hkind tree ((sameUnder_append hadded _
      (List.mem_append_right _ (List.mem_map_of_mem hkind)) tree).mpr hmem)
  others := by
    intro m hm hunknown
    rcases List.mem_append.mp hm with hm | hm
    · exact h.others m hm hunknown
    · exact hvalues m hm

/-! ## Readers that follow the choice -/

/-- The reader takes the objects that the choice admits, if they have the fields, and gives what they
    select. The order of the members does not matter, and members that are not known make a
    difference only where no kind is set. -/
structure Governs (choice : Choice α) (levels : Nat) (read : Tree → Reading β)
    (fields : List (String × Tree) → β → Prop) (value : β → α) : Prop where
  accepts : ∀ tree, IsValue tree → ((∃ b, read tree = pure b) ↔
    ∃ members, tree = Json.object members ∧ choice.Admits levels members ∧ ∃ b, fields members b)
  selects : ∀ members b, IsValue (Json.object members) → read (Json.object members) = pure b →
    fields members b ∧ choice.Selects members (value b)
  reorders : ∀ members others b, IsValue (Json.object members) → members.Perm others →
    read (Json.object members) = pure b → read (Json.object others) = pure b
  ignores : ∀ members added b, IsValue (Json.object members) →
    (∀ m ∈ added, m.1 ∉ choice.names ∧ IsValue m.2 ∧ Json.Value levels m.2) → read (Json.object members) = pure b →
    ∃ after, read (Json.object (members ++ added)) = pure after ∧ (after ≠ b → choice.Unset members)

section

variable {read : Tree → Reading β} {fields : List (String × Tree) → β → Prop} {value : β → α} {b b' : β}

/-- The order follows from what is accepted and what is selected, since there is one such thing. -/
theorem Governs.of_selects
    (haccepts : ∀ tree, IsValue tree → ((∃ b, read tree = pure b) ↔
      ∃ members, tree = Json.object members ∧ choice.Admits levels members ∧ ∃ b, fields members b))
    (hselects : ∀ members b, IsValue (Json.object members) → read (Json.object members) = pure b →
      fields members b ∧ choice.Selects members (value b))
    (hcongr : ∀ members others b, SameUnder choice.names members others → fields members b → fields others b)
    (hunique : ∀ members b b', (∀ name ∈ choice.names, (members.map Prod.fst).count name ≤ 1) →
      fields members b → fields members b' → value b = value b' → b = b') :
    choice.Governs levels read fields value := by
  -- what admits the fields is read, and as anything that it selects
  have hread : ∀ members b, IsValue (Json.object members) → choice.Admits levels members → fields members b →
      ∃ after, read (Json.object members) = pure after ∧ (choice.Selects members (value b) → after = b) := by
    intro members b hvalue hadmits hb
    obtain ⟨after, hafter⟩ := (haccepts _ hvalue).mpr ⟨members, rfl, hadmits, b, hb⟩
    obtain ⟨hfields, hselected⟩ := hselects members after hvalue hafter
    exact ⟨after, hafter, fun h => hunique members after b hadmits.once hfields hb (hselected.unique h hadmits.once)⟩
  have hadmitted : ∀ members b, IsValue (Json.object members) → read (Json.object members) = pure b →
      choice.Admits levels members := by
    intro members b hvalue h
    obtain ⟨named, heq, hadmits, -⟩ := (haccepts _ hvalue).mp ⟨b, h⟩
    exact Json.object_inj heq ▸ hadmits
  refine ⟨haccepts, hselects, fun members others b hvalue hperm h => ?_, fun members added b hvalue hadded h => ?_⟩
  · obtain ⟨hfields, hselected⟩ := hselects members b hvalue h
    have hothers : IsValue (Json.object others) :=
      Json.isValue_object fun m hm => hvalue.of_object m (hperm.mem_iff.mpr hm)
    obtain ⟨after, hafter, hsame⟩ := hread others b hothers ((hadmitted members b hvalue h).perm hperm)
      (hcongr members others b (sameUnder_of_perm hperm _) hfields)
    rwa [hsame (hselected.perm hperm)] at hafter
  · obtain ⟨hfields, hselected⟩ := hselects members b hvalue h
    have hnames : ∀ m ∈ added, m.1 ∉ choice.names := fun m hm => (hadded m hm).1
    have hsame : SameUnder choice.names members (members ++ added) := sameUnder_append hnames
    have hmore : IsValue (Json.object (members ++ added)) :=
      Json.isValue_object (List.forall_mem_append.mpr ⟨hvalue.of_object, fun m hm => (hadded m hm).2.1⟩)
    obtain ⟨after, hafter, heq⟩ := hread (members ++ added) b hmore
      ((hadmitted members b hvalue h).append hnames fun m hm => (hadded m hm).2.2) (hcongr _ _ b hsame hfields)
    refine ⟨after, hafter, fun hne => ?_⟩
    generalize hv : value b = v at hselected heq
    cases hselected with
    | first hfirst => exact absurd (heq (.first (firstGives_congr hfirst hsame))) hne
    | least hunset _ _ => exact hunset
    | fallback hunset _ => exact hunset

end

end Choice

/-! ## Layouts with a slot for each kind -/

/-- The slot is for the kind and may be null; `value` is what a draft has of the kind. -/
structure Kind.InSlot (kind : Kind α) (slot : Slot δ) (value : δ → Option α) : Prop where
  name : slot.name = kind.name
  settled : ∀ tree, IsValue tree → (slot.read tree).Settled
  reads : ∀ tree, IsValue tree → ((∃ a, slot.read tree = pure a) ↔ (tree ≠ Json.null → ∃ a, kind.read tree = pure a))
  has : ∀ members target, (∀ m ∈ members, IsValue m.2) → slot.Takes members target → kind.Has members (value target)

structure KindSlot (α δ : Type) where
  kind : Kind α
  slot : Slot δ
  value : δ → Option α
  inSlot : kind.InSlot slot value

section

variable {name : String} {payload : Tree → Reading α} {read : Tree → Reading β} {get : δ → Option (Option β)}
  {set : Option β → δ → δ} {f : β → α} {tree : Tree} {target : δ}

theorem Kind.payload_eq_pure_iff (hpayload : payload tree = f <$> read tree) (hread : (read tree).Settled) {a : α} :
    payload tree = pure a ↔ ∃ x, read tree = pure x ∧ f x = a := by
  rw [hpayload, map_eq_pure_bind, bind_eq_pure_iff hread]
  exact exists_congr fun x => and_congr_right fun _ => ⟨pure_inj, fun h => h ▸ rfl⟩

/-- What may be null is read if it is null, or else if the payload is. -/
theorem Kind.exists_readOption_iff (hpayload : payload tree = f <$> read tree) (htree : IsValue tree)
    (hread : (read tree).Settled) :
    (∃ a, tree.readOption read = pure a) ↔ (tree ≠ Json.null → ∃ a, payload tree = pure a) := by
  constructor
  · rintro ⟨o, ho⟩ hset
    rcases (Tree.readOption_eq_pure_iff htree hread).mp ho with ⟨hnull, -⟩ | ⟨-, x, -, hx⟩
    · exact absurd hnull hset
    · exact ⟨f x, (payload_eq_pure_iff hpayload hread).mpr ⟨x, hx, rfl⟩⟩
  · intro hgiven
    by_cases hnull : tree = Json.null
    · exact ⟨none, (Tree.readOption_eq_pure_iff htree hread).mpr (.inl ⟨hnull, rfl⟩)⟩
    · obtain ⟨a, ha⟩ := hgiven hnull
      obtain ⟨x, hx, -⟩ := (payload_eq_pure_iff hpayload hread).mp ha
      exact ⟨some x, (Tree.readOption_eq_pure_iff htree hread).mpr (.inr ⟨hnull, x, rfl, hx⟩)⟩

/-- What is in the slot was read under its name, wherever the name occurs. -/
theorem Kind.readOption_of_takes (htakes : (Slot.of name (Tree.readOption read) get set).Takes members target)
    {o : Option β} (hget : get target = some o) : ∀ tree, (name, tree) ∈ members → tree.readOption read = pure o := by
  intro tree hmem
  obtain ⟨o', hread, ho⟩ : ∃ o', tree.readOption read = pure o' ∧ get target = some o' := htakes.read tree hmem
  rwa [Option.some.inj (hget.symm.trans ho)]

theorem Kind.has_of_takes (hpayload : ∀ tree, payload tree = f <$> read tree)
    (hsettled : ∀ tree, IsValue tree → (read tree).Settled) (hvalues : ∀ m ∈ members, IsValue m.2)
    (htakes : (Slot.of name (Tree.readOption read) get set).Takes members target) :
    Kind.Has ⟨name, payload⟩ members (((get target).getD none).map f) := by
  have hoption : ∀ {tree o}, (name, tree) ∈ members → tree.readOption read = pure o →
      tree = Json.null ∧ o = none ∨ tree ≠ Json.null ∧ ∃ x, o = some x ∧ read tree = pure x := fun hmem =>
    (Tree.readOption_eq_pure_iff (hvalues _ hmem) (hsettled _ (hvalues _ hmem))).mp
  cases hget : get target with
  | none =>
    intro tree hmem
    obtain ⟨o, -, ho⟩ : ∃ o, tree.readOption read = pure o ∧ get target = some o := htakes.read tree hmem
    cases hget.symm.trans ho
  | some o =>
    have hread := readOption_of_takes htakes hget
    cases o with
    | none =>
      intro tree hmem
      rcases hoption hmem (hread tree hmem) with ⟨hnull, -⟩ | ⟨-, x, hx, -⟩
      · exact hnull
      · cases hx
    | some x =>
      have hname : name ∈ members.map Prod.fst := by
        by_contra hname
        cases hget.symm.trans (htakes.empty hname)
      obtain ⟨m, hmem, rfl⟩ := List.mem_map.mp hname
      rcases hoption hmem (hread m.2 hmem) with ⟨-, hx⟩ | ⟨hset, x', hx, hgiven⟩
      · cases hx
      · obtain rfl := Option.some.inj hx
        exact ⟨m.2, hmem, hset, (payload_eq_pure_iff (hpayload _) (hsettled _ (hvalues _ hmem))).mpr ⟨x, hgiven, rfl⟩⟩

/-- A payload that is read as `f` makes of it. -/
theorem Kind.inSlot (hpayload : ∀ tree, payload tree = f <$> read tree)
    (hsettled : ∀ tree, IsValue tree → (read tree).Settled) :
    Kind.InSlot ⟨name, payload⟩ (.of name (Tree.readOption read) get set)
      fun draft => ((get draft).getD none).map f where
  name := rfl
  settled := fun tree htree => Tree.settled_readOption htree (hsettled tree htree)
  reads := fun tree htree => exists_readOption_iff (hpayload tree) htree (hsettled tree htree)
  has := fun _ _ => has_of_takes hpayload hsettled

end

def KindSlot.of {payload : Tree → Reading α} {f : β → α} (name : String) (read : Tree → Reading β)
    (get : δ → Option (Option β)) (set : Option β → δ → δ) (hpayload : ∀ tree, payload tree = f <$> read tree)
    (hsettled : ∀ tree, IsValue tree → (read tree).Settled) : KindSlot α δ :=
  ⟨⟨name, payload⟩, .of name (Tree.readOption read) get set, _, Kind.inSlot hpayload hsettled⟩

namespace Choice

variable {choice : Choice α} {layout : Layout δ} {plain : List (Slot δ)} {entries : List (KindSlot α δ)}
  {levels : Nat} {found : δ → List String} {draft target : δ} {collect : String → δ → δ} {dialect : Dialect}

/-- The layout has slots for the fields and then one for each kind. -/
structure Laid (choice : Choice α) (layout : Layout δ) (plain : List (Slot δ)) (entries : List (KindSlot α δ)) :
    Prop where
  slots : layout.slots = plain ++ entries.map KindSlot.slot
  fields : plain.map (·.name) = choice.fields
  kinds : choice.kinds = entries.map KindSlot.kind
  settled : Layout.SlotsSettled plain

theorem Laid.names_eq (h : choice.Laid layout plain entries) : layout.slots.map (·.name) = choice.names := by
  have hname : ∀ entry ∈ entries, entry.slot.name = entry.kind.name := fun entry _ => entry.inSlot.name
  rw [h.slots, Choice.names, h.kinds, List.map_append, h.fields, List.map_map, List.map_map]
  exact congrArg _ (List.map_congr_left hname)

theorem Laid.slotsSettled (h : choice.Laid layout plain entries) : Layout.SlotsSettled layout.slots := by
  rw [h.slots]
  refine List.forall_mem_append.mpr ⟨h.settled, fun slot hslot => ?_⟩
  obtain ⟨entry, -, rfl⟩ := List.mem_map.mp hslot
  exact entry.inSlot.settled

/-- What the layout reads is what the choice admits, the fields apart. -/
theorem Laid.fits_iff (h : choice.Laid layout plain entries) (hvalues : ∀ m ∈ members, IsValue m.2) :
    layout.Fits levels members ↔ choice.Admits levels members ∧
      ∀ slot ∈ plain, ∀ tree, (slot.name, tree) ∈ members → ∃ a, slot.read tree = pure a := by
  have hnames := h.names_eq
  constructor
  · intro hfits
    have hslots := hfits.reads
    rw [h.slots] at hslots
    obtain ⟨hfields, hkinds⟩ := List.forall_mem_append.mp hslots
    refine ⟨⟨⟨fun name hname => ?_, fun kind hkind tree hmem => ?_⟩, fun m hm hunknown => ?_⟩, hfields⟩
    · obtain ⟨slot, hslot, rfl⟩ := List.mem_map.mp (hnames ▸ hname)
      exact hfits.once slot hslot
    · obtain ⟨entry, hentry, rfl⟩ := List.mem_map.mp (h.kinds ▸ hkind)
      refine (entry.inSlot.reads tree (hvalues _ hmem)).mp ?_
      exact hkinds entry.slot (List.mem_map_of_mem hentry) tree (entry.inSlot.name ▸ hmem)
    · exact hfits.others m hm (hnames ▸ hunknown)
  · rintro ⟨hadmits, hfields⟩
    refine ⟨fun slot hslot => ?_, ?_, fun m hm hunknown => hadmits.others m hm (hnames ▸ hunknown)⟩
    · exact hadmits.once _ (hnames ▸ List.mem_map_of_mem hslot)
    · rw [h.slots]
      refine List.forall_mem_append.mpr ⟨hfields, fun slot hslot tree hmem => ?_⟩
      obtain ⟨entry, hentry, rfl⟩ := List.mem_map.mp hslot
      refine (entry.inSlot.reads tree (hvalues _ hmem)).mpr ?_
      exact hadmits.payloads entry.kind (h.kinds ▸ List.mem_map_of_mem hentry) tree (entry.inSlot.name ▸ hmem)

/-- The values that are read are the objects that the choice admits, if their fields are read. -/
theorem Laid.exists_read_iff (h : choice.Laid layout plain entries) (hlawful : layout.Lawful found)
    (hothers : layout.others = .keep levels collect) (hempty : ∀ slot ∈ layout.slots, slot.get draft = none)
    {tree : Tree} (htree : IsValue tree) : (∃ target, layout.read dialect draft tree = pure target) ↔
      ∃ members, tree = Json.object members ∧ choice.Admits levels members ∧
        ∀ slot ∈ plain, ∀ value, (slot.name, value) ∈ members → ∃ a, slot.read value = pure a := by
  rw [hlawful.exists_read_iff h.slotsSettled hothers hempty htree]
  refine exists_congr fun members => and_congr_right ?_
  rintro rfl
  exact h.fits_iff htree.of_object

/-- What the draft has of each kind is what the kind gives. -/
theorem Laid.has (h : choice.Laid layout plain entries) (hvalues : ∀ m ∈ members, IsValue m.2)
    (htakes : ∀ slot ∈ layout.slots, slot.Takes members target) :
    List.Forall₂ (fun kind value => kind.Has members value) choice.kinds
      (entries.map fun entry => entry.value target) := by
  rw [h.kinds, List.forall₂_map_left_iff, List.forall₂_map_right_iff]
  refine List.forall₂_same.mpr fun entry hentry => entry.inSlot.has members target hvalues (htakes _ ?_)
  rw [h.slots]
  exact List.mem_append_right _ (List.mem_map_of_mem hentry)

end Choice

end MatchAction
