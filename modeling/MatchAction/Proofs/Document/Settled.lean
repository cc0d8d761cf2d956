/-
  MatchAction.Proofs.Document.Settled — a value of JSON is read or refused, whatever came before.

  Readers count the aliases that they follow, so what one makes of a value may depend on what was
  read before it. A text of JSON has no aliases: each reader gives a certain result for a value of
  it, or has a certain objection. Such a reader is settled, and what it gives can be traced back
  through its parts.

  Proved:
  - `Json.isValue_read`: a text of JSON that is complete says a value of JSON.
  - `Settled.bind`, `bind_eq_pure_iff`: readers put together are settled, and give what their parts do.
  - `settled_readText`, `settled_readList` and so on: each reader is settled on values of JSON.
  - `keep_eq_pure_iff`: which values are kept.
  - `Layout.settled_read`: a record is settled where its slots are.
  - `Json.decode_eq_ok_iff`: what a text is read as is what its root is.
-/

import MatchAction.Proofs.Document.Layout

namespace MatchAction

/-! ## Values of JSON -/

namespace Json

/-- A string; one that says nothing has bad surrogates. -/
def IsString (tree : Tree) : Prop := ∃ text, tree = .scalar (textScalar text)

/-- Any value of JSON, whether or not it can be kept. -/
inductive IsValue : Tree → Prop
  | null : IsValue null
  | flag (b : Bool) : IsValue (flag b)
  | string {tree : Tree} : IsString tree → IsValue tree
  | number (number : Number) : IsValue (.scalar (numberScalar number))
  | list {items : List Tree} : (∀ item ∈ items, IsValue item) → IsValue (.list items)
  | object {members : List (Tree × Tree)} : (∀ m ∈ members, IsString m.1) → (∀ m ∈ members, IsValue m.2) →
      IsValue (.record members)

def IsMember (m : Tree × Tree) : Prop := IsString m.1 ∧ IsValue m.2

theorem IsValue.isMember {members : List (Tree × Tree)} (h : IsValue (.record members)) :
    ∀ m ∈ members, IsMember m := by
  cases h with
  | string h => nomatch h
  | object hkeys hvalues => exact fun m hm => ⟨hkeys m hm, hvalues m hm⟩

theorem isValue_object {members : List (String × Tree)} (h : ∀ m ∈ members, IsValue m.2) :
    IsValue (Json.object members) := by
  refine .object (fun m hm => ?_) fun m hm => ?_
  · obtain ⟨named, -, rfl⟩ := List.mem_map.mp hm
    exact ⟨some named.1, rfl⟩
  · obtain ⟨named, hnamed, rfl⟩ := List.mem_map.mp hm
    exact h named hnamed

theorem IsValue.of_object {members : List (String × Tree)} (h : IsValue (Json.object members)) :
    ∀ m ∈ members, IsValue m.2 := fun _ hm => (h.isMember _ (List.mem_map_of_mem hm)).2

theorem object_inj {members others : List (String × Tree)} (h : Json.object members = Json.object others) :
    members = others := by
  have hpair : Function.Injective fun m : String × Tree => (text m.1, m.2) := by
    rintro ⟨name, tree⟩ ⟨other, tree'⟩ heq
    cases heq
    rfl
  exact List.map_injective_iff.mpr hpair (Tree.record.inj h)

/-- A literal without a sign, a fraction and an exponent. -/
def IsNatural (n : Nat) (tree : Tree) : Prop :=
  ∃ number : Number, tree = .scalar (numberScalar number) ∧ number.natural? = some n

theorem IsNatural.unique {m n : Nat} {tree : Tree} (hm : IsNatural m tree) (hn : IsNatural n tree) : m = n := by
  obtain ⟨number, rfl, hnumber⟩ := hm
  obtain ⟨other, heq, hother⟩ := hn
  have hnatural : number.natural? = other.natural? := congrArg Scalar.natural? (Tree.scalar.inj heq)
  exact Option.some.inj (hnumber.symm.trans (hnatural.trans hother))

theorem isValue_leaf {found : Option (Scalar × Octets)} {tree : Tree} {rest : Octets}
    (hfound : ∀ s ∈ found, IsValue (.scalar s.1)) (h : leaf found = (tree, some rest)) : IsValue tree := by
  cases found with
  | none => cases h
  | some s =>
    cases h
    exact hfound s rfl

theorem isString_scanKey {bytes rest : Octets} {tree : Tree} (h : scanKey bytes = (tree, some rest)) :
    IsString tree := by
  unfold scanKey at h
  split at h
  · split at h
    · rename_i text _ _
      split at h
      · cases h
        exact ⟨text, rfl⟩
      · cases h
    · cases h
  · cases h

/-! What is scanned to its end is of JSON, one function after the other: each passes to the others
what is left of the fuel. -/

def ScansValues (fuel : Nat) : Prop :=
  ∀ bytes tree rest, scanValue fuel bytes = (tree, some rest) → IsValue tree

def ScansItems (fuel : Nat) : Prop :=
  ∀ before bytes items rest, scanItems fuel before bytes = (items, some rest) →
    (∀ item ∈ before, IsValue item) → ∀ item ∈ items, IsValue item

def ScansMembers (fuel : Nat) : Prop :=
  ∀ before bytes members rest, scanMembers fuel before bytes = (members, some rest) →
    (∀ m ∈ before, IsMember m) → ∀ m ∈ members, IsMember m

variable {fuel : Nat}

theorem isValue_number {found : Option (Number × Octets)} {tree : Tree} {rest : Octets}
    (h : leaf (found.map fun (number, rest) => (numberScalar number, rest)) = (tree, some rest)) : IsValue tree := by
  refine isValue_leaf (fun s hs => ?_) h
  obtain ⟨literal, -, rfl⟩ := Option.mem_map.mp hs
  exact .number literal.1

theorem isValue_text {found : Option (Option String × Octets)} {tree : Tree} {rest : Octets}
    (h : leaf (found.map fun (text, rest) => (textScalar text, rest)) = (tree, some rest)) : IsValue tree := by
  refine isValue_leaf (fun s hs => ?_) h
  obtain ⟨literal, -, rfl⟩ := Option.mem_map.mp hs
  exact .string ⟨literal.1, rfl⟩

theorem scansValues_succ (hitems : ScansItems fuel) (hmembers : ScansMembers fuel) : ScansValues (fuel + 1) := by
  intro bytes tree rest h
  unfold scanValue at h
  split at h
  · cases h
    exact .null
  · cases h
    exact .flag true
  · cases h
    exact .flag false
  · exact isValue_text h
  · exact isValue_number h
  · split at h
    · cases h
      exact .list (List.forall_mem_nil _)
    · rename_i inner _ _
      cases hscan : scanItems fuel [] (skipBlanks inner) with
      | mk items rest =>
        rw [hscan] at h
        cases h
        have hall := hitems _ _ _ _ hscan (List.forall_mem_nil _)
        exact .list fun item hitem => hall item (List.mem_reverse.mp hitem)
  · split at h
    · cases h
      exact .object (List.forall_mem_nil _) (List.forall_mem_nil _)
    · rename_i inner _ _
      cases hscan : scanMembers fuel [] (skipBlanks inner) with
      | mk members rest =>
        rw [hscan] at h
        cases h
        have hall := hmembers _ _ _ _ hscan (List.forall_mem_nil _)
        exact .object (fun m hm => (hall m (List.mem_reverse.mp hm)).1) fun m hm => (hall m (List.mem_reverse.mp hm)).2
  · split at h
    · exact isValue_number h
    · cases h
  · cases h

theorem scansItems_succ (hvalue : ScansValues fuel) (hitems : ScansItems fuel) : ScansItems (fuel + 1) := by
  intro before bytes items rest h hbefore
  unfold scanItems at h
  split at h
  · cases h
  · rename_i item after hscan
    have hall : ∀ i ∈ item :: before, IsValue i := List.forall_mem_cons.mpr ⟨hvalue _ _ _ hscan, hbefore⟩
    split at h
    · cases h
      exact hall
    · exact hitems _ _ _ _ h hall
    · cases h

theorem scansMembers_succ (hvalue : ScansValues fuel) (hmembers : ScansMembers fuel) : ScansMembers (fuel + 1) := by
  intro before bytes members rest h hbefore
  unfold scanMembers at h
  cases hkey : scanKey bytes with
  | mk key afterKey =>
    rw [hkey] at h
    cases afterKey with
    | none => cases h
    | some afterKey =>
      dsimp only at h
      split at h
      · cases h
      · rename_i value after hscan
        have hmember : IsMember (key, value) := ⟨isString_scanKey hkey, hvalue _ _ _ hscan⟩
        have hall : ∀ m ∈ (key, value) :: before, IsMember m := List.forall_mem_cons.mpr ⟨hmember, hbefore⟩
        split at h
        · cases h
          exact hall
        · exact hmembers _ _ _ _ h hall
        · cases h

theorem scans (fuel : Nat) : ScansValues fuel ∧ ScansItems fuel ∧ ScansMembers fuel := by
  induction fuel with
  | zero => exact ⟨nofun, nofun, nofun⟩
  | succ fuel ih =>
    obtain ⟨hvalue, hitems, hmembers⟩ := ih
    exact ⟨scansValues_succ hitems hmembers, scansItems_succ hvalue hitems, scansMembers_succ hvalue hmembers⟩

/-- A text of JSON says a value of JSON, if nothing else follows it. -/
theorem isValue_read {bytes : Octets} (h : (read bytes).isComplete = true) : IsValue (read bytes).root := by
  unfold read at h ⊢
  split
  · rename_i root rest hscan
    exact (scans _).1 _ _ _ hscan
  · rename_i hscan
    rw [hscan] at h
    cases h

end Json

/-! ## Settled readers -/

namespace Reading

variable {α β : Type} {read : Reading α} {f : α → Reading β} {a : α} {b : β}

/-- There is a certain result, or a certain objection. -/
def Settled (read : Reading α) : Prop := (∃ a, read = pure a) ∨ ∃ flaw, read = throw flaw

theorem Settled.pure (a : α) : (pure a : Reading α).Settled := .inl ⟨a, rfl⟩

theorem Settled.throw (flaw : Flaw) : (throw flaw : Reading α).Settled := .inr ⟨flaw, rfl⟩

theorem Settled.ofExcept (result : Except Flaw α) : (ofExcept result).Settled := by
  cases result with
  | error flaw => exact .throw flaw
  | ok a => exact .pure a

theorem throw_ne_pure {flaw : Flaw} : (MonadExcept.throw flaw : Reading α) ≠ Pure.pure a := by
  intro h
  have hrun : Except.error flaw = Except.ok (a, 0) := congrArg (fun r : Reading α => r.run 0) h
  cases hrun

theorem Settled.bind (h : read.Settled) (hf : ∀ a, read = Pure.pure a → (f a).Settled) : (read >>= f).Settled := by
  rcases h with ⟨a, rfl⟩ | ⟨flaw, rfl⟩
  · rw [pure_bind]
    exact hf a rfl
  · exact .throw flaw

theorem bind_eq_pure_iff (h : read.Settled) :
    read >>= f = Pure.pure b ↔ ∃ a, read = Pure.pure a ∧ f a = Pure.pure b := by
  rcases h with ⟨a, rfl⟩ | ⟨flaw, rfl⟩
  · rw [pure_bind]
    constructor
    · intro hf
      exact ⟨a, rfl, hf⟩
    · rintro ⟨a', heq, hf⟩
      rwa [pure_inj heq]
  · constructor
    · intro hf
      exact absurd hf throw_ne_pure
    · rintro ⟨a', heq, -⟩
      exact absurd heq throw_ne_pure

theorem Settled.mapM {xs : List α} {read : α → Reading β} (h : ∀ x ∈ xs, (read x).Settled) :
    (xs.mapM read).Settled := by
  induction xs with
  | nil => exact .pure []
  | cons x rest ih =>
    obtain ⟨hx, hrest⟩ := List.forall_mem_cons.mp h
    rw [List.mapM_cons]
    exact hx.bind fun y _ => (ih hrest).bind fun ys _ => .pure _

theorem Settled.foldlM {xs : List α} {step : β → α → Reading β} (h : ∀ x ∈ xs, ∀ b, (step b x).Settled) (b : β) :
    (xs.foldlM step b).Settled := by
  induction xs generalizing b with
  | nil => exact .pure b
  | cons x rest ih =>
    obtain ⟨hx, hrest⟩ := List.forall_mem_cons.mp h
    rw [List.foldlM_cons]
    exact (hx b).bind fun next _ => ih hrest next

def Only (P : α → Prop) (read : Reading α) : Prop := ∀ before a after, read.run before = .ok (a, after) → P a

variable {P : α → Prop} {Q : β → Prop}

theorem Only.pure (h : P a) : (Pure.pure a : Reading α).Only P := by
  intro before a' after heq
  cases heq
  exact h

theorem Only.bind (h : ∀ a, (f a).Only Q) : (read >>= f).Only Q := by
  intro before b after heq
  have hrun : (read.run before >>= fun p => (f p.1).run p.2) = .ok (b, after) := heq
  cases hread : read.run before with
  | error flaw =>
    rw [hread] at hrun
    cases hrun
  | ok p =>
    rw [hread] at hrun
    exact h p.1 _ _ _ hrun

theorem Only.map {g : α → β} (h : ∀ a, Q (g a)) : (g <$> read).Only Q := by
  rw [map_eq_pure_bind]
  exact .bind fun a => .pure (h a)

theorem Only.of_eq_pure (h : read.Only P) (hread : read = Pure.pure a) : P a := h 0 a 0 (hread ▸ rfl)

end Reading

open Reading

theorem settled_require (name : String) {α : Type} (a : Option α) : (require name a).Settled := by
  cases a with
  | none => exact .throw _
  | some a => exact .pure a

namespace Tree

variable {α : Type} {read : Tree → Reading α} {tree : Tree} {levels : Nat}

open Json (IsValue IsString)

theorem follow_eq (h : IsValue tree) : tree.follow = pure tree := by
  cases h with
  | string h =>
    obtain ⟨text, rfl⟩ := h
    rfl
  | _ => rfl

theorem content_eq (h : IsValue tree) : tree.content = pure tree := by
  rw [content, follow_eq h, pure_bind]
  cases h with
  | string h =>
    obtain ⟨text, rfl⟩ := h
    rfl
  | _ => rfl

theorem settled_readText (h : IsValue tree) : tree.readText.Settled := by
  rw [readText, content_eq h, pure_bind]
  split
  · exact .pure _
  · exact .throw _
  · exact .throw _

theorem settled_readUInt32 (h : IsValue tree) : tree.readUInt32.Settled := by
  rw [readUInt32, content_eq h, pure_bind]
  split
  · split
    · exact .pure _
    · exact .throw _
  · exact .throw _
  · exact .throw _

theorem isNatural_of_readings {readings : Scalar} (h : IsValue (scalar readings)) {n : Nat}
    (hnatural : readings.natural? = some n) : Json.IsNatural n (scalar readings) := by
  cases h with
  | null => cases hnatural
  | flag b => cases hnatural
  | string h =>
    obtain ⟨text, heq⟩ := h
    cases heq
    cases hnatural
  | number literal => exact ⟨literal, rfl, hnatural⟩

theorem readUInt32_eq_pure_iff (h : IsValue tree) {n : UInt32} :
    tree.readUInt32 = pure n ↔ Json.IsNatural n.toNat tree := by
  rw [readUInt32, content_eq h, pure_bind]
  constructor
  · intro hread
    split at hread
    · split at hread
      · rename_i hlt
        obtain rfl := pure_inj hread
        rw [UInt32.toNat_ofNat_of_lt' hlt]
        exact isNatural_of_readings h rfl
      · exact absurd hread throw_ne_pure
    · exact absurd hread throw_ne_pure
    · exact absurd hread throw_ne_pure
  · rintro ⟨literal, rfl, hnatural⟩
    simp only [Json.numberScalar, hnatural]
    rw [if_pos n.toNat_lt, UInt32.ofNat_toNat]

theorem settled_readInt32 (h : IsValue tree) : tree.readInt32.Settled := by
  rw [readInt32, content_eq h, pure_bind]
  split
  · split
    · exact .pure _
    · exact .throw _
  · exact .throw _
  · exact .throw _

theorem settled_readFlag (h : IsValue tree) : tree.readFlag.Settled := by
  rw [readFlag, content_eq h, pure_bind]
  split
  · exact .pure _
  · exact .throw _
  · exact .throw _

theorem settled_readHex (h : IsValue tree) : tree.readHex.Settled := by
  rw [readHex]
  refine (settled_readText h).bind fun text _ => ?_
  split
  · exact .pure _
  · exact .throw _

theorem settled_readList (h : IsValue tree) (hread : ∀ item, IsValue item → (read item).Settled) :
    (tree.readList read).Settled := by
  rw [readList, content_eq h, pure_bind]
  split
  · cases h with
    | string h => nomatch h
    | list hitems => exact .mapM fun item hitem => hread item (hitems item hitem)
  · split
    · exact .pure _
    · exact .throw _
  · exact .throw _
  · exact .throw _

theorem settled_readOption (h : IsValue tree) (hread : (read tree).Settled) : (tree.readOption read).Settled := by
  rw [readOption, follow_eq h, pure_bind]
  split
  · exact .pure _
  · exact .throw _
  · exact .throw _
  · exact hread.bind fun a _ => .pure _

/-- Only null is read as nothing. -/
theorem readOption_eq_pure_iff (h : IsValue tree) (hread : (read tree).Settled) {a : Option α} :
    tree.readOption read = pure a ↔
      tree = Json.null ∧ a = none ∨ tree ≠ Json.null ∧ ∃ x, a = some x ∧ read tree = pure x := by
  by_cases hnull : tree = Json.null
  · subst hnull
    rw [readOption_null]
    simp only [true_and, ne_eq, not_true_eq_false, false_and, or_false]
    constructor
    · intro h
      exact (pure_inj h).symm
    · rintro rfl
      rfl
  · have hsome : tree.readOption read = some <$> read tree := by
      cases h with
      | null => exact absurd rfl hnull
      | string h =>
        obtain ⟨text, rfl⟩ := h
        rfl
      | _ => rfl
    simp only [hnull, false_and, ne_eq, not_false_eq_true, true_and, false_or]
    rw [hsome, map_eq_pure_bind, bind_eq_pure_iff hread]
    constructor
    · rintro ⟨x, hx, heq⟩
      exact ⟨x, (pure_inj heq).symm, hx⟩
    · rintro ⟨x, rfl, hx⟩
      exact ⟨x, hx, rfl⟩

/-! ## Values that are kept -/

theorem settled_keep_leaf (readings : Scalar) : ((scalar readings).keep levels).Settled := by
  rw [keep]
  split
  · exact .pure _
  · exact .throw _

theorem settled_keepItems {items : List Tree} (h : ∀ item ∈ items, (item.keep levels).Settled) :
    (keepItems levels items).Settled := by
  induction items with
  | nil => exact .pure _
  | cons item rest ih =>
    obtain ⟨hitem, hrest⟩ := List.forall_mem_cons.mp h
    rw [keepItems]
    exact hitem.bind fun _ _ => ih hrest

theorem settled_keepMembers {members : List (Tree × Tree)}
    (h : ∀ m ∈ members, (m.1.keep levels).Settled ∧ (m.2.keep levels).Settled) :
    (keepMembers levels members).Settled := by
  induction members with
  | nil => exact .pure _
  | cons m rest ih =>
    obtain ⟨⟨hkey, hvalue⟩, hrest⟩ := List.forall_mem_cons.mp h
    rw [keepMembers]
    exact hkey.bind fun _ _ => hvalue.bind fun _ _ => ih hrest

theorem settled_keep (h : IsValue tree) : (tree.keep levels).Settled := by
  induction h generalizing levels with
  | null => exact settled_keep_leaf _
  | flag b => exact settled_keep_leaf _
  | string h =>
    obtain ⟨text, rfl⟩ := h
    exact settled_keep_leaf _
  | number literal => exact settled_keep_leaf _
  | list hitems ih =>
    rw [keep]
    split
    · exact .throw _
    · exact settled_keepItems fun item hitem => ih item hitem
  | object hkeys hvalues ih =>
    rw [keep]
    split
    · exact .throw _
    · refine settled_keepMembers fun m hm => ⟨?_, ih m hm⟩
      obtain ⟨text, htext⟩ := hkeys m hm
      rw [htext]
      exact settled_keep_leaf _

theorem keepItems_eq_pure {items : List Tree} (hitems : ∀ item ∈ items, IsValue item)
    (h : keepItems levels items = pure ()) : ∀ item ∈ items, item.keep levels = pure () := by
  induction items with
  | nil => exact List.forall_mem_nil _
  | cons item rest ih =>
    obtain ⟨hitem, hrest⟩ := List.forall_mem_cons.mp hitems
    rw [keepItems] at h
    obtain ⟨_, hkeep, hlater⟩ := (bind_eq_pure_iff (settled_keep hitem)).mp h
    exact List.forall_mem_cons.mpr ⟨hkeep, ih hrest hlater⟩

/-- The names of a kept object are texts. -/
theorem keepMembers_eq_pure {members : List (Tree × Tree)} (hkeys : ∀ m ∈ members, IsString m.1)
    (hvalues : ∀ m ∈ members, IsValue m.2) (h : keepMembers levels members = pure ()) :
    ∃ named : List (String × Tree), members = named.map (fun m => (Json.text m.1, m.2)) ∧
      ∀ m ∈ named, m.2.keep levels = pure () := by
  induction members with
  | nil => exact ⟨[], rfl, List.forall_mem_nil _⟩
  | cons m rest ih =>
    obtain ⟨key, value⟩ := m
    obtain ⟨hkey, hkeys⟩ := List.forall_mem_cons.mp hkeys
    obtain ⟨hvalue, hvalues⟩ := List.forall_mem_cons.mp hvalues
    rw [keepMembers] at h
    obtain ⟨_, hname, h⟩ := (bind_eq_pure_iff (settled_keep (.string hkey))).mp h
    obtain ⟨_, hkeep, h⟩ := (bind_eq_pure_iff (settled_keep hvalue)).mp h
    obtain ⟨named, rfl, hall⟩ := ih hkeys hvalues h
    obtain ⟨text, rfl⟩ := hkey
    cases text with
    | none => exact absurd hname throw_ne_pure
    | some name => exact ⟨(name, value) :: named, rfl, List.forall_mem_cons.mpr ⟨hkeep, hall⟩⟩

theorem value_of_keep_leaf {readings : Scalar} (h : (scalar readings).keep levels = pure ()) :
    Json.Value levels (scalar readings) := by
  rw [keep] at h
  split at h
  · rename_i hvalue
    exact .leaf hvalue
  · exact absurd h throw_ne_pure

/-- A value is kept if its leaves have values and it is not nested too deeply. -/
theorem keep_eq_pure_iff (h : IsValue tree) : tree.keep levels = pure () ↔ Json.Value levels tree := by
  refine ⟨fun hkeep => ?_, keep_of_value⟩
  induction h generalizing levels with
  | null => exact value_of_keep_leaf hkeep
  | flag b => exact value_of_keep_leaf hkeep
  | string h =>
    obtain ⟨text, rfl⟩ := h
    exact value_of_keep_leaf hkeep
  | number literal => exact value_of_keep_leaf hkeep
  | list hitems ih =>
    cases levels with
    | zero => exact absurd hkeep throw_ne_pure
    | succ levels =>
      have hall := keepItems_eq_pure hitems hkeep
      exact .list fun item hitem => ih item hitem (hall item hitem)
  | object hkeys hvalues ih =>
    cases levels with
    | zero => exact absurd hkeep throw_ne_pure
    | succ levels =>
      obtain ⟨named, rfl, hall⟩ := keepMembers_eq_pure hkeys hvalues hkeep
      exact .object fun m hm => ih _ (List.mem_map_of_mem hm) (hall m hm)

end Tree

/-! ## Records -/

namespace Layout

variable {δ : Type} {layout : Layout δ}

open Json (IsValue IsMember)

def SlotsSettled (slots : List (Slot δ)) : Prop := ∀ slot ∈ slots, ∀ tree, IsValue tree → (slot.read tree).Settled

theorem SlotsSettled.nil : SlotsSettled ([] : List (Slot δ)) := nofun

theorem SlotsSettled.cons {slot : Slot δ} {slots : List (Slot δ)}
    (hslot : ∀ tree, IsValue tree → (slot.read tree).Settled) (hslots : SlotsSettled slots) :
    SlotsSettled (slot :: slots) := List.forall_mem_cons.mpr ⟨hslot, hslots⟩

theorem settled_fill {slot : Slot δ} {tree : Tree} {draft : δ} (h : (slot.read tree).Settled) :
    (slot.fill tree draft).Settled := h.bind fun _ _ => .pure _

theorem settled_readOther {name : String} {value : Tree} {draft : δ} (h : IsValue value) :
    (layout.readOther name value draft).Settled := by
  rw [readOther]
  split
  · split
    · exact .pure _
    · exact .throw _
  · exact .throw _
  · exact (Tree.settled_keep h).bind fun _ _ => .pure _

theorem settled_readMember (hslots : SlotsSettled layout.slots) {m : Tree × Tree} (hm : IsMember m) (draft : δ) :
    (layout.readMember draft m).Settled := by
  rw [readMember]
  refine (Tree.settled_readText (.string hm.1)).bind fun name _ => ?_
  split
  · rename_i slot hfind
    split
    · exact .throw _
    · exact settled_fill (hslots slot (List.mem_of_find?_eq_some hfind) _ hm.2)
  · exact settled_readOther hm.2

theorem settled_readItems {slots : List (Slot δ)} {items : List Tree} {draft : δ} (hslots : SlotsSettled slots)
    (hitems : ∀ item ∈ items, IsValue item) : (readItems slots items draft).Settled := by
  induction items generalizing slots draft with
  | nil =>
    rw [readItems]
    exact .pure _
  | cons item rest ih =>
    obtain ⟨hitem, hrest⟩ := List.forall_mem_cons.mp hitems
    cases slots with
    | nil => exact .throw _
    | cons slot slots =>
      obtain ⟨hslot, hslots⟩ := List.forall_mem_cons.mp hslots
      rw [readItems]
      exact (settled_fill (hslot item hitem)).bind fun next _ => ih hslots hrest

theorem settled_read {dialect : Dialect} {draft : δ} {tree : Tree} (hslots : SlotsSettled layout.slots)
    (h : IsValue tree) : (layout.read dialect draft tree).Settled := by
  rw [read, Tree.content_eq h, pure_bind]
  split
  · cases h with
    | string h => nomatch h
    | object hkeys hvalues =>
      exact .foldlM (fun m hm => settled_readMember hslots ⟨hkeys m hm, hvalues m hm⟩) draft
  · split
    · cases h with
      | string h => nomatch h
      | list hitems => exact settled_readItems hslots hitems
    · exact .throw _
  · split
    · exact .pure _
    · exact .throw _
  · exact .throw _
  · exact .throw _
  · exact .throw _

end Layout

/-! ## Whole texts -/

/-- What a text is read as is what its root is, if nothing else follows it. -/
theorem Json.decode_eq_ok_iff {α : Type} {reader : Tree → Reading α} {bytes : Octets} {a : α}
    (hsettled : ∀ tree, IsValue tree → (reader tree).Settled) (hcomplete : (read bytes).isComplete = true) :
    (read bytes).decode reader = .ok a ↔ reader (read bytes).root = pure a := by
  have hlimit : (read bytes).aliasLimit = 0 := by
    unfold read
    split <;> rfl
  rw [Document.decode, hcomplete, hlimit]
  rcases hsettled _ (isValue_read hcomplete) with ⟨b, hb⟩ | ⟨flaw, hflaw⟩
  · rw [hb]
    constructor
    · intro h
      exact congrArg pure (Except.ok.inj h)
    · intro h
      exact congrArg Except.ok (pure_inj h)
  · rw [hflaw]
    exact iff_of_false nofun throw_ne_pure

end MatchAction
