/-
  MatchAction.Proofs.Record.Selection — which kind a field match and an entity are read as.

  Both are objects that name their kind by a member. An object may name several kinds at once, name
  them as null, and have members that nothing is known of; a payload counts as a flaw even where
  another kind is selected. What is under a name that is not known is kept, so a number without a
  double there, a bad surrogate or too many levels are flaws as well.

  Proved:
  - `settled_readFieldMatch`, `settled_readEntity` and so on: reading a value of JSON has one outcome.
  - `selects_of_values`: what is selected, from what the kinds give one by one.
  - `kinds_govern`: which objects are read as field matches and as entities and which kind they are of,
    in whatever order their members are and whatever else they have.
  - `far_number_refused`: a member that is not known is not always ignored.
-/

import MatchAction.Proofs.Document.Choice
import MatchAction.Proofs.Record.RoundTrip

namespace MatchAction

open Record.Decode Reading
open Json (IsValue)
open Layout (SlotsSettled settled_read)

/-! ## The readers are settled -/

namespace Record.Decode

variable (dialect : Dialect) (depth : Nat) {tree : Tree}

theorem settled_readExact (h : IsValue tree) : (readExact dialect tree).Settled :=
  (settled_read (.cons (fun _ => Tree.settled_readHex) .nil) h).bind fun _ _ =>
    (settled_require _ _).bind fun _ _ => .pure _

theorem slotsSettled_pair {first second : String} : SlotsSettled (pairLayout first second).slots :=
  .cons (fun _ => Tree.settled_readHex) (.cons (fun _ => Tree.settled_readHex) .nil)

theorem settled_readTernary (h : IsValue tree) : (readTernary dialect tree).Settled :=
  (settled_read slotsSettled_pair h).bind fun _ _ =>
    (settled_require _ _).bind fun _ _ => (settled_require _ _).bind fun _ _ => .pure _

theorem settled_readRange (h : IsValue tree) : (readRange dialect tree).Settled :=
  (settled_read slotsSettled_pair h).bind fun _ _ =>
    (settled_require _ _).bind fun _ _ => (settled_require _ _).bind fun _ _ => .pure _

theorem settled_readLpm (h : IsValue tree) : (readLpm dialect tree).Settled :=
  (settled_read (.cons (fun _ => Tree.settled_readHex) (.cons (fun _ => Tree.settled_readUInt32) .nil)) h).bind
    fun _ _ => (settled_require _ _).bind fun _ _ => (settled_require _ _).bind fun _ _ => .pure _

theorem settled_readOptional (h : IsValue tree) : (readOptional dialect tree).Settled := by
  refine (settled_read (.cons (fun t ht => ?_) .nil) h).bind fun _ _ => .pure _
  exact Tree.settled_readOption ht (Tree.settled_readHex ht)

theorem slotsSettled_fieldMatch : SlotsSettled (fieldMatchLayout dialect depth).slots :=
  .cons (fun _ => Tree.settled_readUInt32) <|
  .cons (fun _ ht => Tree.settled_readOption ht (settled_readExact dialect ht)) <|
  .cons (fun _ ht => Tree.settled_readOption ht (settled_readTernary dialect ht)) <|
  .cons (fun _ ht => Tree.settled_readOption ht (settled_readLpm dialect ht)) <|
  .cons (fun _ ht => Tree.settled_readOption ht (settled_readRange dialect ht)) <|
  .cons (fun _ ht => Tree.settled_readOption ht (settled_readOptional dialect ht)) .nil

theorem settled_readFieldMatch (h : IsValue tree) : (readFieldMatch dialect depth tree).Settled :=
  (settled_read (slotsSettled_fieldMatch dialect depth) h).bind fun _ _ => (settled_require _ _).bind fun _ _ => .pure _

theorem settled_readParam (h : IsValue tree) : (readParam dialect tree).Settled :=
  (settled_read (.cons (fun _ => Tree.settled_readUInt32) (.cons (fun _ => Tree.settled_readHex) .nil)) h).bind
    fun _ _ => (settled_require _ _).bind fun _ _ => (settled_require _ _).bind fun _ _ => .pure _

theorem settled_readCall (h : IsValue tree) : (readCall dialect tree).Settled := by
  have hslots : SlotsSettled (callLayout dialect).slots :=
    .cons (fun _ => Tree.settled_readUInt32) <|
    .cons (fun _ ht => Tree.settled_readList ht fun _ => settled_readParam dialect) .nil
  exact (settled_read hslots h).bind fun _ _ => (settled_require _ _).bind fun _ _ => .pure _

theorem settled_readTableAction (h : IsValue tree) : (readTableAction dialect tree).Settled := by
  have hslots : SlotsSettled (tableActionLayout dialect).slots :=
    .cons (fun _ ht => Tree.settled_readOption ht (settled_readCall dialect ht)) <|
    .cons (fun _ ht => Tree.settled_readOption ht (Tree.settled_readUInt32 ht)) <|
    .cons (fun _ ht => Tree.settled_readOption ht (Tree.settled_readUInt32 ht)) .nil
  exact (settled_read hslots h).bind fun draft _ => .ofExcept draft.tableAction

theorem settled_readTableEntry (h : IsValue tree) : (readTableEntry dialect depth tree).Settled := by
  have hslots : SlotsSettled (tableEntryLayout dialect depth).slots :=
    .cons (fun _ => Tree.settled_readUInt32) <|
    .cons (fun _ ht => Tree.settled_readList ht fun _ => settled_readFieldMatch dialect _) <|
    .cons (fun _ ht => Tree.settled_readOption ht (settled_readTableAction dialect ht)) <|
    .cons (fun _ ht => Tree.settled_readOption ht (Tree.settled_readInt32 ht)) <|
    .cons (fun _ => Tree.settled_readFlag) .nil
  exact (settled_read hslots h).bind fun _ _ => (settled_require _ _).bind fun _ _ => .pure _

theorem settled_readProfileMember (h : IsValue tree) : (readProfileMember dialect tree).Settled := by
  have hslots : SlotsSettled (profileMemberLayout dialect).slots :=
    .cons (fun _ => Tree.settled_readUInt32) <|
    .cons (fun _ => Tree.settled_readUInt32) <|
    .cons (fun _ ht => Tree.settled_readOption ht (settled_readCall dialect ht)) .nil
  exact (settled_read hslots h).bind fun _ _ =>
    (settled_require _ _).bind fun _ _ => (settled_require _ _).bind fun _ _ => .pure _

theorem settled_readGroupMember (h : IsValue tree) : (readGroupMember dialect tree).Settled :=
  (settled_read (.cons (fun _ => Tree.settled_readUInt32) (.cons (fun _ => Tree.settled_readInt32) .nil)) h).bind
    fun _ _ => (settled_require _ _).bind fun _ _ => .pure _

theorem settled_readProfileGroup (h : IsValue tree) : (readProfileGroup dialect tree).Settled := by
  have hslots : SlotsSettled (profileGroupLayout dialect).slots :=
    .cons (fun _ => Tree.settled_readUInt32) <|
    .cons (fun _ => Tree.settled_readUInt32) <|
    .cons (fun _ ht => Tree.settled_readList ht fun _ => settled_readGroupMember dialect) .nil
  exact (settled_read hslots h).bind fun _ _ =>
    (settled_require _ _).bind fun _ _ => (settled_require _ _).bind fun _ _ => .pure _

theorem slotsSettled_entity : SlotsSettled (entityLayout dialect depth).slots :=
  .cons (fun _ ht => Tree.settled_readOption ht (settled_readTableEntry dialect _ ht)) <|
  .cons (fun _ ht => Tree.settled_readOption ht (settled_readProfileMember dialect ht)) <|
  .cons (fun _ ht => Tree.settled_readOption ht (settled_readProfileGroup dialect ht)) .nil

theorem settled_readEntity (h : IsValue tree) : (readEntity dialect depth tree).Settled :=
  (settled_read (slotsSettled_entity dialect depth) h).bind fun _ _ => .pure _

/-! ## The least name -/

theorem leastName?_eq_none {names : List String} : leastName? names = none ↔ names = [] := by
  cases names with
  | nil => exact iff_of_true rfl rfl
  | cons name names => exact iff_of_false (Option.some_ne_none _) (List.cons_ne_nil _ _)

theorem foldl_least (names : List String) (first : String) :
    names.foldl (fun least n => if compare n least = .lt then n else least) first ∈ first :: names ∧
    ∀ name ∈ first :: names, names.foldl (fun least n => if compare n least = .lt then n else least) first ≤ name := by
  induction names generalizing first with
  | nil => exact ⟨List.mem_cons_self, List.forall_mem_singleton.mpr le_rfl⟩
  | cons name names ih =>
    have hcompare : compare name first = .lt ↔ name < first := compareOfLessAndEq_eq_lt
    rw [List.foldl_cons]
    by_cases hlt : name < first
    · rw [if_pos (hcompare.mpr hlt)]
      obtain ⟨hmem, hle⟩ := ih name
      exact ⟨List.mem_cons_of_mem _ hmem, List.forall_mem_cons.mpr ⟨(hle name List.mem_cons_self).trans hlt.le, hle⟩⟩
    · rw [if_neg (mt hcompare.mp hlt)]
      obtain ⟨hmem, hle⟩ := ih first
      obtain ⟨hfirst, hnames⟩ := List.forall_mem_cons.mp hle
      refine ⟨?_, List.forall_mem_cons.mpr ⟨hfirst, List.forall_mem_cons.mpr ⟨hfirst.trans (not_lt.mp hlt), hnames⟩⟩⟩
      rcases List.mem_cons.mp hmem with heq | hmem
      · rw [heq]
        exact List.mem_cons_self
      · exact List.mem_cons_of_mem _ (List.mem_cons_of_mem _ hmem)

theorem leastName?_eq_some {names : List String} {least : String} (h : leastName? names = some least) :
    least ∈ names ∧ ∀ name ∈ names, least ≤ name := by
  cases names with
  | nil => cases h
  | cons name names =>
    obtain rfl := Option.some.inj h
    exact foldl_least names name

end Record.Decode

/-! ## What the kinds of a layout select -/

namespace Choice

variable {α δ : Type} {choice : Choice α} {layout : Layout δ} {plain : List (Slot δ)}
  {entries : List (KindSlot α δ)} {found : δ → List String} {target : δ} {members : List (String × Tree)}

/-- The first value that there is, or else the least of the names that are not known. -/
theorem selects_of_values {values : List (Option α)} {names : List String}
    (hvalues : List.Forall₂ (fun kind value => kind.Has members value) choice.kinds values)
    (hnames : ∀ name, name ∈ names ↔ choice.Unknown members name) :
    choice.Selects members ((values.findSome? id).getD (choice.other ((leastName? names).getD choice.fallback))) := by
  cases hfirst : values.findSome? id with
  | some a => exact .first (Kind.firstGives_of_has hvalues hfirst)
  | none =>
    have hunset : choice.Unset members := Kind.unset_of_has hvalues hfirst
    cases hleast : leastName? names with
    | none =>
      obtain rfl := leastName?_eq_none.mp hleast
      exact .fallback hunset fun name hname => List.not_mem_nil ((hnames name).mpr hname)
    | some least =>
      obtain ⟨hmem, hle⟩ := leastName?_eq_some hleast
      refine .least hunset ((hnames least).mp hmem) fun other hother => ?_
      rw [bytes_lt_iff, not_lt]
      exact hle other ((hnames other).mpr hother)

/-- What the draft of an object selects. -/
theorem Laid.selects (h : choice.Laid layout plain entries) (hvalues : ∀ m ∈ members, IsValue m.2)
    (htakes : ∀ slot ∈ layout.slots, slot.Takes members target)
    (hfound : found target = (layout.unknown members).reverse) :
    choice.Selects members (((entries.map fun entry => entry.value target).findSome? id).getD
      (choice.other ((leastName? (found target)).getD choice.fallback))) := by
  refine selects_of_values (h.has hvalues htakes) fun name => ?_
  rw [hfound, List.mem_reverse, Layout.mem_unknown, h.names_eq]
  exact Iff.rfl

end Choice

/-! ## Field matches -/

def Json.HasNatural (members : List (String × Tree)) (name : String) (n : UInt32) : Prop :=
  ∃ tree, (name, tree) ∈ members ∧ IsNatural n.toNat tree

theorem Json.HasNatural.unique {members : List (String × Tree)} {name : String} {m n : UInt32}
    (hm : HasNatural members name m) (hn : HasNatural members name n)
    (honce : (members.map Prod.fst).count name ≤ 1) : m = n := by
  obtain ⟨tree, hmem, hnatural⟩ := hm
  obtain ⟨other, hother, hnatural'⟩ := hn
  obtain rfl := eq_of_once honce hmem hother
  exact UInt32.toNat_inj.mp (hnatural.unique hnatural')

def MatchValue.choice : Choice MatchValue where
  kinds := [⟨"exact", readExact .json⟩, ⟨"ternary", readTernary .json⟩, ⟨"lpm", readLpm .json⟩,
    ⟨"range", readRange .json⟩, ⟨"optional", readOptional .json⟩]
  fields := ["field_id"]
  other := .unsupported
  fallback := "unset"

/-- What is read under the name of a kind is of that kind. -/
theorem MatchValue.kindName_read : ∀ kind ∈ choice.kinds, ∀ tree, (kind.read tree).Only (·.kindName = kind.name) := by
  intro kind hkind tree
  simp only [choice, List.mem_cons, List.not_mem_nil, or_false] at hkind
  rcases hkind with rfl | rfl | rfl | rfl | rfl
  · exact .bind fun _ => .bind fun _ => .pure rfl
  · exact .bind fun _ => .bind fun _ => .bind fun _ => .pure rfl
  · exact .bind fun _ => .bind fun _ => .bind fun _ => .pure rfl
  · exact .bind fun _ => .bind fun _ => .bind fun _ => .pure rfl
  · exact .bind fun _ => .pure rfl

namespace FieldMatch

def entries : List (KindSlot MatchValue FieldMatchDraft) :=
  have hid {read : Tree → Reading MatchValue} (tree : Tree) : read tree = id <$> read tree := (id_map _).symm
  [.of "exact" (readExact .json) (·.exact) (fun a d => { d with exact := some a }) hid
     fun _ => settled_readExact .json,
   .of "ternary" (readTernary .json) (·.ternary) (fun a d => { d with ternary := some a }) hid
     fun _ => settled_readTernary .json,
   .of "lpm" (readLpm .json) (·.lpm) (fun a d => { d with lpm := some a }) hid fun _ => settled_readLpm .json,
   .of "range" (readRange .json) (·.range) (fun a d => { d with range := some a }) hid
     fun _ => settled_readRange .json,
   .of "optional" (readOptional .json) (·.optional) (fun a d => { d with optional := some a }) hid
     fun _ => settled_readOptional .json]

theorem laid (depth : Nat) : MatchValue.choice.Laid (fieldMatchLayout .json depth)
    [.of "field_id" Tree.readUInt32 (·.fieldId) fun a d => { d with fieldId := some a }] entries where
  slots := rfl
  fields := rfl
  kinds := rfl
  settled := .cons (fun _ => Tree.settled_readUInt32) .nil

theorem slots_empty (depth : Nat) : ∀ slot ∈ (fieldMatchLayout .json depth).slots, slot.get {} = none := by
  simp [fieldMatchLayout]

theorem matchValue_eq (draft : FieldMatchDraft) :
    draft.matchValue = ((entries.map fun entry => entry.value draft).findSome? id).getD
      (.unsupported ((leastName? draft.others).getD "unset")) := by
  obtain ⟨id, exact, ternary, lpm, range, optional, others⟩ := draft
  simp only [FieldMatchDraft.matchValue, List.head?_filterMap, entries, KindSlot.of, List.map_cons, List.map_nil,
    Option.map_id]
  rfl

variable {depth : Nat} {tree : Tree} {m : FieldMatch} {members : List (String × Tree)}

theorem read_eq_pure_iff (htree : IsValue tree) : readFieldMatch .json depth tree = pure m ↔
    ∃ draft, (fieldMatchLayout .json depth).read .json {} tree = pure draft ∧ draft.fieldId = some m.fieldId ∧
      draft.matchValue = m.value := by
  rw [readFieldMatch, bind_eq_pure_iff (settled_read (laid depth).slotsSettled htree)]
  refine exists_congr fun draft => and_congr_right fun _ => ?_
  cases draft.fieldId with
  | none => exact iff_of_false throw_ne_pure fun h => Option.some_ne_none _ h.1.symm
  | some id =>
    constructor
    · intro h
      obtain rfl := pure_inj h
      exact ⟨rfl, rfl⟩
    · rintro ⟨hid, hvalue⟩
      obtain rfl := Option.some.inj hid
      rw [hvalue]
      rfl

theorem fieldId_eq_some_iff {draft : FieldMatchDraft} (hvalues : ∀ m ∈ members, IsValue m.2)
    (htakes : ∀ slot ∈ (fieldMatchLayout .json depth).slots, slot.Takes members draft) {id : UInt32} :
    draft.fieldId = some id ↔ Json.HasNatural members "field_id" id := by
  have hslot := htakes _ List.mem_cons_self
  have htaken : ∀ tree, ("field_id", tree) ∈ members → ∃ a, tree.readUInt32 = pure a ∧ draft.fieldId = some a :=
    hslot.read
  constructor
  · intro hid
    have hname : "field_id" ∈ members.map Prod.fst := by
      by_contra hname
      cases hid.symm.trans (hslot.empty hname)
    obtain ⟨⟨name, tree⟩, hmem, rfl⟩ := List.mem_map.mp hname
    obtain ⟨a, hread, ha⟩ := htaken tree hmem
    obtain rfl := Option.some.inj (hid.symm.trans ha)
    exact ⟨tree, hmem, (Tree.readUInt32_eq_pure_iff (hvalues _ hmem)).mp hread⟩
  · rintro ⟨tree, hmem, hnatural⟩
    obtain ⟨a, hread, ha⟩ := htaken tree hmem
    rw [ha, pure_inj (hread.symm.trans ((Tree.readUInt32_eq_pure_iff (hvalues _ hmem)).mpr hnatural))]

theorem draft_spec {draft : FieldMatchDraft} (hvalue : IsValue (Json.object members))
    (hread : (fieldMatchLayout .json depth).read .json {} (Json.object members) = pure draft) :
    (∀ id, draft.fieldId = some id ↔ Json.HasNatural members "field_id" id) ∧
      MatchValue.choice.Selects members draft.matchValue := by
  obtain ⟨htakes, hfound⟩ := (lawful_fieldMatch .json depth).takes_of_read (laid depth).slotsSettled rfl
    (slots_empty depth) rfl hvalue hread
  refine ⟨fun id => fieldId_eq_some_iff hvalue.of_object htakes, ?_⟩
  rw [matchValue_eq]
  exact (laid depth).selects hvalue.of_object htakes hfound

theorem governs (depth : Nat) : MatchValue.choice.Governs (Dialect.json.maxDepth - depth) (readFieldMatch .json depth)
    (fun members m => Json.HasNatural members "field_id" m.fieldId) FieldMatch.value := by
  have hfield : "field_id" ∈ MatchValue.choice.names := List.mem_cons_self
  refine .of_selects (fun tree htree => ⟨?_, ?_⟩) ?_ ?_ ?_
  · rintro ⟨m, hread⟩
    obtain ⟨draft, hdraft, hid, -⟩ := (read_eq_pure_iff htree).mp hread
    obtain ⟨members, rfl, hadmits, -⟩ :=
      ((laid depth).exists_read_iff (lawful_fieldMatch .json depth) rfl (slots_empty depth) htree).mp ⟨draft, hdraft⟩
    exact ⟨members, rfl, hadmits, m, ((draft_spec htree hdraft).1 _).mp hid⟩
  · rintro ⟨members, rfl, hadmits, m, hid⟩
    have hfieldId : ∀ other, ("field_id", other) ∈ members → ∃ a, other.readUInt32 = pure a := by
      intro other hother
      obtain ⟨tree, hmem, hnatural⟩ := hid
      obtain rfl := eq_of_once (hadmits.once _ hfield) hmem hother
      exact ⟨m.fieldId, (Tree.readUInt32_eq_pure_iff (htree.of_object _ hmem)).mpr hnatural⟩
    obtain ⟨draft, hdraft⟩ := ((laid depth).exists_read_iff (lawful_fieldMatch .json depth) rfl (slots_empty depth)
      htree).mpr ⟨members, rfl, hadmits, List.forall_mem_singleton.mpr hfieldId⟩
    have hid := ((draft_spec htree hdraft).1 _).mpr hid
    exact ⟨⟨m.fieldId, draft.matchValue⟩, (read_eq_pure_iff htree).mpr ⟨draft, hdraft, hid, rfl⟩⟩
  · intro members m hvalue hread
    obtain ⟨draft, hdraft, hid, hm⟩ := (read_eq_pure_iff hvalue).mp hread
    obtain ⟨hfieldId, hselects⟩ := draft_spec hvalue hdraft
    exact ⟨(hfieldId _).mp hid, hm ▸ hselects⟩
  · rintro members others m hsame ⟨tree, hmem, hnatural⟩
    exact ⟨tree, (hsame _ hfield tree).mp hmem, hnatural⟩
  · intro members m m' honce hid hid' hvalue
    obtain ⟨id, value⟩ := m
    obtain ⟨id', value'⟩ := m'
    obtain rfl : id = id' := hid.unique hid' (honce _ hfield)
    obtain rfl : value = value' := hvalue
    rfl

end FieldMatch

/-! ## Entities -/

namespace Entity

def choice (depth : Nat) : Choice Entity where
  kinds := [⟨"table_entry", fun tree => tableEntry <$> readTableEntry .json (depth + 1) tree⟩,
    ⟨"action_profile_member", fun tree => profileMember <$> readProfileMember .json tree⟩,
    ⟨"action_profile_group", fun tree => profileGroup <$> readProfileGroup .json tree⟩]
  other := other
  fallback := "empty"

/-- What is read under the name of a kind is of that kind. -/
theorem kind_read (depth : Nat) :
    ∀ k ∈ (choice depth).kinds, ∀ tree, (k.read tree).Only (·.kind = k.name) := by
  intro k hk tree
  simp only [choice, List.mem_cons, List.not_mem_nil, or_false] at hk
  rcases hk with rfl | rfl | rfl
  · exact .map fun _ => rfl
  · exact .map fun _ => rfl
  · exact .map fun _ => rfl

def entries (depth : Nat) : List (KindSlot Entity EntityDraft) :=
  [.of (f := tableEntry) "table_entry" (readTableEntry .json (depth + 1)) (·.tableEntry)
     (fun a d => { d with tableEntry := some a }) (fun _ => rfl) fun _ => settled_readTableEntry .json (depth + 1),
   .of (f := profileMember) "action_profile_member" (readProfileMember .json) (·.profileMember)
     (fun a d => { d with profileMember := some a }) (fun _ => rfl) fun _ => settled_readProfileMember .json,
   .of (f := profileGroup) "action_profile_group" (readProfileGroup .json) (·.profileGroup)
     (fun a d => { d with profileGroup := some a }) (fun _ => rfl) fun _ => settled_readProfileGroup .json]

theorem laid (depth : Nat) : (choice depth).Laid (entityLayout .json depth) [] (entries depth) where
  slots := rfl
  fields := rfl
  kinds := rfl
  settled := .nil

theorem entity_eq (depth : Nat) (draft : EntityDraft) :
    draft.entity = (((entries depth).map fun entry => entry.value draft).findSome? id).getD
      (other ((leastName? draft.others).getD "empty")) := by
  obtain ⟨tableEntry, profileMember, profileGroup, others⟩ := draft
  simp only [EntityDraft.entity, entries, KindSlot.of, List.map_cons, List.map_nil]
  cases tableEntry.getD none with
  | some entry => rfl
  | none =>
    cases profileMember.getD none with
    | some member => rfl
    | none => cases profileGroup.getD none <;> rfl

variable {depth : Nat} {tree : Tree} {entity : Entity} {members : List (String × Tree)}

theorem read_eq_pure_iff (htree : IsValue tree) : readEntity .json depth tree = pure entity ↔
    ∃ draft, (entityLayout .json depth).read .json {} tree = pure draft ∧ draft.entity = entity := by
  rw [readEntity, bind_eq_pure_iff (settled_read (laid depth).slotsSettled htree)]
  exact exists_congr fun draft => and_congr_right fun _ => ⟨pure_inj, fun h => h ▸ rfl⟩

theorem governs (depth : Nat) : (choice depth).Governs (Dialect.json.maxDepth - depth) (readEntity .json depth)
    (fun _ _ => True) id := by
  have hempty : ∀ slot ∈ (entityLayout .json depth).slots, slot.get {} = none := by simp [entityLayout]
  refine .of_selects (fun tree htree => ⟨?_, ?_⟩) (fun members entity hvalue hread => ⟨trivial, ?_⟩)
    (fun _ _ _ _ _ => trivial) fun _ _ _ _ _ _ h => h
  · rintro ⟨entity, hread⟩
    obtain ⟨draft, hdraft, -⟩ := (read_eq_pure_iff htree).mp hread
    obtain ⟨members, rfl, hadmits, -⟩ :=
      ((laid depth).exists_read_iff (lawful_entity .json depth) rfl hempty htree).mp ⟨draft, hdraft⟩
    exact ⟨members, rfl, hadmits, draft.entity, trivial⟩
  · rintro ⟨members, rfl, hadmits, -⟩
    obtain ⟨draft, hdraft⟩ := ((laid depth).exists_read_iff (lawful_entity .json depth) rfl hempty htree).mpr
      ⟨members, rfl, hadmits, List.forall_mem_nil _⟩
    exact ⟨draft.entity, (read_eq_pure_iff htree).mpr ⟨draft, hdraft, rfl⟩⟩
  · obtain ⟨draft, hdraft, rfl⟩ := (read_eq_pure_iff hvalue).mp hread
    obtain ⟨htakes, hfound⟩ := (lawful_entity .json depth).takes_of_read (laid depth).slotsSettled rfl
      hempty rfl hvalue hdraft
    rw [entity_eq depth]
    exact (laid depth).selects hvalue.of_object htakes hfound

end Entity

/-! ## Both -/

/-- A value of JSON is a field match or an entity if it is an object that the choice among the kinds
    admits, and is of the kind that the choice selects. Every complete text says a value of JSON. -/
theorem kinds_govern :
    (∀ depth, MatchValue.choice.Governs (Dialect.json.maxDepth - depth) (readFieldMatch .json depth)
      (fun members m => Json.HasNatural members "field_id" m.fieldId) FieldMatch.value) ∧
    (∀ depth, (Entity.choice depth).Governs (Dialect.json.maxDepth - depth) (readEntity .json depth)
      (fun _ _ => True) id) ∧
    (∀ kind ∈ MatchValue.choice.kinds, ∀ tree value, kind.read tree = pure value → value.kindName = kind.name) ∧
    (∀ depth, ∀ kind ∈ (Entity.choice depth).kinds, ∀ tree entity, kind.read tree = pure entity →
      entity.kind = kind.name) ∧
    ∀ bytes, (Json.read bytes).isComplete = true → IsValue (Json.read bytes).root ∧
      (∀ m, FieldMatch.parse .json bytes = .ok m ↔ readFieldMatch .json 1 (Json.read bytes).root = pure m) ∧
      ∀ entity, Entity.parse .json bytes = .ok entity ↔ readEntity .json 1 (Json.read bytes).root = pure entity := by
  refine ⟨FieldMatch.governs, Entity.governs,
    fun kind hkind tree _ hread => (MatchValue.kindName_read kind hkind tree).of_eq_pure hread,
    fun depth kind hkind tree _ hread => (Entity.kind_read depth kind hkind tree).of_eq_pure hread,
    fun bytes hcomplete => ⟨Json.isValue_read hcomplete, ?_, ?_⟩⟩
  · intro m
    exact Json.decode_eq_ok_iff (fun _ => settled_readFieldMatch .json 1) hcomplete
  · intro entity
    exact Json.decode_eq_ok_iff (fun _ => settled_readEntity .json 1) hcomplete

/-- Two kinds that are set, one that is null, and names that are not known. -/
def mixedText : String :=
  "\x7b\"optional\":\x7b\x7d,\"zeta\":1,\"ternary\":\x7b\"value\":\"0a\",\"mask\":\"0f\"\x7d," ++
  "\"exact\":null,\"field_id\":7\x7d"

def mixed : List (String × Tree) :=
  [("optional", Json.object []), ("zeta", Json.integer 1),
   ("ternary", Json.object [("value", Json.text "0a"), ("mask", Json.text "0f")]), ("exact", Json.null),
   ("field_id", Json.integer 7)]

theorem kinds_govern_mixed :
    (Json.read mixedText.toUTF8.toList).isComplete = true ∧
    FieldMatch.parse .json mixedText.toUTF8.toList = .ok ⟨7, .ternary [0x0a] [0x0f]⟩ ∧
    readFieldMatch .json 1 (Json.object mixed.reverse) = pure ⟨7, .ternary [0x0a] [0x0f]⟩ ∧
    readFieldMatch .json 1 (Json.object (mixed ++ [("alpha", Json.null)])) = pure ⟨7, .ternary [0x0a] [0x0f]⟩ := by
  have hroot : (Json.read mixedText.toUTF8.toList).isComplete = true ∧
      (Json.read mixedText.toUTF8.toList).root.same (Json.object mixed) = true := by decide +kernel
  obtain ⟨hcomplete, hroot⟩ := hroot
  have hroot := Tree.eq_of_same hroot
  have hmatch : FieldMatch.parse .json mixedText.toUTF8.toList = .ok ⟨7, .ternary [0x0a] [0x0f]⟩ := by
    decide +kernel
  obtain ⟨hvalue, hparse, -⟩ := kinds_govern.2.2.2.2 _ hcomplete
  rw [hroot] at hvalue hparse
  have hread := (hparse _).mp hmatch
  have hadded : ∀ m ∈ [("alpha", Json.null)], m.1 ∉ MatchValue.choice.names ∧ IsValue m.2 ∧
      Json.Value (Dialect.json.maxDepth - 1) m.2 := List.forall_mem_singleton.mpr ⟨by decide, .null, .leaf rfl⟩
  obtain ⟨after, hafter, hunset⟩ := (kinds_govern.1 1).ignores mixed _ _ hvalue hadded hread
  refine ⟨hcomplete, hmatch, ?_, ?_⟩
  · exact (kinds_govern.1 1).reorders mixed mixed.reverse _ hvalue (List.reverse_perm mixed).symm hread
  · by_cases hsame : after = ⟨7, .ternary [0x0a] [0x0f]⟩
    · rw [hafter, hsame]
    · have hternary : (⟨"ternary", readTernary .json⟩ : Kind MatchValue) ∈ MatchValue.choice.kinds :=
        List.mem_cons_of_mem _ List.mem_cons_self
      exact nomatch hunset hsame _ hternary (Json.object [("value", Json.text "0a"), ("mask", Json.text "0f")])
        (by simp [mixed])

def farText : String := "\x7b\"a\":1e999\x7d"

def far : List (String × Tree) :=
  [("a", .scalar (Json.numberScalar ⟨false, [1], [], some (false, [9, 9, 9]), false⟩))]

/-- Well-formed kinds are not enough: what is under other names is read as well. -/
theorem far_number_refused : (Json.read farText.toUTF8.toList).isComplete = true ∧
    ¬((∃ entity, Entity.parse .json farText.toUTF8.toList = .ok entity) ↔
      ∃ members, (Json.read farText.toUTF8.toList).root = Json.object members ∧
        (Entity.choice 1).WellFormed members) := by
  have hroot : (Json.read farText.toUTF8.toList).isComplete = true ∧
      (Json.read farText.toUTF8.toList).root.same (Json.object far) = true := by decide +kernel
  have hrefused : Entity.parse .json farText.toUTF8.toList = .error .notKept := by decide +kernel
  have hwell : (Entity.choice 1).WellFormed far := by
    refine ⟨by decide, fun kind hkind tree hmem => ?_⟩
    have hname : kind.name ∈ (Entity.choice 1).names := List.mem_map_of_mem hkind
    have hfar : kind.name = "a" := congrArg Prod.fst (List.mem_singleton.mp hmem)
    rw [hfar] at hname
    exact absurd hname (by decide)
  refine ⟨hroot.1, fun h => ?_⟩
  obtain ⟨entity, hentity⟩ := h.mpr ⟨far, Tree.eq_of_same hroot.2, hwell⟩
  cases hrefused.symm.trans hentity

end MatchAction
