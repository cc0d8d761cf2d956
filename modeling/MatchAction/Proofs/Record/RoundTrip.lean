/-
  MatchAction.Proofs.Record.RoundTrip — reading a record undoes writing it.

  Whatever form a record is written in, it is read back. Each reader makes a draft of what an
  object has under each name. A member that is left out leaves the draft as it would be with
  the default written down, so it does not matter which of the two is the case.

  An object that names a kind fills the draft of that kind and no other. If the kind is not
  known, its name is the only one that is collected, so there is no choice of the least.

  Proved:
  - `read_form` of each part: every form of it is read back.
  - `parse_form`: a JSON text that says a form of the record parses to the record.
-/

import MatchAction.Proofs.Record.Form
import MatchAction.Run

namespace MatchAction

open Record.Decode

/-! ## The layouts -/

namespace Record.Decode

attribute [ext] BytesDraft PairDraft LpmDraft OptionalDraft FieldMatchDraft ParamDraft CallDraft TableActionDraft
  TableEntryDraft ProfileMemberDraft GroupMemberDraft ProfileGroupDraft EntityDraft RecordDraft

variable (dialect : Dialect) (depth : Nat)

theorem lawful_exact : exactLayout.Lawful fun _ => [] := by
  constructor <;> simp [exactLayout, BytesDraft.ext_iff]

theorem lawful_pair {first second : String} (h : first ≠ second) : (pairLayout first second).Lawful fun _ => [] := by
  constructor <;> simp [pairLayout, PairDraft.ext_iff, h, h.symm]

theorem lawful_lpm : lpmLayout.Lawful fun _ => [] := by
  constructor <;> simp [lpmLayout, LpmDraft.ext_iff]

theorem lawful_optional : optionalLayout.Lawful fun _ => [] := by
  constructor <;> simp [optionalLayout, OptionalDraft.ext_iff]

theorem lawful_fieldMatch : (fieldMatchLayout dialect depth).Lawful (·.others) := by
  constructor <;> simp +contextual [fieldMatchLayout, FieldMatchDraft.ext_iff]

theorem lawful_param : paramLayout.Lawful fun _ => [] := by
  constructor <;> simp [paramLayout, ParamDraft.ext_iff]

theorem lawful_call : (callLayout dialect).Lawful fun _ => [] := by
  constructor <;> simp [callLayout, CallDraft.ext_iff]

theorem lawful_tableAction : (tableActionLayout dialect).Lawful fun _ => [] := by
  constructor <;> simp [tableActionLayout, TableActionDraft.ext_iff]

theorem lawful_tableEntry : (tableEntryLayout dialect depth).Lawful fun _ => [] := by
  constructor <;> simp [tableEntryLayout, TableEntryDraft.ext_iff]

theorem lawful_profileMember : (profileMemberLayout dialect).Lawful fun _ => [] := by
  constructor <;> simp [profileMemberLayout, ProfileMemberDraft.ext_iff]

theorem lawful_groupMember : groupMemberLayout.Lawful fun _ => [] := by
  constructor <;> simp [groupMemberLayout, GroupMemberDraft.ext_iff]

theorem lawful_profileGroup : (profileGroupLayout dialect).Lawful fun _ => [] := by
  constructor <;> simp [profileGroupLayout, ProfileGroupDraft.ext_iff]

theorem lawful_entity : (entityLayout dialect depth).Lawful (·.others) := by
  constructor <;> simp +contextual [entityLayout, EntityDraft.ext_iff]

theorem lawful_record : (recordLayout dialect).Lawful fun _ => [] := by
  constructor <;> simp [recordLayout, RecordDraft.ext_iff]

end Record.Decode

/-! ## Members that name a kind -/

namespace NamesKind

variable {α : Type} {read : Tree → Reading α} {kinds : List String} {members : List (String × Tree)}
  {kind other : String} {payload : Tree → Prop}

theorem chosen_read {a : α} (h : NamesKind kinds members kind payload)
    (hread : ∀ tree, payload tree → tree.readOption read = pure (some a)) :
    Member members kind (some a = none) fun tree => tree.readOption read = pure (some a) := by
  constructor
  · intro tree hmem
    exact hread tree (h.chosen.form tree hmem)
  · intro hname
    exact absurd h.chosen.mem hname

theorem other_read (h : NamesKind kinds members kind payload) (hother : other ∈ kinds) (hne : other ≠ kind) :
    Member members other ((none : Option α) = none) fun tree => tree.readOption read = pure none := by
  constructor
  · intro tree hmem
    obtain rfl : tree = Json.null := (h.others other hother hne).form tree hmem
    exact Tree.readOption_null
  · intro _
    rfl

end NamesKind

/-! ## Actions -/

variable {members : List (String × Tree)} {tree : Tree}

theorem ParamValue.read_form {param : ParamValue} (h : param.Form tree) : readParam .json tree = pure param := by
  obtain ⟨members, hobject, hid, hvalue⟩ := h
  have hdraft : paramLayout.read .json {} tree = pure
      { paramId := given members "param_id" param.paramId, value := given members "value" param.value } := by
    refine lawful_param.read_known .json hobject ?_ (by simp [paramLayout])
    -- each slot is read as the draft has it, or else there is no such member
    intro slot hslot
    simp only [paramLayout, List.mem_cons, List.not_mem_nil, or_false] at hslot
    rcases hslot with rfl | rfl
    · exact hid.takes (fun _ ht => ht ▸ Tree.readUInt32_integer _) rfl
    · exact hvalue.takes (fun _ ht => Tree.readHex_isHex ht) rfl
  rw [readParam, hdraft, pure_bind, hid.require, pure_bind, hvalue.require, pure_bind]

namespace ActionCall

theorem read_form {call : ActionCall} (h : call.Form tree) : readCall .json tree = pure call := by
  obtain ⟨members, hobject, hid, hparams⟩ := h
  have hdraft : (callLayout .json).read .json {} tree = pure
      { actionId := given members "action_id" call.actionId, params := given members "params" call.params } := by
    refine (lawful_call .json).read_known .json hobject ?_ (by simp [callLayout])
    intro slot hslot
    simp only [callLayout, List.mem_cons, List.not_mem_nil, or_false] at hslot
    rcases hslot with rfl | rfl
    · exact hid.takes (fun _ ht => ht ▸ Tree.readUInt32_integer _) rfl
    · refine hparams.takes (fun t ht => ?_) rfl
      exact Tree.readList_isList ht fun _ _ _ hparam => ParamValue.read_form hparam
  rw [readCall, hdraft, pure_bind, hid.require, pure_bind, hparams.getD]

end ActionCall

namespace TableAction

/-- Of the three members only what is read of them counts. -/
theorem read_members {call : Option ActionCall} {member group : Option UInt32}
    (hobject : Json.IsObject kinds members tree)
    (hcall : Member members "action" (call = none) fun t => t.readOption (readCall .json) = pure call)
    (hmember : Member members "action_profile_member_id" (member = none)
      fun t => t.readOption Tree.readUInt32 = pure member)
    (hgroup : Member members "action_profile_group_id" (group = none)
      fun t => t.readOption Tree.readUInt32 = pure group) :
    readTableAction .json tree = .ofExcept (TableActionDraft.tableAction ⟨some call, some member, some group⟩) := by
  have hdraft : readTableActionDraft .json tree = pure
      { call := given members "action" call
        member := given members "action_profile_member_id" member
        group := given members "action_profile_group_id" group } := by
    refine (lawful_tableAction .json).read_known .json hobject ?_ (by simp [tableActionLayout])
    intro slot hslot
    simp only [tableActionLayout, List.mem_cons, List.not_mem_nil, or_false] at hslot
    rcases hslot with rfl | rfl | rfl
    · exact hcall.takes (fun _ ht => ht) rfl
    · exact hmember.takes (fun _ ht => ht) rfl
    · exact hgroup.takes (fun _ ht => ht) rfl
  rw [readTableAction, hdraft, pure_bind]
  unfold TableActionDraft.tableAction
  rw [hcall.getD, hmember.getD, hgroup.getD]
  rfl

theorem read_form {action : TableAction} (h : action.Form tree) : readTableAction .json tree = pure action := by
  obtain ⟨members, hobject, hkind⟩ := h
  cases action with
  | call c =>
    have hkind : NamesKind kinds members "action" c.Form := hkind
    have hcall := hkind.chosen_read fun _ ht =>
      Tree.readOption_some (Json.isPresent_of_object ht) (ActionCall.read_form ht)
    rw [read_members hobject hcall (hkind.other_read (by decide) (by decide))
      (hkind.other_read (by decide) (by decide))]
    rfl
  | profileMember id =>
    have hkind : NamesKind kinds members "action_profile_member_id" (· = Json.integer id.toNat) := hkind
    have hmember := hkind.chosen_read fun _ ht =>
      ht ▸ Tree.readOption_some (Json.isPresent_integer _) (Tree.readUInt32_integer id)
    rw [read_members hobject (hkind.other_read (by decide) (by decide)) hmember
      (hkind.other_read (by decide) (by decide))]
    rfl
  | profileGroup id =>
    have hkind : NamesKind kinds members "action_profile_group_id" (· = Json.integer id.toNat) := hkind
    have hgroup := hkind.chosen_read fun _ ht =>
      ht ▸ Tree.readOption_some (Json.isPresent_integer _) (Tree.readUInt32_integer id)
    rw [read_members hobject (hkind.other_read (by decide) (by decide)) (hkind.other_read (by decide) (by decide))
      hgroup]
    rfl

end TableAction

/-! ## Field matches -/

namespace MatchValue

variable {levels : Nat}

/-- What is under the name of a kind that is not known. -/
theorem Payload.value {value : MatchValue} (h : value.Payload levels tree) (hname : value.kindName ∉ kinds) :
    Json.Value levels tree := by
  cases value with
  | unsupported kind => exact h
  | _ => exact absurd (by simp [kindName, kinds]) hname

theorem readExact_payload {value : Octets} (h : (exact value).Payload levels tree) :
    tree.readOption (readExact .json) = pure (some (exact value)) := by
  obtain ⟨members, hobject, hvalue⟩ := h
  have hdraft : exactLayout.read .json {} tree = pure { value := given members "value" value } := by
    refine lawful_exact.read_known .json hobject ?_ (by simp [exactLayout])
    intro slot hslot
    simp only [exactLayout, List.mem_cons, List.not_mem_nil, or_false] at hslot
    subst hslot
    exact hvalue.takes (fun _ ht => Tree.readHex_isHex ht) rfl
  refine Tree.readOption_some hobject.isPresent ?_
  rw [readExact, hdraft, pure_bind, hvalue.require, pure_bind]

theorem read_pair {first second : String} (hne : first ≠ second) {a b : Octets}
    (hobject : Json.IsObject [first, second] members tree) (ha : Member members first False (Json.IsHex a))
    (hb : Member members second False (Json.IsHex b)) :
    (pairLayout first second).read .json {} tree =
      pure { first := given members first a, second := given members second b } := by
  refine (lawful_pair hne).read_known .json hobject ?_ (by simp [pairLayout])
  intro slot hslot
  simp only [pairLayout, List.mem_cons, List.not_mem_nil, or_false] at hslot
  rcases hslot with rfl | rfl
  · exact ha.takes (fun _ ht => Tree.readHex_isHex ht) rfl
  · exact hb.takes (fun _ ht => Tree.readHex_isHex ht) rfl

theorem readTernary_payload {value mask : Octets} (h : (ternary value mask).Payload levels tree) :
    tree.readOption (readTernary .json) = pure (some (ternary value mask)) := by
  obtain ⟨members, hobject, hvalue, hmask⟩ := h
  refine Tree.readOption_some hobject.isPresent ?_
  rw [readTernary, read_pair (by decide) hobject hvalue hmask, pure_bind, hvalue.require, pure_bind, hmask.require,
    pure_bind]

theorem readRange_payload {low high : Octets} (h : (range low high).Payload levels tree) :
    tree.readOption (readRange .json) = pure (some (range low high)) := by
  obtain ⟨members, hobject, hlow, hhigh⟩ := h
  refine Tree.readOption_some hobject.isPresent ?_
  rw [readRange, read_pair (by decide) hobject hlow hhigh, pure_bind, hlow.require, pure_bind, hhigh.require,
    pure_bind]

theorem readLpm_payload {value : Octets} {length : UInt32} (h : (lpm value length).Payload levels tree) :
    tree.readOption (readLpm .json) = pure (some (lpm value length)) := by
  obtain ⟨members, hobject, hvalue, hlength⟩ := h
  have hdraft : lpmLayout.read .json {} tree = pure
      { value := given members "value" value, length := given members "prefix_len" length } := by
    refine lawful_lpm.read_known .json hobject ?_ (by simp [lpmLayout])
    intro slot hslot
    simp only [lpmLayout, List.mem_cons, List.not_mem_nil, or_false] at hslot
    rcases hslot with rfl | rfl
    · exact hvalue.takes (fun _ ht => Tree.readHex_isHex ht) rfl
    · exact hlength.takes (fun _ ht => ht ▸ Tree.readUInt32_integer _) rfl
  refine Tree.readOption_some hobject.isPresent ?_
  rw [readLpm, hdraft, pure_bind, hvalue.require, pure_bind, hlength.require, pure_bind]

theorem readOptional_payload {value : Option Octets} (h : (optional value).Payload levels tree) :
    tree.readOption (readOptional .json) = pure (some (optional value)) := by
  obtain ⟨members, hobject, hvalue⟩ := h
  have hdraft : optionalLayout.read .json {} tree = pure { value := given members "value" value } := by
    refine lawful_optional.read_known .json hobject ?_ (by simp [optionalLayout])
    intro slot hslot
    simp only [optionalLayout, List.mem_cons, List.not_mem_nil, or_false] at hslot
    subst hslot
    refine hvalue.takes (fun t ht => ?_) rfl
    exact Tree.readOption_isOption ht (fun _ _ hoctets => hoctets.isPresent) fun _ _ _ hoctets =>
      Tree.readHex_isHex hoctets
  refine Tree.readOption_some hobject.isPresent ?_
  rw [readOptional, hdraft, pure_bind, hvalue.getD]

end MatchValue

namespace FieldMatch

variable {depth : Nat}

/-- Of the members that name kinds only what is read of them counts, and what is not known. -/
theorem read_members {m : FieldMatch} {exact ternary lpm range optional : Option MatchValue}
    (hobject : Json.IsObject (m.value.kindName :: "field_id" :: MatchValue.kinds) members tree)
    (hid : Member members "field_id" False (· = Json.integer m.fieldId.toNat))
    (hvalue : m.value.kindName ∉ "field_id" :: MatchValue.kinds → ∀ t, (m.value.kindName, t) ∈ members →
      Json.Value (Dialect.json.maxDepth - depth) t)
    (hexact : Member members "exact" (exact = none) fun t => t.readOption (readExact .json) = pure exact)
    (hternary : Member members "ternary" (ternary = none) fun t => t.readOption (readTernary .json) = pure ternary)
    (hlpm : Member members "lpm" (lpm = none) fun t => t.readOption (readLpm .json) = pure lpm)
    (hrange : Member members "range" (range = none) fun t => t.readOption (readRange .json) = pure range)
    (hoptional : Member members "optional" (optional = none)
      fun t => t.readOption (readOptional .json) = pure optional) :
    readFieldMatch .json depth tree = pure ⟨m.fieldId, FieldMatchDraft.matchValue
      { fieldId := some m.fieldId, exact := some exact, ternary := some ternary, lpm := some lpm, range := some range
        optional := some optional, others := ((fieldMatchLayout .json depth).unknown members).reverse }⟩ := by
  have hdraft : (fieldMatchLayout .json depth).read .json {} tree = pure
      { fieldId := given members "field_id" m.fieldId
        exact := given members "exact" exact
        ternary := given members "ternary" ternary
        lpm := given members "lpm" lpm
        range := given members "range" range
        optional := given members "optional" optional
        others := ((fieldMatchLayout .json depth).unknown members).reverse } := by
    refine (lawful_fieldMatch .json depth).read_keeping .json rfl hobject hvalue ?_ (by simp [fieldMatchLayout]) rfl rfl
    intro slot hslot
    simp only [fieldMatchLayout, List.mem_cons, List.not_mem_nil, or_false] at hslot
    rcases hslot with rfl | rfl | rfl | rfl | rfl | rfl
    · exact hid.takes (fun _ ht => ht ▸ Tree.readUInt32_integer _) rfl
    · exact hexact.takes (fun _ ht => ht) rfl
    · exact hternary.takes (fun _ ht => ht) rfl
    · exact hlpm.takes (fun _ ht => ht) rfl
    · exact hrange.takes (fun _ ht => ht) rfl
    · exact hoptional.takes (fun _ ht => ht) rfl
  rw [readFieldMatch, hdraft, pure_bind, hid.require, pure_bind]
  simp only [FieldMatchDraft.matchValue, hexact.getD, hternary.getD, hlpm.getD, hrange.getD, hoptional.getD,
    Option.getD_some, List.filterMap_cons]

theorem read_form {m : FieldMatch} (hapart : m.value.KindApart) (h : m.Form depth tree) :
    readFieldMatch .json depth tree = pure m := by
  obtain ⟨members, hobject, hid, hkind⟩ := h
  obtain ⟨fieldId, value⟩ := m
  have hvalue : value.kindName ∉ "field_id" :: MatchValue.kinds → ∀ t, (value.kindName, t) ∈ members →
      Json.Value (Dialect.json.maxDepth - depth) t := fun hname t ht =>
    (hkind.chosen.form t ht).value fun hknown => hname (List.mem_cons_of_mem _ hknown)
  -- one member is read as the value and the others as nothing
  cases value with
  | exact value =>
    have hkind : NamesKind MatchValue.kinds members "exact" _ := hkind
    exact read_members hobject hid hvalue (hkind.chosen_read fun _ ht => MatchValue.readExact_payload ht)
      (hkind.other_read (by decide) (by decide)) (hkind.other_read (by decide) (by decide))
      (hkind.other_read (by decide) (by decide)) (hkind.other_read (by decide) (by decide))
  | ternary value mask =>
    have hkind : NamesKind MatchValue.kinds members "ternary" _ := hkind
    exact read_members hobject hid hvalue (hkind.other_read (by decide) (by decide))
      (hkind.chosen_read fun _ ht => MatchValue.readTernary_payload ht) (hkind.other_read (by decide) (by decide))
      (hkind.other_read (by decide) (by decide)) (hkind.other_read (by decide) (by decide))
  | lpm value length =>
    have hkind : NamesKind MatchValue.kinds members "lpm" _ := hkind
    exact read_members hobject hid hvalue (hkind.other_read (by decide) (by decide))
      (hkind.other_read (by decide) (by decide)) (hkind.chosen_read fun _ ht => MatchValue.readLpm_payload ht)
      (hkind.other_read (by decide) (by decide)) (hkind.other_read (by decide) (by decide))
  | range low high =>
    have hkind : NamesKind MatchValue.kinds members "range" _ := hkind
    exact read_members hobject hid hvalue (hkind.other_read (by decide) (by decide))
      (hkind.other_read (by decide) (by decide)) (hkind.other_read (by decide) (by decide))
      (hkind.chosen_read fun _ ht => MatchValue.readRange_payload ht) (hkind.other_read (by decide) (by decide))
  | optional value =>
    have hkind : NamesKind MatchValue.kinds members "optional" _ := hkind
    exact read_members hobject hid hvalue (hkind.other_read (by decide) (by decide))
      (hkind.other_read (by decide) (by decide)) (hkind.other_read (by decide) (by decide))
      (hkind.other_read (by decide) (by decide)) (hkind.chosen_read fun _ ht => MatchValue.readOptional_payload ht)
  | unsupported kind =>
    have hne : ∀ other ∈ MatchValue.kinds, other ≠ kind := fun other hother heq =>
      hapart (List.mem_cons_of_mem _ (heq ▸ hother))
    have hnone : ∀ other ∈ MatchValue.kinds, ∀ read : Tree → Reading MatchValue,
        Member members other ((none : Option MatchValue) = none) fun t => t.readOption read = pure none :=
      fun other hother _ => hkind.other_read hother (hne other hother)
    have hunknown : (fieldMatchLayout .json depth).unknown members = [kind] :=
      Layout.unknown_eq hobject hapart hkind.chosen.mem
    rw [read_members hobject hid hvalue (hnone "exact" (by decide) _) (hnone "ternary" (by decide) _)
      (hnone "lpm" (by decide) _) (hnone "range" (by decide) _) (hnone "optional" (by decide) _), hunknown]
    rfl

end FieldMatch

/-! ## Entities -/

namespace TableEntry

variable {depth : Nat}

theorem read_form {entry : TableEntry} (hapart : ∀ m ∈ entry.fieldMatches, m.value.KindApart)
    (h : entry.Form depth tree) : readTableEntry .json depth tree = pure entry := by
  obtain ⟨members, hobject, hid, hmatches, haction, hpriority, hdefault⟩ := h
  have hdraft : (tableEntryLayout .json depth).read .json {} tree = pure
      { tableId := given members "table_id" entry.tableId
        fieldMatches := given members "match" entry.fieldMatches
        action := given members "action" entry.action
        priority := given members "priority" entry.priority
        isDefaultAction := given members "is_default_action" entry.isDefaultAction } := by
    refine (lawful_tableEntry .json depth).read_known .json hobject ?_ (by simp [tableEntryLayout])
    intro slot hslot
    simp only [tableEntryLayout, List.mem_cons, List.not_mem_nil, or_false] at hslot
    rcases hslot with rfl | rfl | rfl | rfl | rfl
    · exact hid.takes (fun _ ht => ht ▸ Tree.readUInt32_integer _) rfl
    · refine hmatches.takes (fun t ht => ?_) rfl
      exact Tree.readList_isList ht fun m hm _ hform => FieldMatch.read_form (hapart m hm) hform
    · refine haction.takes (fun t ht => ?_) rfl
      exact Tree.readOption_isOption ht (fun _ _ hform => Json.isPresent_of_object hform) fun _ _ _ hform =>
        TableAction.read_form hform
    · refine hpriority.takes (fun t ht => ?_) rfl
      exact Tree.readOption_isOption ht (fun _ _ hform => hform ▸ Json.isPresent_integer _) fun _ _ _ hform =>
        hform ▸ Tree.readInt32_integer _
    · exact hdefault.takes (fun _ ht => ht ▸ Tree.readFlag_flag _) rfl
  rw [readTableEntry, hdraft, pure_bind, hid.require, pure_bind, hmatches.getD, haction.getD, hpriority.getD,
    hdefault.getD]

end TableEntry

namespace ProfileMember

theorem read_form {member : ProfileMember} (h : member.Form tree) : readProfileMember .json tree = pure member := by
  obtain ⟨members, hobject, hprofile, hid, haction⟩ := h
  have hdraft : (profileMemberLayout .json).read .json {} tree = pure
      { profileId := given members "action_profile_id" member.profileId
        memberId := given members "member_id" member.memberId
        action := given members "action" member.action } := by
    refine (lawful_profileMember .json).read_known .json hobject ?_ (by simp [profileMemberLayout])
    intro slot hslot
    simp only [profileMemberLayout, List.mem_cons, List.not_mem_nil, or_false] at hslot
    rcases hslot with rfl | rfl | rfl
    · exact hprofile.takes (fun _ ht => ht ▸ Tree.readUInt32_integer _) rfl
    · exact hid.takes (fun _ ht => ht ▸ Tree.readUInt32_integer _) rfl
    · refine haction.takes (fun t ht => ?_) rfl
      exact Tree.readOption_isOption ht (fun _ _ hform => Json.isPresent_of_object hform) fun _ _ _ hform =>
        ActionCall.read_form hform
  rw [readProfileMember, hdraft, pure_bind, hprofile.require, pure_bind, hid.require, pure_bind, haction.getD]

end ProfileMember

theorem GroupMember.read_form {member : GroupMember} (h : member.Form tree) :
    readGroupMember .json tree = pure member := by
  obtain ⟨members, hobject, hid, hweight⟩ := h
  have hdraft : groupMemberLayout.read .json {} tree = pure
      { memberId := given members "member_id" member.memberId, weight := given members "weight" member.weight } := by
    refine lawful_groupMember.read_known .json hobject ?_ (by simp [groupMemberLayout])
    intro slot hslot
    simp only [groupMemberLayout, List.mem_cons, List.not_mem_nil, or_false] at hslot
    rcases hslot with rfl | rfl
    · exact hid.takes (fun _ ht => ht ▸ Tree.readUInt32_integer _) rfl
    · exact hweight.takes (fun _ ht => ht ▸ Tree.readInt32_integer _) rfl
  rw [readGroupMember, hdraft, pure_bind, hid.require, pure_bind, hweight.getD]

namespace ProfileGroup

theorem read_form {group : ProfileGroup} (h : group.Form tree) : readProfileGroup .json tree = pure group := by
  obtain ⟨members, hobject, hprofile, hid, hmembers⟩ := h
  have hdraft : (profileGroupLayout .json).read .json {} tree = pure
      { profileId := given members "action_profile_id" group.profileId
        groupId := given members "group_id" group.groupId
        members := given members "members" group.members } := by
    refine (lawful_profileGroup .json).read_known .json hobject ?_ (by simp [profileGroupLayout])
    intro slot hslot
    simp only [profileGroupLayout, List.mem_cons, List.not_mem_nil, or_false] at hslot
    rcases hslot with rfl | rfl | rfl
    · exact hprofile.takes (fun _ ht => ht ▸ Tree.readUInt32_integer _) rfl
    · exact hid.takes (fun _ ht => ht ▸ Tree.readUInt32_integer _) rfl
    · refine hmembers.takes (fun t ht => ?_) rfl
      exact Tree.readList_isList ht fun _ _ _ hform => GroupMember.read_form hform
  rw [readProfileGroup, hdraft, pure_bind, hprofile.require, pure_bind, hid.require, pure_bind, hmembers.getD]

end ProfileGroup

namespace Entity

variable {depth : Nat}

/-- Of the members that name kinds only what is read of them counts, and what is not known. -/
theorem read_members {kind : String} {entry : Option TableEntry} {member : Option ProfileMember}
    {group : Option ProfileGroup} (hobject : Json.IsObject (kind :: kinds) members tree)
    (hvalue : kind ∉ kinds → ∀ t, (kind, t) ∈ members → Json.Value (Dialect.json.maxDepth - depth) t)
    (hentry : Member members "table_entry" (entry = none)
      fun t => t.readOption (readTableEntry .json (depth + 1)) = pure entry)
    (hmember : Member members "action_profile_member" (member = none)
      fun t => t.readOption (readProfileMember .json) = pure member)
    (hgroup : Member members "action_profile_group" (group = none)
      fun t => t.readOption (readProfileGroup .json) = pure group) :
    readEntity .json depth tree = pure (EntityDraft.entity
      ⟨some entry, some member, some group, ((entityLayout .json depth).unknown members).reverse⟩) := by
  have hdraft : (entityLayout .json depth).read .json {} tree = pure
      { tableEntry := given members "table_entry" entry
        profileMember := given members "action_profile_member" member
        profileGroup := given members "action_profile_group" group
        others := ((entityLayout .json depth).unknown members).reverse } := by
    refine (lawful_entity .json depth).read_keeping .json rfl hobject hvalue ?_ (by simp [entityLayout]) rfl rfl
    intro slot hslot
    simp only [entityLayout, List.mem_cons, List.not_mem_nil, or_false] at hslot
    rcases hslot with rfl | rfl | rfl
    · exact hentry.takes (fun _ ht => ht) rfl
    · exact hmember.takes (fun _ ht => ht) rfl
    · exact hgroup.takes (fun _ ht => ht) rfl
  rw [readEntity, hdraft, pure_bind]
  simp only [EntityDraft.entity, hentry.getD, hmember.getD, hgroup.getD, Option.getD_some]

theorem Payload.value {entity : Entity} (h : entity.Payload depth tree) (hname : entity.kind ∉ kinds) :
    Json.Value (Dialect.json.maxDepth - depth) tree := by
  cases entity with
  | other kind => exact h
  | _ => exact absurd (by simp [kind, kinds]) hname

theorem read_form {entity : Entity} (hapart : entity.KindsApart) (h : entity.Form depth tree) :
    readEntity .json depth tree = pure entity := by
  obtain ⟨members, hobject, hkind⟩ := h
  have hvalue : entity.kind ∉ kinds → ∀ t, (entity.kind, t) ∈ members →
      Json.Value (Dialect.json.maxDepth - depth) t := fun hname t ht => (hkind.chosen.form t ht).value hname
  cases entity with
  | tableEntry entry =>
    have hkind : NamesKind kinds members "table_entry" (entry.Form (depth + 1)) := hkind
    exact read_members hobject hvalue
      (hkind.chosen_read fun _ ht =>
        Tree.readOption_some (Json.isPresent_of_object ht) (TableEntry.read_form hapart ht))
      (hkind.other_read (by decide) (by decide)) (hkind.other_read (by decide) (by decide))
  | profileMember member =>
    have hkind : NamesKind kinds members "action_profile_member" member.Form := hkind
    exact read_members hobject hvalue (hkind.other_read (by decide) (by decide))
      (hkind.chosen_read fun _ ht =>
        Tree.readOption_some (Json.isPresent_of_object ht) (ProfileMember.read_form ht))
      (hkind.other_read (by decide) (by decide))
  | profileGroup group =>
    have hkind : NamesKind kinds members "action_profile_group" group.Form := hkind
    exact read_members hobject hvalue (hkind.other_read (by decide) (by decide))
      (hkind.other_read (by decide) (by decide))
      (hkind.chosen_read fun _ ht =>
        Tree.readOption_some (Json.isPresent_of_object ht) (ProfileGroup.read_form ht))
  | other kind =>
    have hne : ∀ known ∈ kinds, known ≠ kind := fun known hknown heq => hapart (heq ▸ hknown)
    have hunknown : (entityLayout .json depth).unknown members = [kind] :=
      Layout.unknown_eq hobject hapart hkind.chosen.mem
    rw [read_members hobject hvalue (hkind.other_read (by decide) (hne _ (by decide)))
      (hkind.other_read (by decide) (hne _ (by decide))) (hkind.other_read (by decide) (hne _ (by decide))), hunknown]
    rfl

end Entity

/-! ## Records -/

namespace Record

theorem read_form {record : Record} (hapart : record.KindsApart) (h : record.Form tree) :
    readRecord .json tree = pure record := by
  obtain ⟨members, hobject, hentities⟩ := h
  have hdraft : (recordLayout .json).read .json {} tree = pure
      { entities := given members "entities" record.entities } := by
    refine (lawful_record .json).read_known .json hobject ?_ (by simp [recordLayout])
    intro slot hslot
    simp only [recordLayout, List.mem_cons, List.not_mem_nil, or_false] at hslot
    subst hslot
    refine hentities.takes (fun t ht => ?_) rfl
    exact Tree.readList_isList ht fun entity hentity _ hform => Entity.read_form (hapart entity hentity) hform
  rw [readRecord, hdraft, pure_bind, hentities.getD]

/-- Every record can be written down, and any text that says it, in whatever form, is read as the
    record. -/
theorem parse_form {record : Record} (hapart : record.KindsApart) :
    (∃ tree, record.Form tree) ∧ ∀ bytes, record.Form (Json.read bytes).root → (Json.read bytes).isComplete = true →
      Record.parse .json bytes = .ok record := by
  refine ⟨⟨record.write, form_write hapart⟩, fun bytes hform hcomplete => ?_⟩
  have hdecode : readRecord .json (Json.read bytes).root = pure record := read_form hapart hform
  show (Json.read bytes).decode (readRecord .json) = .ok record
  rw [Document.decode, hdecode, hcomplete]
  rfl

def routeEntry : TableEntry where
  tableId := 1
  fieldMatches := [⟨1, .lpm [0x0a] 8⟩]
  action := some (.profileMember 7)

def route : Record where
  entities := [.tableEntry routeEntry, .other "meter_entry"]

theorem route_kindsApart : route.KindsApart := by
  have hentry : Entity.KindsApart (.tableEntry routeEntry) := List.forall_mem_cons.mpr ⟨trivial, List.forall_mem_nil _⟩
  have hmeter : Entity.KindsApart (.other "meter_entry") := by
    show "meter_entry" ∉ Entity.kinds
    decide
  exact List.forall_mem_cons.mpr ⟨hentry, List.forall_mem_cons.mpr ⟨hmeter, List.forall_mem_nil _⟩⟩

/-- The route without its priority, and without saying that it is no default. -/
def routeText : String :=
  "\x7b\"entities\":[\x7b\"table_entry\":\x7b\"table_id\":1," ++
  "\"match\":[\x7b\"field_id\":1,\"lpm\":\x7b\"value\":\"0a\",\"prefix_len\":8\x7d\x7d]," ++
  "\"action\":\x7b\"action_profile_member_id\":7\x7d\x7d\x7d,\x7b\"meter_entry\":5\x7d]\x7d"

def routeTree : Tree :=
  Json.object [("entities", .list
    [Json.object [("table_entry", Json.object
       [("table_id", Json.integer 1), ("match", .list (routeEntry.fieldMatches.map FieldMatch.write)),
        ("action", TableAction.write (.profileMember 7))])],
     Json.object [("meter_entry", Json.integer 5)]])]

theorem form_routeTree : route.Form routeTree := by
  have hnodup : ["table_id", "match", "action"].Nodup := by decide
  have hmatches := Json.isList_map fun m hm => FieldMatch.form_write (route_kindsApart _ List.mem_cons_self m hm) 6
  have hentry : Entity.Payload 3 (.tableEntry routeEntry) (Json.object
      [("table_id", Json.integer 1), ("match", .list (routeEntry.fieldMatches.map FieldMatch.write)),
       ("action", TableAction.write (.profileMember 7))]) :=
    ⟨_, Json.isObject_object hnodup (by simp), .of_mem hnodup List.mem_cons_self rfl,
      .of_mem hnodup (by simp) hmatches, .of_mem hnodup (by simp) (TableAction.form_write _),
      .of_not_mem (by simp) rfl, .of_not_mem (by simp) rfl⟩
  have hmeter : Entity.Payload 3 (.other "meter_entry") (Json.integer 5) := .leaf rfl
  have hentities : ["entities"].Nodup := List.nodup_singleton _
  exact ⟨_, Json.isObject_object hentities (by simp), .of_mem hentities List.mem_cons_self
    ⟨_, .cons (Entity.form_object hentry) (.cons (Entity.form_object hmeter) .nil), rfl⟩⟩

theorem parse_form_route : route.KindsApart ∧ route.Form (Json.read routeText.toUTF8.toList).root ∧
    (Json.read routeText.toUTF8.toList).isComplete = true ∧
    Record.parse .json routeText.toUTF8.toList = .ok route := by
  have hread : (Json.read routeText.toUTF8.toList).isComplete = true ∧
      (Json.read routeText.toUTF8.toList).root.same routeTree = true := by decide +kernel
  have hform : route.Form (Json.read routeText.toUTF8.toList).root := Tree.eq_of_same hread.2 ▸ form_routeTree
  exact ⟨route_kindsApart, hform, hread.1, (parse_form route_kindsApart).2 _ hform hread.1⟩

end Record

end MatchAction
