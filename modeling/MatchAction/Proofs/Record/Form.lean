/-
  MatchAction.Proofs.Record.Form — how a record is written in JSON.

  A value of a record has many forms. Bytes are spelled in hex. What may be absent, empty or a
  default is left out or written down, null standing for what is absent. An entity, a match
  and an action name their kind by the member that holds the rest; the other kinds that are
  known are left out or null. The members of an object stand in any order. What is under the
  name of a kind that is not known may be any value.

  Proved:
  - `Record.form_write`: every record has a form, if the kinds that are not known are not
    called like members that are.
-/

import MatchAction.Proofs.Document.Layout
import MatchAction.Record.Basic

namespace MatchAction

/-! ## Objects that name a kind -/

/-- The member called like the kind has the form of its payload, and the other `kinds` are left
    out or null. -/
structure NamesKind (kinds : List String) (members : List (String × Tree)) (kind : String) (payload : Tree → Prop) :
    Prop where
  chosen : Member members kind False payload
  others : ∀ other ∈ kinds, other ≠ kind → Member members other True (· = Json.null)

/-! ## The forms of a record -/

def ParamValue.Form (param : ParamValue) (tree : Tree) : Prop :=
  ∃ members, Json.IsObject ["param_id", "value"] members tree ∧
    Member members "param_id" False (· = Json.integer param.paramId.toNat) ∧
    Member members "value" False (Json.IsHex param.value)

def ActionCall.Form (call : ActionCall) (tree : Tree) : Prop :=
  ∃ members, Json.IsObject ["action_id", "params"] members tree ∧
    Member members "action_id" False (· = Json.integer call.actionId.toNat) ∧
    Member members "params" (call.params = []) (Json.IsList ParamValue.Form call.params)

namespace TableAction

def kinds : List String := ["action", "action_profile_member_id", "action_profile_group_id"]

def kind : TableAction → String
  | call _ => "action"
  | profileMember _ => "action_profile_member_id"
  | profileGroup _ => "action_profile_group_id"

def Payload : TableAction → Tree → Prop
  | call c, tree => c.Form tree
  | profileMember id, tree | profileGroup id, tree => tree = Json.integer id.toNat

def Form (action : TableAction) (tree : Tree) : Prop :=
  ∃ members, Json.IsObject kinds members tree ∧ NamesKind kinds members action.kind action.Payload

end TableAction

namespace MatchValue

def kinds : List String := ["exact", "ternary", "lpm", "range", "optional"]

/-- What is under the name of the kind; any value of at most so many levels for one that is not known. -/
def Payload (levels : Nat) : MatchValue → Tree → Prop
  | exact value, tree => ∃ members, Json.IsObject ["value"] members tree ∧
      Member members "value" False (Json.IsHex value)
  | ternary value mask, tree => ∃ members, Json.IsObject ["value", "mask"] members tree ∧
      Member members "value" False (Json.IsHex value) ∧ Member members "mask" False (Json.IsHex mask)
  | lpm value length, tree => ∃ members, Json.IsObject ["value", "prefix_len"] members tree ∧
      Member members "value" False (Json.IsHex value) ∧
      Member members "prefix_len" False (· = Json.integer length.toNat)
  | range low high, tree => ∃ members, Json.IsObject ["low", "high"] members tree ∧
      Member members "low" False (Json.IsHex low) ∧ Member members "high" False (Json.IsHex high)
  | optional value, tree => ∃ members, Json.IsObject ["value"] members tree ∧
      Member members "value" (value = none) (Json.IsOption Json.IsHex value)
  | unsupported _, tree => Json.Value levels tree

def KindApart : MatchValue → Prop
  | unsupported kind => kind ∉ "field_id" :: kinds
  | _ => True

end MatchValue

/-- A match that is `depth` levels deep, itself included. -/
def FieldMatch.Form (depth : Nat) (m : FieldMatch) (tree : Tree) : Prop :=
  ∃ members, Json.IsObject (m.value.kindName :: "field_id" :: MatchValue.kinds) members tree ∧
    Member members "field_id" False (· = Json.integer m.fieldId.toNat) ∧
    NamesKind MatchValue.kinds members m.value.kindName (m.value.Payload (Dialect.json.maxDepth - depth))

def TableEntry.Form (depth : Nat) (entry : TableEntry) (tree : Tree) : Prop :=
  ∃ members, Json.IsObject ["table_id", "match", "action", "priority", "is_default_action"] members tree ∧
    Member members "table_id" False (· = Json.integer entry.tableId.toNat) ∧
    Member members "match" (entry.fieldMatches = []) (Json.IsList (FieldMatch.Form (depth + 2)) entry.fieldMatches) ∧
    Member members "action" (entry.action = none) (Json.IsOption TableAction.Form entry.action) ∧
    Member members "priority" (entry.priority = none)
      (Json.IsOption (fun n tree => tree = Json.integer n.toInt) entry.priority) ∧
    Member members "is_default_action" (entry.isDefaultAction = false) (· = Json.flag entry.isDefaultAction)

def ProfileMember.Form (member : ProfileMember) (tree : Tree) : Prop :=
  ∃ members, Json.IsObject ["action_profile_id", "member_id", "action"] members tree ∧
    Member members "action_profile_id" False (· = Json.integer member.profileId.toNat) ∧
    Member members "member_id" False (· = Json.integer member.memberId.toNat) ∧
    Member members "action" (member.action = none) (Json.IsOption ActionCall.Form member.action)

def GroupMember.Form (member : GroupMember) (tree : Tree) : Prop :=
  ∃ members, Json.IsObject ["member_id", "weight"] members tree ∧
    Member members "member_id" False (· = Json.integer member.memberId.toNat) ∧
    Member members "weight" (member.weight = 0) (· = Json.integer member.weight.toInt)

def ProfileGroup.Form (group : ProfileGroup) (tree : Tree) : Prop :=
  ∃ members, Json.IsObject ["action_profile_id", "group_id", "members"] members tree ∧
    Member members "action_profile_id" False (· = Json.integer group.profileId.toNat) ∧
    Member members "group_id" False (· = Json.integer group.groupId.toNat) ∧
    Member members "members" (group.members = []) (Json.IsList GroupMember.Form group.members)

namespace Entity

def kinds : List String := ["table_entry", "action_profile_member", "action_profile_group"]

def Payload (depth : Nat) : Entity → Tree → Prop
  | tableEntry entry, tree => entry.Form (depth + 1) tree
  | profileMember member, tree => member.Form tree
  | profileGroup group, tree => group.Form tree
  | other _, tree => Json.Value (Dialect.json.maxDepth - depth) tree

def Form (depth : Nat) (entity : Entity) (tree : Tree) : Prop :=
  ∃ members, Json.IsObject (entity.kind :: kinds) members tree ∧
    NamesKind kinds members entity.kind (entity.Payload depth)

/-- The kinds that are not known are not called like members that are. -/
def KindsApart : Entity → Prop
  | tableEntry entry => ∀ m ∈ entry.fieldMatches, m.value.KindApart
  | profileMember _ | profileGroup _ => True
  | other kind => kind ∉ kinds

end Entity

namespace Record

def Form (record : Record) (tree : Tree) : Prop :=
  ∃ members, Json.IsObject ["entities"] members tree ∧
    Member members "entities" (record.entities = []) (Json.IsList (Entity.Form 3) record.entities)

def KindsApart (record : Record) : Prop := ∀ entity ∈ record.entities, entity.KindsApart

end Record

/-! ## Every record has a form -/

def ParamValue.write (param : ParamValue) : Tree :=
  Json.object [("param_id", Json.integer param.paramId.toNat), ("value", Json.text (Hex.encode param.value))]

def ActionCall.write (call : ActionCall) : Tree :=
  Json.object [("action_id", Json.integer call.actionId.toNat), ("params", .list (call.params.map ParamValue.write))]

def TableAction.writePayload : TableAction → Tree
  | call c => c.write
  | profileMember id | profileGroup id => Json.integer id.toNat

def TableAction.write (action : TableAction) : Tree := Json.object [(action.kind, action.writePayload)]

def MatchValue.writePayload : MatchValue → Tree
  | exact value => Json.object [("value", Json.text (Hex.encode value))]
  | ternary value mask => Json.object [("value", Json.text (Hex.encode value)), ("mask", Json.text (Hex.encode mask))]
  | lpm value length =>
    Json.object [("value", Json.text (Hex.encode value)), ("prefix_len", Json.integer length.toNat)]
  | range low high => Json.object [("low", Json.text (Hex.encode low)), ("high", Json.text (Hex.encode high))]
  | optional value => Json.object [("value", value.elim Json.null fun octets => Json.text (Hex.encode octets))]
  | unsupported _ => Json.null

def FieldMatch.write (m : FieldMatch) : Tree :=
  Json.object [("field_id", Json.integer m.fieldId.toNat), (m.value.kindName, m.value.writePayload)]

def TableEntry.write (entry : TableEntry) : Tree :=
  Json.object
    [("table_id", Json.integer entry.tableId.toNat),
     ("match", .list (entry.fieldMatches.map FieldMatch.write)),
     ("action", entry.action.elim Json.null TableAction.write),
     ("priority", entry.priority.elim Json.null fun n => Json.integer n.toInt),
     ("is_default_action", Json.flag entry.isDefaultAction)]

def ProfileMember.write (member : ProfileMember) : Tree :=
  Json.object
    [("action_profile_id", Json.integer member.profileId.toNat), ("member_id", Json.integer member.memberId.toNat),
     ("action", member.action.elim Json.null ActionCall.write)]

def GroupMember.write (member : GroupMember) : Tree :=
  Json.object [("member_id", Json.integer member.memberId.toNat), ("weight", Json.integer member.weight.toInt)]

def ProfileGroup.write (group : ProfileGroup) : Tree :=
  Json.object
    [("action_profile_id", Json.integer group.profileId.toNat), ("group_id", Json.integer group.groupId.toNat),
     ("members", .list (group.members.map GroupMember.write))]

def Entity.writePayload : Entity → Tree
  | tableEntry entry => entry.write
  | profileMember member => member.write
  | profileGroup group => group.write
  | other _ => Json.null

def Entity.write (entity : Entity) : Tree := Json.object [(entity.kind, entity.writePayload)]

/-- The record with everything written out except the kinds that are not meant. -/
def Record.write (record : Record) : Tree := Json.object [("entities", .list (record.entities.map Entity.write))]

section

variable {α : Type} {form : α → Tree → Prop} {write : α → Tree}

theorem Json.isHex_encode (octets : Octets) : IsHex octets (text (Hex.encode octets)) :=
  ⟨_, Hex.spells_encode octets, rfl⟩

theorem Json.isList_map {xs : List α} (h : ∀ x ∈ xs, form x (write x)) : IsList form xs (.list (xs.map write)) :=
  ⟨_, List.forall₂_map_right_iff.mpr (List.forall₂_same.mpr h), rfl⟩

theorem Json.isOption_elim {a : Option α} (h : ∀ x ∈ a, form x (write x)) : IsOption form a (a.elim null write) := by
  cases a with
  | none => rfl
  | some x => exact h x rfl

end

theorem NamesKind.of_mem {kinds : List String} {members : List (String × Tree)} {kind : String} {tree : Tree}
    {payload : Tree → Prop} (hnodup : (members.map Prod.fst).Nodup) (hmem : (kind, tree) ∈ members)
    (hpayload : payload tree) (hothers : ∀ other ∈ kinds, other ≠ kind → other ∉ members.map Prod.fst) :
    NamesKind kinds members kind payload :=
  ⟨.of_mem hnodup hmem hpayload, fun other hother hne => .of_not_mem (hothers other hother hne) trivial⟩

theorem ParamValue.form_write (param : ParamValue) : param.Form param.write := by
  have hnodup : ["param_id", "value"].Nodup := by decide
  refine ⟨_, Json.isObject_object hnodup (by simp), ?_, ?_⟩
  · exact .of_mem hnodup (by simp) rfl
  · exact .of_mem hnodup (by simp) (Json.isHex_encode _)

theorem ActionCall.form_write (call : ActionCall) : call.Form call.write := by
  have hnodup : ["action_id", "params"].Nodup := by decide
  have hparams := Json.isList_map fun param (_ : param ∈ call.params) => param.form_write
  refine ⟨_, Json.isObject_object hnodup (by simp), ?_, ?_⟩
  · exact .of_mem hnodup (by simp) rfl
  · exact .of_mem hnodup (by simp) hparams

namespace TableAction

theorem kind_mem_kinds (action : TableAction) : action.kind ∈ kinds := by
  cases action <;> simp [kind, kinds]

theorem payload_writePayload (action : TableAction) : action.Payload action.writePayload := by
  cases action with
  | call c => exact c.form_write
  | profileMember id => rfl
  | profileGroup id => rfl

theorem form_write (action : TableAction) : action.Form action.write := by
  have hnodup : [action.kind].Nodup := List.nodup_singleton _
  exact ⟨_, Json.isObject_object hnodup (by simpa using action.kind_mem_kinds),
    .of_mem hnodup List.mem_cons_self action.payload_writePayload (by simp)⟩

end TableAction

namespace MatchValue

theorem payload_writePayload (value : MatchValue) (levels : Nat) : value.Payload levels value.writePayload := by
  have hvalue : ["value"].Nodup := List.nodup_singleton _
  cases value with
  | exact value =>
    exact ⟨_, Json.isObject_object hvalue (by simp), .of_mem hvalue (by simp) (Json.isHex_encode _)⟩
  | ternary value mask =>
    have hternary : ["value", "mask"].Nodup := by decide
    refine ⟨_, Json.isObject_object hternary (by simp), ?_, ?_⟩
    · exact .of_mem hternary (by simp) (Json.isHex_encode _)
    · exact .of_mem hternary (by simp) (Json.isHex_encode _)
  | lpm value length =>
    have hlpm : ["value", "prefix_len"].Nodup := by decide
    refine ⟨_, Json.isObject_object hlpm (by simp), ?_, ?_⟩
    · exact .of_mem hlpm (by simp) (Json.isHex_encode _)
    · exact .of_mem hlpm (by simp) rfl
  | range low high =>
    have hrange : ["low", "high"].Nodup := by decide
    refine ⟨_, Json.isObject_object hrange (by simp), ?_, ?_⟩
    · exact .of_mem hrange (by simp) (Json.isHex_encode _)
    · exact .of_mem hrange (by simp) (Json.isHex_encode _)
  | optional value =>
    have hoption := Json.isOption_elim fun octets (_ : octets ∈ value) => Json.isHex_encode octets
    exact ⟨_, Json.isObject_object hvalue (by simp), .of_mem hvalue (by simp) hoption⟩
  | unsupported kind => exact .leaf rfl

theorem KindApart.kindName_ne {value : MatchValue} (h : value.KindApart) : value.kindName ≠ "field_id" := by
  cases value with
  | unsupported kind =>
    intro heq
    exact h (heq ▸ List.mem_cons_self)
  | _ => simp [kindName]

end MatchValue

theorem FieldMatch.form_write {m : FieldMatch} (h : m.value.KindApart) (depth : Nat) : m.Form depth m.write := by
  have hnodup : ["field_id", m.value.kindName].Nodup := by simpa using h.kindName_ne.symm
  refine ⟨_, Json.isObject_object hnodup (by simp), ?_, ?_⟩
  · exact .of_mem hnodup (by simp) rfl
  · refine .of_mem hnodup (by simp) (m.value.payload_writePayload _) fun other hother hne => ?_
    have hfield : other ≠ "field_id" := by
      rintro rfl
      exact absurd hother (by decide)
    simpa using ⟨hfield, hne⟩

theorem TableEntry.form_write {entry : TableEntry} (h : ∀ m ∈ entry.fieldMatches, m.value.KindApart) (depth : Nat) :
    entry.Form depth entry.write := by
  have hnodup : ["table_id", "match", "action", "priority", "is_default_action"].Nodup := by decide
  have hmatches := Json.isList_map fun m hm => FieldMatch.form_write (h m hm) (depth + 2)
  have haction := Json.isOption_elim fun action (_ : action ∈ entry.action) => action.form_write
  have hpriority : Json.IsOption (fun n tree => tree = Json.integer n.toInt) entry.priority
      (entry.priority.elim Json.null fun n => Json.integer n.toInt) := Json.isOption_elim fun _ _ => rfl
  refine ⟨_, Json.isObject_object hnodup (by simp), ?_, ?_, ?_, ?_, ?_⟩
  · exact .of_mem hnodup (by simp) rfl
  · exact .of_mem hnodup (by simp) hmatches
  · exact .of_mem hnodup (by simp) haction
  · exact .of_mem hnodup (by simp) hpriority
  · exact .of_mem hnodup (by simp) rfl

theorem ProfileMember.form_write (member : ProfileMember) : member.Form member.write := by
  have hnodup : ["action_profile_id", "member_id", "action"].Nodup := by decide
  have haction := Json.isOption_elim fun action (_ : action ∈ member.action) => action.form_write
  refine ⟨_, Json.isObject_object hnodup (by simp), ?_, ?_, ?_⟩
  · exact .of_mem hnodup (by simp) rfl
  · exact .of_mem hnodup (by simp) rfl
  · exact .of_mem hnodup (by simp) haction

theorem GroupMember.form_write (member : GroupMember) : member.Form member.write := by
  have hnodup : ["member_id", "weight"].Nodup := by decide
  refine ⟨_, Json.isObject_object hnodup (by simp), ?_, ?_⟩
  · exact .of_mem hnodup (by simp) rfl
  · exact .of_mem hnodup (by simp) rfl

theorem ProfileGroup.form_write (group : ProfileGroup) : group.Form group.write := by
  have hnodup : ["action_profile_id", "group_id", "members"].Nodup := by decide
  have hmembers := Json.isList_map fun member (_ : member ∈ group.members) => member.form_write
  refine ⟨_, Json.isObject_object hnodup (by simp), ?_, ?_, ?_⟩
  · exact .of_mem hnodup (by simp) rfl
  · exact .of_mem hnodup (by simp) rfl
  · exact .of_mem hnodup (by simp) hmembers

namespace Entity

theorem payload_writePayload {entity : Entity} (h : entity.KindsApart) (depth : Nat) :
    entity.Payload depth entity.writePayload := by
  cases entity with
  | tableEntry entry => exact TableEntry.form_write h (depth + 1)
  | profileMember member => exact member.form_write
  | profileGroup group => exact group.form_write
  | other kind => exact .leaf rfl

theorem form_object {entity : Entity} {depth : Nat} {tree : Tree} (h : entity.Payload depth tree) :
    entity.Form depth (Json.object [(entity.kind, tree)]) := by
  have hnodup : [entity.kind].Nodup := List.nodup_singleton _
  exact ⟨_, Json.isObject_object hnodup (by simp), .of_mem hnodup List.mem_cons_self h (by simp)⟩

theorem form_write {entity : Entity} (h : entity.KindsApart) (depth : Nat) : entity.Form depth entity.write :=
  form_object (payload_writePayload h depth)

end Entity

theorem Record.form_write {record : Record} (h : record.KindsApart) : record.Form record.write := by
  have hnodup : ["entities"].Nodup := List.nodup_singleton _
  have hentities := Json.isList_map fun entity hentity => Entity.form_write (h entity hentity) 3
  exact ⟨_, Json.isObject_object hnodup (by simp), .of_mem hnodup (by simp) hentities⟩

end MatchAction
