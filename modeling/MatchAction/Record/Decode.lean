/-
  MatchAction.Record.Decode — records, read off a tree.

  An entity is a record with one member that names its kind, a field match one with a
  member that names the kind of match. When several known kinds are given, or one is given
  as nothing, the first that is there in a fixed order counts; when none is, the least of
  the unknown names does. A table action names exactly one action. What may be left out has
  a default, and an empty record is a record.

  Entities and field matches keep what they do not know, so readers of values around them
  carry along how deep they are.
-/

import MatchAction.Document.Decode
import MatchAction.Record.Basic

namespace MatchAction

namespace Record.Decode

/-- The least name, by code points. -/
def leastName? : List String → Option String
  | [] => none
  | name :: names => some (names.foldl (fun least n => if compare n least = .lt then n else least) name)

/-! ## Payloads of field matches -/

structure BytesDraft where
  value : Option Octets := none

def exactLayout : Layout BytesDraft where
  slots := [.of "value" Tree.readHex (·.value) fun a d => { d with value := some a }]

def readExact (dialect : Dialect) (tree : Tree) : Reading MatchValue := do
  let draft ← exactLayout.read dialect {} tree
  return .exact (← require "value" draft.value)

structure PairDraft where
  first : Option Octets := none
  second : Option Octets := none

def pairLayout (first second : String) : Layout PairDraft where
  slots :=
    [.of first Tree.readHex (·.first) fun a d => { d with first := some a },
     .of second Tree.readHex (·.second) fun a d => { d with second := some a }]

def readTernary (dialect : Dialect) (tree : Tree) : Reading MatchValue := do
  let draft ← (pairLayout "value" "mask").read dialect {} tree
  return .ternary (← require "value" draft.first) (← require "mask" draft.second)

def readRange (dialect : Dialect) (tree : Tree) : Reading MatchValue := do
  let draft ← (pairLayout "low" "high").read dialect {} tree
  return .range (← require "low" draft.first) (← require "high" draft.second)

structure LpmDraft where
  value : Option Octets := none
  length : Option UInt32 := none

def lpmLayout : Layout LpmDraft where
  slots :=
    [.of "value" Tree.readHex (·.value) fun a d => { d with value := some a },
     .of "prefix_len" Tree.readUInt32 (·.length) fun a d => { d with length := some a }]

def readLpm (dialect : Dialect) (tree : Tree) : Reading MatchValue := do
  let draft ← lpmLayout.read dialect {} tree
  return .lpm (← require "value" draft.value) (← require "prefix_len" draft.length)

structure OptionalDraft where
  value : Option (Option Octets) := none

def optionalLayout : Layout OptionalDraft where
  slots := [.of "value" (Tree.readOption Tree.readHex) (·.value) fun a d => { d with value := some a }]

def readOptional (dialect : Dialect) (tree : Tree) : Reading MatchValue := do
  let draft ← optionalLayout.read dialect {} tree
  return .optional (draft.value.getD none)

/-! ## Field matches -/

structure FieldMatchDraft where
  fieldId : Option UInt32 := none
  exact : Option (Option MatchValue) := none
  ternary : Option (Option MatchValue) := none
  lpm : Option (Option MatchValue) := none
  range : Option (Option MatchValue) := none
  optional : Option (Option MatchValue) := none
  others : List String := []

def fieldMatchLayout (dialect : Dialect) (depth : Nat) : Layout FieldMatchDraft where
  slots :=
    [.of "field_id" Tree.readUInt32 (·.fieldId) fun a d => { d with fieldId := some a },
     .of "exact" (Tree.readOption (readExact dialect)) (·.exact) fun a d => { d with exact := some a },
     .of "ternary" (Tree.readOption (readTernary dialect)) (·.ternary) fun a d => { d with ternary := some a },
     .of "lpm" (Tree.readOption (readLpm dialect)) (·.lpm) fun a d => { d with lpm := some a },
     .of "range" (Tree.readOption (readRange dialect)) (·.range) fun a d => { d with range := some a },
     .of "optional" (Tree.readOption (readOptional dialect)) (·.optional) fun a d => { d with optional := some a }]
  others := .keep (dialect.maxDepth - depth) fun name d => { d with others := name :: d.others }

/-- The first kind that is set, or else the least unknown one. -/
def FieldMatchDraft.matchValue (draft : FieldMatchDraft) : MatchValue :=
  let set := [draft.exact, draft.ternary, draft.lpm, draft.range, draft.optional].filterMap (·.getD none)
  set.head?.getD (.unsupported ((leastName? draft.others).getD "unset"))

/-- Reads a field match that is `depth` levels deep, itself included. -/
def readFieldMatch (dialect : Dialect) (depth : Nat) (tree : Tree) : Reading FieldMatch := do
  let draft ← (fieldMatchLayout dialect depth).read dialect {} tree
  return ⟨← require "field_id" draft.fieldId, draft.matchValue⟩

/-! ## Actions -/

structure ParamDraft where
  paramId : Option UInt32 := none
  value : Option Octets := none

def paramLayout : Layout ParamDraft where
  slots :=
    [.of "param_id" Tree.readUInt32 (·.paramId) fun a d => { d with paramId := some a },
     .of "value" Tree.readHex (·.value) fun a d => { d with value := some a }]

def readParam (dialect : Dialect) (tree : Tree) : Reading ParamValue := do
  let draft ← paramLayout.read dialect {} tree
  return ⟨← require "param_id" draft.paramId, ← require "value" draft.value⟩

structure CallDraft where
  actionId : Option UInt32 := none
  params : Option (List ParamValue) := none

def callLayout (dialect : Dialect) : Layout CallDraft where
  slots :=
    [.of "action_id" Tree.readUInt32 (·.actionId) fun a d => { d with actionId := some a },
     .of "params" (Tree.readList (readParam dialect)) (·.params) fun a d => { d with params := some a }]

def readCall (dialect : Dialect) (tree : Tree) : Reading ActionCall := do
  let draft ← (callLayout dialect).read dialect {} tree
  return ⟨← require "action_id" draft.actionId, draft.params.getD []⟩

structure TableActionDraft where
  call : Option (Option ActionCall) := none
  member : Option (Option UInt32) := none
  group : Option (Option UInt32) := none

def tableActionLayout (dialect : Dialect) : Layout TableActionDraft where
  slots :=
    [.of "action" (Tree.readOption (readCall dialect)) (·.call) fun a d => { d with call := some a },
     .of "action_profile_member_id" (Tree.readOption Tree.readUInt32) (·.member)
       fun a d => { d with member := some a },
     .of "action_profile_group_id" (Tree.readOption Tree.readUInt32) (·.group)
       fun a d => { d with group := some a }]
  others := .refuse

/-- The action that the draft names, if it names one and no other. -/
def TableActionDraft.tableAction (draft : TableActionDraft) : Except Flaw TableAction :=
  match draft.call.getD none, draft.member.getD none, draft.group.getD none with
  | some call, none, none => .ok (.call call)
  | none, some id, none => .ok (.profileMember id)
  | none, none, some id => .ok (.profileGroup id)
  | none, none, none => .error .noAction
  | _, _, _ => .error .severalActions

def readTableActionDraft (dialect : Dialect) (tree : Tree) : Reading TableActionDraft :=
  (tableActionLayout dialect).read dialect {} tree

def readTableAction (dialect : Dialect) (tree : Tree) : Reading TableAction := do
  .ofExcept (← readTableActionDraft dialect tree).tableAction

/-! ## Entities -/

structure TableEntryDraft where
  tableId : Option UInt32 := none
  fieldMatches : Option (List FieldMatch) := none
  action : Option (Option TableAction) := none
  priority : Option (Option Int32) := none
  isDefaultAction : Option Bool := none

def tableEntryLayout (dialect : Dialect) (depth : Nat) : Layout TableEntryDraft where
  slots :=
    [.of "table_id" Tree.readUInt32 (·.tableId) fun a d => { d with tableId := some a },
     .of "match" (Tree.readList (readFieldMatch dialect (depth + 2))) (·.fieldMatches)
       fun a d => { d with fieldMatches := some a },
     .of "action" (Tree.readOption (readTableAction dialect)) (·.action) fun a d => { d with action := some a },
     .of "priority" (Tree.readOption Tree.readInt32) (·.priority) fun a d => { d with priority := some a },
     .of "is_default_action" Tree.readFlag (·.isDefaultAction) fun a d => { d with isDefaultAction := some a }]

def readTableEntry (dialect : Dialect) (depth : Nat) (tree : Tree) : Reading TableEntry := do
  let draft ← (tableEntryLayout dialect depth).read dialect {} tree
  return { tableId := ← require "table_id" draft.tableId
           fieldMatches := draft.fieldMatches.getD []
           action := draft.action.getD none
           priority := draft.priority.getD none
           isDefaultAction := draft.isDefaultAction.getD false }

structure ProfileMemberDraft where
  profileId : Option UInt32 := none
  memberId : Option UInt32 := none
  action : Option (Option ActionCall) := none

def profileMemberLayout (dialect : Dialect) : Layout ProfileMemberDraft where
  slots :=
    [.of "action_profile_id" Tree.readUInt32 (·.profileId) fun a d => { d with profileId := some a },
     .of "member_id" Tree.readUInt32 (·.memberId) fun a d => { d with memberId := some a },
     .of "action" (Tree.readOption (readCall dialect)) (·.action) fun a d => { d with action := some a }]

def readProfileMember (dialect : Dialect) (tree : Tree) : Reading ProfileMember := do
  let draft ← (profileMemberLayout dialect).read dialect {} tree
  return ⟨← require "action_profile_id" draft.profileId, ← require "member_id" draft.memberId,
    draft.action.getD none⟩

structure GroupMemberDraft where
  memberId : Option UInt32 := none
  weight : Option Int32 := none

def groupMemberLayout : Layout GroupMemberDraft where
  slots :=
    [.of "member_id" Tree.readUInt32 (·.memberId) fun a d => { d with memberId := some a },
     .of "weight" Tree.readInt32 (·.weight) fun a d => { d with weight := some a }]

def readGroupMember (dialect : Dialect) (tree : Tree) : Reading GroupMember := do
  let draft ← groupMemberLayout.read dialect {} tree
  return ⟨← require "member_id" draft.memberId, draft.weight.getD 0⟩

structure ProfileGroupDraft where
  profileId : Option UInt32 := none
  groupId : Option UInt32 := none
  members : Option (List GroupMember) := none

def profileGroupLayout (dialect : Dialect) : Layout ProfileGroupDraft where
  slots :=
    [.of "action_profile_id" Tree.readUInt32 (·.profileId) fun a d => { d with profileId := some a },
     .of "group_id" Tree.readUInt32 (·.groupId) fun a d => { d with groupId := some a },
     .of "members" (Tree.readList (readGroupMember dialect)) (·.members) fun a d => { d with members := some a }]

def readProfileGroup (dialect : Dialect) (tree : Tree) : Reading ProfileGroup := do
  let draft ← (profileGroupLayout dialect).read dialect {} tree
  return ⟨← require "action_profile_id" draft.profileId, ← require "group_id" draft.groupId,
    draft.members.getD []⟩

structure EntityDraft where
  tableEntry : Option (Option TableEntry) := none
  profileMember : Option (Option ProfileMember) := none
  profileGroup : Option (Option ProfileGroup) := none
  others : List String := []

def entityLayout (dialect : Dialect) (depth : Nat) : Layout EntityDraft where
  slots :=
    [.of "table_entry" (Tree.readOption (readTableEntry dialect (depth + 1))) (·.tableEntry)
       fun a d => { d with tableEntry := some a },
     .of "action_profile_member" (Tree.readOption (readProfileMember dialect)) (·.profileMember)
       fun a d => { d with profileMember := some a },
     .of "action_profile_group" (Tree.readOption (readProfileGroup dialect)) (·.profileGroup)
       fun a d => { d with profileGroup := some a }]
  others := .keep (dialect.maxDepth - depth) fun name d => { d with others := name :: d.others }

def EntityDraft.entity (draft : EntityDraft) : Entity :=
  match draft.tableEntry.getD none, draft.profileMember.getD none, draft.profileGroup.getD none with
  | some entry, _, _ => .tableEntry entry
  | none, some member, _ => .profileMember member
  | none, none, some group => .profileGroup group
  | none, none, none => .other ((leastName? draft.others).getD "empty")

def readEntity (dialect : Dialect) (depth : Nat) (tree : Tree) : Reading Entity := do
  return (← (entityLayout dialect depth).read dialect {} tree).entity

structure RecordDraft where
  entities : Option (List Entity) := none

def recordLayout (dialect : Dialect) : Layout RecordDraft where
  slots :=
    [.of "entities" (Tree.readList (readEntity dialect 3)) (·.entities) fun a d => { d with entities := some a }]

def readRecord (dialect : Dialect) (tree : Tree) : Reading Record := do
  let draft ← (recordLayout dialect).read dialect {} tree
  return ⟨draft.entities.getD []⟩

end Record.Decode

end MatchAction
