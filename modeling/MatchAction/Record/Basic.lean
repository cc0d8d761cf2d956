/-
  MatchAction.Record.Basic — configuration records as they are sent at run time.

  A record lists entities. Table entries configure tables; members and groups of action
  profiles are recognised and carry nothing further; an entity of another kind keeps the
  name of its kind. Tables, fields, actions and parameters are named by 32-bit numbers and
  values are byte strings.
-/

import MatchAction.Octets

namespace MatchAction

inductive MatchValue where
  | exact (value : Octets)
  | ternary (value mask : Octets)
  | lpm (value : Octets) (length : UInt32)
  | range (low high : Octets)
  /-- No value: the field is not matched. -/
  | optional (value : Option Octets)
  /-- A kind of match that has no meaning here. -/
  | unsupported (kind : String)
  deriving DecidableEq, Repr

def MatchValue.kindName : MatchValue → String
  | exact _ => "exact"
  | ternary _ _ => "ternary"
  | lpm _ _ => "lpm"
  | range _ _ => "range"
  | optional _ => "optional"
  | unsupported kind => kind

structure FieldMatch where
  fieldId : UInt32
  value : MatchValue
  deriving DecidableEq, Repr

structure ParamValue where
  paramId : UInt32
  value : Octets
  deriving DecidableEq, Repr

structure ActionCall where
  actionId : UInt32
  params : List ParamValue := []
  deriving DecidableEq, Repr

inductive TableAction where
  | call (call : ActionCall)
  | profileMember (id : UInt32)
  | profileGroup (id : UInt32)
  deriving DecidableEq, Repr

structure TableEntry where
  tableId : UInt32
  fieldMatches : List FieldMatch := []
  action : Option TableAction := none
  priority : Option Int32 := none
  /-- The entry sets the default action and matches nothing. -/
  isDefaultAction : Bool := false
  deriving DecidableEq, Repr

structure ProfileMember where
  profileId : UInt32
  memberId : UInt32
  action : Option ActionCall := none
  deriving DecidableEq, Repr

structure GroupMember where
  memberId : UInt32
  weight : Int32 := 0
  deriving DecidableEq, Repr

structure ProfileGroup where
  profileId : UInt32
  groupId : UInt32
  members : List GroupMember := []
  deriving DecidableEq, Repr

inductive Entity where
  | tableEntry (entry : TableEntry)
  | profileMember (member : ProfileMember)
  | profileGroup (group : ProfileGroup)
  | other (kind : String)
  deriving DecidableEq, Repr

def Entity.kind : Entity → String
  | tableEntry _ => "table_entry"
  | profileMember _ => "action_profile_member"
  | profileGroup _ => "action_profile_group"
  | other kind => kind

structure Record where
  entities : List Entity := []
  deriving DecidableEq, Repr

end MatchAction
