/-
  MatchAction.Proofs.Document.Json — what the readers make of the values of JSON.

  A text of JSON has no aliases, so reading a value of it neither counts nor fails for their
  sake: a reader that succeeds is the pure computation of its result, and readers of larger
  values are put together from equations for their parts.

  Proved:
  - `eq_of_same`: values that pass a comparison that can be run are the same.
  - `readUInt32_integer`, `readInt32_integer`, `readHex_isHex` and so on: each leaf is read as
    what is written there.
  - `readList_isList`, `readOption_isOption`: lists and values that may be null.
  - `keep_of_value`: any value is kept that is not nested too deeply.
-/

import Mathlib.Data.List.Forall2
import MatchAction.Document.Json.Reader
import MatchAction.Proofs.Octets

namespace MatchAction

/-! ## Values -/

namespace Json

def text (s : String) : Tree := .scalar (textScalar (some s))

def integer (n : Int) : Tree := .scalar { natural? := n.toNat?, integer? := some n }

def flag (b : Bool) : Tree := .scalar (flagScalar b)

def null : Tree := .scalar nullScalar

def object (members : List (String × Tree)) : Tree := .record (members.map fun m => (text m.1, m.2))

/-- Any value of JSON, with at most so many lists and objects around its leaves. -/
inductive Value : (levels : Nat) → Tree → Prop
  | leaf {levels : Nat} {readings : Scalar} : readings.hasValue = true → Value levels (.scalar readings)
  | list {levels : Nat} {items : List Tree} : (∀ item ∈ items, Value levels item) → Value (levels + 1) (.list items)
  | object {levels : Nat} {members : List (String × Tree)} : (∀ m ∈ members, Value levels m.2) →
      Value (levels + 1) (object members)

def IsHex (octets : Octets) (tree : Tree) : Prop := ∃ s, Hex.Spells s octets ∧ tree = text s

def IsList {α : Type} (form : α → Tree → Prop) (xs : List α) (tree : Tree) : Prop :=
  ∃ items, List.Forall₂ form xs items ∧ tree = .list items

def IsOption {α : Type} (form : α → Tree → Prop) : Option α → Tree → Prop
  | none, tree => tree = null
  | some a, tree => form a tree

def IsPresent : Tree → Prop
  | .scalar readings => readings.presence = .present
  | .record _ => True
  | _ => False

theorem isPresent_integer (n : Int) : IsPresent (integer n) := rfl

theorem IsHex.isPresent {octets : Octets} {tree : Tree} (h : IsHex octets tree) : IsPresent tree := by
  obtain ⟨s, -, rfl⟩ := h
  rfl

end Json

/-! ## Comparing them -/

namespace Tree

mutual

def same : Tree → Tree → Bool
  | scalar readings, scalar others => readings == others
  | list items, list others => sameItems items others
  | record members, record others => sameMembers members others
  | _, _ => false

def sameItems : List Tree → List Tree → Bool
  | [], [] => true
  | item :: rest, other :: others => item.same other && sameItems rest others
  | _, _ => false

def sameMembers : List (Tree × Tree) → List (Tree × Tree) → Bool
  | [], [] => true
  | (key, value) :: rest, (otherKey, other) :: others =>
    key.same otherKey && value.same other && sameMembers rest others
  | _, _ => false

end

mutual

theorem eq_of_same {a b : Tree} (h : a.same b = true) : a = b := by
  cases a <;> cases b <;> simp only [same, beq_iff_eq, Bool.false_eq_true] at h
  case scalar => rw [h]
  case list => rw [eq_of_sameItems h]
  case record => rw [eq_of_sameMembers h]

theorem eq_of_sameItems {items others : List Tree} (h : sameItems items others = true) : items = others := by
  cases items <;> cases others <;> simp only [sameItems, Bool.and_eq_true, Bool.false_eq_true] at h
  case nil => rfl
  case cons => rw [eq_of_same h.1, eq_of_sameItems h.2]

theorem eq_of_sameMembers {members others : List (Tree × Tree)} (h : sameMembers members others = true) :
    members = others := by
  cases members <;> cases others <;> simp only [sameMembers, Bool.and_eq_true, Bool.false_eq_true] at h
  case nil => rfl
  case cons => rw [Prod.ext (eq_of_same h.1.1) (eq_of_same h.1.2), eq_of_sameMembers h.2]

end

end Tree

/-! ## Reading them -/

theorem Reading.pure_inj {α : Type} {a b : α} (h : (pure a : Reading α) = pure b) : a = b := by
  have hrun : Except.ok (a, 0) = (Except.ok (b, 0) : Except Flaw (α × Nat)) :=
    congrArg (fun read : Reading α => read.run 0) h
  cases hrun
  rfl

namespace Tree

variable {α : Type} {read : Tree → Reading α} {tree : Tree}

theorem readText_text (s : String) : (Json.text s).readText = pure s := rfl

theorem readFlag_flag (b : Bool) : (Json.flag b).readFlag = pure b := rfl

theorem readUInt32_integer (n : UInt32) : (Json.integer n.toNat).readUInt32 = pure n := by
  have hsize : n.toNat < UInt32.size := n.toNat_lt
  show (if n.toNat < UInt32.size then pure (.ofNat n.toNat) else throw .notNumber : Reading UInt32) = pure n
  rw [if_pos hsize, UInt32.ofNat_toNat]

theorem readInt32_integer (n : Int32) : (Json.integer n.toInt).readInt32 = pure n := by
  show (if Int32.minValue.toInt ≤ n.toInt ∧ n.toInt ≤ Int32.maxValue.toInt then pure (.ofInt n.toInt)
    else throw .notNumber : Reading Int32) = pure n
  rw [if_pos ⟨Int32.minValue_le_toInt n, Int32.toInt_le n⟩, Int32.ofInt_toInt]

theorem readHex_isHex {octets : Octets} (h : Json.IsHex octets tree) : tree.readHex = pure octets := by
  obtain ⟨s, hspells, rfl⟩ := h
  rw [readHex, readText_text, pure_bind, hspells.decode_eq]

theorem readList_isList {form : α → Tree → Prop} {xs : List α} (h : Json.IsList form xs tree)
    (hread : ∀ x ∈ xs, ∀ item, form x item → read item = pure x) : tree.readList read = pure xs := by
  obtain ⟨items, hitems, rfl⟩ := h
  show items.mapM read = pure xs
  induction hitems with
  | nil => rfl
  | cons hx hrest ih =>
    obtain ⟨hhead, htail⟩ := List.forall_mem_cons.mp hread
    rw [List.mapM_cons, hhead _ hx, pure_bind, ih htail, pure_bind]

theorem readOption_null : Json.null.readOption read = pure none := rfl

theorem readOption_some {a : α} (hpresent : Json.IsPresent tree) (hread : read tree = pure a) :
    tree.readOption read = pure (some a) := by
  have hsome : tree.readOption read = some <$> read tree := by
    cases tree with
    | scalar readings =>
      obtain ⟨text, natural, integer, flag, presence, isBlank, isUnit, hasValue⟩ := readings
      obtain rfl : presence = .present := hpresent
      rfl
    | record members => rfl
    | list items => cases hpresent
    | tagged tag body => cases hpresent
    | shared target => cases hpresent
    | unreadable => cases hpresent
  rw [hsome, hread, map_pure]

theorem readOption_isOption {form : α → Tree → Prop} {a : Option α} (h : Json.IsOption form a tree)
    (hpresent : ∀ x t, form x t → Json.IsPresent t) (hread : ∀ x ∈ a, ∀ t, form x t → read t = pure x) :
    tree.readOption read = pure a := by
  cases a with
  | none =>
    obtain rfl : tree = Json.null := h
    exact readOption_null
  | some x => exact readOption_some (hpresent x tree h) (hread x rfl tree h)

theorem keepItems_eq {levels : Nat} {items : List Tree} (h : ∀ item ∈ items, item.keep levels = pure ()) :
    keepItems levels items = pure () := by
  induction items with
  | nil => rfl
  | cons item rest ih =>
    obtain ⟨hitem, hrest⟩ := List.forall_mem_cons.mp h
    rw [keepItems, hitem, pure_bind, ih hrest]

theorem keepMembers_eq {levels : Nat} {members : List (String × Tree)}
    (h : ∀ m ∈ members, m.2.keep levels = pure ()) :
    keepMembers levels (members.map fun m => (Json.text m.1, m.2)) = pure () := by
  induction members with
  | nil => rfl
  | cons m rest ih =>
    obtain ⟨hm, hrest⟩ := List.forall_mem_cons.mp h
    have hkey : (Json.text m.1).keep levels = pure () := rfl
    rw [List.map_cons, keepMembers, hkey, pure_bind, hm, pure_bind, ih hrest]

theorem keep_of_value {levels : Nat} (h : Json.Value levels tree) : tree.keep levels = pure () := by
  induction h with
  | leaf hvalue => rw [keep, if_pos hvalue]
  | list hitems ih =>
    rw [keep, if_neg (Nat.succ_ne_zero _), Nat.add_sub_cancel]
    exact keepItems_eq ih
  | object hmembers ih =>
    rw [Json.object, keep, if_neg (Nat.succ_ne_zero _), Nat.add_sub_cancel]
    exact keepMembers_eq ih

end Tree

end MatchAction
