/-
  MatchAction.Proofs.KeySet — which predicates of an entry its rule keeps.

  An entry, embedded or sent, puts predicates on the keys of its table one by one, but the
  rule holds them by field name: the given name of a key, or else its text. Nothing keeps
  two keys of a table from having the same name. Then the predicate of the later key takes
  the place of the earlier one, and nothing is reported.

  Proved:
  - `addKeys_eq`, `rule_keySet`: the key set of an embedded entry is the map of the
    predicates that `keyPredicates` lists, as it is for an entry of a record.
  - `Accepted.condition_keeps_last`: the condition of an accepted entry is true exactly when
    the last predicate of every name is; where the names are different, exactly when all
    predicates are.
  - `shared_name_loses_key`: with two keys of one name the condition can be true where a
    predicate is false.
-/

import MatchAction.Embedded.Seed
import MatchAction.Proofs.Record.Conversion
import MatchAction.Proofs.Term.Decides

namespace MatchAction

/-! ## The keys of an embedded entry -/

namespace EmbeddedEntry

/-- The predicate of every key that is matched, by field name and in the order of the keys. -/
def keyPredicates (target : Target) : List Key → List EmbeddedKey → Except Fault (List (String × Term))
  | key :: keys, embedded :: rest => do
    let predicate ← target.embeddedPredicate? key embedded
    return (predicate.map fun e => (key.fieldName, e)).toList ++ (← keyPredicates target keys rest)
  | _, _ => return []

variable {target : Target} {table : Table} {program : Program} {entry : EmbeddedEntry} {rule : Rule}

theorem addKeys_eq (target : Target) (keySet : KeySet) (keys : List Key) (embedded : List EmbeddedKey) :
    addKeys target keySet keys embedded =
      (keyPredicates target keys embedded).map (·.foldl (fun keys e => keys.insert e.1 e.2) keySet) := by
  induction keys generalizing keySet embedded with
  | nil => rfl
  | cons key keys ih =>
    cases embedded with
    | nil => rfl
    | cons value rest =>
      rw [addKeys, keyPredicates]
      cases target.embeddedPredicate? key value with
      | error fault => rfl
      | ok predicate =>
        cases predicate with
        | none =>
          refine (ih keySet rest).trans ?_
          cases keyPredicates target keys rest <;> rfl
        | some e =>
          refine (ih (keySet.insert key.fieldName e) rest).trans ?_
          cases keyPredicates target keys rest <;> rfl

/-- Every predicate is of some key. -/
theorem exists_key_of_mem {keys : List Key} {embedded : List EmbeddedKey} {predicates : List (String × Term)}
    (h : keyPredicates target keys embedded = .ok predicates) {field : String} {e : Term}
    (he : (field, e) ∈ predicates) : ∃ key ∈ keys, ∃ value, target.embeddedPredicate? key value = .ok (some e) := by
  induction keys generalizing embedded predicates with
  | nil =>
    obtain rfl := pure_eq_ok.mp h
    cases he
  | cons key keys ih =>
    cases embedded with
    | nil =>
      obtain rfl := pure_eq_ok.mp h
      cases he
    | cons value rest =>
      simp only [keyPredicates, bind_eq_ok, pure_eq_ok] at h
      obtain ⟨predicate, hp, others, hothers, rfl⟩ := h
      rcases List.mem_append.mp he with he | he
      · cases predicate with
        | none => cases he
        | some e' =>
          obtain ⟨rfl, rfl⟩ := Prod.mk.inj (List.mem_singleton.mp he)
          exact ⟨key, List.mem_cons_self .., value, hp⟩
      · obtain ⟨key', hkey', value', hvalue'⟩ := ih hothers he
        exact ⟨key', List.mem_cons_of_mem _ hkey', value', hvalue'⟩

/-- What has been converted for the rule of an embedded entry. -/
theorem rule_keySet (h : entry.rule target table program = .ok rule) :
    ∃ predicates, keyPredicates target table.keys entry.keys = .ok predicates ∧
      rule.keySet = SortedMap.ofList predicates ∧ entry.action.bind table program = .ok rule.action := by
  unfold EmbeddedEntry.rule at h
  split at h
  · cases h
  · simp only [bind_eq_ok, pure_eq_ok, addKeys_eq] at h
    obtain ⟨keySet, hkeys, action, haction, rfl⟩ := h
    cases hp : keyPredicates target table.keys entry.keys with
    | error fault => rw [hp] at hkeys; cases hkeys
    | ok predicates =>
      rw [hp] at hkeys
      exact ⟨predicates, rfl, (Except.ok.inj hkeys).symm, haction⟩

end EmbeddedEntry

/-! ## The condition of a rule -/

variable {env : Assignment} {rule : Rule} {predicates : List (String × Term)}

def LastHold (env : Assignment) (predicates : List (String × Term)) : Prop :=
  ∀ field e, SortedMap.IsLast predicates field e → e.Holds env

theorem lastHold_iff_of_nodup (h : (predicates.map (·.1)).Nodup) :
    LastHold env predicates ↔ ∀ p ∈ predicates, p.2.Holds env := by
  simp only [LastHold, SortedMap.isLast_iff_mem h, Prod.forall]

theorem Rule.decides_lastHold (hkeys : rule.keySet = SortedMap.ofList predicates)
    (h : ∀ p ∈ predicates, ∃ b, p.2.evalBool env = .ok b) : rule.condition.Decides env (LastHold env predicates) := by
  have hvalues : ∀ e, e ∈ rule.keySet.values ↔ ∃ field, SortedMap.IsLast predicates field e := fun e => by
    rw [hkeys, SortedMap.mem_values]
    simp only [SortedMap.get?_ofList]
  refine (Term.Decides.all (P := Term.Holds env) fun e he => Term.decides_holds ?_).congr ?_
  · obtain ⟨field, hlast⟩ := (hvalues e).mp he
    exact h (field, e) hlast.mem
  · simp only [hvalues, LastHold]
    constructor
    · intro hall field e he
      exact hall e ⟨field, he⟩
    · rintro hall e ⟨field, he⟩
      exact hall field e he

/-- An entry for the table, embedded or of a record, that was accepted with the rule, and the
    predicates that were produced for it key by key. -/
inductive Accepted (table : Table) : Except Fault (List (String × Term)) → Rule → Prop
  | embedded {target : Target} {program : Program} {entry : EmbeddedEntry} {rule : Rule} :
      entry.rule target table program = .ok rule →
      Accepted table (EmbeddedEntry.keyPredicates target table.keys entry.keys) rule
  | sent {catalog : Catalog} {entry : TableEntry} {rule : Rule} : catalog.table? entry.tableId = some table →
      (entry.convert catalog).1 = some (.addRule table.name rule) →
      Accepted table (TableEntry.keyPredicates table entry.fieldMatches) rule

namespace Accepted

variable {table : Table} {produced : Except Fault (List (String × Term))}

theorem keySet_eq (h : Accepted table produced rule) :
    ∃ predicates, produced = .ok predicates ∧ rule.keySet = SortedMap.ofList predicates := by
  cases h with
  | embedded hrule =>
    obtain ⟨predicates, hp, hkeys, -⟩ := EmbeddedEntry.rule_keySet hrule
    exact ⟨predicates, hp, hkeys⟩
  | sent ht hconvert =>
    obtain ⟨-, predicates, hp, hkeys⟩ := TableEntry.keySet_of_convert ht hconvert
    exact ⟨predicates, hp, hkeys⟩

/-- Where all predicates of an accepted entry evaluate, so does its condition. It is true exactly
    when the last predicate of every name is true; only where the names are different does it
    ask for all of them. -/
theorem condition_keeps_last (h : Accepted table produced rule) :
    ∃ predicates, produced = .ok predicates ∧
      ∀ env, (∀ p ∈ predicates, ∃ b, p.2.evalBool env = .ok b) →
        ∃ b, rule.condition.evalBool env = .ok b ∧ (b = true ↔ LastHold env predicates) ∧
          ((predicates.map (·.1)).Nodup → (b = true ↔ ∀ p ∈ predicates, p.2.Holds env)) := by
  obtain ⟨predicates, hp, hkeys⟩ := h.keySet_eq
  refine ⟨predicates, hp, fun env heval => ?_⟩
  obtain ⟨b, hb, hiff⟩ := Rule.decides_lastHold hkeys heval
  exact ⟨b, hb, hiff, fun hnodup => hiff.trans (lastHold_iff_of_nodup hnodup)⟩

def pairTable : Table where
  name := "pair"
  keys := [⟨.field "eth.src" (.bits 8), "exact", some "addr"⟩, ⟨.field "eth.dst" (.bits 8), "exact", some "addr"⟩]
  actions := ["drop"]

def pairProgram : Program where
  tables := [pairTable]
  actions := [⟨"drop", []⟩]

def embeddedPair : EmbeddedEntry where
  keys := [.value 1, .value 2]
  action := ⟨"drop", []⟩

def sentPair : TableEntry where
  tableId := 1
  fieldMatches := [⟨1, .exact [1]⟩, ⟨2, .exact [2]⟩]
  action := some (.call ⟨7, []⟩)

def pairPredicates : List (String × Term) :=
  [("addr", Predicate.exact (.field "eth.src" (.bits 8)) (.bits 8) 1),
    ("addr", Predicate.exact (.field "eth.dst" (.bits 8)) (.bits 8) 2)]

def pairRule : Rule where
  keySet := .ofList pairPredicates
  action := .direct "drop" 0 []

def pairPacket (src dst : Nat) : Assignment :=
  (Assignment.empty.setField "eth.src" (.bits src)).setField "eth.dst" (.bits dst)

theorem pairPredicates_settled (src dst : Nat) :
    ∀ p ∈ pairPredicates, ∃ b, p.2.evalBool (pairPacket src dst) = .ok b :=
  List.forall_mem_cons.mpr ⟨⟨_, rfl⟩, List.forall_mem_singleton.mpr ⟨_, rfl⟩⟩

theorem condition_keeps_last_pair :
    Accepted pairTable (EmbeddedEntry.keyPredicates .core pairTable.keys embeddedPair.keys) pairRule ∧
      pairRule.condition.evalBool (pairPacket 1 2) = .ok true ∧ LastHold (pairPacket 1 2) pairPredicates := by
  have hrule : embeddedPair.rule .core pairTable pairProgram = .ok pairRule := by rfl
  have haccepted : Accepted pairTable (EmbeddedEntry.keyPredicates .core pairTable.keys embeddedPair.keys) pairRule :=
    .embedded hrule
  have htrue : pairRule.condition.evalBool (pairPacket 1 2) = .ok true := by rfl
  obtain ⟨predicates, hp, hall⟩ := condition_keeps_last haccepted
  obtain rfl : pairPredicates = predicates := Except.ok.inj hp
  obtain ⟨b, hb, hiff, -⟩ := hall _ (pairPredicates_settled 1 2)
  obtain rfl : true = b := by rw [htrue] at hb; exact Except.ok.inj hb
  exact ⟨haccepted, htrue, hiff.mp rfl⟩

/-- The entry asks for packets from 1 to 2, and however it is given, its condition is also true for
    a packet from 9: the predicate on the source is gone. -/
theorem shared_name_loses_key :
    (embeddedPair.rule .core pairTable pairProgram = .ok pairRule ∧
      embeddedPair.rule .v1model pairTable pairProgram = .ok pairRule ∧
      (sentPair.convert (.ofProgram pairProgram [(1, "pair")] [(7, "drop")])).1 = some (.addRule "pair" pairRule)) ∧
    (EmbeddedEntry.keyPredicates .core pairTable.keys embeddedPair.keys = .ok pairPredicates ∧
      EmbeddedEntry.keyPredicates .v1model pairTable.keys embeddedPair.keys = .ok pairPredicates ∧
      TableEntry.keyPredicates pairTable sentPair.fieldMatches = .ok pairPredicates) ∧
    (∀ p ∈ pairPredicates, ∃ b, p.2.evalBool (pairPacket 9 2) = .ok b) ∧
    pairRule.condition.evalBool (pairPacket 9 2) = .ok true ∧ ¬∀ p ∈ pairPredicates, p.2.Holds (pairPacket 9 2) := by
  refine ⟨⟨rfl, rfl, rfl⟩, ⟨rfl, rfl, rfl⟩, pairPredicates_settled 9 2, rfl, fun hall => ?_⟩
  have hsrc : (Except.ok false : Except EvalError Bool) = .ok true := (List.forall_mem_cons.mp hall).1
  cases hsrc

end Accepted

end MatchAction
