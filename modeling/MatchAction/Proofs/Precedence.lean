/-
  MatchAction.Proofs.Precedence — what a program embeds comes before what any record says.

  A conversion starts with the entries that the program embeds, and what a record asks for is
  merged after them. So in whatever a record leaves, the rules of a table start with the
  embedded ones, and a packet that one of those matches is treated as the first of them says.
  Neither an entry that is sent, nor a default action, nor a reference into an action profile
  has a part in it.

  Proved:
  - `run_continues`: after every conversion a table continues what the program embeds for it.
  - `seed_formula`: the predicates of the embedded rules are well-typed and boolean.
  - `embedded_entries_take_precedence`: for a packet that an embedded entry matches, the
    constraint of the table is as true after one record as after another and after none.
-/

import MatchAction.Proofs.Embedded.Seed
import MatchAction.Proofs.Run
import MatchAction.Proofs.Store.Precedence

namespace MatchAction

variable {program : Program} {catalog : Catalog} {name : String} {seeded config : Config} {env : Assignment}

theorem Target.seed_formula {target : Target} (hkeys : program.KeysTyped)
    (h : (target.seed program).store.table? name = some seeded) :
    ∀ rule ∈ seeded.rules, ∀ e ∈ rule.keySet.values, e.Formula := by
  intro rule hrule e he
  have hconfig : (target.seed program).store.config name = seeded := by rw [Store.config, h, Option.getD_some]
  obtain ⟨table, htable, -, entry, -, hentry⟩ := exists_entry_of_mem_foldl (hconfig ▸ hrule)
  obtain ⟨key, hkey, hpredicate⟩ := EmbeddedEntry.keyPredicate_of_rule hentry e he
  exact hpredicate.formula (hkeys table htable key hkey)

namespace Settings

variable {settings : Settings} {record : Option Octets} {outcome : Outcome}

theorem run_continues (hseeds : settings.seedsEntries = true)
    (hseeded : (settings.target.seed program).store.table? name = some seeded)
    (hrun : settings.run program catalog record = .ok outcome) :
    ∃ config, outcome.store.table? name = some config ∧ config.Continues seeded := by
  have hseed : settings.seed program = settings.target.seed program := by rw [seed, if_pos hseeds]
  obtain ⟨parsed, rfl⟩ := run_eq_convert hrun
  cases parsed with
  | none =>
    rw [convert, hseed]
    exact ⟨seeded, hseeded, .refl seeded⟩
  | some parsed =>
    rw [convert, hseed]
    exact Store.exists_continues hseeded _

/-- Let some rule that the program embeds for a table match, where the constraint of the table after
    some conversion is bound. Then after every conversion, with whatever record or with none, the
    constraint has one and the same value: it is true exactly when the table is marked active and
    the first embedded rule that matches has its binding. -/
theorem embedded_entries_take_precedence {rule : Rule} (hkeys : program.KeysTyped)
    (hseeds : settings.seedsEntries = true) (hrun : settings.run program catalog record = .ok outcome)
    (hconfig : outcome.store.table? name = some config) (hbound : config.constraint.Bound env)
    (hseeded : (settings.target.seed program).store.table? name = some seeded) (hrule : rule ∈ seeded.rules)
    (hmatch : rule.Matches env) :
    ∃ b i first, seeded.FirstMatch env i first ∧
      (b = true ↔
        env.symbol (.active seeded.table) = some (.bool true) ∧ first.action.Holds env seeded.table) ∧
      (∃ alone, settings.run program catalog none = .ok alone) ∧
      ∀ other after, settings.run program catalog other = .ok after →
        ∃ config, after.store.table? name = some config ∧ config.constraint.evalBool env = .ok b := by
  obtain ⟨i, first, hfirst⟩ := Config.exists_firstMatch hrule hmatch
  have heval : { seeded with defaultAction := none }.Evaluable env := by
    obtain ⟨continued, hcontinued, hcontinues⟩ := run_continues hseeds hseeded hrun
    obtain rfl := Option.some.inj (hconfig.symm.trans hcontinued)
    exact hcontinues.evaluable hbound (Target.seed_formula hkeys hseeded)
  obtain ⟨b, -, hb⟩ := (Config.Continues.refl seeded).decides heval hfirst
  refine ⟨b, i, first, hfirst, hb, ⟨_, rfl⟩, fun other after hafter => ?_⟩
  obtain ⟨continued, hcontinued, hcontinues⟩ := run_continues hseeds hseeded hafter
  obtain ⟨b', heq, hb'⟩ := hcontinues.decides heval hfirst
  obtain rfl : b' = b := Bool.eq_iff_iff.mpr (hb'.trans hb.symm)
  exact ⟨continued, hcontinued, heq⟩

def aclRun (record : Option String) : Except Flaw Outcome :=
  aclSettings.run aclProgram (.ofProgram aclProgram [(1, "acl")] [(7, "mark")]) (record.map (·.toUTF8.toList))

/-- Sends whatever matches to a member of an action profile, and marks the rest by default. -/
def catchAllText : String :=
  "[[" ++ objectText ("\"table_entry\": [1, [], " ++ objectText "\"action_profile_member_id\": 9" ++ "]") ++ ", " ++
    objectText "\"table_entry\": [1, [], [[7, [[1, \"05\"]]]], null, true]" ++ "]]"

def embeddedRule : Rule where
  keySet := .ofList [("src",
    Predicate.ternary (.bitAnd (.field "ip.src" (.bits 8)) (.constant (.bits 8) 0xf0)) (.bits 8) 0x30 0xff)]
  action := .direct "mark" 0 [⟨"class", .bits 4, 3⟩]

def seededConfig : Config where
  table := "acl"
  rules := [embeddedRule]
  defaultAction := some (.direct "NoAction" 1 [])

def catchAllConfig : Config where
  table := "acl"
  rules := [embeddedRule, { keySet := ∅, action := .profile (.member 9) }]
  defaultAction := some (.direct "mark" 0 [⟨"class", .bits 4, 5⟩])

theorem run_catchAll :
    ∃ outcome, aclRun (some catchAllText) = .ok outcome ∧ outcome.store.table? "acl" = some catchAllConfig := by
  have hrun : (aclRun (some catchAllText)).toOption.bind (·.store.table? "acl") = some catchAllConfig := by
    decide +kernel
  obtain ⟨outcome, hrun, hconfig⟩ := Option.bind_eq_some_iff.mp hrun
  exact ⟨outcome, toOption_eq_some.mp hrun, hconfig⟩

/-- A packet from 0x35 that the embedded entry marks with 3. -/
def markedSource : Assignment :=
  (aclPacket.setSymbol (.actionChoice "acl") (.bits 0)).setSymbol (.actionArgument "acl" "mark" "class" (.bits 4))
    (.bits 3)

theorem aclConfig_bound : aclConfig.constraint.Bound markedSource := by
  have hfields : ∀ f ∈ aclConfig.constraint.fields, f = ("ip.src", .bits 8) ∨ f = ("meta.ok", .bool) := by decide
  refine Term.bound_iff.mpr ⟨fun s _ => ?_, fun f hf => ?_⟩
  · by_cases hclass : s = .actionArgument "acl" "mark" "class" (.bits 4)
    · subst hclass
      exact ⟨.bits 3, rfl, by decide⟩
    by_cases hchoice : s = .actionChoice "acl"
    · subst hchoice
      exact ⟨.bits 0, rfl, by decide⟩
    · refine ⟨greatest s.ty, ?_, greatest_fits s.ty⟩
      simp [markedSource, Assignment.setSymbol, hclass, hchoice, aclPacket]
  · rcases hfields f hf with rfl | rfl
    · exact ⟨.bits 0x35, rfl, by decide⟩
    · exact ⟨.bool true, rfl, trivial⟩

theorem embedded_entries_take_precedence_acl :
    aclProgram.KeysTyped ∧ aclSettings.seedsEntries = true ∧ embeddedRule.Matches markedSource ∧
      ∃ sent caught alone,
        aclRun (some aclText) = .ok sent ∧ aclRun (some catchAllText) = .ok caught ∧ aclRun none = .ok alone ∧
        sent.store.table? "acl" = some aclConfig ∧ aclConfig.constraint.Bound markedSource ∧
        aclConfig.constraint.evalBool markedSource = .ok true ∧
        caught.store.table? "acl" = some catchAllConfig ∧ catchAllConfig.constraint.evalBool markedSource = .ok true ∧
        ∃ config, alone.store.table? "acl" = some config ∧ config.constraint.evalBool markedSource = .ok true := by
  obtain ⟨sent, hsent, hconfig⟩ := run_acl
  obtain ⟨caught, hcaught, hcatchAll⟩ := run_catchAll
  have hseeded : (aclSettings.target.seed aclProgram).store.table? "acl" = some seededConfig := by decide
  have hmatch : embeddedRule.Matches markedSource := List.forall_mem_singleton.mpr rfl
  have htrue : aclConfig.constraint.evalBool markedSource = .ok true := by rfl
  obtain ⟨b, i, first, -, -, ⟨alone, halone⟩, hall⟩ := embedded_entries_take_precedence aclProgram_keysTyped rfl hsent
    hconfig aclConfig_bound hseeded (List.mem_cons_self ..) hmatch
  obtain ⟨config, hsame, hb⟩ := hall _ _ hsent
  obtain rfl := Option.some.inj (hconfig.symm.trans hsame)
  obtain rfl : true = b := Except.ok.inj (htrue.symm.trans hb)
  obtain ⟨config, hsame, hcaughtTrue⟩ := hall _ _ hcaught
  obtain rfl := Option.some.inj (hcatchAll.symm.trans hsame)
  exact ⟨aclProgram_keysTyped, rfl, hmatch, sent, caught, alone, hsent, hcaught, halone,
    hconfig, aclConfig_bound, htrue, hcatchAll, hcaughtTrue, hall _ _ halone⟩

end Settings

end MatchAction
