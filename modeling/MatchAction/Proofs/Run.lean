/-
  MatchAction.Proofs.Run — what a whole conversion leaves.

  A conversion fills a store from the entries and defaults that a program embeds and from a
  record, each with lookups and checks of its own. Whatever the record says, all that gets
  into the store is declared by the program, and the constraints that come out of it are
  well-typed and evaluate wherever what they mention has values.

  Proved:
  - `Call.bind_declared`, `ActionCall.bind_declared`: what a call binds to is declared.
  - `EmbeddedEntry.rule_declared`, `TableEntry.change_declared`: so is what an entry asks for.
  - `Target.seed_declared`, `Record.load_declared`: so are the stores that they give.
  - `Settings.constraints_well_formed`: in the outcome of every conversion the predicates are
    well-typed, the bindings are declared and every constraint evaluates to a boolean.
-/

import MatchAction.Proofs.KeySet
import MatchAction.Proofs.Program.Catalog
import MatchAction.Proofs.Record.Accounting
import MatchAction.Proofs.Store.Declared
import MatchAction.Run

namespace MatchAction

variable {program : Program} {catalog : Catalog} {table : Table}

/-- No table lists so many actions that two of them would have the same ordinal. -/
def Program.OrdinalsFit (program : Program) : Prop := ∀ table ∈ program.tables, table.actions.length < 2 ^ 32

/-- An action is listed at its ordinal, if all ordinals fit into 32 bits. -/
theorem Table.getElem?_ordinal {action : String} {ordinal : UInt32} (hlength : table.actions.length < 2 ^ 32)
    (h : table.ordinal? action = some ordinal) : table.actions[ordinal.toNat]? = some action := by
  obtain ⟨i, hi, rfl⟩ := Option.map_eq_some_iff.mp h
  obtain ⟨hlt, heq, -⟩ := List.findIdx?_eq_some_iff_getElem.mp hi
  rw [UInt32.toNat_ofNat_of_lt' (Nat.lt_trans hlt hlength), List.getElem?_eq_getElem hlt]
  exact congrArg some (eq_of_beq heq)

/-! ## Bindings -/

theorem Call.arguments_declared {params : List Param} {args : List Nat} {out : List Argument}
    (h : Call.arguments params args = .ok out) :
    ∀ arg ∈ out, ⟨arg.param, arg.ty⟩ ∈ params ∧ arg.value < 2 ^ arg.ty.width := by
  induction params generalizing args out with
  | nil =>
    obtain rfl := pure_eq_ok.mp h
    exact List.forall_mem_nil _
  | cons param params ih =>
    cases args with
    | nil =>
      obtain rfl := pure_eq_ok.mp h
      exact List.forall_mem_nil _
    | cons arg args =>
      simp only [Call.arguments, bind_eq_ok, pure_eq_ok, checkFits_eq_ok] at h
      obtain ⟨_, ⟨hfits, rfl⟩, rest, hrest, rfl⟩ := h
      refine List.forall_mem_cons.mpr ⟨⟨List.mem_cons_self .., Ty.fits_iff.mp hfits⟩, fun arg harg => ?_⟩
      exact (ih hrest arg harg).imp_left (List.mem_cons_of_mem _)

/-- A binding to a declared action that the table lists at the ordinal. -/
theorem Binding.declared_direct (hfit : program.OrdinalsFit) (htable : table ∈ program.tables) {action : Action}
    (haction : program.action? action.name = some action) {ordinal : UInt32}
    (hordinal : table.ordinal? action.name = some ordinal) {args : List Argument}
    (hargs : ∀ arg ∈ args, ⟨arg.param, arg.ty⟩ ∈ action.params ∧ arg.value < 2 ^ arg.ty.width) :
    (Binding.direct action.name ordinal args).Declared program table.name :=
  ⟨⟨table, htable, rfl, table.getElem?_ordinal (hfit table htable) hordinal⟩, fun arg harg =>
    ⟨action, haction, hargs arg harg⟩⟩

theorem Call.bind_declared (hfit : program.OrdinalsFit) (htable : table ∈ program.tables) {call : Call}
    {binding : Binding} (h : call.bind table program = .ok binding) : binding.Declared program table.name := by
  unfold Call.bind at h
  split at h
  · cases h
  · rename_i action haction
    split at h
    · cases h
    · rename_i ordinal hordinal
      split at h
      · cases h
      · obtain ⟨args, hargs, hbinding⟩ := bind_eq_ok.mp h
        obtain rfl := pure_eq_ok.mp hbinding
        rw [← Program.action?_name haction] at haction
        exact Binding.declared_direct hfit htable haction hordinal (Call.arguments_declared hargs)

theorem ActionCall.bind_declared (hfit : program.OrdinalsFit) (hcatalog : catalog.DeclaredIn program)
    (htable : table ∈ program.tables) {call : ActionCall} {binding : Binding}
    (h : call.bind catalog table = .ok binding) : binding.Declared program table.name := by
  obtain ⟨action, ordinal, args, haction, hordinal, -, hargs, rfl⟩ := ActionCall.eq_direct_of_bind h
  exact Binding.declared_direct hfit htable (hcatalog.2 _ _ haction) hordinal (ActionCall.arguments_declared hargs)

/-! ## What the program embeds -/

theorem EmbeddedEntry.keyPredicate_of_rule {target : Target} {entry : EmbeddedEntry} {rule : Rule}
    (h : entry.rule target table program = .ok rule) :
    ∀ e ∈ rule.keySet.values, ∃ key ∈ table.keys, KeyPredicate key e := by
  intro e he
  obtain ⟨predicates, hp, hkeys, -⟩ := EmbeddedEntry.rule_keySet h
  rw [hkeys] at he
  obtain ⟨field, he⟩ := SortedMap.mem_of_mem_values_ofList he
  obtain ⟨key, hkey, value, hvalue⟩ := EmbeddedEntry.exists_key_of_mem hp he
  exact ⟨key, hkey, keyPredicate_of_embedded hvalue⟩

theorem EmbeddedEntry.rule_declared (hfit : program.OrdinalsFit) (htable : table ∈ program.tables) {target : Target}
    {entry : EmbeddedEntry} {rule : Rule} (h : entry.rule target table program = .ok rule) :
    rule.Declared program table.name := by
  obtain ⟨-, -, -, haction⟩ := EmbeddedEntry.rule_keySet h
  refine ⟨fun e he => ?_, Call.bind_declared hfit htable haction⟩
  obtain ⟨key, hkey, hpredicate⟩ := EmbeddedEntry.keyPredicate_of_rule h e he
  exact ⟨table, htable, rfl, key, hkey, hpredicate⟩

namespace Target

variable {target : Target}

/-- The fallback is listed by the table, whether or not the program declares it. -/
theorem defaultBinding?_declared (hfit : program.OrdinalsFit) (htable : table ∈ program.tables) {action : Binding}
    (h : target.defaultBinding? table program = some (.ok action)) : action.Declared program table.name := by
  unfold defaultBinding? at h
  split at h
  · exact Call.bind_declared hfit htable (Option.some.inj h)
  · cases h
  · obtain ⟨ordinal, hordinal, haction⟩ := Option.map_eq_some_iff.mp h
    obtain rfl := Except.ok.inj haction
    exact ⟨⟨table, htable, rfl, table.getElem?_ordinal (hfit table htable) hordinal⟩, List.forall_mem_nil _⟩

theorem seedDefault_declared (hfit : program.OrdinalsFit) (htable : table ∈ program.tables) {outcome : Outcome}
    (h : outcome.store.Declared program) : (target.seedDefault program table outcome).store.Declared program := by
  unfold seedDefault
  split
  · exact h
  · rename_i action haction
    exact h.setDefault (defaultBinding?_declared hfit htable haction)
  · exact h

theorem seedEntries_declared (hfit : program.OrdinalsFit) (htable : table ∈ program.tables) {outcome : Outcome}
    (h : outcome.store.Declared program) : (target.seedEntries program table outcome).store.Declared program := by
  unfold seedEntries
  split
  · exact h
  · split
    · rename_i rules hrules
      refine List.foldlRecOn (motive := (Store.Declared program ·)) rules _ h fun store hstore rule hrule => ?_
      obtain ⟨entry, -, hentry⟩ := (mem_of_mapM hrules).mp hrule
      exact hstore.addRule (EmbeddedEntry.rule_declared hfit htable hentry)
    · exact h.disable table.name

theorem seed_declared (hfit : program.OrdinalsFit) (target : Target) : (target.seed program).store.Declared program :=
  List.foldlRecOn (motive := fun outcome : Outcome => outcome.store.Declared program) program.tables _
    (Store.Declared.empty program) fun _ h _ htable =>
      seedEntries_declared hfit htable (seedDefault_declared hfit htable h)

end Target

/-! ## What a record says -/

theorem TableEntry.change_declared (hfit : program.OrdinalsFit) (hcatalog : catalog.DeclaredIn program)
    {entry : TableEntry} {change : Change} (h : (entry.convert catalog).1 = some change) :
    change.Declared program := by
  obtain ⟨table, action, ht, haction, hasks⟩ := TableEntry.convert_eq_some.mp h
  have htable : table ∈ program.tables := List.mem_of_find?_eq_some (hcatalog.1 _ _ ht)
  -- a binding into an action profile says nothing of actions, so there is nothing to declare
  have hbinding : action.Declared program table.name := by
    cases hentry : entry.action with
    | none => rw [hentry] at haction; cases haction
    | some tableAction =>
      rw [hentry] at haction
      cases tableAction with
      | call call => exact ActionCall.bind_declared hfit hcatalog htable haction
      | profileMember id =>
        obtain rfl := Except.ok.inj haction
        trivial
      | profileGroup id =>
        obtain rfl := Except.ok.inj haction
        trivial
  cases hasks with
  | default => exact hbinding
  | rule _ _ hp =>
    refine ⟨fun e he => ?_, hbinding⟩
    obtain ⟨field, he⟩ := SortedMap.mem_of_mem_values_ofList he
    obtain ⟨m, -, key, hkey, -, hpredicate⟩ := (TableEntry.mem_keyPredicates hp).mp he
    exact ⟨table, htable, rfl, key, Table.key?_mem hkey, (MatchValue.predicate?_eq_ok.mp hpredicate).keyPredicate⟩

theorem TableEntry.loadInto_declared (hfit : program.OrdinalsFit) (hcatalog : catalog.DeclaredIn program)
    {outcome : Outcome} (h : outcome.store.Declared program) (entry : TableEntry) :
    (entry.loadInto catalog outcome).store.Declared program := by
  show ((entry.convert catalog).1.elim outcome.store (Change.apply outcome.store)).Declared program
  cases hchange : (entry.convert catalog).1 with
  | none => exact h
  | some change => exact h.apply (TableEntry.change_declared hfit hcatalog hchange)

theorem Record.load_declared (hfit : program.OrdinalsFit) (hcatalog : catalog.DeclaredIn program) (record : Record) :
    (record.load catalog).store.Declared program := by
  rw [Record.load_eq_foldl]
  exact List.foldlRecOn (motive := fun outcome : Outcome => outcome.store.Declared program) record.tableEntries _
    (Store.Declared.empty program) fun _ h entry _ => TableEntry.loadInto_declared hfit hcatalog h entry

/-! ## The whole conversion -/

namespace Settings

variable {settings : Settings}

theorem convert_declared (hfit : program.OrdinalsFit) (hcatalog : catalog.DeclaredIn program) (settings : Settings)
    (record : Option Record) : (settings.convert program catalog record).store.Declared program := by
  have hseed : (settings.seed program).store.Declared program := by
    unfold seed
    split
    · exact Target.seed_declared hfit _
    · exact Store.Declared.empty program
  cases record with
  | none => exact hseed
  | some record => exact hseed.merge (Record.load_declared hfit hcatalog record)

theorem run_eq_convert {record : Option Octets} {outcome : Outcome}
    (h : settings.run program catalog record = .ok outcome) :
    ∃ parsed, outcome = settings.convert program catalog parsed := by
  cases record with
  | none => exact ⟨none, (pure_eq_ok.mp h).symm⟩
  | some bytes =>
    obtain ⟨parsed, -, h⟩ := bind_eq_ok.mp h
    exact ⟨some parsed, (pure_eq_ok.mp h).symm⟩

/-- In the outcome of a conversion, for every table: the key predicates are well-typed and boolean
    and their constants fit, the bindings are declared, and the constraint evaluates to a boolean
    wherever the symbols of the store and the fields of the table's keys have values of their types. -/
theorem constraints_well_formed {tableIds actionIds : List (UInt32 × String)} {record : Option Octets}
    {outcome : Outcome} (hkeys : program.KeysTyped) (hfit : program.OrdinalsFit)
    (hrun : settings.run program (.ofProgram program tableIds actionIds) record = .ok outcome) :
    ∀ name config, outcome.store.table? name = some config →
      (∀ rule ∈ config.rules, ∀ e ∈ rule.keySet.values, e.Formula ∧ ∀ c ∈ e.constants, c.2 < 2 ^ c.1.width) ∧
      (∀ action ∈ config.bindings, action.Declared program name) ∧
      ∀ env, outcome.store.Bound program name env → ∃ b, config.constraint.evalBool env = .ok b := by
  obtain ⟨parsed, rfl⟩ := run_eq_convert hrun
  have hdeclared := convert_declared hfit (Catalog.declaredIn_ofProgram program tableIds actionIds) settings parsed
  intro name config hconfig
  have hconfigured := hdeclared name config hconfig
  refine ⟨?_, ?_, fun env hbound => hdeclared.settled hkeys hconfig hbound⟩
  · intro rule hrule e he
    have hformula := (hconfigured.rules rule hrule).predicate_formula hkeys e he
    exact ⟨hformula, hformula.typed.constants_fit⟩
  · intro action haction
    rcases List.mem_append.mp haction with haction | haction
    · obtain ⟨rule, hrule, rfl⟩ := List.mem_map.mp haction
      exact (hconfigured.rules rule hrule).action
    · exact hconfigured.default action (Option.mem_toList.mp haction)

/-- One entry for the sources 0x30 to 0x3f; what no entry decides falls back to `NoAction`. -/
def aclTable : Table where
  name := "acl"
  keys := [⟨.bitAnd (.field "ip.src" (.bits 8)) (.constant (.bits 8) 0xf0), "ternary", some "src"⟩,
    ⟨.field "meta.ok" .bool, "exact", none⟩]
  actions := ["mark", "NoAction"]
  entries := some [⟨[.value 0x30, .dontCare], ⟨"mark", [3]⟩⟩]

def aclProgram : Program where
  tables := [aclTable]
  actions := [⟨"mark", [⟨"class", .bits 4⟩]⟩]

def aclSettings : Settings := ⟨.v1model, true, .json⟩

def objectText (members : String) : String := "\x7b" ++ members ++ "\x7d"

/-- Marks the sources 0x50 to 0x5f that are not ok; written with lists for all but entities and matches. -/
def aclText : String :=
  "[[" ++ objectText ("\"table_entry\": [1, [" ++ objectText "\"field_id\": 1, \"ternary\": [\"50\", \"f0\"]" ++ ", " ++
    objectText "\"field_id\": 2, \"exact\": [\"0\"]" ++ "], [[7, [[1, \"0f\"]]]]]") ++ "]]"

def aclConfig : Config where
  table := "acl"
  rules := [
    { keySet := .ofList [("src", Predicate.ternary aclTable.keys[0].expr (.bits 8) 0x30 0xff)]
      action := .direct "mark" 0 [⟨"class", .bits 4, 3⟩] },
    { keySet := .ofList [("src", Predicate.ternary aclTable.keys[0].expr (.bits 8) 0x50 0xf0),
        ("meta.ok", .eq (.field "meta.ok" .bool) (.bool false))]
      action := .direct "mark" 0 [⟨"class", .bits 4, 15⟩] }]
  defaultAction := some (.direct "NoAction" 1 [])

theorem aclProgram_keysTyped : aclProgram.KeysTyped := by
  unfold Program.KeysTyped
  decide

theorem aclProgram_ordinalsFit : aclProgram.OrdinalsFit := by
  unfold Program.OrdinalsFit
  decide

theorem run_acl : ∃ outcome, aclSettings.run aclProgram (.ofProgram aclProgram [(1, "acl")] [(7, "mark")])
    (some aclText.toUTF8.toList) = .ok outcome ∧ outcome.store.table? "acl" = some aclConfig := by
  have hrun : (aclSettings.run aclProgram (.ofProgram aclProgram [(1, "acl")] [(7, "mark")])
      (some aclText.toUTF8.toList)).toOption.bind (·.store.table? "acl") = some aclConfig := by decide +kernel
  obtain ⟨outcome, hrun, hconfig⟩ := Option.bind_eq_some_iff.mp hrun
  exact ⟨outcome, toOption_eq_some.mp hrun, hconfig⟩

def greatest : Ty → Value
  | .bool => .bool true
  | .bits w => .bits (2 ^ w - 1)

theorem greatest_fits (ty : Ty) : (greatest ty).Fits ty := by
  cases ty with
  | bool => trivial
  | bits w =>
    show 2 ^ w - 1 < 2 ^ w
    have := Nat.two_pow_pos w
    omega

/-- A packet from 0x35 that is ok; every symbol has the greatest value of its type. -/
def aclPacket : Assignment where
  field
    | "ip.src" => some (.bits 0x35)
    | "meta.ok" => some (.bool true)
    | _ => none
  symbol s := some (greatest s.ty)

theorem aclPacket_bound (store : Store) : store.Bound aclProgram "acl" aclPacket := by
  refine ⟨fun s _ => ⟨_, rfl, greatest_fits s.ty⟩, ?_⟩
  have hfields : ∀ table ∈ aclProgram.tables, ∀ key ∈ table.keys, ∀ f ∈ key.expr.fields,
      f = ("ip.src", .bits 8) ∨ f = ("meta.ok", .bool) := by decide
  intro table htable _ key hkey f hf
  rcases hfields table htable key hkey f hf with rfl | rfl
  · exact ⟨.bits 0x35, rfl, by decide⟩
  · exact ⟨.bool true, rfl, trivial⟩

theorem constraints_well_formed_acl : aclProgram.KeysTyped ∧ aclProgram.OrdinalsFit ∧
    ∃ outcome, aclSettings.run aclProgram (.ofProgram aclProgram [(1, "acl")] [(7, "mark")])
        (some aclText.toUTF8.toList) = .ok outcome ∧
      outcome.store.table? "acl" = some aclConfig ∧ outcome.store.Bound aclProgram "acl" aclPacket ∧
      (∀ action ∈ aclConfig.bindings, action.Declared aclProgram "acl") ∧
      ∃ b, aclConfig.constraint.evalBool aclPacket = .ok b := by
  obtain ⟨outcome, hrun, hconfig⟩ := run_acl
  obtain ⟨-, hbindings, hsettled⟩ :=
    constraints_well_formed aclProgram_keysTyped aclProgram_ordinalsFit hrun "acl" aclConfig hconfig
  exact ⟨aclProgram_keysTyped, aclProgram_ordinalsFit, outcome, hrun, hconfig, aclPacket_bound _, hbindings,
    hsettled _ (aclPacket_bound _)⟩

end Settings

end MatchAction
