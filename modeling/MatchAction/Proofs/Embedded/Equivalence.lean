/-
  MatchAction.Proofs.Embedded.Equivalence — an embedded entry and the record entry that says
  the same become the same rule.

  The two are converted apart: one lists a key for each key of the table and names its
  action, the other names fields, parameters and the action by numbers and gives values as
  bytes. `SameEntry` relates an embedded entry to the record entries that say the same:
  fields and parameters are numbered by position, a key that matches anything is left out,
  a plain value is a full mask, a full prefix or a range of one point, and the bytes may
  start with zeros.

  Proved, for the v1model target:
  - `SameKey.converts`: one key and its match are accepted alike and with the same predicate,
    although they are refused with different faults.
  - `SameKeys.converts`: so are all keys, into the same key set and without a report.
  - `SameArguments.converts`, `SameEntry.bind`: the actions bind alike, faults included.
  - `SameEntry.rule_iff_convert`: the entries are accepted alike and give the same rule.
-/

import MatchAction.Embedded.Seed
import MatchAction.Proofs.PrefixMask
import MatchAction.Proofs.Program.Catalog
import MatchAction.Proofs.Record.Conversion

namespace MatchAction

/-! ## One key -/

/-- An embedded key and a match value that says the same of a key of the type. -/
inductive SameValue (ty : Ty) : EmbeddedKey → MatchValue → Prop
  | exact (v : Octets) : SameValue ty (.value v.value) (.exact v)
  | optional (v : Octets) : SameValue ty (.value v.value) (.optional (some v))
  | ternary (v m : Octets) : SameValue ty (.mask v.value m.value) (.ternary v m)
  | allBits (v m : Octets) : m.value = ty.maxValue → SameValue ty (.value v.value) (.ternary v m)
  | lpm (v : Octets) (length : UInt32) : length.toNat ≤ ty.width →
      SameValue ty (.mask v.value (prefixMask ty.width length.toNat)) (.lpm v length)
  | fullLength (v : Octets) (length : UInt32) : length.toNat = ty.width → SameValue ty (.value v.value) (.lpm v length)
  | range (low high : Octets) : SameValue ty (.range low.value high.value) (.range low high)
  | point (low high : Octets) : high.value = low.value → SameValue ty (.value low.value) (.range low high)

theorem embeddedPredicate?_v1model (key : Key) (embedded : EmbeddedKey) :
    Target.v1model.embeddedPredicate? key embedded = match key.matchKind with
      | "exact" => embedded.exactPredicate? key
      | "optional" => embedded.exactPredicate? key
      | "ternary" => embedded.ternaryPredicate? key
      | "lpm" => embedded.lpmPredicate? key
      | "range" => embedded.rangePredicate? key
      | _ => embedded.noPredicate? key := by
  unfold Target.embeddedPredicate? EmbeddedKey.corePredicate?
  split
  · simp_all
  · simp_all
  · split <;> simp_all

theorem embeddedPredicate?_dontCare (key : Key) : Target.v1model.embeddedPredicate? key .dontCare = .ok none := by
  rw [embeddedPredicate?_v1model]
  split <;> rfl

/-- A key and its match are accepted alike and with the same predicate. On a boolean key that
    has no bits to match they are refused with different faults. -/
theorem SameValue.converts {key : Key} {embedded : EmbeddedKey} {value : MatchValue}
    (h : SameValue key.ty embedded value) (hkind : key.matchKind = value.kindName) :
    (Target.v1model.embeddedPredicate? key embedded).toOption = (value.predicate? key).toOption := by
  rw [embeddedPredicate?_v1model, hkind, MatchValue.predicate?_of_kind hkind (by cases h <;> nofun)]
  cases h with
  | exact v =>
    simp only [MatchValue.suitsBool, Bool.not_true, Bool.and_false, Bool.false_eq_true, if_false]
    rfl
  | optional v =>
    simp only [MatchValue.suitsBool, Bool.not_true, Bool.and_false, Bool.false_eq_true, if_false]
    rfl
  | ternary v m =>
    simp only [MatchValue.kindName, EmbeddedKey.ternaryPredicate?, EmbeddedKey.checked, MatchValue.build, Octets.checked]
    cases key.ty <;> rfl
  | allBits v m hmask =>
    simp only [MatchValue.kindName, EmbeddedKey.ternaryPredicate?, EmbeddedKey.checked, MatchValue.build, Octets.checked,
      hmask, checkFits_eq_ok.mpr ⟨Ty.fits_maxValue key.ty, rfl⟩]
    cases key.ty <;> rfl
  | lpm v length hlength =>
    simp only [MatchValue.kindName, EmbeddedKey.lpmPredicate?, EmbeddedKey.checked, MatchValue.build, Octets.checked,
      if_neg (Nat.not_lt.mpr hlength)]
    have hfind := prefixLength?_eq_some.mpr ⟨hlength, rfl⟩
    cases hty : key.ty with
    | bool => rfl
    | bits w =>
      rw [hty] at hfind
      simp only [hfind]
      rfl
  | fullLength v length hlength =>
    simp only [MatchValue.kindName, EmbeddedKey.lpmPredicate?, EmbeddedKey.checked, MatchValue.build, Octets.checked,
      hlength, Nat.lt_irrefl, if_false]
    cases key.ty <;> rfl
  | range low high =>
    simp only [MatchValue.kindName, EmbeddedKey.rangePredicate?, EmbeddedKey.checked, MatchValue.build, Octets.checked]
    cases key.ty <;> rfl
  | point low high heq =>
    simp only [MatchValue.kindName, EmbeddedKey.rangePredicate?, EmbeddedKey.checked, MatchValue.build, Octets.checked,
      heq]
    cases key.ty with
    | bool => rfl
    | bits w =>
      -- the one check of the plain value stands for the checks of both bounds
      cases hlow : checkFits key.fieldName (.bits w) low.value with
      | error fault =>
        simp only [hlow]
        rfl
      | ok n =>
        obtain rfl := (checkFits_eq_ok.mp hlow).2
        simp only [hlow]
        rfl

/-! ## The keys of an entry -/

/-- The matches that say the same as the keys from a position on: each of the kind of its key
    and with the number of its field, and none for a key that matches anything. -/
inductive SameKeys : (position : Nat) → List Key → List EmbeddedKey → List FieldMatch → Prop
  | nil {i : Nat} : SameKeys i [] [] []
  | leftOut {i : Nat} {key : Key} {keys : List Key} {rest : List EmbeddedKey} {ms : List FieldMatch} :
      SameKeys (i + 1) keys rest ms → SameKeys i (key :: keys) (.dontCare :: rest) ms
  | set {i : Nat} {key : Key} {keys : List Key} {embedded : EmbeddedKey} {rest : List EmbeddedKey} {id : UInt32}
      {value : MatchValue} {ms : List FieldMatch} :
      id.toNat = i + 1 → key.matchKind = value.kindName → SameValue key.ty embedded value →
      SameKeys (i + 1) keys rest ms → SameKeys i (key :: keys) (embedded :: rest) (⟨id, value⟩ :: ms)

theorem SameKeys.length_eq {i : Nat} {keys : List Key} {embedded : List EmbeddedKey} {ms : List FieldMatch}
    (h : SameKeys i keys embedded ms) : embedded.length = keys.length := by
  induction h with
  | nil => rfl
  | leftOut _ ih => simp only [List.length_cons, ih]
  | set _ _ _ _ ih => simp only [List.length_cons, ih]

/-- Both give the same key set and nothing is reported. No field has been seen before, because
    the fields that were seen are those of earlier positions. -/
theorem SameKeys.converts {table : Table} {i : Nat} {keys : List Key} {embedded : List EmbeddedKey}
    {ms : List FieldMatch} (h : SameKeys i keys embedded ms) (hkeys : table.keys.drop i = keys) {seen : List UInt32}
    (hseen : ∀ id ∈ seen, id.toNat ≤ i) (keySet : KeySet) :
    (TableEntry.addMatches table seen keySet ms).diagnostics = [] ∧
      (TableEntry.addMatches table seen keySet ms).result.toOption =
        (EmbeddedEntry.addKeys .v1model keySet keys embedded).toOption := by
  induction h generalizing seen keySet with
  | nil => exact ⟨rfl, rfl⟩
  | @leftOut i key keys rest ms _ ih =>
    have hdrop : table.keys.drop (i + 1) = keys := by rw [← List.tail_drop, hkeys]; rfl
    rw [EmbeddedEntry.addKeys, embeddedPredicate?_dontCare]
    exact ih hdrop (fun id hid => Nat.le_succ_of_le (hseen id hid)) keySet
  | @set i key keys embedded rest id value ms hid hkind hsame _ ih =>
    have hdrop : table.keys.drop (i + 1) = keys := by rw [← List.tail_drop, hkeys]; rfl
    have hkey : table.key? id = some key := by
      refine atPosition?_eq_some.mpr ⟨i, hid, ?_⟩
      rw [← List.head?_drop, hkeys]
      rfl
    have hfresh : id ∉ seen := fun hmem => by
      have := hseen id hmem
      omega
    have hseen' : ∀ id' ∈ id :: seen, id'.toNat ≤ i + 1 := by
      intro id' hid'
      rcases List.mem_cons.mp hid' with rfl | hid'
      · omega
      · have := hseen id' hid'
        omega
    rw [TableEntry.addMatches, if_neg hfresh, EmbeddedEntry.addKeys]
    simp only [hkey]
    constructor
    · refine Attempt.bind_diagnostics_eq_nil rfl fun predicate => ?_
      cases predicate with
      | none => exact (ih hdrop hseen' keySet).1
      | some e => exact (ih hdrop hseen' (keySet.insert key.fieldName e)).1
    · rw [Attempt.bind_result, toOption_bind, toOption_bind, hsame.converts hkind]
      refine Option.bind_congr fun predicate _ => ?_
      cases predicate with
      | none => exact (ih hdrop hseen' keySet).2
      | some e => exact (ih hdrop hseen' (keySet.insert key.fieldName e)).2

/-! ## The action -/

inductive SameArguments : (position : Nat) → List Nat → List ParamValue → Prop
  | nil {i : Nat} : SameArguments i [] []
  | cons {i : Nat} {args : List Nat} {id : UInt32} {given : List ParamValue} (v : Octets) :
      id.toNat = i + 1 → SameArguments (i + 1) args given → SameArguments i (v.value :: args) (⟨id, v⟩ :: given)

theorem SameArguments.length_eq {i : Nat} {args : List Nat} {given : List ParamValue}
    (h : SameArguments i args given) : given.length = args.length := by
  induction h with
  | nil => rfl
  | cons _ _ _ ih => simp only [List.length_cons, ih]

theorem SameArguments.converts {action : Action} {i : Nat} {params : List Param} {args : List Nat}
    {given : List ParamValue} (h : SameArguments i args given) (hparams : action.params.drop i = params)
    (hlength : args.length = params.length) : ActionCall.arguments action given = Call.arguments params args := by
  induction h generalizing params with
  | nil =>
    obtain rfl := List.length_eq_zero_iff.mp hlength.symm
    rfl
  | @cons i args id given v hid _ ih =>
    obtain ⟨param, rest, rfl⟩ := List.exists_cons_of_length_eq_add_one hlength.symm
    have hdrop : action.params.drop (i + 1) = rest := by rw [← List.tail_drop, hparams]; rfl
    have hparam : action.param? id = some param := by
      refine atPosition?_eq_some.mpr ⟨i, hid, ?_⟩
      rw [← List.head?_drop, hparams]
      rfl
    rw [ActionCall.arguments, Call.arguments]
    simp only [hparam, Octets.checked, ih hdrop (Nat.succ.inj hlength)]

/-! ## The entry -/

/-- A record entry that says the same as an embedded entry of the table: it is for the table, it
    matches the same keys, it calls the same action with the same arguments, and it has no priority. -/
structure SameEntry (catalog : Catalog) (table : Table) (embedded : EmbeddedEntry) (entry : TableEntry) : Prop where
  registered : catalog.table? entry.tableId = some table
  keys : SameKeys 0 table.keys embedded.keys entry.fieldMatches
  action : ∃ call action, entry.action = some (.call call) ∧ catalog.action? call.actionId = some action ∧
    action.name = embedded.action.action ∧ SameArguments 0 embedded.action.args call.params
  addsRule : entry.isDefaultAction = false
  priority : entry.priority = none

namespace SameEntry

variable {catalog : Catalog} {program : Program} {table : Table} {embedded : EmbeddedEntry} {entry : TableEntry}

/-- The actions bind alike, also where they are refused. -/
theorem bind (h : SameEntry catalog table embedded entry) (hcatalog : catalog.DeclaredIn program) :
    TableEntry.bindAction catalog table entry.action = .ofExcept (embedded.action.bind table program) := by
  obtain ⟨call, action, hcall, haction, hname, hargs⟩ := h.action
  have hdeclared : program.action? embedded.action.action = some action := hname ▸ hcatalog.2 _ _ haction
  simp only [hcall, TableEntry.bindAction, ActionCall.bind, Call.bind, haction, hdeclared]
  cases table.ordinal? action.name with
  | none => rfl
  | some ordinal =>
    simp only [hargs.length_eq]
    split
    · rfl
    · rename_i hlength
      rw [hargs.converts List.drop_zero (not_not.mp hlength)]

theorem attempt (h : SameEntry catalog table embedded entry) (hcatalog : catalog.DeclaredIn program) :
    (entry.attempt catalog table).diagnostics = [] ∧
      (entry.attempt catalog table).result.toOption =
        (embedded.rule .v1model table program).toOption.map (.addRule table.name) := by
  obtain ⟨hdiagnostics, hkeySet⟩ := h.keys.converts List.drop_zero (List.forall_mem_nil _) ∅
  constructor
  · simp only [TableEntry.attempt, h.addsRule, Bool.false_eq_true, if_false]
    refine Attempt.bind_diagnostics_eq_nil hdiagnostics fun keySet => ?_
    rw [h.bind hcatalog]
    exact Attempt.bind_diagnostics_eq_nil rfl fun _ => rfl
  · rw [TableEntry.attempt_result h.addsRule, h.bind hcatalog, h.priority, EmbeddedEntry.rule,
      if_neg (not_not.mpr h.keys.length_eq), toOption_bind, toOption_bind, hkeySet]
    cases EmbeddedEntry.addKeys .v1model ∅ table.keys embedded.keys with
    | error fault => rfl
    | ok keySet => cases embedded.action.bind table program <;> rfl

/-- The embedded entry is accepted if and only if the record entry is, and both give the same
    rule, without a priority and without a report. -/
theorem rule_iff_convert {tableIds actionIds : List (UInt32 × String)}
    (h : SameEntry (.ofProgram program tableIds actionIds) table embedded entry) :
    ((∃ rule, embedded.rule .v1model table program = .ok rule) ↔
      ∃ change, (entry.convert (.ofProgram program tableIds actionIds)).1 = some change) ∧
    ∀ rule, embedded.rule .v1model table program = .ok rule →
      rule.priority = none ∧
        entry.convert (.ofProgram program tableIds actionIds) = (some (.addRule table.name rule), []) := by
  obtain ⟨hdiagnostics, hresult⟩ := h.attempt (Catalog.declaredIn_ofProgram program tableIds actionIds)
  constructor
  · rw [TableEntry.convert_fst h.registered, hresult]
    cases embedded.rule .v1model table program with
    | error fault => exact ⟨nofun, nofun⟩
    | ok rule => exact iff_of_true ⟨rule, rfl⟩ ⟨_, rfl⟩
  · intro rule hrule
    have hconvert := TableEntry.convert_eq_of_result h.registered (toOption_eq_some.mp (hresult.trans (by rw [hrule]; rfl)))
    rw [hdiagnostics] at hconvert
    refine ⟨?_, hconvert⟩
    simp only [EmbeddedEntry.rule, if_neg (not_not.mpr h.keys.length_eq), bind_eq_ok, pure_eq_ok] at hrule
    obtain ⟨keySet, -, action, -, rfl⟩ := hrule
    rfl

def routeTable : Table where
  name := "route"
  keys := [⟨.field "ip.dst" (.bits 8), "lpm", some "dst"⟩, ⟨.field "ip.tos" (.bits 4), "ternary", some "tos"⟩,
    ⟨.field "meta.port" (.bits 16), "range", some "port"⟩, ⟨.field "ip.ttl" (.bits 8), "optional", some "ttl"⟩,
    ⟨.field "meta.ok" .bool, "exact", some "ok"⟩]
  actions := ["drop", "forward"]

def router : Program where
  tables := [routeTable]
  actions := [⟨"drop", []⟩, ⟨"forward", [⟨"egress", .bits 9⟩, ⟨"mark", .bool⟩]⟩]

/-- The destinations 0xa0 to 0xaf with all bits of the service type, one port and any lifetime. -/
def embeddedRoute : EmbeddedEntry where
  keys := [.mask 0xa7 0xf0, .value 3, .value 80, .dontCare, .value 1]
  action := ⟨"forward", [258, 1]⟩

/-- The same with leading zeros, the lifetime left out. -/
def sentRoute : TableEntry where
  tableId := 10
  fieldMatches := [⟨1, .lpm [0, 0xa7] 4⟩, ⟨2, .ternary [3] [0, 0, 15]⟩, ⟨3, .range [80] [0, 80]⟩, ⟨5, .exact [1]⟩]
  action := some (.call ⟨21, [⟨1, [0, 1, 2]⟩, ⟨2, [1]⟩]⟩)

theorem sameEntry_route :
    SameEntry (.ofProgram router [(10, "route")] [(21, "forward")]) routeTable embeddedRoute sentRoute where
  registered := rfl
  keys := .set rfl rfl (.lpm [0, 0xa7] 4 (by decide)) (.set rfl rfl (.allBits [3] [0, 0, 15] rfl)
    (.set rfl rfl (.point [80] [0, 80] rfl) (.leftOut (.set rfl rfl (.exact [1]) .nil))))
  action := ⟨_, _, rfl, rfl, rfl, .cons [0, 1, 2] rfl (.cons [1] rfl .nil)⟩
  addsRule := rfl
  priority := rfl

theorem rule_iff_convert_route :
    SameEntry (.ofProgram router [(10, "route")] [(21, "forward")]) routeTable embeddedRoute sentRoute ∧
      ∃ rule, embeddedRoute.rule .v1model routeTable router = .ok rule ∧
        rule.action = .direct "forward" 1 [⟨"egress", .bits 9, 258⟩, ⟨"mark", .bool, 1⟩] ∧
        sentRoute.convert (.ofProgram router [(10, "route")] [(21, "forward")]) =
          (some (.addRule "route" rule), []) := by
  obtain ⟨rule, hrule, haction⟩ : ∃ rule, embeddedRoute.rule .v1model routeTable router = .ok rule ∧
      rule.action = .direct "forward" 1 [⟨"egress", .bits 9, 258⟩, ⟨"mark", .bool, 1⟩] := ⟨_, rfl, rfl⟩
  exact ⟨sameEntry_route, rule, hrule, haction, ((rule_iff_convert sameEntry_route).2 rule hrule).2⟩

end SameEntry

end MatchAction
