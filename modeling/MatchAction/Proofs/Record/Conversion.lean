/-
  MatchAction.Proofs.Record.Conversion — what it takes to convert an entry of a record.

  `Yields` says what a match value puts on a key together with all that is checked for it,
  so that an accepted match is taken apart by cases. The matches of an entry are added to
  its key set one by one, past the fields that the table does not have; `keyPredicates`
  lists what they add, apart from the order of the names and from what is reported.

  Proved:
  - `MatchValue.predicate?_eq_ok`: a match value is accepted exactly when it yields something.
  - `addMatches_result`, `addMatches_diagnostics`: matches of different fields add what
    `keyPredicates` lists, and report the fields that the table does not have.
  - `nodup_keyPredicates`: where the keys have different names, so have the predicates.
  - `ActionCall.arguments_eq_ok`: the arguments of a call are what its values give, one by one.
  - `convert_eq_some`: all that an entry needs to be converted, and the change that it asks for then.
  - `keySet_of_convert`: the key set of a converted entry is the map of its predicates.
-/

import MatchAction.Proofs.Attempt
import MatchAction.Proofs.SortedMap
import MatchAction.Record.Load

namespace MatchAction

theorem checkFits_eq_ok {name : String} {ty : Ty} {value n : Nat} :
    checkFits name ty value = .ok n ↔ ty.fits value = true ∧ value = n := by
  unfold checkFits
  split
  · rename_i h; simp [h]
  · rename_i h; simp [h]

theorem Octets.checked_eq_ok {octets : Octets} {name : String} {ty : Ty} {n : Nat} :
    octets.checked name ty = .ok n ↔ ty.fits octets.value = true ∧ octets.value = n := checkFits_eq_ok

namespace MatchValue

/-! ## The predicate of one match -/

/-- What a match value puts on a key, with all that is checked for it. -/
inductive Yields (key : Key) : MatchValue → Option Term → Prop
  | exact {v : Octets} : key.matchKind = "exact" → key.ty.fits v.value →
      Yields key (.exact v) (some (Predicate.exact key.expr key.ty v.value))
  | ternary {v m : Octets} {w : Nat} : key.matchKind = "ternary" → key.ty = .bits w →
      key.ty.fits v.value → key.ty.fits m.value →
      Yields key (.ternary v m) (some (Predicate.ternary key.expr key.ty v.value m.value))
  | lpm {v : Octets} {length : UInt32} {w : Nat} : key.matchKind = "lpm" → key.ty = .bits w →
      length.toNat ≤ w → key.ty.fits v.value →
      Yields key (.lpm v length) (some (Predicate.lpm key.expr key.ty v.value length.toNat))
  | range {low high : Octets} {w : Nat} : key.matchKind = "range" → key.ty = .bits w →
      key.ty.fits low.value → key.ty.fits high.value →
      Yields key (.range low high) (some (Predicate.range key.expr key.ty low.value high.value))
  | optional {v : Octets} : key.matchKind = "optional" → key.ty.fits v.value →
      Yields key (.optional (some v)) (some (Predicate.exact key.expr key.ty v.value))
  | unset : key.matchKind = "optional" → Yields key (.optional none) none

theorem checkKind_eq_ok {key : Key} {value : MatchValue} {u : Unit} :
    value.checkKind key = .ok u ↔ (∀ kind, value ≠ .unsupported kind) ∧
      key.matchKind = value.kindName ∧ (value.suitsBool = true ∨ ∃ w, key.ty = .bits w) := by
  have hbits : (key.ty.isBool && !value.suitsBool) = false ↔ value.suitsBool = true ∨ ∃ w, key.ty = .bits w := by
    cases key.ty <;> simp [Ty.isBool]
  rw [← hbits]
  by_cases hkind : key.matchKind = value.kindName
  · cases value <;> simp [checkKind, hkind]
  · cases value <;> simp [checkKind, hkind]

theorem predicate?_of_kind {key : Key} {value : MatchValue} (hkind : key.matchKind = value.kindName)
    (hsupported : ∀ kind, value ≠ .unsupported kind) :
    value.predicate? key =
      if key.ty.isBool && !value.suitsBool then .error (.unsupportedKeyType key.fieldName value.kindName key.ty)
      else value.build key := by
  cases value with
  | unsupported kind => exact absurd rfl (hsupported kind)
  | _ =>
    simp only [predicate?, checkKind, hkind, ne_eq, not_true, if_false]
    split <;> rfl

theorem predicate?_eq_ok {key : Key} {value : MatchValue} {predicate : Option Term} :
    value.predicate? key = .ok predicate ↔ value.Yields key predicate := by
  simp only [predicate?, bind_eq_ok, checkKind_eq_ok]
  constructor
  · intro ⟨_, ⟨hsupported, hkind, hbool⟩, hbuild⟩
    cases value with
    | exact v =>
      simp only [build, bind_eq_ok, Octets.checked_eq_ok, pure_eq_ok] at hbuild
      obtain ⟨_, ⟨hv, rfl⟩, rfl⟩ := hbuild
      exact .exact hkind hv
    | ternary v m =>
      obtain ⟨w, hw⟩ := hbool.resolve_left Bool.false_ne_true
      simp only [build, bind_eq_ok, Octets.checked_eq_ok, pure_eq_ok] at hbuild
      obtain ⟨_, ⟨hv, rfl⟩, _, ⟨hm, rfl⟩, rfl⟩ := hbuild
      exact .ternary hkind hw hv hm
    | lpm v length =>
      obtain ⟨w, hw⟩ := hbool.resolve_left Bool.false_ne_true
      simp only [build] at hbuild
      split at hbuild
      · cases hbuild
      · rename_i hlength
        simp only [bind_eq_ok, Octets.checked_eq_ok, pure_eq_ok] at hbuild
        obtain ⟨_, ⟨hv, rfl⟩, rfl⟩ := hbuild
        exact .lpm hkind hw (by rw [hw] at hlength; exact Nat.not_lt.mp hlength) hv
    | range low high =>
      obtain ⟨w, hw⟩ := hbool.resolve_left Bool.false_ne_true
      simp only [build, bind_eq_ok, Octets.checked_eq_ok, pure_eq_ok] at hbuild
      obtain ⟨_, ⟨hlow, rfl⟩, _, ⟨hhigh, rfl⟩, rfl⟩ := hbuild
      exact .range hkind hw hlow hhigh
    | optional v =>
      cases v with
      | none =>
        obtain rfl := pure_eq_ok.mp hbuild
        exact .unset hkind
      | some v =>
        simp only [build, bind_eq_ok, Octets.checked_eq_ok, pure_eq_ok] at hbuild
        obtain ⟨_, ⟨hv, rfl⟩, rfl⟩ := hbuild
        exact .optional hkind hv
    | unsupported kind => exact absurd rfl (hsupported kind)
  · intro h
    cases h with
    | exact hkind hv =>
      refine ⟨(), ⟨nofun, hkind, .inl rfl⟩, ?_⟩
      simp only [build, Octets.checked_eq_ok.mpr ⟨hv, rfl⟩]
      rfl
    | ternary hkind hw hv hm =>
      refine ⟨(), ⟨nofun, hkind, .inr ⟨_, hw⟩⟩, ?_⟩
      simp only [build, Octets.checked_eq_ok.mpr ⟨hv, rfl⟩, Octets.checked_eq_ok.mpr ⟨hm, rfl⟩]
      rfl
    | lpm hkind hw hlength hv =>
      refine ⟨(), ⟨nofun, hkind, .inr ⟨_, hw⟩⟩, ?_⟩
      rw [build, if_neg (by rw [hw]; exact Nat.not_lt.mpr hlength), Octets.checked_eq_ok.mpr ⟨hv, rfl⟩]
      rfl
    | range hkind hw hlow hhigh =>
      refine ⟨(), ⟨nofun, hkind, .inr ⟨_, hw⟩⟩, ?_⟩
      simp only [build, Octets.checked_eq_ok.mpr ⟨hlow, rfl⟩, Octets.checked_eq_ok.mpr ⟨hhigh, rfl⟩]
      rfl
    | optional hkind hv =>
      refine ⟨(), ⟨nofun, hkind, .inl rfl⟩, ?_⟩
      simp only [build, Octets.checked_eq_ok.mpr ⟨hv, rfl⟩]
      rfl
    | unset hkind => exact ⟨(), ⟨nofun, hkind, .inl rfl⟩, rfl⟩

end MatchValue

/-! ## The call of an action -/

def Argument.parameter (arg : Argument) : Param := ⟨arg.param, arg.ty⟩

/-- The argument that a value of a call becomes, with all that is checked for it. -/
structure ParamValue.Gives (action : Action) (given : ParamValue) (arg : Argument) : Prop where
  parameter : action.param? given.paramId = some arg.parameter
  value : given.value.value = arg.value
  fits : arg.ty.fits arg.value = true

theorem ActionCall.arguments_eq_ok {action : Action} {given : List ParamValue} {args : List Argument} :
    arguments action given = .ok args ↔ List.Forall₂ (ParamValue.Gives action) given args := by
  induction given generalizing args with
  | nil =>
    rw [arguments, pure_eq_ok, List.forall₂_nil_left_iff]
    exact eq_comm
  | cons value rest ih =>
    rw [arguments, List.forall₂_cons_left_iff]
    constructor
    · intro h
      cases hparam : action.param? value.paramId with
      | none => rw [hparam] at h; cases h
      | some param =>
        simp only [hparam, bind_eq_ok, pure_eq_ok, Octets.checked_eq_ok, ih] at h
        obtain ⟨_, ⟨hfits, rfl⟩, others, hothers, rfl⟩ := h
        exact ⟨⟨param.name, param.ty, value.value.value⟩, others, ⟨hparam, rfl, hfits⟩, hothers, rfl⟩
    · rintro ⟨⟨param, ty, n⟩, others, ⟨hparam, hvalue, hfits⟩, hothers, rfl⟩
      obtain rfl : value.value.value = n := hvalue
      simp only [hparam, Argument.parameter, Octets.checked_eq_ok.mpr ⟨hfits, rfl⟩, ih.mpr hothers]
      rfl

theorem ParamValue.Gives.mem {action : Action} {given : ParamValue} {arg : Argument} (h : given.Gives action arg) :
    arg.parameter ∈ action.params := by
  obtain ⟨i, -, hi⟩ := atPosition?_eq_some.mp h.parameter
  exact List.mem_of_getElem? hi

/-- Every argument is for a parameter of the action and fits its type. -/
theorem ActionCall.arguments_declared {action : Action} {given : List ParamValue} {args : List Argument}
    (h : arguments action given = .ok args) :
    ∀ arg ∈ args, arg.parameter ∈ action.params ∧ arg.value < 2 ^ arg.ty.width := by
  have hgives := arguments_eq_ok.mp h
  clear h
  induction hgives with
  | nil => exact List.forall_mem_nil _
  | cons hgives _ ih => exact List.forall_mem_cons.mpr ⟨⟨hgives.mem, Ty.fits_iff.mp hgives.fits⟩, ih⟩

/-- What a call binds to, with all that is checked for it. -/
theorem ActionCall.eq_direct_of_bind {catalog : Catalog} {table : Table} {call : ActionCall} {binding : Binding}
    (h : call.bind catalog table = .ok binding) :
    ∃ action ordinal args, catalog.action? call.actionId = some action ∧
      table.ordinal? action.name = some ordinal ∧ call.params.length = action.params.length ∧
      arguments action call.params = .ok args ∧ binding = .direct action.name ordinal args := by
  unfold ActionCall.bind at h
  split at h
  · cases h
  · rename_i action haction
    split at h
    · cases h
    · rename_i ordinal hordinal
      split at h
      · cases h
      · rename_i hlength
        obtain ⟨args, hargs, hbinding⟩ := bind_eq_ok.mp h
        exact ⟨action, ordinal, args, haction, hordinal, not_not.mp hlength, hargs, (pure_eq_ok.mp hbinding).symm⟩

namespace TableEntry

variable {catalog : Catalog} {table : Table} {entry : TableEntry}

/-! ## The matches of one entry -/

/-- The predicate of every match whose field the table has, by field name and in the order of the
    matches; an optional match that is not set puts none. -/
def keyPredicates (table : Table) : List FieldMatch → Except Fault (List (String × Term))
  | [] => return []
  | m :: rest =>
    match table.key? m.fieldId with
    | none => keyPredicates table rest
    | some key => do
      let predicate ← m.value.predicate? key
      return (predicate.map fun e => (key.fieldName, e)).toList ++ (← keyPredicates table rest)

def Fresh (seen : List UInt32) (ms : List FieldMatch) : Prop :=
  (ms.map (·.fieldId)).Nodup ∧ ∀ m ∈ ms, m.fieldId ∉ seen

theorem fresh_cons {seen : List UInt32} {m : FieldMatch} {rest : List FieldMatch} :
    Fresh seen (m :: rest) ↔ m.fieldId ∉ seen ∧ Fresh (m.fieldId :: seen) rest := by
  simp only [Fresh, List.forall_mem_cons]
  simp only [List.map_cons, List.nodup_cons, List.mem_cons, not_or, List.mem_map, not_exists, not_and]
  constructor
  · intro ⟨⟨hne, hnodup⟩, hm, hrest⟩
    exact ⟨hm, hnodup, fun x hx => ⟨hne x hx, hrest x hx⟩⟩
  · intro ⟨hm, hnodup, hrest⟩
    exact ⟨⟨fun x hx => (hrest x hx).1, hnodup⟩, hm, fun x hx => (hrest x hx).2⟩

theorem addMatches_result {seen : List UInt32} {ms : List FieldMatch} (h : Fresh seen ms) (keys : KeySet) :
    (addMatches table seen keys ms).result =
      (keyPredicates table ms).map (·.foldl (fun keys e => keys.insert e.1 e.2) keys) := by
  induction ms generalizing seen keys with
  | nil => rfl
  | cons m rest ih =>
    obtain ⟨hm, hrest⟩ := fresh_cons.mp h
    rw [addMatches, if_neg hm, keyPredicates]
    cases table.key? m.fieldId with
    | none => exact ih hrest keys
    | some key =>
      simp only [Attempt.bind_result]
      cases m.value.predicate? key with
      | error fault => rfl
      | ok predicate =>
        cases predicate with
        | none =>
          refine (ih hrest keys).trans ?_
          cases keyPredicates table rest <;> rfl
        | some e =>
          refine (ih hrest (keys.insert key.fieldName e)).trans ?_
          cases keyPredicates table rest <;> rfl

theorem fresh_of_addMatches {seen : List UInt32} {ms : List FieldMatch} {keys keySet : KeySet}
    (h : (addMatches table seen keys ms).result = .ok keySet) : Fresh seen ms := by
  induction ms generalizing seen keys with
  | nil => exact ⟨.nil, nofun⟩
  | cons m rest ih =>
    rw [addMatches] at h
    split at h
    · cases h
    · rename_i hm
      refine fresh_cons.mpr ⟨hm, ?_⟩
      cases hk : table.key? m.fieldId with
      | none => rw [hk] at h; exact ih h
      | some key =>
        simp only [hk, Attempt.bind_result, bind_eq_ok] at h
        obtain ⟨predicate, -, h⟩ := h
        cases predicate with
        | none => exact ih h
        | some e => exact ih h

theorem addMatches_eq_ok {ms : List FieldMatch} {keySet : KeySet} :
    (addMatches table [] ∅ ms).result = .ok keySet ↔
      Fresh [] ms ∧ ∃ predicates, keyPredicates table ms = .ok predicates ∧ SortedMap.ofList predicates = keySet := by
  constructor
  · intro h
    have hfresh := fresh_of_addMatches h
    rw [addMatches_result hfresh] at h
    cases hp : keyPredicates table ms with
    | error fault => rw [hp] at h; cases h
    | ok predicates =>
      rw [hp] at h
      exact ⟨hfresh, predicates, rfl, Except.ok.inj h⟩
  · rintro ⟨hfresh, predicates, hp, rfl⟩
    rw [addMatches_result hfresh, hp]
    rfl

def unknownFields (table : Table) (ms : List FieldMatch) : List Diagnostic :=
  (ms.filter fun m => (table.key? m.fieldId).isNone).map fun m =>
    .ofFault (some table.name) (.unknownField table.name m.fieldId)

theorem addMatches_diagnostics {seen : List UInt32} {ms : List FieldMatch} {keys keySet : KeySet}
    (h : (addMatches table seen keys ms).result = .ok keySet) :
    (addMatches table seen keys ms).diagnostics = unknownFields table ms := by
  induction ms generalizing seen keys with
  | nil => rfl
  | cons m rest ih =>
    rw [addMatches] at h ⊢
    split at h
    · cases h
    · rename_i hm
      rw [if_neg hm]
      cases hk : table.key? m.fieldId with
      | none =>
        rw [hk] at h
        have hrest := ih h
        simp only [unknownFields, List.filter_cons, hk, Option.isNone_none, if_true, List.map_cons] at hrest ⊢
        exact congrArg _ hrest
      | some key =>
        simp only [hk, Attempt.bind_result, bind_eq_ok] at h
        obtain ⟨predicate, hp, h⟩ := h
        rw [unknownFields, List.filter_cons, hk]
        refine (Attempt.bind_diagnostics hp _).trans ?_
        cases predicate with
        | none => exact ih h
        | some e => exact ih h

theorem mem_keyPredicates {ms : List FieldMatch} {predicates : List (String × Term)}
    (h : keyPredicates table ms = .ok predicates) {field : String} {e : Term} :
    (field, e) ∈ predicates ↔ ∃ m ∈ ms, ∃ key, table.key? m.fieldId = some key ∧
      key.fieldName = field ∧ m.value.predicate? key = .ok (some e) := by
  induction ms generalizing predicates with
  | nil =>
    obtain rfl := pure_eq_ok.mp h
    simp
  | cons m rest ih =>
    rw [keyPredicates] at h
    cases hk : table.key? m.fieldId with
    | none =>
      rw [hk] at h
      simp [ih h, hk]
    | some key =>
      simp only [hk, bind_eq_ok, pure_eq_ok] at h
      obtain ⟨predicate, hp, others, hothers, rfl⟩ := h
      cases predicate <;> simp [ih hothers, hk, hp, eq_comm]

theorem exists_predicate {ms : List FieldMatch} {predicates : List (String × Term)}
    (h : keyPredicates table ms = .ok predicates) {m : FieldMatch} (hm : m ∈ ms) {key : Key}
    (hk : table.key? m.fieldId = some key) : ∃ predicate, m.value.predicate? key = .ok predicate := by
  induction ms generalizing predicates with
  | nil => cases hm
  | cons m' rest ih =>
    rw [keyPredicates] at h
    cases hk' : table.key? m'.fieldId with
    | none =>
      rw [hk'] at h
      rcases List.mem_cons.mp hm with rfl | hm
      · rw [hk] at hk'; cases hk'
      · exact ih h hm
    | some key' =>
      simp only [hk', bind_eq_ok] at h
      obtain ⟨predicate, hp, others, hothers, -⟩ := h
      rcases List.mem_cons.mp hm with rfl | hm
      · obtain rfl : key = key' := Option.some.inj (hk.symm.trans hk')
        exact ⟨predicate, hp⟩
      · exact ih hothers hm

theorem nodup_keyPredicates (hnames : (table.keys.map Key.fieldName).Nodup) {seen : List UInt32}
    {ms : List FieldMatch} (hfresh : Fresh seen ms) {predicates : List (String × Term)}
    (h : keyPredicates table ms = .ok predicates) : (predicates.map (·.1)).Nodup := by
  induction ms generalizing seen predicates with
  | nil =>
    obtain rfl := pure_eq_ok.mp h
    exact .nil
  | cons m rest ih =>
    obtain ⟨-, hrest⟩ := fresh_cons.mp hfresh
    rw [keyPredicates] at h
    cases hk : table.key? m.fieldId with
    | none =>
      rw [hk] at h
      exact ih hrest h
    | some key =>
      simp only [hk, bind_eq_ok, pure_eq_ok] at h
      obtain ⟨predicate, -, others, hothers, rfl⟩ := h
      cases predicate with
      | none => exact ih hrest hothers
      | some e =>
        refine List.nodup_cons.mpr ⟨fun hmem => ?_, ih hrest hothers⟩
        obtain ⟨⟨field, e'⟩, he', hfield⟩ := List.mem_map.mp hmem
        obtain ⟨m', hm', key', hk', hname, -⟩ := (mem_keyPredicates hothers).mp he'
        have hsame : m'.fieldId = m.fieldId := Table.key?_inj hnames hk' hk (hname.trans hfield)
        exact hrest.2 m' hm' (hsame ▸ List.mem_cons_self ..)

/-! ## The entry -/

/-- The change that an entry asks for with its action bound, and what else is converted for it. -/
inductive Asks (table : Table) (entry : TableEntry) (action : Binding) : Change → Prop
  | default : entry.isDefaultAction = true → entry.fieldMatches = [] →
      Asks table entry action (.setDefault table.name action)
  | rule {predicates : List (String × Term)} : entry.isDefaultAction = false → Fresh [] entry.fieldMatches →
      keyPredicates table entry.fieldMatches = .ok predicates →
      Asks table entry action
        (.addRule table.name { keySet := SortedMap.ofList predicates, action, priority := entry.priority })

theorem attempt_result (h : entry.isDefaultAction = false) :
    (entry.attempt catalog table).result = do
      let keySet ← (addMatches table [] ∅ entry.fieldMatches).result
      let action ← (bindAction catalog table entry.action).result
      return .addRule table.name { keySet, action, priority := entry.priority } := by
  simp only [attempt, h, Bool.false_eq_true, if_false, Attempt.bind_result]
  rfl

theorem attempt_result_of_default (h : entry.isDefaultAction = true) :
    (entry.attempt catalog table).result =
      if entry.fieldMatches.isEmpty then do
        return .setDefault table.name (← (bindAction catalog table entry.action).result)
      else .error .defaultActionWithMatches := by
  rw [attempt, if_pos h]
  split
  · rw [Attempt.bind_result]
    rfl
  · rfl

theorem attempt_eq_ok {change : Change} :
    (entry.attempt catalog table).result = .ok change ↔
      ∃ action, (bindAction catalog table entry.action).result = .ok action ∧ entry.Asks table action change := by
  cases hdefault : entry.isDefaultAction with
  | true =>
    rw [attempt_result_of_default hdefault]
    constructor
    · intro h
      split at h
      · rename_i hempty
        obtain ⟨action, haction, hchange⟩ := bind_eq_ok.mp h
        obtain rfl := pure_eq_ok.mp hchange
        exact ⟨action, haction, .default hdefault (List.isEmpty_iff.mp hempty)⟩
      · cases h
    · rintro ⟨action, haction, hasks⟩
      cases hasks with
      | default _ hempty =>
        rw [if_pos (List.isEmpty_iff.mpr hempty), haction]
        rfl
      | rule hrule => exact absurd (hdefault.symm.trans hrule) nofun
  | false =>
    rw [attempt_result hdefault]
    simp only [bind_eq_ok, addMatches_eq_ok, pure_eq_ok]
    constructor
    · rintro ⟨_, ⟨hfresh, predicates, hp, rfl⟩, action, haction, rfl⟩
      exact ⟨action, haction, .rule hdefault hfresh hp⟩
    · rintro ⟨action, haction, hasks⟩
      cases hasks with
      | default hrule => exact absurd (hrule.symm.trans hdefault) nofun
      | @rule predicates _ hfresh hp => exact ⟨_, ⟨hfresh, predicates, hp, rfl⟩, action, haction, rfl⟩

/-- All that is reported of an entry that asks for a change; a default action has no matches. -/
theorem Asks.diagnostics {action : Binding} {change : Change} (h : entry.Asks table action change)
    (haction : (bindAction catalog table entry.action).result = .ok action) :
    (entry.attempt catalog table).diagnostics =
      unknownFields table entry.fieldMatches ++ (bindAction catalog table entry.action).diagnostics := by
  cases h with
  | default hdefault hempty =>
    rw [attempt, if_pos hdefault, if_pos (List.isEmpty_iff.mpr hempty), hempty, Attempt.bind_diagnostics haction]
    exact List.append_nil _
  | rule hrule hfresh hp =>
    have hkeys := addMatches_eq_ok.mpr ⟨hfresh, _, hp, rfl⟩
    simp only [attempt, hrule, Bool.false_eq_true, if_false]
    rw [Attempt.bind_diagnostics hkeys, Attempt.bind_diagnostics haction, addMatches_diagnostics hkeys]
    exact congrArg _ (List.append_nil _)

theorem convert_eq_of_result {change : Change} (ht : catalog.table? entry.tableId = some table)
    (h : (entry.attempt catalog table).result = .ok change) :
    entry.convert catalog = (some change, (entry.attempt catalog table).diagnostics) := by
  simp only [convert, ht, h]

theorem convert_fst (ht : catalog.table? entry.tableId = some table) :
    (entry.convert catalog).1 = (entry.attempt catalog table).result.toOption := by
  simp only [convert, ht]
  cases (entry.attempt catalog table).result <;> rfl

/-- An entry is converted where its table is known, its action binds and its matches are those of a
    default action or convert to predicates of different fields. -/
theorem convert_eq_some {change : Change} :
    (entry.convert catalog).1 = some change ↔ ∃ table action, catalog.table? entry.tableId = some table ∧
      (bindAction catalog table entry.action).result = .ok action ∧ entry.Asks table action change := by
  cases ht : catalog.table? entry.tableId with
  | none => simp [convert, ht]
  | some table => simp [convert_fst ht, toOption_eq_some, attempt_eq_ok]

theorem keySet_of_convert (ht : catalog.table? entry.tableId = some table) {rule : Rule} {name : String}
    (h : (entry.convert catalog).1 = some (.addRule name rule)) :
    Fresh [] entry.fieldMatches ∧ ∃ predicates, keyPredicates table entry.fieldMatches = .ok predicates ∧
      rule.keySet = SortedMap.ofList predicates := by
  obtain ⟨table', action, ht', -, hasks⟩ := convert_eq_some.mp h
  obtain rfl : table = table' := Option.some.inj (ht.symm.trans ht')
  cases hasks with
  | rule _ hfresh hp => exact ⟨hfresh, _, hp, rfl⟩

end TableEntry

end MatchAction
