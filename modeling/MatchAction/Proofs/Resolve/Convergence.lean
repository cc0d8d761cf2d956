/-
  MatchAction.Proofs.Resolve.Convergence — a resolved table and a converted entry agree.

  A table that is being matched compares its keys with the symbols of the control plane;
  an entry of a record compares them with its own numbers. Where the symbols stand for the
  numbers of the entry, the two ways to match say the same.

  Proved, for the kinds of the v1model target:
  - One key: the resolved predicate and the predicate of the match decide the same
    proposition, for exact, optional, ternary and lpm matches of any width and for range
    matches whose bounds are in strict order (`MatchValue.Yields.agrees`).
  - A range of a single point: the resolved predicate asks for bounds in strict order and
    is false at the point, where the predicate of the match is true. At every other key,
    and for all other bounds, the two agree.
  - A whole table: where an entry matches every key, the hit condition of an active table
    and the condition of the entry evaluate to the same boolean, although one lists the
    keys in the order of the table and the other in the order of their names.
-/

import MatchAction.Proofs.Record.Meaning
import MatchAction.Resolve.Basic

namespace MatchAction

open Term

variable {env : Assignment} {table : String} {key : Key} {ctx : MatchContext}

/-! ## What v1model resolves a key to -/

/-- The predicate of each kind; no kind is both the handler's and every target's. -/
theorem resolve_kind : (ctx.addedPredicate? <|> ctx.corePredicate?) =
    match ctx.key.matchKind with
    | "exact" => some ctx.exactPredicate
    | "ternary" => some ctx.ternaryPredicate
    | "lpm" => some ctx.lpmPredicate
    | "optional" => some ctx.optionalPredicate
    | "selector" => some ctx.selectorPredicate
    | "range" => some ctx.rangePredicate
    | _ => none := by
  rw [MatchContext.addedPredicate?, MatchContext.corePredicate?, CoreKind.ofName?_eq]
  split
  · simp_all
  · simp_all
  · simp_all
  · split <;> simp_all

theorem resolve_v1model {predicate : Term} (hbits : (ctx.ty.isBool && bitKinds.contains ctx.key.matchKind) = false)
    (h : (ctx.addedPredicate? <|> ctx.corePredicate?) = some predicate) :
    (Resolver.ofTarget .v1model).predicate ctx = .ok predicate := by
  have hfind : (Resolver.ofTarget .v1model).handlers.findSome? (·.predicate? ctx) = ctx.addedPredicate? := by
    show [Handler.v1model].findSome? (·.predicate? ctx) = _
    cases h' : ctx.addedPredicate? <;> simp [List.findSome?, Handler.v1model, h']
  simp only [Resolver.predicate, hbits, Bool.false_eq_true, if_false, hfind, h]

theorem resolve_range {w : Nat} (hkind : key.matchKind = "range") (hty : key.ty = .bits w) :
    (Resolver.ofTarget .v1model).predicate ⟨table, key, false⟩ =
      .ok (MatchContext.between (.symbol (.rangeLow table key.fieldName key.ty))
        (.symbol (.rangeHigh table key.fieldName key.ty)) key.expr) :=
  resolve_v1model (by simp [MatchContext.ty, hty, Ty.isBool]) (by simp only [resolve_kind, hkind]; rfl)

theorem supports_v1model {kind : String} (h : (Resolver.ofTarget .v1model).supports kind = true) :
    kind ∈ ["exact", "ternary", "lpm", "optional", "selector", "range"] := by
  rcases Bool.or_eq_true_iff.mp h with hcore | hadded
  · rw [CoreKind.ofName?_eq] at hcore
    split at hcore
    · decide
    · decide
    · decide
    · cases hcore
  · have hkinds : kind ∈ ["optional", "selector", "range"] := by
      simpa [Resolver.ofTarget, Target.handlers, Handler.handles, Handler.v1model] using hadded
    exact List.mem_append_right ["exact", "ternary", "lpm"] hkinds

/-- What v1model resolves a key to, kind by kind. -/
inductive Resolves (ctx : MatchContext) : Term → Prop
  | exact : ctx.key.matchKind = "exact" → Resolves ctx ctx.exactPredicate
  | ternary {w : Nat} : ctx.key.matchKind = "ternary" → ctx.ty = .bits w → Resolves ctx ctx.ternaryPredicate
  | lpm {w : Nat} : ctx.key.matchKind = "lpm" → ctx.ty = .bits w → Resolves ctx ctx.lpmPredicate
  | optional : ctx.key.matchKind = "optional" → Resolves ctx ctx.optionalPredicate
  | selector : ctx.key.matchKind = "selector" → Resolves ctx ctx.selectorPredicate
  | range {w : Nat} : ctx.key.matchKind = "range" → ctx.ty = .bits w → Resolves ctx ctx.rangePredicate

theorem Resolves.predicate_eq {ctx : MatchContext} {e : Term} (h : Resolves ctx e) :
    (Resolver.ofTarget .v1model).predicate ctx = .ok e := by
  cases h with
  | exact hkind => exact resolve_v1model (by simp [hkind, bitKinds]) (by simp [resolve_kind, hkind])
  | ternary hkind hty => exact resolve_v1model (by simp [hty, Ty.isBool]) (by simp [resolve_kind, hkind])
  | lpm hkind hty => exact resolve_v1model (by simp [hty, Ty.isBool]) (by simp [resolve_kind, hkind])
  | optional hkind => exact resolve_v1model (by simp [hkind, bitKinds]) (by simp [resolve_kind, hkind])
  | selector hkind => exact resolve_v1model (by simp [hkind, bitKinds]) (by simp [resolve_kind, hkind])
  | range hkind hty => exact resolve_v1model (by simp [hty, Ty.isBool]) (by simp [resolve_kind, hkind])

theorem exists_resolves (ctx : MatchContext) (hkind : (Resolver.ofTarget .v1model).supports ctx.key.matchKind = true)
    (hbits : ctx.key.matchKind ∈ bitKinds → ctx.ty ≠ .bool) : ∃ e, Resolves ctx e := by
  have hwidth : ctx.key.matchKind ∈ bitKinds → ∃ w, ctx.ty = .bits w := by
    intro hbit
    cases hty : ctx.ty with
    | bool => exact absurd hty (hbits hbit)
    | bits w => exact ⟨w, rfl⟩
  have hkinds := supports_v1model hkind
  simp only [List.mem_cons, List.not_mem_nil, or_false] at hkinds
  rcases hkinds with hkind | hkind | hkind | hkind | hkind | hkind
  · exact ⟨_, .exact hkind⟩
  · obtain ⟨w, hty⟩ := hwidth (by simp [hkind, bitKinds])
    exact ⟨_, .ternary hkind hty⟩
  · obtain ⟨w, hty⟩ := hwidth (by simp [hkind, bitKinds])
    exact ⟨_, .lpm hkind hty⟩
  · exact ⟨_, .optional hkind⟩
  · exact ⟨_, .selector hkind⟩
  · obtain ⟨w, hty⟩ := hwidth (by simp [hkind, bitKinds])
    exact ⟨_, .range hkind hty⟩

/-- The mask of a resolved lpm key for any prefix, as a shift of all ones. -/
theorem eval_lpmMask_eq {w p : Nat} (hty : ctx.ty = .bits w)
    (hs : env.symbol (.lpmPrefix ctx.table ctx.field ctx.ty) = some (.bits p)) :
    ctx.lpmMask.eval env = .ok (.bits (Value.shiftLeft w (2 ^ w - 1) (Value.sub w w p))) := by
  have hw : ctx.ty.width = w := by rw [hty]; rfl
  have hones : (literal ctx.ty ctx.ty.maxValue).eval env = .ok (.bits (2 ^ w - 1)) := by rw [hty]; rfl
  have hleft : (literal ctx.ty ctx.ty.maxValue).ty.width = w := by rw [hty]; rfl
  have hrest : (Term.sub (.constant ctx.ty ctx.ty.width) (ctx.symbol .lpmPrefix)).eval env =
      .ok (.bits (Value.sub ctx.ty.width ctx.ty.width p)) := eval_sub rfl (eval_symbol hs)
  rw [MatchContext.lpmMask, eval_shiftLeft hones hrest, hleft, hw]

/-- The mask of a resolved lpm key is the mask of the prefix. -/
theorem eval_lpmMask {w p : Nat} (hty : ctx.ty = .bits w) (hp : p ≤ w)
    (hs : env.symbol (.lpmPrefix ctx.table ctx.field ctx.ty) = some (.bits p)) :
    ctx.lpmMask.eval env = .ok (.bits (prefixMask w p)) := by
  rw [eval_lpmMask_eq hty hs, Value.shiftLeft_sub_eq_prefixMask hp]

theorem decides_maskedPredicate {mask : Term} {k v m : Nat} (hk : ctx.expr.eval env = .ok (.bits k))
    (hs : env.symbol (.key ctx.table ctx.field ctx.ty) = some (.bits v)) (hm : mask.eval env = .ok (.bits m)) :
    (ctx.maskedPredicate mask).Decides env (k &&& m = v &&& m) :=
  (decides_eq (eval_bitAnd hk hm) (eval_bitAnd (eval_symbol hs) hm)).congr (by rw [Value.bits.injEq])

theorem decides_between {low high e : Term} {l h k : Nat} (hl : low.eval env = .ok (.bits l))
    (hh : high.eval env = .ok (.bits h)) (hk : e.eval env = .ok (.bits k)) :
    (MatchContext.between low high e).Decides env ((l < h ∧ l ≤ k) ∧ k ≤ h) :=
  ((decides_lt hl hh).and (decides_le hl hk)).and (decides_le hk hh)

/-- The interval of all numbers of a type holds every one of them, where it has two ends. -/
theorem holds_full_interval {low high e : Term} {ty : Ty} {w : Nat} {v : Value} (hwidth : 1 ≤ ty.width)
    (hlow : low.eval env = .ok (.bits 0)) (hhigh : high.eval env = .ok (.bits ty.maxValue)) (hty : ty = .bits w)
    (hfits : v.Fits ty) (he : e.eval env = .ok v) : (MatchContext.between low high e).Holds env := by
  subst hty
  cases v with
  | bool b => cases hfits
  | bits k =>
    have hk : k < 2 ^ w := hfits
    have htwo : 2 ^ 1 ≤ 2 ^ w := Nat.pow_le_pow_right Nat.two_pos hwidth
    have hmax : (Ty.bits w).maxValue = 2 ^ w - 1 := rfl
    refine (decides_between hlow hhigh he).holds_iff.mpr ⟨⟨?_, Nat.zero_le k⟩, ?_⟩
    · omega
    · omega

/-! ## One key -/

namespace MatchValue

/-- The symbols of the key stand for what the match says: the value, and the mask, the prefix
    length or the bounds. -/
def Bound (env : Assignment) (table : String) (key : Key) : MatchValue → Prop
  | exact v | optional (some v) =>
    env.symbol (.key table key.fieldName key.ty) = some (literalValue key.ty v.value)
  | ternary v m =>
    env.symbol (.key table key.fieldName key.ty) = some (.bits v.value) ∧
      env.symbol (.ternaryMask table key.fieldName key.ty) = some (.bits m.value)
  | lpm v length =>
    env.symbol (.key table key.fieldName key.ty) = some (.bits v.value) ∧
      env.symbol (.lpmPrefix table key.fieldName key.ty) = some (.bits length.toNat)
  | range low high =>
    env.symbol (.rangeLow table key.fieldName key.ty) = some (.bits low.value) ∧
      env.symbol (.rangeHigh table key.fieldName key.ty) = some (.bits high.value)
  | optional none | unsupported _ => True

/-- The bounds of a range are in strict order. -/
def Proper : MatchValue → Prop
  | range low high => low.value < high.value
  | _ => True

end MatchValue

/-- A match that puts a predicate on a key, and symbols that stand for what it says: the
    resolved key and the predicate decide the same. -/
theorem MatchValue.Yields.agrees {value : MatchValue} {configured : Term} {v : Value}
    (hyields : value.Yields key (some configured)) (hbound : value.Bound env table key) (hproper : value.Proper)
    (hkey : key.expr.eval env = .ok v) (hsort : HasSort key.ty v) :
    ∃ resolved, (Resolver.ofTarget .v1model).predicate ⟨table, key, false⟩ = .ok resolved ∧
      ∃ p, resolved.Decides env p ∧ configured.Decides env p := by
  cases hyields with
  | exact hkind hv =>
    refine ⟨MatchContext.exactPredicate ⟨table, key, false⟩, ?_, _, decides_eq hkey (eval_symbol hbound),
      decides_eq hkey (eval_literal ..)⟩
    exact resolve_v1model (by simp [hkind, bitKinds]) (by simp [resolve_kind, hkind])
  | ternary hkind hty hv hm =>
    obtain ⟨k, rfl⟩ := HasSort.eq_bits (hty ▸ hsort)
    refine ⟨MatchContext.ternaryPredicate ⟨table, key, false⟩, ?_, _,
      decides_maskedPredicate hkey hbound.1 (eval_symbol hbound.2), decides_ternary hkey⟩
    exact resolve_v1model (by simp [MatchContext.ty, hty, Ty.isBool]) (by simp [resolve_kind, hkind])
  | lpm hkind hty hlength hv =>
    obtain ⟨k, rfl⟩ := HasSort.eq_bits (hty ▸ hsort)
    refine ⟨MatchContext.lpmPredicate ⟨table, key, false⟩, ?_, _,
      decides_maskedPredicate hkey hbound.1 (eval_lpmMask hty hlength hbound.2), ?_⟩
    · exact resolve_v1model (by simp [MatchContext.ty, hty, Ty.isBool]) (by simp [resolve_kind, hkind])
    · rw [hty]
      exact decides_lpm hkey
  | range hkind hty hlow hhigh =>
    obtain ⟨k, rfl⟩ := HasSort.eq_bits (hty ▸ hsort)
    refine ⟨_, resolve_range hkind hty, _, decides_between (eval_symbol hbound.1) (eval_symbol hbound.2) hkey, ?_⟩
    exact (decides_range hkey).congr (by rw [and_iff_right (show _ < _ from hproper)])
  | optional hkind hv =>
    refine ⟨MatchContext.exactPredicate ⟨table, key, false⟩, ?_, _, decides_eq hkey (eval_symbol hbound),
      decides_eq hkey (eval_literal ..)⟩
    exact resolve_v1model (by simp [hkind, bitKinds]) (by simp [resolve_kind, hkind, MatchContext.optionalPredicate])

/-! ## A range of any bounds -/

/-- The resolved predicate asks for bounds in strict order, which the match does not: the two
    differ at the point of a range of a single point, and nowhere else. -/
theorem range_agrees_iff {low high : Octets} {configured : Term} {k : Nat}
    (haccept : (MatchValue.range low high).predicate? key = .ok (some configured))
    (hbound : (MatchValue.range low high).Bound env table key) (hkey : key.expr.eval env = .ok (.bits k)) :
    ∃ resolved x y, (Resolver.ofTarget .v1model).predicate ⟨table, key, false⟩ = .ok resolved ∧
      resolved.evalBool env = .ok x ∧ configured.evalBool env = .ok y ∧
      (x = y ↔ ¬(low.value = high.value ∧ k = low.value)) := by
  cases MatchValue.predicate?_eq_ok.mp haccept with
  | range hkind hty hlow hhigh =>
    obtain ⟨x, hx, hxiff⟩ := decides_between (eval_symbol hbound.1) (eval_symbol hbound.2) hkey
    have hconfigured : (Predicate.range key.expr key.ty low.value high.value).Decides env
        (low.value ≤ k ∧ k ≤ high.value) := decides_range hkey
    obtain ⟨y, hy, hyiff⟩ := hconfigured
    refine ⟨_, x, y, resolve_range hkind hty, hx, hy, ?_⟩
    rw [Bool.eq_iff_iff, hxiff, hyiff]
    omega

def portKey : Key := ⟨.field "meta.port" (.bits 16), "range", some "port"⟩

def onlyPort80 (port : Nat) : Assignment :=
  ((Assignment.empty.setField "meta.port" (.bits port)).setSymbol (.rangeLow "ingress" "port" (.bits 16)) (.bits 80)
    ).setSymbol (.rangeHigh "ingress" "port" (.bits 16)) (.bits 80)

theorem range_agrees_iff_port :
    (MatchValue.range [80] [0, 80]).Bound (onlyPort80 443) "ingress" portKey ∧
      ∃ configured resolved b, (MatchValue.range [80] [0, 80]).predicate? portKey = .ok (some configured) ∧
        (Resolver.ofTarget .v1model).predicate ⟨"ingress", portKey, false⟩ = .ok resolved ∧
        resolved.evalBool (onlyPort80 443) = .ok b ∧ configured.evalBool (onlyPort80 443) = .ok b := by
  have hbound : (MatchValue.range [80] [0, 80]).Bound (onlyPort80 443) "ingress" portKey := ⟨rfl, rfl⟩
  have haccept : (MatchValue.range [80] [0, 80]).predicate? portKey =
      .ok (some (Predicate.range portKey.expr portKey.ty 80 80)) :=
    MatchValue.predicate?_eq_ok.mpr (.range rfl rfl (by decide) (by decide))
  have hkey : portKey.expr.eval (onlyPort80 443) = .ok (.bits 443) := by rfl
  obtain ⟨resolved, x, y, hr, hx, hy, hiff⟩ := range_agrees_iff haccept hbound hkey
  have hne : (443 : Nat) ≠ 80 := by omega
  obtain rfl : x = y := hiff.mpr fun h => hne h.2
  exact ⟨hbound, _, resolved, x, haccept, hr, hx, hy⟩

/-- At port 80 the match of the single port holds and the resolved key does not match. -/
theorem single_port_differs :
    (MatchValue.range [80] [80]).Bound (onlyPort80 80) "ingress" portKey ∧
      ∃ configured resolved, (MatchValue.range [80] [80]).predicate? portKey = .ok (some configured) ∧
        (Resolver.ofTarget .v1model).predicate ⟨"ingress", portKey, false⟩ = .ok resolved ∧
        resolved.evalBool (onlyPort80 80) = .ok false ∧ configured.evalBool (onlyPort80 80) = .ok true :=
  ⟨⟨rfl, rfl⟩, _, _, rfl, rfl, rfl, rfl⟩

/-! ## A whole table -/

namespace TableEntry

/-- The entry has a match that is set for every key of the table. -/
def Covers (entry : TableEntry) (table : Table) : Prop :=
  ∀ i < table.keys.length, ∃ m ∈ entry.fieldMatches, m.fieldId.toNat = i + 1 ∧ m.value ≠ .optional none

/-- The table is active, its symbols stand for what the entry says, the bounds of its ranges are
    in strict order and its keys have values. -/
structure Bound (env : Assignment) (table : Table) (entry : TableEntry) : Prop where
  active : env.symbol (.active table.name) = some (.bool true)
  keys : ∀ key ∈ table.keys, ∃ v, key.expr.eval env = .ok v ∧ HasSort key.ty v
  symbols : ∀ m ∈ entry.fieldMatches, ∀ key, table.key? m.fieldId = some key →
    m.value.Bound env table.name key
  proper : ∀ m ∈ entry.fieldMatches, ∀ key, table.key? m.fieldId = some key → m.value.Proper

variable {catalog : Catalog} {table : Table} {entry : TableEntry} {rule : Rule}

/-- A match of the entry, resolved: both predicates evaluate to the same boolean. -/
theorem agrees_at (hbound : entry.Bound env table) {m : FieldMatch} (hm : m ∈ entry.fieldMatches) {key : Key}
    (hk : table.key? m.fieldId = some key) {configured : Term}
    (hp : m.value.predicate? key = .ok (some configured)) :
    ∃ resolved, (Resolver.ofTarget .v1model).predicate ⟨table.name, key, false⟩ = .ok resolved ∧
      ∃ b, resolved.evalBool env = .ok b ∧ configured.evalBool env = .ok b := by
  obtain ⟨v, hv, hsort⟩ := hbound.keys key (Table.key?_mem hk)
  obtain ⟨resolved, hresolved, p, hr, hc⟩ := (MatchValue.predicate?_eq_ok.mp hp).agrees (hbound.symbols m hm key hk)
    (hbound.proper m hm key hk) hv hsort
  exact ⟨resolved, hresolved, hr.agree hc Iff.rfl⟩

/-- Every key of a covered table has a match that puts a predicate on it. -/
theorem covered_key {predicates : List (String × Term)}
    (h : keyPredicates table entry.fieldMatches = .ok predicates) (hcover : entry.Covers table) {key : Key}
    (hkey : key ∈ table.keys) : ∃ m ∈ entry.fieldMatches, table.key? m.fieldId = some key ∧
      ∃ configured, m.value.predicate? key = .ok (some configured) := by
  obtain ⟨i, hi, rfl⟩ := List.mem_iff_getElem.mp hkey
  obtain ⟨m, hm, hid, hset⟩ := hcover i hi
  have hk : table.key? m.fieldId = some table.keys[i] :=
    atPosition?_eq_some.mpr ⟨i, hid, List.getElem?_eq_getElem hi⟩
  obtain ⟨predicate, hp⟩ := exists_predicate h hm hk
  refine ⟨m, hm, hk, ?_⟩
  cases predicate with
  | some configured => exact ⟨configured, hp⟩
  | none =>
    -- only an optional match that is not set puts nothing on its key
    generalize m.value = value at hp hset
    cases MatchValue.predicate?_eq_ok.mp hp
    exact absurd rfl hset

/-- Where the symbols stand for what an entry says of every key, the table hits exactly when
    the rule of the entry matches, and both always evaluate. That the entry was accepted
    says which kinds the keys declare and that those with bits are bit vectors. -/
theorem hitCondition_eq_condition (ht : catalog.table? entry.tableId = some table)
    (hnames : (table.keys.map Key.fieldName).Nodup)
    (hconvert : (entry.convert catalog).1 = some (.addRule table.name rule)) (hcover : entry.Covers table)
    (hbound : entry.Bound env table) :
    ∃ hit b, (Resolver.ofTarget .v1model).hitCondition table (fun _ => false) = .ok hit ∧
      hit.evalBool env = .ok b ∧ rule.condition.evalBool env = .ok b := by
  obtain ⟨hfresh, predicates, hp, hkeys⟩ := keySet_of_convert ht hconvert
  have hvalues : ∀ e, e ∈ rule.keySet.values ↔ ∃ field, (field, e) ∈ predicates := fun e => by
    rw [hkeys, SortedMap.mem_values_ofList (nodup_keyPredicates hnames hfresh hp)]
  have hsettled : ∀ key ∈ table.keys, ∃ resolved,
      (Resolver.ofTarget .v1model).predicate ⟨table.name, key, false⟩ = .ok resolved := by
    intro key hkey
    obtain ⟨m, hm, hk, configured, hc⟩ := covered_key hp hcover hkey
    obtain ⟨resolved, hr, -⟩ := agrees_at hbound hm hk hc
    exact ⟨resolved, hr⟩
  obtain ⟨parts, hparts⟩ := mapM_settled hsettled
  -- the members of the two conjunctions correspond, although their orders do not
  have hpart : ∀ e ∈ parts, ∃ b, e.evalBool env = .ok b ∧ ∃ configured ∈ rule.keySet.values,
      configured.evalBool env = .ok b := by
    intro e he
    obtain ⟨key, hkey, hr⟩ := (mem_of_mapM hparts).mp he
    obtain ⟨m, hm, hk, configured, hc⟩ := covered_key hp hcover hkey
    obtain ⟨resolved, hr', b, hb, hb'⟩ := agrees_at hbound hm hk hc
    obtain rfl : resolved = e := by rw [hr] at hr'; exact (Except.ok.inj hr').symm
    exact ⟨b, hb, configured,
      (hvalues _).mpr ⟨key.fieldName, (mem_keyPredicates hp).mpr ⟨m, hm, key, hk, rfl, hc⟩⟩, hb'⟩
  have hvalue : ∀ e ∈ rule.keySet.values, ∃ b, e.evalBool env = .ok b ∧ ∃ resolved ∈ parts,
      resolved.evalBool env = .ok b := by
    intro e he
    obtain ⟨field, he⟩ := (hvalues e).mp he
    obtain ⟨m, hm, key, hk, -, hc⟩ := (mem_keyPredicates hp).mp he
    obtain ⟨resolved, hr, b, hb, hb'⟩ := agrees_at hbound hm hk hc
    exact ⟨b, hb', resolved, (mem_of_mapM hparts).mpr ⟨key, Table.key?_mem hk, hr⟩, hb⟩
  obtain ⟨b, hhit, hcondition⟩ := all_agree hpart hvalue
  refine ⟨.all (.symbol (.active table.name) :: parts), b, ?_, ?_, hcondition⟩
  · simp only [Resolver.hitCondition, hparts]
    rfl
  · rw [evalBool_all] at hhit ⊢
    simp only [List.allM_cons, evalBool, eval_symbol hbound.active]
    exact hhit

def filterTable : Table where
  name := "filter"
  keys := [⟨.field "ip.src" (.bits 8), "lpm", some "src"⟩, ⟨.field "meta.port" (.bits 16), "range", some "port"⟩,
    ⟨.field "meta.ok" .bool, "exact", none⟩, ⟨.field "ip.tos" (.bits 4), "ternary", none⟩,
    ⟨.field "ip.ttl" (.bits 8), "optional", some "ttl"⟩]
  actions := ["drop"]

def filterCatalog : Catalog :=
  .ofProgram { tables := [filterTable], actions := [⟨"drop", []⟩] } [(1, "filter")] [(7, "drop")]

/-- The sources 0xa0 to 0xaf and the ports 80 to 90, with leading zeros in the values. -/
def filterEntry : TableEntry where
  tableId := 1
  fieldMatches := [⟨3, .exact [1]⟩, ⟨5, .optional (some [0, 64])⟩, ⟨2, .range [0, 80] [90]⟩, ⟨1, .lpm [0, 0xa7] 4⟩,
    ⟨4, .ternary [0b1010] [0b1110]⟩]
  action := some (.call ⟨7, []⟩)

def filterRule : Rule where
  keySet := .ofList [("src", Predicate.lpm (.field "ip.src" (.bits 8)) (.bits 8) 0xa7 4),
    ("port", Predicate.range (.field "meta.port" (.bits 16)) (.bits 16) 80 90),
    ("meta.ok", Predicate.exact (.field "meta.ok" .bool) .bool 1),
    ("ip.tos", Predicate.ternary (.field "ip.tos" (.bits 4)) (.bits 4) 10 14),
    ("ttl", Predicate.exact (.field "ip.ttl" (.bits 8)) (.bits 8) 64)]
  action := .direct "drop" 0 []

def filterPacket : Assignment where
  field
    | "ip.src" => some (.bits 0xa3)
    | "meta.port" => some (.bits 85)
    | "meta.ok" => some (.bool true)
    | "ip.tos" => some (.bits 0b1011)
    | "ip.ttl" => some (.bits 64)
    | _ => none
  symbol s :=
    if s = .active "filter" then some (.bool true)
    else if s = .key "filter" "src" (.bits 8) then some (.bits 0xa7)
    else if s = .lpmPrefix "filter" "src" (.bits 8) then some (.bits 4)
    else if s = .rangeLow "filter" "port" (.bits 16) then some (.bits 80)
    else if s = .rangeHigh "filter" "port" (.bits 16) then some (.bits 90)
    else if s = .key "filter" "meta.ok" .bool then some (.bool true)
    else if s = .key "filter" "ip.tos" (.bits 4) then some (.bits 0b1010)
    else if s = .ternaryMask "filter" "ip.tos" (.bits 4) then some (.bits 0b1110)
    else if s = .key "filter" "ttl" (.bits 8) then some (.bits 64)
    else none

theorem filterEntry_covers : filterEntry.Covers filterTable := by
  unfold Covers
  decide

theorem filterPacket_bound : filterEntry.Bound filterPacket filterTable := by
  refine ⟨rfl, ?_, ?_, ?_⟩
  · intro key hkey
    simp only [filterTable, List.mem_cons, List.not_mem_nil, or_false] at hkey
    rcases hkey with rfl | rfl | rfl | rfl | rfl <;> exact ⟨_, rfl, trivial⟩
  · intro m hm key hk
    simp only [filterEntry, List.mem_cons, List.not_mem_nil, or_false] at hm
    rcases hm with rfl | rfl | rfl | rfl | rfl <;> obtain rfl := Option.some.inj hk
    · rfl
    · rfl
    · exact ⟨rfl, rfl⟩
    · exact ⟨rfl, rfl⟩
    · exact ⟨rfl, rfl⟩
  · intro m hm key _
    simp only [filterEntry, List.mem_cons, List.not_mem_nil, or_false] at hm
    rcases hm with rfl | rfl | rfl | rfl | rfl
    · trivial
    · trivial
    · show 80 < 90
      decide
    · trivial
    · trivial

theorem hitCondition_eq_condition_filter :
    filterCatalog.table? filterEntry.tableId = some filterTable ∧ (filterTable.keys.map Key.fieldName).Nodup ∧
      (filterEntry.convert filterCatalog).1 = some (.addRule filterTable.name filterRule) ∧
      filterEntry.Covers filterTable ∧ filterEntry.Bound filterPacket filterTable ∧
      ∃ hit, (Resolver.ofTarget .v1model).hitCondition filterTable (fun _ => false) = .ok hit ∧
        hit.evalBool filterPacket = .ok true := by
  have hnames : (filterTable.keys.map Key.fieldName).Nodup := by decide
  have hconvert : (filterEntry.convert filterCatalog).1 = some (.addRule filterTable.name filterRule) := by rfl
  refine ⟨rfl, hnames, hconvert, filterEntry_covers, filterPacket_bound, ?_⟩
  obtain ⟨hit, b, hhit, hb, hcondition⟩ :=
    hitCondition_eq_condition rfl hnames hconvert filterEntry_covers filterPacket_bound
  have htrue : filterRule.condition.evalBool filterPacket = .ok true := by rfl
  obtain rfl : true = b := by rw [htrue] at hcondition; exact Except.ok.inj hcondition
  exact ⟨hit, hhit, hb⟩

end TableEntry

end MatchAction
