/-
  MatchAction.Proofs.Resolve.HitCondition — which tables have a hit condition, and what it says.

  A key is refused for one of two reasons: its kind needs bits and it is boolean, or nobody
  recognises its kind. The reasons are looked at in this order and the keys in the order of
  the table, whatever is tainted. A handler is lawful when it answers exactly for the kinds
  that it lists; the handlers of the targets are.

  Proved:
  - `predicate_eq_error_iff`: a resolver with lawful handlers fails on a key exactly for a
    reason to refuse it.
  - `hitCondition_eq_error_iff`: the hit condition fails with the reason of the first key that
    is refused.
  - `resolves_of_predicate`: what any target resolves a key to is what v1model does.
  - `Resolves.formula`: what a key resolves to is well-typed and boolean, if the key's term is
    well-typed; a width is always a number of that width.
  - `hitCondition_decides`: so the hit condition is true or false wherever it is bound, and true
    exactly when the table is active and every key matches.
  - `Target.hitCondition_refused_or_decides`: these together, for the resolver of a target.
-/

import MatchAction.Proofs.KeyPredicate
import MatchAction.Proofs.Resolve.Convergence

namespace MatchAction

open Term

/-! ## Handlers that keep to their kinds -/

/-- The handler answers exactly for the kinds that it lists. -/
def Handler.Lawful (handler : Handler) : Prop :=
  ∀ ctx, (handler.predicate? ctx).isSome = handler.handles ctx.key.matchKind

theorem Handler.v1model_lawful : Handler.v1model.Lawful := by
  intro ctx
  change ctx.addedPredicate?.isSome = ["optional", "selector", "range"].contains ctx.key.matchKind
  unfold MatchContext.addedPredicate?
  split
  · rename_i hkind
    rw [hkind]
    rfl
  · rename_i hkind
    rw [hkind]
    rfl
  · rename_i hkind
    rw [hkind]
    rfl
  · simp_all

namespace Resolver

variable {resolver : Resolver} {ctx : MatchContext} {table : Table} {tainted : Term → Bool} {fault : ResolveError}

def Lawful (resolver : Resolver) : Prop := ∀ handler ∈ resolver.handlers, handler.Lawful

theorem lawful_ofTarget (target : Target) : (ofTarget target).Lawful := by
  cases target with
  | core => exact List.forall_mem_nil _
  | v1model => exact List.forall_mem_singleton.mpr Handler.v1model_lawful

/-- Someone answers for a key exactly when its kind is supported. -/
theorem isSome_answer (h : resolver.Lawful) (ctx : MatchContext) :
    (resolver.handlers.findSome? (·.predicate? ctx) <|> ctx.corePredicate?).isSome =
      resolver.supports ctx.key.matchKind := by
  have hhandlers : (resolver.handlers.findSome? (·.predicate? ctx)).isSome =
      resolver.handlers.any (·.handles ctx.key.matchKind) := by
    rw [List.isSome_findSome?]
    refine Bool.eq_iff_iff.mpr ?_
    simp only [List.any_eq_true]
    exact exists_congr fun handler => and_congr_right fun hhandler => by rw [h handler hhandler]
  have hcore : ctx.corePredicate?.isSome = (CoreKind.ofName? ctx.key.matchKind).isSome := Option.isSome_map
  rw [supports, ← hhandlers, ← hcore, Bool.or_comm]
  cases resolver.handlers.findSome? (·.predicate? ctx) <;> rfl

/-! ## Keys that are refused -/

/-- Why a key of the table is refused. -/
inductive Refuses (resolver : Resolver) (table : String) (key : Key) : ResolveError → Prop
  | booleanKey : key.ty = .bool → key.matchKind ∈ bitKinds →
      Refuses resolver table key (.booleanKey table key.fieldName key.matchKind)
  | unhandledKind : ¬(key.ty = .bool ∧ key.matchKind ∈ bitKinds) → resolver.supports key.matchKind = false →
      Refuses resolver table key (.unhandledKind table key.matchKind)

theorem exists_refuses_iff {name : String} {key : Key} :
    (∃ fault, resolver.Refuses name key fault) ↔
      key.ty = .bool ∧ key.matchKind ∈ bitKinds ∨ resolver.supports key.matchKind = false := by
  constructor
  · intro ⟨fault, h⟩
    cases h with
    | booleanKey hty hkind => exact .inl ⟨hty, hkind⟩
    | unhandledKind _ hkind => exact .inr hkind
  · intro h
    by_cases hbits : key.ty = .bool ∧ key.matchKind ∈ bitKinds
    · exact ⟨_, .booleanKey hbits.1 hbits.2⟩
    · exact ⟨_, .unhandledKind hbits (h.resolve_left hbits)⟩

theorem refusedBits_iff :
    (ctx.ty.isBool && bitKinds.contains ctx.key.matchKind) = true ↔ ctx.key.ty = .bool ∧ ctx.key.matchKind ∈ bitKinds := by
  rw [Bool.and_eq_true, List.contains_iff_mem]
  refine and_congr_left fun _ => ?_
  change ctx.key.ty.isBool = true ↔ _
  cases ctx.key.ty <;> simp [Ty.isBool]

theorem predicate_eq_error_iff (h : resolver.Lawful) :
    resolver.predicate ctx = .error fault ↔ resolver.Refuses ctx.table ctx.key fault := by
  unfold predicate
  by_cases hbits : ctx.key.ty = .bool ∧ ctx.key.matchKind ∈ bitKinds
  · rw [if_pos (refusedBits_iff.mpr hbits)]
    constructor
    · intro heq
      obtain rfl := Except.error.inj heq
      exact .booleanKey hbits.1 hbits.2
    · intro hrefuses
      cases hrefuses with
      | booleanKey _ _ => rfl
      | unhandledKind hno _ => exact absurd hbits hno
  · rw [if_neg fun hrefused => hbits (refusedBits_iff.mp hrefused)]
    have hanswer := isSome_answer h ctx
    cases hfound : (resolver.handlers.findSome? (·.predicate? ctx) <|> ctx.corePredicate?) with
    | none =>
      rw [hfound] at hanswer
      constructor
      · intro heq
        obtain rfl := Except.error.inj heq
        exact .unhandledKind hbits hanswer.symm
      · intro hrefuses
        cases hrefuses with
        | booleanKey hty hkind => exact absurd ⟨hty, hkind⟩ hbits
        | unhandledKind _ _ => rfl
    | some e =>
      rw [hfound] at hanswer
      constructor
      · intro heq
        cases heq
      · intro hrefuses
        cases hrefuses with
        | booleanKey hty hkind => exact absurd ⟨hty, hkind⟩ hbits
        | unhandledKind _ hkind =>
          rw [hkind] at hanswer
          cases hanswer

/-! ## Tables that are refused -/

def FirstRefused (resolver : Resolver) (table : Table) (fault : ResolveError) : Prop :=
  ∃ before key after, table.keys = before ++ key :: after ∧
    (∀ earlier ∈ before, ∀ reason, ¬resolver.Refuses table.name earlier reason) ∧
    resolver.Refuses table.name key fault

theorem hitCondition_eq_ok {hit : Term} : resolver.hitCondition table tainted = .ok hit ↔
    ∃ parts, table.keys.mapM (fun key => resolver.predicate ⟨table.name, key, tainted key.expr⟩) = .ok parts ∧
      .all (.symbol (.active table.name) :: parts) = hit := by
  simp only [hitCondition, bind_eq_ok, pure_eq_ok]

theorem hitCondition_eq_error_iff (h : resolver.Lawful) :
    resolver.hitCondition table tainted = .error fault ↔ resolver.FirstRefused table fault := by
  have hmapM : resolver.hitCondition table tainted = .error fault ↔
      table.keys.mapM (fun key => resolver.predicate ⟨table.name, key, tainted key.expr⟩) = .error fault := by
    rw [hitCondition, bind_eq_error]
    refine or_iff_left ?_
    rintro ⟨parts, -, hpure⟩
    cases hpure
  have hsettled : ∀ key : Key, (∃ e, resolver.predicate ⟨table.name, key, tainted key.expr⟩ = .ok e) ↔
      ∀ reason, ¬resolver.Refuses table.name key reason := by
    intro key
    have herror : ∀ reason, resolver.predicate ⟨table.name, key, tainted key.expr⟩ = .error reason ↔
        resolver.Refuses table.name key reason := fun reason => predicate_eq_error_iff h
    simp only [← herror]
    cases resolver.predicate ⟨table.name, key, tainted key.expr⟩ with
    | error reason => simp
    | ok e => simp
  rw [hmapM, mapM_eq_error]
  simp only [hsettled, predicate_eq_error_iff h]
  exact Iff.rfl

/-- What fails, and why, does not depend on what is known. -/
theorem hitCondition_fault_congr (h : resolver.Lawful) {few many : Term → Bool} :
    resolver.hitCondition table few = .error fault ↔ resolver.hitCondition table many = .error fault :=
  (hitCondition_eq_error_iff h).trans (hitCondition_eq_error_iff h).symm

theorem exists_hitCondition_eq_error_iff (h : resolver.Lawful) :
    (∃ fault, resolver.hitCondition table tainted = .error fault) ↔
      ∃ key ∈ table.keys, ∃ fault, resolver.Refuses table.name key fault := by
  constructor
  · intro ⟨fault, hfault⟩
    obtain ⟨before, key, after, hkeys, -, hrefuses⟩ := (hitCondition_eq_error_iff h).mp hfault
    refine ⟨key, ?_, fault, hrefuses⟩
    rw [hkeys]
    exact List.mem_append_right _ (List.mem_cons_self ..)
  · intro ⟨key, hkey, fault, hrefuses⟩
    cases hhit : resolver.hitCondition table tainted with
    | error reason => exact ⟨reason, rfl⟩
    | ok hit =>
      obtain ⟨parts, hparts, -⟩ := hitCondition_eq_ok.mp hhit
      obtain ⟨e, he⟩ := settled_of_mapM hparts key hkey
      have hfault : resolver.predicate ⟨table.name, key, tainted key.expr⟩ = .error fault :=
        (predicate_eq_error_iff h).mpr hrefuses
      rw [he] at hfault
      cases hfault

end Resolver

/-! ## What the keys of a target resolve to -/

variable {target : Target} {ctx : MatchContext} {table : Table} {tainted : Term → Bool} {env : Assignment} {e hit : Term}

/-- A kind of every target is none that v1model adds. -/
theorem addedPredicate?_or_corePredicate? (h : ctx.corePredicate? = some e) :
    (ctx.addedPredicate? <|> ctx.corePredicate?) = some e := by
  rw [MatchContext.corePredicate?, CoreKind.ofName?_eq] at h
  rw [resolve_kind]
  split at h
  · rename_i hkind
    rw [hkind]
    exact h
  · rename_i hkind
    rw [hkind]
    exact h
  · rename_i hkind
    rw [hkind]
    exact h
  · cases h

/-- What a target resolves a key to, v1model resolves it to as well. -/
theorem predicate_v1model (h : (Resolver.ofTarget target).predicate ctx = .ok e) :
    (Resolver.ofTarget .v1model).predicate ctx = .ok e := by
  cases target with
  | v1model => exact h
  | core =>
    unfold Resolver.predicate at h
    split at h
    · cases h
    · rename_i hbits
      split at h
      · rename_i answer hanswer
        obtain rfl := Except.ok.inj h
        exact resolve_v1model (eq_false_of_ne_true hbits) (addedPredicate?_or_corePredicate? hanswer)
      · cases h

theorem resolves_of_predicate (h : (Resolver.ofTarget target).predicate ctx = .ok e) : Resolves ctx e := by
  have hpredicate := predicate_v1model h
  have hnot : ¬∃ fault, (Resolver.ofTarget .v1model).Refuses ctx.table ctx.key fault := by
    rintro ⟨fault, hrefuses⟩
    have hfault := (Resolver.predicate_eq_error_iff (Resolver.lawful_ofTarget .v1model)).mpr hrefuses
    rw [hpredicate] at hfault
    cases hfault
  rw [Resolver.exists_refuses_iff, not_or] at hnot
  obtain ⟨resolved, hresolved⟩ :=
    exists_resolves ctx (eq_true_of_ne_false hnot.2) fun hkind hty => hnot.1 ⟨hty, hkind⟩
  obtain rfl : resolved = e := Except.ok.inj (hresolved.predicate_eq.symm.trans hpredicate)
  exact hresolved

/-- The mask of an lpm key is a number of the key's width: so are all ones, and the width itself,
    which is below `2 ^ w` for every `w`. -/
theorem lpmMask_wellTyped {w : Nat} (hty : ctx.ty = .bits w) : ctx.lpmMask.WellTyped ∧ ctx.lpmMask.ty = .bits w := by
  have hones : (literal ctx.ty ctx.ty.maxValue).WellTyped := literal_wellTyped (Ty.fits_maxValue ctx.ty)
  have hrest : (Term.sub (.constant ctx.ty ctx.ty.width) (ctx.symbol .lpmPrefix)).WellTyped := by
    rw [hty]
    exact ⟨constant_wellTyped Nat.lt_two_pow_self, trivial, nofun, hty.symm⟩
  have hleft : (literal ctx.ty ctx.ty.maxValue).ty = .bits w := (literal_ty ..).trans hty
  exact ⟨⟨hones, hrest, hleft ▸ nofun, hleft.trans hty.symm⟩, hleft⟩

theorem maskedPredicate_formula {mask : Term} {w : Nat} (hkey : ctx.expr.WellTyped) (hty : ctx.ty = .bits w)
    (hmask : mask.WellTyped) (htm : mask.ty = .bits w) : (ctx.maskedPredicate mask).Formula := by
  have hsymbol : (ctx.symbol .key).ty = .bits w := hty
  exact .eq (bitAnd_wellTyped hkey hmask hty htm) (bitAnd_wellTyped trivial hmask hsymbol htm) (hty.trans hsymbol.symm)

theorem between_formula {low high key : Term} {w : Nat} (hlow : low.WellTyped) (hhigh : high.WellTyped)
    (hkey : key.WellTyped) (htl : low.ty = .bits w) (hth : high.ty = .bits w) (htk : key.ty = .bits w) :
    (MatchContext.between low high key).Formula := by
  have hlt : (Term.lt low high).Formula := ⟨⟨hlow, hhigh, htl ▸ nofun, htl.trans hth.symm⟩, rfl⟩
  exact .and (.and hlt (.le hlow hkey htl htk)) (.le hkey hhigh htk hth)

theorem Resolves.formula (h : Resolves ctx e) (hkey : ctx.expr.WellTyped) : e.Formula := by
  have hexact : ctx.exactPredicate.Formula := .eq hkey trivial rfl
  cases h with
  | exact _ => exact hexact
  | ternary _ hty => exact maskedPredicate_formula hkey hty trivial hty
  | lpm _ hty => exact maskedPredicate_formula hkey hty (lpmMask_wellTyped hty).1 (lpmMask_wellTyped hty).2
  | optional _ =>
    unfold MatchContext.optionalPredicate
    split
    · exact ⟨trivial, rfl⟩
    · exact hexact
  | selector _ => exact .eq hkey trivial rfl
  | range _ hty =>
    unfold MatchContext.rangePredicate
    split
    · have hlow : (literal ctx.ty 0).WellTyped := literal_wellTyped (Ty.fits_zero ctx.ty)
      have hhigh : (literal ctx.ty ctx.ty.maxValue).WellTyped := literal_wellTyped (Ty.fits_maxValue ctx.ty)
      have htl : (literal ctx.ty 0).ty = _ := (literal_ty ..).trans hty
      exact between_formula hlow hhigh hlow htl ((literal_ty ..).trans hty) htl
    · exact between_formula trivial trivial hkey hty hty hty

/-! ## The hit condition -/

/-- The hit condition of well-typed keys is true or false wherever it is bound, and true exactly
    when the table is active and every key matches. -/
theorem hitCondition_decides (htyped : ∀ key ∈ table.keys, key.expr.WellTyped)
    (hhit : (Resolver.ofTarget target).hitCondition table tainted = .ok hit) (hbound : hit.Bound env) :
    hit.Decides env (env.symbol (.active table.name) = some (.bool true) ∧ ∀ key ∈ table.keys, ∃ e,
      (Resolver.ofTarget target).predicate ⟨table.name, key, tainted key.expr⟩ = .ok e ∧ e.Holds env) := by
  obtain ⟨parts, hparts, rfl⟩ := Resolver.hitCondition_eq_ok.mp hhit
  have hformula : ∀ e ∈ Term.symbol (.active table.name) :: parts, e.Formula := by
    refine List.forall_mem_cons.mpr ⟨⟨trivial, rfl⟩, ?_⟩
    intro e he
    obtain ⟨key, hkey, hresolved⟩ := (mem_of_mapM hparts).mp he
    exact (resolves_of_predicate hresolved).formula (htyped key hkey)
  refine (decides_holds ((Formula.all hformula).settled hbound)).congr (holds_all_iff.trans ?_)
  rw [List.forall_mem_cons, holds_symbol_iff]
  refine and_congr_right fun _ => ?_
  constructor
  · intro h key hkey
    obtain ⟨e, he⟩ := settled_of_mapM hparts key hkey
    exact ⟨e, he, h e ((mem_of_mapM hparts).mpr ⟨key, hkey, he⟩)⟩
  · intro h e he
    obtain ⟨key, hkey, hresolved⟩ := (mem_of_mapM hparts).mp he
    obtain ⟨e', he', hholds⟩ := h key hkey
    obtain rfl : e' = e := Except.ok.inj (he'.symm.trans hresolved)
    exact hholds

/-- A target fails on a table exactly when a boolean key needs bits or a kind is not supported, with
    the reason of the first such key. Otherwise the hit condition evaluates to a boolean wherever
    it is bound, which is true exactly when the table is active and every key matches. -/
theorem Target.hitCondition_refused_or_decides (target : Target) (table : Table)
    (htyped : ∀ key ∈ table.keys, key.expr.WellTyped) (tainted : Term → Bool) :
    ((∃ fault, (Resolver.ofTarget target).hitCondition table tainted = .error fault) ↔
        ∃ key ∈ table.keys, key.ty = .bool ∧ key.matchKind ∈ bitKinds ∨
          (Resolver.ofTarget target).supports key.matchKind = false) ∧
      (∀ fault, (Resolver.ofTarget target).hitCondition table tainted = .error fault ↔
        (Resolver.ofTarget target).FirstRefused table fault) ∧
      ∀ hit, (Resolver.ofTarget target).hitCondition table tainted = .ok hit → ∀ env, hit.Bound env →
        hit.Decides env (env.symbol (.active table.name) = some (.bool true) ∧ ∀ key ∈ table.keys, ∃ e,
          (Resolver.ofTarget target).predicate ⟨table.name, key, tainted key.expr⟩ = .ok e ∧ e.Holds env) := by
  have hlawful := Resolver.lawful_ofTarget target
  refine ⟨?_, fun _ => Resolver.hitCondition_eq_error_iff hlawful, ?_⟩
  · rw [Resolver.exists_hitCondition_eq_error_iff hlawful]
    simp only [Resolver.exists_refuses_iff]
  · intro hit hhit env hbound
    exact hitCondition_decides htyped hhit hbound

/-- A prefix of a single bit, a range and a boolean. -/
def guardTable : Table where
  name := "guard"
  keys := [⟨.field "meta.side" (.bits 1), "lpm", some "side"⟩, ⟨.field "meta.port" (.bits 16), "range", some "port"⟩,
    ⟨.field "meta.ok" .bool, "exact", none⟩]
  actions := ["drop"]

def portUnknown (e : Term) : Bool := e = .field "meta.port" (.bits 16)

def guardPacket : Assignment where
  field
    | "meta.side" => some (.bits 1)
    | "meta.ok" => some (.bool true)
    | _ => none
  symbol s :=
    if s = .active "guard" then some (.bool true)
    else if s = .key "guard" "side" (.bits 1) then some (.bits 1)
    else if s = .lpmPrefix "guard" "side" (.bits 1) then some (.bits 1)
    else if s = .key "guard" "meta.ok" .bool then some (.bool true)
    else none

def guardHit : Term :=
  .all [.symbol (.active "guard"), MatchContext.lpmPredicate ⟨"guard", guardTable.keys[0], false⟩,
    MatchContext.rangePredicate ⟨"guard", guardTable.keys[1], true⟩,
    MatchContext.exactPredicate ⟨"guard", guardTable.keys[2], false⟩]

theorem hitCondition_guard : (Resolver.ofTarget .v1model).hitCondition guardTable portUnknown = .ok guardHit := by
  rfl

theorem hitCondition_refused_or_decides_guard : (∀ key ∈ guardTable.keys, key.expr.WellTyped) ∧
    guardHit.Bound guardPacket ∧ guardHit.evalBool guardPacket = .ok true ∧
      (Resolver.ofTarget .core).hitCondition guardTable portUnknown = .error (.unhandledKind "guard" "range") := by
  have htyped : ∀ key ∈ guardTable.keys, key.expr.WellTyped := by decide
  have hbound : guardHit.Bound guardPacket := by
    refine bound_all.mpr (List.forall_mem_cons.mpr ⟨⟨_, rfl, trivial⟩, List.forall_mem_cons.mpr ⟨?_, ?_⟩⟩)
    · have hkey : ∃ v, guardPacket.symbol (.key "guard" "side" (.bits 1)) = some v ∧ v.Fits (.bits 1) :=
        ⟨.bits 1, rfl, by decide⟩
      have hprefix : ∃ v, guardPacket.symbol (.lpmPrefix "guard" "side" (.bits 1)) = some v ∧ v.Fits (.bits 1) :=
        ⟨.bits 1, rfl, by decide⟩
      have hside : ∃ v, guardPacket.field "meta.side" = some v ∧ v.Fits (.bits 1) := ⟨.bits 1, rfl, by decide⟩
      exact ⟨⟨hside, trivial, trivial, hprefix⟩, hkey, trivial, trivial, hprefix⟩
    · refine List.forall_mem_cons.mpr ⟨⟨⟨⟨trivial, trivial⟩, trivial, trivial⟩, trivial, trivial⟩, ?_⟩
      exact List.forall_mem_singleton.mpr ⟨⟨_, rfl, trivial⟩, _, rfl, trivial⟩
  obtain ⟨-, -, hdecides⟩ := Target.hitCondition_refused_or_decides .v1model guardTable htyped portUnknown
  obtain ⟨-, hfault, -⟩ := Target.hitCondition_refused_or_decides .core guardTable htyped portUnknown
  obtain ⟨b, hb, hiff⟩ := hdecides guardHit hitCondition_guard guardPacket hbound
  have hmatch : ∀ key ∈ guardTable.keys, ∃ e, (Resolver.ofTarget .v1model).predicate
      ⟨"guard", key, portUnknown key.expr⟩ = .ok e ∧ e.Holds guardPacket := by
    refine List.forall_mem_cons.mpr ⟨⟨_, rfl, rfl⟩, List.forall_mem_cons.mpr ⟨⟨_, rfl, rfl⟩, ?_⟩⟩
    exact List.forall_mem_singleton.mpr ⟨_, rfl, rfl⟩
  obtain rfl : b = true := hiff.mpr ⟨rfl, hmatch⟩
  refine ⟨htyped, hbound, hb, (hfault _).mpr ?_⟩
  refine ⟨guardTable.keys.take 1, guardTable.keys[1], guardTable.keys.drop 2, rfl, ?_, .unhandledKind nofun rfl⟩
  refine List.forall_mem_singleton.mpr ?_
  intro reason hrefuses
  cases hrefuses with
  | booleanKey hty _ => cases hty
  | unhandledKind _ hkind => cases hkind

end MatchAction
