/-
  MatchAction.Proofs.Resolve.Taint — a key that is not known excludes nothing.

  Whether a key is known matters to two kinds of v1model alone: an optional match on a key
  that is not known is true, and a range on one is the full interval with the key at its
  lower end. The full interval has two ends unless the width is zero, and then no range on
  the key has bounds in strict order either. So the condition of a table only gets weaker
  as fewer keys are known, and asks for fewer symbols.

  Proved:
  - `relaxes_of_predicate`: the predicate of one key that is no longer known is relaxed.
  - `constant_of_tainted`: what an optional or a range key that is not known resolves to has
    the same value under every assignment.
  - `Target.tainting_excludes_nothing`: for the hit condition of a table and any two sets of
    keys that are not known, of which one contains the other.
-/

import MatchAction.Proofs.Resolve.HitCondition

namespace MatchAction

open Term

namespace Term

variable {a b e : Term}

/-- The term is true wherever `a` is bound and true, and has no symbols but those of `a`. -/
structure Relaxes (e a : Term) : Prop where
  holds : ∀ env, a.Bound env → a.Holds env → e.Holds env
  symbols : ∀ s ∈ e.symbols.toList, s ∈ a.symbols.toList

/-- The term has the same value, or fails in the same way, under every assignment. -/
def Constant (e : Term) : Prop := ∀ env other, e.eval env = e.eval other

namespace Relaxes

theorem refl (e : Term) : e.Relaxes e := ⟨fun _ _ h => h, fun _ h => h⟩

/-- A conjunction is relaxed with each of its members. -/
theorem all {es fs : List Term} (h : ∀ e ∈ es, ∃ a ∈ fs, e.Relaxes a) : (Term.all es).Relaxes (.all fs) := by
  constructor
  · intro env hbound hholds
    rw [holds_all_iff] at hholds ⊢
    rw [bound_all] at hbound
    intro e he
    obtain ⟨a, ha, hrelaxes⟩ := h e he
    exact hrelaxes.holds env (hbound a ha) (hholds a ha)
  · intro s hs
    obtain ⟨e, he, hs⟩ := mem_symbols_all.mp hs
    obtain ⟨a, ha, hrelaxes⟩ := h e he
    exact mem_symbols_all.mpr ⟨a, ha, hrelaxes.symbols s hs⟩

end Relaxes

end Term

/-! ## One key -/

variable {target : Target} {name : String} {key : Key} {ctx : MatchContext} {table : Table} {a b e : Term}

theorem Resolves.unique {resolved : Term} (h : Resolves ctx e) (hresolved : Resolves ctx resolved) : e = resolved :=
  Except.ok.inj (h.predicate_eq.symm.trans hresolved.predicate_eq)

theorem symbols_between_literals {ty : Ty} {low high : Nat} {s : Symbol} :
    s ∉ (MatchContext.between (literal ty low) (literal ty high) (literal ty low)).symbols.toList := by
  simp [MatchContext.between, Term.and, Term.lt, Term.le, mem_symbols_binary, symbols_literal]

/-- Where the bounds of a range on the key are in strict order the width is not zero, so the full
    interval has two ends. -/
theorem relaxes_range {w : Nat} (hty : key.ty = .bits w) :
    (MatchContext.rangePredicate ⟨name, key, true⟩).Relaxes (MatchContext.rangePredicate ⟨name, key, false⟩) := by
  constructor
  · intro env hbound hholds
    obtain ⟨hlt, -⟩ := holds_and_iff.mp (holds_and_iff.mp hholds).1
    obtain ⟨⟨⟨⟨low, hlow, hlowFits⟩, high, hhigh, hhighFits⟩, -⟩, -⟩ := hbound
    have hbits : ∀ {v : Value}, v.Fits key.ty → v.Fits (.bits w) := fun h => hty ▸ h
    obtain ⟨l, rfl, -⟩ := (hbits hlowFits).eq_bits
    obtain ⟨h, rfl, hh⟩ := (hbits hhighFits).eq_bits
    have horder : l < h := (decides_lt (eval_symbol hlow) (eval_symbol hhigh)).holds_iff.mp hlt
    have hwidth : w ≠ 0 := by
      rintro rfl
      omega
    have hzero : (literal key.ty 0).eval env = .ok (.bits 0) := by rw [hty]; rfl
    have hmax : (literal key.ty key.ty.maxValue).eval env = .ok (.bits key.ty.maxValue) := by rw [hty]; rfl
    exact holds_full_interval (by rw [hty]; exact Nat.pos_of_ne_zero hwidth) hzero hmax hty
      (hty ▸ Nat.two_pow_pos w) hzero
  · intro s hs
    exact absurd hs symbols_between_literals

/-- A key that is no longer known: only optional and range predicates change. -/
theorem relaxes_of_resolves (ha : Resolves ⟨name, key, false⟩ a) (hb : Resolves ⟨name, key, true⟩ b) : b.Relaxes a := by
  cases hb with
  | exact hkind =>
    obtain rfl := ha.unique (.exact hkind)
    exact .refl _
  | ternary hkind hty =>
    obtain rfl := ha.unique (.ternary hkind hty)
    exact .refl _
  | lpm hkind hty =>
    obtain rfl := ha.unique (.lpm hkind hty)
    exact .refl _
  | optional hkind =>
    obtain rfl := ha.unique (.optional hkind)
    exact ⟨fun _ _ _ => rfl, nofun⟩
  | selector hkind =>
    obtain rfl := ha.unique (.selector hkind)
    exact .refl _
  | range hkind hty =>
    obtain rfl := ha.unique (.range hkind hty)
    exact relaxes_range hty

theorem relaxes_of_predicate {few many : Bool} (h : few = true → many = true)
    (ha : (Resolver.ofTarget target).predicate ⟨name, key, few⟩ = .ok a)
    (hb : (Resolver.ofTarget target).predicate ⟨name, key, many⟩ = .ok b) : b.Relaxes a := by
  by_cases hsame : few = many
  · subst hsame
    obtain rfl := Except.ok.inj (ha.symm.trans hb)
    exact .refl a
  · obtain ⟨rfl, rfl⟩ : few = false ∧ many = true := by
      clear ha hb
      cases few <;> cases many <;> simp_all
    exact relaxes_of_resolves (resolves_of_predicate ha) (resolves_of_predicate hb)

/-- Neither predicate looks at anything but its own literals. -/
theorem constant_of_tainted (htainted : ctx.tainted = true)
    (hkind : ctx.key.matchKind = "optional" ∨ ctx.key.matchKind = "range") :
    ∃ e, Handler.v1model.predicate? ctx = some e ∧ e.Constant := by
  change ∃ e, ctx.addedPredicate? = some e ∧ e.Constant
  unfold MatchContext.addedPredicate?
  rcases hkind with hkind | hkind
  · rw [hkind]
    refine ⟨_, rfl, fun env other => ?_⟩
    rw [MatchContext.optionalPredicate, htainted]
    rfl
  · rw [hkind]
    refine ⟨_, rfl, fun env other => ?_⟩
    rw [MatchContext.rangePredicate, htainted]
    refine eval_congr (fun s hs => absurd hs symbols_between_literals) ?_
    simp [MatchContext.between, Term.and, Term.lt, Term.le, fields, fields_literal]

/-! ## A table -/

/-- Of two sets of keys that are not known, the larger one gives the same fault, or a condition that
    is true wherever the other is, with no further symbols. What v1model resolves an optional or
    a range key to that is not known says nothing about the packet. -/
theorem Target.tainting_excludes_nothing (target : Target) (table : Table) (few many : Term → Bool)
    (h : ∀ key ∈ table.keys, few key.expr = true → many key.expr = true) :
    ((∃ fault, (Resolver.ofTarget target).hitCondition table few = .error fault ∧
        (Resolver.ofTarget target).hitCondition table many = .error fault) ∨
      ∃ a b, (Resolver.ofTarget target).hitCondition table few = .ok a ∧
        (Resolver.ofTarget target).hitCondition table many = .ok b ∧ b.Relaxes a) ∧
      ∀ ctx : MatchContext, ctx.tainted = true → ctx.key.matchKind = "optional" ∨ ctx.key.matchKind = "range" →
        ∃ e, Handler.v1model.predicate? ctx = some e ∧ e.Constant := by
  have hlawful := Resolver.lawful_ofTarget target
  refine ⟨?_, fun _ => constant_of_tainted⟩
  cases hfew : (Resolver.ofTarget target).hitCondition table few with
  | error fault => exact .inl ⟨fault, rfl, (Resolver.hitCondition_fault_congr hlawful).mp hfew⟩
  | ok a =>
    cases hmany : (Resolver.ofTarget target).hitCondition table many with
    | error fault =>
      have hfault : (Resolver.ofTarget target).hitCondition table few = .error fault :=
        (Resolver.hitCondition_fault_congr hlawful).mp hmany
      rw [hfew] at hfault
      cases hfault
    | ok b =>
      obtain ⟨parts, hparts, rfl⟩ := Resolver.hitCondition_eq_ok.mp hfew
      obtain ⟨relaxed, hrelaxed, rfl⟩ := Resolver.hitCondition_eq_ok.mp hmany
      refine .inr ⟨_, _, rfl, rfl, .all ?_⟩
      refine List.forall_mem_cons.mpr ⟨⟨_, List.mem_cons_self .., .refl _⟩, ?_⟩
      intro e he
      obtain ⟨key, hkey, hb⟩ := (mem_of_mapM hrelaxed).mp he
      obtain ⟨a, ha⟩ := settled_of_mapM hparts key hkey
      have hmem : a ∈ parts := (mem_of_mapM hparts).mpr ⟨key, hkey, ha⟩
      exact ⟨a, List.mem_cons_of_mem _ hmem, relaxes_of_predicate (h key hkey) ha hb⟩

def ingressTable : Table where
  name := "ingress"
  keys := [portKey]
  actions := ["drop"]

def port85 : Assignment where
  field path := if path = "meta.port" then some (.bits 85) else none
  symbol s :=
    if s = .active "ingress" then some (.bool true)
    else if s = .rangeLow "ingress" "port" (.bits 16) then some (.bits 80)
    else if s = .rangeHigh "ingress" "port" (.bits 16) then some (.bits 90)
    else none

def knownHit : Term := .all [.symbol (.active "ingress"), MatchContext.rangePredicate ⟨"ingress", portKey, false⟩]

theorem knownHit_bound : knownHit.Bound port85 := by
  have hlow : ∃ v, port85.symbol (.rangeLow "ingress" "port" (.bits 16)) = some v ∧ v.Fits (.bits 16) :=
    ⟨.bits 80, rfl, by decide⟩
  have hhigh : ∃ v, port85.symbol (.rangeHigh "ingress" "port" (.bits 16)) = some v ∧ v.Fits (.bits 16) :=
    ⟨.bits 90, rfl, by decide⟩
  have hport : ∃ v, port85.field "meta.port" = some v ∧ v.Fits (.bits 16) := ⟨.bits 85, rfl, by decide⟩
  exact ⟨⟨_, rfl, trivial⟩, ⟨⟨hlow, hhigh⟩, hlow, hport⟩, hport, hhigh⟩

theorem tainting_excludes_nothing_ingress :
    (∀ key ∈ ingressTable.keys, (fun _ => false) key.expr = true → portUnknown key.expr = true) ∧
      (Resolver.ofTarget .v1model).hitCondition ingressTable (fun _ => false) = .ok knownHit ∧
      knownHit.Bound port85 ∧ knownHit.evalBool port85 = .ok true ∧
      ∃ b, (Resolver.ofTarget .v1model).hitCondition ingressTable portUnknown = .ok b ∧
        b.evalBool port85 = .ok true ∧ ∀ s ∈ b.symbols.toList, s ∈ knownHit.symbols.toList := by
  have hknown : (Resolver.ofTarget .v1model).hitCondition ingressTable (fun _ => false) = .ok knownHit := by rfl
  have htrue : knownHit.evalBool port85 = .ok true := by rfl
  have hfew : ∀ key ∈ ingressTable.keys, (fun _ => false) key.expr = true → portUnknown key.expr = true :=
    fun _ _ => nofun
  refine ⟨hfew, hknown, knownHit_bound, htrue, ?_⟩
  obtain ⟨⟨fault, hfault, -⟩ | ⟨a, b, ha, hb, hrelaxes⟩, -⟩ :=
    Target.tainting_excludes_nothing .v1model ingressTable (fun _ => false) portUnknown hfew
  · rw [hknown] at hfault
    cases hfault
  · obtain rfl := Except.ok.inj (hknown.symm.trans ha)
    exact ⟨b, hb, hrelaxes.holds port85 knownHit_bound htrue, hrelaxes.symbols⟩

end MatchAction
