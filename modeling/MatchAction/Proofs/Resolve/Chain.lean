/-
  MatchAction.Proofs.Resolve.Chain — which of its handlers a resolver takes the answer from.

  A lawful handler has an answer for every key of its kinds and for no other. The first
  handler of the key's kind is then the first with an answer, and what all targets have in
  common is only asked for kinds of no handler. Handlers of other kinds have no say: they may
  stand anywhere.

  Proved:
  - `answer_eq_some_iff`: who the answer comes from.
  - `predicate_congr`: it is a matter of the handlers of the key's kind and of their order.
  - `Reordered.filter_eq`: moving handlers past others that have no kind in common with them
    leaves the handlers of each kind in their order.
  - `predicate_by_kind`: these together, with the keys that no handler is asked about.
-/

import Mathlib.Logic.Equiv.Basic
import MatchAction.Proofs.Lists
import MatchAction.Proofs.Resolve.HitCondition

namespace MatchAction

namespace Handler

def SharesKind (a b : Handler) : Prop := ∃ kind ∈ a.kinds, kind ∈ b.kinds

instance (a b : Handler) : Decidable (a.SharesKind b) :=
  inferInstanceAs (Decidable (∃ kind ∈ a.kinds, kind ∈ b.kinds))

theorem handles_iff {handler : Handler} {kind : String} : handler.handles kind = true ↔ kind ∈ handler.kinds :=
  List.contains_iff_mem

theorem Lawful.predicate?_eq_none_iff {handler : Handler} (h : handler.Lawful) {ctx : MatchContext} :
    handler.predicate? ctx = none ↔ handler.handles ctx.key.matchKind = false := by
  rw [← h ctx, Option.isSome_eq_false_iff, Option.isNone_iff_eq_none]

end Handler

namespace Resolver

variable {resolver other : Resolver} {ctx : MatchContext} {e : Term}

/-! ## Who answers -/

/-- The answer for a key, by who gives it. -/
inductive Answers (resolver : Resolver) (ctx : MatchContext) (e : Term) : Prop
  /-- The first handler of the key's kind. -/
  | handler {before after : List Handler} {handler : Handler} : resolver.handlers = before ++ handler :: after →
      (∀ earlier ∈ before, earlier.handles ctx.key.matchKind = false) →
      handler.handles ctx.key.matchKind = true → handler.predicate? ctx = some e → Answers resolver ctx e
  /-- What all targets have in common, if no handler has the kind. -/
  | core : (∀ handler ∈ resolver.handlers, handler.handles ctx.key.matchKind = false) →
      ctx.corePredicate? = some e → Answers resolver ctx e

theorem answer_eq_some_iff (h : resolver.Lawful) :
    (resolver.handlers.findSome? (·.predicate? ctx) <|> ctx.corePredicate?) = some e ↔ resolver.Answers ctx e := by
  have hdefers : ∀ handler ∈ resolver.handlers,
      (handler.predicate? ctx = none ↔ handler.handles ctx.key.matchKind = false) :=
    fun handler hhandler => (h handler hhandler).predicate?_eq_none_iff
  rw [Option.orElse_eq_some, List.findSome?_eq_some_iff, List.findSome?_eq_none_iff]
  constructor
  · rintro (⟨before, handler, after, hhandlers, hanswer, hbefore⟩ | ⟨hnone, hcore⟩)
    · rw [hhandlers] at hdefers
      have hhandler := hdefers handler (List.mem_append_right _ List.mem_cons_self)
      refine .handler hhandlers (fun earlier hearlier => ?_) ?_ hanswer
      · exact (hdefers earlier (List.mem_append_left _ hearlier)).mp (hbefore earlier hearlier)
      · refine eq_true_of_ne_false fun hno => ?_
        rw [hhandler.mpr hno] at hanswer
        cases hanswer
    · exact .core (fun handler hhandler => (hdefers handler hhandler).mp (hnone handler hhandler)) hcore
  · rintro (⟨hhandlers, hbefore, -, hanswer⟩ | ⟨hnone, hcore⟩)
    · rw [hhandlers] at hdefers
      refine .inl ⟨_, _, _, hhandlers, hanswer, fun earlier hearlier => ?_⟩
      exact (hdefers earlier (List.mem_append_left _ hearlier)).mpr (hbefore earlier hearlier)
    · exact .inr ⟨fun handler hhandler => (hdefers handler hhandler).mpr (hnone handler hhandler), hcore⟩

theorem exists_answers_iff (h : resolver.Lawful) :
    (∃ e, resolver.Answers ctx e) ↔ resolver.supports ctx.key.matchKind = true := by
  rw [← isSome_answer h, Option.isSome_iff_exists]
  exact exists_congr fun e => (answer_eq_some_iff h).symm

theorem predicate_eq_ok_iff (h : resolver.Lawful) (hbits : ¬(ctx.key.ty = .bool ∧ ctx.key.matchKind ∈ bitKinds)) :
    resolver.predicate ctx = .ok e ↔ resolver.Answers ctx e := by
  rw [predicate, if_neg fun hrefused => hbits (refusedBits_iff.mp hrefused), ← answer_eq_some_iff h]
  cases (resolver.handlers.findSome? (·.predicate? ctx) <|> ctx.corePredicate?) with
  | none =>
    constructor
    · intro heq
      cases heq
    · intro heq
      cases heq
  | some found => rw [Option.some.injEq, Except.ok.injEq]

/-! ## Handlers in another order -/

/-- Only the handlers of the key's kind have a say. -/
theorem findSome?_handlers (h : resolver.Lawful) (ctx : MatchContext) :
    resolver.handlers.findSome? (·.predicate? ctx) =
      (resolver.handlers.filter (·.handles ctx.key.matchKind)).findSome? (·.predicate? ctx) := by
  rw [← List.head?_filterMap, ← List.head?_filterMap, List.filterMap_filter]
  refine congrArg _ (List.filterMap_congr fun handler hhandler => ?_)
  rw [← h handler hhandler ctx]
  cases handler.predicate? ctx <;> rfl

theorem predicate_congr (h : resolver.Lawful) (hother : other.Lawful)
    (hkind : resolver.handlers.filter (·.handles ctx.key.matchKind) =
      other.handlers.filter (·.handles ctx.key.matchKind)) : other.predicate ctx = resolver.predicate ctx := by
  unfold predicate
  rw [findSome?_handlers h, findSome?_handlers hother, hkind]

/-- Every handler is moved to a place of its own, and handlers with a kind in common stay in their
    order. -/
def Reordered (resolver other : Resolver) : Prop :=
  ∃ move : Fin resolver.handlers.length ≃ Fin other.handlers.length,
    (∀ i, other.handlers[move i] = resolver.handlers[i]) ∧
    ∀ i j, i < j → resolver.handlers[i].SharesKind resolver.handlers[j] → move i < move j

theorem Reordered.filter_eq (h : resolver.Reordered other) (kind : String) :
    resolver.handlers.filter (·.handles kind) = other.handlers.filter (·.handles kind) := by
  obtain ⟨move, hmove, horder⟩ := h
  refine filter_eq_of_moved move hmove fun i j hij hi hj => horder i j hij ?_
  exact ⟨kind, Handler.handles_iff.mp hi, Handler.handles_iff.mp hj⟩

theorem Reordered.lawful (h : resolver.Reordered other) (hlawful : resolver.Lawful) : other.Lawful := by
  obtain ⟨move, hmove, -⟩ := h
  exact fun handler hhandler => hlawful handler ((perm_of_moved move hmove).mem_iff.mpr hhandler)

theorem Reordered.predicate_eq (h : resolver.Reordered other) (hlawful : resolver.Lawful) :
    other.predicate = resolver.predicate :=
  funext fun ctx => predicate_congr hlawful (h.lawful hlawful) (h.filter_eq ctx.key.matchKind)

/-- No handler is asked about a boolean key whose kind needs bits. For every other key the first
    handler of its kind answers or, where there is none, what all targets have in common; there is
    an answer exactly for the supported kinds. So the order of handlers matters only where
    they have a kind in common. -/
theorem predicate_by_kind (resolver : Resolver) :
    (∀ ctx : MatchContext, ctx.key.ty = .bool → ctx.key.matchKind ∈ bitKinds →
      resolver.predicate ctx = .error (.booleanKey ctx.table ctx.key.fieldName ctx.key.matchKind)) ∧
    (resolver.Lawful →
      (∀ ctx : MatchContext, ¬(ctx.key.ty = .bool ∧ ctx.key.matchKind ∈ bitKinds) →
        ((∃ e, resolver.predicate ctx = .ok e) ↔ resolver.supports ctx.key.matchKind = true) ∧
        (resolver.supports ctx.key.matchKind = false →
          resolver.predicate ctx = .error (.unhandledKind ctx.table ctx.key.matchKind)) ∧
        ∀ e, resolver.predicate ctx = .ok e ↔ resolver.Answers ctx e) ∧
      ∀ other, resolver.Reordered other →
        (∀ ctx, other.predicate ctx = resolver.predicate ctx) ∧
        ∀ table tainted, other.hitCondition table tainted = resolver.hitCondition table tainted) := by
  refine ⟨fun ctx hty hkind => ?_, fun hlawful => ⟨fun ctx hbits => ⟨?_, fun hkind => ?_, fun e => ?_⟩, ?_⟩⟩
  · exact if_pos (refusedBits_iff.mpr ⟨hty, hkind⟩)
  · simp only [predicate_eq_ok_iff hlawful hbits]
    exact exists_answers_iff hlawful
  · exact (predicate_eq_error_iff hlawful).mpr (.unhandledKind hbits hkind)
  · exact predicate_eq_ok_iff hlawful hbits
  · intro other hreordered
    have hpredicate := hreordered.predicate_eq hlawful
    refine ⟨fun ctx => congrFun hpredicate ctx, fun table tainted => ?_⟩
    unfold hitCondition
    rw [hpredicate]

end Resolver

def Handler.single (target kind : String) (predicate : MatchContext → Term) : Handler where
  target := target
  kinds := [kind]
  predicate? := fun ctx => if ctx.key.matchKind = kind then some (predicate ctx) else none

theorem Handler.single_lawful (target kind : String) (predicate : MatchContext → Term) :
    (Handler.single target kind predicate).Lawful := by
  intro ctx
  change (if ctx.key.matchKind = kind then some (predicate ctx) else none).isSome = [kind].contains ctx.key.matchKind
  by_cases h : ctx.key.matchKind = kind <;> simp [h]

/-- `range` is a kind of the first handler and of the last, `exact` is one of all targets as well. -/
def layered : Resolver where
  handlers := [.v1model, .single "probe" "exact" fun _ => .bool true, .single "probe" "range" fun _ => .bool false]

def layeredMoved : Resolver where
  handlers := [.single "probe" "exact" fun _ => .bool true, .v1model, .single "probe" "range" fun _ => .bool false]

def keyOfKind (kind : String) : MatchContext := ⟨"acl", ⟨.field "meta.port" (.bits 16), kind, none⟩, false⟩

theorem predicate_by_kind_layered :
    layered.Lawful ∧ layered.Reordered layeredMoved ∧
    layeredMoved.predicate (keyOfKind "range") = .ok (keyOfKind "range").rangePredicate ∧
    layeredMoved.predicate (keyOfKind "exact") = .ok (.bool true) ∧
    layeredMoved.predicate (keyOfKind "hash") = .error (.unhandledKind "acl" "hash") ∧
    layered.predicate ⟨"acl", ⟨.field "meta.ok" .bool, "range", none⟩, false⟩ =
      .error (.booleanKey "acl" "meta.ok" "range") := by
  have hlawful : layered.Lawful := by
    refine List.forall_mem_cons.mpr ⟨Handler.v1model_lawful, List.forall_mem_cons.mpr ⟨?_, ?_⟩⟩
    · exact Handler.single_lawful _ _ _
    · exact List.forall_mem_singleton.mpr (Handler.single_lawful _ _ _)
  have hreordered : layered.Reordered layeredMoved := by
    let move : Fin 3 ≃ Fin 3 := Equiv.swap 0 1
    refine ⟨move, Fin.forall_fin_succ.mpr ⟨rfl, Fin.forall_fin_succ.mpr ⟨rfl, ?_⟩⟩, by decide⟩
    exact Fin.forall_fin_one.mpr rfl
  obtain ⟨hboolean, hchain⟩ := Resolver.predicate_by_kind layered
  obtain ⟨hanswers, hmoved⟩ := hchain hlawful
  obtain ⟨hpredicate, -⟩ := hmoved layeredMoved hreordered
  refine ⟨hlawful, hreordered, ?_, ?_, ?_, hboolean _ rfl (by decide)⟩
  · rw [hpredicate]
    refine ((hanswers (keyOfKind "range") nofun).2.2 _).mpr ?_
    exact .handler (List.nil_append _).symm (List.forall_mem_nil _) rfl rfl
  · rw [hpredicate]
    refine ((hanswers (keyOfKind "exact") nofun).2.2 _).mpr ?_
    exact .handler rfl (List.forall_mem_singleton.mpr rfl) rfl rfl
  · rw [hpredicate]
    exact (hanswers (keyOfKind "hash") nofun).2.1 rfl

end MatchAction
