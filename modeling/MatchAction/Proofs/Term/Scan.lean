/-
  MatchAction.Proofs.Term.Scan — conjunctions and disjunctions of lists are scanned from the left.

  `all` and `any` nest to the left: the last member is the right operand of the outermost
  operator, and the first two meet in the innermost one. A single member stands for itself, with
  no operator around it. Members may be without a value or of the wrong sort.

  Proved: whatever the nesting, the members are evaluated in the order of the list for as long as
  they are true (for `any`: false). The first one that is something else, the other boolean or an
  error of any kind, is the result, and nothing that stands after it has a say (`all_any_scan`).
-/

import MatchAction.Proofs.Term.Decides

namespace MatchAction.Term

variable {env : Assignment} {go : Bool} {op : Term → Term → Term} {e : Term} {es : List Term}

/-- The left operand is the result unless it is `go`; then the right one is. -/
def GoesOn (env : Assignment) (go : Bool) (op : Term → Term → Term) : Prop :=
  ∀ a b, (a.evalBool env = .ok go → (op a b).evalBool env = b.evalBool env) ∧
    (a.evalBool env ≠ .ok go → (op a b).evalBool env = a.evalBool env)

theorem goesOn_and : GoesOn env true and := by
  intro a b
  rw [evalBool_and]
  cases a.evalBool env with
  | error fault => exact ⟨nofun, fun _ => rfl⟩
  | ok x =>
    cases x with
    | false => exact ⟨nofun, fun _ => rfl⟩
    | true => exact ⟨fun _ => rfl, fun h => absurd rfl h⟩

theorem goesOn_or : GoesOn env false or := by
  intro a b
  rw [evalBool_or]
  cases a.evalBool env with
  | error fault => exact ⟨nofun, fun _ => rfl⟩
  | ok x =>
    cases x with
    | false => exact ⟨fun _ => rfl, fun h => absurd rfl h⟩
    | true => exact ⟨nofun, fun _ => rfl⟩

namespace GoesOn

/-- What has settled the result stays the result under all operators around it. -/
theorem foldl_of_ne (h : GoesOn env go op) (he : e.evalBool env ≠ .ok go) (es : List Term) :
    (es.foldl op e).evalBool env = e.evalBool env := by
  induction es generalizing e with
  | nil => rfl
  | cons f es ih =>
    have hop : (op e f).evalBool env = e.evalBool env := (h e f).2 he
    rw [List.foldl_cons, ih (hop ▸ he), hop]

theorem foldl_of_go (h : GoesOn env go op) (he : e.evalBool env = .ok go)
    (hes : ∀ f ∈ es, f.evalBool env = .ok go) : (es.foldl op e).evalBool env = .ok go := by
  induction es generalizing e with
  | nil => exact he
  | cons f es ih =>
    obtain ⟨hf, hes⟩ := List.forall_mem_cons.mp hes
    exact ih (((h e f).1 he).trans hf) hes

end GoesOn

/-- A builder of one term from a list evaluates its members from the left: it goes on for as long as they
    are `go`, and the first that is not is the result, whatever comes after it. -/
structure Scans (env : Assignment) (go : Bool) (build : List Term → Term) : Prop where
  through : ∀ es, (∀ e ∈ es, e.evalBool env = .ok go) → (build es).evalBool env = .ok go
  stops : ∀ before e after, (∀ f ∈ before, f.evalBool env = .ok go) → e.evalBool env ≠ .ok go →
    (build (before ++ e :: after)).evalBool env = e.evalBool env

theorem GoesOn.scans {build : List Term → Term} (h : GoesOn env go op) (hnil : build [] = .bool go)
    (hcons : ∀ e es, build (e :: es) = es.foldl op e) : Scans env go build := by
  constructor
  · intro es hes
    cases es with
    | nil =>
      rw [hnil]
      rfl
    | cons e es =>
      obtain ⟨he, hes⟩ := List.forall_mem_cons.mp hes
      rw [hcons]
      exact h.foldl_of_go he hes
  · intro before e after hbefore he
    cases before with
    | nil =>
      rw [List.nil_append, hcons]
      exact h.foldl_of_ne he after
    | cons f before =>
      obtain ⟨hf, hbefore⟩ := List.forall_mem_cons.mp hbefore
      have hop : (op (before.foldl op f) e).evalBool env = e.evalBool env := (h _ e).1 (h.foldl_of_go hf hbefore)
      rw [List.cons_append, hcons, List.foldl_append, List.foldl_cons, h.foldl_of_ne (hop ▸ he) after, hop]

/-- Nothing is evaluated after the first members are known to be false. -/
theorem evalBool_all_append_of_false (h : (all es).evalBool env = .ok false) (fs : List Term) :
    (all (es ++ fs)).evalBool env = .ok false := by
  cases es with
  | nil => cases h
  | cons e es =>
    have hne : (es.foldl and e).evalBool env ≠ .ok true := by
      intro htrue
      cases h.symm.trans htrue
    show ((es ++ fs).foldl and e).evalBool env = .ok false
    rw [List.foldl_append, goesOn_and.foldl_of_ne hne]
    exact h

/-- The first member of a conjunction that is not true is its value, and the first member of a
    disjunction that is not false is its value, an error as well as a boolean; where there is none,
    they are true and false. Nothing depends on the members after that one. -/
theorem all_any_scan (env : Assignment) : Scans env true all ∧ Scans env false any :=
  ⟨goesOn_and.scans rfl fun _ _ => rfl, goesOn_or.scans rfl fun _ _ => rfl⟩

/-- A number in a conjunction is reported although a later member is not bound and the last one is false;
    where an earlier member is false the number is not looked at. A member of a disjunction that is
    not bound is reported although a later one is true. -/
theorem all_any_scan_unbound :
    (all [.bool true, .constant (.bits 8) 1, .field "meta.ok" .bool, .bool false]).evalBool .empty =
      .error .notBoolean ∧
    (all [.bool true, .bool false, .constant (.bits 8) 1]).evalBool .empty = .ok false ∧
    (any [.bool false, .field "meta.ok" .bool, .bool true]).evalBool .empty = .error (.unboundField "meta.ok") := by
  have htrue : ∀ f ∈ [Term.bool true], f.evalBool .empty = .ok true := List.forall_mem_singleton.mpr rfl
  have hfalse : ∀ f ∈ [Term.bool false], f.evalBool .empty = .ok false := List.forall_mem_singleton.mpr rfl
  obtain ⟨hall, hany⟩ := all_any_scan .empty
  exact ⟨hall.stops [.bool true] (.constant (.bits 8) 1) [.field "meta.ok" .bool, .bool false] htrue nofun,
    hall.stops [.bool true] (.bool false) [.constant (.bits 8) 1] htrue nofun,
    hany.stops [.bool false] (.field "meta.ok" .bool) [.bool true] hfalse nofun⟩

end MatchAction.Term
