/-
  MatchAction.Proofs.Outcome — outcomes that are put together.

  Outcomes with merging are a monoid, as stores are: the later store is merged after the
  earlier one and the later reports come after the earlier ones. A conversion that goes
  through a list and only adds to what it has can therefore be made in pieces, each piece
  from nothing, and the pieces merged. A piece that says nothing of a table leaves what the
  others say of it as it is.

  Proved:
  - `merge_assoc`, `empty_merge`, `merge_empty`: the monoid.
  - `Appends.foldl_append`, `Appends.diagnostics_foldl`: such a conversion of one list after
    another, and what it reports.
  - `Within.merge_left`, `Within.merge_right`: merging with an outcome on other tables.
-/

import MatchAction.Outcome
import MatchAction.Proofs.Store.Lookup

namespace MatchAction.Outcome

variable {α : Type} {step : Outcome → α → Outcome} {outcome later : Outcome} {name : String}

@[simp] theorem merge_empty (outcome : Outcome) : outcome.merge {} = outcome := by
  simp only [merge, List.append_nil]
  rfl

@[simp] theorem empty_merge (outcome : Outcome) : ({} : Outcome).merge outcome = outcome := by
  show Outcome.mk ((∅ : Store).merge outcome.store) ([] ++ outcome.diagnostics) = outcome
  rw [Store.empty_merge]
  rfl

theorem merge_assoc (a b c : Outcome) : (a.merge b).merge c = a.merge (b.merge c) := by
  simp only [merge, Store.merge_assoc, List.append_assoc]

/-- What the step does to a merged outcome it does to the later of the two. -/
def Appends (step : Outcome → α → Outcome) : Prop :=
  ∀ (outcome later : Outcome) (x : α), step (outcome.merge later) x = outcome.merge (step later x)

namespace Appends

theorem foldl_merge (h : Appends step) (xs : List α) (outcome later : Outcome) :
    xs.foldl step (outcome.merge later) = outcome.merge (xs.foldl step later) := by
  induction xs generalizing later with
  | nil => rfl
  | cons x xs ih => rw [List.foldl_cons, List.foldl_cons, h, ih]

/-- Going through a list from what is there is going through it from nothing, merged. -/
theorem foldl_eq_merge (h : Appends step) (xs : List α) (outcome : Outcome) :
    xs.foldl step outcome = outcome.merge (xs.foldl step {}) := by
  rw [← h.foldl_merge, merge_empty]

theorem foldl_append (h : Appends step) (xs ys : List α) :
    (xs ++ ys).foldl step {} = (xs.foldl step {}).merge (ys.foldl step {}) := by
  rw [List.foldl_append, h.foldl_eq_merge]

/-- Every piece adds its own reports. -/
theorem diagnostics_foldl (h : Appends step) (xs : List α) :
    (xs.foldl step {}).diagnostics = xs.flatMap fun x => (step {} x).diagnostics := by
  induction xs with
  | nil => rfl
  | cons x xs ih =>
    rw [List.foldl_cons, h.foldl_eq_merge, List.flatMap_cons, ← ih]
    rfl

end Appends

/-! ## What an outcome says of each table -/

def reportsOf (outcome : Outcome) (name : String) : List Diagnostic :=
  outcome.diagnostics.filter (·.table == some name)

theorem reportsOf_merge : (outcome.merge later).reportsOf name = outcome.reportsOf name ++ later.reportsOf name :=
  List.filter_append ..

def AgreeOn (outcome later : Outcome) (name : String) : Prop :=
  outcome.store.table? name = later.store.table? name ∧ outcome.reportsOf name = later.reportsOf name

theorem AgreeOn.symm (h : outcome.AgreeOn later name) : later.AgreeOn outcome name := ⟨h.1.symm, h.2.symm⟩

theorem AgreeOn.trans {last : Outcome} (h : outcome.AgreeOn later name) (hlast : later.AgreeOn last name) :
    outcome.AgreeOn last name := ⟨h.1.trans hlast.1, h.2.trans hlast.2⟩

theorem AgreeOn.config_eq (h : outcome.AgreeOn later name) : outcome.store.config name = later.store.config name :=
  congrArg (·.getD { table := name }) h.1

/-- No table but these is held, and every report is on one of them. -/
structure Within (outcome : Outcome) (names : List String) : Prop where
  store : ∀ name, name ∉ names → outcome.store.table? name = none
  reports : ∀ d ∈ outcome.diagnostics, ∃ name ∈ names, d.table = some name

namespace Within

variable {names others : List String}

theorem empty : Within {} [] := ⟨fun _ _ => rfl, List.forall_mem_nil _⟩

theorem reportsOf_eq_nil (h : outcome.Within names) (hname : name ∉ names) : outcome.reportsOf name = [] := by
  refine List.filter_eq_nil_iff.mpr fun d hd heq => ?_
  obtain ⟨other, hother, htable⟩ := h.reports d hd
  rw [htable, beq_iff_eq, Option.some.injEq] at heq
  exact hname (heq ▸ hother)

/-- All reports are on the one table. -/
theorem reportsOf_eq (h : outcome.Within [name]) : outcome.reportsOf name = outcome.diagnostics := by
  refine List.filter_eq_self.mpr fun d hd => ?_
  obtain ⟨_, hname, htable⟩ := h.reports d hd
  rw [htable, List.mem_singleton.mp hname, beq_self_eq_true]

theorem merge (h : outcome.Within names) (hlater : later.Within others) :
    (outcome.merge later).Within (names ++ others) := by
  constructor
  · intro name hname
    rw [List.mem_append, not_or] at hname
    show (outcome.store.merge later.store).table? name = none
    rw [Store.table?_merge, h.store name hname.1, hlater.store name hname.2]
    rfl
  · intro d hd
    rcases List.mem_append.mp hd with hd | hd
    · exact (h.reports d hd).imp fun _ hname => ⟨List.mem_append_left _ hname.1, hname.2⟩
    · exact (hlater.reports d hd).imp fun _ hname => ⟨List.mem_append_right _ hname.1, hname.2⟩

theorem merge_left (hlater : later.Within others) (hname : name ∉ others) (outcome : Outcome) :
    (outcome.merge later).AgreeOn outcome name := by
  constructor
  · show (outcome.store.merge later.store).table? name = _
    rw [Store.table?_merge, hlater.store name hname]
    cases outcome.store.table? name <;> rfl
  · rw [reportsOf_merge, hlater.reportsOf_eq_nil hname, List.append_nil]

theorem merge_right (h : outcome.Within names) (hname : name ∉ names) (later : Outcome) :
    (outcome.merge later).AgreeOn later name := by
  constructor
  · show (outcome.store.merge later.store).table? name = _
    rw [Store.table?_merge, h.store name hname]
    cases later.store.table? name <;> rfl
  · rw [reportsOf_merge, h.reportsOf_eq_nil hname, List.nil_append]

end Within

end MatchAction.Outcome
