/-
  MatchAction.Proofs.Latest — what is found after several changes, of which the latest counts.

  A change puts something at the place that is looked at, or it does not touch the place. What
  is found there in the end is what the last change put that put anything; what came before it
  and what came after it have no say.

  Proved:
  - `latest_cons`, `latest_filter`: the latest of a list, and of the list without changes that put
    nothing.
  - `foldl_eq_some_iff`, `latestAnswer_foldl`: from the law of one step, what a whole run leaves.
-/

import Mathlib.Data.List.Basic

namespace MatchAction

variable {σ ε α : Type} {puts : ε → α → Prop} {e : ε} {es : List ε} {x : α}

/-- The last change that puts anything puts `x`. -/
def Latest (puts : ε → α → Prop) (es : List ε) (x : α) : Prop :=
  ∃ before e after, es = before ++ e :: after ∧ puts e x ∧ ∀ f ∈ after, ∀ y, ¬puts f y

theorem not_latest_nil : ¬Latest puts [] x := by
  rintro ⟨before, e, after, heq, -, -⟩
  cases before <;> cases heq

theorem latest_cons : Latest puts (e :: es) x ↔ Latest puts es x ∨ puts e x ∧ ∀ f ∈ es, ∀ y, ¬puts f y := by
  constructor
  · rintro ⟨before, f, after, heq, hf, hafter⟩
    cases before with
    | nil =>
      obtain ⟨rfl, rfl⟩ := List.cons.inj heq
      exact .inr ⟨hf, hafter⟩
    | cons g before =>
      obtain ⟨rfl, rfl⟩ := List.cons.inj heq
      exact .inl ⟨before, f, after, rfl, hf, hafter⟩
  · rintro (⟨before, f, after, rfl, hf, hafter⟩ | ⟨he, hafter⟩)
    · exact ⟨e :: before, f, after, rfl, hf, hafter⟩
    · exact ⟨[], e, es, rfl, he, hafter⟩

theorem exists_latest (h : ∃ e ∈ es, ∃ y, puts e y) : ∃ x, Latest puts es x := by
  induction es with
  | nil =>
    obtain ⟨e, he, -⟩ := h
    cases he
  | cons e es ih =>
    by_cases hes : ∃ f ∈ es, ∃ y, puts f y
    · obtain ⟨x, hx⟩ := ih hes
      exact ⟨x, latest_cons.mpr (.inl hx)⟩
    · obtain ⟨f, hf, y, hy⟩ := h
      rcases List.mem_cons.mp hf with rfl | hf
      · exact ⟨y, latest_cons.mpr (.inr ⟨hy, fun g hg z hz => hes ⟨g, hg, z, hz⟩⟩)⟩
      · exact absurd ⟨f, hf, y, hy⟩ hes

theorem forall_not_puts_filter {p : ε → Bool} (hp : ∀ e y, puts e y → p e = true) :
    (∀ e ∈ es.filter p, ∀ y, ¬puts e y) ↔ ∀ e ∈ es, ∀ y, ¬puts e y := by
  constructor
  · intro h e he y hy
    exact h e (List.mem_filter.mpr ⟨he, hp e y hy⟩) y hy
  · intro h e he
    exact h e (List.mem_of_mem_filter he)

/-- Changes that put nothing may be left out. -/
theorem latest_filter {p : ε → Bool} (hp : ∀ e y, puts e y → p e = true) :
    Latest puts (es.filter p) x ↔ Latest puts es x := by
  induction es with
  | nil => rfl
  | cons e es ih =>
    cases he : p e with
    | true => rw [List.filter_cons_of_pos he, latest_cons, latest_cons, ih, forall_not_puts_filter hp]
    | false =>
      have hnot : ∀ y, ¬puts e y := fun y hy => Bool.false_ne_true (he ▸ hp e y hy)
      rw [List.filter_cons_of_neg (by simp [he]), latest_cons, ih, or_iff_left fun h => hnot x h.1]

/-- Where a step leaves what it puts, and else what was there, a run leaves what is put latest. -/
theorem foldl_eq_some_iff {step : σ → ε → σ} (view : σ → Option α)
    (hstep : ∀ s e x, view (step s e) = some x ↔ puts e x ∨ (∀ y, ¬puts e y) ∧ view s = some x) (s : σ) :
    view (es.foldl step s) = some x ↔ Latest puts es x ∨ (∀ e ∈ es, ∀ y, ¬puts e y) ∧ view s = some x := by
  induction es generalizing s with
  | nil => simp [not_latest_nil]
  | cons e es ih =>
    rw [List.foldl_cons, ih, hstep, latest_cons, List.forall_mem_cons, and_or_left, or_assoc, and_assoc,
      and_comm (a := puts e x), and_left_comm]

/-- What is found after changes to nothing: what is put latest, or nothing where nothing is put. -/
structure LatestAnswer (puts : ε → α → Prop) (es : List ε) (answer : Option α) : Prop where
  some_iff : ∀ x, answer = some x ↔ Latest puts es x
  none_iff : answer = none ↔ ∀ e ∈ es, ∀ x, ¬puts e x

theorem latestAnswer_foldl {step : σ → ε → σ} (view : σ → Option α)
    (hstep : ∀ s e x, view (step s e) = some x ↔ puts e x ∨ (∀ y, ¬puts e y) ∧ view s = some x) {s : σ}
    (hs : view s = none) (es : List ε) : LatestAnswer puts es (view (es.foldl step s)) := by
  have hsome : ∀ x, view (es.foldl step s) = some x ↔ Latest puts es x := by
    intro x
    rw [foldl_eq_some_iff view hstep, hs]
    exact or_iff_left fun h => nomatch h.2
  refine ⟨hsome, ?_⟩
  constructor
  · intro hnone e he y hy
    obtain ⟨x, hx⟩ := exists_latest ⟨e, he, y, hy⟩
    rw [(hsome x).mpr hx] at hnone
    cases hnone
  · intro hnot
    refine Option.eq_none_iff_forall_ne_some.mpr fun x hx => ?_
    obtain ⟨before, e, after, rfl, hputs, -⟩ := (hsome x).mp hx
    exact hnot e (List.mem_append_right _ List.mem_cons_self) x hputs

/-- After lists of changes that differ only in changes that put nothing, the same is found. -/
theorem LatestAnswer.eq_of_filter {p : ε → Bool} (hp : ∀ e y, puts e y → p e = true) {a b : Option α}
    (ha : LatestAnswer puts es a) (hb : LatestAnswer puts (es.filter p) b) : a = b :=
  Option.ext fun x => by rw [ha.some_iff, hb.some_iff, latest_filter hp]

end MatchAction
