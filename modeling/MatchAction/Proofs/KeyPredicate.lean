/-
  MatchAction.Proofs.KeyPredicate — what an entry can put on a key.

  Embedded entries and entries of a record are converted apart, with checks of their own,
  but all that they put on a key is a comparison of the key with numbers of its type:
  `KeyPredicate` lists the comparisons with what the numbers satisfy. Masks and bounds are
  put on bit-vector keys only.

  Proved:
  - `MatchValue.Yields.keyPredicate`: what a match of a record yields is one of them.
  - `keyPredicate_of_embedded`: so is what an embedded key gives, for every target.
  - `KeyPredicate.formula`, `KeyPredicate.fields_eq`: each is well-typed and boolean where
    the term of the key is well-typed, and has the fields of that term.
-/

import MatchAction.Embedded.Match
import MatchAction.Proofs.PrefixMask
import MatchAction.Proofs.Record.Conversion
import MatchAction.Proofs.Term.Formula

namespace MatchAction

/-- A comparison of the key with numbers that fit its type. -/
inductive KeyPredicate (key : Key) : Term → Prop
  | exact {v : Nat} : key.ty.fits v → KeyPredicate key (Predicate.exact key.expr key.ty v)
  | ternary {w v m : Nat} : key.ty = .bits w → key.ty.fits v → key.ty.fits m →
      KeyPredicate key (Predicate.ternary key.expr key.ty v m)
  | lpm {w v length : Nat} : key.ty = .bits w → key.ty.fits v →
      KeyPredicate key (Predicate.lpm key.expr key.ty v length)
  | range {w low high : Nat} : key.ty = .bits w → key.ty.fits low → key.ty.fits high →
      KeyPredicate key (Predicate.range key.expr key.ty low high)

/-! ## Well-typed comparisons -/

namespace Term

variable {key : Term} {ty : Ty} {w v n : Nat}

theorem literal_wellTyped (h : ty.fits v) : (literal ty v).WellTyped := by
  cases ty with
  | bool => trivial
  | bits w => exact ⟨nofun, Ty.fits_iff.mp h⟩

theorem literal_ty (ty : Ty) (v : Nat) : (literal ty v).ty = ty := by
  cases ty <;> rfl

theorem constant_wellTyped (h : v < 2 ^ w) : (constant (.bits w) v).WellTyped := ⟨nofun, h⟩

theorem bitAnd_wellTyped {a b : Term} (ha : a.WellTyped) (hb : b.WellTyped) (hta : a.ty = .bits w)
    (htb : b.ty = .bits w) : (bitAnd a b).WellTyped :=
  ⟨ha, hb, hta ▸ nofun, hta.trans htb.symm⟩

end Term

namespace KeyPredicate

open Term

variable {key : Key} {e : Term}

theorem formula (h : KeyPredicate key e) (hkey : key.expr.WellTyped) : e.Formula := by
  cases h with
  | exact hv => exact .eq hkey (literal_wellTyped hv) (literal_ty ..).symm
  | @ternary w v m hty hv hm =>
    rw [hty, Ty.fits_iff] at hv hm
    rw [hty]
    exact .eq (bitAnd_wellTyped hkey (constant_wellTyped hm) hty rfl)
      (bitAnd_wellTyped (constant_wellTyped hv) (constant_wellTyped hm) rfl rfl) hty
  | @lpm w v length hty hv =>
    rw [hty]
    have hmask := prefixMask_lt w length
    exact .eq (bitAnd_wellTyped hkey (constant_wellTyped hmask) hty rfl)
      (constant_wellTyped (Nat.lt_of_le_of_lt Nat.and_le_right hmask)) hty
  | @range w low high hty hlow hhigh =>
    rw [hty, Ty.fits_iff] at hlow hhigh
    rw [hty]
    exact .and (.le (constant_wellTyped hlow) hkey rfl hty) (.le hkey (constant_wellTyped hhigh) hty rfl)

theorem mem_fields (h : KeyPredicate key e) {f : String × Ty} : f ∈ e.fields ↔ f ∈ key.expr.fields := by
  cases h with
  | exact _ => simp [Predicate.exact, Term.eq, fields, fields_literal]
  | ternary _ _ _ => simp [Predicate.ternary, Term.eq, bitAnd, fields]
  | lpm _ _ => simp [Predicate.lpm, Term.eq, bitAnd, fields]
  | range _ _ _ => simp [Predicate.range, Term.and, Term.le, fields]

end KeyPredicate

/-! ## What entries put on a key -/

theorem MatchValue.Yields.keyPredicate {key : Key} {value : MatchValue} {e : Term}
    (h : value.Yields key (some e)) : KeyPredicate key e := by
  cases h with
  | exact _ hv => exact .exact hv
  | ternary _ hty hv hm => exact .ternary hty hv hm
  | lpm _ hty _ hv => exact .lpm hty hv
  | range _ hty hlow hhigh => exact .range hty hlow hhigh
  | optional _ hv => exact .exact hv

namespace EmbeddedKey

variable {key : Key} {embedded : EmbeddedKey} {e : Term}

theorem checked_eq_ok {v n : Nat} : checked key v = .ok n ↔ key.ty.fits v = true ∧ v = n := checkFits_eq_ok

theorem keyPredicate_of_exact (h : embedded.exactPredicate? key = .ok (some e)) : KeyPredicate key e := by
  cases embedded with
  | value v =>
    simp only [exactPredicate?, bind_eq_ok, checked_eq_ok, pure_eq_ok] at h
    obtain ⟨_, ⟨hv, rfl⟩, he⟩ := h
    obtain rfl := Option.some.inj he
    exact .exact hv
  | mask v m => cases h
  | range low high => cases h
  | dontCare => cases h

theorem keyPredicate_of_ternary (h : embedded.ternaryPredicate? key = .ok (some e)) : KeyPredicate key e := by
  cases hty : key.ty with
  | bool => cases embedded <;> simp [ternaryPredicate?, hty, pure_eq_ok] at h
  | bits w =>
    cases embedded with
    | value v =>
      simp only [ternaryPredicate?, hty, bind_eq_ok, checked_eq_ok, pure_eq_ok] at h
      obtain ⟨_, ⟨hv, rfl⟩, he⟩ := h
      obtain rfl := Option.some.inj he
      simpa only [hty] using KeyPredicate.ternary hty (hty ▸ hv) (Ty.fits_maxValue key.ty)
    | mask v m =>
      simp only [ternaryPredicate?, hty, bind_eq_ok, checked_eq_ok, pure_eq_ok] at h
      obtain ⟨_, ⟨hv, rfl⟩, _, ⟨hm, rfl⟩, he⟩ := h
      obtain rfl := Option.some.inj he
      simpa only [hty] using KeyPredicate.ternary hty (hty ▸ hv) (hty ▸ hm)
    | range low high => simp [ternaryPredicate?, hty] at h
    | dontCare => simp [ternaryPredicate?, pure_eq_ok] at h

theorem keyPredicate_of_lpm (h : embedded.lpmPredicate? key = .ok (some e)) : KeyPredicate key e := by
  cases hty : key.ty with
  | bool => cases embedded <;> simp [lpmPredicate?, hty, pure_eq_ok] at h
  | bits w =>
    cases embedded with
    | value v =>
      simp only [lpmPredicate?, hty, bind_eq_ok, checked_eq_ok, pure_eq_ok] at h
      obtain ⟨_, ⟨hv, rfl⟩, he⟩ := h
      obtain rfl := Option.some.inj he
      simpa only [hty] using KeyPredicate.lpm hty (hty ▸ hv)
    | mask v m =>
      simp only [lpmPredicate?, hty] at h
      split at h
      · rename_i length hlength
        simp only [bind_eq_ok, checked_eq_ok, pure_eq_ok] at h
        obtain ⟨_, ⟨hv, rfl⟩, he⟩ := h
        obtain rfl := Option.some.inj he
        simpa only [hty] using KeyPredicate.lpm hty hv
      · cases h
    | range low high => simp [lpmPredicate?, hty] at h
    | dontCare => simp [lpmPredicate?, pure_eq_ok] at h

theorem keyPredicate_of_range (h : embedded.rangePredicate? key = .ok (some e)) : KeyPredicate key e := by
  cases hty : key.ty with
  | bool => cases embedded <;> simp [rangePredicate?, hty, pure_eq_ok] at h
  | bits w =>
    cases embedded with
    | value v =>
      simp only [rangePredicate?, hty, bind_eq_ok, checked_eq_ok, pure_eq_ok] at h
      obtain ⟨_, ⟨hv, rfl⟩, he⟩ := h
      obtain rfl := Option.some.inj he
      simpa only [hty] using KeyPredicate.range hty (hty ▸ hv) (hty ▸ hv)
    | mask v m => simp [rangePredicate?, hty] at h
    | range low high =>
      simp only [rangePredicate?, hty, bind_eq_ok, checked_eq_ok, pure_eq_ok] at h
      obtain ⟨_, ⟨hlow, rfl⟩, _, ⟨hhigh, rfl⟩, he⟩ := h
      obtain rfl := Option.some.inj he
      simpa only [hty] using KeyPredicate.range hty (hty ▸ hlow) (hty ▸ hhigh)
    | dontCare => simp [rangePredicate?, pure_eq_ok] at h

theorem keyPredicate_of_core (h : embedded.corePredicate? key = .ok (some e)) : KeyPredicate key e := by
  unfold corePredicate? at h
  split at h
  · exact keyPredicate_of_exact h
  · exact keyPredicate_of_ternary h
  · exact keyPredicate_of_lpm h
  · cases embedded <;> simp [noPredicate?, pure_eq_ok] at h

end EmbeddedKey

theorem keyPredicate_of_embedded {target : Target} {key : Key} {embedded : EmbeddedKey} {e : Term}
    (h : target.embeddedPredicate? key embedded = .ok (some e)) : KeyPredicate key e := by
  unfold Target.embeddedPredicate? at h
  split at h
  · exact EmbeddedKey.keyPredicate_of_range h
  · exact EmbeddedKey.keyPredicate_of_exact h
  · exact EmbeddedKey.keyPredicate_of_core h

end MatchAction
