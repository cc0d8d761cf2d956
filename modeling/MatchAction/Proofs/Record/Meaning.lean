/-
  MatchAction.Proofs.Record.Meaning — which matches a record can put on a key, and what they say.

  A match value is valid for a key when its kind is the declared one, a boolean key is matched
  as a whole, a prefix is no longer than the key and every byte string is a number of the key's
  width. What it says of the key's value is the match kind's own meaning: equality, agreement
  in the bits of a mask, agreement in the top bits, or an interval. The predicates say the same
  with masks.

  Proved:
  - `Yields.valid`, `Valid.yields`: the matches that yield something are the valid ones, and
    only an optional match that is not set yields nothing.
  - `decides_exact`, `decides_ternary`, `decides_lpm`, `decides_range`: what each predicate
    decides, from the value of the key.
  - `MatchValue.accepted_iff_valid_and_decides`: conversion accepts exactly the valid matches,
    and a predicate that it gives decides what the match says.
-/

import MatchAction.Proofs.PrefixMask
import MatchAction.Proofs.Record.Conversion
import MatchAction.Proofs.Term.Typing

namespace MatchAction

open Term

variable {env : Assignment} {key : Key} {value : MatchValue}

/-- The value is the one that the number is given for: a boolean is true for any number but zero. -/
def Value.Is : Value → Nat → Prop
  | bool b, n => b = true ↔ n ≠ 0
  | bits k, n => k = n

theorem Value.eq_literalValue_iff {v : Value} {ty : Ty} {n : Nat} (h : v.Fits ty) :
    v = literalValue ty n ↔ v.Is n := by
  cases v with
  | bool b =>
    cases ty with
    | bool => cases b <;> simp [literalValue, Value.Is]
    | bits w => cases h
  | bits k =>
    cases ty with
    | bool => cases h
    | bits w => exact Value.bits.injEq k n ▸ Iff.rfl

theorem Value.Fits.eq_bits {v : Value} {w : Nat} (h : v.Fits (.bits w)) : ∃ k, v = .bits k ∧ k < 2 ^ w := by
  cases v with
  | bool b => cases h
  | bits k => exact ⟨k, rfl, h⟩

/-! ## What the predicates decide -/

theorem decides_exact {e : Term} {ty : Ty} {v : Value} {n : Nat} (he : e.eval env = .ok v) (hfits : v.Fits ty) :
    (Predicate.exact e ty n).Decides env (v.Is n) :=
  (decides_eq he (eval_literal ..)).congr (Value.eq_literalValue_iff hfits)

theorem decides_ternary {e : Term} {ty : Ty} {k v m : Nat} (hk : e.eval env = .ok (.bits k)) :
    (Predicate.ternary e ty v m).Decides env (k &&& m = v &&& m) :=
  (decides_eq (eval_bitAnd hk rfl) (eval_bitAnd rfl rfl)).congr (by rw [Value.bits.injEq])

theorem decides_lpm {e : Term} {ty : Ty} {k v p : Nat} (hk : e.eval env = .ok (.bits k)) :
    (Predicate.lpm e ty v p).Decides env (k &&& prefixMask ty.width p = v &&& prefixMask ty.width p) :=
  (decides_eq (eval_bitAnd hk rfl) rfl).congr (by rw [Value.bits.injEq])

theorem decides_range {e : Term} {ty : Ty} {low high k : Nat} (hk : e.eval env = .ok (.bits k)) :
    (Predicate.range e ty low high).Decides env (low ≤ k ∧ k ≤ high) :=
  (decides_le rfl hk).and (decides_le hk rfl)

namespace MatchValue

/-! ## Valid matches -/

def octets : MatchValue → List Octets
  | exact v | lpm v _ | optional (some v) => [v]
  | ternary v m => [v, m]
  | range low high => [low, high]
  | optional none | unsupported _ => []

structure Valid (key : Key) (value : MatchValue) : Prop where
  supported : ∀ kind, value ≠ .unsupported kind
  declared : value.kindName = key.matchKind
  boolean : key.ty = .bool → key.matchKind = "exact" ∨ key.matchKind = "optional"
  length : ∀ v p, value = .lpm v p → p.toNat ≤ key.ty.width
  fits : ∀ octets ∈ value.octets, octets.value < 2 ^ key.ty.width

theorem Valid.exists_bits (h : value.Valid key) (kind : String) (hkind : value.kindName = kind)
    (hexact : kind ≠ "exact") (hoptional : kind ≠ "optional") : ∃ w, key.ty = .bits w := by
  obtain rfl : key.matchKind = kind := h.declared.symm.trans hkind
  cases hty : key.ty with
  | bool =>
    rcases h.boolean hty with hkind | hkind
    · exact absurd hkind hexact
    · exact absurd hkind hoptional
  | bits w => exact ⟨w, rfl⟩

theorem Yields.valid {predicate : Option Term} (h : value.Yields key predicate) : value.Valid key := by
  have hbits : ∀ {w}, key.ty = .bits w → key.ty = .bool → key.matchKind = "exact" ∨ key.matchKind = "optional" := by
    intro w hw hbool
    rw [hw] at hbool
    cases hbool
  cases h with
  | exact hkind hv =>
    exact ⟨nofun, hkind.symm, fun _ => .inl hkind, nofun, List.forall_mem_singleton.mpr (Ty.fits_iff.mp hv)⟩
  | ternary hkind hty hv hm =>
    refine ⟨nofun, hkind.symm, hbits hty, nofun, List.forall_mem_cons.mpr ⟨Ty.fits_iff.mp hv, ?_⟩⟩
    exact List.forall_mem_singleton.mpr (Ty.fits_iff.mp hm)
  | lpm hkind hty hlength hv =>
    refine ⟨nofun, hkind.symm, hbits hty, ?_, List.forall_mem_singleton.mpr (Ty.fits_iff.mp hv)⟩
    intro v p heq
    obtain ⟨rfl, rfl⟩ := lpm.inj heq
    rw [hty]
    exact hlength
  | range hkind hty hlow hhigh =>
    refine ⟨nofun, hkind.symm, hbits hty, nofun, List.forall_mem_cons.mpr ⟨Ty.fits_iff.mp hlow, ?_⟩⟩
    exact List.forall_mem_singleton.mpr (Ty.fits_iff.mp hhigh)
  | optional hkind hv =>
    exact ⟨nofun, hkind.symm, fun _ => .inr hkind, nofun, List.forall_mem_singleton.mpr (Ty.fits_iff.mp hv)⟩
  | unset hkind => exact ⟨nofun, hkind.symm, fun _ => .inr hkind, nofun, List.forall_mem_nil _⟩

/-- A valid match yields a predicate, unless it is an optional match that is not set. -/
theorem Valid.yields (h : value.Valid key) :
    (∃ e, value.Yields key (some e)) ∨ value = .optional none ∧ value.Yields key none := by
  have hfits : ∀ octets ∈ value.octets, key.ty.fits octets.value = true := fun octets ho => Ty.fits_iff.mpr (h.fits octets ho)
  cases value with
  | exact v => exact .inl ⟨_, .exact h.declared.symm (hfits v (by simp [octets]))⟩
  | ternary v m =>
    obtain ⟨w, hty⟩ := h.exists_bits "ternary" rfl (by decide) (by decide)
    exact .inl ⟨_, .ternary h.declared.symm hty (hfits v (by simp [octets])) (hfits m (by simp [octets]))⟩
  | lpm v p =>
    obtain ⟨w, hty⟩ := h.exists_bits "lpm" rfl (by decide) (by decide)
    have hlength : p.toNat ≤ w := by
      have := h.length v p rfl
      rw [hty] at this
      exact this
    exact .inl ⟨_, .lpm h.declared.symm hty hlength (hfits v (by simp [octets]))⟩
  | range low high =>
    obtain ⟨w, hty⟩ := h.exists_bits "range" rfl (by decide) (by decide)
    exact .inl ⟨_, .range h.declared.symm hty (hfits low (by simp [octets])) (hfits high (by simp [octets]))⟩
  | optional v =>
    cases v with
    | none => exact .inr ⟨rfl, .unset h.declared.symm⟩
    | some v => exact .inl ⟨_, .optional h.declared.symm (hfits v (by simp [octets]))⟩
  | unsupported kind => exact absurd rfl (h.supported kind)

theorem accepted_iff_valid : (∃ predicate, value.predicate? key = .ok predicate) ↔ value.Valid key := by
  simp only [predicate?_eq_ok]
  constructor
  · intro ⟨predicate, h⟩
    exact h.valid
  · intro h
    rcases h.yields with ⟨e, he⟩ | ⟨-, hnone⟩
    · exact ⟨some e, he⟩
    · exact ⟨none, hnone⟩

theorem predicate?_eq_none_iff : value.predicate? key = .ok none ↔ value.Valid key ∧ value = .optional none := by
  rw [predicate?_eq_ok]
  constructor
  · intro h
    refine ⟨h.valid, ?_⟩
    cases h
    rfl
  · rintro ⟨h, rfl⟩
    exact .unset h.declared.symm

/-! ## What a match says -/

/-- What the match says of a key of `width` bits that has the value. -/
def Matches (width : Nat) : MatchValue → Value → Prop
  | exact o, v | optional (some o), v => v.Is o.value
  | ternary o m, .bits k => ∀ i, m.value.testBit i = true → k.testBit i = o.value.testBit i
  | lpm o p, .bits k => k / 2 ^ (width - p.toNat) = o.value / 2 ^ (width - p.toNat)
  | range low high, .bits k => low.value ≤ k ∧ k ≤ high.value
  | optional none, _ => True
  | _, _ => False

theorem Yields.decides {e : Term} {v : Value} (h : value.Yields key (some e)) (hkey : key.expr.eval env = .ok v)
    (hfits : v.Fits key.ty) : e.Decides env (value.Matches key.ty.width v) := by
  cases h with
  | exact _ _ => exact decides_exact hkey hfits
  | ternary _ hty _ _ =>
    rw [hty] at hfits
    obtain ⟨k, rfl, -⟩ := hfits.eq_bits
    exact (decides_ternary hkey).congr and_eq_and_iff
  | lpm _ hty _ hv =>
    rw [hty] at hfits
    obtain ⟨k, rfl, hk⟩ := hfits.eq_bits
    rw [Ty.fits_iff] at hv
    refine (decides_lpm hkey).congr (and_prefixMask_eq_iff ?_ hv)
    rw [hty]
    exact hk
  | range _ hty _ _ =>
    rw [hty] at hfits
    obtain ⟨k, rfl, -⟩ := hfits.eq_bits
    exact decides_range hkey
  | optional _ _ => exact decides_exact hkey hfits

/-- Conversion accepts exactly the valid matches, and puts nothing on the key exactly for an optional
    match that is not set. Where the key has a value of its type, the predicate evaluates, and is
    true exactly when the match says so of the value. -/
theorem accepted_iff_valid_and_decides (key : Key) (value : MatchValue) :
    ((∃ predicate, value.predicate? key = .ok predicate) ↔ value.Valid key) ∧
      (value.predicate? key = .ok none ↔ value.Valid key ∧ value = .optional none) ∧
      ∀ e, value.predicate? key = .ok (some e) → ∀ env v, key.expr.eval env = .ok v → v.Fits key.ty →
        e.Decides env (value.Matches key.ty.width v) :=
  ⟨accepted_iff_valid, predicate?_eq_none_iff, fun _ he _ _ hkey hfits => (predicate?_eq_ok.mp he).decides hkey hfits⟩

def dstKey : Key := ⟨.field "ip.dst" (.bits 32), "lpm", some "dst"⟩

/-- The network 10.0.0.0/8, with bits of a host in it and a leading zero. -/
def network10 : MatchValue := .lpm [0, 10, 9, 8, 7] 8

theorem network10_valid : network10.Valid dstKey :=
  ⟨nofun, rfl, nofun, fun _ _ h => by obtain ⟨-, rfl⟩ := lpm.inj h; decide, List.forall_mem_singleton.mpr (by decide)⟩

def packetTo10 : Assignment := Assignment.empty.setField "ip.dst" (.bits 0x0a010203)

theorem accepted_iff_valid_and_decides_network : network10.Valid dstKey ∧
    dstKey.expr.eval packetTo10 = .ok (.bits 0x0a010203) ∧ (Value.bits 0x0a010203).Fits dstKey.ty ∧
      ∃ e, network10.predicate? dstKey = .ok (some e) ∧ e.evalBool packetTo10 = .ok true := by
  obtain ⟨haccept, hunset, hmeans⟩ := accepted_iff_valid_and_decides dstKey network10
  have heval : dstKey.expr.eval packetTo10 = .ok (.bits 0x0a010203) := by rfl
  have hfits : (Value.bits 0x0a010203).Fits dstKey.ty := by decide
  obtain ⟨predicate, hp⟩ := haccept.mpr network10_valid
  refine ⟨network10_valid, heval, hfits, ?_⟩
  cases predicate with
  | none => cases (hunset.mp hp).2
  | some e =>
    obtain ⟨b, hb, hiff⟩ := hmeans e hp packetTo10 _ heval hfits
    have htop : network10.Matches dstKey.ty.width (.bits 0x0a010203) := by
      change 0x0a010203 / 2 ^ 24 = 0x0a090807 / 2 ^ 24
      decide
    obtain rfl : b = true := hiff.mpr htop
    exact ⟨e, hp, hb⟩

end MatchValue

end MatchAction
