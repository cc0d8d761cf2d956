/-
  MatchAction.Proofs.TextOrder — texts are in the order of their bytes.

  Texts are compared character by character, by code point. Comparing their bytes comes to the same:
  of two characters the later one has more bytes, and then a greater first one, or it has as many,
  and then its bits are spread over them with the highest first, six in each byte after the first.

  Proved:
  - `utf8EncodeChar_eq`: the bytes of a character, by the bits that they hold.
  - `encode_append_lt`: of two characters the lesser has the lesser bytes, whatever comes after them.
  - `bytes_lt_iff`: the order of texts is that of their bytes.
-/

import Mathlib.Data.String.Basic
import MatchAction.Proofs.Octets

namespace MatchAction

namespace Utf8

variable {m n k : Nat} {rest more : Octets}

/-- The last `6 * k` bits, six in each byte. -/
def lowBytes (n : Nat) : (k : Nat) → Octets
  | 0 => []
  | k + 1 => .ofNat (n / 64 ^ k % 64 + 128) :: lowBytes n k

def following (n : Nat) : Nat := if n ≤ 127 then 0 else if n ≤ 2047 then 1 else if n ≤ 65535 then 2 else 3

/-- The first byte: the highest bits, and how many bytes follow. -/
def first (n : Nat) : Nat :=
  if n ≤ 127 then n else if n ≤ 2047 then n / 64 + 192 else if n ≤ 65535 then n / 4096 + 224 else n / 262144 + 240

theorem toNat_lt (c : Char) : c.val.toNat < 0x110000 := by
  have hvalid := c.valid
  simp only [UInt32.isValidChar, Nat.isValidChar] at hvalid
  have hval : c.toNat = c.val.toNat := rfl
  omega

theorem first_lt (h : n < 0x110000) : first n < 256 := by
  unfold first
  split_ifs <;> omega

theorem utf8EncodeChar_eq (c : Char) :
    String.utf8EncodeChar c = .ofNat (first c.val.toNat) :: lowBytes c.val.toNat (following c.val.toNat) := by
  have hlt := toNat_lt c
  unfold String.utf8EncodeChar first following
  generalize c.val.toNat = n at hlt
  simp only
  split_ifs with h1 h2 h3
  · rfl
  · have hfirst : n / 64 % 32 = n / 64 := by omega
    simp [lowBytes, hfirst]
  · have hfirst : n / 4096 % 16 = n / 4096 := by omega
    simp [lowBytes, hfirst]
  · have hfirst : n / 262144 % 8 = n / 262144 := by omega
    simp [lowBytes, hfirst]

/-! ## Comparing bytes -/

theorem cons_lt_cons (hm : m < 256) (hn : n < 256) (h : m < n ∨ m = n ∧ rest < more) :
    (UInt8.ofNat m :: rest : Octets) < UInt8.ofNat n :: more := by
  rw [List.cons_lt_cons_iff, UInt8.lt_iff_toNat_lt, UInt8.toNat_ofNat', UInt8.toNat_ofNat', Nat.mod_eq_of_lt hm,
    Nat.mod_eq_of_lt hn]
  rcases h with h | ⟨rfl, h⟩
  · exact .inl h
  · exact .inr ⟨rfl, h⟩

theorem lowBytes_append_lt (h : m % 64 ^ k < n % 64 ^ k) : lowBytes m k ++ rest < lowBytes n k ++ more := by
  induction k with
  | zero => omega
  | succ k ih =>
    rw [Nat.pow_succ, Nat.mod_mul, Nat.mod_mul] at h
    refine cons_lt_cons (by omega) (by omega) ?_
    rcases Nat.lt_trichotomy (m / 64 ^ k % 64) (n / 64 ^ k % 64) with hdigit | hdigit | hdigit
    · exact .inl (by omega)
    · rw [hdigit] at h ⊢
      exact .inr ⟨rfl, ih (by omega)⟩
    · -- the lower bits do not make up for a lesser digit
      have hmul := Nat.mul_le_mul_left (64 ^ k) hdigit
      have hlow := Nat.mod_lt n (Nat.pow_pos (n := k) (show 0 < 64 by decide))
      rw [Nat.mul_succ] at hmul
      omega

/-- A greater number has a greater first byte, or the same one and greater bits after it. -/
theorem first_lt_or (h : m < n) :
    first m < first n ∨ first m = first n ∧ following m = following n ∧
      m % 64 ^ following m < n % 64 ^ following m := by
  unfold first following
  split_ifs <;> omega

theorem encode_append_lt {c d : Char} (h : c < d) :
    String.utf8EncodeChar c ++ rest < String.utf8EncodeChar d ++ more := by
  rw [utf8EncodeChar_eq, utf8EncodeChar_eq]
  refine cons_lt_cons (first_lt (toNat_lt c)) (first_lt (toNat_lt d)) ?_
  rcases first_lt_or (show c.val.toNat < d.val.toNat from h) with hfirst | ⟨hfirst, hfollowing, hlow⟩
  · exact .inl hfirst
  · rw [← hfollowing]
    exact .inr ⟨hfirst, lowBytes_append_lt hlow⟩

theorem flatMap_lt {cs ds : List Char} (h : cs < ds) :
    cs.flatMap String.utf8EncodeChar < ds.flatMap String.utf8EncodeChar := by
  induction cs generalizing ds with
  | nil =>
    cases ds with
    | nil => exact absurd h (List.lt_irrefl _)
    | cons d ds =>
      rw [List.flatMap_cons, utf8EncodeChar_eq]
      exact List.nil_lt_cons _ _
  | cons c cs ih =>
    cases ds with
    | nil => exact absurd h (List.not_lt_nil _)
    | cons d ds =>
      rw [List.flatMap_cons, List.flatMap_cons]
      rcases List.cons_lt_cons_iff.mp h with hcd | ⟨rfl, hrest⟩
      · exact encode_append_lt hcd
      · exact List.append_left_lt (ih hrest)

end Utf8

/-- The order of texts is that of their bytes. -/
theorem bytes_lt_iff {a b : String} : a.toUTF8.toList < b.toUTF8.toList ↔ a < b := by
  have hlt : ∀ {a b : String}, a < b → a.toUTF8.toList < b.toUTF8.toList := by
    intro a b h
    rw [toList_toUTF8, toList_toUTF8]
    exact Utf8.flatMap_lt (String.lt_iff_toList_lt.mp h)
  refine ⟨fun h => ?_, hlt⟩
  rcases lt_trichotomy a b with hab | rfl | hba
  · exact hab
  · exact absurd h (List.lt_irrefl _)
  · exact absurd h (List.lt_asymm (hlt hba))

end MatchAction
