/-
  MatchAction.Proofs.Octets — bytes that are spelled in hex.

  A text spells bytes with two digits for each of them, the high one first. The digits may be
  of either case, one by one, and a mark may stand in front of them.

  Proved:
  - `toList_toUTF8`: the bytes of a text are those of its characters.
  - `Spells.decode_eq`: such a text decodes to the bytes that it spells.
  - `spells_encode`: the text in lower-case digits is one.
-/

import Mathlib.Data.List.Basic
import MatchAction.Octets

namespace MatchAction

/-! ## The bytes of a text -/

theorem toList_loop_eq (bytes : ByteArray) (i : Nat) (found : List UInt8) :
    ByteArray.toList.loop bytes i found = found.reverse ++ bytes.data.toList.drop i := by
  fun_induction ByteArray.toList.loop bytes i found with
  | case1 i found h ih =>
    have hi : i < bytes.data.toList.length := by simpa using h
    rw [ih, List.drop_eq_getElem_cons hi]
    simp [ByteArray.get!, h]
  | case2 i found h =>
    have hi : bytes.data.toList.length ≤ i := by simpa using Nat.le_of_not_lt h
    rw [List.drop_eq_nil_of_le hi, List.append_nil]

theorem toList_toUTF8 (text : String) : text.toUTF8.toList = text.toList.flatMap String.utf8EncodeChar := by
  have hbytes : text.toUTF8 = (text.toList.flatMap String.utf8EncodeChar).toByteArray := by
    rw [String.toUTF8_eq_toByteArray]
    conv_lhs => rw [← String.ofList_toList (s := text)]
    rfl
  rw [hbytes, ByteArray.toList, toList_loop_eq, List.toList_data_toByteArray]
  rfl

namespace Hex

variable {c : Char} {n : Nat}

/-! ## Digits -/

/-- The character is the digit of value `n`, in lower or in upper case. -/
def IsDigit (c : Char) (n : Nat) : Prop :=
  "0123456789abcdef".toList[n]? = some c ∨ "0123456789ABCDEF".toList[n]? = some c

instance (c : Char) (n : Nat) : Decidable (IsDigit c n) := inferInstanceAs (Decidable (_ ∨ _))

/-- A digit is written as a single byte, which is known as a digit. -/
theorem IsDigit.encode (h : IsDigit c n) :
    ∃ b, String.utf8EncodeChar c = [b] ∧ digit? b = some (.ofNat n) ∧ b ≠ 120 ∧ b ≠ 88 := by
  have hall : ∀ digits ∈ ["0123456789abcdef".toList, "0123456789ABCDEF".toList], ∀ p ∈ digits.zipIdx,
      (String.utf8EncodeChar p.1).length = 1 ∧ digit? ((String.utf8EncodeChar p.1).headD 0) = some (.ofNat p.2) ∧
        (String.utf8EncodeChar p.1).headD 0 ≠ 120 ∧ (String.utf8EncodeChar p.1).headD 0 ≠ 88 := by decide
  have hdigit : ∃ digits ∈ ["0123456789abcdef".toList, "0123456789ABCDEF".toList], digits[n]? = some c := by
    rcases h with h | h
    · exact ⟨_, List.mem_cons_self, h⟩
    · exact ⟨_, List.mem_cons_of_mem _ List.mem_cons_self, h⟩
  obtain ⟨digits, hmem, hc⟩ := hdigit
  obtain ⟨hlength, hvalue, hx, hX⟩ := hall digits hmem (c, n) (List.mk_mem_zipIdx_iff_getElem?.mpr hc)
  obtain ⟨b, hb⟩ := List.length_eq_one_iff.mp hlength
  rw [hb] at hvalue hx hX
  exact ⟨b, hb, hvalue, hx, hX⟩

/-! ## Two digits for each byte -/

inductive Pairs : List Char → Octets → Prop
  | nil : Pairs [] []
  | cons {high low : Char} {b : UInt8} {cs : List Char} {octets : Octets} : IsDigit high (b.toNat / 16) →
      IsDigit low (b.toNat % 16) → Pairs cs octets → Pairs (high :: low :: cs) (b :: octets)

/-- The text spells the bytes, with or without a mark. -/
def Spells (text : String) (octets : Octets) : Prop :=
  ∃ mark ∈ ["", "0x", "0X"], ∃ cs, Pairs cs octets ∧ text.toList = mark.toList ++ cs

variable {cs : List Char} {octets : Octets} {text : String}

namespace Pairs

theorem join_digits (b : UInt8) : UInt8.ofNat (b.toNat / 16) * 16 + UInt8.ofNat (b.toNat % 16) = b := by
  have hb := b.toNat_lt
  apply UInt8.toNat_inj.mp
  simp only [UInt8.toNat_add, UInt8.toNat_mul, UInt8.toNat_ofNat']
  show (b.toNat / 16 % 256 * 16 % 256 + b.toNat % 16 % 256) % 256 = b.toNat
  omega

/-- The bytes of the digits are an even number of digits, and joined in pairs they are what is spelled. -/
theorem decode_eq (h : Pairs cs octets) (position : Nat) :
    ∃ values, digits position (cs.flatMap String.utf8EncodeChar) = .ok values ∧ joinPairs values = octets ∧
      (cs.flatMap String.utf8EncodeChar).length % 2 = 0 := by
  induction h generalizing position with
  | nil => exact ⟨[], rfl, rfl, rfl⟩
  | @cons high low b cs octets hhigh hlow hrest ih =>
    obtain ⟨h, hh, hhvalue, -⟩ := hhigh.encode
    obtain ⟨l, hl, hlvalue, -⟩ := hlow.encode
    obtain ⟨values, hvalues, hjoin, heven⟩ := ih (position + 1 + 1)
    refine ⟨.ofNat (b.toNat / 16) :: .ofNat (b.toNat % 16) :: values, ?_, ?_, ?_⟩
    · simp only [List.flatMap_cons, hh, hl, List.cons_append, List.nil_append, digits, hhvalue, hlvalue, hvalues]
      rfl
    · rw [joinPairs, join_digits, hjoin]
    · simp only [List.flatMap_cons, hh, hl, List.cons_append, List.nil_append, List.length_cons]
      omega

/-- Digits do not start like a mark. -/
theorem dropMark_eq (h : Pairs cs octets) :
    dropMark (cs.flatMap String.utf8EncodeChar) = cs.flatMap String.utf8EncodeChar := by
  cases h with
  | nil => rfl
  | cons hhigh hlow hrest =>
    obtain ⟨h, hh, -⟩ := hhigh.encode
    obtain ⟨l, hl, -, hx, hX⟩ := hlow.encode
    simp only [List.flatMap_cons, hh, hl, List.cons_append, List.nil_append]
    unfold dropMark
    split
    · rename_i heq
      exact absurd (List.cons.inj (List.cons.inj heq).2).1 hx
    · rename_i heq
      exact absurd (List.cons.inj (List.cons.inj heq).2).1 hX
    · rfl

end Pairs

theorem Spells.decode_eq (h : Spells text octets) : decode text = .ok octets := by
  obtain ⟨mark, hmark, cs, hpairs, htext⟩ := h
  obtain ⟨values, hvalues, hjoin, heven⟩ := hpairs.decode_eq 0
  have hdrop : dropMark text.toUTF8.toList = cs.flatMap String.utf8EncodeChar := by
    rw [toList_toUTF8, htext, List.flatMap_append]
    simp only [List.mem_cons, List.not_mem_nil, or_false] at hmark
    rcases hmark with rfl | rfl | rfl
    · exact hpairs.dropMark_eq
    · rfl
    · rfl
  have hpad : padEven (cs.flatMap String.utf8EncodeChar) = cs.flatMap String.utf8EncodeChar := by
    rw [padEven, if_neg (by omega)]
  rw [decode, decodeBytes, hdrop, hpad, hvalues]
  exact congrArg Except.ok hjoin

theorem isDigit_digitChar (h : n < 16) : IsDigit (digitChar n) n := by
  have hall : ∀ n < 16, IsDigit (digitChar n) n := by decide
  exact hall n h

theorem pairs_digitChar (octets : Octets) :
    Pairs (octets.flatMap fun b => [digitChar (b.toNat / 16), digitChar (b.toNat % 16)]) octets := by
  induction octets with
  | nil => exact .nil
  | cons b octets ih =>
    have hb := b.toNat_lt
    have hhigh : b.toNat / 16 < 16 := by omega
    have hlow : b.toNat % 16 < 16 := by omega
    exact .cons (isDigit_digitChar hhigh) (isDigit_digitChar hlow) ih

theorem spells_encode (octets : Octets) : Spells (encode octets) octets := by
  refine ⟨"", List.mem_cons_self, _, pairs_digitChar octets, ?_⟩
  rw [encode, String.toList_ofList]
  rfl

end Hex

end MatchAction
