/-
  MatchAction.Proofs.HexText — what a hex text is read as.

  At most one mark is taken off the text; a second one is among the digits and is refused there.
  The digits are bytes, so that a character outside of ASCII is refused for its first byte. To an
  odd number of digits a zero is added in front. It changes nothing about the number, but it counts
  in the place that is given for a byte that is refused.

  Proved:
  - `exists_unmarked`: every text has a rest without its mark, whose bytes are the digits.
  - `digits_eq_ok`, `digits_eq_error`: bytes are read as their values, or refused for the first that
    is no digit.
  - `value_joinPairs`: joined in pairs, digits keep the number that they stand for.
  - `decode_reads`: a text is read as the number that its digits spell, in half as many bytes, or
    refused for its first byte that is no digit. Bytes that are spelled with two digits each are
    read back.
-/

import Mathlib.Data.List.Forall2
import Mathlib.Data.Nat.Digits.Defs
import MatchAction.Proofs.Attempt
import MatchAction.Proofs.Octets

namespace MatchAction.Hex

variable {b v : UInt8} {n position : Nat} {bytes tail values : Octets} {text : String}

/-! ## The mark -/

/-- What remains of the text without one mark in front, if there is one. -/
inductive Unmarked : String → String → Prop
  | lower (rest : String) : Unmarked ("0x" ++ rest) rest
  | upper (rest : String) : Unmarked ("0X" ++ rest) rest
  | bare {text : String} : (∀ rest, text ≠ "0x" ++ rest) → (∀ rest, text ≠ "0X" ++ rest) → Unmarked text text

/-- A character whose encoding starts with a byte of ASCII is that byte and no more; the longer
    encodings start with bytes from 192 up. -/
theorem eq_of_utf8EncodeChar {c : Char} {more : Octets} (hb : b.toNat < 128)
    (h : String.utf8EncodeChar c ++ more = b :: tail) : c.toNat = b.toNat ∧ more = tail := by
  have hlong : ∀ x, 192 ≤ x % 256 → UInt8.ofNat x ≠ b := by
    rintro x hx rfl
    rw [UInt8.toNat_ofNat'] at hb
    omega
  unfold String.utf8EncodeChar at h
  simp only at h
  split at h
  · rename_i hc
    obtain ⟨rfl, rfl⟩ := List.cons.inj h
    refine ⟨?_, rfl⟩
    rw [UInt8.toNat_ofNat', Nat.mod_eq_of_lt (by omega)]
    rfl
  · split at h
    · exact absurd (List.cons.inj h).1 (hlong _ (by omega))
    · split at h
      · exact absurd (List.cons.inj h).1 (hlong _ (by omega))
      · exact absurd (List.cons.inj h).1 (hlong _ (by omega))

theorem exists_cons_of_flatMap {cs : List Char} (hb : b.toNat < 128)
    (h : cs.flatMap String.utf8EncodeChar = b :: tail) :
    ∃ c rest, cs = c :: rest ∧ c.toNat = b.toNat ∧ rest.flatMap String.utf8EncodeChar = tail := by
  cases cs with
  | nil => cases h
  | cons c rest =>
    obtain ⟨hc, hrest⟩ := eq_of_utf8EncodeChar hb h
    exact ⟨c, rest, rfl, hc, hrest⟩

/-- A text whose bytes start with those of a mark starts with the mark. -/
theorem exists_rest_of_bytes {first second : Char} (hfirst : first.toNat < 128) (hsecond : second.toNat < 128)
    (h : text.toUTF8.toList = .ofNat first.toNat :: .ofNat second.toNat :: tail) :
    ∃ rest, text = String.ofList [first, second] ++ rest := by
  have hbyte : ∀ c : Char, c.toNat < 128 → (UInt8.ofNat c.toNat).toNat = c.toNat := fun c hc => by
    rw [UInt8.toNat_ofNat', Nat.mod_eq_of_lt (by omega)]
  rw [toList_toUTF8] at h
  obtain ⟨c, cs, hcs, hc, h⟩ := exists_cons_of_flatMap (by rw [hbyte _ hfirst]; exact hfirst) h
  obtain ⟨d, ds, rfl, hd, -⟩ := exists_cons_of_flatMap (by rw [hbyte _ hsecond]; exact hsecond) h
  obtain rfl : c = first := Char.toNat_inj.mp (hc.trans (hbyte _ hfirst))
  obtain rfl : d = second := Char.toNat_inj.mp (hd.trans (hbyte _ hsecond))
  refine ⟨String.ofList ds, ?_⟩
  rw [← String.ofList_append, ← String.ofList_toList (s := text), hcs]
  rfl

theorem exists_unmarked (text : String) :
    ∃ rest, Unmarked text rest ∧ dropMark text.toUTF8.toList = rest.toUTF8.toList := by
  by_cases hlower : ∃ rest, text = "0x" ++ rest
  · obtain ⟨rest, rfl⟩ := hlower
    refine ⟨rest, .lower rest, ?_⟩
    rw [toList_toUTF8, toList_toUTF8, String.toList_append, List.flatMap_append]
    rfl
  by_cases hupper : ∃ rest, text = "0X" ++ rest
  · obtain ⟨rest, rfl⟩ := hupper
    refine ⟨rest, .upper rest, ?_⟩
    rw [toList_toUTF8, toList_toUTF8, String.toList_append, List.flatMap_append]
    rfl
  refine ⟨text, .bare (not_exists.mp hlower) (not_exists.mp hupper), ?_⟩
  unfold dropMark
  split
  · rename_i heq
    exact absurd (exists_rest_of_bytes (by decide) (by decide) heq) hlower
  · rename_i heq
    exact absurd (exists_rest_of_bytes (by decide) (by decide) heq) hupper
  · rfl

/-! ## Digits -/

def Digit (b : UInt8) (n : Nat) : Prop :=
  n < 10 ∧ b.toNat = '0'.toNat + n ∨
    10 ≤ n ∧ n < 16 ∧ (b.toNat = 'a'.toNat + (n - 10) ∨ b.toNat = 'A'.toNat + (n - 10))

instance (b : UInt8) (n : Nat) : Decidable (Digit b n) := inferInstanceAs (Decidable (_ ∨ _))

theorem Digit.lt (h : Digit b n) : n < 16 := by
  unfold Digit at h
  omega

theorem sub_eq_iff {k : UInt8} (h : k.toNat ≤ b.toNat) : b - k = v ↔ b.toNat = k.toNat + v.toNat := by
  rw [← UInt8.toNat_inj, UInt8.toNat_sub_of_le b k (UInt8.le_iff_toNat_le.mpr h)]
  omega

theorem digit?_eq_some : digit? b = some v ↔ Digit b v.toNat := by
  have h48 := sub_eq_iff (b := b) (v := v) (k := 48)
  have h87 := sub_eq_iff (b := b) (v := v) (k := 87)
  have h55 := sub_eq_iff (b := b) (v := v) (k := 55)
  unfold digit? Digit
  simp only [Bool.and_eq_true, decide_eq_true_eq, UInt8.le_iff_toNat_le, UInt8.reduceToNat, Char.reduceToNat]
    at h48 h87 h55 ⊢
  split
  · rw [Option.some.injEq, h48 (by omega)]
    omega
  · split
    · rw [Option.some.injEq, h87 (by omega)]
      omega
    · split
      · rw [Option.some.injEq, h55 (by omega)]
        omega
      · simp only [reduceCtorEq, false_iff]
        omega

theorem digit?_eq_none : digit? b = none ↔ ∀ n, ¬Digit b n := by
  rw [Option.eq_none_iff_forall_ne_some]
  constructor
  · intro h n hn
    have hvalue : (UInt8.ofNat n).toNat = n := by
      have hlt := hn.lt
      rw [UInt8.toNat_ofNat', Nat.mod_eq_of_lt (by omega)]
    exact h _ (digit?_eq_some.mpr (hvalue.symm ▸ hn))
  · intro h v hv
    exact h _ (digit?_eq_some.mp hv)

theorem digits_eq_ok :
    digits position bytes = .ok values ↔ List.Forall₂ (fun b v => Digit b v.toNat) bytes values := by
  induction bytes generalizing position values with
  | nil =>
    rw [digits, Except.ok.injEq, List.forall₂_nil_left_iff]
    exact eq_comm
  | cons byte bytes ih =>
    rw [digits, List.forall₂_cons_left_iff]
    constructor
    · intro h
      split at h
      · rename_i d hd
        obtain ⟨others, hothers, rfl⟩ := map_eq_ok.mp h
        exact ⟨d, others, digit?_eq_some.mp hd, ih.mp hothers, rfl⟩
      · cases h
    · rintro ⟨d, others, hd, hothers, rfl⟩
      simp only [digit?_eq_some.mpr hd, ih.mpr hothers]
      rfl

/-- What is refused is the first byte that is no digit, at its place. -/
theorem digits_eq_error {fault : NotDigit} (h : digits position bytes = .error fault) :
    ∃ before after, bytes = before ++ fault.byte :: after ∧ fault.position = position + before.length ∧
      (∀ b ∈ before, ∃ n, Digit b n) ∧ ∀ n, ¬Digit fault.byte n := by
  induction bytes generalizing position with
  | nil => cases h
  | cons byte bytes ih =>
    rw [digits] at h
    split at h
    · rename_i d hd
      obtain ⟨before, after, rfl, hposition, hbefore, hbyte⟩ := ih (map_eq_error.mp h)
      refine ⟨byte :: before, after, rfl, ?_, List.forall_mem_cons.mpr ⟨⟨_, digit?_eq_some.mp hd⟩, hbefore⟩, hbyte⟩
      rw [hposition, List.length_cons]
      omega
    · rename_i hd
      obtain rfl := Except.error.inj h
      exact ⟨[], bytes, rfl, rfl, List.forall_mem_nil _, digit?_eq_none.mp hd⟩

/-! ## Padding -/

theorem padEven_eq (bytes : Octets) : padEven bytes = List.replicate (bytes.length % 2) 48 ++ bytes := by
  rw [padEven]
  split
  · rename_i h
    rw [h]
    rfl
  · rename_i h
    rw [Nat.mod_two_ne_one.mp h]
    rfl

theorem digit_zero : Digit 48 0 := by decide

theorem Digit.eq_zero (h : Digit 48 n) : n = 0 := by
  unfold Digit at h
  simp only [UInt8.reduceToNat, Char.reduceToNat] at h
  omega

/-- The values of the padded digits are those of the digits, after a zero if one was added. -/
theorem digits_padEven_eq_ok (h : digits position (padEven bytes) = .ok values) :
    ∃ rest, List.Forall₂ (fun b v => Digit b v.toNat) bytes rest ∧
      values = List.replicate (bytes.length % 2) 0 ++ rest := by
  rw [digits_eq_ok] at h
  unfold padEven at h
  split at h
  · rename_i hodd
    obtain ⟨zero, rest, hzero, hrest, rfl⟩ := List.forall₂_cons_left_iff.mp h
    obtain rfl : zero = 0 := UInt8.toNat_inj.mp hzero.eq_zero
    refine ⟨rest, hrest, ?_⟩
    rw [hodd]
    rfl
  · rename_i heven
    refine ⟨values, h, ?_⟩
    rw [Nat.mod_two_ne_one.mp heven]
    rfl

/-! ## Pairs of digits -/

theorem length_joinPairs (values : Octets) : (joinPairs values).length = values.length / 2 := by
  fun_induction joinPairs values with
  | case1 high low rest ih =>
    rw [List.length_cons, ih, List.length_cons, List.length_cons]
    omega
  | case2 values hshort =>
    match values with
    | [] => rfl
    | [_] => exact (Nat.div_eq_of_lt Nat.one_lt_two).symm
    | high :: low :: rest => exact absurd rfl (hshort high low rest)

theorem toNat_join {high low : UInt8} (hhigh : high.toNat < 16) (hlow : low.toNat < 16) :
    (high * 16 + low).toNat = high.toNat * 16 + low.toNat := by
  rw [UInt8.toNat_add, UInt8.toNat_mul]
  show (high.toNat * 16 % 256 + low.toNat) % 256 = _
  omega

theorem foldl_joinPairs (heven : values.length % 2 = 0) (hlt : ∀ v ∈ values, v.toNat < 16) :
    (joinPairs values).foldl (fun n b => n * 256 + b.toNat) n = values.foldl (fun n v => n * 16 + v.toNat) n := by
  fun_induction joinPairs values generalizing n with
  | case1 high low rest ih =>
    obtain ⟨hhigh, hlow, hrest⟩ := List.forall_mem_cons.mp hlt |>.imp_right List.forall_mem_cons.mp
    rw [List.length_cons, List.length_cons] at heven
    rw [List.foldl_cons, List.foldl_cons, List.foldl_cons, ih (by omega) hrest, toNat_join hhigh hlow]
    congr 1
    omega
  | case2 values hshort =>
    match values with
    | [] => rfl
    | [_] => cases heven
    | high :: low :: rest => exact absurd rfl (hshort high low rest)

theorem foldl_eq_ofDigits (values : Octets) :
    values.foldl (fun n v => n * 16 + v.toNat) 0 = Nat.ofDigits 16 (values.map UInt8.toNat).reverse := by
  rw [Nat.ofDigits_eq_foldr, List.foldr_reverse, List.foldl_map]
  congr 1
  funext n v
  rw [Nat.cast_id, Nat.mul_comm, Nat.add_comm]

/-- Joined in pairs, digits keep the number that they stand for. -/
theorem value_joinPairs (heven : values.length % 2 = 0) (hlt : ∀ v ∈ values, v.toNat < 16) :
    (joinPairs values).value = Nat.ofDigits 16 (values.map UInt8.toNat).reverse := by
  rw [Octets.value, foldl_joinPairs heven hlt, foldl_eq_ofDigits]

/-! ## What a text is read as -/

/-- What digits are read as: the number that they spell, in half as many bytes, or the first byte
    that is no digit, with its place after the zero that makes their number even. -/
inductive Reads (digits : Octets) : Except NotDigit Octets → Prop
  | number {values : List Nat} {octets : Octets} : List.Forall₂ Digit digits values →
      octets.length = (digits.length + 1) / 2 → octets.value = Nat.ofDigits 16 values.reverse →
      Reads digits (.ok octets)
  | refused {before after : Octets} {byte : UInt8} :
      List.replicate (digits.length % 2) 48 ++ digits = before ++ byte :: after →
      (∀ b ∈ before, ∃ n, Digit b n) → (∀ n, ¬Digit byte n) → Reads digits (.error ⟨byte, before.length⟩)

theorem reads_digits (bytes : Octets) : Reads bytes ((digits 0 (padEven bytes)).map joinPairs) := by
  cases h : digits 0 (padEven bytes) with
  | error fault =>
    obtain ⟨before, after, hbytes, hposition, hbefore, hbyte⟩ := digits_eq_error h
    rw [padEven_eq] at hbytes
    rw [Nat.zero_add] at hposition
    have hfault : fault = ⟨fault.byte, before.length⟩ := by rw [← hposition]
    rw [hfault]
    exact .refused hbytes hbefore hbyte
  | ok values =>
    obtain ⟨rest, hrest, rfl⟩ := digits_padEven_eq_ok h
    have hlength := hrest.length_eq
    have hdigits : ∀ v ∈ rest, v.toNat < 16 :=
      ((List.forall₂_and_left _ _).mp (hrest.flip.imp fun _ _ h => ⟨Digit.lt h, h⟩)).1
    have hlt : ∀ v ∈ List.replicate (bytes.length % 2) 0 ++ rest, v.toNat < 16 := by
      intro v hv
      rcases List.mem_append.mp hv with hv | hv
      · rw [List.eq_of_mem_replicate hv]
        decide
      · exact hdigits v hv
    refine .number (List.forall₂_map_right_iff.mpr hrest) ?_ ?_
    · rw [length_joinPairs, List.length_append, List.length_replicate]
      omega
    · have heven : (List.replicate (bytes.length % 2) 0 ++ rest).length % 2 = 0 := by
        rw [List.length_append, List.length_replicate]
        omega
      rw [value_joinPairs heven hlt, List.map_append, List.map_replicate, List.reverse_append, List.reverse_replicate]
      exact Nat.ofDigits_append_replicate_zero _

theorem Reads.isOk_iff {result : Except NotDigit Octets} (h : Reads bytes result) :
    (∃ octets, result = .ok octets) ↔ ∀ b ∈ bytes, ∃ n, Digit b n := by
  cases h with
  | @number values octets hvalues =>
    have hall : ∀ b ∈ bytes, ∃ n, Digit b n :=
      ((List.forall₂_and_left _ _).mp (hvalues.imp fun _ n h => ⟨⟨n, h⟩, h⟩)).1
    exact iff_of_true ⟨octets, rfl⟩ hall
  | @refused before after byte hbytes hbefore hbyte =>
    have hfails : ¬∃ octets, (Except.error ⟨byte, before.length⟩ : Except NotDigit Octets) = .ok octets := nofun
    refine iff_of_false hfails fun hall => ?_
    have hmem : byte ∈ List.replicate (bytes.length % 2) 48 ++ bytes := by
      rw [hbytes]
      exact List.mem_append_right _ List.mem_cons_self
    rcases List.mem_append.mp hmem with hmem | hmem
    · exact hbyte 0 (List.eq_of_mem_replicate hmem ▸ digit_zero)
    · obtain ⟨n, hn⟩ := hall byte hmem
      exact hbyte n hn

/-- A text is read off its digits, which are the bytes of what remains without a mark: it has a value
    exactly if each of them is a digit, and what a text in two digits a byte spells is read back. -/
theorem decode_reads (text : String) :
    ∃ rest, Unmarked text rest ∧ Reads rest.toUTF8.toList (decode text) ∧
      ((∃ octets, decode text = .ok octets) ↔ ∀ b ∈ rest.toUTF8.toList, ∃ n, Digit b n) ∧
      ∀ octets, Spells text octets → decode text = .ok octets := by
  obtain ⟨rest, hrest, hdrop⟩ := exists_unmarked text
  have hreads : Reads rest.toUTF8.toList (decode text) := by
    rw [decode, decodeBytes, hdrop]
    exact reads_digits _
  exact ⟨rest, hrest, hreads, hreads.isOk_iff, fun _ hspells => hspells.decode_eq⟩

/-- The second mark is refused, with the place of its `x` after the zero that was added. -/
theorem decode_reads_marked_twice :
    decode "0x0x1" = .error ⟨120, 2⟩ ∧ decode "0Xa1f" = .ok [0x0a, 0x1f] ∧
      ∃ rest, Unmarked "0x0x1" rest ∧ ¬∀ b ∈ rest.toUTF8.toList, ∃ n, Digit b n := by
  have hrefused : decode "0x0x1" = .error ⟨120, 2⟩ := by
    rw [decode, toList_toUTF8]
    decide
  have hread : decode "0Xa1f" = .ok [0x0a, 0x1f] := by
    rw [decode, toList_toUTF8]
    decide
  obtain ⟨rest, hrest, -, hok, -⟩ := decode_reads "0x0x1"
  refine ⟨hrefused, hread, rest, hrest, fun hall => ?_⟩
  obtain ⟨octets, hoctets⟩ := hok.mpr hall
  rw [hrefused] at hoctets
  cases hoctets

end MatchAction.Hex
