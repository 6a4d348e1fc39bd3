import LuaMachine.Proofs.Number.Denotation
import LuaMachine.Proofs.Number.WrittenNumerals

/-!
# Integers as numerals

A numeral that consists of digits only is an integer whenever an integer can be made of it.  Decimal
digits of any number denote exactly the integer that they spell, and a float only if this is not an
integer of 64 bits, where the least integer is one further from zero than the greatest.  Hexadecimal
digits of any number denote what they spell reduced to 64 bits, and then the sign is applied.

In particular an integer is read back from its decimal text, whatever blanks are around it.

## Main definitions

* `Numeral.ofDigits` : the numeral that consists of digits only.

## Main statements

* `Numeral.read?_ofDigits` : digits with a sign and blanks around them are read as that numeral.
* `Numeral.exists_integerText` : the decimal text of an integer is a sign and the digits of it.
* `Number.integer_numerals_exact` : what such numerals denote.
-/

namespace LuaMachine

namespace Numeral

open Binary64 (signed)

/-! ### Decimal texts -/

section Texts

variable {c : Char} {cs : List Char}

/-- The byte of a character whose code is less than 128. -/
def asciiByte (c : Char) : UInt8 := c.val.toUInt8

theorem toNat_asciiByte (h : c.isDigit = true) :
    (asciiByte c).toNat = c.toNat ∧ 48 ≤ c.toNat ∧ c.toNat ≤ 57 := by
  have hrange : 48 ≤ c.toNat ∧ c.toNat ≤ 57 := by
    simpa [Char.isDigit, UInt32.le_iff_toNat_le] using h
  refine ⟨?_, hrange⟩
  rw [asciiByte, UInt32.toNat_toUInt8]
  exact Nat.mod_eq_of_lt (lt_of_le_of_lt hrange.2 (by decide))

theorem toNat_lt_of_isDigit (h : c.isDigit = true) : c.toNat < 128 :=
  lt_of_le_of_lt (toNat_asciiByte h).2.2 (by decide)

theorem isDecimalDigit_asciiByte (h : c.isDigit = true) : isDecimalDigit (asciiByte c) = true := by
  obtain ⟨hbyte, hlow, hhigh⟩ := toNat_asciiByte h
  simp only [isDecimalDigit, Bool.and_eq_true, decide_eq_true_eq, UInt8.le_iff_toNat_le, hbyte]
  exact ⟨hlow, hhigh⟩

theorem digitValue_asciiByte (h : c.isDigit = true) :
    digitValue (asciiByte c) = c.toNat - '0'.toNat := by
  obtain ⟨hbyte, hlow, hhigh⟩ := toNat_asciiByte h
  rw [digitValue, if_pos (UInt8.le_iff_toNat_le.2 (hbyte ▸ hhigh)), hbyte]
  rfl

theorem natValue_map_asciiByte (h : ∀ c ∈ cs, c.isDigit = true) :
    natValue 10 (cs.map asciiByte) = Nat.ofDigitChars 10 cs 0 := by
  rw [natValue, List.foldl_map, Nat.ofDigitChars]
  generalize 0 = start
  induction cs generalizing start with
  | nil => rfl
  | cons c cs ih =>
    rw [List.foldl_cons, List.foldl_cons, digitValue_asciiByte (h c List.mem_cons_self),
      Nat.mul_comm start, ih fun c hc => h c (List.mem_cons_of_mem _ hc)]

/-- Characters with codes less than 128 are encoded by one byte each. -/
theorem toList_toUTF8_ofList (h : ∀ c ∈ cs, c.toNat < 128) :
    (String.ofList cs).toUTF8.toList = cs.map asciiByte := by
  have hbytes : (String.ofList cs).toUTF8.toList = cs.flatMap String.utf8EncodeChar := by
    rw [ByteArray.toList_eq, String.toUTF8, String.toByteArray_ofList, List.utf8Encode,
      List.toList_data_toByteArray]
  rw [hbytes, List.map_eq_flatMap]
  refine List.flatMap_congr fun c hc => ?_
  have hsize : c.utf8Size = 1 :=
    Char.utf8Size_eq_one_iff.2 (UInt32.le_iff_toNat_le.2 (Nat.le_of_lt_succ (h c hc)))
  exact String.utf8EncodeChar_eq_singleton hsize

end Texts

/-- The decimal text of an integer is a minus if it is negative, and the digits of its magnitude. -/
theorem exists_integerText (z : Int) : ∃ negative sign digits, SignText negative sign ∧
    digits ≠ [] ∧ (∀ b ∈ digits, isDecimalDigit b = true) ∧
    (toString z).toUTF8.toList = sign ++ digits ∧ signed negative (natValue 10 digits) = z := by
  have hdigit (n : Nat) : ∀ c ∈ Nat.toDigits 10 n, c.isDigit = true := fun c hc =>
    Nat.isDigit_of_mem_toDigits (by decide) le_rfl hc
  have hne (n : Nat) : (Nat.toDigits 10 n).map asciiByte ≠ [] :=
    mt List.map_eq_nil_iff.1 Nat.toDigits_ne_nil
  have hdigits (n : Nat) : ∀ b ∈ (Nat.toDigits 10 n).map asciiByte, isDecimalDigit b = true :=
    List.forall_mem_map.2 fun c hc => isDecimalDigit_asciiByte (hdigit n c hc)
  have htext (n : Nat) : n.repr.toUTF8.toList = (Nat.toDigits 10 n).map asciiByte := by
    rw [Nat.repr_eq_ofList_toDigits,
      toList_toUTF8_ofList fun c hc => toNat_lt_of_isDigit (hdigit n c hc)]
  have hvalue (n : Nat) : natValue 10 ((Nat.toDigits 10 n).map asciiByte) = n := by
    rw [natValue_map_asciiByte (hdigit n), Nat.ofDigitChars_toDigits (by decide) le_rfl]
  by_cases hz : 0 ≤ z
  · refine ⟨false, _, _, .absent, hne z.toNat, hdigits _, ?_, ?_⟩
    · rw [Int.toString_eq_repr, Int.repr_eq_if, if_pos hz, htext, List.nil_append]
    · rw [hvalue]
      exact Int.toNat_of_nonneg hz
  · refine ⟨true, _, _, .minus, hne (-z).toNat, hdigits _, ?_, ?_⟩
    · rw [Int.toString_eq_repr, Int.repr_eq_if, if_neg hz, ← htext, ByteArray.toList_eq,
        ByteArray.toList_eq, String.toUTF8, String.toByteArray_append, ByteArray.toList_data_append]
      rfl
    · rw [hvalue]
      change -((-z).toNat : Int) = z
      omega

/-! ### Digits without a point and an exponent -/

/-- The numeral that consists of digits only. -/
def ofDigits (negative : Bool) (radix : Radix) (digits : List UInt8) : Numeral :=
  { negative, radix, whole := digits, fraction := none, exponent := none }

variable {negative : Bool} {radix : Radix} {sign mark digits before after : List UInt8}

theorem written_ofDigits (hsign : SignText negative sign) (hmark : RadixText radix mark)
    (hne : digits ≠ []) (hdigits : ∀ b ∈ digits, isDigit radix b = true) :
    (ofDigits negative radix digits).Written (sign ++ (mark ++ digits)) where
  whole := hdigits
  fraction := nofun
  digits := by simpa [ofDigits] using hne
  text := ⟨sign, mark, [], hsign, hmark, .absent, by simp [ofDigits, fractionText]⟩

/-- Digits with a sign, and blanks around them, are read as the numeral of these digits. -/
theorem read?_ofDigits {s : ByteArray} (hbefore : ∀ b ∈ before, isBlank b = true)
    (hafter : ∀ b ∈ after, isBlank b = true) (hsign : SignText negative sign)
    (hmark : RadixText radix mark) (hne : digits ≠ [])
    (hdigits : ∀ b ∈ digits, isDigit radix b = true)
    (hs : s.toList = before ++ (sign ++ (mark ++ digits) ++ after)) :
    Number.read? s = some (ofDigits negative radix digits).value := by
  have hparse := parse?_eq_some_iff.2
    ⟨before, _, after, hs, hbefore, hafter, written_ofDigits hsign hmark hne hdigits⟩
  rw [Number.read?, hparse, Option.map_some]

theorem value_ofDigits_decimal {i : Int64}
    (h : i.toInt = signed negative (natValue 10 digits)) :
    (ofDigits negative .decimal digits).value = .integer i := by
  have hword : Binary64.word? (signed negative (natValue 10 digits)) = some i :=
    Binary64.word?_eq_some_iff.2 h
  rw [value, integerValue?_eq]
  simp only [ofDigits, wholeValue, hword]

theorem value_ofDigits_decimal_of_none
    (h : Binary64.word? (signed negative (natValue 10 digits)) = none) :
    ∃ bits, (ofDigits negative .decimal digits).value = .float bits := by
  rw [value, integerValue?_eq]
  simp only [ofDigits, wholeValue, h]
  exact ⟨_, rfl⟩

theorem value_ofDigits_hexadecimal : (ofDigits negative .hexadecimal digits).value =
    .integer (Int64.ofInt (signed negative (natValue 16 digits))) := by
  rw [value, integerValue?_eq]
  rfl

end Numeral

namespace Number

open Binary64 (signed)
open Numeral (SignText RadixText isBlank isDecimalDigit isHexDigit natValue)

/-- **Integers.** The decimal text of an integer is read as that integer.  Decimal digits with a
sign are read as the integer that they denote if it has 64 bits, and as a float otherwise;
hexadecimal digits with a sign are always read as an integer, which is reduced to 64 bits.  Blanks
around the text do not matter, and digits may be of any number. -/
theorem integer_numerals_exact (s : ByteArray) (before after : List UInt8)
    (hbefore : ∀ b ∈ before, isBlank b = true) (hafter : ∀ b ∈ after, isBlank b = true) :
    (∀ i : Int64, s.toList = before ++ ((toString i.toInt).toUTF8.toList ++ after) →
      read? s = some (.integer i)) ∧
    (∀ negative sign digits, SignText negative sign → digits ≠ [] →
      (∀ b ∈ digits, isDecimalDigit b = true) → s.toList = before ++ (sign ++ digits ++ after) →
      if -2 ^ 63 ≤ signed negative (natValue 10 digits) ∧
          signed negative (natValue 10 digits) ≤ 2 ^ 63 - 1 then
        ∃ i, read? s = some (.integer i) ∧ i.toInt = signed negative (natValue 10 digits)
      else ∃ bits, read? s = some (.float bits)) ∧
    (∀ negative sign mark digits, SignText negative sign → RadixText .hexadecimal mark →
      digits ≠ [] → (∀ b ∈ digits, isHexDigit b = true) →
      s.toList = before ++ (sign ++ (mark ++ digits) ++ after) →
      ∃ i, read? s = some (.integer i) ∧
        i.toInt = (signed negative (natValue 16 digits)).bmod (2 ^ 64)) := by
  refine ⟨fun i hs => ?_, fun negative sign digits hsign hne hdigits hs => ?_,
    fun negative sign mark digits hsign hmark hne hdigits hs => ?_⟩
  · obtain ⟨negative, sign, digits, hsign, hne, hdigits, htext, hvalue⟩ :=
      Numeral.exists_integerText i.toInt
    rw [htext] at hs
    rw [Numeral.read?_ofDigits hbefore hafter hsign .decimal hne hdigits hs,
      Numeral.value_ofDigits_decimal hvalue.symm]
  · rw [Numeral.read?_ofDigits hbefore hafter hsign .decimal hne hdigits hs]
    cases hword : Binary64.word? (signed negative (natValue 10 digits)) with
    | some i =>
      have hi := Binary64.word?_eq_some_iff.1 hword
      have hlow := i.le_toInt
      have hhigh := i.toInt_lt
      rw [if_pos (by omega), Numeral.value_ofDigits_decimal hi]
      exact ⟨i, rfl, hi⟩
    | none =>
      have hrange := Binary64.word?_eq_none_iff.1 hword
      obtain ⟨bits, hbits⟩ := Numeral.value_ofDigits_decimal_of_none hword
      rw [if_neg (by omega), hbits]
      exact ⟨bits, rfl⟩
  · rw [Numeral.read?_ofDigits hbefore hafter hsign hmark hne hdigits hs,
      Numeral.value_ofDigits_hexadecimal]
    exact ⟨_, rfl, Int64.toInt_ofInt⟩

/-- The least integer with blanks around it, the first number beyond the greatest one, and 68 bits
that are all set. -/
theorem integer_numerals_exact_at_bounds :
    read? " -9223372036854775808\n".toUTF8 = some (.integer Int64.minValue) ∧
      (∃ bits, read? "9223372036854775808".toUTF8 = some (.float bits)) ∧
      ∃ i, read? "0xFFFFFFFFFFFFFFFFF".toUTF8 = some (.integer i) ∧ i.toInt = -1 := by
  have hleast := (integer_numerals_exact " -9223372036854775808\n".toUTF8 [0x20] [0x0A]
    (List.forall_mem_singleton.2 rfl) (List.forall_mem_singleton.2 rfl)).1 Int64.minValue
  have hbeyond := (integer_numerals_exact "9223372036854775808".toUTF8 [] [] nofun nofun).2.1
    false [] "9223372036854775808".toUTF8.data.toList .absent
  have hbits := (integer_numerals_exact "0xFFFFFFFFFFFFFFFFF".toUTF8 [] [] nofun nofun).2.2
    false [] [0x30, 0x78] (List.replicate 17 0x46) .absent .lower
  simp only [ByteArray.toList_eq] at hleast hbeyond hbits
  obtain ⟨i, hi, hvalue⟩ := hbits (by decide) (by decide +kernel) (by decide +kernel)
  exact ⟨hleast (by decide +kernel),
    hbeyond (by decide +kernel) (by decide +kernel) (by decide +kernel),
    i, hi, hvalue.trans (by decide +kernel)⟩

end Number

end LuaMachine
