import LuaMachine.Number.Numeral
import Mathlib.Data.List.Induction

/-!
# The integers that digits denote

The digits of an integer are read one by one into a word of 64 bits, which is given its sign at the
end.  Decimal digits are read with a bound that depends on the sign, and reading fails as soon as
the bound is exceeded.  Hexadecimal digits are read without a bound, and what does not fit is lost.

Read to the end, decimal digits yield the integer that they denote, or nothing if it does not have
64 bits, and hexadecimal digits yield that integer reduced to 64 bits.

## Main statements

* `Numeral.decimalMagnitude?_eq`, `Numeral.hexadecimalMagnitude_eq` : the magnitude that is read.
* `Numeral.integerValue?_eq` : the integer that a numeral denotes, by its signed value.
-/

namespace LuaMachine.Numeral

variable {negative : Bool} {base : Nat} {digits : List UInt8} {b : UInt8}

theorem natValue_concat :
    natValue base (digits ++ [b]) = natValue base digits * base + digitValue b :=
  List.foldl_append ..

/-! ### Decimal digits -/

/-- The three tests of a step, for 64 bits twice and then for the bound, amount to the last one. -/
theorem decimalStep?_eq (bound magnitude : UInt64) (b : UInt8) :
    decimalStep? bound magnitude b =
      if magnitude.toNat * 10 + digitValue b ≤ bound.toNat then
        some (UInt64.ofNat (magnitude.toNat * 10 + digitValue b))
      else none := by
  have hbound := bound.toNat_lt
  have htens : magnitude.toNat * 10 < 0x10000000000000000 →
      (UInt64.ofNat (magnitude.toNat * 10)).toNat = magnitude.toNat * 10 := fun h =>
    UInt64.toNat_ofNat_of_lt' h
  have hnext : magnitude.toNat * 10 + digitValue b < 0x10000000000000000 →
      (UInt64.ofNat (magnitude.toNat * 10 + digitValue b)).toNat =
        magnitude.toNat * 10 + digitValue b := fun h => UInt64.toNat_ofNat_of_lt' h
  simp only [decimalStep?, unsigned?, Option.bind_eq_bind]
  by_cases h₁ : magnitude.toNat * 10 < 0x10000000000000000
  · rw [if_pos h₁, Option.bind_some, htens h₁]
    by_cases h₂ : magnitude.toNat * 10 + digitValue b < 0x10000000000000000
    · simp only [if_pos h₂, Option.bind_some, UInt64.le_iff_toNat_le, hnext h₂]
    · rw [if_neg h₂, if_neg (by omega), Option.bind_none]
  · rw [if_neg h₁, if_neg (by omega), Option.bind_none]

/-- **Decimal digits.** They are read if the number that they denote does not exceed the bound. -/
theorem decimalMagnitude?_eq (negative : Bool) (digits : List UInt8) :
    decimalMagnitude? negative digits =
      if natValue 10 digits ≤ (magnitudeBound negative).toNat then
        some (UInt64.ofNat (natValue 10 digits))
      else none := by
  have hbound := (magnitudeBound negative).toNat_lt
  induction digits using List.reverseRecOn with
  | nil => rfl
  | append_singleton digits b ih =>
    have hconcat : decimalMagnitude? negative (digits ++ [b]) =
        (decimalMagnitude? negative digits).bind (decimalStep? (magnitudeBound negative) · b) := by
      simp only [decimalMagnitude?, List.foldlM_append, List.foldlM_cons, List.foldlM_nil,
        bind_pure, Option.bind_eq_bind]
    rw [hconcat, ih, natValue_concat]
    split
    · next h =>
      have hnat : (UInt64.ofNat (natValue 10 digits)).toNat = natValue 10 digits :=
        UInt64.toNat_ofNat_of_lt' (by change _ < 2 ^ 64; omega)
      rw [Option.bind_some, decimalStep?_eq, hnat]
    · next h =>
      rw [if_neg (by omega)]
      rfl

/-! ### Hexadecimal digits -/

/-- **Hexadecimal digits.** The number that they denote is reduced to 64 bits. -/
theorem hexadecimalMagnitude_eq (digits : List UInt8) :
    hexadecimalMagnitude digits = UInt64.ofNat (natValue 16 digits) := by
  induction digits using List.reverseRecOn with
  | nil => rfl
  | append_singleton digits b ih =>
    have hconcat : hexadecimalMagnitude (digits ++ [b]) =
        hexadecimalMagnitude digits * 16 + UInt64.ofNat (digitValue b) := List.foldl_append ..
    rw [hconcat, ih, natValue_concat, UInt64.ofNat_add, UInt64.ofNat_mul]
    rfl

/-! ### The sign -/

theorem signedWord_ofNat (negative : Bool) (n : Nat) :
    signedWord negative (UInt64.ofNat n) = Int64.ofInt (Binary64.signed negative n) := by
  have hword : (UInt64.ofNat n).toInt64 = Int64.ofInt n := rfl
  cases negative with
  | false => exact hword
  | true =>
    have hneg : Int64.ofInt (Binary64.signed true n) = -Int64.ofInt n := Int64.ofInt_neg n
    rw [hneg, ← hword]
    rfl

/-- A magnitude is within the bound of its sign if the integer has 64 bits. -/
theorem le_magnitudeBound_iff (negative : Bool) (n : Nat) :
    n ≤ (magnitudeBound negative).toNat ↔
      -0x8000000000000000 ≤ Binary64.signed negative n ∧
        Binary64.signed negative n < 0x8000000000000000 := by
  cases negative with
  | false =>
    have hbound : (magnitudeBound false).toNat = 0x7FFFFFFFFFFFFFFF := rfl
    have hsigned : Binary64.signed false n = n := rfl
    omega
  | true =>
    have hbound : (magnitudeBound true).toNat = 0x8000000000000000 := rfl
    have hsigned : Binary64.signed true n = -n := rfl
    omega

theorem map_signedWord_decimalMagnitude? (negative : Bool) (digits : List UInt8) :
    (decimalMagnitude? negative digits).map (signedWord negative) =
      Binary64.word? (Binary64.signed negative (natValue 10 digits)) := by
  have hrange := le_magnitudeBound_iff negative (natValue 10 digits)
  rw [decimalMagnitude?_eq, Binary64.word?]
  by_cases h : natValue 10 digits ≤ (magnitudeBound negative).toNat
  · rw [if_pos h, if_pos (hrange.1 h), Option.map_some, signedWord_ofNat]
  · rw [if_neg h, if_neg (mt hrange.2 h), Option.map_none]

/-- **Integers.** A decimal numeral denotes the integer that is its signed value, if that has 64
bits, and a hexadecimal one denotes it reduced to 64 bits. -/
theorem integerValue?_eq (n : Numeral) :
    n.integerValue? = match n.fraction, n.exponent, n.radix with
      | none, none, .hexadecimal => some (Int64.ofInt n.wholeValue)
      | none, none, .decimal => Binary64.word? n.wholeValue
      | _, _, _ => none := by
  obtain ⟨negative, radix, whole, fraction, exponent⟩ := n
  cases fraction <;> cases exponent <;> try rfl
  cases radix with
  | decimal => exact map_signedWord_decimalMagnitude? negative whole
  | hexadecimal =>
    simp only [integerValue?, wholeValue, hexadecimalMagnitude_eq, signedWord_ofNat]

end LuaMachine.Numeral
