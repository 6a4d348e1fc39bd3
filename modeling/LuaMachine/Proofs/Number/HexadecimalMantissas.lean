import LuaMachine.Proofs.Number.Accumulators
import LuaMachine.Proofs.Number.Rounding

/-!
# The mantissas of hexadecimal numerals

The digits of a hexadecimal numeral accumulate in floating point: what has been read is multiplied
by 16, and the next digit is added.  The product is exact, the sum is rounded.  Rounding after each
digit is not the same as rounding the number that all digits denote, but it reaches the powers of
two above 2^53 exactly where that does.  In particular the mantissa is infinite if and only if the
number that the digits denote is at least 2^1024 - 2^970, half a unit below 2^1024.

## Main definitions

* `Numeral.roundedValue` : the value of hexadecimal digits, rounded after each digit.

## Main statements

* `Numeral.two_pow_le_roundedValue_iff` : where the rounded value reaches a power of two.
* `Numeral.amounts_hexadecimalMantissa` : the mantissa stands for the rounded value.
-/

namespace LuaMachine.Numeral

open Binary64 (Amounts amounts_toFloat rounded rounded_of_lt rounded_rounded two_pow_le_rounded
  two_pow_le_rounded_iff)

/-- The number that hexadecimal digits denote, rounded to 53 bits after each of them. -/
def roundedValue (digits : List UInt8) : Nat :=
  digits.foldl (fun w b => rounded (w * 16 + digitValue b)) 0

variable {digits : List UInt8} {b : UInt8}

theorem roundedValue_concat : roundedValue (digits ++ [b]) =
    rounded (roundedValue digits * 16 + digitValue b) := List.foldl_append ..

theorem rounded_roundedValue (digits : List UInt8) :
    rounded (roundedValue digits) = roundedValue digits := by
  induction digits using List.reverseRecOn with
  | nil => rfl
  | append_singleton digits b _ => rw [roundedValue_concat, rounded_rounded]

/-- The first 53 bits are exact, and what has more is not rounded to less. -/
theorem roundedValue_of_width (digits : List UInt8) :
    (natValue 16 digits < 2 ^ 53 → roundedValue digits = natValue 16 digits) ∧
    (2 ^ 53 ≤ natValue 16 digits → 2 ^ 53 ≤ roundedValue digits) := by
  induction digits using List.reverseRecOn with
  | nil => exact ⟨fun _ => rfl, fun h => absurd h (by decide)⟩
  | append_singleton digits b ih =>
    obtain ⟨hexact, hwide⟩ := ih
    rw [roundedValue_concat, natValue_concat]
    refine ⟨fun h => ?_, fun h => two_pow_le_rounded ?_⟩
    · rw [hexact (by omega), rounded_of_lt h]
    · rcases Nat.lt_or_ge (natValue 16 digits) (2 ^ 53) with hlt | hge
      · rwa [hexact hlt]
      · have := hwide hge
        omega

theorem roundedValue_eq_zero_iff : roundedValue digits = 0 ↔ natValue 16 digits = 0 := by
  obtain ⟨hexact, hwide⟩ := roundedValue_of_width digits
  omega

/-- Rounded digit by digit, a number reaches the powers of two above 2^53 where it does when it is
rounded once. -/
theorem mul_two_pow_le_roundedValue_iff (hdigits : ∀ b ∈ digits, digitValue b < 16) (j : Nat) :
    2 ^ 54 * 2 ^ j ≤ roundedValue digits ↔ (2 ^ 54 - 1) * 2 ^ j ≤ natValue 16 digits := by
  induction digits using List.reverseRecOn generalizing j with
  | nil =>
    have hpos : 0 < 2 ^ j := Nat.two_pow_pos j
    rw [roundedValue, natValue, List.foldl_nil, List.foldl_nil]
    omega
  | append_singleton digits b ih =>
    have hb : digitValue b < 16 := hdigits b (by simp)
    have ih := ih fun b hb => hdigits b (List.mem_append_left _ hb)
    obtain ⟨hexact, hwide⟩ := roundedValue_of_width digits
    rw [roundedValue_concat, natValue_concat, two_pow_le_rounded_iff]
    rcases Nat.lt_or_ge j 4 with hlt | hge
    · -- below 2^58 the digits before the last one have been exact, or they suffice
      have hpow : 2 ^ j ≤ 2 ^ 3 := Nat.pow_le_pow_right two_pos (Nat.le_of_lt_succ hlt)
      omega
    · -- the power is reached without the last digit, if at all
      obtain ⟨i, rfl⟩ := Nat.exists_eq_add_of_le' hge
      have hrounded := two_pow_le_rounded_iff (x := roundedValue digits) i
      rw [rounded_roundedValue] at hrounded
      have := ih i
      rw [Nat.pow_add]
      omega

/-- **Reaching a power of two.** Digits reach a power of two if what they denote is at most half a
unit of the last of 53 bits below it. -/
theorem two_pow_le_roundedValue_iff (hdigits : ∀ b ∈ digits, digitValue b < 16) {j k : Nat}
    (hk : k = j + 54) :
    2 ^ k ≤ roundedValue digits ↔ 2 ^ k - 2 ^ j ≤ natValue 16 digits := by
  have h := mul_two_pow_le_roundedValue_iff hdigits j
  rw [hk, Nat.pow_add, Nat.mul_comm (2 ^ j), h]
  omega

/-! ### Digits in floating point -/

theorem amounts_sixteen : Amounts (16.0 : Float).toModel.unpack 16 :=
  .finite (t := 4) (by decide) (by decide) (by decide) (by decide) (by decide)

/-- One step: a multiplication by 16, which is exact, and the addition of a digit. -/
theorem amounts_step {x : Float} {w d : Nat} (hx : Amounts x.toModel.unpack w)
    (hw : rounded w = w) (hd : d < 16) :
    Amounts (x * 16.0 + d.toFloat).toModel.unpack (rounded (w * 16 + d)) := by
  have hproduct : Amounts (x * 16.0).toModel.unpack (rounded (w * 16)) :=
    hx.mul amounts_sixteen (by decide) (by decide)
  have hexact : rounded (w * 16) = w * 16 := by
    rw [show w * 16 = w * 2 ^ 4 from rfl, Binary64.rounded_mul_two_pow, hw]
  rw [hexact] at hproduct
  exact hproduct.add (amounts_toFloat (hd.trans (by decide)))

/-- **Mantissas.** The digits of a hexadecimal numeral accumulate to the number that they denote,
rounded after each digit. -/
theorem amounts_hexadecimalMantissa (hdigits : ∀ b ∈ digits, digitValue b < 16) :
    Amounts (hexadecimalMantissa digits).toModel.unpack (roundedValue digits) := by
  induction digits using List.reverseRecOn with
  | nil => exact .zero
  | append_singleton digits b ih =>
    have hconcat : hexadecimalMantissa (digits ++ [b]) =
        hexadecimalMantissa digits * 16.0 + (digitValue b).toFloat := List.foldl_append ..
    rw [hconcat, roundedValue_concat]
    exact amounts_step (ih fun b hb => hdigits b (List.mem_append_left _ hb))
      (rounded_roundedValue digits) (hdigits b (by simp))

end LuaMachine.Numeral
