import LuaMachine.Value.Arithmetic
import Mathlib.Algebra.Group.Nat.Defs
import Mathlib.Algebra.Order.Group.Unbundled.Int

/-!
# Shifts of integers

Amounts of 64 or more, in either direction, are decided first, and a negative amount is left to the
shift in the opposite direction.  So the amount that is negated is small, and the opposite shift
moves the bits itself.  What comes out is the unsigned number in the word, multiplied by a power of
two within 64 bits or divided by one and rounded down.

## Main definitions

* `Integer.Direction.place` : what moving bits does to the unsigned number.
* `Integer.turn` : a shift with another function for negative amounts.

## Main statements

* `Integer.toNat_shift` : shifts of unsigned numbers, for every amount.
* `Integer.turn_turn` : a shift is left to the opposite direction once at most.
* `Operator.integers_shifted` : the operators `<<` and `>>` on two integers.
-/

namespace LuaMachine

namespace Integer

variable {b : Int64} {n : Nat}

namespace Direction

/-- The unsigned number `u` with its bits moved by `n` places. -/
def place : Direction → Nat → Nat → Nat
  | high, u, n => u * 2 ^ n % 2 ^ 64
  | low, u, n => u / 2 ^ n

theorem toNat_move (d : Direction) (u v : UInt64) (h : v.toNat < 64) :
    (d.move u v).toNat = d.place u.toNat v.toNat := by
  cases d with
  | high => rw [move, UInt64.toNat_shiftLeft, Nat.mod_eq_of_lt h, Nat.shiftLeft_eq, place]
  | low => rw [move, UInt64.toNat_shiftRight, Nat.mod_eq_of_lt h, Nat.shiftRight_eq_div_pow, place]

/-- Nothing is left of a word that is moved by 64 places or more. -/
theorem place_eq_zero (d : Direction) (u : UInt64) (h : 64 ≤ n) : d.place u.toNat n = 0 := by
  cases d with
  | high => exact Nat.mod_eq_zero_of_dvd (Nat.dvd_mul_left_of_dvd (Nat.pow_dvd_pow 2 h) _)
  | low =>
    exact Nat.div_eq_of_lt (u.toNat_lt.trans_le (Nat.pow_le_pow_right Nat.two_pos h))

end Direction

variable {d : Direction}

theorem shiftsOut_iff : shiftsOut b = true ↔ 64 ≤ |b.toInt| := by
  rw [shiftsOut, Bool.or_eq_true, decide_eq_true_iff, decide_eq_true_iff, Int64.le_iff_toInt_le,
    Int64.le_iff_toInt_le, le_abs]
  change 64 ≤ b.toInt ∨ b.toInt ≤ -64 ↔ 64 ≤ b.toInt ∨ 64 ≤ -b.toInt
  omega

theorem neg_iff : b < 0 ↔ b.toInt < 0 := by rw [Int64.lt_iff_toInt_lt, Int64.toInt_zero]

/-! ### Turns -/

/-- A shift that leaves negative amounts to `other`. -/
def turn (other : Direction → Int64 → Int64 → Int64) (d : Direction) (a b : Int64) : Int64 :=
  if shiftsOut b then 0
  else if b < 0 then other d.opposite a (-b)
  else (d.move a.toUInt64 b.toUInt64).toInt64

theorem shift_eq_turn (d : Direction) (a b : Int64) : shift d a b = turn shift d a b := by
  rw [shift]
  rfl

/-- The other function is asked at one place at most. -/
theorem turn_congr {f g : Direction → Int64 → Int64 → Int64} {a : Int64}
    (h : ¬shiftsOut b = true → b < 0 → f d.opposite a (-b) = g d.opposite a (-b)) :
    turn f d a b = turn g d a b := by
  rw [turn, turn]
  split
  · rfl
  · next hin =>
    split
    · next hneg => exact h hin hneg
    · rfl

/-- A negated amount is not negative, and is in the range of the amount. -/
theorem neg_amount (hin : ¬shiftsOut b = true) (hneg : b < 0) :
    ¬shiftsOut (-b) = true ∧ ¬-b < 0 := by
  have hamount := toInt_neg_of_shiftsOut hin
  rw [neg_iff] at hneg
  rw [shiftsOut_iff, neg_iff, hamount, abs_neg, ← shiftsOut_iff]
  exact ⟨hin, by omega⟩

/-- **One turn.** What the second turn would leave to another function does not matter: a shift is
left to the opposite direction once at most. -/
theorem turn_turn (other : Direction → Int64 → Int64 → Int64) (d : Direction) (a b : Int64) :
    turn (turn other) d a b = shift d a b := by
  rw [shift_eq_turn]
  refine turn_congr fun hin hneg => ?_
  rw [shift_eq_turn]
  exact turn_congr fun _ hneg' => absurd hneg' (neg_amount hin hneg).2

/-! ### Shifts of unsigned numbers -/

theorem shift_of_shiftsOut (d : Direction) (a : Int64) (hin : shiftsOut b = true) :
    shift d a b = 0 := by
  rw [shift, if_pos hin]

/-- A shift by an amount that is not negative moves the bits itself. -/
theorem toNat_shift_of_nonneg (d : Direction) (a : Int64) (hin : ¬shiftsOut b = true)
    (hneg : ¬b < 0) :
    (shift d a b).toUInt64.toNat = d.place a.toUInt64.toNat b.toInt.toNat := by
  have hle : 0 ≤ b.toInt := Int.not_lt.1 (neg_iff.not.1 hneg)
  have hlt := shiftsOut_iff.not.1 hin
  rw [abs_of_nonneg hle] at hlt
  have hamount : b.toUInt64.toNat = b.toInt.toNat :=
    Int64.toNat_toUInt64_of_le (by rwa [Int64.le_iff_toInt_le, Int64.toInt_zero])
  rw [shift, if_neg hin, if_neg hneg, UInt64.toUInt64_toInt64, d.toNat_move _ _ (by omega), hamount]

/-- **Shifts.** A shift multiplies or divides the unsigned number, for every amount. -/
theorem toNat_shift (d : Direction) (a b : Int64) : (shift d a b).toUInt64.toNat =
    if 0 ≤ b.toInt then d.place a.toUInt64.toNat b.toInt.toNat
    else d.opposite.place a.toUInt64.toNat (-b.toInt).toNat := by
  by_cases hin : shiftsOut b = true
  · rw [shift_of_shiftsOut d a hin]
    rw [shiftsOut_iff, le_abs] at hin
    split
    · exact (d.place_eq_zero _ (by omega)).symm
    · exact (d.opposite.place_eq_zero _ (by omega)).symm
  · by_cases hneg : b < 0
    · obtain ⟨hin', hneg'⟩ := neg_amount hin hneg
      rw [shift, if_neg hin, if_pos hneg, toNat_shift_of_nonneg _ a hin' hneg',
        toInt_neg_of_shiftsOut hin, if_neg (by rw [neg_iff] at hneg; omega)]
    · rw [toNat_shift_of_nonneg d a hin hneg, if_pos (by rw [neg_iff] at hneg; omega)]

end Integer

namespace Operator

/-- **Shifts by signed amounts.** The operators `<<` and `>>` on two integers multiply the unsigned
number in the word by a power of two within 64 bits, or divide it by one and round down; the sign of
the amount decides which, and amounts of 64 or more leave zero.  A shift is left to the opposite
direction at most once, and the negation of the amount does not overflow then. -/
theorem integers_shifted (a b : Int64) :
    shiftLeft.apply (.integer a) (.integer b) = .value (.integer (Integer.shiftLeft a b)) ∧
      shiftRight.apply (.integer a) (.integer b) = .value (.integer (Integer.shiftRight a b)) ∧
      ((Integer.shiftLeft a b).toUInt64.toNat =
        if 0 ≤ b.toInt then a.toUInt64.toNat * 2 ^ b.toInt.toNat % 2 ^ 64
        else a.toUInt64.toNat / 2 ^ (-b.toInt).toNat) ∧
      ((Integer.shiftRight a b).toUInt64.toNat =
        if 0 ≤ b.toInt then a.toUInt64.toNat / 2 ^ b.toInt.toNat
        else a.toUInt64.toNat * 2 ^ (-b.toInt).toNat % 2 ^ 64) ∧
      (64 ≤ |b.toInt| → Integer.shiftLeft a b = 0 ∧ Integer.shiftRight a b = 0) ∧
      (∀ other d, Integer.turn (Integer.turn other) d a b = Integer.shift d a b) ∧
      (¬Integer.shiftsOut b = true → (-b).toInt = -b.toInt) := by
  refine ⟨rfl, rfl, Integer.toNat_shift .high a b, Integer.toNat_shift .low a b, fun hout => ?_,
    fun other d => Integer.turn_turn other d a b, Integer.toInt_neg_of_shiftsOut⟩
  have hin := Integer.shiftsOut_iff.2 hout
  exact ⟨Integer.shift_of_shiftsOut .high a hin, Integer.shift_of_shiftsOut .low a hin⟩

/-- A shift by the least integer, which has no negation, leaves nothing in either direction. -/
theorem integers_shifted_by_least : 64 ≤ |Int64.minValue.toInt| ∧
    Integer.shiftLeft (-1) Int64.minValue = 0 ∧ Integer.shiftRight (-1) Int64.minValue = 0 ∧
    ¬Integer.shiftsOut (-63) = true ∧ (-(-63 : Int64)).toInt = 63 := by
  have hlarge : 64 ≤ |Int64.minValue.toInt| := by decide
  have hsmall : ¬Integer.shiftsOut (-63) = true := by decide
  obtain ⟨-, -, -, -, hleast, -⟩ := integers_shifted (-1) Int64.minValue
  obtain ⟨-, -, -, -, -, -, hneg⟩ := integers_shifted (-1) (-63)
  exact ⟨hlarge, (hleast hlarge).1, (hleast hlarge).2, hsmall, hneg hsmall⟩

end Operator

end LuaMachine
