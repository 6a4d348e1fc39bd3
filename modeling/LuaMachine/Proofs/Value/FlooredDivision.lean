import LuaMachine.Value.Arithmetic
import Mathlib.Data.Rat.Floor

/-!
# Division of integers

Words are divided with the quotient truncated, and this is corrected by one if the remainder is not
zero and has the sign opposite to the divisor.  What comes out is the quotient rounded toward
negative infinity, for all signs and up to the ends of the range: only the quotient of the least
integer by minus one has no word, and wraps.

## Main definitions

* `Integer.IsRemainder` : what can be left over when a quotient is rounded toward negative infinity.
* `Integer.Floored` : quotient and remainder of two words.

## Main statements

* `Integer.floor_div_of_isRemainder` : a remainder of this kind tells the rounded quotient.
* `Operator.integers_divided` : the operators `//` and `%` on two integers.
-/

namespace LuaMachine

namespace Integer

/-! ### Remainders -/

/-- An integer that can be left over when the quotient by `d` is rounded toward negative infinity:
it lies between zero and `d`, and is not `d`. -/
def IsRemainder (d r : Int) : Prop := 0 ≤ r ∧ r < d ∨ d < r ∧ r ≤ 0

/-- **Quotients from remainders.** Whatever is found with such a remainder is the quotient rounded
toward negative infinity. -/
theorem floor_div_of_isRemainder {n d q r : Int} (hr : IsRemainder d r) (h : d * q + r = n) :
    ⌊(n : ℚ) / d⌋ = q := by
  subst h
  rw [Int.floor_eq_iff]
  rcases hr with ⟨hlow, hhigh⟩ | ⟨hlow, hhigh⟩
  · have hd : (0 : ℚ) < d := by exact_mod_cast lt_of_le_of_lt hlow hhigh
    rw [le_div_iff₀ hd, div_lt_iff₀ hd]
    constructor
    · exact_mod_cast (by linarith : q * d ≤ d * q + r)
    · exact_mod_cast (by linarith : d * q + r < (q + 1) * d)
  · have hd : (d : ℚ) < 0 := by exact_mod_cast lt_of_lt_of_le hlow hhigh
    rw [le_div_iff_of_neg hd, div_lt_iff_of_neg hd]
    constructor
    · exact_mod_cast (by linarith : d * q + r ≤ q * d)
    · exact_mod_cast (by linarith : (q + 1) * d < d * q + r)

theorem natAbs_tmod_lt (n : Int) {d : Int} (hd : d ≠ 0) : (n.tmod d).natAbs < d.natAbs := by
  rw [Int.natAbs_tmod]
  exact Nat.mod_lt _ (Int.natAbs_pos.2 hd)

/-! ### The correction -/

variable {a b r : Int64}

theorem toInt_ne_zero_iff : b.toInt ≠ 0 ↔ b ≠ 0 := not_congr (Int64.toInt_inj (y := 0))

/-- The highest bit of the exclusive or tells whether the signs differ. -/
theorem xor_neg_iff : r ^^^ b < 0 ↔ (r.toInt < 0 ↔ 0 ≤ b.toInt) := by
  have hsign (x : Int64) : x.toInt < 0 ↔ x.toBitVec.msb = true := by
    rw [BitVec.msb_eq_toInt, decide_eq_true_iff]
    rfl
  have hb : 0 ≤ b.toInt ↔ b.toBitVec.msb = false := by
    rw [← Int.not_lt, hsign, Bool.not_eq_true]
  rw [Int64.lt_iff_toInt_lt, Int64.toInt_zero, hsign, hsign, hb, Int64.toBitVec_xor, BitVec.msb_xor]
  cases r.toBitVec.msb <;> cases b.toBitVec.msb <;> decide

theorem needsFloor_iff : needsFloor r b = true ↔ r.toInt ≠ 0 ∧ (r.toInt < 0 ↔ 0 ≤ b.toInt) := by
  rw [needsFloor, Bool.and_eq_true, bne_iff_ne, decide_eq_true_iff, xor_neg_iff, toInt_ne_zero_iff]

/-- Without correction the remainder has the sign of the divisor, or is zero. -/
theorem isRemainder_mod (hb : b ≠ 0) (h : needsFloor (a % b) b = false) :
    IsRemainder b.toInt (a % b).toInt := by
  have hlt := natAbs_tmod_lt a.toInt (toInt_ne_zero_iff.2 hb)
  rw [← Bool.not_eq_true, needsFloor_iff] at h
  rw [← Int64.toInt_mod] at hlt
  rw [IsRemainder]
  omega

/-- With it, the divisor is added, which has the other sign and is greater in magnitude. -/
theorem isRemainder_mod_add (hb : b ≠ 0) (h : needsFloor (a % b) b = true) :
    IsRemainder b.toInt ((a % b).toInt + b.toInt) := by
  have hlt := natAbs_tmod_lt a.toInt (toInt_ne_zero_iff.2 hb)
  rw [needsFloor_iff] at h
  rw [← Int64.toInt_mod] at hlt
  rw [IsRemainder]
  omega

/-- A remainder by a word is a word. -/
theorem toInt_mod_add (hb : b ≠ 0) (h : needsFloor (a % b) b = true) :
    (a % b + b).toInt = (a % b).toInt + b.toInt := by
  have hr := isRemainder_mod_add hb h
  have hlow := b.le_toInt
  have hhigh := b.toInt_lt
  rw [IsRemainder] at hr
  rw [Int64.toInt_add]
  exact Int.bmod_eq_of_le (by omega) (by omega)

/-- What is left over is of the right kind. -/
theorem isRemainder_floorMod (a : Int64) (hb : b ≠ 0) :
    IsRemainder b.toInt (floorMod a b).toInt := by
  cases h : needsFloor (a % b) b with
  | false => simpa [floorMod, h] using isRemainder_mod hb h
  | true => simpa [floorMod, h, toInt_mod_add hb h] using isRemainder_mod_add hb h

/-- The truncated quotient is corrected as the remainder is. -/
theorem floor_div_toInt (a : Int64) (hb : b ≠ 0) : ⌊(a.toInt : ℚ) / b.toInt⌋ =
    if needsFloor (a % b) b then a.toInt.tdiv b.toInt - 1 else a.toInt.tdiv b.toInt := by
  have hdiv := Int.mul_tdiv_add_tmod a.toInt b.toInt
  rw [← Int64.toInt_mod] at hdiv
  cases h : needsFloor (a % b) b with
  | false => exact floor_div_of_isRemainder (isRemainder_mod hb h) hdiv
  | true =>
    refine floor_div_of_isRemainder (isRemainder_mod_add hb h) ?_
    rw [if_pos rfl]
    linarith

/-- The remainder fits the quotient without rounding. -/
theorem toInt_floorMod (a : Int64) (hb : b ≠ 0) :
    (floorMod a b).toInt = a.toInt - ⌊(a.toInt : ℚ) / b.toInt⌋ * b.toInt := by
  have hdiv := Int.mul_tdiv_add_tmod a.toInt b.toInt
  rw [← Int64.toInt_mod] at hdiv
  rw [floor_div_toInt a hb]
  cases h : needsFloor (a % b) b with
  | false =>
    simp only [floorMod, h, Bool.false_eq_true, if_false]
    linarith
  | true =>
    simp only [floorMod, h, if_true, toInt_mod_add hb h]
    linarith

/-! ### The ends of the range -/

/-- If there is a remainder the divisor is at least two in magnitude, so that the truncated quotient
is far from the ends of the range. -/
theorem natAbs_tdiv_le_of_needsFloor (h : needsFloor (a % b) b = true) :
    (a.toInt.tdiv b.toInt).natAbs ≤ 2 ^ 62 := by
  have hne := (needsFloor_iff.1 h).1
  rw [Int64.toInt_mod] at hne
  have hb : b.toInt.natAbs ≠ 1 := fun hone => hne <| by
    rw [← Int.natAbs_eq_zero, Int.natAbs_tmod, hone, Nat.mod_one]
  have ha : a.toInt.natAbs ≤ 2 ^ 63 := by
    have hlow := a.le_toInt
    have hhigh := a.toInt_lt
    omega
  rw [Int.natAbs_tdiv]
  by_cases hzero : b.toInt.natAbs = 0
  · rw [hzero]
    exact (Nat.div_zero _).trans_le (Nat.zero_le _)
  · calc a.toInt.natAbs / b.toInt.natAbs
      _ ≤ a.toInt.natAbs / 2 := Nat.div_le_div_left (by omega) Nat.zero_lt_two
      _ ≤ 2 ^ 62 := by omega

/-- **No overflow.** The correction of the quotient does not leave the range. -/
theorem toInt_div_sub_one (h : needsFloor (a % b) b = true) :
    (a / b - 1).toInt = (a / b).toInt - 1 ∧ (a / b).toInt = a.toInt.tdiv b.toInt := by
  have hle := natAbs_tdiv_le_of_needsFloor h
  have hdiv : (a / b).toInt = a.toInt.tdiv b.toInt := by
    rw [Int64.toInt_div]
    exact Int.bmod_eq_of_le (by omega) (by omega)
  refine ⟨?_, hdiv⟩
  rw [Int64.toInt_sub, hdiv, Int64.toInt_one]
  exact Int.bmod_eq_of_le (by omega) (by omega)

/-- The quotient is the rounded one, reduced to 64 bits. -/
theorem toInt_floorDiv (a : Int64) (hb : b ≠ 0) :
    (floorDiv a b).toInt = ⌊(a.toInt : ℚ) / b.toInt⌋.bmod (2 ^ 64) := by
  rw [floor_div_toInt a hb]
  cases h : needsFloor (a % b) b with
  | false => simpa only [floorDiv, h, Bool.false_eq_true, if_false] using a.toInt_div b
  | true =>
    obtain ⟨hsub, hdiv⟩ := toInt_div_sub_one h
    have hle := natAbs_tdiv_le_of_needsFloor h
    rw [floorDiv, h, if_pos rfl, if_pos rfl, hsub, hdiv]
    exact (Int.bmod_eq_of_le (by omega) (by omega)).symm

/-- Only one quotient has no word. -/
theorem toInt_floorDiv_eq_floor_iff (a : Int64) (hb : b ≠ 0) :
    (floorDiv a b).toInt = ⌊(a.toInt : ℚ) / b.toInt⌋ ↔ ¬(a = Int64.minValue ∧ b = -1) := by
  constructor
  · rintro h ⟨rfl, rfl⟩
    have hfloor : ⌊(Int64.minValue.toInt : ℚ) / (-1 : Int64).toInt⌋ = 2 ^ 63 := by
      rw [floor_div_toInt _ (by decide)]
      decide
    rw [hfloor] at h
    exact absurd h (by decide)
  · intro hne
    rw [floor_div_toInt a hb]
    cases h : needsFloor (a % b) b with
    | true =>
      obtain ⟨hsub, hdiv⟩ := toInt_div_sub_one h
      rw [floorDiv, h, if_pos rfl, if_pos rfl, hsub, hdiv]
    | false =>
      simp only [floorDiv, h, Bool.false_eq_true, if_false]
      by_cases ha : a = Int64.minValue
      · exact a.toInt_div_of_ne_right b fun h => hne ⟨ha, h⟩
      · exact a.toInt_div_of_ne_left b ha

/-- `q` and `r` are the quotient and the remainder of `a` by `b`, with the quotient rounded toward
negative infinity. -/
structure Floored (a b q r : Int64) : Prop where
  /-- The remainder is that of the rounded quotient, without any reduction. -/
  remainder : r.toInt = a.toInt - ⌊(a.toInt : ℚ) / b.toInt⌋ * b.toInt
  /-- It is zero or has the sign of the divisor. -/
  sign : r = 0 ∨ (r < 0 ↔ b < 0)
  /-- It is smaller than the divisor in magnitude. -/
  magnitude : |r.toInt| < |b.toInt|
  /-- The quotient is reduced to 64 bits. -/
  quotient : q.toInt = ⌊(a.toInt : ℚ) / b.toInt⌋.bmod (2 ^ 64)
  /-- This makes a difference for one quotient only. -/
  exact_iff : q.toInt = ⌊(a.toInt : ℚ) / b.toInt⌋ ↔ ¬(a = Int64.minValue ∧ b = -1)

theorem floored (a : Int64) (hb : b ≠ 0) : Floored a b (floorDiv a b) (floorMod a b) where
  remainder := toInt_floorMod a hb
  sign := by
    have hr := isRemainder_floorMod a hb
    rw [← Int64.toInt_inj, Int64.lt_iff_toInt_lt, Int64.lt_iff_toInt_lt, Int64.toInt_zero]
    rw [IsRemainder] at hr
    omega
  magnitude := by
    have hr := isRemainder_floorMod a hb
    rw [IsRemainder] at hr
    rw [Int.abs_eq_natAbs, Int.abs_eq_natAbs]
    omega
  quotient := toInt_floorDiv a hb
  exact_iff := toInt_floorDiv_eq_floor_iff a hb

end Integer

namespace Operator

/-- **Division.** The operators `//` and `%` on two integers fail exactly if the second one is zero.
Otherwise they give the quotient rounded toward negative infinity, which wraps in one case only, and
the remainder that belongs to it; the correction of the truncated quotient never overflows. -/
theorem integers_divided (a b : Int64) :
    if b = 0 then
      floorDiv.apply (.integer a) (.integer b) = .divisionByZero ∧
        mod.apply (.integer a) (.integer b) = .moduloByZero
    else
      floorDiv.apply (.integer a) (.integer b) = .value (.integer (Integer.floorDiv a b)) ∧
        mod.apply (.integer a) (.integer b) = .value (.integer (Integer.floorMod a b)) ∧
        Integer.Floored a b (Integer.floorDiv a b) (Integer.floorMod a b) ∧
        (Integer.needsFloor (a % b) b = true → (a / b - 1).toInt = (a / b).toInt - 1) := by
  split
  · next hb =>
    subst hb
    exact ⟨rfl, rfl⟩
  · next hb =>
    have hzero : (b == 0) = false := beq_eq_false_iff_ne.2 hb
    refine ⟨?_, ?_, Integer.floored a hb, fun h => (Integer.toInt_div_sub_one h).1⟩
    · simp [apply, isBitwise, isFractional, onIntegers, hzero]
    · simp [apply, isBitwise, isFractional, onIntegers, hzero]

end Operator

end LuaMachine
