/-!
# Integer division and shifts

Integers are 64-bit words in two's complement, and their arithmetic wraps.  Division rounds toward
negative infinity, so that the remainder takes the sign of the divisor.  Shifts move the bits of
the word without regard to its sign; a negative amount shifts the other way, and an amount of 64
or more leaves nothing.

## Main definitions

* `Integer.floorDiv`, `Integer.floorMod` : quotient and remainder toward negative infinity.
* `Integer.Direction` : toward the high or the low end of a word.
* `Integer.shift` : the logical shift in a direction by a signed amount, with `Integer.shiftLeft` and
  `Integer.shiftRight` for the two directions.
-/

namespace LuaMachine.Integer

/-- The remainder of the truncating division is nonzero and has the sign opposite to the divisor:
the truncated quotient is then one above the floor. -/
def needsFloor (r b : Int64) : Bool := r != 0 && (r ^^^ b) < 0

/-- The quotient rounded toward negative infinity, reduced to 64 bits. -/
def floorDiv (a b : Int64) : Int64 :=
  if needsFloor (a % b) b then a / b - 1 else a / b

/-- The remainder that belongs to `floorDiv`: zero, or of the divisor's sign. -/
def floorMod (a b : Int64) : Int64 :=
  if needsFloor (a % b) b then a % b + b else a % b

/-- The end of a word that a shift moves bits to. -/
inductive Direction where
  | high
  | low
  deriving DecidableEq, Repr

namespace Direction

def opposite : Direction → Direction
  | high => low
  | low => high

/-- The bits of `u` moved by `n` places, zeros entering at the other end. -/
def move : Direction → UInt64 → UInt64 → UInt64
  | high, u, n => u <<< n
  | low, u, n => u >>> n

end Direction

/-- Whether an amount is so large, in either direction, that a shift leaves nothing. -/
def shiftsOut (b : Int64) : Bool := 64 ≤ b || b ≤ -64

/-- The amounts of the other shifts are small, and are negated without overflow. -/
theorem toInt_neg_of_shiftsOut {b : Int64} (h : ¬shiftsOut b) : (-b).toInt = -b.toInt := by
  rw [shiftsOut, Bool.or_eq_true, decide_eq_true_iff, decide_eq_true_iff, not_or,
    Int64.le_iff_toInt_le, Int64.le_iff_toInt_le] at h
  change ¬64 ≤ b.toInt ∧ ¬b.toInt ≤ -64 at h
  rw [Int64.toInt_neg]
  exact Int.bmod_eq_of_le (by omega) (by omega)

/-- The logical shift of `a` by `b` places.  A negative amount is left to the shift in the opposite
direction. -/
def shift (d : Direction) (a b : Int64) : Int64 :=
  if shiftsOut b then 0
  else if b < 0 then shift d.opposite a (-b)
  else (d.move a.toUInt64 b.toUInt64).toInt64
termination_by (-b.toInt).toNat
decreasing_by
  rename_i hin hneg
  rw [Int64.lt_iff_toInt_lt, Int64.toInt_zero] at hneg
  rw [toInt_neg_of_shiftsOut hin]
  omega

/-- The logical shift of `a` by `b` places toward the high end. -/
def shiftLeft (a b : Int64) : Int64 := shift .high a b

/-- The logical shift of `a` by `b` places toward the low end. -/
def shiftRight (a b : Int64) : Int64 := shift .low a b

end LuaMachine.Integer
