import LuaMachine.Proofs.Value.IntegerLoops
import LuaMachine.Proofs.Value.NumericOrder
import LuaMachine.Value.NumericLoop

/-!
# Limits of integer loops

A loop on integers may have any number as its limit.  The limit is exchanged for an integer, or for
the decision that the loop does not run at all, before the first turn.  This must not change the
integers for which the loop runs: those that do not lie past the limit, upward or downward.

A float between two integers is rounded toward the beginning of the loop, and one beyond all
integers of 64 bits, as an infinity is, becomes the greatest or the least of them or excludes them
all.  NaN excludes all integers from a loop upward.  For a loop downward it becomes the least
integer, which excludes none.

## Main definitions

* `NumericLoop.Within` : an integer does not lie past a limit.
* `NumericLoop.Admits` : an integer does not lie past the integer that replaces the limit.

## Main statements

* `NumericLoop.limit?_admits_iff` : the integer limit admits the same integers, unless the limit is
  NaN and the loop goes downward.
-/

namespace LuaMachine

namespace Binary64

/-- A float that is equal to an integer is its own floor and ceiling. -/
theorem toInt64?_eq_some {x : Binary64} {l : Int64} (h : x.toInt64? = some l) :
    x.floor?.bind word? = some l ∧ x.ceil?.bind word? = some l := by
  obtain ⟨z, hz, hl⟩ := Option.bind_eq_some_iff.1 h
  rw [toInt?] at hz
  split at hz
  · next lo hi hfloor hceil =>
    split at hz
    · next heq =>
      cases hz
      rw [hfloor, hceil, ← heq]
      exact ⟨hl, hl⟩
    · cases hz
  · cases hz

end Binary64

namespace NumericLoop

variable {limit : Value} {step i : Int64} {x : Binary64} {bits : UInt64}

/-- In a loop with a step an integer does not lie past the limit, by the order of numbers. -/
def Within (limit : Value) (step i : Int64) : Prop :=
  if 0 < step then (Value.integer i).lessEqual? limit = some true
  else limit.lessEqual? (.integer i) = some true

/-- In a loop with a step an integer does not lie past an integer limit, and the loop is not
skipped. -/
def Admits (bound : Int64 × Bool) (step i : Int64) : Prop :=
  bound.2 = false ∧ if 0 < step then i ≤ bound.1 else bound.1 ≤ i

instance (limit : Value) (step i : Int64) : Decidable (Within limit step i) :=
  inferInstanceAs (Decidable (if 0 < step then _ else _))

instance (bound : Int64 × Bool) (step i : Int64) : Decidable (Admits bound step i) :=
  inferInstanceAs (Decidable (_ ∧ if 0 < step then _ else _))

/-! ### The order of integers and floats -/

theorem lessEqual?_integer_float : (Value.integer i).lessEqual? (.float bits) = some true ↔
    (Binary64.ofBits bits).AtMost i.toInt :=
  Option.some_inj.trans Binary64.compareRounded_floor_le_iff

theorem lessEqual?_float_integer : (Value.float bits).lessEqual? (.integer i) = some true ↔
    (Binary64.ofBits bits).AtLeast i.toInt :=
  Option.some_inj.trans Binary64.compareRounded_ceil_le_iff

/-! ### The integer limit for a float -/

/-- The integer to which a float is rounded as the limit of a loop. -/
def rounded? (x : Binary64) (step : Int64) : Option Int :=
  if step < 0 then x.ceil? else x.floor?

/-- The integer limit for a float, read off what the float denotes. -/
def floatBound (x : Binary64) (step : Int64) : Int64 × Bool :=
  match (rounded? x step).bind Binary64.word? with
  | some l => (l, false)
  | none =>
    if x.compareInt 0 = some .lt then (Int64.maxValue, step < 0) else (Int64.minValue, 0 < step)

theorem limit?_of_float (h : limit.toNumber? = some (.float bits)) :
    limit? limit step = some (floatBound (Binary64.ofBits bits) step) := by
  have hinteger : limit.toInteger? = (Binary64.ofBits bits).toInt64? := by
    rw [Value.toInteger?, h]
    rfl
  have hfloat : limit.toFloat? = some (Float.ofBits bits) := by
    rw [Value.toFloat?, h]
    rfl
  have hcanonical := Binary64.canonical_ofFloat_ofBits bits
  have hrounded : roundedLimit? (Float.ofBits bits) step =
      (rounded? (Binary64.ofBits bits) step).bind Binary64.word? := by
    rw [roundedLimit?, rounded?, ← Binary64.ceil?_canonical, ← Binary64.floor?_canonical,
      hcanonical, Binary64.ceil?_canonical, Binary64.floor?_canonical]
  have hpositive : 0 < Float.ofBits bits ↔
      (Binary64.ofBits bits).compareInt 0 = some .lt := by
    rw [Binary64.zero_lt_iff, ← Binary64.compareInt_canonical, hcanonical,
      Binary64.compareInt_canonical]
  rw [limit?, hinteger]
  cases hl : (Binary64.ofBits bits).toInt64? with
  | some l =>
    obtain ⟨hfloor, hceil⟩ := Binary64.toInt64?_eq_some hl
    have hround : (rounded? (Binary64.ofBits bits) step).bind Binary64.word? = some l := by
      rw [rounded?]
      split
      · exact hceil
      · exact hfloor
    rw [floatBound, hround]
  | none =>
    cases hround : (rounded? (Binary64.ofBits bits) step).bind Binary64.word? with
    | some l => simp only [hfloat, Option.map_some, hrounded, floatBound, hround]
    | none => simp only [hfloat, Option.map_some, hrounded, hpositive, floatBound, hround]

/-- NaN becomes the least integer. -/
theorem floatBound_nan (negative : Bool) :
    floatBound (.nan negative) step = (Int64.minValue, decide (0 < step)) := by
  have hrounded : rounded? (.nan negative) step = none := by
    rw [rounded?]
    split <;> rfl
  rw [floatBound, hrounded]
  rfl

theorem floatBound_of_word {z : Int} {l : Int64}
    (hz : rounded? x step = some z) (hl : l.toInt = z) :
    floatBound x step = (l, false) := by
  rw [floatBound, hz, Option.bind_some, Binary64.word?_eq_some_iff.2 hl]

/-- A float beyond all integers becomes the greatest one, or the least. -/
theorem floatBound_of_beyond {z : Int} (hz : rounded? x step = some z)
    (hl : Binary64.word? z = none) :
    floatBound x step = if x.compareInt 0 = some .lt then (Int64.maxValue, decide (step < 0))
      else (Int64.minValue, decide (0 < step)) := by
  rw [floatBound, hz, Option.bind_some, hl]

theorem not_neg_of_pos (h : 0 < step) : ¬step < 0 := by
  simp only [Int64.lt_iff_toInt_lt, Int64.toInt_zero] at *
  omega

theorem not_pos_of_neg (h : step < 0) : ¬0 < step := by
  simp only [Int64.lt_iff_toInt_lt, Int64.toInt_zero] at *
  omega

theorem neg_of_not_pos (hstep : step ≠ 0) (h : ¬0 < step) : step < 0 :=
  Int64.lt_iff_toInt_lt.2 (toInt_step_neg hstep h)

/-- **Upward.** The integer limit for a float admits the integers that are not above the float. -/
theorem admits_floatBound_of_pos (hstep : 0 < step) (i : Int64) :
    Admits (floatBound x step) step i ↔ x.AtMost i.toInt := by
  have hup := not_neg_of_pos hstep
  have hi := i.toInt_lt
  have hi' := i.le_toInt
  cases x with
  | nan negative => simp [floatBound_nan, Admits, hstep, Binary64.AtMost, Binary64.compareInt]
  | infinity negative =>
    cases negative <;>
      simp [floatBound, rounded?, Admits, hstep, hup, Binary64.AtMost, Binary64.compareInt,
        Binary64.floor?, Int64.le_maxValue]
  | finite negative m e =>
    obtain ⟨n, d, hquotient⟩ := Binary64.isQuotient_finite negative m e
    have hfloor := hquotient.floor?_eq
    have hround : rounded? _ step = some (n / d) := (if_neg hup).trans hfloor
    rw [← hquotient.le_floor_iff hfloor]
    cases hword : Binary64.word? (n / d) with
    | some l =>
      have hl := Binary64.word?_eq_some_iff.1 hword
      rw [floatBound_of_word hround hl, ← hl, ← Int64.le_iff_toInt_le]
      simp [Admits, hstep]
    | none =>
      rw [floatBound_of_beyond hround hword]
      obtain hlow | hhigh := Binary64.word?_eq_none_iff.1 hword
      · rw [if_neg (hquotient.not_positive_of_floor hfloor (by omega))]
        simp only [Admits, hstep, decide_true, Bool.true_eq_false, false_and, false_iff]
        omega
      · rw [if_pos (hquotient.positive_of_floor hfloor (by omega))]
        simp only [Admits, hstep, hup, decide_false, if_true, Int64.le_maxValue, true_and, true_iff]
        omega

/-- **Downward.** The integer limit for a float admits the integers that are not below the float, if
the float is not NaN. -/
theorem admits_floatBound_of_neg (hstep : step < 0) (hnan : ∀ negative, x ≠ .nan negative)
    (i : Int64) : Admits (floatBound x step) step i ↔ x.AtLeast i.toInt := by
  have hdown := not_pos_of_neg hstep
  have hi := i.toInt_lt
  have hi' := i.le_toInt
  cases x with
  | nan negative => exact absurd rfl (hnan negative)
  | infinity negative =>
    cases negative <;>
      simp [floatBound, rounded?, Admits, hstep, hdown, Binary64.AtLeast, Binary64.compareInt,
        Binary64.ceil?, Int64.minValue_le]
  | finite negative m e =>
    obtain ⟨n, d, hquotient⟩ := Binary64.isQuotient_finite negative m e
    have hceil := hquotient.ceil?_eq
    have hround : rounded? _ step = some (-(-n / d)) := (if_pos hstep).trans hceil
    rw [← hquotient.ceil_le_iff hceil]
    cases hword : Binary64.word? (-(-n / d)) with
    | some l =>
      have hl := Binary64.word?_eq_some_iff.1 hword
      rw [floatBound_of_word hround hl, ← hl, ← Int64.le_iff_toInt_le]
      simp [Admits, hdown]
    | none =>
      rw [floatBound_of_beyond hround hword]
      obtain hlow | hhigh := Binary64.word?_eq_none_iff.1 hword
      · rw [if_neg (hquotient.not_positive_of_ceil hceil (by omega))]
        simp only [Admits, hdown, decide_false, if_false, Int64.minValue_le, true_and, true_iff]
        omega
      · rw [if_pos (hquotient.positive_of_ceil hceil (by omega))]
        simp only [Admits, hstep, decide_true, Bool.true_eq_false, false_and, false_iff]
        omega

/-! ### The limit of a loop -/

/-- The integer limit for a float that is NaN admits all integers in a loop downward. -/
theorem admits_floatBound_nan (hstep : step < 0) (negative : Bool) (i : Int64) :
    Admits (floatBound (.nan negative) step) step i := by
  simp [floatBound_nan, Admits, not_pos_of_neg hstep, Int64.minValue_le]

/-- NaN is not ordered with any integer. -/
theorem not_within_of_isNaN {n : Number} (hnan : n.IsNaN) (hstep : step < 0) (i : Int64) :
    ¬Within (.ofNumber n) step i := by
  cases n with
  | integer l => exact hnan.elim
  | float bits =>
    obtain ⟨negative, hx⟩ := hnan
    rw [Within, if_neg (not_pos_of_neg hstep), Value.ofNumber, lessEqual?_float_integer, hx]
    simp [Binary64.AtLeast, Binary64.compareInt]

/-- **Limits of integer loops.** Every number, also one that a string holds, has an integer limit.
In a loop it admits exactly the integers that do not lie past the number.  The exception is a loop
downward whose limit is NaN: it admits all integers, although none of them is ordered with NaN. -/
theorem limit?_admits_iff {n : Number} (hnumber : limit.toNumber? = some n) (hstep : step ≠ 0) :
    ∃ bound, limit? limit step = some bound ∧
      ∀ i, Admits bound step i ↔ Within (.ofNumber n) step i ∨ n.IsNaN ∧ step < 0 := by
  cases n with
  | integer l =>
    have hlimit : limit? limit step = some (l, false) := by
      rw [limit?, Value.toInteger?, hnumber]
      rfl
    refine ⟨_, hlimit, fun i => ?_⟩
    simp [Admits, Within, Value.ofNumber, Value.lessEqual?, Number.IsNaN]
  | float bits =>
    refine ⟨_, limit?_of_float hnumber, fun i => ?_⟩
    by_cases hup : 0 < step
    · have hwithin : Within (.ofNumber (.float bits)) step i ↔
          (Binary64.ofBits bits).AtMost i.toInt := by
        rw [Within, if_pos hup]
        exact lessEqual?_integer_float
      rw [hwithin, or_iff_left fun h => not_neg_of_pos hup h.2]
      exact admits_floatBound_of_pos hup i
    · have hdown := neg_of_not_pos hstep hup
      have hwithin : Within (.ofNumber (.float bits)) step i ↔
          (Binary64.ofBits bits).AtLeast i.toInt := by
        rw [Within, if_neg hup]
        exact lessEqual?_float_integer
      by_cases hnan : (Number.float bits).IsNaN
      · refine iff_of_true ?_ (.inr ⟨hnan, hdown⟩)
        obtain ⟨negative, hx⟩ := hnan
        rw [hx]
        exact admits_floatBound_nan hdown negative i
      · rw [hwithin, or_iff_left fun h => hnan h.1]
        exact admits_floatBound_of_neg hdown (fun negative hx => hnan ⟨negative, hx⟩) i

/-- A loop downward to the numeral `3.5` runs for the integers from 4 on. -/
theorem limit?_admits_numeral : Value.toNumber? (.ofText "3.5") = some (.float 0x400C000000000000) ∧
    (-1 : Int64) ≠ 0 ∧ limit? (.ofText "3.5") (-1) = some (4, false) ∧
    ∀ i : Int64, 4 ≤ i ↔ (Value.float 0x400C000000000000).lessEqual? (.integer i) = some true := by
  have hnumber : Value.toNumber? (.ofText "3.5") = some (.float 0x400C000000000000) := by
    decide +kernel
  have hlimit : limit? (.ofText "3.5") (-1) = some (4, false) := by decide +kernel
  have hfinite : ¬(Number.float 0x400C000000000000).IsNaN := fun ⟨_, h⟩ => nomatch h
  have hstep : (-1 : Int64) ≠ 0 := by decide
  obtain ⟨bound, hbound, hadmits⟩ := limit?_admits_iff hnumber hstep
  obtain rfl : bound = (4, false) := Option.some.inj (hbound.symm.trans hlimit)
  refine ⟨hnumber, hstep, hlimit, fun i => ?_⟩
  simpa [Admits, Within, Value.ofNumber, hfinite] using hadmits i

/-- A loop downward to NaN is not skipped, and its integer limit is the least one.  So it runs for
integers that are not ordered with its limit. -/
theorem limit?_nan_downward :
    limit? (.float 0x7FF8000000000000) (-1) = some (Int64.minValue, false) ∧
    Admits (Int64.minValue, false) (-1) 5 ∧ ¬Within (.float 0x7FF8000000000000) (-1) 5 :=
  ⟨by decide +kernel, by decide, not_within_of_isNaN (n := .float 0x7FF8000000000000)
    ⟨false, rfl⟩ (by decide) 5⟩

end NumericLoop

end LuaMachine
