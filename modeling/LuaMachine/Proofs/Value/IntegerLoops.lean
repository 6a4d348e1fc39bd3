import LuaMachine.Value.NumericLoop
import Mathlib.Algebra.Ring.Int.Defs

/-!
# Loops on integers

A loop on integers is to run for the initial value, and then for one step more on every turn, until
the value lies past the limit.  The machine adds the step with wrapping, and it has taken one step
back before the first turn.  The values do not wrap as long as they do not lie past the limit; the
first one past it may, and it is then on the near side of the limit.

## Main definitions

* `NumericLoop.progression` : the values of a loop, without wrapping.
* `NumericLoop.wrapped` : the same values in 64 bits.
* `NumericLoop.Past` : an integer lies past the limit in the direction of the step.
* `NumericLoop.turnCount` : the number of values before the first one past the limit.
* `NumericLoop.Representable` : an integer of 64 bits.

## Main statements

* `NumericLoop.past_progression_iff` : the values past the limit are all those from some turn on.
* `NumericLoop.past_wrapped_iff` : the loop can be seen to be over at the first of these values
  only if the value is representable.
-/

namespace LuaMachine.NumericLoop

variable {init limit step : Int64} {k : Nat} {x : Int}

/-! ### Values and limits -/

/-- The value of turn `k`, without wrapping. -/
def progression (init step : Int64) (k : Nat) : Int := init.toInt + k * step.toInt

/-- The value of turn `k` in 64 bits. -/
def wrapped (init step : Int64) (k : Nat) : Int64 := .ofInt (progression init step k)

/-- An integer lies past the limit in the direction of the step. -/
def Past (limit step : Int64) (x : Int) : Prop :=
  if 0 < step then limit.toInt < x else x < limit.toInt

instance (limit step : Int64) (x : Int) : Decidable (Past limit step x) :=
  inferInstanceAs (Decidable (if 0 < step then _ else _))

/-- The number of steps from the initial value that do not lead past the limit, the empty one
included. -/
def turnCount (init limit step : Int64) : Nat :=
  ((limit.toInt - init.toInt).fdiv step.toInt + 1).toNat

/-- The integer has 64 bits. -/
def Representable (x : Int) : Prop := ∃ i : Int64, i.toInt = x

theorem representable_iff : Representable x ↔ -2 ^ 63 ≤ x ∧ x < 2 ^ 63 := by
  refine ⟨?_, fun h => ⟨.ofInt x, Int64.toInt_ofInt_of_le h.1 h.2⟩⟩
  rintro ⟨i, rfl⟩
  exact ⟨i.le_toInt, i.toInt_lt⟩

theorem toInt_step_pos (h : 0 < step) : 0 < step.toInt := Int64.lt_iff_toInt_lt.1 h

theorem toInt_step_neg (hstep : step ≠ 0) (h : ¬0 < step) : step.toInt < 0 := by
  have hne : step.toInt ≠ 0 := fun h0 => hstep (Int64.toInt_inj.1 h0)
  have hle : ¬0 < step.toInt := fun h0 => h (Int64.lt_iff_toInt_lt.2 h0)
  omega

/-! ### The values past the limit -/

/-- **Turns.** The values past the limit are those from one turn on. -/
theorem past_progression_iff (hstep : step ≠ 0) (k : Nat) :
    Past limit step (progression init step k) ↔ turnCount init limit step ≤ k := by
  rw [Past, progression, turnCount]
  split
  · next h =>
    have hpos := toInt_step_pos h
    rw [Int.fdiv_eq_ediv_of_nonneg _ (Int.le_of_lt hpos)]
    have hdiv := Int.ediv_lt_iff_lt_mul (a := limit.toInt - init.toInt) (b := k) hpos
    omega
  · next h =>
    -- The direction of the step is the only difference: all differences change their signs.
    have hneg := toInt_step_neg hstep h
    rw [← Int.neg_fdiv_neg, Int.fdiv_eq_ediv_of_nonneg _ (by omega)]
    have hdiv := Int.ediv_lt_iff_lt_mul (a := -(limit.toInt - init.toInt)) (b := k)
      (show 0 < -step.toInt by omega)
    rw [Int.mul_neg] at hdiv
    omega

theorem progression_zero : progression init step 0 = init.toInt := by
  simp [progression]

theorem progression_succ :
    progression init step (k + 1) = progression init step k + step.toInt := by
  simp [progression, Int.add_mul, Int.add_assoc]

/-- A value that does not lie past the limit has 64 bits. -/
theorem representable_of_lt (hstep : step ≠ 0) (hk : k < turnCount init limit step) :
    Representable (progression init step k) := by
  have hpast : ¬Past limit step (progression init step k) :=
    fun h => Nat.not_le.2 hk ((past_progression_iff hstep k).1 h)
  have hinit := init.le_toInt
  have hinit' := init.toInt_lt
  have hlimit := limit.le_toInt
  have hlimit' := limit.toInt_lt
  rw [representable_iff]
  rw [Past] at hpast
  rw [progression] at hpast ⊢
  split at hpast
  · next h =>
    have hsteps := Int.mul_nonneg (Int.natCast_nonneg k) (Int.le_of_lt (toInt_step_pos h))
    omega
  · next h =>
    have hsteps := Int.mul_nonpos_of_nonneg_of_nonpos (Int.natCast_nonneg k)
      (Int.le_of_lt (toInt_step_neg hstep h))
    omega

/-! ### Wrapping -/

@[simp] theorem wrapped_zero : wrapped init step 0 = init := by
  rw [wrapped, progression_zero, Int64.ofInt_toInt]

theorem wrapped_succ : wrapped init step (k + 1) = wrapped init step k + step := by
  rw [wrapped, progression_succ, Int64.ofInt_add, Int64.ofInt_toInt, wrapped]

theorem toInt_wrapped (h : Representable (progression init step k)) :
    (wrapped init step k).toInt = progression init step k := by
  rw [representable_iff] at h
  exact Int64.toInt_ofInt_of_le h.1 h.2

theorem toInt_add_of_overflow {i : Int64} (h : 2 ^ 63 ≤ i.toInt + step.toInt) :
    (i + step).toInt = i.toInt + step.toInt - 2 ^ 64 := by
  have hi := i.toInt_lt
  have hs := step.toInt_lt
  rw [Int64.toInt_add, Int.bmod_def, if_neg (by omega)]
  omega

theorem toInt_add_of_underflow {i : Int64} (h : i.toInt + step.toInt < -2 ^ 63) :
    (i + step).toInt = i.toInt + step.toInt + 2 ^ 64 := by
  have hi := i.le_toInt
  have hs := step.le_toInt
  rw [Int64.toInt_add, Int.bmod_def, if_pos (by omega)]
  omega

/-- A step from a value that does not lie past the limit stays before the limit if it wraps. -/
theorem not_past_add {i : Int64} (hnear : ¬Past limit step i.toInt)
    (hfar : Past limit step (i.toInt + step.toInt))
    (h : ¬Representable (i.toInt + step.toInt)) : ¬Past limit step (i + step).toInt := by
  rw [representable_iff] at h
  rw [Past] at hnear hfar ⊢
  by_cases hpos : 0 < step
  · rw [if_pos hpos] at hnear hfar ⊢
    have hlimit := limit.le_toInt
    have hs := step.toInt_lt
    rw [toInt_add_of_overflow (by omega)]
    omega
  · rw [if_neg hpos] at hnear hfar ⊢
    have hlimit := limit.toInt_lt
    have hs := step.le_toInt
    rw [toInt_add_of_underflow (by omega)]
    omega

/-- The first value past the limit lies before it when it wraps. -/
theorem not_past_wrapped (hstep : step ≠ 0)
    (h : ¬Representable (progression init step (turnCount init limit step))) :
    ¬Past limit step (wrapped init step (turnCount init limit step)).toInt := by
  rcases hn : turnCount init limit step with _ | n
  · exact absurd ⟨init, by rw [hn, progression_zero]⟩ h
  · have hlt : n < turnCount init limit step := by omega
    have hlast := toInt_wrapped (representable_of_lt hstep hlt)
    have hnear : ¬Past limit step (progression init step n) := fun hpast =>
      Nat.not_le.2 hlt ((past_progression_iff hstep n).1 hpast)
    have hfar : Past limit step (progression init step (n + 1)) :=
      (past_progression_iff hstep _).2 (by omega)
    rw [hn] at h
    rw [progression_succ, ← hlast] at h hfar
    rw [← hlast] at hnear
    rw [wrapped_succ]
    exact not_past_add hnear hfar h

/-- **Ends of loops.** Up to the first value past the limit only that value can be seen to be past
the limit, if it does not wrap. -/
theorem past_wrapped_iff (hstep : step ≠ 0) (hk : k ≤ turnCount init limit step) :
    Past limit step (wrapped init step k).toInt ↔
      k = turnCount init limit step ∧ Representable (progression init step k) := by
  by_cases h : Representable (progression init step k)
  · rw [toInt_wrapped h, past_progression_iff hstep]
    exact ⟨fun hle => ⟨by omega, h⟩, fun ⟨heq, _⟩ => by omega⟩
  · obtain rfl : k = turnCount init limit step :=
      Nat.le_antisymm hk (Nat.not_lt.1 fun hlt => h (representable_of_lt hstep hlt))
    exact iff_of_false (not_past_wrapped hstep h) fun h' => h h'.2

/-- A loop up to the greatest integer in the greatest steps goes on behind its second turn. -/
example : turnCount 0 Int64.maxValue Int64.maxValue = 2 ∧
    ¬Past Int64.maxValue Int64.maxValue (wrapped 0 Int64.maxValue 2).toInt := by decide

/-! ### The loop on its values -/

theorem prepare_integers : prepare ⟨.integer init, .integer limit, .integer step⟩ =
    .ok ⟨.integer (init - step), .integer limit, .integer step⟩ := rfl

theorem advance?_integers (index : Int64) :
    advance? ⟨.integer index, .integer limit, .integer step⟩ =
      some (if Past limit step (index + step).toInt then none
        else some (.integer (index + step))) := by
  have hmore : (if 0 < step then decide (index + step ≤ limit)
      else decide (limit ≤ index + step)) = true ↔ ¬Past limit step (index + step).toInt := by
    unfold Past
    split <;> simp only [decide_eq_true_eq, Int64.le_iff_toInt_le, Int.not_lt]
  simp only [advance?, hmore, ite_not]

end LuaMachine.NumericLoop
