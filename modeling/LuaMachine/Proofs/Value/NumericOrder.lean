import LuaMachine.Proofs.Number.RationalValues
import LuaMachine.Value.Order

/-!
# The order of numbers

Numbers are ordered by their exact values, integers of 64 bits and floats mixed, and the two ways in
which they are compared and their equality all follow this one order.  An integer is never rounded
to a float: a comparison of the two rounds the float, downward or upward, and leaves the decision to
the sign where the rounded float is beyond the integers.

## Main statements

* `Binary64.compareRounded_ceil_lt_iff` and its companions : what the comparison of an integer with
  a rounded float decides.
* `Value.less?_ofNumber`, `Value.lessEqual?_ofNumber`, `Value.rawEqual_ofNumber` : what the
  comparisons of numbers decide.
* `Value.numbers_ordered_by_value` : numbers are ordered by their values.
-/

namespace LuaMachine

open Float.Model (UnpackedFloat)

namespace Binary64

/-! ### Rounding toward the integers -/

section CompareRounded

variable {x : Binary64} {z n d : Int} {round : Binary64 → Option Int} {test : Int64 → Bool}
  {zero : Ordering} {P : Int → Prop} {i : Int64}

/-- A float whose floor is not zero has the sign of its floor. -/
theorem IsQuotient.compareInt_zero_of_floor (h : x.IsQuotient n d) (hz : x.floor? = some z)
    (hne : z ≠ 0) : x.compareInt 0 = some (compare 0 z) := by
  have hone : 1 ≤ z ↔ 1 * d ≤ n := (h.le_floor_iff hz).trans h.atMost_iff
  have hzero : 0 ≤ z ↔ 0 * d ≤ n := (h.le_floor_iff hz).trans h.atMost_iff
  have hd := h.pos
  rw [h.compareInt_eq, Int.zero_mul]
  rcases lt_or_gt_of_ne hne with hneg | hpos
  · rw [Int.compare_eq_gt.2 hneg, Int.compare_eq_gt.2 (by omega)]
  · rw [Int.compare_eq_lt.2 hpos, Int.compare_eq_lt.2 (by omega)]

/-- A float whose ceiling is not zero has the sign of its ceiling. -/
theorem IsQuotient.compareInt_zero_of_ceil (h : x.IsQuotient n d) (hz : x.ceil? = some z)
    (hne : z ≠ 0) : x.compareInt 0 = some (compare 0 z) := by
  have hone : z ≤ -1 ↔ n ≤ -1 * d := (h.ceil_le_iff hz).trans h.atLeast_iff
  have hzero : z ≤ 0 ↔ n ≤ 0 * d := (h.ceil_le_iff hz).trans h.atLeast_iff
  have hd := h.pos
  rw [h.compareInt_eq, Int.zero_mul]
  rcases lt_or_gt_of_ne hne with hneg | hpos
  · rw [Int.compare_eq_gt.2 hneg, Int.compare_eq_gt.2 (by omega)]
  · rw [Int.compare_eq_lt.2 hpos, Int.compare_eq_lt.2 (by omega)]

/-- A comparison that is made on the rounded float is made on its rounding, also where that has more
than 64 bits and only the sign of the float is looked at. -/
theorem compareRounded_iff {m : Nat} {e : Int} {negative : Bool}
    (hround : round (.finite negative m e) = some z)
    (hsign : z ≠ 0 → (finite negative m e).compareInt 0 = some (compare 0 z))
    (htest : ∀ l : Int64, test l = true ↔ P l.toInt)
    (hbeyond : ∀ z, word? z = none → (P z ↔ compare 0 z = zero)) :
    (finite negative m e).compareRounded round test zero = true ↔ P z := by
  rw [compareRounded, hround, Option.bind_some]
  cases hword : word? z with
  | some l =>
    rw [← word?_eq_some_iff.1 hword]
    exact htest l
  | none =>
    have hne : z ≠ 0 := by
      rintro rfl
      exact absurd (word?_eq_none_iff.1 hword) (by omega)
    rw [hsign hne, hbeyond z hword]
    exact beq_iff_eq.trans Option.some_inj
  nofun

/-- All words lie on the same side of an integer that is not one of them as zero does. -/
theorem beyond_words (hz : word? z = none) (i : Int64) :
    (i.toInt < z ↔ compare 0 z = .lt) ∧ (z < i.toInt ↔ compare 0 z = .gt) ∧ i.toInt ≠ z := by
  have := i.toInt_lt
  have := i.le_toInt
  rw [word?_eq_none_iff] at hz
  rw [Int.compare_eq_lt, Int.compare_eq_gt]
  omega

/-- `i ≤ x`, by the floor of `x`. -/
theorem compareRounded_floor_le_iff :
    x.compareRounded floor? (i ≤ ·) .lt = true ↔ x.AtMost i.toInt := by
  rcases x with negative | (_ | _) | ⟨negative, m, e⟩
  · simp [compareRounded, AtMost, compareInt]
  · simp [compareRounded, AtMost, compareInt, floor?]
  · simp [compareRounded, AtMost, compareInt, floor?]
  · obtain ⟨n, d, h⟩ := isQuotient_finite negative m e
    rw [← h.le_floor_iff h.floor?_eq]
    exact compareRounded_iff (P := (i.toInt ≤ ·)) h.floor?_eq
      (h.compareInt_zero_of_floor h.floor?_eq)
      (fun l => decide_eq_true_iff.trans Int64.le_iff_toInt_le)
      fun z hz => (beyond_words hz i).2.2.le_iff_lt.trans (beyond_words hz i).1

/-- `x ≤ i`, by the ceiling of `x`. -/
theorem compareRounded_ceil_le_iff :
    x.compareRounded ceil? (· ≤ i) .gt = true ↔ x.AtLeast i.toInt := by
  rcases x with negative | (_ | _) | ⟨negative, m, e⟩
  · simp [compareRounded, AtLeast, compareInt]
  · simp [compareRounded, AtLeast, compareInt, ceil?]
  · simp [compareRounded, AtLeast, compareInt, ceil?]
  · obtain ⟨n, d, h⟩ := isQuotient_finite negative m e
    rw [← h.ceil_le_iff h.ceil?_eq]
    exact compareRounded_iff (P := (· ≤ i.toInt)) h.ceil?_eq (h.compareInt_zero_of_ceil h.ceil?_eq)
      (fun l => decide_eq_true_iff.trans Int64.le_iff_toInt_le)
      fun z hz => (beyond_words hz i).2.2.symm.le_iff_lt.trans (beyond_words hz i).2.1

/-- `i < x`, by the ceiling of `x`. -/
theorem compareRounded_ceil_lt_iff :
    x.compareRounded ceil? (i < ·) .lt = true ↔ x.compareInt i.toInt = some .lt := by
  rcases x with negative | (_ | _) | ⟨negative, m, e⟩
  · simp [compareRounded, compareInt]
  · simp [compareRounded, compareInt, ceil?]
  · simp [compareRounded, compareInt, ceil?]
  · obtain ⟨n, d, h⟩ := isQuotient_finite negative m e
    have hexact : (finite negative m e).compareInt i.toInt = some .lt ↔ i.toInt < -(-n / d) := by
      rw [h.compareInt_eq, Option.some_inj, Int.compare_eq_lt, ← not_le, ← h.atLeast_iff,
        ← h.ceil_le_iff h.ceil?_eq, not_le]
    rw [hexact]
    exact compareRounded_iff (P := (i.toInt < ·)) h.ceil?_eq (h.compareInt_zero_of_ceil h.ceil?_eq)
      (fun l => decide_eq_true_iff.trans Int64.lt_iff_toInt_lt) fun z hz => (beyond_words hz i).1

/-- `x < i`, by the floor of `x`. -/
theorem compareRounded_floor_lt_iff :
    x.compareRounded floor? (· < i) .gt = true ↔ x.compareInt i.toInt = some .gt := by
  rcases x with negative | (_ | _) | ⟨negative, m, e⟩
  · simp [compareRounded, compareInt]
  · simp [compareRounded, compareInt, floor?]
  · simp [compareRounded, compareInt, floor?]
  · obtain ⟨n, d, h⟩ := isQuotient_finite negative m e
    have hexact : (finite negative m e).compareInt i.toInt = some .gt ↔ n / d < i.toInt := by
      rw [h.compareInt_eq, Option.some_inj, Int.compare_eq_gt, ← not_le, ← h.atMost_iff,
        ← h.le_floor_iff h.floor?_eq, not_le]
    rw [hexact]
    exact compareRounded_iff (P := (· < i.toInt)) h.floor?_eq
      (h.compareInt_zero_of_floor h.floor?_eq)
      (fun l => decide_eq_true_iff.trans Int64.lt_iff_toInt_lt) fun z hz => (beyond_words hz i).2.1

end CompareRounded

end Binary64

/-! ### Comparing numbers -/

namespace Value

open Number (order?_integer order?_integer_float order?_float order?_swap)

/-- **Less.** The order of two numbers is that of their values. -/
theorem less?_ofNumber (a b : Number) :
    less? (ofNumber a) (ofNumber b) = some (a.order? b == some .lt) := by
  cases a with
  | integer i =>
    cases b with
    | integer j =>
      refine congrArg some (Bool.eq_iff_iff.2 ?_)
      rw [decide_eq_true_iff, Int64.lt_iff_toInt_lt, beq_iff_eq, order?_integer, Option.some_inj,
        Int.compare_eq_lt]
    | float y =>
      refine congrArg some (Bool.eq_iff_iff.2 ?_)
      rw [Binary64.compareRounded_ceil_lt_iff, beq_iff_eq, order?_integer_float]
  | float x =>
    cases b with
    | integer j =>
      refine congrArg some (Bool.eq_iff_iff.2 ?_)
      rw [Binary64.compareRounded_floor_lt_iff, beq_iff_eq, ← order?_swap, order?_integer_float]
      cases (Binary64.ofBits x).compareInt j.toInt with
      | none => simp
      | some o => cases o <;> simp
    | float y =>
      refine congrArg some (Bool.eq_iff_iff.2 ?_)
      rw [order?_float]
      exact decide_eq_true_iff.trans decide_eq_true_iff

theorem any_isLE_iff {o : Option Ordering} :
    o.any (·.isLE) = true ↔ o = some .lt ∨ o = some .eq := by
  rcases o with _ | _ | _ | _ <;> simp

/-- **Less or equal.** The order of two numbers is that of their values. -/
theorem lessEqual?_ofNumber (a b : Number) :
    lessEqual? (ofNumber a) (ofNumber b) = some ((a.order? b).any (·.isLE)) := by
  cases a with
  | integer i =>
    cases b with
    | integer j =>
      refine congrArg some (Bool.eq_iff_iff.2 ?_)
      rw [decide_eq_true_iff, Int64.le_iff_toInt_le, any_isLE_iff, order?_integer, Option.some_inj,
        Option.some_inj, Int.compare_eq_lt, Int.compare_eq_eq, Int.le_iff_lt_or_eq]
    | float y =>
      refine congrArg some (Bool.eq_iff_iff.2 ?_)
      rw [Binary64.compareRounded_floor_le_iff, any_isLE_iff, order?_integer_float]
      rfl
  | float x =>
    cases b with
    | integer j =>
      refine congrArg some (Bool.eq_iff_iff.2 ?_)
      rw [Binary64.compareRounded_ceil_le_iff, any_isLE_iff, ← order?_swap, order?_integer_float,
        Binary64.AtLeast]
      rcases (Binary64.ofBits x).compareInt j.toInt with _ | _ | _ | _ <;> simp
    | float y =>
      refine congrArg some (Bool.eq_iff_iff.2 ?_)
      rw [order?_float]
      exact decide_eq_true_iff.trans decide_eq_true_iff

/-- **Equal.** Two numbers are equal if their values are. -/
theorem rawEqual_ofNumber (a b : Number) :
    rawEqual (ofNumber a) (ofNumber b) = (a.order? b == some .eq) := by
  have hmixed (i : Int64) (x : UInt64) :
      ((Binary64.ofBits x).toInt64? == some i) =
        (Number.order? (.integer i) (.float x) == some .eq) := by
    rw [Bool.eq_iff_iff, beq_iff_eq, beq_iff_eq, Binary64.toInt64?_eq_some_iff,
      order?_integer_float]
  cases a with
  | integer i =>
    cases b with
    | integer j =>
      rw [order?_integer, Bool.eq_iff_iff, beq_iff_eq, Option.some_inj, Int.compare_eq_eq,
        Int64.toInt_inj]
      exact beq_iff_eq
    | float y => exact hmixed i y
  | float x =>
    cases b with
    | integer j =>
      refine (hmixed j x).trans ?_
      rw [← order?_swap]
      rcases Number.order? (.float x) (.integer j) with _ | _ | _ | _ <;> rfl
    | float y =>
      rw [order?_float]
      rfl

/-- **The order of numbers.** Comparing two numbers, integers or floats in any combination, decides
how their exact values stand to each other, and nothing holds of NaN.  So of two numbers that are
not NaN either one is less or they are equal, one is at most the other if the other is not less, and
both orders are transitive. -/
theorem numbers_ordered_by_value (a b c : Number) :
    (∃ r, less? (ofNumber a) (ofNumber b) = some r ∧ (r = true ↔ a.Related (· < ·) b)) ∧
    (∃ r, lessEqual? (ofNumber a) (ofNumber b) = some r ∧ (r = true ↔ a.Related (· ≤ ·) b)) ∧
    (rawEqual (ofNumber a) (ofNumber b) = true ↔ a.Related (· = ·) b) ∧
    (a.IsNaN ∨ b.IsNaN → less? (ofNumber a) (ofNumber b) = some false ∧
      lessEqual? (ofNumber a) (ofNumber b) = some false ∧
      rawEqual (ofNumber a) (ofNumber b) = false) ∧
    (¬a.IsNaN → ¬b.IsNaN → ∃ o : Ordering,
      less? (ofNumber a) (ofNumber b) = some (o == .lt) ∧
      rawEqual (ofNumber a) (ofNumber b) = (o == .eq) ∧
      less? (ofNumber b) (ofNumber a) = some (o == .gt) ∧
      lessEqual? (ofNumber a) (ofNumber b) = some (o != .gt)) ∧
    (less? (ofNumber a) (ofNumber b) = some true → less? (ofNumber b) (ofNumber c) = some true →
      less? (ofNumber a) (ofNumber c) = some true) ∧
    (lessEqual? (ofNumber a) (ofNumber b) = some true →
      lessEqual? (ofNumber b) (ofNumber c) = some true →
      lessEqual? (ofNumber a) (ofNumber c) = some true) := by
  have hless (a b : Number) :
      less? (ofNumber a) (ofNumber b) = some true ↔ a.Related (· < ·) b := by
    rw [less?_ofNumber, Option.some_inj, beq_iff_eq, Number.related_lt_iff]
  have hlessEqual (a b : Number) :
      lessEqual? (ofNumber a) (ofNumber b) = some true ↔ a.Related (· ≤ ·) b := by
    rw [lessEqual?_ofNumber, Option.some_inj, any_isLE_iff, Number.related_le_iff]
  refine ⟨⟨_, less?_ofNumber a b, ?_⟩, ⟨_, lessEqual?_ofNumber a b, ?_⟩, ?_, fun h => ?_,
    fun ha hb => ?_, fun hab hbc => ?_, fun hab hbc => ?_⟩
  · rw [beq_iff_eq, Number.related_lt_iff]
  · rw [any_isLE_iff, Number.related_le_iff]
  · rw [rawEqual_ofNumber, beq_iff_eq, Number.related_eq_iff]
  · rw [less?_ofNumber, lessEqual?_ofNumber, rawEqual_ofNumber, Number.order?_of_isNaN h]
    exact ⟨rfl, rfl, rfl⟩
  · obtain ⟨o, ho⟩ := Number.exists_order? ha hb
    have ho' : b.order? a = some o.swap := by rw [← order?_swap, ho, Option.map_some]
    rw [less?_ofNumber, less?_ofNumber, lessEqual?_ofNumber, rawEqual_ofNumber, ho, ho']
    exact ⟨o, by cases o <;> decide⟩
  · exact (hless a c).2 (((hless a b).1 hab).trans ((hless b c).1 hbc))
  · exact (hlessEqual a c).2 (((hlessEqual a b).1 hab).trans ((hlessEqual b c).1 hbc))

/-- Between two floats above 2^53 there are integers, and NaN is unordered. -/
theorem numbers_ordered_by_value_between_floats :
    (∃ o : Ordering,
      less? (ofNumber (.float 0x4340000000000000)) (ofNumber (.integer 9007199254740993)) =
        some (o == .lt) ∧
      rawEqual (ofNumber (.float 0x4340000000000000)) (ofNumber (.integer 9007199254740993)) =
        (o == .eq) ∧
      less? (ofNumber (.integer 9007199254740993)) (ofNumber (.float 0x4340000000000000)) =
        some (o == .gt) ∧
      lessEqual? (ofNumber (.float 0x4340000000000000)) (ofNumber (.integer 9007199254740993)) =
        some (o != .gt)) ∧
    less? (ofNumber (.float 0x4340000000000000)) (ofNumber (.float 0x4340000000000001)) =
      some true ∧
    lessEqual? (ofNumber (.float 0x4340000000000000)) (ofNumber (.float 0x4340000000000001)) =
      some true ∧
    less? (ofNumber (.integer 0)) (ofNumber (.float 0x7FF8000000000000)) = some false := by
  obtain ⟨-, -, -, -, hordered, hless, hlessEqual⟩ := numbers_ordered_by_value
    (.float 0x4340000000000000) (.integer 9007199254740993) (.float 0x4340000000000001)
  obtain ⟨-, -, -, hnan, -⟩ := numbers_ordered_by_value
    (.integer 0) (.float 0x7FF8000000000000) (.integer 0)
  exact ⟨hordered (fun ⟨_, h⟩ => nomatch h) (fun h => h), hless (by decide) (by decide),
    hlessEqual (by decide) (by decide), (hnan (.inr ⟨false, rfl⟩)).1⟩

end Value

end LuaMachine
