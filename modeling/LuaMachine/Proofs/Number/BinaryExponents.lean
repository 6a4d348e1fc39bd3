import LuaMachine.Proofs.Number.Accumulators
import LuaMachine.Proofs.Number.Denotation

/-!
# The exponents of hexadecimal numerals

The binary exponent of a hexadecimal numeral is computed with 64 bits: four are taken off for each
digit after the point, and then the exponent as written is added.  The digits of the latter are read
with saturation, so that no number of them can be too great, but neither the digits after the point
nor the sum are bounded.  The sum is therefore reduced to 64 bits, and it is the exponent that is
meant only if no step has left them.

## Main definitions

* `Numeral.writtenExponent` : the exponent without a bound on the sum.
* `Numeral.checkedExponent?` : the computation with 64 bits, given up where a step leaves them.

## Main statements

* `Numeral.toInt_exponentMagnitude` : the digits of an exponent, up to the greatest integer.
* `Numeral.toInt_binaryExponent` : the exponent that is computed is the written one reduced to 64
  bits.
* `Numeral.checkedExponent?_eq_none_iff`, `Numeral.toInt_of_checkedExponent?` : where the
  computation leaves 64 bits, and what it yields otherwise.
-/

namespace LuaMachine.Numeral

open Binary64 (signed word? word?_eq_some_iff word?_eq_none_iff)

/-- The number that the digits of an exponent denote, if it is not beyond the greatest integer. -/
def saturated (digits : List UInt8) : Nat := min (natValue 10 digits) (2 ^ 63 - 1)

/-- The exponent as it is written, in units of the digits before and after the point. -/
def writtenExponent (n : Numeral) : Int :=
  (match n.exponent with
    | none => 0
    | some e => signed e.negative (saturated e.digits)) - 4 * (n.fraction.getD []).length

/-- The exponent after its mark, where the negation may not leave 64 bits. -/
def checkedWord? (e : ExponentPart) : Option Int64 :=
  if e.negative then word? (-(exponentMagnitude e.digits).toInt)
  else some (exponentMagnitude e.digits)

/-- The binary exponent, computed with 64 bits that no step may leave. -/
def checkedExponent? (n : Numeral) : Option Int64 := do
  let scale ← (n.fraction.getD []).foldlM
    (fun (exponent : Int64) _ => word? (exponent.toInt - 4)) 0
  match n.exponent with
  | none => some scale
  | some e => word? (scale.toInt + (← checkedWord? e).toInt)

/-! ### The digits of an exponent -/

theorem toInt_ofIntClamp_of_nonneg {i : Int} (h : 0 ≤ i) :
    (Int64.ofIntClamp i).toInt = min i (2 ^ 63 - 1) := by
  have hmin : Int64.minValue.toInt ≤ i := h.trans' (by decide)
  have hmax : Int64.maxValue.toInt = 2 ^ 63 - 1 := by decide
  rcases le_or_gt i Int64.maxValue.toInt with hle | hgt
  · rw [Int64.toInt_ofIntClamp hmin hle, min_eq_left (hmax ▸ hle)]
  · rw [Int64.ofIntClamp, dif_pos hmin, dif_neg hgt.not_ge, hmax, min_eq_right (hmax ▸ hgt.le)]

/-- **Saturation.** However many digits an exponent has, they denote an integer of 64 bits. -/
theorem toInt_exponentMagnitude (digits : List UInt8) :
    (exponentMagnitude digits).toInt = saturated digits := by
  induction digits using List.reverseRecOn with
  | nil => rfl
  | append_singleton digits b ih =>
    have hconcat : exponentMagnitude (digits ++ [b]) = Int64.ofIntClamp ((Int64.ofIntClamp
        ((exponentMagnitude digits).toInt * 10)).toInt + digitValue b) := List.foldl_append ..
    have hten : (0 : Int) ≤ saturated digits * 10 := by omega
    rw [hconcat, ih, toInt_ofIntClamp_of_nonneg hten,
      toInt_ofIntClamp_of_nonneg (Int.add_nonneg (by omega) (by omega)), saturated,
      saturated, natValue_concat]
    omega

theorem saturated_lt (digits : List UInt8) : saturated digits < 2 ^ 63 :=
  Nat.lt_of_le_of_lt (Nat.min_le_right ..) (by decide)

/-! ### The sum -/

theorem foldl_sub_four (digits : List UInt8) :
    digits.foldl (fun (exponent : Int64) _ => exponent - 4) 0 =
      Int64.ofInt (-(4 * digits.length)) := by
  induction digits using List.reverseRecOn with
  | nil => rfl
  | append_singleton digits b ih =>
    have hlength : -(4 * ((digits ++ [b]).length : Int)) = -(4 * digits.length) - 4 := by
      rw [List.length_append, List.length_singleton]
      omega
    rw [List.foldl_append, ih, hlength, Int64.ofInt_sub]
    rfl

theorem exponentWord_eq (e : ExponentPart) :
    exponentWord e = Int64.ofInt (signed e.negative (saturated e.digits)) := by
  have hmagnitude : exponentMagnitude e.digits = Int64.ofInt (saturated e.digits) := by
    rw [← toInt_exponentMagnitude, Int64.ofInt_toInt]
  rw [exponentWord, hmagnitude, signed]
  cases e.negative with
  | false => rfl
  | true => exact (Int64.ofInt_neg _).symm

theorem binaryExponent_eq (n : Numeral) : binaryExponent n = Int64.ofInt n.writtenExponent := by
  rw [binaryExponent, foldl_sub_four, writtenExponent]
  cases n.exponent with
  | none => exact congrArg Int64.ofInt (Int.zero_sub _).symm
  | some e =>
    dsimp only
    rw [exponentWord_eq, ← Int64.ofInt_add]
    congr 1
    omega

/-- **Binary exponents.** What is computed is the exponent as written, reduced to 64 bits. -/
theorem toInt_binaryExponent (n : Numeral) :
    (binaryExponent n).toInt = n.writtenExponent.bmod (2 ^ 64) := by
  rw [binaryExponent_eq]
  exact Int64.toInt_ofInt

/-! ### The limits of the sum -/

theorem word?_of_mem {i : Int} (hlow : -2 ^ 63 ≤ i) (hhigh : i < 2 ^ 63) :
    word? i = some (Int64.ofInt i) :=
  word?_eq_some_iff.2 (Int64.toInt_ofInt_of_le hlow hhigh)

/-- A saturated exponent can be negated. -/
theorem checkedWord?_eq (e : ExponentPart) : checkedWord? e = some (exponentWord e) := by
  have hlt := saturated_lt e.digits
  rw [checkedWord?, exponentWord, toInt_exponentMagnitude]
  cases e.negative with
  | false => rfl
  | true =>
    rw [if_pos rfl, if_pos rfl, word?_of_mem (by omega) (by omega), Int64.ofInt_neg,
      ← toInt_exponentMagnitude, Int64.ofInt_toInt]

theorem toInt_exponentWord (e : ExponentPart) :
    (exponentWord e).toInt = signed e.negative (saturated e.digits) := by
  have hlt := saturated_lt e.digits
  rw [exponentWord_eq, signed]
  split <;> exact Int64.toInt_ofInt_of_le (by omega) (by omega)

theorem signed_saturated_lt (e : ExponentPart) :
    signed e.negative (saturated e.digits) < 2 ^ 63 := toInt_exponentWord e ▸ Int64.toInt_lt _

/-- Four are taken off until the sum leaves 64 bits. -/
theorem foldlM_sub_four (digits : List UInt8) :
    digits.foldlM (fun (exponent : Int64) _ => word? (exponent.toInt - 4)) 0 =
      if 4 * digits.length ≤ 2 ^ 63 then some (Int64.ofInt (-(4 * digits.length))) else none := by
  induction digits using List.reverseRecOn with
  | nil => rfl
  | append_singleton digits b ih =>
    rw [List.foldlM_append, ih, List.length_append, List.length_singleton]
    by_cases h : 4 * digits.length ≤ 2 ^ 63
    · have hint : (Int64.ofInt (-(4 * digits.length))).toInt = -(4 * digits.length) :=
        Int64.toInt_ofInt_of_le (by omega) (by omega)
      rw [if_pos h, Option.bind_eq_bind, Option.bind_some, List.foldlM_cons, hint]
      by_cases hnext : 4 * (digits.length + 1) ≤ 2 ^ 63
      · rw [if_pos hnext, word?_of_mem (by omega) (by omega),
          show (-(4 * digits.length) - 4 : Int) = -(4 * (digits.length + 1 : Nat)) by omega]
        rfl
      · rw [if_neg hnext, word?_eq_none_iff.2 (by omega)]
        rfl
    · rw [if_neg h, if_neg (by omega)]
      rfl

/-- **The limits of exponents.** The computation leaves 64 bits if there are too many digits after
the point, or if the exponent as written is below the least integer. -/
theorem checkedExponent?_eq (n : Numeral) :
    n.checkedExponent? =
      if 4 * (n.fraction.getD []).length ≤ 2 ^ 63 ∧ -2 ^ 63 ≤ n.writtenExponent then
        some (binaryExponent n)
      else none := by
  rw [checkedExponent?, foldlM_sub_four, binaryExponent_eq, writtenExponent]
  by_cases hk : 4 * (n.fraction.getD []).length ≤ 2 ^ 63
  · have hscale : (Int64.ofInt (-(4 * (n.fraction.getD []).length))).toInt =
        -(4 * (n.fraction.getD []).length) := Int64.toInt_ofInt_of_le (by omega) (by omega)
    rw [if_pos hk, Option.bind_eq_bind, Option.bind_some]
    cases n.exponent with
    | none =>
      dsimp only
      rw [if_pos ⟨hk, by omega⟩, Int.zero_sub]
    | some e =>
      have hbound := signed_saturated_lt e
      dsimp only
      rw [checkedWord?_eq, Option.bind_some, hscale, toInt_exponentWord, Int.add_comm,
        ← Int.sub_eq_add_neg]
      by_cases hlow : -2 ^ 63 ≤
          signed e.negative (saturated e.digits) - 4 * (n.fraction.getD []).length
      · rw [if_pos ⟨hk, hlow⟩, word?_of_mem hlow (by omega)]
      · rw [if_neg fun h => hlow h.2, word?_eq_none_iff.2 (by omega)]
  · rw [if_neg hk, if_neg fun h => hk h.1]
    rfl

theorem checkedExponent?_eq_none_iff (n : Numeral) : n.checkedExponent? = none ↔
    2 ^ 61 < (n.fraction.getD []).length ∨ n.writtenExponent < -2 ^ 63 := by
  rw [checkedExponent?_eq]
  split_ifs with h
  · exact ⟨nofun, by omega⟩
  · exact ⟨fun _ => by omega, fun _ => rfl⟩

/-- An exponent that is computed within 64 bits is the one that is written. -/
theorem toInt_of_checkedExponent? {n : Numeral} {e : Int64} (h : n.checkedExponent? = some e) :
    e = binaryExponent n ∧ e.toInt = n.writtenExponent := by
  rw [checkedExponent?_eq] at h
  split_ifs at h with hlimits
  cases h
  have hupper : n.writtenExponent < 2 ^ 63 := by
    rw [writtenExponent]
    cases n.exponent with
    | none => dsimp only; omega
    | some e =>
      have := signed_saturated_lt e
      dsimp only
      omega
  rw [binaryExponent_eq, Int64.toInt_ofInt_of_le hlimits.2 hupper]
  exact ⟨rfl, rfl⟩

end LuaMachine.Numeral
