import LuaMachine.Proofs.Number.RationalValues

/-!
# Natural numbers in floating point

A natural number is rounded to 53 bits by leaving out its lower bits, and what is left out decides
whether the last bit that is kept is raised: to the nearest, and to the even one of two that are
equally near.  Sums and products of floats that are natural numbers are rounded in this way, as long
as they are below 2^1024; from there on they are infinite.

Where a rounded number reaches a power of two is decided by its exact value: half a unit below the
power is enough.

## Main definitions

* `Binary64.halfEven`, `Binary64.rounded` : a quotient and a number, rounded.
* `Binary64.Amounts` : the natural number that a float stands for.

## Main statements

* `Binary64.roundedMantissa_shiftRight` : how shifted mantissas are rounded.
* `Binary64.two_pow_le_rounded_iff` : where a rounded number reaches a power of two.
* `Binary64.Amounts.add`, `Binary64.Amounts.mul` : arithmetic rounds once.
-/

namespace LuaMachine.Binary64

open Float.Model (Format UnpackedFloat totalExponent)
open Float.Model.UnpackedFloat

/-! ### Rounding -/

/-- The quotient of `x` by `2 ^ n`, rounded to the nearest and, between two that are equally near,
to the even one. -/
def halfEven (x n : Nat) : Nat :=
  if 2 * (x % 2 ^ n) < 2 ^ n then x / 2 ^ n
  else if 2 * (x % 2 ^ n) = 2 ^ n then x / 2 ^ n + x / 2 ^ n % 2
  else x / 2 ^ n + 1

/-- The number rounded to 53 bits. -/
def rounded (x : Nat) : Nat := halfEven x (x.log2 - 52) * 2 ^ (x.log2 - 52)

section HalfEven

variable {x n k : Nat}

theorem halfEven_zero (x : Nat) : halfEven x 0 = x := by
  simp [halfEven, Nat.mod_one]

theorem le_halfEven (x n : Nat) : x / 2 ^ n ≤ halfEven x n := by
  rw [halfEven]
  split_ifs <;> omega

theorem halfEven_le (x n : Nat) : halfEven x n ≤ x / 2 ^ n + 1 := by
  rw [halfEven]
  split_ifs <;> omega

/-- From an odd quotient half a unit is enough to be rounded up. -/
theorem halfEven_eq_succ_iff (hodd : x / 2 ^ n % 2 = 1) :
    halfEven x n = x / 2 ^ n + 1 ↔ 2 ^ n ≤ 2 * (x % 2 ^ n) := by
  rw [halfEven]
  split_ifs <;> omega

theorem halfEven_mul_two_pow (x n k : Nat) : halfEven (x * 2 ^ k) (n + k) = halfEven x n := by
  have hpos : 0 < 2 ^ k := Nat.two_pow_pos k
  have hdiv : x * 2 ^ k / (2 ^ n * 2 ^ k) = x / 2 ^ n := Nat.mul_div_mul_right _ _ hpos
  have hmod : 2 * (x * 2 ^ k % (2 ^ n * 2 ^ k)) = 2 * (x % 2 ^ n) * 2 ^ k := by
    rw [Nat.mul_mod_mul_right, Nat.mul_assoc]
  simp only [halfEven, Nat.pow_add, hdiv, hmod, Nat.mul_lt_mul_right hpos,
    Nat.mul_left_inj hpos.ne']

end HalfEven

section Rounded

variable {x k : Nat}

theorem rounded_zero : rounded 0 = 0 := rfl

/-- Rounding is exact for numbers of 53 bits. -/
theorem rounded_of_lt (h : x < 2 ^ 53) : rounded x = x := by
  rcases Nat.eq_zero_or_pos x with rfl | hpos
  · rfl
  · have hlog : x.log2 < 53 := (Nat.log2_lt hpos.ne').2 h
    rw [rounded, Nat.sub_eq_zero_of_le (Nat.le_of_lt_succ hlog), halfEven_zero, Nat.pow_zero,
      Nat.mul_one]

theorem rounded_two_mul (x : Nat) : rounded (2 * x) = 2 * rounded x := by
  rcases Nat.eq_zero_or_pos x with rfl | hpos
  · rfl
  · rw [rounded, rounded, Nat.log2_two_mul hpos.ne']
    rcases Nat.lt_or_ge x.log2 52 with hlt | hge
    · rw [Nat.sub_eq_zero_of_le hlt, Nat.sub_eq_zero_of_le hlt.le, halfEven_zero, halfEven_zero,
        Nat.pow_zero, Nat.mul_one, Nat.mul_one]
    · rw [Nat.sub_add_comm hge, Nat.pow_succ, Nat.mul_comm 2 x,
        show x * 2 = x * 2 ^ 1 by rw [Nat.pow_one], halfEven_mul_two_pow]
      ring

/-- Rounding commutes with shifting. -/
theorem rounded_mul_two_pow (x k : Nat) : rounded (x * 2 ^ k) = rounded x * 2 ^ k := by
  induction k with
  | zero => rw [Nat.pow_zero, Nat.mul_one, Nat.mul_one]
  | succ k ih =>
    rw [Nat.pow_succ, ← Nat.mul_assoc, ← Nat.mul_assoc, Nat.mul_comm _ 2, rounded_two_mul, ih,
      Nat.mul_comm _ 2]

/-- A rounded number does not leave the powers of two between which the number lies. -/
theorem rounded_mem_Icc (h : x ≠ 0) : 2 ^ x.log2 ≤ rounded x ∧ rounded x ≤ 2 ^ (x.log2 + 1) := by
  have hpow (l : Nat) (hl : x.log2 - 52 ≤ l) :
      2 ^ l = 2 ^ (l - (x.log2 - 52)) * 2 ^ (x.log2 - 52) := by
    rw [← Nat.pow_add, Nat.sub_add_cancel hl]
  have hlow : 2 ^ (x.log2 - (x.log2 - 52)) ≤ x / 2 ^ (x.log2 - 52) := by
    rw [Nat.le_div_iff_mul_le (Nat.two_pow_pos _), ← hpow _ (Nat.sub_le ..)]
    exact Nat.log2_self_le h
  have hhigh : x / 2 ^ (x.log2 - 52) < 2 ^ (x.log2 + 1 - (x.log2 - 52)) := by
    rw [Nat.div_lt_iff_lt_mul (Nat.two_pow_pos _), ← hpow _ ((Nat.sub_le ..).trans (Nat.le_succ _))]
    exact Nat.lt_log2_self
  rw [rounded, hpow x.log2 (Nat.sub_le ..),
    hpow (x.log2 + 1) ((Nat.sub_le ..).trans (Nat.le_succ _))]
  exact ⟨Nat.mul_le_mul_right _ (hlow.trans (le_halfEven ..)),
    Nat.mul_le_mul_right _ ((halfEven_le ..).trans hhigh)⟩

/-- A number of at least 53 bits is rounded to at most 2^53 units. -/
theorem halfEven_mem_Icc (h : 2 ^ 52 ≤ x) :
    2 ^ 52 ≤ halfEven x (x.log2 - 52) ∧ halfEven x (x.log2 - 52) ≤ 2 ^ 53 := by
  have hlog : 52 ≤ x.log2 := (Nat.le_log2 (by omega)).2 h
  have hpow (n : Nat) : 2 ^ (n + (x.log2 - 52)) = 2 ^ n * 2 ^ (x.log2 - 52) := Nat.pow_add ..
  obtain ⟨hlow, hhigh⟩ := rounded_mem_Icc (x := x) (by omega)
  rw [rounded, show x.log2 + 1 = 53 + (x.log2 - 52) by omega, hpow] at hhigh
  rw [rounded, show 2 ^ x.log2 = 2 ^ (52 + (x.log2 - 52)) by rw [Nat.add_sub_cancel' hlog], hpow]
    at hlow
  exact ⟨Nat.le_of_mul_le_mul_right hlow (Nat.two_pow_pos _),
    Nat.le_of_mul_le_mul_right hhigh (Nat.two_pow_pos _)⟩

theorem two_pow_le_rounded (h : 2 ^ k ≤ x) : 2 ^ k ≤ rounded x := by
  have hx : x ≠ 0 := (lt_of_lt_of_le (Nat.two_pow_pos k) h).ne'
  exact (Nat.pow_le_pow_right two_pos ((Nat.le_log2 hx).2 h)).trans (rounded_mem_Icc hx).1

/-- A rounded number is not rounded any further. -/
theorem rounded_rounded (x : Nat) : rounded (rounded x) = rounded x := by
  rcases Nat.lt_or_ge x (2 ^ 53) with hlt | hge
  · rw [rounded_of_lt hlt, rounded_of_lt hlt]
  · have hhalf : rounded (halfEven x (x.log2 - 52)) = halfEven x (x.log2 - 52) := by
      rcases (halfEven_mem_Icc (x := x) (by omega)).2.lt_or_eq with hlt | heq
      · exact rounded_of_lt hlt
      · rw [heq]
        exact rounded_mul_two_pow 1 53
    rw [show rounded x = halfEven x (x.log2 - 52) * 2 ^ (x.log2 - 52) from rfl,
      rounded_mul_two_pow, hhalf]

/-- **Reaching a power of two.** A number is rounded to a power of two or above if it lies at most
half a unit below it. -/
theorem two_pow_le_rounded_iff (j : Nat) :
    2 ^ 54 * 2 ^ j ≤ rounded x ↔ (2 ^ 54 - 1) * 2 ^ j ≤ x := by
  have hone : 1 ≤ 2 ^ j := Nat.one_le_two_pow
  rcases Nat.eq_zero_or_pos x with rfl | hpos
  · rw [rounded_zero]
    omega
  have hlow : 2 ^ x.log2 ≤ x := Nat.log2_self_le hpos.ne'
  have hhigh : x < 2 ^ (x.log2 + 1) := Nat.lt_log2_self
  obtain ⟨hrlow, hrhigh⟩ := rounded_mem_Icc hpos.ne'
  have hpow (n : Nat) : 2 ^ (n + j) = 2 ^ n * 2 ^ j := Nat.pow_add ..
  rcases lt_trichotomy x.log2 (53 + j) with hlt | heq | hgt
  · have hbound : 2 ^ (x.log2 + 1) ≤ 2 ^ (53 + j) := Nat.pow_le_pow_right two_pos hlt
    rw [hpow] at hbound
    omega
  · -- the quotient has 53 bits, and the power is reached if all are set and the last is raised
    obtain ⟨q, hq⟩ : ∃ q, q = x / 2 ^ (j + 1) := ⟨_, rfl⟩
    have hunit : 2 ^ (j + 1) = 2 * 2 ^ j := Nat.pow_succ'
    have hdiv : 2 ^ (j + 1) * q + x % 2 ^ (j + 1) = x := hq ▸ Nat.div_add_mod x (2 ^ (j + 1))
    have hmod : x % 2 ^ (j + 1) < 2 ^ (j + 1) := Nat.mod_lt _ (Nat.two_pow_pos _)
    have hrounded : 2 ^ 54 * 2 ^ j ≤ rounded x ↔ 2 ^ 53 ≤ halfEven x (j + 1) := by
      rw [rounded, heq, show 53 + j - 52 = j + 1 by omega, hunit, ← Nat.mul_assoc,
        show 2 ^ 54 * 2 ^ j = 2 ^ 53 * 2 * 2 ^ j by omega, Nat.mul_le_mul_right_iff hone]
      omega
    have hle : q ≤ halfEven x (j + 1) := hq ▸ le_halfEven x (j + 1)
    have hsucc : halfEven x (j + 1) ≤ q + 1 := hq ▸ halfEven_le x (j + 1)
    have hq53 : q < 2 ^ 53 := by
      rw [hq, Nat.div_lt_iff_lt_mul (Nat.two_pow_pos _), ← Nat.pow_add]
      rwa [heq, show 53 + j + 1 = 53 + (j + 1) by omega] at hhigh
    rw [hrounded]
    rcases Nat.lt_or_ge q (2 ^ 53 - 1) with hlt | hge
    · have hprod : 2 ^ (j + 1) * (q + 1) ≤ 2 ^ (j + 1) * (2 ^ 53 - 1) :=
        Nat.mul_le_mul_left _ hlt
      rw [Nat.mul_succ] at hprod
      omega
    · obtain rfl : q = 2 ^ 53 - 1 := by omega
      have htie := halfEven_eq_succ_iff (x := x) (n := j + 1) (hq ▸ rfl)
      rw [← hq] at htie
      omega
  · have hbound : 2 ^ (54 + j) ≤ 2 ^ x.log2 := Nat.pow_le_pow_right two_pos (by omega)
    rw [hpow] at hbound
    omega

end Rounded

/-! ### Mantissas -/

/-- What is left of `x` after `n` bits have been shifted out: the quotient, whether the rest is at
least half a unit, and whether it is neither nothing nor half a unit. -/
structure Shifted (x n : Nat) (em : ExtendedMantissa) : Prop where
  mantissa : em.mantissa = x / 2 ^ n
  roundBit : em.roundBit = true ↔ 2 ^ n ≤ 2 * (x % 2 ^ n)
  stickyBit : em.stickyBit = true ↔ x % 2 ^ n ≠ 0 ∧ 2 * (x % 2 ^ n) ≠ 2 ^ n

namespace Shifted

variable {x n : Nat} {em : ExtendedMantissa}

theorem exact (x : Nat) : Shifted x 0 (.ofMantissaAndAccuracy x .exact) where
  mantissa := (Nat.div_one x).symm
  roundBit := by simp [ExtendedMantissa.ofMantissaAndAccuracy, Nat.mod_one]
  stickyBit := by simp [ExtendedMantissa.ofMantissaAndAccuracy, Nat.mod_one]

theorem shiftRightOne (h : Shifted x n em) : Shifted x (n + 1) em.shiftRightOne := by
  have hpos : 0 < 2 ^ n := Nat.two_pow_pos n
  have hunit : 2 ^ (n + 1) = 2 * 2 ^ n := Nat.pow_succ'
  have hmod : x % 2 ^ (n + 1) = x % 2 ^ n + 2 ^ n * (x / 2 ^ n % 2) := by
    rw [Nat.pow_succ, Nat.mod_mul]
  have hbit : x / 2 ^ n % 2 = 0 ∨ x / 2 ^ n % 2 = 1 := Nat.mod_two_eq_zero_or_one _
  have hlt : x % 2 ^ n < 2 ^ n := Nat.mod_lt _ hpos
  refine ⟨?_, ?_, ?_⟩
  · rw [ExtendedMantissa.shiftRightOne, h.mantissa, Nat.pow_succ, Nat.div_div_eq_div_mul]
  · simp only [ExtendedMantissa.shiftRightOne, h.mantissa, bne_iff_ne]
    rw [hmod, hunit]
    rcases hbit with hbit | hbit <;> rw [hbit] <;> omega
  · simp only [ExtendedMantissa.shiftRightOne, Bool.or_eq_true, h.roundBit, h.stickyBit]
    rw [hmod, hunit]
    rcases hbit with hbit | hbit <;> rw [hbit] <;> omega

theorem shiftRight (x n : Nat) :
    Shifted x n (ExtendedMantissa.ofMantissaAndAccuracy x .exact >>> n) := by
  induction n with
  | zero => exact exact x
  | succ n ih => exact ih.shiftRightOne

/-- The bits that are kept of what is shifted out suffice to round the quotient. -/
theorem roundedMantissa_eq (h : Shifted x n em) : em.roundedMantissa = halfEven x n := by
  obtain ⟨hmantissa, hround, hsticky⟩ := h
  obtain ⟨m, r, s⟩ := em
  subst hmantissa
  have hpos : 0 < 2 ^ n := Nat.two_pow_pos n
  cases r <;> cases s <;>
    simp only [Bool.false_eq_true, false_iff, true_iff, Nat.not_le] at hround hsticky <;>
    simp only [ExtendedMantissa.roundedMantissa, ExtendedMantissa.accuracy,
      Accuracy.roundToNearestEven, halfEven] <;> split_ifs <;> omega

end Shifted

/-- **Mantissas.** A mantissa that is shifted right is rounded to the nearest even quotient. -/
theorem roundedMantissa_shiftRight (x n : Nat) :
    (ExtendedMantissa.ofMantissaAndAccuracy x .exact >>> n).roundedMantissa = halfEven x n :=
  (Shifted.shiftRight x n).roundedMantissa_eq

/-- A mantissa of at least 53 bits is brought to 53 bits, unless that would make the exponent too
small. -/
theorem shiftToTargetExponent_eq {m : Nat} {e : Int} (hm : 2 ^ 52 ≤ m)
    (he : -1074 ≤ e + (m.log2 - 52 : Nat)) :
    shiftToTargetExponent .binary64 m e .exact =
      (ExtendedMantissa.ofMantissaAndAccuracy m .exact >>> (m.log2 - 52),
        e + (m.log2 - 52 : Nat)) := by
  have hlog : 52 ≤ m.log2 := (Nat.le_log2 (by omega)).2 hm
  have hmin : Format.binary64.minExponent = -1074 := rfl
  have hbits : Format.binary64.mantissaBits = 53 := rfl
  have hshift : (Format.binary64.targetExponent (totalExponent m e) - e).toNat = m.log2 - 52 := by
    rw [Format.targetExponent, hmin, hbits, totalExponent]
    omega
  rw [shiftToTargetExponent, shiftToExponent, hshift]

/-- Rounding a mantissa of at least 53 bits yields one of 53 bits.  If all bits were set, the
rounded mantissa has one more and is shifted once again. -/
theorem exists_roundWithAccuracy {m : Nat} {e : Int} (s : Sign) (hm : 2 ^ 52 ≤ m)
    (he : -1074 ≤ e + (m.log2 - 52 : Nat)) :
    ∃ (m' i : Nat) (hm' : 0 < m'), roundWithAccuracy .binary64 s m e .exact =
        .finite s m' (e + (m.log2 - 52 : Nat) + i) hm' ∧
      2 ^ 52 ≤ m' ∧ m' < 2 ^ 53 ∧ m' * 2 ^ i = halfEven m (m.log2 - 52) := by
  obtain ⟨hlow, hhigh⟩ := halfEven_mem_Icc hm
  have hfirst := shiftToTargetExponent_eq hm he
  have hround := roundedMantissa_shiftRight m (m.log2 - 52)
  obtain ⟨r, hr⟩ : ∃ r, r = halfEven m (m.log2 - 52) := ⟨_, rfl⟩
  rw [← hr] at hlow hhigh hround ⊢
  have hlog : 52 ≤ r.log2 := (Nat.le_log2 (by omega)).2 hlow
  have hsecond : shiftToTargetExponent .binary64 r (e + (m.log2 - 52 : Nat)) .exact = _ :=
    shiftToTargetExponent_eq hlow (by omega)
  have hmantissa := (Shifted.shiftRight r (r.log2 - 52)).mantissa
  have hwidth : 2 ^ 52 ≤ r / 2 ^ (r.log2 - 52) ∧ r / 2 ^ (r.log2 - 52) < 2 ^ 53 ∧
      r / 2 ^ (r.log2 - 52) * 2 ^ (r.log2 - 52) = r := by
    rcases hhigh.lt_or_eq with hlt | rfl
    · have hlog' : r.log2 < 53 := (Nat.log2_lt (by omega)).2 hlt
      rw [show r.log2 - 52 = 0 by omega, Nat.pow_zero, Nat.div_one, Nat.mul_one]
      exact ⟨hlow, hlt, rfl⟩
    · rw [Nat.log2_two_pow]
      decide
  rw [← hmantissa] at hwidth
  have hpos := lt_of_lt_of_le (Nat.two_pow_pos 52) hwidth.1
  refine ⟨_, r.log2 - 52, hpos, ?_, hwidth⟩
  simp only [roundWithAccuracy, hfirst, hround, hsecond]
  exact dif_neg hpos.ne'

/-- The sum of two mantissas that have been given a common exponent is only rounded, if it has at
least 53 bits. -/
theorem add_finite {m₁ m₂ : Nat} {e₁ e₂ : Int} {hm₁ : 0 < m₁} {hm₂ : 0 < m₂}
    (hm : 2 ^ 52 ≤ m₁ <<< (e₁ - min e₁ e₂).toNat + m₂ <<< (e₂ - min e₁ e₂).toNat) :
    (UnpackedFloat.finite .positive m₁ e₁ hm₁).add .binary64 (.finite .positive m₂ e₂ hm₂) =
      roundWithAccuracy .binary64 .positive
        (m₁ <<< (e₁ - min e₁ e₂).toNat + m₂ <<< (e₂ - min e₁ e₂).toNat) (min e₁ e₂) .exact := by
  obtain ⟨m, hmeq⟩ : ∃ m, m = m₁ <<< (e₁ - min e₁ e₂).toNat + m₂ <<< (e₂ - min e₁ e₂).toNat :=
    ⟨_, rfl⟩
  rw [← hmeq] at hm ⊢
  have hlog : 52 ≤ m.log2 := (Nat.le_log2 (by omega)).2 hm
  have hshift (e : Int) : (e - Format.binary64.targetExponent (totalExponent m e)).toNat = 0 := by
    have hbits : Format.binary64.mantissaBits = 53 := rfl
    rw [Format.targetExponent, hbits, totalExponent]
    omega
  have hsum : ((m₁ <<< (e₁ - min e₁ e₂).toNat : Nat) : Int) +
      (m₂ <<< (e₂ - min e₁ e₂).toNat : Nat) = m := by rw [hmeq, Int.natCast_add]
  have hpos : compare (m : Int) 0 = .gt := Int.compare_eq_gt.2 (by omega)
  simp only [UnpackedFloat.add, decreaseExponent, Sign.apply, hsum, UnpackedFloat.normalize,
    hpos, UnpackedFloat.round, Int.toNat_natCast, hshift, Nat.shiftLeft_zero, Int.natCast_zero,
    Int.sub_zero]

/-! ### Packing -/

/-- What is left of an unpacked float when it is packed. -/
def repacked (u : UnpackedFloat) : UnpackedFloat := unpack .binary64 (u.pack .binary64)

theorem repacked_zero (s : Sign) : repacked (.zero s) = .zero s := unpack_packedZero

theorem repacked_notANumber : repacked .notANumber = .notANumber := unpack_packedNaN

theorem repacked_infinity (s : Sign) : repacked (.infinity s) = .infinity s := by
  simp [repacked, pack, packedInfinity, unpack]

theorem unpack_packComponents {s : Sign} {m b : Nat} (hlow : 2 ^ 52 ≤ m) (hhigh : m < 2 ^ 53)
    (hb : 0 < b) (hb' : b < 2047) :
    unpack .binary64 (packComponents .binary64 s (BitVec.ofNat 11 b) (BitVec.ofNat 52 m)) =
      .finite s m (b - 1075) (lt_of_lt_of_le (Nat.two_pow_pos 52) hlow) := by
  have hexponent : (BitVec.ofNat 11 b).toNat = b := Nat.mod_eq_of_lt (by omega)
  have hnan : BitVec.ofNat 11 b ≠ -1#11 := fun h =>
    absurd (hexponent.symm.trans (congrArg BitVec.toNat h)) (Nat.ne_of_lt hb')
  have hzero : BitVec.ofNat 11 b ≠ 0#11 := fun h =>
    absurd (hexponent.symm.trans (congrArg BitVec.toNat h)) hb.ne'
  have hmantissa : (1#1 ++ BitVec.ofNat 52 m).toNat = m := by
    rw [BitVec.toNat_append, ← Nat.shiftLeft_add_eq_or_of_lt (BitVec.isLt _), BitVec.toNat_ofNat,
      BitVec.toNat_ofNat, Nat.shiftLeft_eq]
    omega
  rw [unpack]
  simp only [unpackMantissa_packComponents, unpackExponent_packComponents,
    unpackSign_packComponents, Sign.ofBitVec_toBitVec]
  rw [if_neg hnan, if_neg hzero]
  simp only [hexponent, hmantissa]
  rfl

/-- A mantissa of 53 bits is kept, and the exponent decides whether the float is infinite. -/
theorem repacked_finite {s : Sign} {m : Nat} {e : Int} {hm : 0 < m} (hlow : 2 ^ 52 ≤ m)
    (hhigh : m < 2 ^ 53) (he : -1074 ≤ e) :
    repacked (.finite s m e hm) = if e ≤ 971 then .finite s m e hm else .infinity s := by
  have hlog : m.log2 + 1 = Format.binary64.mantissaBits :=
    congrArg Nat.succ ((Nat.log2_eq_iff hm.ne').2 ⟨hlow, hhigh⟩)
  obtain ⟨b, hb, hbe⟩ : ∃ b, b = (e + 1023 + 52).toNat ∧ (b : Int) = e + 1075 :=
    ⟨_, rfl, by omega⟩
  have hpack : (UnpackedFloat.finite s m e hm).pack .binary64 =
      if 2 ^ 11 ≤ b + 1 then packedInfinity .binary64 s
      else packComponents .binary64 s (BitVec.ofNat 11 b) (BitVec.ofNat 52 m) := by
    rw [pack, if_pos hlog, hb]
    rfl
  rw [repacked, hpack]
  by_cases he971 : e ≤ 971
  · rw [if_neg (by omega), if_pos he971, unpack_packComponents hlow hhigh (by omega) (by omega)]
    simp only [hbe, Int.add_sub_cancel]
  · rw [if_pos (by omega), if_neg he971]
    exact repacked_infinity s

/-! ### Arithmetic -/

/-- The float stands for the natural number: it is equal to it, or it is infinite and the number is
at least 2^1024. -/
inductive Amounts : UnpackedFloat → Nat → Prop where
  | zero : Amounts (.zero .positive) 0
  | finite {m t w : Nat} {e : Int} {hm : 0 < m} : 2 ^ 52 ≤ m → m < 2 ^ 53 → t ≤ 1023 →
    e = t - 52 → m * 2 ^ t = w * 2 ^ 52 → Amounts (.finite .positive m e hm) w
  | infinity {w : Nat} : 2 ^ 1024 ≤ w → Amounts (.infinity .positive) w

namespace Amounts

variable {u v : UnpackedFloat} {w z : Nat}

theorem ne_notANumber (h : Amounts u w) : u ≠ .notANumber := by
  cases h <;> nofun

/-- A number that a float is equal to needs no rounding. -/
theorem rounded_eq {m t : Nat} (hm : m < 2 ^ 53) (h : m * 2 ^ t = w * 2 ^ 52) : rounded w = w := by
  have hrounded := congrArg rounded h
  rw [rounded_mul_two_pow, rounded_mul_two_pow, rounded_of_lt hm, h] at hrounded
  exact (Nat.mul_right_cancel (Nat.two_pow_pos 52) hrounded).symm

theorem pos {m t : Nat} (hm : 0 < m) (h : m * 2 ^ t = w * 2 ^ 52) : 0 < w := by
  have hpos : 0 < w * 2 ^ 52 := h ▸ Nat.mul_pos hm (Nat.two_pow_pos t)
  exact Nat.pos_of_mul_pos_right hpos

theorem pos_of_infinity (h : 2 ^ 1024 ≤ w) : 0 < w := Nat.lt_of_lt_of_le (Nat.pow_pos Nat.two_pos) h

theorem lt {m t : Nat} (hm : m < 2 ^ 53) (ht : t ≤ 1023) (h : m * 2 ^ t = w * 2 ^ 52) :
    w < 2 ^ 1024 := by
  have hpow (k : Nat) (hk : t < k) : 2 ^ (t + 1) ≤ 2 ^ k := Nat.pow_le_pow_right Nat.two_pos hk
  have hlt : w * 2 ^ 52 < 2 ^ (t + 1) * 2 ^ 52 := calc
    w * 2 ^ 52 = m * 2 ^ t := h.symm
    _ < 2 ^ 53 * 2 ^ t := Nat.mul_lt_mul_of_pos_right hm (Nat.two_pow_pos t)
    _ = 2 ^ (t + 1) * 2 ^ 52 := by ring
  exact (Nat.lt_of_mul_lt_mul_right hlt).trans_le (hpow 1024 (Nat.lt_succ_of_le ht))

theorem eq_zero (h : Amounts u 0) : u = .zero .positive := by
  cases h with
  | zero => rfl
  | @finite m _ _ _ hm _ _ _ _ hw => exact absurd (pos hm hw) (lt_irrefl 0)
  | infinity hw => exact absurd (pos_of_infinity hw) (lt_irrefl 0)

theorem repacked (h : Amounts u w) : Amounts (repacked u) (rounded w) := by
  cases h with
  | zero =>
    rw [repacked_zero, rounded_zero]
    exact .zero
  | finite hlow hhigh ht he hw =>
    rw [repacked_finite hlow hhigh (by omega), if_pos (by omega), rounded_eq hhigh hw]
    exact .finite hlow hhigh ht he hw
  | infinity hw =>
    rw [repacked_infinity]
    exact .infinity (two_pow_le_rounded hw)

/-- **Rounding.** A mantissa with an exponent that stands for a natural number is rounded as this
number is. -/
theorem roundWithAccuracy {m x a b : Nat} {e : Int} (hm : 2 ^ 52 ≤ m) (he : e = a - b)
    (hx : m * 2 ^ a = x * 2 ^ b) (hpos : 0 < x) :
    Amounts (Binary64.repacked (roundWithAccuracy .binary64 .positive m e .exact)) (rounded x) := by
  have hlog : 52 ≤ m.log2 := (Nat.le_log2 (by omega)).2 hm
  have hnat : b ≤ m.log2 + a := by
    have hlt : 2 ^ b < 2 ^ (m.log2 + 1 + a) := calc
      2 ^ b ≤ x * 2 ^ b := Nat.le_mul_of_pos_left _ hpos
      _ = m * 2 ^ a := hx.symm
      _ < 2 ^ (m.log2 + 1) * 2 ^ a :=
        Nat.mul_lt_mul_of_pos_right Nat.lt_log2_self (Nat.two_pow_pos a)
      _ = 2 ^ (m.log2 + 1 + a) := (Nat.pow_add ..).symm
    have := (Nat.pow_lt_pow_iff_right Nat.one_lt_two).1 hlt
    omega
  obtain ⟨m', i, hm', hround, hlow, hhigh, hmantissa⟩ :=
    exists_roundWithAccuracy (e := e) .positive hm (by omega)
  obtain ⟨t, ht⟩ : ∃ t, t = m.log2 + a + i - b := ⟨_, rfl⟩
  have hw : m' * 2 ^ t = rounded x * 2 ^ 52 := by
    refine Nat.mul_right_cancel (Nat.two_pow_pos b) ?_
    calc m' * 2 ^ t * 2 ^ b
      _ = m' * 2 ^ (i + (m.log2 - 52) + a + 52) := by
        rw [Nat.mul_assoc, ← Nat.pow_add, show t + b = i + (m.log2 - 52) + a + 52 by omega]
      _ = m' * 2 ^ i * 2 ^ (m.log2 - 52) * 2 ^ a * 2 ^ 52 := by
        simp only [Nat.pow_add, Nat.mul_assoc]
      _ = rounded m * 2 ^ a * 2 ^ 52 := by rw [hmantissa, rounded]
      _ = rounded x * 2 ^ b * 2 ^ 52 := by
        rw [← rounded_mul_two_pow, hx, rounded_mul_two_pow]
      _ = rounded x * 2 ^ 52 * 2 ^ b := Nat.mul_right_comm ..
  rw [hround, repacked_finite hlow hhigh (by omega)]
  split_ifs with he971
  · exact .finite hlow hhigh (by omega) (by omega) hw
  · have hlarge (k : Nat) (hk : k ≤ t) : 2 ^ k ≤ 2 ^ t := Nat.pow_le_pow_right Nat.two_pos hk
    have hpow : 2 ^ t ≤ rounded x := by
      refine Nat.le_of_mul_le_mul_right ?_ (Nat.two_pow_pos 52)
      rw [← hw, Nat.mul_comm]
      exact Nat.mul_le_mul_right _ hlow
    exact .infinity ((hlarge 1024 (by omega)).trans hpow)

theorem repacked_infinity {x : Nat} (hx : 2 ^ 1024 ≤ x) :
    Amounts (Binary64.repacked (.infinity .positive)) (rounded x) := (Amounts.infinity hx).repacked

/-- **Sums.** The sum of two natural numbers is rounded once. -/
theorem add (hu : Amounts u w) (hv : Amounts v z) :
    Amounts (Binary64.repacked (u.add .binary64 v)) (rounded (w + z)) := by
  cases hu with
  | zero =>
    rw [Nat.zero_add]
    cases hv with
    | zero => exact Amounts.zero.repacked
    | finite hlow hhigh ht he hz => exact (Amounts.finite hlow hhigh ht he hz).repacked
    | infinity hz => exact repacked_infinity hz
  | infinity hw =>
    have hsum : 2 ^ 1024 ≤ w + z := hw.trans (Nat.le_add_right ..)
    cases hv with
    | zero | finite _ _ _ _ _ | infinity _ => exact repacked_infinity hsum
  | finite hlow hhigh ht he hw =>
    cases hv with
    | zero => exact (Amounts.finite hlow hhigh ht he hw).repacked
    | infinity hz => exact repacked_infinity (hz.trans (Nat.le_add_left ..))
    | @finite m' t' z e' hm' hlow' hhigh' ht' he' hz =>
      rename_i m t e hm
      have hmin : min e e' = (min t t' : Nat) - (52 : Nat) := by omega
      have hsum : (m <<< (e - min e e').toNat + m' <<< (e' - min e e').toNat) * 2 ^ min t t' =
          (w + z) * 2 ^ 52 := by
        rw [show (e - min e e').toNat = t - min t t' by omega,
          show (e' - min e e').toNat = t' - min t t' by omega, Nat.shiftLeft_eq, Nat.shiftLeft_eq,
          Nat.add_mul, Nat.mul_assoc, Nat.mul_assoc, ← Nat.pow_add, ← Nat.pow_add,
          Nat.sub_add_cancel (Nat.min_le_left ..), Nat.sub_add_cancel (Nat.min_le_right ..), hw, hz,
          Nat.add_mul]
      have hbits : 2 ^ 52 ≤ m <<< (e - min e e').toNat + m' <<< (e' - min e e').toNat :=
        (hlow.trans (Nat.le_shiftLeft ..)).trans (Nat.le_add_right ..)
      rw [add_finite hbits]
      exact Amounts.roundWithAccuracy hbits hmin hsum (Nat.add_pos_left (pos hm hw) z)

/-- **Products.** The product of a natural number with one of at most 53 bits is rounded once. -/
theorem mul (hu : Amounts u w) (hv : Amounts v z) (hpos : 0 < z) (hz : z < 2 ^ 53) :
    Amounts (Binary64.repacked (u.mul .binary64 v)) (rounded (w * z)) := by
  cases hv with
  | zero => exact absurd hpos (lt_irrefl 0)
  | infinity hlarge =>
    have hpow (k : Nat) (hk : 53 ≤ k) : 2 ^ 53 ≤ 2 ^ k := Nat.pow_le_pow_right Nat.two_pos hk
    exact absurd ((hpow 1024 (by decide)).trans hlarge) hz.not_ge
  | @finite m' t' z e' hm' hlow' hhigh' ht' he' hz' =>
    cases hu with
    | zero =>
      rw [Nat.zero_mul]
      exact Amounts.zero.repacked
    | infinity hw => exact repacked_infinity (hw.trans (Nat.le_mul_of_pos_right _ hpos))
    | @finite m t w e hm hlow hhigh ht he hw =>
      have hexponent : e + e' = (t + t' : Nat) - (104 : Nat) := by omega
      have hprod : m * m' * 2 ^ (t + t') = w * z * 2 ^ 104 := by
        rw [Nat.pow_add, Nat.mul_mul_mul_comm, hw, hz', Nat.mul_mul_mul_comm, ← Nat.pow_add]
      exact Amounts.roundWithAccuracy (hlow.trans (Nat.le_mul_of_pos_right _ hm')) hexponent hprod
        (Nat.mul_pos (pos hm hw) hpos)

/-- Zero times a float is NaN if the float is infinite. -/
theorem mul_zero_eq_notANumber_iff (hu : Amounts u w) (s : Sign) :
    u.mul .binary64 (.zero s) = .notANumber ↔ 2 ^ 1024 ≤ w := by
  cases hu with
  | zero => exact ⟨nofun, fun h => absurd (pos_of_infinity h) (lt_irrefl 0)⟩
  | finite _ hhigh ht _ hw => exact ⟨nofun, fun h => absurd h (lt hhigh ht hw).not_ge⟩
  | infinity hw => exact ⟨fun _ => hw, fun _ => rfl⟩

/-- Infinity times a float is NaN if the float is zero. -/
theorem mul_infinity_eq_notANumber_iff (hu : Amounts u w) (s : Sign) :
    u.mul .binary64 (.infinity s) = .notANumber ↔ w = 0 := by
  cases hu with
  | zero => exact ⟨fun _ => rfl, fun _ => rfl⟩
  | @finite m t w e hm _ _ _ _ hw => exact ⟨nofun, fun h => absurd h (pos hm hw).ne'⟩
  | infinity hw => exact ⟨nofun, fun h => absurd h (pos_of_infinity hw).ne'⟩

/-- A natural number of at most 53 bits is converted without rounding. -/
theorem normalize {x : Nat} (hx : x < 2 ^ 53) :
    Amounts (Binary64.repacked (UnpackedFloat.normalize .binary64 x 0 .positive)) x := by
  rcases Nat.eq_zero_or_pos x with rfl | hpos
  · exact Amounts.zero.repacked
  · have hlog : x.log2 < 53 := (Nat.log2_lt hpos.ne').2 hx
    have hshift : (0 - Format.binary64.targetExponent (totalExponent x 0)).toNat = 52 - x.log2 := by
      have hmin : Format.binary64.minExponent = -1074 := rfl
      have hbits : Format.binary64.mantissaBits = 53 := rfl
      rw [Format.targetExponent, hmin, hbits, totalExponent]
      omega
    have hcompare : compare (x : Int) 0 = .gt := Int.compare_eq_gt.2 (by omega)
    have hround : UnpackedFloat.normalize .binary64 x 0 .positive =
        .roundWithAccuracy .binary64 .positive (x * 2 ^ (52 - x.log2))
          ((0 : Nat) - (52 - x.log2 : Nat)) .exact := by
      simp only [UnpackedFloat.normalize, hcompare, UnpackedFloat.round, decreaseExponent,
        Int.toNat_natCast, hshift, Nat.shiftLeft_eq, Int.natCast_zero]
    have hbits : 2 ^ 52 ≤ x * 2 ^ (52 - x.log2) := calc
      2 ^ 52 = 2 ^ x.log2 * 2 ^ (52 - x.log2) := by
        rw [← Nat.pow_add, Nat.add_sub_cancel' (Nat.le_of_lt_succ hlog)]
      _ ≤ x * 2 ^ (52 - x.log2) := Nat.mul_le_mul_right _ (Nat.log2_self_le hpos.ne')
    have hamounts := Amounts.roundWithAccuracy (a := 0) (b := 52 - x.log2) hbits rfl
      (Nat.mul_one _) hpos
    rwa [← hround, rounded_of_lt hx] at hamounts

end Amounts

/-- Natural numbers of at most 53 bits are floats. -/
theorem amounts_toFloat {x : Nat} (hx : x < 2 ^ 53) : Amounts x.toFloat.toModel.unpack x := by
  have hcast : x.toFloat = x.toUInt64.toFloat * Float.ofBits 0x3FF0000000000000 :=
    dif_pos ⟨hx, by decide⟩
  have hword : x.toUInt64.toNat = x := UInt64.toNat_ofNat_of_lt' (by change _ < 2 ^ 64; omega)
  have hunpack : x.toUInt64.toFloat.toModel.unpack =
      repacked (UnpackedFloat.normalize .binary64 x 0 .positive) := by
    conv_rhs => rw [← hword]
    rfl
  have hone : Amounts (Float.ofBits 0x3FF0000000000000).toModel.unpack 1 :=
    .finite (t := 0) (by decide) (by decide) (by decide) (by decide) (by decide)
  have hx' := Amounts.normalize hx
  rw [← hunpack] at hx'
  have hproduct := hx'.mul hone (by decide) (by decide)
  rw [Nat.mul_one, rounded_of_lt hx] at hproduct
  rw [hcast]
  exact hproduct

end LuaMachine.Binary64
