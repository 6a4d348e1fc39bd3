import LuaMachine.Number.Binary64
import Mathlib

/-!
# Floats among the integers

A float denotes a rational number, an infinity, or nothing.  That number is a quotient of two
integers, and its floor, its ceiling and its order among the integers are those of the quotient.

The operations on floats read the same fields off the bits, so that what they decide can be said of
the denotation: here the comparison with zero.

## Main definitions

* `Binary64.canonical` : the denotation without the sign of NaN, which no operation tells.
* `Binary64.AtMost`, `Binary64.AtLeast` : an integer is not above, or not below, a float.
* `Binary64.IsQuotient` : a float denotes a quotient of integers.

## Main statements

* `Binary64.canonical_ofFloat_ofBits` : bits denote the same as the float that they make.
* `Binary64.zero_lt_iff` : a float is positive if what it denotes is.
* `Binary64.isQuotient_finite` : a finite float denotes a quotient.
-/

namespace LuaMachine.Binary64

open Float.Model (UnpackedFloat)
open Float.Model.UnpackedFloat (unpack unpackExponent unpackMantissa unpackSign)

/-! ### The order among the integers -/

/-- The integer is not above the number that a float denotes. -/
def AtMost (i : Int) (x : Binary64) : Prop :=
  x.compareInt i = some .lt ∨ x.compareInt i = some .eq

/-- The integer is not below the number that a float denotes. -/
def AtLeast (i : Int) (x : Binary64) : Prop :=
  x.compareInt i = some .gt ∨ x.compareInt i = some .eq

/-- A float denotes the quotient of two integers. -/
structure IsQuotient (x : Binary64) (n d : Int) : Prop where
  pos : 0 < d
  compareInt_eq : ∀ i, x.compareInt i = some (compare (i * d) n)
  floor?_eq : x.floor? = some (n / d)
  ceil?_eq : x.ceil? = some (-(-n / d))

theorem scale_pos (n : Nat) : 0 < scale n := Nat.pow_pos Nat.zero_lt_two

/-- **Finite floats.** They denote quotients of integers. -/
theorem isQuotient_finite (negative : Bool) (m : Nat) (e : Int) :
    ∃ n d, IsQuotient (.finite negative m e) n d := by
  have hscale : scale 0 = 1 := rfl
  have hsigned (k : Nat) : signed negative (m * k) = signed negative m * k := by
    cases negative <;> simp [signed]
  have hpos : (0 : Int) < scale (-e).toNat := Int.natCast_pos.2 (scale_pos _)
  refine ⟨signed negative m * scale e.toNat, scale (-e).toNat, hpos, fun i => rfl, ?_, ?_⟩
  · rw [floor?]
    split
    · next he =>
      have h : (-e).toNat = 0 := by omega
      rw [h, hscale, hsigned, Int.natCast_one, Int.ediv_one]
    · next he =>
      have h : e.toNat = 0 := by omega
      rw [h, hscale, Int.natCast_one, Int.mul_one, Int.fdiv_eq_ediv_of_nonneg _ (Int.le_of_lt hpos)]
  · rw [ceil?]
    split
    · next he =>
      have h : (-e).toNat = 0 := by omega
      rw [h, hscale, hsigned, Int.natCast_one, Int.ediv_one, Int.neg_neg]
    · next he =>
      have h : e.toNat = 0 := by omega
      rw [h, hscale, Int.natCast_one, Int.mul_one, Int.fdiv_eq_ediv_of_nonneg _ (Int.le_of_lt hpos)]

namespace IsQuotient

variable {x : Binary64} {n d i z : Int}

theorem atMost_iff (h : x.IsQuotient n d) : x.AtMost i ↔ i * d ≤ n := by
  rw [AtMost, h.compareInt_eq, Option.some_inj, Option.some_inj, Int.compare_eq_lt,
    Int.compare_eq_eq, Int.le_iff_lt_or_eq]

theorem atLeast_iff (h : x.IsQuotient n d) : x.AtLeast i ↔ n ≤ i * d := by
  rw [AtLeast, h.compareInt_eq, Option.some_inj, Option.some_inj, Int.compare_eq_gt,
    Int.compare_eq_eq, Int.le_iff_lt_or_eq, eq_comm (a := n)]

/-- An integer is not above a float if it is not above its floor. -/
theorem le_floor_iff (h : x.IsQuotient n d) (hz : x.floor? = some z) : i ≤ z ↔ x.AtMost i := by
  obtain rfl := Option.some.inj (hz.symm.trans h.floor?_eq)
  rw [h.atMost_iff, Int.le_ediv_iff_mul_le h.pos]

/-- An integer is not below a float if it is not below its ceiling. -/
theorem ceil_le_iff (h : x.IsQuotient n d) (hz : x.ceil? = some z) : z ≤ i ↔ x.AtLeast i := by
  obtain rfl := Option.some.inj (hz.symm.trans h.ceil?_eq)
  have hneg : -(-n / d) ≤ i ↔ -i ≤ -n / d := by omega
  rw [h.atLeast_iff, hneg, Int.le_ediv_iff_mul_le h.pos, Int.neg_mul, Int.neg_le_neg_iff]

theorem positive_iff (h : x.IsQuotient n d) : x.compareInt 0 = some .lt ↔ 0 < n := by
  rw [h.compareInt_eq, Int.zero_mul, Option.some_inj, Int.compare_eq_lt]

theorem positive_of_floor (h : x.IsQuotient n d) (hz : x.floor? = some z) (hpos : 0 < z) :
    x.compareInt 0 = some .lt := by
  have hone : 1 * d ≤ n := h.atMost_iff.1 ((h.le_floor_iff hz).1 hpos)
  have := h.pos
  exact h.positive_iff.2 (by omega)

theorem not_positive_of_floor (h : x.IsQuotient n d) (hz : x.floor? = some z) (hneg : z < 0) :
    ¬x.compareInt 0 = some .lt := by
  have hzero : ¬0 * d ≤ n := fun hn =>
    absurd ((h.le_floor_iff hz).2 (h.atMost_iff.2 hn)) (by omega)
  exact fun hpos => absurd (h.positive_iff.1 hpos) (by omega)

theorem positive_of_ceil (h : x.IsQuotient n d) (hz : x.ceil? = some z) (hpos : 0 < z) :
    x.compareInt 0 = some .lt := by
  have hzero : ¬n ≤ 0 * d := fun hn =>
    absurd ((h.ceil_le_iff hz).2 (h.atLeast_iff.2 hn)) (by omega)
  exact h.positive_iff.2 (by omega)

theorem not_positive_of_ceil (h : x.IsQuotient n d) (hz : x.ceil? = some z) (hneg : z < 0) :
    ¬x.compareInt 0 = some .lt := by
  have hzero : n ≤ 0 * d := h.atLeast_iff.1 ((h.ceil_le_iff hz).1 (by omega))
  exact fun hpos => absurd (h.positive_iff.1 hpos) (by omega)

end IsQuotient

/-! ### Machine words -/

theorem word?_eq_some_iff {z : Int} {l : Int64} : word? z = some l ↔ l.toInt = z := by
  have hl := l.toInt_lt
  have hl' := l.le_toInt
  rw [word?]
  split
  · next hz =>
    rw [Option.some_inj, ← Int64.toInt_inj, Int64.toInt_ofInt_of_le hz.1 hz.2, eq_comm]
  · next hz => exact ⟨nofun, fun h => absurd (by omega) hz⟩

theorem word?_eq_none_iff {z : Int} : word? z = none ↔ z < -2 ^ 63 ∨ 2 ^ 63 ≤ z := by
  rw [word?]
  split
  · next hz => exact ⟨nofun, fun h => by omega⟩
  · next hz => exact ⟨fun _ => by omega, fun _ => rfl⟩

/-! ### The sign of NaN -/

/-- The denotation without the sign of NaN. -/
def canonical : Binary64 → Binary64
  | .nan _ => .nan false
  | x => x

theorem floor?_canonical (x : Binary64) : x.canonical.floor? = x.floor? := by
  cases x <;> rfl

theorem ceil?_canonical (x : Binary64) : x.canonical.ceil? = x.ceil? := by
  cases x <;> rfl

theorem compareInt_canonical (x : Binary64) (i : Int) :
    x.canonical.compareInt i = x.compareInt i := by
  cases x <;> rfl

/-! ### What the operations on floats read -/

/-- The sign of an unpacked float. -/
def isNegative : UnpackedFloat.Sign → Bool
  | .negative => true
  | .positive => false

/-- What an unpacked float denotes. -/
def ofUnpacked : UnpackedFloat → Binary64
  | .notANumber => .nan false
  | .infinity s => .infinity (isNegative s)
  | .zero s => .finite (isNegative s) 0 (-1074)
  | .finite s m e _ => .finite (isNegative s) m e

theorem toNat_unpackMantissa (bits : UInt64) :
    (@unpackMantissa .binary64 bits.toBitVec).toNat =
      (bits &&& 0xFFFFFFFFFFFFF).toNat := by
  rw [UnpackedFloat.unpackMantissa_def, BitVec.extractLsb'_toNat, Nat.shiftRight_zero,
    UInt64.toNat_and]
  exact (Nat.and_two_pow_sub_one_eq_mod bits.toNat 52).symm

theorem toNat_unpackExponent (bits : UInt64) :
    (@unpackExponent .binary64 bits.toBitVec).toNat =
      ((bits >>> 52) &&& 0x7FF).toNat := by
  rw [UnpackedFloat.unpackExponent_def, BitVec.extractLsb'_toNat, UInt64.toNat_and,
    UInt64.toNat_shiftRight]
  exact (Nat.and_two_pow_sub_one_eq_mod (bits.toNat >>> 52) 11).symm

theorem isNegative_unpackSign (bits : UInt64) :
    isNegative (.ofBitVec (@unpackSign .binary64 bits.toBitVec)) = (bits >>> 63 == 1) := by
  have hsign : (@unpackSign .binary64 bits.toBitVec).toNat = (bits >>> 63).toNat := by
    rw [UnpackedFloat.unpackSign_def, BitVec.extractLsb'_toNat, UInt64.toNat_shiftRight]
    have hbits := bits.toNat_lt
    refine Nat.mod_eq_of_lt ?_
    change bits.toNat >>> 63 < 2 ^ 1
    rw [Nat.shiftRight_eq_div_pow]
    omega
  have hword : bits >>> 63 = 1 ↔ @unpackSign .binary64 bits.toBitVec = 1#1 := by
    rw [← UInt64.toNat_inj, ← BitVec.toNat_inj, hsign]
    rfl
  rw [Bool.eq_iff_iff, beq_iff_eq, hword]
  generalize @unpackSign .binary64 bits.toBitVec = b
  revert b
  decide

/-- **Fields.** The operations on floats read the bits in the same way. -/
theorem ofUnpacked_unpack (bits : UInt64) :
    ofUnpacked (unpack .binary64 bits.toBitVec) = (ofBits bits).canonical := by
  have hsign := isNegative_unpackSign bits
  have hfull : @unpackExponent .binary64 bits.toBitVec = -1#11 ↔
      ((bits >>> 52) &&& 0x7FF).toNat = 2047 := by
    rw [← toNat_unpackExponent, ← BitVec.toNat_inj]
    rfl
  have hempty : @unpackExponent .binary64 bits.toBitVec = 0#11 ↔
      ((bits >>> 52) &&& 0x7FF).toNat = 0 := by
    rw [← toNat_unpackExponent, ← BitVec.toNat_inj]
    rfl
  have hfraction : @unpackMantissa .binary64 bits.toBitVec = 0#52 ↔
      (bits &&& 0xFFFFFFFFFFFFF).toNat = 0 := by
    rw [← toNat_unpackMantissa, ← BitVec.toNat_inj]
    rfl
  have hmantissa : (1#1 ++ @unpackMantissa .binary64 bits.toBitVec).toNat =
      0x10000000000000 + (bits &&& 0xFFFFFFFFFFFFF).toNat := by
    rw [← toNat_unpackMantissa, BitVec.toNat_append,
      ← Nat.shiftLeft_add_eq_or_of_lt (BitVec.isLt _)]
    rfl
  simp only [unpack, ofBits]
  by_cases h₁ : ((bits >>> 52) &&& 0x7FF).toNat = 2047
  · rw [if_pos (hfull.2 h₁), if_pos h₁]
    by_cases h₂ : (bits &&& 0xFFFFFFFFFFFFF).toNat = 0
    · rw [if_pos (hfraction.2 h₂), if_pos h₂, ofUnpacked, hsign]
      rfl
    · rw [if_neg (mt hfraction.1 h₂), if_neg h₂]
      rfl
  · rw [if_neg (mt hfull.1 h₁), if_neg h₁]
    by_cases h₂ : ((bits >>> 52) &&& 0x7FF).toNat = 0
    · rw [if_pos (hempty.2 h₂), if_pos h₂]
      by_cases h₃ : (bits &&& 0xFFFFFFFFFFFFF).toNat = 0
      · rw [dif_pos (hfraction.2 h₃), ofUnpacked, hsign, h₃]
        rfl
      · rw [dif_neg (mt hfraction.1 h₃), ofUnpacked, hsign, hempty.2 h₂, toNat_unpackMantissa]
        rfl
    · rw [if_neg (mt hempty.1 h₂), if_neg h₂, ofUnpacked, hsign, toNat_unpackExponent, hmantissa]
      rfl

/-- A float has the fields of the bits that it is made from. -/
theorem unpack_ofBits (bits : UInt64) :
    (Float.ofBits bits).toModel.unpack = unpack .binary64 bits.toBitVec := by
  change unpack .binary64 (UnpackedFloat.pack .binary64 (unpack .binary64 bits.toBitVec)) = _
  rw [UnpackedFloat.pack_unpack]
  split
  · next hnan =>
    obtain ⟨hexponent, hmantissa⟩ := of_decide_eq_true hnan
    rw [UnpackedFloat.unpack_packedNaN, unpack]
    simp only [hexponent, hmantissa, if_true, if_false]
  · rfl

/-- Bits denote the same as the float that they make. -/
theorem canonical_ofFloat_ofBits (bits : UInt64) :
    (ofFloat (Float.ofBits bits)).canonical = (ofBits bits).canonical :=
  calc (ofFloat (Float.ofBits bits)).canonical
    _ = ofUnpacked (Float.ofBits bits).toModel.unpack := (ofUnpacked_unpack _).symm
    _ = ofUnpacked (unpack .binary64 bits.toBitVec) := congrArg _ (unpack_ofBits bits)
    _ = (ofBits bits).canonical := ofUnpacked_unpack bits

theorem compareInt_zero_eq_lt_iff {negative : Bool} {m : Nat} {e : Int} :
    compareInt 0 (.finite negative m e) = some .lt ↔ negative = false ∧ 0 < m := by
  have hscale := scale_pos e.toNat
  rw [compareInt, Int.zero_mul, Option.some_inj, Int.compare_eq_lt]
  cases negative with
  | true =>
    have hle := Int.mul_nonneg (Int.natCast_nonneg m) (Int.natCast_nonneg (scale e.toNat))
    simp [signed, hle]
  | false => simp [signed, hscale]

/-- A float is positive if what it denotes is. -/
theorem zero_lt_iff (x : Float) : 0 < x ↔ (ofFloat x).compareInt 0 = some .lt := by
  have hunpacked : (ofFloat x).compareInt 0 = (ofUnpacked x.toModel.unpack).compareInt 0 := by
    rw [← compareInt_canonical]
    exact congrArg _ (ofUnpacked_unpack x.toBits).symm
  have hzero : (0 : Float).toModel.unpack = .zero .positive := rfl
  have hlt : 0 < x ↔ (0 : Float).toModel.unpack.lt x.toModel.unpack = true := decide_eq_true_iff
  rw [hlt, hunpacked, hzero, UnpackedFloat.lt, beq_iff_eq]
  cases x.toModel.unpack with
  | notANumber => simp [UnpackedFloat.compare, ofUnpacked, compareInt]
  | infinity s => cases s <;> simp [UnpackedFloat.compare, ofUnpacked, compareInt, isNegative]
  | zero s => cases s <;> simp [UnpackedFloat.compare, ofUnpacked, compareInt_zero_eq_lt_iff]
  | finite s m e hm =>
    cases s <;>
      simp [UnpackedFloat.compare, ofUnpacked, compareInt_zero_eq_lt_iff, isNegative, hm]

end LuaMachine.Binary64
