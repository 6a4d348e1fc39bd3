import LuaMachine.Proofs.Number.BinaryExponents
import LuaMachine.Proofs.Number.HexadecimalMantissas
import LuaMachine.Proofs.Number.WrittenNumerals

/-!
# Numerals that are floats

A decimal numeral is never read as NaN, however many digits it has.  A hexadecimal one is the
product of its mantissa with a power of two, and the two are computed apart: each may become
infinite, or the power zero, before they are multiplied.  The product of zero and infinity is NaN,
and there are two ways to write it: digits that are all zero with an exponent above 1023, and digits
beyond the greatest float with an exponent below -1023.  All other hexadecimal floats are numbers,
and those whose digits are all zero are zero.

The exponent meant here is the one that is computed, which is reduced to 64 bits.

## Main definitions

* `Binary64.isProper` : the floats that are finite and not zero.
* `Numeral.mantissa`, `Numeral.scale` : the digits and the exponent of a hexadecimal float.

## Main statements

* `Binary64.unpack_ofScientific_ne` : decimal floats are not NaN.
* `Binary64.mul_powerOfTwo_eq_notANumber_iff` : which products with a power of two are NaN.
* `Numeral.isNaN_value_iff`, `Numeral.value?_value_of_zero` : which numerals are NaN, and which
  numerals with the digit 0 only are zero.
* `Number.hexadecimal_floats_limits` : the same for byte strings, and where the exponent leaves 64
  bits.
-/

namespace LuaMachine

open Float.Model (Format UnpackedFloat)
open Float.Model.UnpackedFloat

namespace Binary64

/-! ### Operations that do not yield NaN -/

theorem unpack_packComponents_ne {s : Sign} {e : BitVec 11} {m : BitVec 52} (he : e ≠ -1#11) :
    unpack .binary64 (packComponents .binary64 s e m) ≠ .notANumber := by
  rw [unpack]
  simp only [unpackMantissa_packComponents, unpackExponent_packComponents]
  rw [if_neg he]
  split_ifs <;> nofun

/-- Packing keeps NaN apart from all other floats. -/
theorem repacked_eq_notANumber_iff {u : UnpackedFloat} :
    repacked u = .notANumber ↔ u = .notANumber := by
  refine ⟨fun h => ?_, fun h => h ▸ repacked_notANumber⟩
  cases u with
  | notANumber => rfl
  | infinity s => exact nomatch (repacked_infinity s).symm.trans h
  | zero s => exact nomatch (repacked_zero s).symm.trans h
  | finite s m e hm =>
    refine absurd h ?_
    rw [repacked, pack]
    dsimp only
    split_ifs with hlarge hwide
    · rw [show unpack .binary64 (packedInfinity .binary64 s) = .infinity s from repacked_infinity s]
      nofun
    · refine unpack_packComponents_ne fun he => hlarge ?_
      have hmod := Nat.mod_le (e + Format.binary64.exponentBias + 52).toNat 2048
      exact Nat.succ_le_succ ((congrArg BitVec.toNat he).symm.trans_le hmod)
    · exact unpack_packComponents_ne (by decide)

theorem roundWithAccuracy_ne (s : Sign) (m : Nat) (e : Int) (a : Accuracy) :
    roundWithAccuracy .binary64 s m e a ≠ .notANumber := by
  simp only [roundWithAccuracy]
  split_ifs <;> rintro ⟨⟩

theorem normalize_ne (m e : Int) (s : Sign) :
    UnpackedFloat.normalize .binary64 m e s ≠ .notANumber := by
  rw [UnpackedFloat.normalize]
  split
  · exact roundWithAccuracy_ne _ _ _ _
  · rintro ⟨⟩
  · exact roundWithAccuracy_ne _ _ _ _

/-- The float is finite and not zero. -/
def isProper : UnpackedFloat → Bool
  | .finite _ _ _ _ => true
  | _ => false

section Proper

variable {u v : UnpackedFloat}

/-- A product with a proper factor is NaN only if the other factor is. -/
theorem mul_ne (hu : u ≠ .notANumber) (hv : isProper v = true) :
    u.mul .binary64 v ≠ .notANumber := by
  cases v with
  | notANumber | infinity _ | zero _ => cases hv
  | finite _ _ _ _ =>
    cases u with
    | notANumber => exact absurd rfl hu
    | infinity _ | zero _ => nofun
    | finite _ _ _ _ => exact roundWithAccuracy_ne _ _ _ _

/-- A quotient with a proper divisor is NaN only if the dividend is. -/
theorem div_ne (hu : u ≠ .notANumber) (hv : isProper v = true) :
    u.div .binary64 v ≠ .notANumber := by
  cases v with
  | notANumber | infinity _ | zero _ => cases hv
  | finite _ _ _ _ =>
    cases u with
    | notANumber => exact absurd rfl hu
    | infinity _ | zero _ => nofun
    | finite _ _ _ _ => exact roundWithAccuracy_ne _ _ _ _

theorem neg_eq_notANumber_iff : u.neg = .notANumber ↔ u = .notANumber := by
  cases u <;> simp [UnpackedFloat.neg]

end Proper

/-! ### Decimal floats -/

theorem ofScientific_ne (m : Nat) (e : Int) :
    UnpackedFloat.ofScientific .binary64 m e ≠ .notANumber := by
  rw [UnpackedFloat.ofScientific]
  split_ifs
  · nofun
  · nofun
  · nofun
  · exact mul_ne nofun rfl
  · exact div_ne nofun rfl

theorem isProper_powersOfTen (e : Fin 23) :
    isProper (Float.exactlyRepresentablePowersOfTen[e]).toModel.unpack = true := by
  decide +revert

/-- **Decimal floats.** A number with a decimal exponent is not converted to NaN, whether it is
converted by one exact operation or not. -/
theorem unpack_ofScientific_ne (m : Nat) (negative : Bool) (e : Nat) :
    (Float.ofScientific m negative e).toModel.unpack ≠ .notANumber := by
  rw [Float.ofScientific]
  split
  · next h =>
    have hpower := isProper_powersOfTen ⟨e, Nat.lt_succ_of_le h.2⟩
    have hm : m.toUInt64.toFloat.toModel.unpack ≠ .notANumber :=
      mt repacked_eq_notANumber_iff.1 (normalize_ne _ _ _)
    cases negative with
    | false => exact mt repacked_eq_notANumber_iff.1 (mul_ne hm hpower)
    | true => exact mt repacked_eq_notANumber_iff.1 (div_ne hm hpower)
  · exact mt repacked_eq_notANumber_iff.1 (ofScientific_ne _ _)

/-! ### Powers of two -/

/-- The bits of a power of two in the range of normal floats: its exponent, and no fraction. -/
theorem powerOfTwo_of_normal {e : Int} {b : Nat} (hb : (b : Int) = e + 1023) (hlow : -1022 ≤ e)
    (hhigh : e ≤ 1023) : powerOfTwo e = Float.ofBits (UInt64.ofNat b <<< 52) := by
  have hassemble : powerOfTwo e = assemble false 1 e := by
    rw [powerOfTwo, if_neg (by omega), if_neg (by omega)]
  have htarget : max (e + (Nat.log2 1 : Int) - 52) (-1074) = e - 52 := by
    rw [show Nat.log2 1 = 0 from rfl]
    omega
  have hmantissa : (if e - 52 ≤ e then 1 * scale (e - (e - 52)).toNat
      else 1 / scale (e - 52 - e).toNat) = 0x10000000000000 := by
    rw [if_pos (by omega), show (e - (e - 52)).toNat = 52 by omega]
    rfl
  have hfraction : UInt64.ofNat 0x10000000000000 &&& 0xFFFFFFFFFFFFF = 0 := by decide
  rw [hassemble, assemble]
  simp only [htarget, hmantissa, hfraction, show (e - 52 + 1075).toNat = b by omega, lt_irrefl,
    one_ne_zero, Bool.false_eq_true, if_false, UInt64.or_zero, UInt64.zero_or]

/-- A word in which only bits of the exponent are set is packed from them. -/
theorem toBitVec_exponent {b : Nat} (hb : b < 2 ^ 11) : (UInt64.ofNat b <<< 52).toBitVec =
    packComponents .binary64 .positive (BitVec.ofNat 11 b) (BitVec.ofNat 52 0x10000000000000) := by
  have hword : (UInt64.ofNat b <<< 52).toNat = b <<< 52 := by
    rw [UInt64.toNat_shiftLeft, UInt64.toNat_ofNat', Nat.mod_eq_of_lt (a := b) (by omega)]
    change b <<< 52 % 2 ^ 64 = _
    rw [Nat.shiftLeft_eq, Nat.mod_eq_of_lt (by omega)]
  have happend : (packComponents .binary64 .positive (BitVec.ofNat 11 b)
      (BitVec.ofNat 52 0x10000000000000)).toNat = ((0 <<< 11 ||| b % 2 ^ 11) <<< 52 ||| 0) := by
    rw [packComponents, BitVec.toNat_append, BitVec.toNat_append, BitVec.toNat_ofNat]
    rfl
  refine BitVec.eq_of_toNat_eq (hword.trans (happend.trans ?_).symm)
  rw [Nat.mod_eq_of_lt hb, Nat.zero_shiftLeft, Nat.zero_or, Nat.or_zero]

/-- The powers of two that are neither too small nor too great are proper floats. -/
theorem isProper_powerOfTwo {e : Int} (hlow : -1023 ≤ e) (hhigh : e ≤ 1023) :
    isProper (powerOfTwo e).toModel.unpack = true := by
  rcases eq_or_lt_of_le hlow with rfl | hlt
  · decide
  · obtain ⟨b, hb⟩ := Int.eq_ofNat_of_zero_le (show 0 ≤ e + 1023 by omega)
    rw [powerOfTwo_of_normal hb.symm hlt hhigh, unpack_ofBits, toBitVec_exponent (by omega),
      unpack_packComponents (by decide) (by decide) (by omega) (by omega)]
    rfl

theorem unpack_powerOfTwo_of_lt {e : Int} (h : e < -1023) :
    (powerOfTwo e).toModel.unpack = .zero .positive := by
  rw [powerOfTwo, if_pos h]
  rfl

theorem unpack_powerOfTwo_of_gt {e : Int} (h : 1023 < e) :
    (powerOfTwo e).toModel.unpack = .infinity .positive := by
  rw [powerOfTwo, if_neg (by omega), if_pos h]
  rfl

/-! ### Products with powers of two -/

section Product

variable {x : Float} {w : Nat} {e : Int}

/-- **NaN as a product.** A natural number times a power of two is NaN if zero is multiplied with
infinity: the number with too great a power, or too great a number with the power. -/
theorem mul_powerOfTwo_eq_notANumber_iff (hx : Amounts x.toModel.unpack w) :
    (x * powerOfTwo e).toModel.unpack = .notANumber ↔
      w = 0 ∧ 1023 < e ∨ 2 ^ 1024 ≤ w ∧ e < -1023 := by
  have hproduct : (x * powerOfTwo e).toModel.unpack =
    repacked (x.toModel.unpack.mul .binary64 (powerOfTwo e).toModel.unpack) := rfl
  rw [hproduct, repacked_eq_notANumber_iff]
  rcases lt_or_ge e (-1023) with hlt | hge
  · rw [unpack_powerOfTwo_of_lt hlt, hx.mul_zero_eq_notANumber_iff]
    exact ⟨fun h => .inr ⟨h, hlt⟩, fun h => h.elim (fun h => absurd h.2 (by omega)) (·.1)⟩
  rcases lt_or_ge 1023 e with hgt | hle
  · rw [unpack_powerOfTwo_of_gt hgt, hx.mul_infinity_eq_notANumber_iff]
    exact ⟨fun h => .inl ⟨h, hgt⟩, fun h => h.elim (·.1) fun h => absurd h.2 (by omega)⟩
  · refine ⟨fun h => absurd h (mul_ne hx.ne_notANumber (isProper_powerOfTwo hge hle)), fun h => ?_⟩
    exact h.elim (fun h => absurd h.2 hle.not_gt) fun h => absurd h.2 hge.not_gt

/-- Zero times a power of two is zero, unless the power is too great. -/
theorem mul_powerOfTwo_of_zero (hx : Amounts x.toModel.unpack 0) (he : e ≤ 1023) :
    ∃ s, (x * powerOfTwo e).toModel.unpack = .zero s := by
  have hproduct : (x * powerOfTwo e).toModel.unpack =
    repacked (x.toModel.unpack.mul .binary64 (powerOfTwo e).toModel.unpack) := rfl
  rw [hproduct, hx.eq_zero]
  rcases lt_or_ge e (-1023) with hlt | hge
  · rw [unpack_powerOfTwo_of_lt hlt]
    exact ⟨_, repacked_zero _⟩
  · have hproper := isProper_powerOfTwo hge he
    cases hp : (powerOfTwo e).toModel.unpack with
    | finite s m e hm => exact ⟨_, repacked_zero _⟩
    | notANumber | infinity _ | zero _ =>
      rw [hp] at hproper
      cases hproper

end Product

end Binary64

/-! ### Hexadecimal floats -/

namespace Numeral

open Binary64 (Amounts mul_powerOfTwo_eq_notANumber_iff mul_powerOfTwo_of_zero)

variable {n : Numeral} {b : UInt8} {digits : List UInt8}

/-- The digits of a numeral, before and after the point. -/
def mantissa (n : Numeral) : List UInt8 := n.whole ++ n.fraction.getD []

/-- The binary exponent of a hexadecimal numeral: what is written, reduced to 64 bits. -/
def scale (n : Numeral) : Int := n.writtenExponent.bmod (2 ^ 64)

/-- The values of the digits are those below 16, and only one digit is zero. -/
theorem digitValue_of_isHexDigit (h : isHexDigit b = true) :
    digitValue b < 16 ∧ (digitValue b = 0 ↔ b = 0x30) := by
  revert b
  decide +kernel

/-- Only digits that are all zero denote zero. -/
theorem natValue_eq_zero_iff (hdigits : ∀ b ∈ digits, isHexDigit b = true) :
    natValue 16 digits = 0 ↔ ∀ b ∈ digits, b = 0x30 := by
  induction digits using List.reverseRecOn with
  | nil => exact ⟨nofun, fun _ => rfl⟩
  | append_singleton digits b ih =>
    have hb := (digitValue_of_isHexDigit (hdigits b (by simp))).2
    rw [natValue_concat, Nat.add_eq_zero_iff, Nat.mul_eq_zero, hb,
      ih fun b hb => hdigits b (List.mem_append_left _ hb)]
    simp [or_imp, forall_and]

theorem amounts_mantissa (hdigits : ∀ b ∈ n.mantissa, isHexDigit b = true) :
    Amounts (hexadecimalMantissa n.mantissa).toModel.unpack (roundedValue n.mantissa) :=
  amounts_hexadecimalMantissa fun b hb => (digitValue_of_isHexDigit (hdigits b hb)).1

/-- The exponent is brought to 32 bits before the power is taken, which makes no difference. -/
theorem hexadecimalFloat_eq (n : Numeral) : ∃ e : Int, (1023 < e ↔ 1023 < n.scale) ∧
    (e < -1023 ↔ n.scale < -1023) ∧
    hexadecimalFloat n = hexadecimalMantissa n.mantissa * Binary64.powerOfTwo e := by
  refine ⟨max (-0x80000000) (min n.scale 0x7FFFFFFF), by omega, by omega, ?_⟩
  rw [hexadecimalFloat, toInt_binaryExponent]
  rfl

/-- **NaN.** A hexadecimal float is NaN if its digits are zero and its exponent too great, or if its
digits are beyond all floats and its exponent too small. -/
theorem hexadecimalFloat_eq_notANumber_iff (hdigits : ∀ b ∈ n.mantissa, isHexDigit b = true) :
    (hexadecimalFloat n).toModel.unpack = .notANumber ↔
      (∀ b ∈ n.mantissa, b = 0x30) ∧ 1023 < n.scale ∨
        2 ^ 1024 - 2 ^ 970 ≤ natValue 16 n.mantissa ∧ n.scale < -1023 := by
  obtain ⟨e, hlarge, hsmall, heq⟩ := hexadecimalFloat_eq n
  have hinfinite : 2 ^ 1024 ≤ roundedValue n.mantissa ↔
      2 ^ 1024 - 2 ^ 970 ≤ natValue 16 n.mantissa :=
    two_pow_le_roundedValue_iff (fun b hb => (digitValue_of_isHexDigit (hdigits b hb)).1) rfl
  rw [heq, mul_powerOfTwo_eq_notANumber_iff (amounts_mantissa hdigits), hlarge, hsmall, hinfinite,
    roundedValue_eq_zero_iff, natValue_eq_zero_iff hdigits]

theorem hexadecimalFloat_of_zero (hdigits : ∀ b ∈ n.mantissa, b = 0x30) (hscale : n.scale ≤ 1023) :
    ∃ s, (hexadecimalFloat n).toModel.unpack = .zero s := by
  obtain ⟨e, hlarge, -, heq⟩ := hexadecimalFloat_eq n
  have hhex : ∀ b ∈ n.mantissa, isHexDigit b = true := fun b hb => hdigits b hb ▸ rfl
  have hamounts := amounts_mantissa hhex
  rw [roundedValue_eq_zero_iff.2 ((natValue_eq_zero_iff hhex).2 hdigits)] at hamounts
  rw [heq]
  exact mul_powerOfTwo_of_zero hamounts (by omega)

/-! ### Signs -/

theorem unpack_neg (x : Float) :
    (-x).toModel.unpack = Binary64.repacked x.toModel.unpack.neg := rfl

theorem applySign_eq_notANumber_iff {negative : Bool} {x : Float} :
    (applySign negative x).toModel.unpack = .notANumber ↔ x.toModel.unpack = .notANumber := by
  cases negative with
  | false => rfl
  | true =>
    rw [applySign, if_pos rfl, unpack_neg, Binary64.repacked_eq_notANumber_iff,
      Binary64.neg_eq_notANumber_iff]

theorem applySign_of_zero {negative : Bool} {x : Float}
    (h : ∃ s, x.toModel.unpack = .zero s) :
    ∃ s, (applySign negative x).toModel.unpack = .zero s := by
  obtain ⟨s, hs⟩ := h
  cases negative with
  | false => exact ⟨s, hs⟩
  | true =>
    rw [applySign, if_pos rfl, unpack_neg, hs]
    exact ⟨_, Binary64.repacked_zero _⟩

/-- **Floats.** Only hexadecimal floats can be NaN. -/
theorem floatValue_eq_notANumber_iff
    (hdigits : ∀ b ∈ n.mantissa, isDigit n.radix b = true) :
    n.floatValue.toModel.unpack = .notANumber ↔ n.radix = .hexadecimal ∧
      ((∀ b ∈ n.mantissa, b = 0x30) ∧ 1023 < n.scale ∨
        2 ^ 1024 - 2 ^ 970 ≤ natValue 16 n.mantissa ∧ n.scale < -1023) := by
  rw [floatValue, applySign_eq_notANumber_iff]
  cases hradix : n.radix with
  | decimal => exact ⟨fun h => absurd h (Binary64.unpack_ofScientific_ne _ _ _), nofun⟩
  | hexadecimal =>
    rw [hradix] at hdigits
    exact (hexadecimalFloat_eq_notANumber_iff hdigits).trans (and_iff_right rfl).symm

/-! ### Values -/

/-- The digits of a numeral that is written are digits of its radix. -/
theorem WrittenWithin.isDigit_mantissa {s : List UInt8} (h : n.WrittenWithin s) :
    ∀ b ∈ n.mantissa, isDigit n.radix b = true := by
  obtain ⟨_, _, _, -, -, -, hwritten⟩ := h
  exact fun b hb => (List.mem_append.1 hb).elim (hwritten.whole b) (hwritten.fraction b)

theorem isNaN_value_iff (hdigits : ∀ b ∈ n.mantissa, isDigit n.radix b = true) :
    n.value.IsNaN ↔ n.radix = .hexadecimal ∧ ¬n.DenotesInteger ∧
      ((∀ b ∈ n.mantissa, b = 0x30) ∧ 1023 < n.scale ∨
        2 ^ 1024 - 2 ^ 970 ≤ natValue 16 n.mantissa ∧ n.scale < -1023) := by
  by_cases hint : n.DenotesInteger
  · obtain ⟨i, hi⟩ := value_of_denotesInteger hint
    rw [hi]
    exact ⟨nofun, fun h => absurd hint h.2.1⟩
  · rw [value_of_not_denotesInteger hint, Number.isNaN_toBits_iff,
      floatValue_eq_notANumber_iff hdigits]
    exact and_congr_right fun _ => (and_iff_right hint).symm

/-- An integer whose digits are all zero is zero. -/
theorem value_of_zero_of_denotesInteger (hint : n.DenotesInteger) (hradix : n.radix = .hexadecimal)
    (hdigits : ∀ b ∈ n.mantissa, b = 0x30) : n.value = .integer 0 := by
  obtain ⟨hfraction, hexponent, -⟩ := hint
  obtain ⟨negative, radix, whole, fraction, exponent⟩ := n
  cases hfraction
  cases hexponent
  cases hradix
  have hwhole : ∀ b ∈ whole, b = 0x30 := fun b hb => hdigits b (List.mem_append_left _ hb)
  have hzero : natValue 16 whole = 0 :=
    (natValue_eq_zero_iff fun b hb => hwhole b hb ▸ rfl).2 hwhole
  rw [value, integerValue?_eq]
  simp only [wholeValue, hzero]
  cases negative <;> rfl

theorem value?_value_of_zero (hradix : n.radix = .hexadecimal)
    (hdigits : ∀ b ∈ n.mantissa, b = 0x30) :
    n.value.value? = some (ExtendedRational.ofRat 0) ↔ n.DenotesInteger ∨ n.scale ≤ 1023 := by
  by_cases hint : n.DenotesInteger
  · rw [value_of_zero_of_denotesInteger hint hradix hdigits]
    exact ⟨fun _ => .inl hint, fun _ => rfl⟩
  · rcases lt_or_ge 1023 n.scale with hlt | hge
    · have hhex : ∀ b ∈ n.mantissa, isDigit n.radix b = true := fun b hb => by
        rw [hradix, hdigits b hb]
        rfl
      have hnan := (isNaN_value_iff hhex).2 ⟨hradix, hint, .inl ⟨hdigits, hlt⟩⟩
      rw [Number.value?_eq_none_iff.2 hnan]
      exact ⟨nofun, fun h => (h.resolve_left hint).not_gt hlt |>.elim⟩
    · obtain ⟨s, hs⟩ := @applySign_of_zero n.negative _ (hexadecimalFloat_of_zero hdigits hge)
      have hfloat : n.floatValue = applySign n.negative (hexadecimalFloat n) := by
        rw [floatValue, hradix]
      rw [value_of_not_denotesInteger hint, hfloat]
      exact ⟨fun _ => .inr hge, fun _ => Binary64.value?_of_unpack_eq_zero hs⟩

end Numeral

namespace Number

open ExtendedRational (ofRat)
open Numeral (natValue)

/-- **The limits of hexadecimal floats.** A byte string is read as NaN exactly if it holds a
hexadecimal float whose digits are all zero and whose exponent is above 1023, or one whose digits
denote at least 2^1024 - 2^970 and whose exponent is below -1023.  A hexadecimal numeral whose
digits are all zero is therefore read as zero if it is an integer or its exponent is at most 1023.
The computation of the exponent leaves 64 bits exactly if there are more than 2^61 digits after the
point or the exponent as written is less than -2^63, and otherwise yields the exponent as written.
-/
theorem hexadecimal_floats_limits (s : ByteArray) :
    ((∃ v, read? s = some v ∧ v.IsNaN) ↔ ∃ n : Numeral, n.WrittenWithin s.toList ∧
      n.radix = .hexadecimal ∧ ¬n.DenotesInteger ∧
      ((∀ b ∈ n.mantissa, b = 0x30) ∧ 1023 < n.scale ∨
        2 ^ 1024 - 2 ^ 970 ≤ natValue 16 n.mantissa ∧ n.scale < -1023)) ∧
    (∀ n : Numeral, n.WrittenWithin s.toList → n.radix = .hexadecimal →
      (∀ b ∈ n.mantissa, b = 0x30) →
      ((∃ v, read? s = some v ∧ v.value? = some (ofRat 0)) ↔
        n.DenotesInteger ∨ n.scale ≤ 1023)) ∧
    (∀ n : Numeral,
      (n.checkedExponent? = none ↔
        2 ^ 61 < (n.fraction.getD []).length ∨ n.writtenExponent < -2 ^ 63) ∧
      ∀ e, n.checkedExponent? = some e → e = n.binaryExponent ∧ e.toInt = n.writtenExponent) := by
  have hread (n : Numeral) (hn : n.WrittenWithin s.toList) : read? s = some n.value :=
    read?_eq_some_iff.2 ⟨n, hn, rfl⟩
  refine ⟨⟨?_, ?_⟩, fun n hn hradix hdigits => ?_, fun n =>
    ⟨n.checkedExponent?_eq_none_iff, fun _ => Numeral.toInt_of_checkedExponent?⟩⟩
  · rintro ⟨v, hv, hnan⟩
    obtain ⟨n, hn, rfl⟩ := read?_eq_some_iff.1 hv
    exact ⟨n, hn, (Numeral.isNaN_value_iff hn.isDigit_mantissa).1 hnan⟩
  · rintro ⟨n, hn, h⟩
    exact ⟨n.value, hread n hn, (Numeral.isNaN_value_iff hn.isDigit_mantissa).2 h⟩
  · rw [hread n hn, ← Numeral.value?_value_of_zero hradix hdigits]
    simp only [Option.some_inj, exists_eq_left']

/-- The digit 0 with the greatest exponent of a finite power, and 257 digits F with an exponent
whose power is zero. -/
theorem hexadecimal_floats_limits_of_extremes :
    (∃ v, read? "0x0p1023".toUTF8 = some v ∧ v.value? = some (ofRat 0)) ∧
    (∃ v, read? ("0x" ++ String.ofList (List.replicate 257 'F') ++ "p-1024").toUTF8 = some v ∧
      v.IsNaN) ∧
    ∃ n : Numeral, n.checkedExponent? = some 1023 ∧ (1023 : Int64).toInt = n.writtenExponent := by
  have hsmall : "0x0p1023".toUTF8.toList = [0x30, 0x78, 0x30, 0x70, 0x31, 0x30, 0x32, 0x33] := by
    rw [ByteArray.toList_eq]
    decide +kernel
  have hlarge : ("0x" ++ String.ofList (List.replicate 257 'F') ++ "p-1024").toUTF8.toList =
      [0x30, 0x78] ++ (List.replicate 257 0x46 ++ [0x70, 0x2D, 0x31, 0x30, 0x32, 0x34]) := by
    rw [ByteArray.toList_eq]
    decide +kernel
  let small : Numeral :=
    { negative := false, radix := .hexadecimal, whole := [0x30], fraction := none,
      exponent := some ⟨false, [0x31, 0x30, 0x32, 0x33]⟩ }
  let large : Numeral :=
    { negative := false, radix := .hexadecimal, whole := List.replicate 257 0x46, fraction := none,
      exponent := some ⟨true, [0x31, 0x30, 0x32, 0x34]⟩ }
  have hexponent : Numeral.ExponentText .hexadecimal large.exponent
      [0x70, 0x2D, 0x31, 0x30, 0x32, 0x34] :=
    @Numeral.ExponentText.present .hexadecimal 0x70 [0x2D] ⟨true, [0x31, 0x30, 0x32, 0x34]⟩ rfl
      .minus nofun (by decide +kernel)
  have hsmallWritten : small.WrittenWithin "0x0p1023".toUTF8.toList :=
    Numeral.parse?_eq_some_iff.1 (hsmall ▸ rfl)
  have hlargeWritten : large.WrittenWithin
      ("0x" ++ String.ofList (List.replicate 257 'F') ++ "p-1024").toUTF8.toList :=
    ⟨[], _, [], hlarge.trans (List.append_nil _).symm, nofun, nofun, by decide +kernel, nofun,
      nofun, [], [0x30, 0x78], _, .absent, .lower, hexponent, rfl⟩
  have h := hexadecimal_floats_limits "0x0p1023".toUTF8
  have h' := hexadecimal_floats_limits
    ("0x" ++ String.ofList (List.replicate 257 'F') ++ "p-1024").toUTF8
  exact ⟨(h.2.1 small hsmallWritten rfl (by decide +kernel)).2 (.inr (by decide +kernel)),
    h'.1.2 ⟨large, hlargeWritten, rfl, nofun, .inr ⟨by decide +kernel, by decide +kernel⟩⟩,
    small, by decide +kernel, ((h.2.2 small).2 1023 (by decide +kernel)).2⟩

/-- The digit 0 with the exponent 1024 is read as NaN, and the exponent of one digit after the point
with the exponent 1 - 10^19 leaves 64 bits. -/
theorem hexadecimal_zero_read_as_nan :
    (read? "0x0p1024".toUTF8 = some (.float 0x7FF8000000000000) ∧
      IsNaN (.float 0x7FF8000000000000)) ∧
    (∃ n : Numeral, n.WrittenWithin "0x0p1024".toUTF8.toList ∧ n.radix = .hexadecimal ∧
      (∀ b ∈ n.mantissa, b = 0x30) ∧ n.value.value? = none) ∧
    ∃ n : Numeral, n.WrittenWithin "0x.1p-9999999999999999999".toUTF8.toList ∧
      n.radix = .hexadecimal ∧ n.checkedExponent? = none := by
  have hnan : "0x0p1024".toUTF8.toList = [0x30, 0x78, 0x30, 0x70, 0x31, 0x30, 0x32, 0x34] := by
    rw [ByteArray.toList_eq]
    decide +kernel
  have hlimit : "0x.1p-9999999999999999999".toUTF8.toList =
      [0x30, 0x78, 0x2E, 0x31, 0x70, 0x2D] ++ List.replicate 19 0x39 := by
    rw [ByteArray.toList_eq]
    decide +kernel
  have hread : read? "0x0p1024".toUTF8 = some (.float 0x7FF8000000000000) := by
    rw [read?, hnan]
    decide +kernel
  refine ⟨⟨hread, false, rfl⟩,
    ⟨{ negative := false, radix := .hexadecimal, whole := [0x30], fraction := none,
        exponent := some ⟨false, [0x31, 0x30, 0x32, 0x34]⟩ },
      Numeral.parse?_eq_some_iff.1 ?_, rfl, by decide +kernel, by decide +kernel⟩,
    { negative := false, radix := .hexadecimal, whole := [], fraction := some [0x31],
      exponent := some ⟨true, List.replicate 19 0x39⟩ },
    Numeral.parse?_eq_some_iff.1 ?_, rfl, by decide +kernel⟩
  · rw [hnan]
    rfl
  · rw [hlimit]
    rfl

end Number

end LuaMachine
