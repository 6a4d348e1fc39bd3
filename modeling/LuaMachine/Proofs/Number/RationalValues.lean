import LuaMachine.Number.Numeral
import LuaMachine.Proofs.Number.Denotation

/-!
# The rational values of numbers

Every number but NaN has a value: an integer itself, a finite float the rational number
`± m · 2 ^ e`, and an infinity one of the two ends of the order.  Values are compared exactly.

An integer and a float compare as their values do, and so do two floats.  The latter are compared
field by field, first the exponents and then the mantissas, which is right because the mantissa of
a float has 53 bits unless its exponent is the least one.

## Main definitions

* `ExtendedRational` : the rational numbers and two infinities.
* `Binary64.value?`, `Number.value?` : the value of a float and of a number.
* `Number.order?` : how the values of two numbers stand to each other.
* `Number.Related` : the values of two numbers stand in a relation.
* `Number.IsNaN` : the number is NaN.
* `Binary64.FullWidth` : the mantissa is as wide as its exponent demands.

## Main statements

* `Binary64.compareInt_eq` : integers and floats compare by value.
* `Binary64.compare_unpack` : floats compare by value.
* `Binary64.toInt64?_eq_some_iff`, `Binary64.compareInt_eq_eq_iff` : a float equals an integer if
  their values are the same.
-/

namespace LuaMachine

open Float.Model (UnpackedFloat)
open Float.Model.UnpackedFloat (unpack)

/-- The rational numbers with an infinity at either end. -/
abbrev ExtendedRational := WithBot (WithTop ℚ)

/-- A rational number among the extended ones. -/
def ExtendedRational.ofRat (q : ℚ) : ExtendedRational := ((q : WithTop ℚ) : WithBot (WithTop ℚ))

namespace ExtendedRational

theorem strictMono_ofRat : StrictMono ofRat := fun _ _ h =>
  WithBot.coe_lt_coe.2 (WithTop.coe_lt_coe.2 h)

theorem cmp_ofRat (p q : ℚ) : cmp (ofRat p) (ofRat q) = cmp p q :=
  strictMono_ofRat.cmp_map_eq p q

theorem ofRat_lt_top (q : ℚ) : ofRat q < ⊤ := WithBot.coe_lt_coe.2 (WithTop.coe_lt_top q)

theorem bot_lt_ofRat (q : ℚ) : ⊥ < ofRat q := WithBot.bot_lt_coe _

theorem cmp_of_lt {x y : ExtendedRational} (h : x < y) : cmp x y = .lt := (cmp_eq_lt_iff x y).2 h

theorem cmp_of_gt {x y : ExtendedRational} (h : y < x) : cmp x y = .gt := (cmp_eq_gt_iff x y).2 h

end ExtendedRational

open ExtendedRational (ofRat cmp_ofRat cmp_of_lt cmp_of_gt ofRat_lt_top bot_lt_ofRat)

namespace Binary64

/-- The rational number `± m · 2 ^ e`. -/
def rational (negative : Bool) (m : Nat) (e : Int) : ℚ := signed negative m * 2 ^ e

/-- The value of a float.  NaN has none, and the two zeros have the same. -/
def value? : Binary64 → Option ExtendedRational
  | .nan _ => none
  | .infinity true => some ⊥
  | .infinity false => some ⊤
  | .finite negative m e => some (ofRat (rational negative m e))

theorem value?_canonical (x : Binary64) : x.canonical.value? = x.value? := by
  cases x <;> rfl

theorem value?_eq_none_iff {x : Binary64} : x.value? = none ↔ ∃ negative, x = .nan negative := by
  rcases x with _ | (_ | _) | _ <;> simp [value?]

/-! ### Integers and floats -/

theorem rational_eq_div (negative : Bool) (m : Nat) (e : Int) :
    rational negative m e =
      ((signed negative m * scale e.toNat : Int) : ℚ) / ((scale (-e).toNat : Int) : ℚ) := by
  have hpow (n : Nat) : ((scale n : Int) : ℚ) = 2 ^ n := by
    rw [scale, Int.cast_natCast]
    exact Nat.cast_pow 2 n
  rw [rational, Int.cast_mul, hpow, hpow, mul_div_assoc, ← zpow_natCast, ← zpow_natCast,
    ← zpow_sub₀ two_ne_zero]
  congr 2
  omega

/-- **Integers and floats.** An integer stands to a float as it does to the value of the float. -/
theorem compareInt_eq (i : Int) (x : Binary64) :
    x.compareInt i = x.value?.map (cmp (ofRat i)) := by
  rcases x with negative | (_ | _) | ⟨negative, m, e⟩
  · rfl
  · exact congrArg some (cmp_of_lt (ofRat_lt_top i)).symm
  · exact congrArg some (cmp_of_gt (bot_lt_ofRat i)).symm
  · have hpos : (0 : ℚ) < ((scale (-e).toNat : Int) : ℚ) :=
      Int.cast_pos.2 (Int.natCast_pos.2 (scale_pos _))
    rw [compareInt, value?, Option.map_some, cmp_ofRat, rational_eq_div,
      ← cmp_mul_pos_right hpos (i : ℚ), div_mul_cancel₀ _ hpos.ne', ← Int.cast_mul,
      Int.cast_strictMono.cmp_map_eq, cmp_eq_compare]

/-- A float is its own floor and ceiling if it equals an integer. -/
theorem toInt?_eq_some_iff {x : Binary64} {z : Int} :
    x.toInt? = some z ↔ x.compareInt z = some .eq := by
  rcases x with negative | (_ | _) | ⟨negative, m, e⟩
  · exact ⟨nofun, nofun⟩
  · exact ⟨nofun, nofun⟩
  · exact ⟨nofun, nofun⟩
  · obtain ⟨n, d, h⟩ := isQuotient_finite negative m e
    rw [toInt?, h.floor?_eq, h.ceil?_eq, h.compareInt_eq, Option.some_inj, Int.compare_eq_eq]
    dsimp only
    constructor
    · intro heq
      split at heq
      · next hround =>
        obtain rfl := Option.some.inj heq
        have hlow := (h.le_floor_iff h.floor?_eq).1 le_rfl
        have hhigh := (h.ceil_le_iff h.ceil?_eq).1 hround.ge
        exact le_antisymm (h.atMost_iff.1 hlow) (h.atLeast_iff.1 hhigh)
      · nomatch heq
    · rintro rfl
      rw [Int.mul_ediv_cancel _ h.pos.ne', ← Int.neg_mul, Int.mul_ediv_cancel _ h.pos.ne',
        Int.neg_neg, if_pos rfl]

theorem toInt64?_eq_some_iff {x : Binary64} {i : Int64} :
    x.toInt64? = some i ↔ x.compareInt i.toInt = some .eq := by
  rw [← toInt?_eq_some_iff, toInt64?, Option.bind_eq_some_iff]
  constructor
  · rintro ⟨z, hz, hword⟩
    rwa [word?_eq_some_iff.1 hword]
  · exact fun h => ⟨_, h, word?_eq_some_iff.2 rfl⟩

/-- **Floats with integer values.** A float is equal to an integer if the integer is its value. -/
theorem compareInt_eq_eq_iff {x : Binary64} {z : Int} :
    x.compareInt z = some .eq ↔ x.value? = some (ofRat z) := by
  rw [compareInt_eq, Option.map_eq_some_iff]
  constructor
  · rintro ⟨v, hv, heq⟩
    rw [hv, (cmp_eq_eq_iff _ _).1 heq]
  · exact fun hv => ⟨_, hv, cmp_self_eq_eq _⟩

/-! ### The width of mantissas -/

/-- A mantissa has at most 53 bits, and fewer only with the least exponent. -/
structure FullWidth (m : Nat) (e : Int) : Prop where
  lt : m < 2 ^ 53
  le_exponent : -1074 ≤ e
  le_of_lt : -1074 < e → 2 ^ 52 ≤ m

/-- The fields of a float have the width of its format. -/
theorem fullWidth_of_ofBits {bits : UInt64} {negative : Bool} {m : Nat} {e : Int}
    (h : ofBits bits = .finite negative m e) : FullWidth m e := by
  have hfraction : (bits &&& 0xFFFFFFFFFFFFF).toNat < 2 ^ 52 := by
    rw [UInt64.toNat_and]
    exact Nat.and_lt_two_pow _ (by decide)
  simp only [ofBits] at h
  split at h
  · split at h <;> cases h
  · split at h
    · cases h
      exact ⟨by omega, le_rfl, fun hlt => absurd hlt (lt_irrefl _)⟩
    · cases h
      exact ⟨by omega, by omega, fun _ => by omega⟩

theorem rational_true (m : Nat) (e : Int) : rational true m e = -rational false m e := by
  simp [rational, signed]

theorem rational_zero (negative : Bool) (e : Int) : rational negative 0 e = 0 := by
  cases negative <;> simp [rational, signed]

theorem rational_pos {m : Nat} (hm : 0 < m) (e : Int) : 0 < rational false m e :=
  mul_pos (Int.cast_pos.2 (Int.natCast_pos.2 hm)) (zpow_pos two_pos e)

theorem rational_neg {m : Nat} (hm : 0 < m) (e : Int) : rational true m e < 0 :=
  rational_true m e ▸ neg_neg_of_pos (rational_pos hm e)

/-- A greater exponent makes a greater number. -/
theorem FullWidth.rational_lt {m₁ m₂ : Nat} {e₁ e₂ : Int} (h₁ : FullWidth m₁ e₁)
    (h₂ : FullWidth m₂ e₂) (he : e₁ < e₂) : rational false m₁ e₁ < rational false m₂ e₂ := by
  have hm₁ : (m₁ : ℚ) < 2 ^ 53 := by exact_mod_cast h₁.lt
  have hm₂ : (2 : ℚ) ^ 52 ≤ m₂ := by
    exact_mod_cast h₂.le_of_lt (lt_of_le_of_lt h₁.le_exponent he)
  have hpow : (2 : ℚ) ^ (e₁ + 1) ≤ 2 ^ e₂ := zpow_le_zpow_right₀ one_le_two he
  calc rational false m₁ e₁
    _ = m₁ * 2 ^ e₁ := by simp [rational, signed]
    _ < 2 ^ 53 * 2 ^ e₁ := mul_lt_mul_of_pos_right hm₁ (zpow_pos two_pos e₁)
    _ = 2 ^ 52 * 2 ^ (e₁ + 1) := by rw [zpow_add_one₀ two_ne_zero]; ring
    _ ≤ m₂ * 2 ^ e₂ := mul_le_mul hm₂ hpow (zpow_pos two_pos _).le (Nat.cast_nonneg m₂)
    _ = rational false m₂ e₂ := by simp [rational, signed]

/-- **Fields in order.** Exponents and then mantissas order the numbers that they make. -/
theorem FullWidth.compare_eq {m₁ m₂ : Nat} {e₁ e₂ : Int} (h₁ : FullWidth m₁ e₁)
    (h₂ : FullWidth m₂ e₂) :
    (compare e₁ e₂).then (compare m₁ m₂) = cmp (rational false m₁ e₁) (rational false m₂ e₂) := by
  rcases lt_trichotomy e₁ e₂ with he | rfl | he
  · rw [Int.compare_eq_lt.2 he, (cmp_eq_lt_iff _ _).2 (h₁.rational_lt h₂ he)]
    rfl
  · have hpos : (0 : ℚ) < 2 ^ e₁ := zpow_pos two_pos e₁
    have hcast (m : Nat) : rational false m e₁ = (m : ℚ) * 2 ^ e₁ := by simp [rational, signed]
    rw [Int.compare_eq_eq.2 rfl, hcast, hcast, cmp_mul_pos_right hpos,
      Nat.strictMono_cast.cmp_map_eq, cmp_eq_compare]
    rfl
  · rw [Int.compare_eq_gt.2 he, (cmp_eq_gt_iff _ _).2 (h₂.rational_lt h₁ he)]
    rfl

theorem cmp_neg (p q : ℚ) : cmp (-p) (-q) = (cmp p q).swap := by
  rw [cmp_swap, ← mul_neg_one p, ← mul_neg_one q, cmp_mul_neg_right neg_one_lt_zero]

/-! ### Floats among themselves -/

/-- The fields of an unpacked float have the width of the format. -/
def Wide : UnpackedFloat → Prop
  | .finite _ m e _ => FullWidth m e
  | _ => True

/-- Unpacking the bits of a float yields fields of the width of the format. -/
theorem wide_unpack (bits : UInt64) : Wide (unpack .binary64 bits.toBitVec) := by
  have h := ofUnpacked_unpack bits
  cases hu : unpack .binary64 bits.toBitVec with
  | finite s m e hm =>
    rw [hu] at h
    cases hx : ofBits bits with
    | finite negative m' e' =>
      rw [hx] at h
      cases h
      exact fullWidth_of_ofBits hx
    | nan _ | infinity _ => rw [hx] at h; nomatch h
  | notANumber | infinity _ | zero _ => trivial

/-- The rational number that an unpacked float denotes, if it is finite. -/
def finite? : UnpackedFloat → Option ℚ
  | .zero _ => some 0
  | .finite s m e _ => some (rational (isNegative s) m e)
  | _ => none

theorem value?_ofUnpacked {u : UnpackedFloat} {p : ℚ} (h : finite? u = some p) :
    (ofUnpacked u).value? = some (ofRat p) := by
  cases u with
  | notANumber | infinity _ => nomatch h
  | zero s =>
    cases h
    rw [ofUnpacked, value?, rational_zero]
  | finite s m e hm =>
    cases h
    rfl

/-- Finite floats compare by value: by their signs, and those with the same sign by their fields. -/
theorem compare_of_finite {u v : UnpackedFloat} {p q : ℚ} (hu : Wide u) (hv : Wide v)
    (hp : finite? u = some p) (hq : finite? v = some q) : u.compare v = some (cmp p q) := by
  have hlt {p q : ℚ} (h : p < q) : some Ordering.lt = some (cmp p q) :=
    congrArg some ((cmp_eq_lt_iff p q).2 h).symm
  have hgt {p q : ℚ} (h : q < p) : some Ordering.gt = some (cmp p q) :=
    congrArg some ((cmp_eq_gt_iff p q).2 h).symm
  cases u with
  | notANumber | infinity _ => nomatch hp
  | zero s =>
    cases hp
    cases v with
    | notANumber | infinity _ => nomatch hq
    | zero s' =>
      cases hq
      rw [cmp_self_eq_eq]
      rfl
    | finite s' m' e' hm' =>
      cases hq
      cases s' with
      | negative => exact hgt (rational_neg hm' e')
      | positive => exact hlt (rational_pos hm' e')
  | finite s m e hm =>
    cases hp
    cases v with
    | notANumber | infinity _ => nomatch hq
    | zero s' =>
      cases hq
      cases s with
      | negative => exact hlt (rational_neg hm e)
      | positive => exact hgt (rational_pos hm e)
    | finite s' m' e' hm' =>
      cases hq
      cases s with
      | positive =>
        cases s' with
        | positive => exact congrArg some (FullWidth.compare_eq hu hv)
        | negative => exact hgt ((rational_neg hm' e').trans (rational_pos hm e))
      | negative =>
        cases s' with
        | positive => exact hlt ((rational_neg hm e).trans (rational_pos hm' e'))
        | negative =>
          rw [isNegative, rational_true, rational_true, cmp_neg, ← FullWidth.compare_eq hu hv]
          rfl

/-- Unpacked floats compare by value. -/
theorem compare_ofUnpacked {u v : UnpackedFloat} (hu : Wide u) (hv : Wide v) :
    u.compare v = (ofUnpacked u).value?.bind fun x => (ofUnpacked v).value?.map (cmp x) := by
  have hfinite {p q : ℚ} (hp : finite? u = some p) (hq : finite? v = some q) :
      u.compare v = (ofUnpacked u).value?.bind fun x => (ofUnpacked v).value?.map (cmp x) := by
    rw [compare_of_finite hu hv hp hq, value?_ofUnpacked hp, value?_ofUnpacked hq,
      Option.bind_some, Option.map_some, cmp_ofRat]
  -- an infinity and a finite float are told apart by what kind of float they are
  cases u with
  | notANumber => rfl
  | infinity s =>
    cases s <;> cases v with
    | infinity s' => cases s' <;> rfl
    | notANumber | zero _ | finite _ _ _ _ => rfl
  | zero s =>
    cases v with
    | notANumber => rfl
    | infinity s' => cases s' <;> rfl
    | zero _ | finite _ _ _ _ => exact hfinite rfl rfl
  | finite s m e hm =>
    cases v with
    | notANumber => rfl
    | infinity s' => cases s' <;> rfl
    | zero _ | finite _ _ _ _ => exact hfinite rfl rfl

/-- **Floats.** The bits of floats compare as the values that they denote. -/
theorem compare_unpack (a b : UInt64) :
    (unpack .binary64 a.toBitVec).compare (unpack .binary64 b.toBitVec) =
      (ofBits a).value?.bind fun x => (ofBits b).value?.map (cmp x) := by
  rw [compare_ofUnpacked (wide_unpack a) (wide_unpack b), ofUnpacked_unpack, ofUnpacked_unpack,
    value?_canonical, value?_canonical]

theorem value?_of_unpack_eq_zero {bits : UInt64} {s : UnpackedFloat.Sign}
    (h : unpack .binary64 bits.toBitVec = .zero s) : (ofBits bits).value? = some (ofRat 0) := by
  rw [← value?_canonical, ← ofUnpacked_unpack, h]
  exact value?_ofUnpacked rfl

end Binary64

/-! ### Numbers -/

namespace Number

/-- The value of a number.  Only NaN has none. -/
def value? : Number → Option ExtendedRational
  | .integer i => some (ofRat i.toInt)
  | .float bits => (Binary64.ofBits bits).value?

/-- How the values of two numbers stand to each other. -/
def order? (a b : Number) : Option Ordering := a.value?.bind fun x => b.value?.map (cmp x)

/-- The values of two numbers stand in a relation.  NaN, which has no value, stands in none. -/
def Related (r : ExtendedRational → ExtendedRational → Prop) (a b : Number) : Prop :=
  ∃ x ∈ a.value?, ∃ y ∈ b.value?, r x y

/-- The number is NaN. -/
def IsNaN : Number → Prop
  | .integer _ => False
  | .float bits => ∃ negative, Binary64.ofBits bits = .nan negative

variable {a b : Number} {i j : Int64} {bits : UInt64}

theorem value?_eq_none_iff : a.value? = none ↔ a.IsNaN := by
  cases a with
  | integer i => exact ⟨nofun, nofun⟩
  | float bits => exact Binary64.value?_eq_none_iff

/-- A float is NaN if it is unpacked as such. -/
theorem isNaN_toBits_iff (x : Float) :
    IsNaN (.float x.toBits) ↔ x.toModel.unpack = .notANumber := by
  have h : Binary64.ofUnpacked x.toModel.unpack = (Binary64.ofBits x.toBits).canonical :=
    Binary64.ofUnpacked_unpack x.toBits
  rw [IsNaN]
  constructor
  · rintro ⟨negative, hnan⟩
    rw [hnan] at h
    cases hu : x.toModel.unpack with
    | notANumber => rfl
    | infinity _ | zero _ | finite _ _ _ _ =>
      rw [hu] at h
      nomatch h
  · intro hu
    rw [hu] at h
    cases hx : Binary64.ofBits x.toBits with
    | nan negative => exact ⟨negative, rfl⟩
    | infinity _ | finite _ _ _ =>
      rw [hx] at h
      nomatch h

theorem order?_eq_some_iff {o : Ordering} :
    a.order? b = some o ↔ ∃ x ∈ a.value?, ∃ y ∈ b.value?, cmp x y = o := by
  simp only [order?, Option.bind_eq_some_iff, Option.map_eq_some_iff, Option.mem_def]

theorem related_lt_iff : a.Related (· < ·) b ↔ a.order? b = some .lt := by
  simp only [order?_eq_some_iff, Related, cmp_eq_lt_iff]

theorem related_eq_iff : a.Related (· = ·) b ↔ a.order? b = some .eq := by
  simp only [order?_eq_some_iff, Related, cmp_eq_eq_iff]

theorem related_le_iff : a.Related (· ≤ ·) b ↔ a.order? b = some .lt ∨ a.order? b = some .eq := by
  rw [← related_lt_iff, ← related_eq_iff]
  constructor
  · rintro ⟨x, hx, y, hy, hle⟩
    exact hle.lt_or_eq.imp (⟨x, hx, y, hy, ·⟩) (⟨x, hx, y, hy, ·⟩)
  · rintro (⟨x, hx, y, hy, hlt⟩ | ⟨x, hx, y, hy, heq⟩)
    · exact ⟨x, hx, y, hy, hlt.le⟩
    · exact ⟨x, hx, y, hy, heq.le⟩

theorem Related.trans {r : ExtendedRational → ExtendedRational → Prop} [IsTrans _ r] {c : Number}
    (hab : a.Related r b) (hbc : b.Related r c) : a.Related r c := by
  obtain ⟨x, hx, y, hy, hxy⟩ := hab
  obtain ⟨y', hy', z, hz, hyz⟩ := hbc
  cases Option.mem_unique hy hy'
  exact ⟨x, hx, z, hz, IsTrans.trans x y z hxy hyz⟩

theorem order?_of_isNaN (h : a.IsNaN ∨ b.IsNaN) : a.order? b = none := by
  rw [← value?_eq_none_iff, ← value?_eq_none_iff] at h
  rcases h with ha | hb
  · rw [order?, ha, Option.bind_none]
  · rw [order?, hb]
    exact Option.bind_fun_none _

/-- The values of two numbers that are not NaN are ordered. -/
theorem exists_order? (ha : ¬a.IsNaN) (hb : ¬b.IsNaN) : ∃ o, a.order? b = some o := by
  rw [← value?_eq_none_iff, ← ne_eq, Option.ne_none_iff_exists'] at ha hb
  obtain ⟨x, hx⟩ := ha
  obtain ⟨y, hy⟩ := hb
  exact ⟨cmp x y, order?_eq_some_iff.2 ⟨x, hx, y, hy, rfl⟩⟩

theorem order?_eq_eq_iff (ha : ¬a.IsNaN) : a.order? b = some .eq ↔ a.value? = b.value? := by
  obtain ⟨x, hx⟩ := Option.ne_none_iff_exists'.1 (mt value?_eq_none_iff.1 ha)
  rw [order?, hx, Option.bind_some, Option.map_eq_some_iff, eq_comm (a := some x)]
  simp only [cmp_eq_eq_iff, exists_eq_right']

theorem order?_swap : (a.order? b).map Ordering.swap = b.order? a := by
  rw [order?, order?]
  cases a.value? <;> cases b.value? <;> try rfl
  exact congrArg some (cmp_swap ..)

theorem order?_integer : order? (.integer i) (.integer j) = some (compare i.toInt j.toInt) := by
  rw [order?, value?, value?, Option.bind_some, Option.map_some, cmp_ofRat,
    Int.cast_strictMono.cmp_map_eq, cmp_eq_compare]

theorem order?_integer_float :
    order? (.integer i) (.float bits) = (Binary64.ofBits bits).compareInt i.toInt :=
  (Binary64.compareInt_eq i.toInt _).symm

theorem order?_float (a b : UInt64) : order? (.float a) (.float b) =
    (Float.ofBits a).toModel.unpack.compare (Float.ofBits b).toModel.unpack := by
  rw [Binary64.unpack_ofBits, Binary64.unpack_ofBits, Binary64.compare_unpack]
  rfl

end Number

end LuaMachine
