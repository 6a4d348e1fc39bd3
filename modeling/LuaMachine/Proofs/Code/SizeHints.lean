import LuaMachine.Code.SizeHint
import Mathlib.Algebra.Order.Floor.Div
import Mathlib.Order.Bounds.Basic
import Mathlib.Order.Monotone.Basic

/-!
# Size hints are rounded up

A size hint is a byte that stands for `z * 2 ^ e` with `z` from 8 to 15, or for a number below 8.
Encoding divides by powers of two, rounding up, until `z` is found.  Quotients that are rounded up
compose, so that `z` is the size divided by `2 ^ e` and rounded up once; and since a division takes
place only while the number is large, a smaller `e` would leave more than 15.  So the byte stands for
the least size that has a byte and is not below the given one.

The addition that rounds up must not overflow.  It does for the fifteen greatest sizes of 32 bits,
for which the first quotient is then zero and what comes out is no byte at all.

## Main definitions

* `SizeHint.sizeOf` : the size that a byte stands for, as a natural number.
* `SizeHint.Rounds` : repeated division in arithmetic that must not overflow.
* `SizeHint.Encodes` : encoding in such arithmetic.
* `SizeHint.Scaled` : what one division keeps.

## Main statements

* `SizeHint.Rounds.scaled` : a run of divisions is one division, with the least exponent.
* `SizeHint.Encodes.isLeast` : what is computed without overflow.
* `SizeHint.encode_rounds_up` : for which sizes the sum overflows, and what encoding yields.
-/

namespace LuaMachine.SizeHint

variable {x y z e f k n b : Nat}

/-! ### Sizes that have a byte -/

/-- The size that the byte `n` stands for. -/
def sizeOf (n : Nat) : Nat := if n < 8 then n else (n % 8 + 8) * 2 ^ (n / 8 - 1)

theorem sizeOf_of_lt (h : n < 8) : sizeOf n = n := if_pos h

theorem sizeOf_of_le (h : 8 ≤ n) : sizeOf n = (n % 8 + 8) * 2 ^ (n / 8 - 1) :=
  if_neg (Nat.not_lt.2 h)

/-- The byte with exponent and mantissa. -/
theorem sizeOf_byte (hlow : 8 ≤ z) (hhigh : z < 16) (e : Nat) :
    sizeOf (8 * (e + 1) + (z - 8)) = z * 2 ^ e := by
  have hz : (8 * (e + 1) + (z - 8)) % 8 + 8 = z := by omega
  have he : (8 * (e + 1) + (z - 8)) / 8 - 1 = e := by omega
  rw [sizeOf_of_le (by omega), hz, he]

/-- Greater bytes stand for greater sizes. -/
theorem strictMono_sizeOf : StrictMono sizeOf := by
  refine strictMono_nat_of_lt_succ fun n => ?_
  by_cases hn : n < 8
  · by_cases hn' : n + 1 < 8
    · rw [sizeOf_of_lt hn, sizeOf_of_lt hn']
      exact Nat.lt_succ_self n
    · obtain rfl : n = 7 := by omega
      rw [sizeOf_of_lt hn, sizeOf_of_le (Nat.not_lt.1 hn')]
      decide
  · have hpos := Nat.two_pow_pos (n / 8 - 1)
    rw [sizeOf_of_le (by omega), sizeOf_of_le (by omega)]
    by_cases hlast : n % 8 = 7
    · -- The mantissa starts again, with the next exponent.
      have hexponent : (n + 1) / 8 - 1 = n / 8 - 1 + 1 := by omega
      rw [hlast, show (n + 1) % 8 = 0 by omega, hexponent, Nat.pow_succ]
      omega
    · rw [show (n + 1) % 8 = n % 8 + 1 by omega, show (n + 1) / 8 = n / 8 by omega]
      exact Nat.mul_lt_mul_of_pos_right (by omega) hpos

/-- No bit is lost when a byte is decoded. -/
theorem toNat_decode {y : UInt32} (h : y ≤ 255) : (decode y).toNat = sizeOf y.toNat := by
  have hy : y.toNat ≤ 255 := UInt32.le_iff_toNat_le.1 h
  have height : y < 8 ↔ y.toNat < 8 := UInt32.lt_iff_toNat_lt
  by_cases hlow : y.toNat < 8
  · rw [decode, if_pos (height.2 hlow), sizeOf_of_lt hlow, UInt32.toNat_toUInt64]
  · have hmantissa : ((y &&& 7) + 8).toUInt64.toNat = y.toNat % 8 + 8 := by
      have hand : (y &&& 7).toNat = y.toNat % 8 := by
        rw [UInt32.toNat_and]
        exact Nat.and_two_pow_sub_one_eq_mod _ 3
      rw [UInt32.toNat_toUInt64, UInt32.toNat_add, hand]
      exact Nat.mod_eq_of_lt (by change y.toNat % 8 + 8 < 2 ^ 32; omega)
    have hexponent : ((y >>> 3) - 1).toUInt64.toNat = y.toNat / 8 - 1 := by
      have hshift : (y >>> 3).toNat = y.toNat / 8 := by
        rw [UInt32.toNat_shiftRight]
        exact Nat.shiftRight_eq_div_pow ..
      rw [UInt32.toNat_toUInt64, UInt32.toNat_sub_of_le, hshift]
      · rfl
      · rw [UInt32.le_iff_toNat_le, hshift]
        change 1 ≤ y.toNat / 8
        omega
    have hfit : (y.toNat % 8 + 8) * 2 ^ (y.toNat / 8 - 1) < 2 ^ 64 :=
      calc (y.toNat % 8 + 8) * 2 ^ (y.toNat / 8 - 1)
        _ ≤ 15 * 2 ^ 30 :=
          Nat.mul_le_mul (by omega) (Nat.pow_le_pow_right Nat.two_pos (by omega))
        _ < 2 ^ 64 := by decide
    rw [decode, if_neg (height.not.2 hlow), sizeOf_of_le (Nat.not_lt.1 hlow), UInt64.toNat_shiftLeft,
      hmantissa, hexponent, Nat.mod_eq_of_lt (by omega : y.toNat / 8 - 1 < 64), Nat.shiftLeft_eq,
      Nat.mod_eq_of_lt hfit]

/-! ### Repeated division -/

/-- Division by `2 ^ k`, rounding up, while the number is `8 * 2 ^ k` or more; each time `k` places
are counted.  It ends with the number `y` and `f` places, and no sum leaves the 32 bits. -/
inductive Rounds (k : Nat) : Nat → Nat → Nat → Nat → Prop
  | done {x e : Nat} (h : x < 8 * 2 ^ k) : Rounds k x e x e
  | step {x e y f : Nat} (h : 8 * 2 ^ k ≤ x) (hsum : x + (2 ^ k - 1) < 2 ^ 32)
      (hcount : e + k < 2 ^ 32) (rest : Rounds k ((x + (2 ^ k - 1)) / 2 ^ k) (e + k) y f) :
      Rounds k x e y f

/-- Encoding in arithmetic that must not overflow: neither a sum leaves the 32 bits, nor does the
last difference fall below zero. -/
inductive Encodes : Nat → Nat → Prop
  | small {x : Nat} (h : x < 8) : Encodes x x
  | large {x y e z f : Nat} (h : 8 ≤ x) (hcoarse : Rounds 4 x 0 y e) (hfine : Rounds 1 y e z f)
      (hcount : f + 1 < 2 ^ 32) (hdifference : 8 ≤ z) : Encodes x (8 * (f + 1) + (z - 8))

/-- `y` is the quotient of `x` by `2 ^ e`, rounded up; it is 8 or more, but for every smaller
exponent the quotient is above 15. -/
structure Scaled (x y e : Nat) : Prop where
  le_iff : ∀ z, y ≤ z ↔ x ≤ z * 2 ^ e
  eight_le : 8 ≤ y
  minimal : ∀ d < e, 15 * 2 ^ d < x

theorem Scaled.refl (h : 8 ≤ x) : Scaled x x 0 where
  le_iff z := by rw [Nat.pow_zero, Nat.mul_one]
  eight_le := h
  minimal d hd := absurd hd d.not_lt_zero

theorem Scaled.le (h : Scaled x y e) : x ≤ y * 2 ^ e := (h.le_iff y).1 le_rfl

/-- The quotient rounded up, as it is computed. -/
theorem div_le_iff (y k z : Nat) : (y + (2 ^ k - 1)) / 2 ^ k ≤ z ↔ y ≤ 2 ^ k * z := by
  have hpos := Nat.two_pow_pos k
  rw [← Nat.add_sub_assoc hpos, ← Nat.ceilDiv_eq_add_pred_div]
  exact ceilDiv_le_iff_le_mul hpos

/-- **One division.** Quotients that are rounded up compose. -/
theorem Scaled.step (h : Scaled x y e) (hk : 0 < k) (hy : 8 * 2 ^ k ≤ y) :
    Scaled x ((y + (2 ^ k - 1)) / 2 ^ k) (e + k) where
  le_iff z := by
    rw [div_le_iff, h.le_iff, Nat.pow_add, Nat.mul_comm (2 ^ e), ← Nat.mul_assoc, Nat.mul_comm z]
  eight_le := by
    have hpos := Nat.two_pow_pos k
    refine Nat.lt_of_not_le fun hle => ?_
    have := (div_le_iff y k 7).1 hle
    omega
  minimal d hd := by
    have hlast : ¬x ≤ (8 * 2 ^ k - 1) * 2 ^ e := by
      rw [← h.le_iff]
      have hpos := Nat.two_pow_pos k
      omega
    have hhalf : 2 ^ k = 2 * 2 ^ (k - 1) := by
      rw [← Nat.pow_succ', Nat.succ_eq_add_one, Nat.sub_one_add_one hk.ne']
    have hpos := Nat.two_pow_pos (k - 1)
    calc 15 * 2 ^ d
      _ ≤ 15 * 2 ^ (k - 1 + e) :=
        Nat.mul_le_mul_left 15 (Nat.pow_le_pow_right Nat.two_pos (by omega))
      _ = 15 * 2 ^ (k - 1) * 2 ^ e := by rw [Nat.pow_add, Nat.mul_assoc]
      _ ≤ (8 * 2 ^ k - 1) * 2 ^ e := Nat.mul_le_mul_right _ (by omega)
      _ < x := Nat.lt_of_not_le hlast

/-- **A run of divisions** is one division, and ends below `8 * 2 ^ k`. -/
theorem Rounds.scaled (h : Rounds k y e z f) (hk : 0 < k) (hy : Scaled x y e) :
    Scaled x z f ∧ z < 8 * 2 ^ k := by
  induction h with
  | done hlow => exact ⟨hy, hlow⟩
  | step hhigh _ _ _ ih => exact ih (hy.step hk hhigh)

/-- The number decreases by more places than are counted. -/
theorem div_add_le (hk : 0 < k) (h : 8 * 2 ^ k ≤ x) : (x + (2 ^ k - 1)) / 2 ^ k + k ≤ x := by
  have hlt : k < 2 ^ k := Nat.lt_two_pow_self
  have hle : (x + (2 ^ k - 1)) / 2 ^ k ≤ x - k := by
    rw [div_le_iff]
    calc x
      _ ≤ 2 * (x - k) := by omega
      _ ≤ 2 ^ k * (x - k) :=
        Nat.mul_le_mul_right _ (Nat.le_self_pow hk.ne' 2)
  omega

/-- While the sums stay in 32 bits, so do the places, and the divisions end. -/
theorem Rounds.exists (hk : 0 < k) (hx : x + (2 ^ k - 1) < 2 ^ 32) (he : x + e < 2 ^ 32) :
    ∃ y f, Rounds k x e y f ∧ y ≤ x ∧ y + f ≤ x + e := by
  induction x using Nat.strongRecOn generalizing e with
  | ind x ih =>
    by_cases hlow : x < 8 * 2 ^ k
    · exact ⟨x, e, .done hlow, le_rfl, le_rfl⟩
    · have hhigh := Nat.not_lt.1 hlow
      have hdiv := div_add_le hk hhigh
      obtain ⟨y, f, hrun, hy, hsum⟩ := ih ((x + (2 ^ k - 1)) / 2 ^ k) (by omega) (e := e + k)
        (by omega) (by omega)
      have hlt : k < 2 ^ k := Nat.lt_two_pow_self
      exact ⟨y, f, .step hhigh hx (by omega) hrun, by omega, by omega⟩

/-! ### Divisions of words -/

/-- A division of a word is one of its number if the sum does not overflow. -/
theorem toNat_add_shiftRight {w m q : UInt32} (hm : m.toNat = 2 ^ k - 1) (hq : q.toNat = k)
    (hk : k < 32) (hsum : w.toNat + (2 ^ k - 1) < 2 ^ 32) :
    ((w + m) >>> q).toNat = (w.toNat + (2 ^ k - 1)) / 2 ^ k := by
  rw [UInt32.toNat_shiftRight, UInt32.toNat_add, hm, hq, Nat.mod_eq_of_lt hsum, Nat.mod_eq_of_lt hk,
    Nat.shiftRight_eq_div_pow]

/-- The places that are counted do not overflow. -/
theorem toNat_add_places {w q : UInt32} (hq : q.toNat = k) (hcount : w.toNat + k < 2 ^ 32) :
    (w + q).toNat = w.toNat + k := by
  rw [UInt32.toNat_add, hq, Nat.mod_eq_of_lt hcount]

/-- A loop that divides words computes the run of divisions, if there is one without overflow. -/
theorem Rounds.loop_eq {loop : UInt32 → UInt32 → UInt32 × UInt32} (l m q : UInt32)
    {w places : UInt32} (hloop : ∀ w places, loop w places =
      if l ≤ w then loop ((w + m) >>> q) (places + q) else (w, places))
    (hl : l.toNat = 8 * 2 ^ k) (hm : m.toNat = 2 ^ k - 1) (hq : q.toNat = k) (hk : k < 32)
    (h : Rounds k w.toNat places.toNat y f) :
    (loop w places).1.toNat = y ∧ (loop w places).2.toNat = f := by
  generalize hx : w.toNat = x at h
  generalize he : places.toNat = e at h
  induction h generalizing w places with
  | done hlow =>
    rw [hloop, if_neg (by rw [UInt32.le_iff_toNat_le]; omega)]
    exact ⟨hx, he⟩
  | step hhigh hsum hcount _ ih =>
    subst hx he
    rw [hloop, if_pos (by rw [UInt32.le_iff_toNat_le]; omega)]
    exact ih (toNat_add_shiftRight hm hq hk hsum) (toNat_add_places hq hcount)

theorem coarse_eq {w places : UInt32} (h : Rounds 4 w.toNat places.toNat y f) :
    (coarse w places).1.toNat = y ∧ (coarse w places).2.toNat = f :=
  h.loop_eq 128 15 4 (fun w places => by rw [coarse]) rfl rfl rfl (by decide)

theorem fine_eq {w places : UInt32} (h : Rounds 1 w.toNat places.toNat y f) :
    (fine w places).1.toNat = y ∧ (fine w places).2.toNat = f :=
  h.loop_eq 16 1 1 (fun w places => by rw [fine]) rfl rfl rfl (by decide)

/-! ### Encoding -/

theorem Scaled.exponent_lt (h : Scaled x z f) (hx : x < 2 ^ 32) : f < 30 := by
  by_contra hf
  have := h.minimal 29 (by omega)
  omega

/-- What the two loops leave. -/
theorem scaled_of_rounds (h : 8 ≤ x) (hcoarse : Rounds 4 x 0 y e) (hfine : Rounds 1 y e z f) :
    Scaled x z f ∧ z < 16 :=
  hfine.scaled Nat.one_pos (hcoarse.scaled (by decide) (.refl h)).1

/-- Encoding without overflow is possible for all but the fifteen greatest sizes. -/
theorem exists_encodes_iff (hx : x < 2 ^ 32) : (∃ b, Encodes x b) ↔ x < 2 ^ 32 - 15 := by
  constructor
  · rintro ⟨b, hb⟩
    cases hb with
    | small h => omega
    | large h hcoarse =>
      cases hcoarse with
      | done hlow => omega
      | step _ hsum => omega
  · intro h
    by_cases hlow : x < 8
    · exact ⟨x, .small hlow⟩
    · have height := Nat.not_lt.1 hlow
      obtain ⟨y, e, hcoarse, hy, hsum⟩ :=
        Rounds.exists (x := x) (k := 4) (e := 0) (by decide) (by omega) hx
      obtain ⟨z, f, hfine, -⟩ :=
        Rounds.exists (x := y) (k := 1) (e := e) Nat.one_pos (by omega) (by omega)
      obtain ⟨hscaled, -⟩ := scaled_of_rounds height hcoarse hfine
      have hf := hscaled.exponent_lt hx
      exact ⟨_, .large height hcoarse hfine (by omega) hscaled.eight_le⟩

/-- Exponent and mantissa in one byte. -/
theorem toNat_byte {v w : UInt32} (hv : v.toNat < 30) (hlow : 8 ≤ w.toNat) (hhigh : w.toNat < 16) :
    (((v + 1) <<< 3) ||| (w - 8)).toNat = 8 * (v.toNat + 1) + (w.toNat - 8) := by
  have hplaces : ((v + 1) <<< 3).toNat = 2 ^ 3 * (v.toNat + 1) := by
    have hone : (v + 1).toNat = v.toNat + 1 := toNat_add_places rfl (by omega)
    rw [UInt32.toNat_shiftLeft, hone, Nat.shiftLeft_eq, Nat.mul_comm]
    exact Nat.mod_eq_of_lt (by change 2 ^ 3 * (v.toNat + 1) < 2 ^ 32; omega)
  have hmantissa : (w - 8).toNat = w.toNat - 8 :=
    UInt32.toNat_sub_of_le _ _ (UInt32.le_iff_toNat_le.2 hlow)
  rw [UInt32.toNat_or, hplaces, hmantissa, ← Nat.two_pow_add_eq_or_of_lt (by omega)]

/-- What is computed without overflow is what is computed. -/
theorem toNat_encode {w : UInt32} (h : Encodes w.toNat b) : (encode w).toNat = b := by
  have hsmall : w < 8 ↔ w.toNat < 8 := UInt32.lt_iff_toNat_lt
  generalize hx : w.toNat = x at h
  cases h with
  | small hlow => rw [encode, if_pos (hsmall.2 (hx ▸ hlow)), hx]
  | large height hcoarse hfine =>
    obtain ⟨hscaled, hlt⟩ := scaled_of_rounds height hcoarse hfine
    have hf := hscaled.exponent_lt (hx ▸ w.toNat_lt)
    have hwords : Rounds 4 w.toNat (0 : UInt32).toNat _ _ := hx ▸ hcoarse
    obtain ⟨rfl, rfl⟩ := coarse_eq hwords
    obtain ⟨rfl, rfl⟩ := fine_eq hfine
    rw [encode, if_neg (hsmall.not.2 (by omega))]
    exact toNat_byte hf hscaled.eight_le hlt

/-- **Tight rounding.** What is computed without overflow is a byte, and it stands for the least
size of a byte that is not below the given one. -/
theorem Encodes.isLeast (h : Encodes x b) (hx : x < 2 ^ 32) :
    b ≤ 255 ∧ IsLeast {v | x ≤ v ∧ ∃ n ≤ 255, sizeOf n = v} (sizeOf b) := by
  cases h with
  | small hlow =>
    rw [sizeOf_of_lt hlow]
    exact ⟨by omega, ⟨le_rfl, x, by omega, sizeOf_of_lt hlow⟩, fun v hv => hv.1⟩
  | @large _ _ z f height hcoarse hfine =>
    obtain ⟨hscaled, hlt⟩ := scaled_of_rounds height hcoarse hfine
    have hf := hscaled.exponent_lt hx
    have hz := hscaled.eight_le
    have hbyte := sizeOf_byte hz hlt f
    refine ⟨by omega, ⟨?_, _, by omega, rfl⟩, ?_⟩
    · rw [hbyte]
      exact hscaled.le
    · rintro v ⟨hv, n, -, rfl⟩
      rw [hbyte]
      by_cases hn : n < 8
      · rw [sizeOf_of_lt hn] at hv
        omega
      · rw [sizeOf_of_le (Nat.not_lt.1 hn)] at hv ⊢
        rcases Nat.lt_or_ge (n / 8 - 1) f with hless | hmore
        · -- With a smaller exponent no byte reaches the size.
          have hmin := hscaled.minimal _ hless
          have hle : (n % 8 + 8) * 2 ^ (n / 8 - 1) ≤ 15 * 2 ^ (n / 8 - 1) :=
            Nat.mul_le_mul_right _ (by omega)
          omega
        · -- With a greater one its size is a multiple of the same power of two.
          have hsplit : (n % 8 + 8) * 2 ^ (n / 8 - 1) =
              (n % 8 + 8) * 2 ^ (n / 8 - 1 - f) * 2 ^ f := by
            rw [Nat.mul_assoc, ← Nat.pow_add, Nat.sub_add_cancel hmore]
          rw [hsplit] at hv ⊢
          exact Nat.mul_le_mul_right _ ((hscaled.le_iff _).2 hv)

/-! ### Sizes for which the sum overflows -/

/-- The first sum wraps, the quotient is zero, and the last difference wraps as well. -/
theorem encode_of_overflow {w : UInt32} (h : 2 ^ 32 - 15 ≤ w.toNat) : encode w = 0xFFFFFFF8 := by
  have hlt := w.toNat_lt
  have hsmall : ¬w < 8 := by
    rw [UInt32.lt_iff_toNat_lt]
    change ¬w.toNat < 8
    omega
  have hlarge : 128 ≤ w := by
    rw [UInt32.le_iff_toNat_le]
    change 128 ≤ w.toNat
    omega
  have hquotient : (w + 15) >>> 4 = 0 := by
    rw [← UInt32.toNat_inj, UInt32.toNat_shiftRight, UInt32.toNat_add]
    change ((w.toNat + 15) % 2 ^ 32) >>> 4 = 0
    rw [Nat.shiftRight_eq_div_pow]
    omega
  have hcoarse : coarse w 0 = (0, 4) := by
    rw [coarse, if_pos hlarge, hquotient, coarse]
    rfl
  have hfine : fine 0 4 = (0, 4) := by
    rw [fine]
    rfl
  rw [encode, if_neg hsmall, hcoarse]
  simp only [hfine]
  rfl

/-! ### All sizes -/

/-- A byte for a size of 32 bits is below the sizes for which the sum overflows. -/
theorem sizeOf_lt (h : sizeOf n < 2 ^ 32) : sizeOf n < 2 ^ 32 - 15 := by
  by_cases hn : n < 8
  · rw [sizeOf_of_lt hn]
    omega
  · rw [sizeOf_of_le (Nat.not_lt.1 hn)] at h ⊢
    rcases Nat.lt_or_ge (n / 8 - 1) 29 with hless | hmore
    · calc (n % 8 + 8) * 2 ^ (n / 8 - 1)
        _ ≤ 15 * 2 ^ 28 :=
          Nat.mul_le_mul (by omega) (Nat.pow_le_pow_right Nat.two_pos (by omega))
        _ < 2 ^ 32 - 15 := by decide
    · have hle : 8 * 2 ^ 29 ≤ (n % 8 + 8) * 2 ^ (n / 8 - 1) :=
        Nat.mul_le_mul (by omega) (Nat.pow_le_pow_right Nat.two_pos hmore)
      omega

/-- The sizes that have a byte, in words. -/
theorem exists_decode_iff {v : Nat} :
    (∃ y : UInt32, y ≤ 255 ∧ (decode y).toNat = v) ↔ ∃ n ≤ 255, sizeOf n = v := by
  constructor
  · rintro ⟨y, hy, rfl⟩
    exact ⟨y.toNat, UInt32.le_iff_toNat_le.1 hy, (toNat_decode hy).symm⟩
  · rintro ⟨n, hn, rfl⟩
    have hword : (UInt32.ofNat n).toNat = n :=
      UInt32.toNat_ofNat_of_lt' (Nat.lt_of_le_of_lt hn (by decide))
    have hle : UInt32.ofNat n ≤ 255 := UInt32.le_iff_toNat_le.2 (hword.trans_le hn)
    exact ⟨UInt32.ofNat n, hle, by rw [toNat_decode hle, hword]⟩

/-- Words below the sizes for which the sum overflows. -/
theorem isLeast_decode_encode {w : UInt32} (h : w.toNat < 2 ^ 32 - 15) :
    Encodes w.toNat (encode w).toNat ∧ encode w ≤ 255 ∧
      IsLeast {v | w.toNat ≤ v ∧ ∃ y : UInt32, y ≤ 255 ∧ (decode y).toNat = v}
        (decode (encode w)).toNat := by
  obtain ⟨b, hb⟩ := (exists_encodes_iff w.toNat_lt).2 h
  have hword := toNat_encode hb
  obtain ⟨hbyte, hleast⟩ := hb.isLeast w.toNat_lt
  have hle : encode w ≤ 255 := UInt32.le_iff_toNat_le.2 (hword.trans_le hbyte)
  refine ⟨hword ▸ hb, hle, ?_⟩
  rw [toNat_decode hle, hword]
  simpa only [exists_decode_iff] using hleast

/-- The byte for a greater size is no less. -/
theorem encode_mono {v w : UInt32} (h : v ≤ w) : encode v ≤ encode w := by
  have hle : v.toNat ≤ w.toNat := UInt32.le_iff_toNat_le.1 h
  rcases Nat.lt_or_ge w.toNat (2 ^ 32 - 15) with hw | hw
  · obtain ⟨-, hbyte, hleast⟩ := isLeast_decode_encode (hle.trans_lt hw)
    obtain ⟨-, hbyte', hleast'⟩ := isLeast_decode_encode hw
    -- The size of the greater byte is also a size above the smaller number.
    have hsizes := hleast.2 ⟨hle.trans hleast'.1.1, hleast'.1.2⟩
    rw [toNat_decode hbyte, toNat_decode hbyte', strictMono_sizeOf.le_iff_le] at hsizes
    exact UInt32.le_iff_toNat_le.2 hsizes
  · rw [encode_of_overflow hw]
    rcases Nat.lt_or_ge v.toNat (2 ^ 32 - 15) with hv | hv
    · exact UInt32.le_trans (isLeast_decode_encode hv).2.1 (by decide)
    · rw [encode_of_overflow hv]
      exact UInt32.le_refl _

/-- A size that has a byte is encoded by it. -/
theorem decode_encode_of_decode {w y : UInt32} (hy : y ≤ 255) (h : (decode y).toNat = w.toNat) :
    (decode (encode w)).toNat = w.toNat := by
  have hsize := toNat_decode hy
  have hw : w.toNat < 2 ^ 32 - 15 := by
    rw [← h, hsize]
    exact sizeOf_lt (by rw [← hsize, h]; exact w.toNat_lt)
  obtain ⟨-, -, hleast⟩ := isLeast_decode_encode hw
  exact Nat.le_antisymm (hleast.2 ⟨le_rfl, y, hy, h⟩) hleast.1.1

/-- **Sizes are rounded up.** A size below `2 ^ 32 - 15` is encoded without overflow, by the byte
for the least size that is not below it and has a byte.  For the other sizes of 32 bits a sum
overflows, and the number that comes out is no byte and stands for zero.  Greater sizes never have
smaller bytes, and the sizes that have a byte are kept. -/
theorem encode_rounds_up (w : UInt32) :
    ((∃ b, Encodes w.toNat b) ↔ w.toNat < 2 ^ 32 - 15) ∧
      (w.toNat < 2 ^ 32 - 15 → Encodes w.toNat (encode w).toNat ∧ encode w ≤ 255 ∧
        IsLeast {v | w.toNat ≤ v ∧ ∃ y : UInt32, y ≤ 255 ∧ (decode y).toNat = v}
          (decode (encode w)).toNat) ∧
      (2 ^ 32 - 15 ≤ w.toNat → encode w = 0xFFFFFFF8 ∧ decode (encode w) = 0) ∧
      (∀ v ≤ w, encode v ≤ encode w) ∧
      ∀ y ≤ 255, (decode y).toNat = w.toNat → (decode (encode w)).toNat = w.toNat := by
  refine ⟨exists_encodes_iff w.toNat_lt, isLeast_decode_encode, fun h => ?_,
    fun _ => encode_mono, fun _ => decode_encode_of_decode⟩
  have hencode := encode_of_overflow h
  exact ⟨hencode, hencode ▸ rfl⟩

/-- The size 100 has no byte, and is rounded up to 104. -/
theorem encode_rounds_up_hundred : (100 : UInt32).toNat < 2 ^ 32 - 15 ∧ encode 100 = 37 ∧
    (decode 37).toNat = 104 ∧
    IsLeast {v | 100 ≤ v ∧ ∃ y : UInt32, y ≤ 255 ∧ (decode y).toNat = v} 104 := by
  have hencode : encode 100 = 37 := by cbv
  have hdecode : (decode 37).toNat = 104 := rfl
  have hlt : (100 : UInt32).toNat < 2 ^ 32 - 15 := by decide
  have hleast := ((encode_rounds_up 100).2.1 hlt).2.2
  rw [hencode, hdecode] at hleast
  exact ⟨hlt, hencode, hdecode, hleast⟩

/-- The greatest size of 32 bits is not encoded without overflow.  What comes out is no byte, and
stands for a size below it. -/
theorem encode_greatest : (¬∃ b, Encodes (0xFFFFFFFF : UInt32).toNat b) ∧
    ¬encode 0xFFFFFFFF ≤ 255 ∧
    ¬(0xFFFFFFFF : UInt32).toNat ≤ (decode (encode 0xFFFFFFFF)).toNat := by
  have hencode : encode 0xFFFFFFFF = 0xFFFFFFF8 := encode_of_overflow (by decide)
  rw [exists_encodes_iff (UInt32.toNat_lt _), hencode]
  decide

end LuaMachine.SizeHint
