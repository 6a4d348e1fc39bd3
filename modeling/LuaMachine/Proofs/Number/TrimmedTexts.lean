import LuaMachine.Proofs.Number.FloatTexts
import Mathlib.Data.List.DropRight

/-!
# Trimmed float texts

The text of a float can be made in three steps.  First all fourteen significant digits are written,
with zeros at the end where the value has fewer, either with a fixed point or with an exponent.
Then the zeros at the end of the fraction are taken away, and the point too if nothing is left
behind it.  At last `.0` is appended if the text consists of digits.  This gives the same text as
writing the significant digits only.

## Main definitions

* `Layout.padded` : digits with zeros behind them.
* `Layout.fixedPoint`, `Layout.normalized` : digits with a point, in either notation.
* `Layout.trimmed`, `Layout.marked` : the last two steps.
* `Layout.general` : the text with at most a given number of significant digits.

## Main statements

* `Layout.length_padded_roundTo` : the digits of a rounded decimal are as many as asked for.
* `Layout.trimmed_zeros` : what trimming leaves of a fraction.
* `Binary64.toText_eq_marked_general` : the text of a float is made in these steps.
-/

namespace LuaMachine

/-! ### The number of significant digits -/

namespace Decimal

variable {d : Decimal} {n : Nat}

theorem lt_pow_digitCount (n : Nat) : n < 10 ^ digitCount n :=
  (Nat.length_toDigits_le_iff (by decide) Nat.length_toDigits_pos).1 le_rfl

/-- Rounding up may give the least number with one digit more. -/
theorem coefficient_roundTo_le (d : Decimal) (n : Nat) : (d.roundTo n).coefficient ≤ 10 ^ n := by
  have hlt : d.coefficient < 10 ^ (digitCount d.coefficient - n) * 10 ^ n := by
    rw [← Nat.pow_add]
    exact (lt_pow_digitCount _).trans_le (Nat.pow_le_pow_right (by decide) (by omega))
  have hquotient := Nat.div_lt_of_lt_mul hlt
  simp only [roundTo]
  split
  · exact hquotient
  · exact hquotient.le

theorem toDigits_pow (n : Nat) : Nat.toDigits 10 (10 ^ n) = '1' :: List.replicate n '0' := by
  induction n with
  | zero => rfl
  | succ n ih =>
    have hle : 10 ≤ 10 ^ (n + 1) := Nat.le_self_pow (Nat.succ_ne_zero n) 10
    rw [Nat.toDigits_of_base_le (by decide) hle, Nat.pow_succ, Nat.mul_div_cancel _ (by decide), ih,
      Nat.mul_mod_left, List.cons_append, List.replicate_succ']
    rfl

theorem significant_eq_rdropWhile (d : Decimal) :
    d.significant = (Nat.toDigits 10 d.coefficient).rdropWhile (· == '0') := rfl

/-- The last of the significant digits is not a zero. -/
theorem getLast?_significant_ne_zero (d : Decimal) : ∀ c ∈ d.significant.getLast?, c ≠ '0' := by
  intro c hc hzero
  obtain ⟨hne, hlast⟩ := List.mem_getLast?_eq_getLast hc
  exact List.rdropWhile_last_not (· == '0') (Nat.toDigits 10 d.coefficient) hne
    (beq_iff_eq.2 (hlast.symm.trans hzero))

/-- Zeros at the end do not matter where they are taken away. -/
theorem rdropWhile_append_replicate (cs : List Char) (n : Nat) :
    (cs ++ List.replicate n '0').rdropWhile (· == '0') = cs.rdropWhile (· == '0') := by
  induction n with
  | zero => rw [List.replicate_zero, List.append_nil]
  | succ n ih =>
    rw [List.replicate_succ', ← List.append_assoc, List.rdropWhile_concat_pos _ _ _ rfl, ih]

theorem length_significant_roundTo_le (d : Decimal) (hn : 0 < n) :
    (d.roundTo n).significant.length ≤ n := by
  rw [significant_eq_rdropWhile]
  rcases Nat.lt_or_eq_of_le (coefficient_roundTo_le d n) with hlt | heq
  · exact (List.rdropWhile_prefix _ _).length_le.trans
      ((Nat.length_toDigits_le_iff (by decide) hn).2 hlt)
  · rw [heq, toDigits_pow, ← List.singleton_append, rdropWhile_append_replicate]
    exact hn

end Decimal

/-! ### Fixed point and exponent -/

namespace Layout

/-- The digits `ds` with zeros behind them, `n` in all. -/
def padded (n : Nat) (ds : List Char) : List Char := ds ++ zeros (n - ds.length)

/-- The digits `ds`, the first of which stands for `10 ^ k`, with a point if digits are behind
it. -/
def fixedPoint (ds : List Char) (k : Int) : List Char :=
  if k < 0 then '0' :: '.' :: (zeros (-k - 1).toNat ++ ds)
  else
    let fraction := ds.drop (k.toNat + 1)
    ds.take (k.toNat + 1) ++ (if fraction = [] then [] else '.' :: fraction)

/-- The digits with a point behind the first one. -/
def normalized : List Char → List Char
  | d :: fraction => d :: '.' :: fraction
  | [] => []

/-- A text without the zeros at the end of its fraction, and without a point at the end. -/
def trimmed (cs : List Char) : List Char :=
  if '.' ∈ cs then (cs.rdropWhile (· == '0')).rdropWhile (· == '.') else cs

/-- A text with `.0` behind it if it could be read as an integer. -/
def marked (cs : List Char) : List Char :=
  if cs.all (fun c => c == '-' || c.isDigit) then cs ++ ['.', '0'] else cs

/-- The digits `ds`, the first of which stands for `10 ^ k`, as a text with at most `n` significant
digits: with a fixed point in a range of magnitudes, and with an exponent outside of it. -/
def general (n : Nat) (ds : List Char) (k : Int) : List Char :=
  if k < -4 ∨ n ≤ k then
    trimmed (normalized (padded n ds)) ++ 'e' :: (if k < 0 then '-' else '+') ::
      (zeros (2 - (Nat.toDigits 10 k.natAbs).length) ++ Nat.toDigits 10 k.natAbs)
  else trimmed (fixedPoint (padded n ds) k)

/-- Behind a rounded decimal, zeros make up for the digits that it does not have. -/
theorem length_padded_roundTo {n : Nat} (hn : 0 < n) (d : Decimal) :
    (padded n (d.roundTo n).significant).length = n := by
  rw [padded, List.length_append, zeros, List.length_replicate]
  exact Nat.add_sub_of_le (d.length_significant_roundTo_le hn)

section Trimming

variable {whole fraction cs ds : List Char} {n : Nat} {k : Int} {c : Char}

theorem Digits.not_mem (hds : Digits ds) (hc : c.isDigit = false) : c ∉ ds := fun hmem =>
  Bool.eq_false_iff.1 hc (hds.2 c hmem)

theorem rdropWhile_of_getLast? {p : Char → Bool} (h : ∀ c ∈ cs.getLast?, p c = false) :
    cs.rdropWhile p = cs :=
  List.rdropWhile_eq_self_iff.2 fun hne hp =>
    Bool.false_ne_true ((h _ (List.getLast?_eq_some_getLast hne)).symm.trans hp)

/-- Trimming takes away the zeros behind the last digit of a fraction that is not a zero.  If there
is none, it takes away the point too. -/
theorem trimmed_zeros (hwhole : Digits whole) (hfraction : ∀ c ∈ fraction, c.isDigit = true)
    (hlast : ∀ c ∈ fraction.getLast?, c ≠ '0') (n : Nat) :
    trimmed (whole ++ '.' :: (fraction ++ zeros n)) =
      if fraction = [] then whole else whole ++ '.' :: fraction := by
  have hzeros : (whole ++ '.' :: (fraction ++ zeros n)).rdropWhile (· == '0') =
      (whole ++ '.' :: fraction).rdropWhile (· == '0') := by
    rw [← List.cons_append, ← List.append_assoc, zeros, Decimal.rdropWhile_append_replicate]
  rw [trimmed, if_pos (by simp), hzeros]
  rcases List.eq_nil_or_concat' fraction with rfl | ⟨fs, f, rfl⟩
  · have hpoint (c : Char) (hc : c ∈ whole.getLast?) : (c == '.') = false :=
      beq_eq_false_iff_ne.2 fun heq => hwhole.not_mem rfl (heq ▸ List.mem_of_getLast? hc)
    rw [List.rdropWhile_concat_neg _ _ _ (by decide), List.rdropWhile_concat_pos _ _ _ rfl,
      rdropWhile_of_getLast? hpoint, if_pos rfl]
  · have hzero : f ≠ '0' := hlast f (by simp)
    have hpoint : f ≠ '.' := by
      rintro rfl
      exact absurd (hfraction '.' (by simp)) (by decide)
    rw [← List.cons_append, ← List.append_assoc, List.rdropWhile_concat_neg _ _ _ (by simpa),
      List.rdropWhile_concat_neg _ _ _ (by simpa), if_neg (by simp)]

theorem trimmed_of_not_mem (h : '.' ∉ cs) : trimmed cs = cs := if_neg h

theorem marked_of_digits (h : ∀ c ∈ cs, c.isDigit = true) : marked cs = cs ++ ['.', '0'] :=
  if_pos (List.all_eq_true.2 fun c hc => Bool.or_eq_true_iff.2 (.inr (h c hc)))

theorem marked_of_mem (hmem : c ∈ cs) (hc : (c == '-' || c.isDigit) = false) : marked cs = cs :=
  if_neg fun hall => Bool.eq_false_iff.1 hc (List.all_eq_true.1 hall c hmem)

theorem marked_sign (negative : Bool) (cs : List Char) :
    marked (if negative then '-' :: cs else cs) =
      if negative then '-' :: marked cs else marked cs := by
  cases negative
  · rfl
  · simp only [marked, if_true, List.all_cons, BEq.rfl, Bool.true_or, Bool.true_and]
    split <;> rfl

theorem take_padded {w : Nat} (h : w ≤ n) (ds : List Char) :
    (padded n ds).take w = ds.take w ++ zeros (w - ds.length) := by
  rw [padded, List.take_append, zeros, zeros, List.take_replicate]
  congr 2
  omega

theorem drop_padded (n : Nat) (ds : List Char) (w : Nat) :
    (padded n ds).drop w = ds.drop w ++ zeros (n - ds.length - (w - ds.length)) := by
  rw [padded, List.drop_append, zeros, zeros, List.drop_replicate]

theorem getLast?_append_ne (hds : Digits ds) (hlast : ∀ c ∈ ds.getLast?, c ≠ '0') (cs : List Char) :
    ∀ c ∈ (cs ++ ds).getLast?, c ≠ '0' := by
  rwa [List.getLast?_append_of_ne_nil _ hds.1]

/-- The same where the point is left out because no digit would be behind it. -/
theorem trimmed_fraction (hwhole : Digits whole) (hfraction : ∀ c ∈ fraction, c.isDigit = true)
    (hlast : ∀ c ∈ fraction.getLast?, c ≠ '0') (n : Nat) :
    trimmed (whole ++ if fraction ++ zeros n = [] then [] else '.' :: (fraction ++ zeros n)) =
      if fraction = [] then whole else whole ++ '.' :: fraction := by
  split
  · next hnil =>
    rw [List.append_nil, trimmed_of_not_mem (hwhole.not_mem rfl),
      if_pos (List.append_eq_nil_iff.1 hnil).1]
  · exact trimmed_zeros hwhole hfraction hlast n

/-- With a fixed point, trimming leaves the significant digits, and `.0` is put back where all of
them are before the point. -/
theorem marked_trimmed_fixedPoint (hds : Digits ds) (hlast : ∀ c ∈ ds.getLast?, c ≠ '0')
    (hk : k < n) : marked (trimmed (fixedPoint (padded n ds) k)) = positional ds k := by
  rw [fixedPoint, positional]
  split
  · have hfraction : Digits (zeros (-k - 1).toNat ++ ds) := hds.append_left isDigit_of_mem_zeros
    have htrimmed := trimmed_zeros digits_zero hfraction.2 (getLast?_append_ne hds hlast _)
      (n - ds.length)
    rw [if_neg hfraction.1, List.append_assoc] at htrimmed
    rw [padded]
    exact (congrArg marked htrimmed).trans (marked_of_mem (c := '.') (by simp) rfl)
  · next hpos =>
    have hwhole : Digits (ds.take (k.toNat + 1) ++ zeros (k.toNat + 1 - ds.length)) :=
      (hds.take_succ _).append_right isDigit_of_mem_zeros
    have hfraction : ∀ c ∈ ds.drop (k.toNat + 1), c.isDigit = true := fun c hc =>
      hds.2 c (List.mem_of_mem_drop hc)
    have hend : ∀ c ∈ (ds.drop (k.toNat + 1)).getLast?, c ≠ '0' := by
      rw [List.getLast?_drop]
      split
      · simp
      · exact hlast
    dsimp only
    rw [take_padded (by omega), drop_padded, trimmed_fraction hwhole hfraction hend]
    split
    · exact marked_of_digits hwhole.2
    · exact marked_of_mem (c := '.') (by simp) rfl

/-- With an exponent, trimming leaves the significant digits. -/
theorem trimmed_normalized {d : Char} (hds : Digits (d :: ds))
    (hlast : ∀ c ∈ (d :: ds).getLast?, c ≠ '0') (n : Nat) :
    trimmed (normalized (padded n (d :: ds))) = if ds = [] then [d] else d :: '.' :: ds :=
  trimmed_zeros (hds.take_succ 0) (fun c hc => hds.2 c (List.mem_cons_of_mem _ hc))
    (fun c hc => hlast c (List.mem_getLast?_cons hc)) (n - (ds.length + 1))

/-- Trimming and marking at most fourteen digits gives a float in the notation of its magnitude. -/
theorem marked_general (hds : Digits ds) (hlast : ∀ c ∈ ds.getLast?, c ≠ '0') (k : Int) :
    marked (general 14 ds k) =
      if value.least ≤ k ∧ k < value.bound then positional ds k else value.scientific ds k := by
  have hrange : (value.least ≤ k ∧ k < value.bound) ↔ ¬ (k < -4 ∨ (14 : Nat) ≤ k) := by
    simp only [value]
    omega
  rw [general]
  by_cases hk : k < -4 ∨ (14 : Nat) ≤ k
  · obtain ⟨d, fs, rfl⟩ := List.exists_cons_of_ne_nil hds.1
    rw [if_pos hk, if_neg (hrange.not.2 (not_not_intro hk)), marked_of_mem (c := 'e') (by simp) rfl,
      trimmed_normalized hds hlast, scientific.eq_def]
    by_cases hsign : k < 0
    · rw [if_pos hsign, if_pos hsign]
      cases fs <;> rfl
    · rw [if_neg hsign, if_neg hsign]
      cases fs <;> rfl
  · rw [if_neg hk, if_pos (hrange.2 hk)]
    exact marked_trimmed_fixedPoint hds hlast (by omega)

end Trimming

end Layout

namespace Binary64

/-- **Trimming.** The text of a finite float consists of fourteen digits with a fixed point or an
exponent, from which the zeros and the point at the end have been taken away, and of `.0` if what
is left consists of digits. -/
theorem toText_eq_marked_general (negative : Bool) (m : Nat) (e : Int) :
    (finite negative m e).toText = String.ofList (Layout.marked <|
      let d := (Decimal.exact m e).roundTo 14
      let body := if m = 0 then ['0'] else Layout.general 14 d.significant d.magnitude
      if negative then '-' :: body else body) := by
  dsimp only
  rw [Layout.marked_sign]
  by_cases hm : m = 0
  · subst hm
    cases negative <;> rfl
  · rw [if_neg hm, Layout.marked_general (Layout.digits_roundTo_exact hm (by decide) e)
      (Decimal.getLast?_significant_ne_zero _), toText, Layout.render]
    simp only [hm, if_false]

end Binary64

end LuaMachine
