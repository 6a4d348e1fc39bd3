import LuaMachine.Number.Layout
import LuaMachine.Proofs.Number.IntegerNumerals

/-!
# Floats as numerals

The text of a finite float is a minus if its sign bit is set, and digits with a point among them or
an exponent behind them.  Which of the two notations is chosen depends on the magnitude only, and a
fraction is written in the positional one even if all of its digits are zeros.  So the text is a
decimal numeral that is not an integer, and it is read as a float.  The texts of the values that are
not finite are words, which are no numerals.

## Main definitions

* `Layout.FloatBody` : digits with a point or with an exponent, as floats are written.

## Main statements

* `Decimal.significant_ne_nil` : a number other than zero has significant digits.
* `Layout.FloatBody.exists_written` : what is written as a float is a numeral of a float.
* `Binary64.exists_toText_finite` : the text of a finite float is a sign and such digits.
* `Number.floats_read_back` : which texts of floats are read, and with which sign they begin.
-/

namespace LuaMachine

/-! ### Significant digits -/

namespace Decimal

variable {d : Decimal} {m n : Nat}

theorem isDigit_of_mem_significant {c : Char} (h : c ∈ d.significant) : c.isDigit = true :=
  Nat.isDigit_of_mem_toDigits (by decide) le_rfl
    (List.mem_reverse.1 ((List.dropWhile_suffix _).subset (List.mem_reverse.1 h)))

/-- If all digits were zeros, the number would be zero. -/
theorem significant_ne_nil (h : 0 < d.coefficient) : d.significant ≠ [] := by
  intro hnil
  have hzeros : ∀ c ∈ Nat.toDigits 10 d.coefficient, c = '0' := by
    simpa [significant] using hnil
  have hdigits := List.eq_replicate_iff.2 ⟨rfl, hzeros⟩
  have hvalue := Nat.ofDigitChars_toDigits (b := 10) (n := d.coefficient) (by decide) le_rfl
  rw [hdigits, Nat.ofDigitChars_replicate_zero] at hvalue
  omega

theorem pow_digitCount_le (h : 0 < n) : 10 ^ (digitCount n - 1) ≤ n := by
  rcases Nat.eq_zero_or_pos (digitCount n - 1) with hone | hmany
  · rwa [hone]
  · refine Nat.le_of_not_lt fun hlt => ?_
    have hcount := (Nat.length_toDigits_le_iff (by decide) hmany).2 hlt
    rw [digitCount] at hcount hmany
    omega

theorem coefficient_exact_pos (h : 0 < m) (e : Int) : 0 < (exact m e).coefficient := by
  refine Nat.mul_pos h ?_
  rw [unitFactor]
  split <;> exact Nat.pow_pos (by decide)

/-- Rounding to at least one digit keeps the first digit or makes it greater. -/
theorem coefficient_roundTo_pos (hn : 0 < n) (h : 0 < d.coefficient) :
    0 < (d.roundTo n).coefficient := by
  have hunit : 10 ^ (digitCount d.coefficient - n) ≤ d.coefficient :=
    (Nat.pow_le_pow_right (by decide) (by omega)).trans (pow_digitCount_le h)
  have hquotient := Nat.div_pos hunit (Nat.pow_pos (by decide))
  simp only [roundTo]
  split
  · exact Nat.succ_pos _
  · exact hquotient

end Decimal

/-! ### The two notations -/

namespace Layout

/-- Digits of a number, of which there is at least one. -/
def Digits (cs : List Char) : Prop := cs ≠ [] ∧ ∀ c ∈ cs, c.isDigit = true

/-- The text of a float without its sign: digits with a point among them, or digits, possibly with a
point among them, and an exponent. -/
inductive FloatBody : List Char → Prop where
  | positional {whole fraction : List Char} : Digits whole → Digits fraction →
    FloatBody (whole ++ '.' :: fraction)
  | scientific {whole exponent : List Char} (below : Bool) : Digits whole → Digits exponent →
    FloatBody (whole ++ 'e' :: (if below then '-' else '+') :: exponent)
  | pointed {whole fraction exponent : List Char} (below : Bool) : Digits whole →
    Digits fraction → Digits exponent →
    FloatBody (whole ++ '.' :: (fraction ++ 'e' :: (if below then '-' else '+') :: exponent))

section Digits

variable {cs ds : List Char}

theorem isDigit_of_mem_zeros {n : Nat} : ∀ c ∈ zeros n, c.isDigit = true := fun _ hc =>
  List.eq_of_mem_replicate hc ▸ rfl

theorem digits_zero : Digits ['0'] := ⟨List.cons_ne_nil _ _, isDigit_of_mem_zeros (n := 1)⟩

theorem digits_toDigits (n : Nat) : Digits (Nat.toDigits 10 n) :=
  ⟨Nat.toDigits_ne_nil, fun _ => Nat.isDigit_of_mem_toDigits (by decide) le_rfl⟩

/-- A binary fraction other than zero still has significant digits when it has been rounded. -/
theorem digits_roundTo_exact {m n : Nat} (hm : m ≠ 0) (hn : 0 < n) (e : Int) :
    Digits ((Decimal.exact m e).roundTo n).significant :=
  ⟨Decimal.significant_ne_nil <| Decimal.coefficient_roundTo_pos hn <|
    Decimal.coefficient_exact_pos (Nat.pos_of_ne_zero hm) e,
    fun _ => Decimal.isDigit_of_mem_significant⟩

theorem Digits.append_left (hds : Digits ds) (hcs : ∀ c ∈ cs, c.isDigit = true) :
    Digits (cs ++ ds) :=
  ⟨List.append_ne_nil_of_right_ne_nil _ hds.1, List.forall_mem_append.2 ⟨hcs, hds.2⟩⟩

theorem Digits.append_right (hds : Digits ds) (hcs : ∀ c ∈ cs, c.isDigit = true) :
    Digits (ds ++ cs) :=
  ⟨List.append_ne_nil_of_left_ne_nil hds.1 _, List.forall_mem_append.2 ⟨hds.2, hcs⟩⟩

theorem Digits.take_succ (hds : Digits ds) (n : Nat) : Digits (ds.take (n + 1)) := by
  obtain ⟨hne, hall⟩ := hds
  refine ⟨?_, fun c hc => hall c (List.mem_of_mem_take hc)⟩
  simpa using hne

/-- The positional notation always has a digit on either side of the point. -/
theorem floatBody_positional (hds : Digits ds) (k : Int) : FloatBody (positional ds k) := by
  rw [positional]
  split
  · exact .positional digits_zero (hds.append_left isDigit_of_mem_zeros)
  · have hwhole : Digits (ds.take (k.toNat + 1) ++ zeros (k.toNat + 1 - ds.length)) :=
      (hds.take_succ _).append_right isDigit_of_mem_zeros
    dsimp only
    split
    · exact .positional hwhole digits_zero
    · next hne => exact .positional hwhole ⟨hne, fun c hc => hds.2 c (List.mem_of_mem_drop hc)⟩

theorem floatBody_scientific (hds : Digits ds) (k : Int) : FloatBody (value.scientific ds k) := by
  have hexponent : Digits (zeros (2 - (Nat.toDigits 10 k.natAbs).length) ++
      Nat.toDigits 10 k.natAbs) :=
    (digits_toDigits _).append_left isDigit_of_mem_zeros
  have hsign : (if k < 0 then ['-'] else value.plus.toList) =
      [if decide (k < 0) then '-' else '+'] := by
    by_cases hk : k < 0 <;> simp [hk, value]
  rw [scientific.eq_def, hsign]
  obtain ⟨d, fs, rfl⟩ := List.exists_cons_of_ne_nil hds.1
  cases fs with
  | nil => exact .scientific _ hds hexponent
  | cons f fs =>
    refine .pointed _ (hds.take_succ 0) ⟨List.cons_ne_nil f fs, ?_⟩ hexponent
    exact fun c hc => hds.2 c (List.mem_cons_of_mem _ hc)

end Digits

/-! ### Numerals of floats -/

section Numerals

open Numeral (asciiByte SignText ExponentText fractionText isDecimalDigit)

variable {body whole ds : List Char} {fraction : Option (List UInt8)} {sign exponent : List UInt8}
  {exponent? : Option ExponentPart} {negative : Bool}

theorem Digits.forall_isDecimalDigit (hds : Digits ds) :
    ∀ b ∈ ds.map asciiByte, isDecimalDigit b = true :=
  List.forall_mem_map.2 fun c hc => Numeral.isDecimalDigit_asciiByte (hds.2 c hc)

theorem Digits.map_ne_nil (hds : Digits ds) : ds.map asciiByte ≠ [] :=
  mt List.map_eq_nil_iff.1 hds.1

theorem Digits.exponentText (hds : Digits ds) (below : Bool) :
    ExponentText .decimal (some ⟨below, ds.map asciiByte⟩)
      (('e' :: (if below then '-' else '+') :: ds).map asciiByte) := by
  have hsign : SignText below [asciiByte (if below then '-' else '+')] := by
    cases below
    · exact .plus
    · exact .minus
  exact .present (e := ⟨_, _⟩) rfl hsign hds.map_ne_nil hds.forall_isDecimalDigit

/-- Digits before a point or an exponent make a numeral that is not an integer. -/
theorem Digits.exists_written (hwhole : Digits whole) (fraction : Option (List UInt8))
    (hfraction : ∀ b ∈ fraction.getD [], isDecimalDigit b = true)
    (hexponent : ExponentText .decimal exponent? exponent)
    (hfloat : fraction.isSome ∨ exponent?.isSome) (hsign : SignText negative sign) :
    ∃ n : Numeral, n.Written
      (sign ++ (whole.map asciiByte ++ (fractionText fraction ++ exponent))) ∧
      ¬ n.DenotesInteger := by
  refine ⟨⟨negative, .decimal, whole.map asciiByte, fraction, exponent?⟩,
    ⟨hwhole.forall_isDecimalDigit, hfraction,
      List.append_ne_nil_of_left_ne_nil hwhole.map_ne_nil _,
      sign, [], exponent, hsign, .decimal, hexponent, rfl⟩, ?_⟩
  rintro ⟨hpoint, hmark, -⟩
  rcases hfloat with hfloat | hfloat
  · exact Option.isSome_iff_ne_none.1 hfloat hpoint
  · exact Option.isSome_iff_ne_none.1 hfloat hmark

/-- Behind a sign, what is written as a float is a numeral with a point or an exponent. -/
theorem FloatBody.exists_written (h : FloatBody body) (hsign : SignText negative sign) :
    ∃ n : Numeral, n.Written (sign ++ body.map asciiByte) ∧ ¬ n.DenotesInteger := by
  have hpoint : asciiByte '.' = 0x2E := rfl
  cases h with
  | @positional whole fraction hwhole hfraction =>
    have hnumeral := hwhole.exists_written (some (fraction.map asciiByte))
      hfraction.forall_isDecimalDigit .absent (.inl rfl) hsign
    simpa [fractionText, hpoint] using hnumeral
  | scientific below hwhole hexponent =>
    have hnumeral := hwhole.exists_written none (by simp) (hexponent.exponentText below) (.inr rfl)
      hsign
    simpa [fractionText] using hnumeral
  | @pointed whole fraction exponent below hwhole hfraction hexponent =>
    have hnumeral := hwhole.exists_written (some (fraction.map asciiByte))
      hfraction.forall_isDecimalDigit (hexponent.exponentText below) (.inl rfl) hsign
    simpa [fractionText, hpoint] using hnumeral

theorem Digits.toNat_lt (hds : Digits ds) : ∀ c ∈ ds, c.toNat < 128 := fun c hc =>
  Numeral.toNat_lt_of_isDigit (hds.2 c hc)

theorem FloatBody.toNat_lt (h : FloatBody body) : ∀ c ∈ body, c.toNat < 128 := by
  have hsign (below : Bool) : (if below then '-' else '+').toNat < 128 := by
    cases below <;> decide
  have hmarks : '.'.toNat < 128 ∧ 'e'.toNat < 128 := by decide
  cases h with
  | positional hwhole hfraction =>
    simp only [List.forall_mem_append, List.forall_mem_cons]
    exact ⟨hwhole.toNat_lt, hmarks.1, hfraction.toNat_lt⟩
  | scientific below hwhole hexponent =>
    simp only [List.forall_mem_append, List.forall_mem_cons]
    exact ⟨hwhole.toNat_lt, hmarks.2, hsign below, hexponent.toNat_lt⟩
  | pointed below hwhole hfraction hexponent =>
    simp only [List.forall_mem_append, List.forall_mem_cons]
    exact ⟨hwhole.toNat_lt, hmarks.1, hfraction.toNat_lt, hmarks.2, hsign below,
      hexponent.toNat_lt⟩

/-- What is written as a float begins with a digit. -/
theorem FloatBody.head?_ne_minus (h : FloatBody body) : body.head? ≠ some '-' := by
  have hdigits {whole : List Char} (hwhole : Digits whole) (rest : List Char) :
      (whole ++ rest).head? ≠ some '-' := by
    obtain ⟨d, ds, rfl⟩ := List.exists_cons_of_ne_nil hwhole.1
    rintro ⟨⟩
    exact absurd (hwhole.2 '-' List.mem_cons_self) (by decide)
  cases h with
  | positional hwhole _ => exact hdigits hwhole _
  | scientific _ hwhole _ => exact hdigits hwhole _
  | pointed _ hwhole _ _ => exact hdigits hwhole _

end Numerals

end Layout

/-! ### The texts of floats -/

namespace Binary64

open Layout (FloatBody)

/-- The text of a finite float is a minus if it is negative, and digits with a point or an
exponent. -/
theorem exists_toText_finite (negative : Bool) (m : Nat) (e : Int) : ∃ body, FloatBody body ∧
    (finite negative m e).toText = String.ofList (if negative then '-' :: body else body) := by
  refine ⟨_, ?_, rfl⟩
  split
  · exact .positional Layout.digits_zero Layout.digits_zero
  · next hm =>
    have hdigits := Layout.digits_roundTo_exact hm (n := 14) (by decide) e
    dsimp only
    split
    · exact Layout.floatBody_positional hdigits _
    · exact Layout.floatBody_scientific hdigits _

theorem head?_toText_finite (negative : Bool) (m : Nat) (e : Int) :
    (finite negative m e).toText.toList.head? = some '-' ↔ negative = true := by
  obtain ⟨body, hbody, htext⟩ := exists_toText_finite negative m e
  rw [htext, String.toList_ofList]
  cases negative with
  | true => exact ⟨fun _ => rfl, fun _ => rfl⟩
  | false => exact ⟨fun h => absurd h hbody.head?_ne_minus, fun h => absurd h Bool.false_ne_true⟩

/-- The text of a finite float is the text of a numeral that is not an integer. -/
theorem exists_writtenWithin_toText (negative : Bool) (m : Nat) (e : Int) : ∃ n : Numeral,
    n.WrittenWithin (finite negative m e).toText.toUTF8.toList ∧ ¬ n.DenotesInteger := by
  obtain ⟨body, hbody, htext⟩ := exists_toText_finite negative m e
  have hminus : '-'.toNat < 128 := by decide
  have hascii : ∀ c ∈ (if negative then '-' :: body else body), c.toNat < 128 := by
    cases negative with
    | true => exact List.forall_mem_cons.2 ⟨hminus, hbody.toNat_lt⟩
    | false => exact hbody.toNat_lt
  rw [htext, Numeral.toList_toUTF8_ofList hascii]
  cases negative with
  | true =>
    obtain ⟨n, hn, hfloat⟩ := hbody.exists_written .minus
    exact ⟨n, ⟨[], _, [], (List.append_nil _).symm, nofun, nofun, hn⟩, hfloat⟩
  | false =>
    obtain ⟨n, hn, hfloat⟩ := hbody.exists_written .absent
    exact ⟨n, ⟨[], _, [], (List.append_nil _).symm, nofun, nofun, hn⟩, hfloat⟩

/-- Bits denote a finite value unless their exponent is the greatest one. -/
theorem ofBits_cases (bits : UInt64) :
    if (bits >>> 52) &&& 0x7FF = 0x7FF then
      ofBits bits = .infinity (bits >>> 63 == 1) ∨ ofBits bits = .nan (bits >>> 63 == 1)
    else ∃ m e, ofBits bits = .finite (bits >>> 63 == 1) m e := by
  have hgreatest : (bits >>> 52) &&& 0x7FF = 0x7FF ↔ ((bits >>> 52) &&& 0x7FF).toNat = 2047 :=
    UInt64.toNat_inj.symm
  rw [ofBits]
  simp only [hgreatest]
  split
  · split
    · exact .inl rfl
    · exact .inr rfl
  · split
    · exact ⟨_, _, rfl⟩
    · exact ⟨_, _, rfl⟩

/-- The words for values that are not finite take a sign, and are no numerals. -/
theorem toText_of_not_finite {x : Binary64} {negative : Bool}
    (h : x = infinity negative ∨ x = nan negative) :
    Number.read? x.toText.toUTF8 = none ∧
      (x.toText.toList.head? = some '-' ↔ negative = true) := by
  rw [Number.read?, ByteArray.toList_eq]
  rcases h with rfl | rfl <;> cases negative <;> exact ⟨by decide +kernel, by decide⟩

end Binary64

namespace Number

/-- **Texts of floats.** The text of a finite float is read as a float, and neither rejected nor
read as an integer; the text of a float that is not finite, whose exponent bits are all set, is no
numeral.  The text begins with a minus exactly if the sign bit is set. -/
theorem floats_read_back (bits : UInt64) :
    (if (bits >>> 52) &&& 0x7FF = 0x7FF then read? (Binary64.ofBits bits).toText.toUTF8 = none
      else ∃ back, read? (Binary64.ofBits bits).toText.toUTF8 = some (.float back)) ∧
    ((Binary64.ofBits bits).toText.toList.head? = some '-' ↔ bits >>> 63 = 1) := by
  have hcases := Binary64.ofBits_cases bits
  rw [← beq_iff_eq (a := bits >>> 63)]
  generalize (bits >>> 63 == 1) = negative at *
  split at hcases
  · next hbits =>
    rw [if_pos hbits]
    exact Binary64.toText_of_not_finite hcases
  · next hbits =>
    obtain ⟨m, e, hfinite⟩ := hcases
    obtain ⟨n, hn, hfloat⟩ := Binary64.exists_writtenWithin_toText negative m e
    have hread := read?_eq_some_iff.2 ⟨n, hn, Numeral.value_of_not_denotesInteger hfloat⟩
    rw [if_neg hbits, hfinite]
    exact ⟨⟨_, hread⟩, Binary64.head?_toText_finite negative m e⟩

end Number

end LuaMachine
