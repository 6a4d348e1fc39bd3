import LuaMachine.Proofs.Number.Accumulators
import Mathlib.Data.List.TakeWhile

/-!
# Numerals as they are written

A numeral is written as a sign, the mark of its radix, digits with at most one point among them,
and an exponent.  All of these but the digits may be missing, and blanks may surround the whole.
Reading accepts exactly the byte strings that are written in this way, whatever their length, and
the parts that it finds are the only ones with which the string can have been written.

## Main definitions

* `Numeral.SignText`, `Numeral.RadixText`, `Numeral.fractionText`, `Numeral.ExponentText` : the
  texts of the parts.
* `Numeral.Written`, `Numeral.WrittenWithin` : a numeral as it is written, without and with blanks.
* `Numeral.DenotesInteger` : numerals that are integers rather than floats.

## Main statements

* `Numeral.ofList?_eq_some_iff`, `Numeral.parse?_eq_some_iff` : the parts that reading finds.
* `Number.read?_iff_written` : what is accepted, and whether it is an integer or a float.
-/

namespace ByteArray

theorem toList_loop (s : ByteArray) (i : Nat) (r : List UInt8) :
    toList.loop s i r = r.reverse ++ s.data.toList.drop i := by
  induction i, r using toList.loop.induct s with
  | case1 i r hlt ih =>
    have hi : i < s.data.toList.length := hlt
    have hget : s.get! i = s.data.toList[i] := getElem!_pos s.data i hlt
    rw [toList.loop, if_pos hlt, ih, List.drop_eq_getElem_cons hi, hget, List.reverse_cons,
      List.append_assoc, List.singleton_append]
  | case2 i r hge =>
    have hi : s.data.toList.length ≤ i := Nat.not_lt.1 hge
    rw [toList.loop, if_neg hge, List.drop_eq_nil_of_le hi, List.append_nil]

theorem toList_eq (s : ByteArray) : s.toList = s.data.toList := by
  rw [toList, toList_loop, List.reverse_nil, List.nil_append, List.drop_zero]

end ByteArray

namespace LuaMachine

namespace Numeral

/-! ### The written form -/

/-- The text of a sign: a minus, or for a numeral that is not negative nothing or a plus. -/
inductive SignText : Bool → List UInt8 → Prop where
  | absent : SignText false []
  | plus : SignText false [0x2B]
  | minus : SignText true [0x2D]

/-- The text of the mark of a radix: `0x` or `0X` for hexadecimal numerals. -/
inductive RadixText : Radix → List UInt8 → Prop where
  | decimal : RadixText .decimal []
  | lower : RadixText .hexadecimal [0x30, 0x78]
  | upper : RadixText .hexadecimal [0x30, 0x58]

/-- The text of a fraction: a point and digits, of which there may be none. -/
def fractionText : Option (List UInt8) → List UInt8
  | none => []
  | some digits => 0x2E :: digits

/-- The text of an exponent: its mark, a sign and at least one decimal digit. -/
inductive ExponentText (radix : Radix) : Option ExponentPart → List UInt8 → Prop where
  | absent : ExponentText radix none []
  | present {mark : UInt8} {sign : List UInt8} {e : ExponentPart} :
    isExponentMark radix mark = true → SignText e.negative sign → e.digits ≠ [] →
    (∀ b ∈ e.digits, isDecimalDigit b = true) →
    ExponentText radix (some e) (mark :: (sign ++ e.digits))

/-- The bytes `s` are the text of a numeral with at least one digit. -/
structure Written (n : Numeral) (s : List UInt8) : Prop where
  whole : ∀ b ∈ n.whole, isDigit n.radix b = true
  fraction : ∀ b ∈ n.fraction.getD [], isDigit n.radix b = true
  digits : n.whole ++ n.fraction.getD [] ≠ []
  text : ∃ sign mark exponent, SignText n.negative sign ∧ RadixText n.radix mark ∧
    ExponentText n.radix n.exponent exponent ∧
    s = sign ++ (mark ++ (n.whole ++ (fractionText n.fraction ++ exponent)))

/-- The bytes `s` are the text of a numeral with blanks around it. -/
def WrittenWithin (n : Numeral) (s : List UInt8) : Prop :=
  ∃ before text after, s = before ++ (text ++ after) ∧ (∀ b ∈ before, isBlank b = true) ∧
    (∀ b ∈ after, isBlank b = true) ∧ n.Written text

/-- The numeral is an integer: it has neither a point nor an exponent, and it is hexadecimal or its
signed value fits into 64 bits. -/
def DenotesInteger (n : Numeral) : Prop :=
  n.fraction = none ∧ n.exponent = none ∧
    (n.radix = .hexadecimal ∨
      Int64.minValue.toInt ≤ n.wholeValue ∧ n.wholeValue ≤ Int64.maxValue.toInt)

/-! ### Runs of bytes -/

/-- A list does not begin with a byte of a class. -/
def StartsOutside (p : UInt8 → Bool) (s : List UInt8) : Prop := ∀ b ∈ s.head?, p b = false

section Runs

variable {p q : UInt8 → Bool} {s ds rest : List UInt8} {b : UInt8}

theorem startsOutside_cons (hb : p b = false) : StartsOutside p (b :: s) := fun _ h =>
  Option.some.inj h ▸ hb

theorem startsOutside_append (hne : ds ≠ []) (hds : ∀ b ∈ ds, p b = false) :
    StartsOutside p (ds ++ rest) := by
  obtain ⟨b, ds, rfl⟩ := List.exists_cons_of_ne_nil hne
  exact startsOutside_cons (hds b List.mem_cons_self)

theorem takeWhile_run (hds : ∀ b ∈ ds, p b = true) (hrest : StartsOutside p rest) :
    (ds ++ rest).takeWhile p = ds := by
  rw [List.takeWhile_append_of_pos hds]
  cases rest with
  | nil => simp
  | cons b rest => simp [hrest b rfl]

theorem dropWhile_run (hds : ∀ b ∈ ds, p b = true) (hrest : StartsOutside p rest) :
    (ds ++ rest).dropWhile p = rest := by
  rw [List.dropWhile_append_of_pos hds]
  cases rest with
  | nil => rfl
  | cons b rest => simp [hrest b rfl]

end Runs

/-! ### The bytes of a numeral -/

/-- The bytes of signs. -/
def isSign (b : UInt8) : Bool := b == 0x2D || b == 0x2B

/-- The bytes of which the text of a numeral consists behind the mark of its radix. -/
def IsPart (radix : Radix) (b : UInt8) : Prop :=
  isDigit radix b = true ∨ b = 0x2E ∨ isExponentMark radix b = true ∨ isSign b = true

section Bytes

variable {radix : Radix} {negative : Bool} {exponent? : Option ExponentPart}
  {s sign mark whole exponent : List UInt8} {fraction : Option (List UInt8)} {b : UInt8}

theorem isDigit_of_isDecimalDigit (h : isDecimalDigit b = true) : isDigit radix b = true := by
  cases radix with
  | decimal => exact h
  | hexadecimal => simp [isDigit, isHexDigit, h]

theorem isDigit_of_isSign (h : isSign b = true) : isDigit radix b = false := by
  simp only [isSign, Bool.or_eq_true, beq_iff_eq] at h
  rcases h with rfl | rfl <;> cases radix <;> rfl

theorem isDigit_of_isExponentMark (h : isExponentMark radix b = true) :
    isDigit radix b = false := by
  cases radix <;> simp only [isExponentMark, Bool.or_eq_true, beq_iff_eq] at h <;>
    rcases h with rfl | rfl <;> rfl

theorem isDigit_point : isDigit radix 0x2E = false := by cases radix <;> rfl

theorem isSign_of_isDigit (h : isDigit radix b = true) : isSign b = false :=
  Bool.eq_false_iff.2 fun hsign => by simp [isDigit_of_isSign hsign] at h

theorem ne_point_of_isExponentMark (h : isExponentMark radix b = true) : b ≠ 0x2E := by
  rintro rfl
  cases radix <;> cases h

theorem IsPart.isBlank_eq_false (h : IsPart radix b) : isBlank b = false := by
  refine Bool.eq_false_iff.2 fun hblank => ?_
  simp only [isBlank, Bool.or_eq_true, beq_iff_eq] at hblank
  obtain ((((rfl | rfl) | rfl) | rfl) | rfl) | rfl := hblank <;> cases radix <;> revert h <;>
    simp only [IsPart] <;> decide

/-- A decimal numeral does not contain the letter that marks a hexadecimal one. -/
theorem IsPart.ne_x (h : IsPart .decimal b) : b ≠ 0x78 ∧ b ≠ 0x58 := by
  constructor <;> rintro rfl <;> revert h <;> simp only [IsPart] <;> decide

theorem SignText.isSign (h : SignText negative sign) : ∀ b ∈ sign, isSign b = true := by
  cases h <;> simp [Numeral.isSign]

theorem RadixText.isBlank_eq_false (h : RadixText radix mark) : ∀ b ∈ mark, isBlank b = false := by
  cases h <;> simp [isBlank]

theorem ExponentText.isPart (h : ExponentText radix exponent? exponent) :
    ∀ b ∈ exponent, IsPart radix b := by
  cases h with
  | absent => simp
  | present hmark hsign _ hdigits =>
    intro b hb
    rcases List.mem_cons.1 hb with rfl | hb
    · exact .inr (.inr (.inl hmark))
    · rcases List.mem_append.1 hb with hb | hb
      · exact .inr (.inr (.inr (hsign.isSign b hb)))
      · exact .inl (isDigit_of_isDecimalDigit (hdigits b hb))

theorem isPart_fractionText (h : ∀ b ∈ fraction.getD [], isDigit radix b = true) :
    ∀ b ∈ fractionText fraction, IsPart radix b := by
  cases fraction with
  | none => simp [fractionText]
  | some digits =>
    intro b hb
    rcases List.mem_cons.1 hb with rfl | hb
    · exact .inr (.inl rfl)
    · exact .inl (h b hb)

/-! ### What ends where -/

/-- An exponent begins neither with a digit nor with a point. -/
theorem ExponentText.startsOutside (h : ExponentText radix exponent? exponent) :
    StartsOutside (isDigit radix) exponent ∧ ∀ rest, exponent ≠ 0x2E :: rest := by
  cases h with
  | absent => exact ⟨nofun, nofun⟩
  | present hmark _ _ _ =>
    exact ⟨startsOutside_cons (isDigit_of_isExponentMark hmark), fun _ heq =>
      ne_point_of_isExponentMark hmark (List.cons.inj heq).1⟩

theorem startsOutside_fractionText (h : ExponentText radix exponent? exponent) :
    StartsOutside (isDigit radix) (fractionText fraction ++ exponent) := by
  cases fraction with
  | none => exact h.startsOutside.1
  | some digits => exact startsOutside_cons isDigit_point

/-! ### Splitting a text into its parts -/

theorem splitSign_of_signText (h : SignText negative sign) (hs : StartsOutside Numeral.isSign s) :
    splitSign (sign ++ s) = (negative, s) := by
  cases h with
  | plus => rfl
  | minus => rfl
  | absent =>
    rw [List.nil_append, splitSign.eq_def]
    split
    · cases hs 0x2D rfl
    · cases hs 0x2B rfl
    · rfl

/-- Splitting off a sign undoes writing one. -/
theorem exists_signText (s : List UInt8) :
    ∃ sign, SignText (splitSign s).1 sign ∧ s = sign ++ (splitSign s).2 := by
  rw [splitSign.eq_def]
  split
  · exact ⟨_, .minus, rfl⟩
  · exact ⟨_, .plus, rfl⟩
  · exact ⟨_, .absent, rfl⟩

theorem splitRadix_of_radixText (h : RadixText radix mark)
    (hs : radix = .decimal → ∀ b ∈ s, b ≠ 0x78 ∧ b ≠ 0x58) :
    splitRadix (mark ++ s) = (radix, s) := by
  cases h with
  | lower => rfl
  | upper => rfl
  | decimal =>
    rw [List.nil_append, splitRadix.eq_def]
    split
    · exact absurd rfl (hs rfl 0x78 (by simp)).1
    · exact absurd rfl (hs rfl 0x58 (by simp)).2
    · rfl

theorem exists_radixText (s : List UInt8) :
    ∃ mark, RadixText (splitRadix s).1 mark ∧ s = mark ++ (splitRadix s).2 := by
  rw [splitRadix.eq_def]
  split
  · exact ⟨_, .lower, rfl⟩
  · exact ⟨_, .upper, rfl⟩
  · exact ⟨_, .decimal, rfl⟩

theorem splitFraction_of_fractionText (hfraction : ∀ b ∈ fraction.getD [], isDigit radix b = true)
    (h : ExponentText radix exponent? exponent) :
    splitFraction radix (fractionText fraction ++ exponent) = (fraction, exponent) := by
  cases fraction with
  | none =>
    rw [fractionText, List.nil_append, splitFraction.eq_def]
    split
    · exact absurd rfl (h.startsOutside.2 _)
    · rfl
  | some digits =>
    have hdigits : ∀ b ∈ digits, isDigit radix b = true := hfraction
    simp only [fractionText, List.cons_append, splitFraction,
      takeWhile_run hdigits h.startsOutside.1, dropWhile_run hdigits h.startsOutside.1]

theorem eq_of_splitFraction (radix : Radix) (s : List UInt8) :
    s = fractionText (splitFraction radix s).1 ++ (splitFraction radix s).2 ∧
      ∀ b ∈ (splitFraction radix s).1.getD [], isDigit radix b = true := by
  rw [splitFraction.eq_def]
  split
  · exact ⟨congrArg _ List.takeWhile_append_dropWhile.symm, fun b hb => List.mem_takeWhile_imp hb⟩
  · exact ⟨rfl, nofun⟩

/-- **Exponents.** What is read as an exponent has been written as one. -/
theorem parseExponent?_eq_some_iff :
    parseExponent? radix s = some exponent? ↔ ExponentText radix exponent? s := by
  constructor
  · intro h
    cases s with
    | nil =>
      obtain rfl := Option.some.inj h
      exact .absent
    | cons mark rest =>
      simp only [parseExponent?] at h
      split at h
      · next hparts =>
        simp only [Bool.and_eq_true, Bool.not_eq_true', List.isEmpty_eq_false_iff,
          List.all_eq_true] at hparts
        obtain ⟨⟨hmark, hne⟩, hdigits⟩ := hparts
        obtain ⟨sign, hsign, hrest⟩ := exists_signText rest
        obtain rfl := Option.some.inj h
        exact (congrArg (mark :: ·) hrest) ▸ ExponentText.present (e := ⟨_, _⟩) hmark hsign hne
          hdigits
      · cases h
  · intro h
    cases h with
    | absent => rfl
    | @present mark sign e hmark hsign hne hdigits =>
      have hdigits' : StartsOutside Numeral.isSign e.digits := by
        rw [← List.append_nil e.digits]
        exact startsOutside_append hne fun b hb =>
          @isSign_of_isDigit .decimal b (hdigits b hb)
      have hall : e.digits.all isDecimalDigit = true := List.all_eq_true.2 hdigits
      simp only [parseExponent?, splitSign_of_signText hsign hdigits', hmark,
        List.isEmpty_eq_false_iff.2 hne, hall, Bool.not_false, Bool.and_self, if_true]

end Bytes

/-! ### Reading -/

section Reading

variable {n : Numeral} {s : List UInt8}

/-- Behind the mark of its radix, a numeral consists of digits, points, exponent marks and signs. -/
theorem Written.isPart {exponent : List UInt8} (h : n.Written s)
    (hexponent : ExponentText n.radix n.exponent exponent) :
    ∀ b ∈ n.whole ++ (fractionText n.fraction ++ exponent), IsPart n.radix b := by
  intro b hb
  rcases List.mem_append.1 hb with hb | hb
  · exact .inl (h.whole b hb)
  · rcases List.mem_append.1 hb with hb | hb
    · exact isPart_fractionText h.fraction b hb
    · exact hexponent.isPart b hb

/-- The first digit or the point keeps what follows the sign from being taken for a sign. -/
theorem Written.startsOutside {mark exponent : List UInt8} (h : n.Written s)
    (hmark : RadixText n.radix mark) :
    StartsOutside isSign (mark ++ (n.whole ++ (fractionText n.fraction ++ exponent))) := by
  cases hradix : n.radix with
  | hexadecimal =>
    rw [hradix] at hmark
    cases hmark <;> exact startsOutside_cons rfl
  | decimal =>
    rw [hradix] at hmark
    cases hmark
    rw [List.nil_append]
    cases hwhole : n.whole with
    | cons b whole =>
      exact startsOutside_cons (isSign_of_isDigit (h.whole b (hwhole ▸ List.mem_cons_self)))
    | nil =>
      cases hfraction : n.fraction with
      | some digits => exact startsOutside_cons rfl
      | none => exact absurd (by simp [hwhole, hfraction]) h.digits

/-- A numeral that has been written is read back part by part. -/
theorem Written.ofList? (h : n.Written s) : ofList? s = some n := by
  obtain ⟨sign, mark, exponent, hsign, hmark, hexponent, rfl⟩ := h.text
  have hx : n.radix = .decimal →
      ∀ b ∈ n.whole ++ (fractionText n.fraction ++ exponent), b ≠ 0x78 ∧ b ≠ 0x58 :=
    fun hradix b hb => IsPart.ne_x (hradix ▸ h.isPart hexponent b hb)
  have houtside : StartsOutside (isDigit n.radix) (fractionText n.fraction ++ exponent) :=
    startsOutside_fractionText hexponent
  have hdigits : (n.whole.isEmpty && (n.fraction.getD []).isEmpty) = false :=
    Bool.eq_false_iff.2 (by simpa using h.digits)
  simp only [Numeral.ofList?, splitSign_of_signText hsign (h.startsOutside hmark),
    splitRadix_of_radixText hmark hx, takeWhile_run h.whole houtside,
    dropWhile_run h.whole houtside, splitFraction_of_fractionText h.fraction hexponent, hdigits,
    Bool.false_eq_true, if_false, parseExponent?_eq_some_iff.2 hexponent, Option.map_some]

/-- **The parts of a numeral.** Reading finds the parts with which the bytes have been written, and
finds them only then. -/
theorem ofList?_eq_some_iff : ofList? s = some n ↔ n.Written s := by
  refine ⟨fun h => ?_, Written.ofList?⟩
  obtain ⟨sign, hsign, hs⟩ := exists_signText s
  obtain ⟨mark, hmark, hbody⟩ := exists_radixText (splitSign s).2
  simp only [ofList?] at h
  generalize splitSign s = parts at *
  obtain ⟨negative, tail⟩ := parts
  generalize splitRadix tail = parts at *
  obtain ⟨radix, body⟩ := parts
  obtain ⟨hrest, hfraction⟩ := eq_of_splitFraction radix (body.dropWhile (isDigit radix))
  generalize splitFraction radix (body.dropWhile (isDigit radix)) = parts at *
  obtain ⟨fraction, rest⟩ := parts
  dsimp only at *
  split at h
  · cases h
  · next hdigits =>
    obtain ⟨exponent, hexponent, rfl⟩ := Option.map_eq_some_iff.1 h
    refine ⟨fun b hb => List.mem_takeWhile_imp hb, hfraction, ?_,
      sign, mark, rest, hsign, hmark, parseExponent?_eq_some_iff.1 hexponent, ?_⟩
    · exact fun hnil => hdigits (by simpa using hnil)
    · rw [hs, hbody, ← hrest, List.takeWhile_append_dropWhile]

/-! ### Blanks -/

theorem Written.ne_nil (h : n.Written s) : s ≠ [] := by
  obtain ⟨sign, mark, exponent, -, -, -, rfl⟩ := h.text
  intro hs
  simp only [List.append_eq_nil_iff] at hs
  refine h.digits (List.append_eq_nil_iff.2 ⟨hs.2.2.1, ?_⟩)
  cases hfraction : n.fraction with
  | none => rfl
  | some digits => simp [hfraction, fractionText] at hs

theorem Written.isBlank_eq_false (h : n.Written s) : ∀ b ∈ s, isBlank b = false := by
  obtain ⟨sign, mark, exponent, hsign, hmark, hexponent, rfl⟩ := h.text
  intro b hb
  rcases List.mem_append.1 hb with hb | hb
  · have hpart : IsPart n.radix b := .inr (.inr (.inr (hsign.isSign b hb)))
    exact hpart.isBlank_eq_false
  · rcases List.mem_append.1 hb with hb | hb
    · exact hmark.isBlank_eq_false b hb
    · exact (h.isPart hexponent b hb).isBlank_eq_false

theorem trim_of_blanks {before text after : List UInt8} (hbefore : ∀ b ∈ before, isBlank b = true)
    (hafter : ∀ b ∈ after, isBlank b = true) (htext : ∀ b ∈ text, isBlank b = false)
    (hne : text ≠ []) : trim (before ++ (text ++ after)) = text := by
  have hreverse : StartsOutside isBlank text.reverse := by
    rw [← List.append_nil text.reverse]
    exact startsOutside_append (by simpa using hne) (by simpa using htext)
  rw [trim, dropWhile_run hbefore (startsOutside_append hne htext), List.reverse_append,
    dropWhile_run (by simpa using hafter) hreverse, List.reverse_reverse]

/-- Trimming takes away blanks at the two ends and nothing else. -/
theorem exists_blanks (s : List UInt8) : ∃ before after, s = before ++ (trim s ++ after) ∧
    (∀ b ∈ before, isBlank b = true) ∧ ∀ b ∈ after, isBlank b = true := by
  have hend := List.takeWhile_append_dropWhile (p := isBlank) (l := (s.dropWhile isBlank).reverse)
  refine ⟨s.takeWhile isBlank, ((s.dropWhile isBlank).reverse.takeWhile isBlank).reverse, ?_,
    fun b hb => List.mem_takeWhile_imp hb,
    fun b hb => List.mem_takeWhile_imp (List.mem_reverse.1 hb)⟩
  rw [trim, ← List.reverse_append, hend, List.reverse_reverse, List.takeWhile_append_dropWhile]

/-- The bytes that hold a numeral are those of a written numeral with blanks around it. -/
theorem parse?_eq_some_iff : parse? s = some n ↔ n.WrittenWithin s := by
  rw [parse?, ofList?_eq_some_iff]
  constructor
  · intro h
    obtain ⟨before, after, hs, hbefore, hafter⟩ := exists_blanks s
    exact ⟨before, trim s, after, hs, hbefore, hafter, h⟩
  · rintro ⟨before, text, after, rfl, hbefore, hafter, h⟩
    rwa [trim_of_blanks hbefore hafter h.isBlank_eq_false h.ne_nil]

end Reading

/-! ### Integers and floats -/

theorem isSome_word? (i : Int) :
    (Binary64.word? i).isSome ↔ Int64.minValue.toInt ≤ i ∧ i ≤ Int64.maxValue.toInt := by
  have hmin : Int64.minValue.toInt = -0x8000000000000000 := by decide
  have hmax : Int64.maxValue.toInt = 0x7fffffffffffffff := by decide
  rw [Binary64.word?, hmin, hmax, Option.isSome_ite]
  omega

theorem denotesInteger_iff (n : Numeral) : n.DenotesInteger ↔ n.integerValue?.isSome := by
  obtain ⟨negative, radix, whole, fraction, exponent⟩ := n
  cases fraction <;> cases exponent <;> cases radix <;>
    simp [DenotesInteger, integerValue?_eq, isSome_word?]

theorem value_of_denotesInteger {n : Numeral} (h : n.DenotesInteger) :
    ∃ i, n.value = .integer i := by
  obtain ⟨i, hi⟩ := Option.isSome_iff_exists.1 (n.denotesInteger_iff.1 h)
  exact ⟨i, by rw [value, hi]⟩

theorem value_of_not_denotesInteger {n : Numeral} (h : ¬ n.DenotesInteger) :
    n.value = .float n.floatValue.toBits := by
  rw [denotesInteger_iff, Option.not_isSome_iff_eq_none] at h
  rw [value, h]

end Numeral

/-! ### Numbers in byte strings -/

/-- Reading finds the numeral that has been written and takes its value. -/
theorem Number.read?_eq_some_iff {s : ByteArray} {v : Number} :
    read? s = some v ↔ ∃ n : Numeral, n.WrittenWithin s.toList ∧ n.value = v := by
  simp only [read?, Option.map_eq_some_iff, Numeral.parse?_eq_some_iff]

/-- **Numerals.** A byte string is read as a number exactly if it is the text of a numeral with
blanks around it.  The number is an integer if the numeral has neither a point nor an exponent and
is hexadecimal or has a signed value of 64 bits, and a float otherwise. -/
theorem Number.read?_iff_written (s : ByteArray) :
    ((read? s).isSome ↔ ∃ n : Numeral, n.WrittenWithin s.toList) ∧
      ((∃ i, read? s = some (.integer i)) ↔
        ∃ n : Numeral, n.WrittenWithin s.toList ∧ n.DenotesInteger) ∧
      ((∃ bits, read? s = some (.float bits)) ↔
        ∃ n : Numeral, n.WrittenWithin s.toList ∧ ¬ n.DenotesInteger) := by
  simp only [read?, ← Numeral.parse?_eq_some_iff, Option.isSome_map, Option.isSome_iff_exists,
    Option.map_eq_some_iff, true_and]
  constructor
  · constructor
    · rintro ⟨i, n, hn, hvalue⟩
      refine ⟨n, hn, by_contra fun h => ?_⟩
      rw [Numeral.value_of_not_denotesInteger h] at hvalue
      cases hvalue
    · rintro ⟨n, hn, h⟩
      obtain ⟨i, hi⟩ := Numeral.value_of_denotesInteger h
      exact ⟨i, n, hn, hi⟩
  · constructor
    · rintro ⟨bits, n, hn, hvalue⟩
      refine ⟨n, hn, fun h => ?_⟩
      obtain ⟨i, hi⟩ := Numeral.value_of_denotesInteger h
      rw [hi] at hvalue
      cases hvalue
    · rintro ⟨n, hn, h⟩
      exact ⟨_, n, hn, Numeral.value_of_not_denotesInteger h⟩

end LuaMachine
