import LuaMachine.Proofs.Table.Representation
import LuaMachine.Proofs.Value.NumericOrder

/-!
# Keys and raw equality

Tables tell keys apart by their form and values are compared across forms: the integer 1, the float
1.0 and both zeros on the one hand, bits, bytes and names on the other.  The key of a value is
therefore a normal form of the class of the values that are raw equal to it: two values have the
same key if and only if they are raw equal, and the value of a key is a member of its class.

A number that is equal to an integer has this integer as its key.  Any other float is kept by its
bits, and of such floats none is equal to another, since only zero has two forms.

## Main definitions

* `Value.IsNaN`, `Value.IsNumber` : the value is NaN, and it is a number.

## Main statements

* `Binary64.eq_of_value?` : floats other than zero and NaN are equal only to themselves.
* `Key.ofNumber_eq_iff` : numbers have the same key if and only if their values agree.
* `Key.identifies_rawEqual` : values have the same key if and only if they are raw equal.
-/

namespace LuaMachine

open Float.Model (Format UnpackedFloat)
open Float.Model.UnpackedFloat (isNaNBits unpack)

/-! ### Floats and their bits -/

namespace Binary64

open ExtendedRational (ofRat)

theorem unpack_of_isNaNBits {bits : UInt64} (h : @isNaNBits .binary64 bits.toBitVec) :
    unpack .binary64 bits.toBitVec = .notANumber := by
  simp only [isNaNBits, decide_eq_true_eq] at h
  simp [unpack, h]

/-- The bits of a float that is not NaN are those that its unpacked form is packed to. -/
theorem eq_of_unpack_eq {a b : UInt64}
    (h : unpack .binary64 a.toBitVec = unpack .binary64 b.toBitVec)
    (hnan : unpack .binary64 a.toBitVec ≠ .notANumber) : a = b := by
  have hbits {c : UInt64} (hc : unpack .binary64 c.toBitVec ≠ .notANumber) :
      (unpack .binary64 c.toBitVec).pack .binary64 = c.toBitVec := by
    rw [UnpackedFloat.pack_unpack, if_neg fun hnan => hc (unpack_of_isNaNBits hnan)]
  apply UInt64.toBitVec_inj.1
  rw [← hbits hnan, h, hbits (h ▸ hnan)]

/-- **Floats are distinct.** Only zero is denoted by more than one float. -/
theorem eq_of_value? {a b : UInt64} {x : ExtendedRational} (ha : (ofBits a).value? = some x)
    (hb : (ofBits b).value? = some x) (hx : x ≠ ofRat 0) : a = b := by
  have hbeq : (unpack .binary64 a.toBitVec).beq (unpack .binary64 b.toBitVec) = true := by
    rw [UnpackedFloat.beq, compare_unpack, ha, hb, Option.bind_some, Option.map_some,
      cmp_self_eq_eq]
    rfl
  obtain ⟨hnan, -, heq | ⟨hzero, -⟩ | ⟨hzero, -⟩⟩ :=
    (UnpackedFloat.beq_iff_ne_notANumber_and_eq _ _).1 hbeq
  · exact eq_of_unpack_eq heq hnan
  all_goals exact absurd (Option.some.inj (ha.symm.trans (value?_of_unpack_eq_zero hzero))) hx

end Binary64

/-! ### Keys of numbers -/

namespace Key

open ExtendedRational (ofRat strictMono_ofRat)

/-- The key of a number that is not NaN is the integer that it is equal to, or it is a float equal
to no integer. -/
theorem exists_ofNumber {n : Number} (h : ¬n.IsNaN) :
    (∃ i : Int64, ofValue (.ofNumber n) = .ok (.integer i) ∧ n.value? = some (ofRat i.toInt)) ∨
    ∃ bits, ofValue (.ofNumber n) = .ok (.float bits) ∧ n = .float bits ∧
      ∀ i : Int64, n.value? ≠ some (ofRat i.toInt) := by
  cases n with
  | integer i => exact .inl ⟨i, rfl, rfl⟩
  | float bits =>
    have hint (i : Int64) : (Binary64.ofBits bits).toInt64? = some i ↔
        (Binary64.ofBits bits).value? = some (ofRat i.toInt) :=
      Binary64.toInt64?_eq_some_iff.trans Binary64.compareInt_eq_eq_iff
    cases hi : (Binary64.ofBits bits).toInt64? with
    | some i => exact .inl ⟨i, ofValue_float hi, (hint i).1 hi⟩
    | none =>
      refine .inr ⟨bits, ?_, rfl, fun i hvalue => ?_⟩
      · exact IsNormal.ofValue_toValue (k := .float bits) ⟨fun s hs => h ⟨s, hs⟩, hi⟩
      · rw [(hint i).2 hvalue] at hi
        cases hi

/-- **Numbers.** Two numbers have the same key if and only if they have the same value. -/
theorem ofNumber_eq_iff {m n : Number} (hm : ¬m.IsNaN) (hn : ¬n.IsNaN) :
    ofValue (.ofNumber m) = ofValue (.ofNumber n) ↔ m.value? = n.value? := by
  rcases exists_ofNumber hm with ⟨i, hi, hvi⟩ | ⟨a, ha, rfl, hva⟩ <;>
    rcases exists_ofNumber hn with ⟨j, hj, hvj⟩ | ⟨b, hb, rfl, hvb⟩
  · rw [hi, hj, hvi, hvj, Except.ok.injEq, Key.integer.injEq, Option.some_inj,
      strictMono_ofRat.injective.eq_iff, Int.cast_inj, Int64.toInt_inj]
  · rw [hi, hb, hvi]
    exact ⟨nofun, fun h => absurd h.symm (hvb i)⟩
  · rw [ha, hj, hvj]
    exact ⟨nofun, fun h => absurd h (hva j)⟩
  · rw [ha, hb, Except.ok.injEq, Key.float.injEq]
    refine ⟨fun h => h ▸ rfl, fun h => ?_⟩
    obtain ⟨x, hx⟩ := Option.ne_none_iff_exists'.1 (mt Number.value?_eq_none_iff.1 hm)
    refine Binary64.eq_of_value? hx (h.symm.trans hx) fun hzero => hva 0 ?_
    rw [hx, hzero]
    rfl

end Key

/-! ### Keys of values -/

namespace Value

/-- The value is NaN. -/
def IsNaN : Value → Prop
  | float bits => Number.IsNaN (.float bits)
  | _ => False

variable {a b v : Value}

/-- The value is a number. -/
def IsNumber (v : Value) : Prop := ∃ n, v = ofNumber n

theorem isNaN_ofNumber {n : Number} : (ofNumber n).IsNaN ↔ n.IsNaN := by
  cases n <;> rfl

theorem bytes_beq_iff {s t : ByteArray} : (s == t) = true ↔ s = t :=
  (beq_iff_eq (a := s.data)).trans ByteArray.ext_iff.symm

/-- A value that is not a number is equal to no other value. -/
theorem rawEqual_iff_eq (ha : ¬a.IsNumber) :
    (rawEqual a b = true ↔ a = b) ∧ (rawEqual b a = true ↔ b = a) := by
  cases a with
  | integer i => exact absurd ⟨.integer i, rfl⟩ ha
  | float bits => exact absurd ⟨.float bits, rfl⟩ ha
  | nil | boolean _ | string _ | object _ => cases b <;> simp [rawEqual, bytes_beq_iff]

/-- A value that is not a number has a key of its own. -/
theorem ofValue_eq_iff_eq (ha : ¬a.IsNumber) (hb : ¬b.IsNaN) :
    Key.ofValue a = Key.ofValue b ↔ a = b := by
  cases a with
  | integer i => exact absurd ⟨.integer i, rfl⟩ ha
  | float bits => exact absurd ⟨.float bits, rfl⟩ ha
  | nil | boolean _ | string _ | object _ =>
    cases b with
    | float bits =>
      rcases Key.exists_ofNumber (n := .float bits) hb with ⟨i, hi, -⟩ | ⟨bits', hbits, -⟩
      · rw [show Key.ofValue (float bits) = .ok (.integer i) from hi]
        simp [Key.ofValue]
      · rw [show Key.ofValue (float bits) = .ok (.float bits') from hbits]
        simp [Key.ofValue]
    | nil | boolean _ | integer _ | string _ | object _ => simp [Key.ofValue]

/-- Values that are not NaN are raw equal if and only if they have the same key or are both nil. -/
theorem rawEqual_iff_ofValue_eq (ha : ¬a.IsNaN) (hb : ¬b.IsNaN) :
    rawEqual a b = true ↔ Key.ofValue a = Key.ofValue b := by
  by_cases hna : a.IsNumber
  · by_cases hnb : b.IsNumber
    · obtain ⟨m, rfl⟩ := hna
      obtain ⟨n, rfl⟩ := hnb
      rw [Key.ofNumber_eq_iff (mt isNaN_ofNumber.2 ha) (mt isNaN_ofNumber.2 hb), rawEqual_ofNumber,
        beq_iff_eq, Number.order?_eq_eq_iff (mt isNaN_ofNumber.2 ha)]
    · rw [(rawEqual_iff_eq hnb).2, eq_comm (a := Key.ofValue a), ofValue_eq_iff_eq hnb ha, eq_comm]
  · rw [(rawEqual_iff_eq hna).1, ofValue_eq_iff_eq hna hb]

theorem isNaN_iff : v.IsNaN ↔ Key.ofValue v = .error .nan := by
  rw [Key.ofValue_eq_error_iff]
  cases v with
  | float bits => simp [IsNaN, Number.IsNaN]
  | nil | boolean _ | integer _ | string _ | object _ => simp [IsNaN]

/-- Raw equality is reflexive, symmetric and transitive where NaN is left out. -/
theorem equivalence_rawEqual :
    Equivalence fun a b : {v : Value // ¬v.IsNaN} => rawEqual a b = true where
  refl a := (rawEqual_iff_ofValue_eq a.2 a.2).2 rfl
  symm {a b} h := (rawEqual_iff_ofValue_eq b.2 a.2).2 ((rawEqual_iff_ofValue_eq a.2 b.2).1 h).symm
  trans {a b c} hab hbc := (rawEqual_iff_ofValue_eq a.2 c.2).2 <|
    ((rawEqual_iff_ofValue_eq a.2 b.2).1 hab).trans ((rawEqual_iff_ofValue_eq b.2 c.2).1 hbc)

end Value

namespace Key

variable {v : Value} {k : Key}

theorem exists_ofValue (hnil : v ≠ .nil) (hnan : ¬v.IsNaN) : ∃ k, ofValue v = .ok k := by
  cases h : ofValue v with
  | ok k => exact ⟨k, rfl⟩
  | error fault =>
    cases fault with
    | nan => exact absurd (Value.isNaN_iff.2 h) hnan
    | nil =>
      rcases ofValue_eq_error_iff.1 h with ⟨-, rfl⟩ | ⟨hfault, -⟩
      · exact absurd rfl hnil
      · cases hfault

/-- The value of the key of a value is raw equal to it. -/
theorem rawEqual_toValue (h : ofValue v = .ok k) : k.toValue.rawEqual v = true := by
  have hnormal := (isNormal_of_ofValue h).ofValue_toValue
  have hv : ¬v.IsNaN := fun hnan => nomatch (Value.isNaN_iff.1 hnan).symm.trans h
  have hk : ¬k.toValue.IsNaN := fun hnan => nomatch (Value.isNaN_iff.1 hnan).symm.trans hnormal
  exact (Value.rawEqual_iff_ofValue_eq hk hv).2 (hnormal.trans h.symm)

/-- **Keys.** A value other than nil and NaN has a key, and keys identify exactly the values that
are raw equal.  The value of a key is raw equal to all values with this key, and has it too.  Hence
raw equality is an equivalence among the values that are not NaN. -/
theorem identifies_rawEqual :
    (∀ a b : Value, a ≠ .nil → ¬a.IsNaN → b ≠ .nil → ¬b.IsNaN →
      ∃ k l, ofValue a = .ok k ∧ ofValue b = .ok l ∧ (k = l ↔ a.rawEqual b = true) ∧
        k.toValue.rawEqual a = true) ∧
    (∀ v k, ofValue v = .ok k → ofValue k.toValue = .ok k) ∧
    Equivalence fun a b : {v : Value // ¬v.IsNaN} => a.1.rawEqual b.1 = true := by
  refine ⟨fun a b hanil hanan hbnil hbnan => ?_,
    fun v k h => (isNormal_of_ofValue h).ofValue_toValue, Value.equivalence_rawEqual⟩
  obtain ⟨k, hk⟩ := exists_ofValue hanil hanan
  obtain ⟨l, hl⟩ := exists_ofValue hbnil hbnan
  refine ⟨k, l, hk, hl, ?_, rawEqual_toValue hk⟩
  rw [Value.rawEqual_iff_ofValue_eq hanan hbnan, hk, hl, Except.ok.injEq]

/-- The zeros are one key, and so are 2^53 as an integer and as a float. -/
theorem identifies_rawEqual_across_forms :
    (∃ k l, ofValue (.float 0x8000000000000000) = .ok k ∧ ofValue (.float 0) = .ok l ∧
      (k = l ↔ Value.rawEqual (.float 0x8000000000000000) (.float 0) = true) ∧
      k.toValue.rawEqual (.float 0x8000000000000000) = true) ∧
    (∃ k l, ofValue (.integer 0x20000000000000) = .ok k ∧
      ofValue (.float 0x4340000000000000) = .ok l ∧
      (k = l ↔ Value.rawEqual (.integer 0x20000000000000) (.float 0x4340000000000000) = true) ∧
      k.toValue.rawEqual (.integer 0x20000000000000) = true) ∧
    ofValue (toValue (.float 0x3FF8000000000000)) = .ok (.float 0x3FF8000000000000) :=
  have h := identifies_rawEqual
  ⟨h.1 _ _ nofun (fun ⟨_, h⟩ => nomatch h) nofun (fun ⟨_, h⟩ => nomatch h),
    h.1 _ _ nofun id nofun (fun ⟨_, h⟩ => nomatch h),
    h.2.1 (.float 0x3FF8000000000000) _ (by decide +kernel)⟩

end Key

end LuaMachine
