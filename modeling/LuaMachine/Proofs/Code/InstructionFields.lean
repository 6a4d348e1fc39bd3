import LuaMachine.Code.Instruction
import Mathlib.Algebra.Group.Nat.Defs

/-!
# Operands of instruction words

An instruction word is a number below `2 ^ 32`, and an operand is a run of its bits.  Constructors
put operands in range side by side, so that the word is the sum of the operands, each multiplied by
the power of two of its place; replacing an operand changes the summand of one place.  What is read
from a word is then linear arithmetic on this sum.

## Main definitions

* `Instruction.replaceBits` : a number with a run of its bits replaced.
* `Instruction.Readable`, `Instruction.Rebuilt` : operands and words determine each other.
* `Instruction.SameOutside` : two words differ at most in a run of bits.

## Main statements

* `Instruction.toNat_abc`, `Instruction.toNat_abx`, `Instruction.toNat_ofAx` : words as sums.
* `Instruction.toNat_withA`, `Instruction.toNat_withSbx` : words with one operand replaced.
* `Instruction.fields_independent` : operands are read back, words are rebuilt from them, and a
  replaced operand leaves the others alone.
-/

namespace LuaMachine

/-- The number of an operation is the only one that stands for it. -/
theorem Opcode.eq_number_of_ofNat? {op : Opcode} {n : Nat} (h : ofNat? n = some op) :
    n = op.number := by
  have hall : ∀ n < 47, (ofNat? n).map number = some n := by decide
  have hn : n < 47 := (Array.getElem?_eq_some_iff.1 h).1
  have hnumber := hall n hn
  rw [h, Option.map_some] at hnumber
  exact (Option.some.inj hnumber).symm

namespace Instruction

variable {op : Opcode} {i k : Instruction} {a b c bx ax : Nat} {s : Int}

theorem opcode?_eq_some_iff : i.opcode? = some op ↔ i.opcodeNumber = op.number := by
  constructor
  · exact Opcode.eq_number_of_ofNat?
  · intro h
    rw [opcode?, h, Opcode.ofNat?_number]

theorem ext_toNat (h : i.word.toNat = k.word.toNat) : i = k := by
  cases i
  cases k
  exact congrArg mk (UInt32.toNat_inj.1 h)

/-! ### Reading operands -/

/-- A run of `n` bits of a word, as a number. -/
theorem toNat_shiftRight_and (w q m : UInt32) (n : Nat) (hm : m.toNat = 2 ^ n - 1) :
    ((w >>> q) &&& m).toNat = w.toNat / 2 ^ (q.toNat % 32) % 2 ^ n := by
  rw [UInt32.toNat_and, UInt32.toNat_shiftRight, hm, Nat.and_two_pow_sub_one_eq_mod,
    Nat.shiftRight_eq_div_pow]

theorem opcodeNumber_eq (i : Instruction) : i.opcodeNumber = i.word.toNat % 2 ^ 6 := by
  rw [opcodeNumber, UInt32.toNat_and]
  exact Nat.and_two_pow_sub_one_eq_mod _ 6

theorem a_eq (i : Instruction) : i.a = i.word.toNat / 2 ^ 6 % 2 ^ 8 :=
  toNat_shiftRight_and i.word 6 0xFF 8 rfl

theorem b_eq (i : Instruction) : i.b = i.word.toNat / 2 ^ 23 % 2 ^ 9 :=
  toNat_shiftRight_and i.word 23 0x1FF 9 rfl

theorem c_eq (i : Instruction) : i.c = i.word.toNat / 2 ^ 14 % 2 ^ 9 :=
  toNat_shiftRight_and i.word 14 0x1FF 9 rfl

theorem bx_eq (i : Instruction) : i.bx = i.word.toNat / 2 ^ 14 % 2 ^ 18 :=
  toNat_shiftRight_and i.word 14 0x3FFFF 18 rfl

theorem ax_eq (i : Instruction) : i.ax = i.word.toNat / 2 ^ 6 % 2 ^ 26 :=
  toNat_shiftRight_and i.word 6 0x3FFFFFF 26 rfl

/-! ### Ranges of operands -/

theorem a_lt (i : Instruction) : i.a < 2 ^ 8 := i.a_eq ▸ Nat.mod_lt _ (Nat.two_pow_pos 8)

theorem b_lt (i : Instruction) : i.b < 2 ^ 9 := i.b_eq ▸ Nat.mod_lt _ (Nat.two_pow_pos 9)

theorem c_lt (i : Instruction) : i.c < 2 ^ 9 := i.c_eq ▸ Nat.mod_lt _ (Nat.two_pow_pos 9)

theorem bx_lt (i : Instruction) : i.bx < 2 ^ 18 := i.bx_eq ▸ Nat.mod_lt _ (Nat.two_pow_pos 18)

theorem ax_lt (i : Instruction) : i.ax < 2 ^ 26 := i.ax_eq ▸ Nat.mod_lt _ (Nat.two_pow_pos 26)

/-! ### Words made of operands -/

/-- An operand that is put above the bits of a word, and below the end of the word, is added to it
in its place. -/
theorem toNat_or_shiftLeft {w q : UInt32} {x p : Nat} (hq : q.toNat = p) (hp : p < 32)
    (hw : w.toNat < 2 ^ p) (hx : 2 ^ p * x < 2 ^ 32) :
    (w ||| (UInt32.ofNat x <<< q)).toNat = 2 ^ p * x + w.toNat := by
  have hsize : x < UInt32.size :=
    Nat.lt_of_le_of_lt (Nat.le_mul_of_pos_left x (Nat.two_pow_pos p)) hx
  rw [UInt32.toNat_or, UInt32.toNat_shiftLeft, UInt32.toNat_ofNat_of_lt' hsize, hq,
    Nat.mod_eq_of_lt hp, Nat.shiftLeft_eq, Nat.mul_comm, Nat.mod_eq_of_lt hx, Nat.or_comm,
    Nat.two_pow_add_eq_or_of_lt hw]

theorem toNat_opBits (op : Opcode) : (opBits op).toNat = op.number :=
  UInt32.toNat_ofNat_of_lt' (Nat.lt_trans op.number_lt (by decide))

/-- The bits of the operation and of `A`. -/
theorem toNat_opBits_or (op : Opcode) (ha : a < 2 ^ 8) :
    (opBits op ||| (UInt32.ofNat a <<< 6)).toNat = 2 ^ 6 * a + op.number := by
  have hop := op.number_lt
  have hbits := toNat_opBits op
  rw [toNat_or_shiftLeft (p := 6) rfl (by decide) (by omega) (by omega), hbits]

theorem toNat_abx (op : Opcode) (ha : a < 2 ^ 8) (hbx : bx < 2 ^ 18) :
    (abx op a bx).word.toNat = 2 ^ 14 * bx + (2 ^ 6 * a + op.number) := by
  have hop := op.number_lt
  have hlow := toNat_opBits_or op ha
  rw [abx, toNat_or_shiftLeft (p := 14) rfl (by decide) (by omega) (by omega), hlow]

/-- `B` stands above `C`. -/
theorem toNat_abc (op : Opcode) (ha : a < 2 ^ 8) (hb : b < 2 ^ 9) (hc : c < 2 ^ 9) :
    (abc op a b c).word.toNat = 2 ^ 23 * b + (2 ^ 14 * c + (2 ^ 6 * a + op.number)) := by
  have hop := op.number_lt
  have hlow : (opBits op ||| (UInt32.ofNat a <<< 6) ||| (UInt32.ofNat c <<< 14)).toNat =
      2 ^ 14 * c + (2 ^ 6 * a + op.number) := toNat_abx op ha (by omega)
  rw [abc, UInt32.or_assoc, UInt32.or_comm (UInt32.ofNat b <<< 23), ← UInt32.or_assoc,
    toNat_or_shiftLeft (p := 23) rfl (by decide) (by omega) (by omega), hlow]

theorem toNat_ofAx (op : Opcode) (hax : ax < 2 ^ 26) :
    (ofAx op ax).word.toNat = 2 ^ 6 * ax + op.number := by
  have hop := op.number_lt
  have hbits := toNat_opBits op
  rw [ofAx, toNat_or_shiftLeft (p := 6) rfl (by decide) (by omega) (by omega), hbits]

/-! ### Operands and words -/

/-- Operands in range are read back from the words that are made of them. -/
structure Readable (op : Opcode) : Prop where
  abc {a b c : Nat} (ha : a ≤ 255) (hb : b ≤ 511) (hc : c ≤ 511) :
    (abc op a b c).opcode? = some op ∧ (abc op a b c).a = a ∧ (abc op a b c).b = b ∧
      (abc op a b c).c = c
  abx {a bx : Nat} (ha : a ≤ 255) (hbx : bx ≤ 262143) :
    (abx op a bx).opcode? = some op ∧ (abx op a bx).a = a ∧ (abx op a bx).bx = bx
  asbx {a : Nat} {s : Int} (ha : a ≤ 255) (hlow : -131071 ≤ s) (hhigh : s ≤ 131071) :
    (asbx op a s).opcode? = some op ∧ (asbx op a s).a = a ∧ (asbx op a s).sbx = s
  ofAx {ax : Nat} (hax : ax ≤ 67108863) :
    (ofAx op ax).opcode? = some op ∧ (ofAx op ax).ax = ax

/-- A word of the operation is the one that is made of its own operands, in each format. -/
structure Rebuilt (op : Opcode) (i : Instruction) : Prop where
  abc : abc op i.a i.b i.c = i
  abx : abx op i.a i.bx = i
  asbx : asbx op i.a i.sbx = i
  ofAx : ofAx op i.ax = i

theorem readable (op : Opcode) : Readable op := by
  have hop := op.number_lt
  refine ⟨fun ha hb hc => ?_, fun ha hbx => ?_, fun {a s} ha hlow hhigh => ?_, fun hax => ?_⟩
  · have hword := toNat_abc op (Nat.lt_succ_of_le ha) (Nat.lt_succ_of_le hb) (Nat.lt_succ_of_le hc)
    rw [opcode?_eq_some_iff, opcodeNumber_eq, a_eq, b_eq, c_eq, hword]
    omega
  · have hword := toNat_abx op (Nat.lt_succ_of_le ha) (Nat.lt_succ_of_le hbx)
    rw [opcode?_eq_some_iff, opcodeNumber_eq, a_eq, bx_eq, hword]
    omega
  · have hbx : (s + sbxBias).toNat < 2 ^ 18 := by
      rw [sbxBias]
      omega
    have hword := toNat_abx op (Nat.lt_succ_of_le ha) hbx
    rw [opcode?_eq_some_iff, opcodeNumber_eq, a_eq, sbx, bx_eq, asbx, hword, sbxBias]
    omega
  · have hword := toNat_ofAx op (Nat.lt_succ_of_le hax)
    rw [opcode?_eq_some_iff, opcodeNumber_eq, ax_eq, hword]
    omega

theorem rebuilt (h : i.opcode? = some op) : Rebuilt op i := by
  have hnumber : op.number = i.word.toNat % 2 ^ 6 := by
    rw [← opcode?_eq_some_iff.1 h, opcodeNumber_eq]
  have hword := i.word.toNat_lt
  have habx : Instruction.abx op i.a i.bx = i := by
    refine ext_toNat ?_
    rw [toNat_abx op i.a_lt i.bx_lt, a_eq, bx_eq, hnumber]
    omega
  refine ⟨ext_toNat ?_, habx, ?_, ext_toNat ?_⟩
  · rw [toNat_abc op i.a_lt i.b_lt i.c_lt, a_eq, b_eq, c_eq, hnumber]
    omega
  · rw [asbx, sbx, Int.sub_add_cancel, Int.toNat_natCast, habx]
  · rw [toNat_ofAx op i.ax_lt, ax_eq, hnumber]
    omega

/-! ### Words with an operand replaced -/

/-- `w` with its `n` bits from bit `p` on replaced by those of `x`. -/
def replaceBits (w p n x : Nat) : Nat := 2 ^ p * (2 ^ n * (w / 2 ^ (p + n)) + x) + w % 2 ^ p

theorem testBit_replaceBits {x n : Nat} (hx : x < 2 ^ n) (w p j : Nat) :
    (replaceBits w p n x).testBit j =
      if p ≤ j ∧ j < p + n then x.testBit (j - p) else w.testBit j := by
  rw [replaceBits, Nat.testBit_two_pow_mul_add _ (Nat.mod_lt _ (Nat.two_pow_pos p)),
    Nat.testBit_two_pow_mul_add _ hx, Nat.testBit_mod_two_pow, Nat.testBit_div_two_pow]
  by_cases hlow : j < p
  · rw [if_pos hlow, if_neg (by omega), decide_eq_true hlow, Bool.true_and]
  · rw [if_neg hlow]
    by_cases hhigh : j < p + n
    · rw [if_pos (by omega), if_pos (by omega)]
    · rw [if_neg (by omega), if_neg (by omega), show j - p - n + (p + n) = j by omega]

/-- A run of bits that ends inside the word. -/
theorem shiftLeft_lt {x p n : Nat} (hpn : p + n ≤ 32) (hx : x < 2 ^ n) : x <<< p < 2 ^ 32 :=
  calc x <<< p
    _ = x * 2 ^ p := Nat.shiftLeft_eq ..
    _ < 2 ^ n * 2 ^ p := Nat.mul_lt_mul_of_pos_right hx (Nat.two_pow_pos p)
    _ = 2 ^ (p + n) := by rw [← Nat.pow_add, Nat.add_comm]
    _ ≤ 2 ^ 32 := Nat.pow_le_pow_right Nat.two_pos hpn

/-- The mask of the bits outside a run. -/
theorem testBit_not_mask {p n j : Nat} (hpn : p + n ≤ 32) (hj : j < 32) :
    (2 ^ 32 - 1 - (2 ^ n - 1) <<< p).testBit j = !decide (p ≤ j ∧ j < p + n) := by
  have hmask := shiftLeft_lt hpn (Nat.sub_one_lt_of_lt (Nat.two_pow_pos n))
  rw [Nat.sub_sub, Nat.add_comm 1, Nat.testBit_two_pow_sub_succ hmask, Nat.testBit_shiftLeft,
    Nat.testBit_two_pow_sub_one, decide_eq_true hj, Bool.true_and, ← Bool.decide_and]
  congr 2
  exact propext ⟨fun h => ⟨h.1, by omega⟩, fun h => ⟨h.1, by omega⟩⟩

/-- Clearing a run of bits and putting others in their place replaces them. -/
theorem toNat_replaced {w m q x : UInt32} {p n : Nat} (hq : q.toNat = p) (hp : p < 32)
    (hpn : p + n ≤ 32) (hm : m.toNat = 2 ^ n - 1) (hx : x.toNat < 2 ^ n) :
    ((w &&& ~~~(m <<< q)) ||| (x <<< q)).toNat = replaceBits w.toNat p n x.toNat := by
  have hshift (y : UInt32) (hy : y.toNat < 2 ^ n) : (y <<< q).toNat = y.toNat <<< p := by
    rw [UInt32.toNat_shiftLeft, hq, Nat.mod_eq_of_lt hp, Nat.mod_eq_of_lt (shiftLeft_lt hpn hy)]
  have hmask : m.toNat < 2 ^ n := hm ▸ Nat.sub_one_lt_of_lt (Nat.two_pow_pos n)
  refine Nat.eq_of_testBit_eq fun j => ?_
  rw [testBit_replaceBits hx, UInt32.toNat_or, UInt32.toNat_and, UInt32.toNat_not, hshift x hx,
    hshift m hmask, hm, Nat.testBit_or, Nat.testBit_and, Nat.testBit_shiftLeft]
  by_cases hin : p ≤ j ∧ j < p + n
  · have hkeep := testBit_not_mask hpn (show j < 32 by omega)
    rw [if_pos hin, show UInt32.size = 2 ^ 32 from rfl, hkeep, decide_eq_true hin,
      decide_eq_true hin.1]
    simp
  · have hplace : (decide (p ≤ j) && x.toNat.testBit (j - p)) = false := by
      by_cases hlow : p ≤ j
      · have hout : 2 ^ n ≤ 2 ^ (j - p) := Nat.pow_le_pow_right Nat.two_pos (by omega)
        rw [Nat.testBit_lt_two_pow (Nat.lt_of_lt_of_le hx hout), Bool.and_false]
      · rw [decide_eq_false hlow, Bool.false_and]
    rw [if_neg hin, hplace, Bool.or_false]
    by_cases hj : j < 32
    · rw [show UInt32.size = 2 ^ 32 from rfl, testBit_not_mask hpn hj, decide_eq_false hin]
      simp
    · have hword : w.toNat < 2 ^ j :=
        Nat.lt_of_lt_of_le w.toNat_lt (Nat.pow_le_pow_right Nat.two_pos (by omega))
      rw [Nat.testBit_lt_two_pow hword, Bool.false_and]

/-- Replacing `A` replaces eight bits from bit 6 on. -/
theorem toNat_withA (i : Instruction) (ha : a < 2 ^ 8) :
    (i.withA a).word.toNat = replaceBits i.word.toNat 6 8 a := by
  have hbits : (UInt32.ofNat a &&& 0xFF).toNat = a := by
    rw [UInt32.toNat_and, UInt32.toNat_ofNat_of_lt' (Nat.lt_trans ha (by decide))]
    exact (Nat.and_two_pow_sub_one_eq_mod a 8).trans (Nat.mod_eq_of_lt ha)
  rw [withA, toNat_replaced (p := 6) (n := 8) rfl (by decide) (by decide) rfl (by omega), hbits]

/-- Replacing `sBx` replaces eighteen bits from bit 14 on. -/
theorem toNat_withSbx (i : Instruction) (hlow : -sbxBias ≤ s) (hhigh : s ≤ sbxBias) :
    (i.withSbx s).word.toNat = replaceBits i.word.toNat 14 18 (s + sbxBias).toNat := by
  have hmod : (s + sbxBias) % 0x40000 = s + sbxBias := by
    rw [sbxBias] at *
    omega
  have hbits : (UInt32.ofNat (s + sbxBias).toNat).toNat = (s + sbxBias).toNat := by
    refine UInt32.toNat_ofNat_of_lt' ?_
    rw [sbxBias, UInt32.size] at *
    omega
  have hfit : (s + sbxBias).toNat < 2 ^ 18 := by
    rw [sbxBias] at *
    omega
  rw [withSbx, hmod, toNat_replaced (p := 14) (n := 18) rfl (by decide) (by decide) rfl (by omega),
    hbits]

/-- `k` differs from `i` at most in the `n` bits from bit `p` on. -/
def SameOutside (p n : Nat) (i k : Instruction) : Prop :=
  ∀ j, j < p ∨ p + n ≤ j → k.word.toNat.testBit j = i.word.toNat.testBit j

theorem sameOutside_of_replaceBits {p n x : Nat} (hx : x < 2 ^ n)
    (h : k.word.toNat = replaceBits i.word.toNat p n x) : SameOutside p n i k := by
  intro j hj
  rw [h, testBit_replaceBits hx, if_neg (by omega)]

/-- `k` is `i` with `a` for the operand `A`. -/
structure ReplacesA (a : Nat) (i k : Instruction) : Prop where
  read : k.a = a
  opcode : k.opcode? = i.opcode?
  bx : k.bx = i.bx
  bits : SameOutside 6 8 i k

/-- `k` is `i` with `s` for the operand `sBx`. -/
structure ReplacesSbx (s : Int) (i k : Instruction) : Prop where
  read : k.sbx = s
  opcode : k.opcode? = i.opcode?
  a : k.a = i.a
  bits : SameOutside 14 18 i k

theorem replacesA (i : Instruction) (ha : a ≤ 255) : ReplacesA a i (i.withA a) := by
  have hword := toNat_withA i (Nat.lt_succ_of_le ha)
  refine ⟨?_, ?_, ?_, sameOutside_of_replaceBits (Nat.lt_succ_of_le ha) hword⟩
  · rw [a_eq, hword, replaceBits]
    omega
  · rw [opcode?, opcode?, opcodeNumber_eq, opcodeNumber_eq, hword, replaceBits]
    congr 1
    omega
  · rw [bx_eq, bx_eq, hword, replaceBits]
    omega

theorem replacesSbx (i : Instruction) (hlow : -131071 ≤ s) (hhigh : s ≤ 131071) :
    ReplacesSbx s i (i.withSbx s) := by
  have hword := toNat_withSbx i hlow hhigh
  refine ⟨?_, ?_, ?_, sameOutside_of_replaceBits (by rw [sbxBias]; omega) hword⟩
  · rw [sbx, bx_eq, hword, replaceBits, sbxBias]
    omega
  · rw [opcode?, opcode?, opcodeNumber_eq, opcodeNumber_eq, hword, replaceBits]
    congr 1
    omega
  · rw [a_eq, a_eq, hword, replaceBits]
    omega

/-- **Operands are independent.** Operands in range are read back from the words made of them, with
the operation; a word of an operation is rebuilt from its operands in each of the formats; and in
every word, of an operation or not, replacing `A` or `sBx` changes the bits of this operand only. -/
theorem fields_independent (op : Opcode) (i : Instruction) :
    Readable op ∧ (i.opcode? = some op → Rebuilt op i) ∧
      (∀ a ≤ 255, ReplacesA a i (i.withA a)) ∧
      ∀ s : Int, -131071 ≤ s → s ≤ 131071 → ReplacesSbx s i (i.withSbx s) :=
  ⟨readable op, rebuilt, fun _ => replacesA i, fun _ => replacesSbx i⟩

/-- The word of an operation with the greatest operands: it is rebuilt, and its operands can be
exchanged for the least ones. -/
theorem fields_independent_greatest :
    (abc .setTable 255 511 511).opcode? = some .setTable ∧
      Rebuilt .setTable (abc .setTable 255 511 511) ∧ (asbx .setTable 255 (-131071)).sbx = -131071 ∧
      ReplacesA 0 (abc .setTable 255 511 511) ((abc .setTable 255 511 511).withA 0) ∧
      ReplacesSbx (-131071) (abc .setTable 255 511 511)
        ((abc .setTable 255 511 511).withSbx (-131071)) := by
  obtain ⟨hread, hrebuilt, ha, hsbx⟩ := fields_independent .setTable (abc .setTable 255 511 511)
  have hopcode := (hread.abc (Nat.le_refl 255) (Nat.le_refl 511) (Nat.le_refl 511)).1
  exact ⟨hopcode, hrebuilt hopcode, (hread.asbx (Nat.le_refl 255) (by decide) (by decide)).2.2,
    ha 0 (by decide), hsbx (-131071) (by decide) (by decide)⟩

end Instruction

end LuaMachine
