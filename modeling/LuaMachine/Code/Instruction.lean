import LuaMachine.Code.Opcode

/-!
# Instruction words

An instruction is a 32-bit word.  The operation number takes the six lowest bits; the other 26 are
divided into operands as the operation's format says:

* bits 6 to 13 hold `A`, bits 14 to 22 hold `C` and bits 23 to 31 hold `B`;
* `Bx` is the 18 bits of `B` and `C` together, and `sBx` is `Bx` less the bias 131071;
* `Ax` is all 26 bits.

An operand that may name a constant has nine bits, and its highest bit tells a constant (set) from
a register (clear).

## Main definitions

* `Instruction` : an instruction word, with its operands `a`, `b`, `c`, `bx`, `sbx` and `ax`.
* `Instruction.abc`, `Instruction.abx`, `Instruction.asbx`, `Instruction.ofAx` : words from
  operands.
* `Instruction.withA`, `Instruction.withSbx` : a word with one operand replaced.
* `Operand` : a register or a constant, and `Operand.ofField` which tells them apart.
-/

namespace LuaMachine

/-- An instruction word. -/
structure Instruction where
  word : UInt32
  deriving DecidableEq, Repr, Inhabited

namespace Instruction

/-- The greatest value of `sBx`, which is also the bias of its encoding. -/
def sbxBias : Int := 131071

/-- The number of the operation. -/
def opcodeNumber (i : Instruction) : Nat := (i.word &&& 0x3F).toNat

/-- The operation, if its number belongs to the instruction set. -/
def opcode? (i : Instruction) : Option Opcode := Opcode.ofNat? i.opcodeNumber

/-- The operand `A`. -/
def a (i : Instruction) : Nat := ((i.word >>> 6) &&& 0xFF).toNat

/-- The operand `B`. -/
def b (i : Instruction) : Nat := ((i.word >>> 23) &&& 0x1FF).toNat

/-- The operand `C`. -/
def c (i : Instruction) : Nat := ((i.word >>> 14) &&& 0x1FF).toNat

/-- The unsigned operand `Bx`. -/
def bx (i : Instruction) : Nat := ((i.word >>> 14) &&& 0x3FFFF).toNat

/-- The signed operand `sBx`. -/
def sbx (i : Instruction) : Int := i.bx - sbxBias

/-- The operand `Ax`. -/
def ax (i : Instruction) : Nat := ((i.word >>> 6) &&& 0x3FFFFFF).toNat

/-- The bits of the operation number. -/
def opBits (op : Opcode) : UInt32 := UInt32.ofNat op.number

/-- The word with operands `A`, `B` and `C`. -/
def abc (op : Opcode) (a b c : Nat) : Instruction :=
  ⟨opBits op ||| (UInt32.ofNat a <<< 6) ||| (UInt32.ofNat b <<< 23) ||| (UInt32.ofNat c <<< 14)⟩

/-- The word with operands `A` and `Bx`. -/
def abx (op : Opcode) (a bx : Nat) : Instruction :=
  ⟨opBits op ||| (UInt32.ofNat a <<< 6) ||| (UInt32.ofNat bx <<< 14)⟩

/-- The word with operands `A` and `sBx`. -/
def asbx (op : Opcode) (a : Nat) (sbx : Int) : Instruction :=
  abx op a (sbx + sbxBias).toNat

/-- The word with operand `Ax`. -/
def ofAx (op : Opcode) (ax : Nat) : Instruction :=
  ⟨opBits op ||| (UInt32.ofNat ax <<< 6)⟩

/-- The word with `A` replaced; of a number that is too large the low eight bits count. -/
def withA (i : Instruction) (a : Nat) : Instruction :=
  ⟨(i.word &&& ~~~((0xFF : UInt32) <<< 6)) ||| ((UInt32.ofNat a &&& 0xFF) <<< 6)⟩

/-- The word with `sBx` replaced; of a number out of range the low eighteen bits of its biased
form count. -/
def withSbx (i : Instruction) (sbx : Int) : Instruction :=
  let bx := UInt32.ofNat ((sbx + sbxBias) % 0x40000).toNat
  ⟨(i.word &&& ~~~((0x3FFFF : UInt32) <<< 14)) ||| (bx <<< 14)⟩

/-- `n` in hexadecimal with at least eight digits. -/
def hex8 (n : Nat) : String :=
  let digits := Nat.toDigits 16 n
  String.ofList (List.replicate (8 - digits.length) '0' ++ digits)

/-- What is written for a word whose operation number is not in the instruction set. -/
def invalidText (i : Instruction) : String := "<invalid 0x" ++ hex8 i.word.toNat ++ ">"

/-- The mnemonic and the named operands. -/
def text (i : Instruction) : String :=
  match i.opcode? with
  | none => i.invalidText
  | some op =>
    match op.format with
    | .abc => s!"{op.mnemonic} A={i.a} B={i.b} C={i.c}"
    | .abx => s!"{op.mnemonic} A={i.a} Bx={i.bx}"
    | .asbx => s!"{op.mnemonic} A={i.a} sBx={i.sbx}"
    | .ax => s!"{op.mnemonic} Ax={i.ax}"

end Instruction

/-- What a nine-bit operand names. -/
inductive Operand where
  | register (index : Nat)
  | constant (index : Nat)
  deriving DecidableEq, Repr

namespace Operand

/-- The bit that marks a constant. -/
def constantBit : Nat := 256

/-- Whether the bit that marks a constant is set. -/
def isConstant (field : Nat) : Bool := (field / constantBit) % 2 == 1

/-- The index of the constant: the number without the marking bit. -/
def constantIndex (field : Nat) : Nat :=
  if isConstant field then field - constantBit else field

/-- The register or constant that an operand field names. -/
def ofField (field : Nat) : Operand :=
  if isConstant field then .constant (constantIndex field) else .register field

/-- The operand field that names constant `index`. -/
def constantField (index : Nat) : Nat :=
  if isConstant index then index else index + constantBit

end Operand

end LuaMachine
