import LuaMachine.Code.Prototype

/-!
# Verification of prototypes

Before a prototype is run, it is checked that its instructions stay inside what the prototype
declares: operations are known, and registers, constants, upvalues, nested prototypes and jump
targets exist.  The check goes through the instructions in order and stops at the first defect;
nested prototypes follow after the instructions of their parent.

## Main definitions

* `Defect` : what can be wrong with a prototype, and `Defect.message`.
* `Prototype.operandsFit` : the operands of one instruction are in range.
* `Prototype.verify` : the check of a prototype and of all prototypes nested in it.
-/

namespace LuaMachine

/-- What is wrong with a prototype. -/
inductive Defect where
  /-- There are more parameters than registers. -/
  | parameters (source : String) (parameters registers : Nat)
  /-- The instruction at `pc` has an operation number outside the instruction set. -/
  | opcode (source : String) (number pc : Nat)
  /-- An operand of the instruction at `pc` is out of range. -/
  | operand (source : String) (op : Opcode) (pc : Nat)
  /-- The jump at `pc` leaves the code. -/
  | jump (source : String) (pc : Nat)
  deriving DecidableEq, Repr

/-- The description of a defect. -/
def Defect.message : Defect → String
  | .parameters source count registers =>
    s!"malformed bytecode in {source}: {count} parameters in a {registers}-register frame"
  | .opcode source number pc =>
    s!"malformed bytecode in {source}: invalid opcode {number} at pc {pc}"
  | .operand source op pc =>
    s!"malformed bytecode in {source}: operand out of range for {op.mnemonic} at pc {pc}"
  | .jump source pc => s!"malformed bytecode in {source}: jump out of range at pc {pc}"

namespace Prototype

/-- Register `r` belongs to the frame. -/
def hasRegister (p : Prototype) (r : Nat) : Bool := r < p.registers

/-- Constant `k` is in the pool. -/
def hasConstant (p : Prototype) (k : Nat) : Bool := k < p.constants.size

/-- Upvalue `u` is declared. -/
def hasUpvalue (p : Prototype) (u : Nat) : Bool := u < p.upvalues.length

/-- The register or constant that an operand names exists. -/
def hasOperand (p : Prototype) (field : Nat) : Bool :=
  match Operand.ofField field with
  | .register r => p.hasRegister r
  | .constant k => p.hasConstant k

/-- The instruction after `pc`, if it carries the extra operand of the one at `pc`. -/
def extraAfter? (p : Prototype) (pc : Nat) : Option Instruction :=
  p.code[pc + 1]?.filter (·.opcode? == some .extraArgument)

/-- What the upvalues of a nested prototype capture exists in this one. -/
def canCapture (p child : Prototype) : Bool :=
  child.upvalues.all fun u => if u.inStack then p.hasRegister u.index else p.hasUpvalue u.index

/-- The operands of the instruction at `pc` are in range.  A count operand of zero stands for a
number of values that is only known when the code runs. -/
def operandsFit (p : Prototype) (pc : Nat) (op : Opcode) (i : Instruction) : Bool :=
  match op with
  | .move | .negate | .bitNot | .not | .length | .testSet => p.hasRegister i.a && p.hasRegister i.b
  | .loadConstant => p.hasRegister i.a && p.hasConstant i.bx
  | .loadConstantExtra =>
    p.hasRegister i.a && (p.extraAfter? pc).any fun extra => p.hasConstant extra.ax
  | .loadBoolean | .newTable | .test => p.hasRegister i.a
  | .loadNil => p.hasRegister (i.a + i.b)
  | .getUpvalue | .setUpvalue => p.hasRegister i.a && p.hasUpvalue i.b
  | .getTableUpvalue => p.hasRegister i.a && p.hasUpvalue i.b && p.hasOperand i.c
  | .getTable => p.hasRegister i.a && p.hasRegister i.b && p.hasOperand i.c
  | .setTableUpvalue => p.hasUpvalue i.a && p.hasOperand i.b && p.hasOperand i.c
  | .setTable => p.hasRegister i.a && p.hasOperand i.b && p.hasOperand i.c
  | .self => p.hasRegister (i.a + 1) && p.hasRegister i.b && p.hasOperand i.c
  | .add | .sub | .mul | .mod | .pow | .div | .floorDiv
  | .bitAnd | .bitOr | .bitXor | .shiftLeft | .shiftRight =>
    p.hasRegister i.a && p.hasOperand i.b && p.hasOperand i.c
  | .concat => p.hasRegister i.a && i.b ≤ i.c && p.hasRegister i.c
  | .equal | .lessThan | .lessEqual => p.hasOperand i.b && p.hasOperand i.c
  | .call | .tailCall | .ret | .vararg =>
    p.hasRegister i.a && (i.b == 0 || i.a + i.b ≤ p.registers)
  | .forLoop | .forPrepare => p.hasRegister (i.a + 3)
  | .iteratorCall => i.a + 3 + max i.c 1 ≤ p.registers
  | .iteratorLoop => p.hasRegister (i.a + 1)
  | .setList => (i.b == 0 || p.hasRegister (i.a + i.b)) && (i.c != 0 || (p.extraAfter? pc).isSome)
  | .closure => p.hasRegister i.a && p.children[i.bx]?.any p.canCapture
  | .jump | .extraArgument => true

/-- The target of the jump at `pc` lies in the code or right behind it. -/
def jumpFits (p : Prototype) (pc : Nat) (i : Instruction) : Bool :=
  let target : Int := pc + 1 + i.sbx
  0 ≤ target && target ≤ p.code.size

/-- Checks the instruction at `pc`. -/
def verifyInstruction (p : Prototype) (pc : Nat) (i : Instruction) : Except Defect Unit :=
  match i.opcode? with
  | none => .error (.opcode p.source i.opcodeNumber pc)
  | some op =>
    if !p.operandsFit pc op i then .error (.operand p.source op pc)
    else if op.format == .asbx && !p.jumpFits pc i then .error (.jump p.source pc)
    else .ok ()

/-- Checks a prototype without the prototypes nested in it. -/
def verifyOwn (p : Prototype) : Except Defect Unit :=
  if p.registers < p.parameters then .error (.parameters p.source p.parameters p.registers)
  else p.code.toList.zipIdx.forM fun (i, pc) => p.verifyInstruction pc i

mutual

/-- Checks a prototype and all prototypes nested in it. -/
def verify : Prototype → Except Defect Unit
  | p@⟨_, _, children, _, _, _, _, _, _, _, _, _⟩ => do
    verifyOwn p
    verifyAll children

/-- Checks prototypes one after the other. -/
def verifyAll : List Prototype → Except Defect Unit
  | [] => .ok ()
  | p :: rest => do
    verify p
    verifyAll rest

end

end Prototype

end LuaMachine
