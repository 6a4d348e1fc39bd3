/-!
# Operations of the instruction set

The instruction set has 47 operations, numbered in a fixed order.  Each has a mnemonic and one of
four operand formats, and it is known of each whether it stores a result in register `A` and
whether it conditionally skips the next instruction.

## Main definitions

* `Opcode` : the operations, in the order of their numbers.
* `Opcode.ofNat?`, `Opcode.number` : the operation with a number, and the number.
* `Opcode.mnemonic`, `Opcode.format`, `Opcode.setsA`, `Opcode.isTest` : their attributes.

## Main results

* `Opcode.ofNat?_number` : an operation is the one with its own number.
-/

namespace LuaMachine

/-- The operations, in the order of their numbers. -/
inductive Opcode where
  | move | loadConstant | loadConstantExtra | loadBoolean | loadNil
  | getUpvalue | getTableUpvalue | getTable | setTableUpvalue | setUpvalue | setTable
  | newTable | self
  | add | sub | mul | mod | pow | div | floorDiv
  | bitAnd | bitOr | bitXor | shiftLeft | shiftRight
  | negate | bitNot | not | length | concat
  | jump | equal | lessThan | lessEqual | test | testSet
  | call | tailCall | ret
  | forLoop | forPrepare | iteratorCall | iteratorLoop
  | setList | closure | vararg | extraArgument
  deriving DecidableEq, Repr, Inhabited

/-- How the operand bits of an instruction are divided. -/
inductive Format where
  /-- Operands `A`, `B` and `C`. -/
  | abc
  /-- Operands `A` and unsigned `Bx`. -/
  | abx
  /-- Operands `A` and signed `sBx`. -/
  | asbx
  /-- The single operand `Ax`. -/
  | ax
  deriving DecidableEq, Repr

namespace Opcode

/-- All operations in the order of their numbers. -/
def all : Array Opcode := #[
  move, loadConstant, loadConstantExtra, loadBoolean, loadNil,
  getUpvalue, getTableUpvalue, getTable, setTableUpvalue, setUpvalue, setTable,
  newTable, self,
  add, sub, mul, mod, pow, div, floorDiv,
  bitAnd, bitOr, bitXor, shiftLeft, shiftRight,
  negate, bitNot, not, length, concat,
  jump, equal, lessThan, lessEqual, test, testSet,
  call, tailCall, ret,
  forLoop, forPrepare, iteratorCall, iteratorLoop,
  setList, closure, vararg, extraArgument]

/-- The number of an operation. -/
def number (op : Opcode) : Nat := op.ctorIdx

/-- The operation with a number; the numbers from 47 on have none. -/
def ofNat? (n : Nat) : Option Opcode := all[n]?

/-- An operation is the one with its own number. -/
theorem ofNat?_number (op : Opcode) : ofNat? op.number = some op := by
  cases op <;> rfl

/-- Operations have numbers below 47. -/
theorem number_lt (op : Opcode) : op.number < 47 := by
  cases op <;> decide

/-- The mnemonic of an operation. -/
def mnemonic : Opcode → String
  | move => "MOVE"
  | loadConstant => "LOADK"
  | loadConstantExtra => "LOADKX"
  | loadBoolean => "LOADBOOL"
  | loadNil => "LOADNIL"
  | getUpvalue => "GETUPVAL"
  | getTableUpvalue => "GETTABUP"
  | getTable => "GETTABLE"
  | setTableUpvalue => "SETTABUP"
  | setUpvalue => "SETUPVAL"
  | setTable => "SETTABLE"
  | newTable => "NEWTABLE"
  | self => "SELF"
  | add => "ADD"
  | sub => "SUB"
  | mul => "MUL"
  | mod => "MOD"
  | pow => "POW"
  | div => "DIV"
  | floorDiv => "IDIV"
  | bitAnd => "BAND"
  | bitOr => "BOR"
  | bitXor => "BXOR"
  | shiftLeft => "SHL"
  | shiftRight => "SHR"
  | negate => "UNM"
  | bitNot => "BNOT"
  | not => "NOT"
  | length => "LEN"
  | concat => "CONCAT"
  | jump => "JMP"
  | equal => "EQ"
  | lessThan => "LT"
  | lessEqual => "LE"
  | test => "TEST"
  | testSet => "TESTSET"
  | call => "CALL"
  | tailCall => "TAILCALL"
  | ret => "RETURN"
  | forLoop => "FORLOOP"
  | forPrepare => "FORPREP"
  | iteratorCall => "TFORCALL"
  | iteratorLoop => "TFORLOOP"
  | setList => "SETLIST"
  | closure => "CLOSURE"
  | vararg => "VARARG"
  | extraArgument => "EXTRAARG"

/-- The operand format of an operation. -/
def format : Opcode → Format
  | extraArgument => .ax
  | loadConstant | loadConstantExtra | closure => .abx
  | jump | forLoop | forPrepare | iteratorLoop => .asbx
  | _ => .abc

/-- Whether the operation stores a result in register `A`. -/
def setsA : Opcode → Bool
  | setTableUpvalue | setUpvalue | setTable | jump | equal | lessThan | lessEqual | test
  | ret | iteratorCall | setList | extraArgument => false
  | _ => true

/-- Whether the operation conditionally skips the next instruction. -/
def isTest : Opcode → Bool
  | equal | lessThan | lessEqual | test | testSet => true
  | _ => false

/-- Whether `B` and `C` are operands that name either a register or a constant. -/
def takesConstants : Opcode → Bool
  | getTableUpvalue | getTable | setTableUpvalue | setTable | self
  | add | sub | mul | mod | pow | div | floorDiv
  | bitAnd | bitOr | bitXor | shiftLeft | shiftRight
  | equal | lessThan | lessEqual => true
  | _ => false

end Opcode

end LuaMachine
