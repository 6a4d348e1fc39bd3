/-!
# Arithmetic operators

The language has fourteen operators whose operands are numbers.  Six of them work on the bits of
integers, and two take a single operand.

## Main definitions

* `Operator` : the operators in their fixed order, `Operator.all` the list of them.
* `Operator.isBitwise`, `Operator.isUnary` : their attributes.
-/

namespace LuaMachine

/-- The arithmetic and bitwise operators. -/
inductive Operator where
  | add | sub | mul | mod | pow | div | floorDiv
  | bitAnd | bitOr | bitXor | shiftLeft | shiftRight
  | negate | bitNot
  deriving DecidableEq, Repr, Inhabited

namespace Operator

/-- All operators in their order. -/
def all : List Operator :=
  [add, sub, mul, mod, pow, div, floorDiv, bitAnd, bitOr, bitXor, shiftLeft, shiftRight,
    negate, bitNot]

/-- The operator works on the bits of integers. -/
def isBitwise : Operator → Bool
  | bitAnd | bitOr | bitXor | shiftLeft | shiftRight | bitNot => true
  | _ => false

/-- The operator takes one operand. -/
def isUnary : Operator → Bool
  | negate | bitNot => true
  | _ => false

theorem mem_all (op : Operator) : op ∈ all := by
  cases op <;> decide

end Operator

end LuaMachine
