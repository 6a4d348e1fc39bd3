import LuaMachine.Number.Integer
import LuaMachine.Operator
import LuaMachine.Value.Basic

/-!
# Arithmetic

Bitwise operators work on the integers that their operands are equal to.  The other operators work
on integers if both operands are integers, except for `/` and `^`, and otherwise on floats; strings
that hold numerals count as floats there.

## Main definitions

* `Operator.onIntegers`, `Operator.onFloats` : an operator on two machine numbers.
* `Operator.apply` : an operator on two values.
* `Arithmetic` : the outcome, which may be that the operands are unsuitable.
-/

namespace LuaMachine

/-- The outcome of an arithmetic operation. -/
inductive Arithmetic where
  | value (v : Value)
  /-- An integer was divided by zero, to find the quotient. -/
  | divisionByZero
  /-- An integer was divided by zero, to find the remainder. -/
  | moduloByZero
  /-- The operands have no suitable numbers; a metamethod may decide. -/
  | unsuitable
  deriving Inhabited

namespace Operator

/-- An operator on floats.  Division by zero gives an infinity or NaN. -/
def onFloats (op : Operator) (x y : Float) : Float :=
  match op with
  | add => x + y
  | sub => x - y
  | mul => x * y
  | div => x / y
  | pow => x.pow y
  | floorDiv => (x / y).floor
  | mod => Binary64.floorRemainder x y
  | negate => -x
  | bitAnd | bitOr | bitXor | shiftLeft | shiftRight | bitNot => Float.ofBits 0x7FF8000000000000

/-- An operator on integers, reduced to 64 bits.  A unary operator ignores `b`. -/
def onIntegers (op : Operator) (a b : Int64) : Arithmetic :=
  match op with
  | add => .value (.integer (a + b))
  | sub => .value (.integer (a - b))
  | mul => .value (.integer (a * b))
  | floorDiv => if b == 0 then .divisionByZero else .value (.integer (Integer.floorDiv a b))
  | mod => if b == 0 then .moduloByZero else .value (.integer (Integer.floorMod a b))
  | bitAnd => .value (.integer (a &&& b))
  | bitOr => .value (.integer (a ||| b))
  | bitXor => .value (.integer (a ^^^ b))
  | shiftLeft => .value (.integer (Integer.shiftLeft a b))
  | shiftRight => .value (.integer (Integer.shiftRight a b))
  | negate => .value (.integer (-a))
  | bitNot => .value (.integer (~~~a))
  | div | pow =>
    .value (.ofFloat (op.onFloats (Float.ofInt a.toInt) (Float.ofInt b.toInt)))

/-- The operator yields a float even for two integers. -/
def isFractional : Operator → Bool
  | div | pow => true
  | _ => false

/-- An operator on the floats that two values convert to. -/
def applyFloats (op : Operator) (a b : Value) : Arithmetic :=
  match a.toFloat?, b.toFloat? with
  | some x, some y => .value (.ofFloat (op.onFloats x y))
  | _, _ => .unsuitable

/-- An operator on the integers that two values are equal to. -/
def applyIntegers (op : Operator) (a b : Value) : Arithmetic :=
  match a.toInteger?, b.toInteger? with
  | some x, some y => op.onIntegers x y
  | _, _ => .unsuitable

/-- An operator on two values, with no regard to metatables. -/
def apply (op : Operator) (a b : Value) : Arithmetic :=
  if op.isBitwise then op.applyIntegers a b
  else
    match a, b with
    | .integer x, .integer y =>
      if op.isFractional then op.applyFloats a b else op.onIntegers x y
    | _, _ => op.applyFloats a b

end Operator

end LuaMachine
