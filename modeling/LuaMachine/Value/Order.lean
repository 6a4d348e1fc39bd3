import LuaMachine.Text.Bytes
import LuaMachine.Value.Basic

/-!
# The order of values

Numbers are ordered by the values they denote, whatever their representation, and strings by their
bytes.  All other pairs of values have no order of their own.

An integer and a float are compared without rounding the integer: the float is rounded to an integer
in the direction that keeps the answer.

## Main definitions

* `Binary64.compareRounded` : the comparison of a float with an integer.
* `Value.less?`, `Value.lessEqual?` : the order, `none` for pairs that have none.
-/

namespace LuaMachine

/-- A comparison with a float that is made on 64-bit integers.  The float is rounded and tested.
If the rounded float has more than 64 bits, the float lies beyond all integers, and the comparison
holds if zero stands to it as `zero` says.  NaN compares with nothing. -/
def Binary64.compareRounded (round : Binary64 → Option Int) (test : Int64 → Bool)
    (zero : Ordering) : Binary64 → Bool
  | .nan _ => false
  | x =>
    match (round x).bind word? with
    | some i => test i
    | none => x.compareInt 0 == some zero

namespace Value

/-- `a < b` for two numbers or two strings. -/
def less? : Value → Value → Option Bool
  | integer a, integer b => some (a < b)
  | float a, float b => some (Float.ofBits a < Float.ofBits b)
  | integer i, float a => some ((Binary64.ofBits a).compareRounded Binary64.ceil? (i < ·) .lt)
  | float a, integer i => some ((Binary64.ofBits a).compareRounded Binary64.floor? (· < i) .gt)
  | string a, string b => some (Text.order a.toList b.toList == .lt)
  | _, _ => none

/-- `a ≤ b` for two numbers or two strings. -/
def lessEqual? : Value → Value → Option Bool
  | integer a, integer b => some (a ≤ b)
  | float a, float b => some (Float.ofBits a ≤ Float.ofBits b)
  | integer i, float a => some ((Binary64.ofBits a).compareRounded Binary64.floor? (i ≤ ·) .lt)
  | float a, integer i => some ((Binary64.ofBits a).compareRounded Binary64.ceil? (· ≤ i) .gt)
  | string a, string b => some (Text.order a.toList b.toList != .gt)
  | _, _ => none

/-- Values that differ may still be made equal by a metamethod: two tables or two userdata
objects. -/
def mayOverloadEqual : Value → Value → Bool
  | table _, table _ | userdata _, userdata _ => true
  | _, _ => false

end Value

end LuaMachine
