/-!
# The values of floating-point numbers

A finite double denotes the rational number `± mantissa · 2 ^ exponent`.  This file reads that
form off the bits and derives from it, in exact integer arithmetic, what the machine needs beyond
the operations of `Float`: the floor and the ceiling as integers, the integer equal to a float if
there is one, the order between integers and floats, and the remainder of a truncating division.

## Main definitions

* `Binary64` : what the bits of a float denote; `Binary64.ofFloat` reads it.
* `Binary64.floor?`, `Binary64.ceil?` : the nearest integers below and above.
* `Binary64.toInt64?` : the 64-bit integer with the same value.
* `Binary64.compareInt` : the order between an integer and a float.
* `Binary64.remainder`, `Binary64.floorRemainder` : remainders of a division of floats.
* `Binary64.powerOfTwo` : a power of two as a float.
-/

namespace LuaMachine

/-- What the bits of a double denote. -/
inductive Binary64 where
  /-- Not a number; it keeps its sign. -/
  | nan (negative : Bool)
  | infinity (negative : Bool)
  /-- The number `± mantissa · 2 ^ exponent`; a zero keeps its sign. -/
  | finite (negative : Bool) (mantissa : Nat) (exponent : Int)
  deriving Repr, DecidableEq, Inhabited

namespace Binary64

/-- The denotation of 64 bits: a sign, eleven bits of biased exponent and 52 bits of fraction. -/
def ofBits (bits : UInt64) : Binary64 :=
  let negative := bits >>> 63 == 1
  let biased := ((bits >>> 52) &&& 0x7FF).toNat
  let fraction := (bits &&& 0xFFFFFFFFFFFFF).toNat
  if biased = 2047 then
    if fraction = 0 then .infinity negative else .nan negative
  else if biased = 0 then .finite negative fraction (-1074)
  else .finite negative (0x10000000000000 + fraction) (biased - 1075)

/-- The denotation of a float. -/
def ofFloat (x : Float) : Binary64 := ofBits x.toBits

/-- The factor between the units of two exponents that are `n` apart: the `n`-th power of two. -/
def scale (n : Nat) : Nat := Nat.pow 2 n

/-- The integer `± n`. -/
def signed (negative : Bool) (n : Nat) : Int := if negative then -n else n

/-- The greatest integer not above a finite value. -/
def floor? : Binary64 → Option Int
  | .finite negative m e =>
    if 0 ≤ e then some (signed negative (m * scale e.toNat))
    else some ((signed negative m).fdiv (scale (-e).toNat))
  | _ => none

/-- The least integer not below a finite value. -/
def ceil? : Binary64 → Option Int
  | .finite negative m e =>
    if 0 ≤ e then some (signed negative (m * scale e.toNat))
    else some (-((-signed negative m).fdiv (scale (-e).toNat)))
  | _ => none

/-- The integer equal to the value, if there is one. -/
def toInt? (x : Binary64) : Option Int :=
  match x.floor?, x.ceil? with
  | some lo, some hi => if lo = hi then some lo else none
  | _, _ => none

/-- An integer as a machine word, if it is in range. -/
def word? (i : Int) : Option Int64 :=
  if -0x8000000000000000 ≤ i ∧ i < 0x8000000000000000 then some (Int64.ofInt i) else none

/-- The 64-bit integer equal to the value, if there is one. -/
def toInt64? (x : Binary64) : Option Int64 := x.toInt?.bind word?

/-- How the integer `i` stands to the value; nothing is comparable to NaN.  Both sides are scaled
by a power of two that makes them integers. -/
def compareInt (i : Int) : Binary64 → Option Ordering
  | .nan _ => none
  | .infinity true => some .gt
  | .infinity false => some .lt
  | .finite negative m e =>
    some (compare (i * scale (-e).toNat) (signed negative m * scale e.toNat))

/-- The float `± mantissa · 2 ^ exponent`, where that number has at most 53 significant bits and
lies in range, as the results of exact operations do.  The mantissa is brought to 53 bits, or to
the least exponent for a subnormal number. -/
def assemble (negative : Bool) (mantissa : Nat) (exponent : Int) : Float :=
  let sign : UInt64 := if negative then 0x8000000000000000 else 0
  if mantissa = 0 then Float.ofBits sign
  else
    let target := max (exponent + mantissa.log2 - 52) (-1074)
    let m := if target ≤ exponent then mantissa * scale (exponent - target).toNat
      else mantissa / scale (target - exponent).toNat
    let bits := if m < 0x10000000000000 then UInt64.ofNat m
      else (UInt64.ofNat (target + 1075).toNat <<< 52) ||| (UInt64.ofNat m &&& 0xFFFFFFFFFFFFF)
    Float.ofBits (sign ||| bits)

/-- The power `2 ^ e` as a float.  It is computed through the power with the exponent's absolute
value, so that powers below `2 ^ (-1023)` are zero rather than subnormal; powers from `2 ^ 1024`
on are infinite. -/
def powerOfTwo (e : Int) : Float :=
  if e < -1023 then 0.0
  else if 1023 < e then Float.ofBits 0x7FF0000000000000
  else assemble false 1 e

/-- The remainder of `x / y` with the quotient truncated, which is exact and takes the sign of
`x`. -/
def remainder (x y : Float) : Float :=
  match ofFloat x, ofFloat y with
  | .finite s m e, .finite _ n f =>
    if n = 0 then Float.ofBits 0x7FF8000000000000
    else
      let low := min e f
      assemble s ((m * scale (e - low).toNat) % (n * scale (f - low).toNat)) low
  | .finite .., .infinity _ => x
  | _, _ => Float.ofBits 0x7FF8000000000000

/-- The remainder of `x / y` with the quotient rounded toward negative infinity: a nonzero
remainder takes the sign of `y`. -/
def floorRemainder (x y : Float) : Float :=
  let r := remainder x y
  if r != 0 && ((0 < r : Bool) != (0 < y : Bool)) then r + y else r

end Binary64

end LuaMachine
