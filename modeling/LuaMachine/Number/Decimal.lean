/-!
# Decimal digits of a binary fraction

Every number `m · 2 ^ e` has a finite decimal expansion: for negative `e` it is
`m · 5 ^ (-e)` units of `10 ^ e`.  All digit selection below starts from that exact expansion and
uses natural numbers only.

## Main definitions

* `Decimal` : a number `coefficient · 10 ^ exponent`.
* `Decimal.exact` : the expansion of `m · 2 ^ e`.
* `Decimal.roundTo` : the nearest decimal with a given number of digits, ties to even.
* `Decimal.shortest` : the decimal with the fewest digits that rounds to a given double, and of
  those the nearest to it.
-/

namespace LuaMachine

/-- The number `coefficient · 10 ^ exponent`. -/
structure Decimal where
  coefficient : Nat
  exponent : Int
  deriving Repr, DecidableEq, Inhabited

namespace Decimal

/-- The factor that turns units of `2 ^ e` into decimal units. -/
def unitFactor (e : Int) : Nat :=
  if 0 ≤ e then Nat.pow 2 e.toNat else Nat.pow 5 (-e).toNat

/-- The exact decimal expansion of `m · 2 ^ e`. -/
def exact (m : Nat) (e : Int) : Decimal where
  coefficient := m * unitFactor e
  exponent := min e 0

/-- The number of decimal digits of `n`; zero has one. -/
def digitCount (n : Nat) : Nat := (Nat.toDigits 10 n).length

/-- The nearest decimal with at most `n` digits; a tie goes to the even last digit.  Rounding up
`9…9` gives a power of ten with one digit more, all of them zeros but the first. -/
def roundTo (n : Nat) (d : Decimal) : Decimal :=
  let cut := digitCount d.coefficient - n
  let unit := Nat.pow 10 cut
  let q := d.coefficient / unit
  let r := 2 * (d.coefficient % unit)
  if unit < r ∨ (unit = r ∧ q % 2 = 1) then ⟨q + 1, d.exponent + cut⟩
  else ⟨q, d.exponent + cut⟩

/-- The decimals that round to the double `m · 2 ^ e`, with the value itself, all as multiples of
one decimal unit.  The ends belong to the interval exactly if the mantissa is even. -/
structure Interval where
  value : Nat
  low : Nat
  high : Nat
  closed : Bool
  exponent : Int

/-- The rounding interval of `m · 2 ^ e`: half a unit up, and half a unit down, or a quarter where
the double below lies in a binade with a finer grid. -/
def Interval.ofBinary (m : Nat) (e : Int) : Interval :=
  let unit := unitFactor (e - 2)
  let below := if m = 0x10000000000000 ∧ e ≠ -1074 then 1 else 2
  { value := 4 * m * unit
    low := (4 * m - below) * unit
    high := (4 * m + 2) * unit
    closed := m % 2 = 0
    exponent := min (e - 2) 0 }

/-- Whether `x` units lie in the interval. -/
def Interval.contains (i : Interval) (x : Nat) : Bool :=
  (i.low < x && x < i.high) || (i.closed && (x == i.low || x == i.high))

/-- The nearest point of the interval on the grid of decimals with `n` digits, if the grid has
one: the two neighbours of the value decide, and of two at equal distance the upper is taken. -/
def Interval.onGrid? (i : Interval) (n : Nat) : Option Decimal :=
  let cut := digitCount i.value - n
  let unit := Nat.pow 10 cut
  let q := i.value / unit
  let down := q * unit
  let up := (q + 1) * unit
  match i.contains down, i.contains up with
  | true, true =>
    some (if i.value - down < up - i.value then ⟨q, i.exponent + cut⟩
      else ⟨q + 1, i.exponent + cut⟩)
  | true, false => some ⟨q, i.exponent + cut⟩
  | false, true => some ⟨q + 1, i.exponent + cut⟩
  | false, false => none

/-- The decimal with the fewest digits that rounds to `m · 2 ^ e`.  Seventeen digits always
suffice, so the exact expansion at the end is never reached for a double. -/
def shortest (m : Nat) (e : Int) : Decimal :=
  let i := Interval.ofBinary m e
  ((List.range' 1 17).findSome? i.onGrid?).getD (exact m e)

/-- The digits of the coefficient without trailing zeros; a zero has none. -/
def significant (d : Decimal) : List Char :=
  ((Nat.toDigits 10 d.coefficient).reverse.dropWhile (· == '0')).reverse

/-- The power of ten of the first digit. -/
def magnitude (d : Decimal) : Int := d.exponent + digitCount d.coefficient - 1

end Decimal

end LuaMachine
