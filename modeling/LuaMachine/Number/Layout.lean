import LuaMachine.Number.Binary64
import LuaMachine.Number.Decimal

/-!
# The text of a float

A float is written from its significant digits and the power of ten of the first one.  Within a
range of magnitudes the digits are written positionally, outside of it with an exponent.  A
positional text without a fraction gets `.0`, so that it reads back as a float.

## Main definitions

* `Layout` : the range written positionally, the form of exponents and the words for the values
  that are not finite.
* `Layout.render` : the text of a float from given digits.
* `Binary64.toText` : the text of a float value, with fourteen significant digits.
* `Binary64.toLiteral` : the text with the fewest digits that read back, as listings show constants.
-/

namespace LuaMachine

/-- The form in which floats are written. -/
structure Layout where
  /-- Magnitudes below this are written with an exponent. -/
  least : Int
  /-- Magnitudes from this on are written with an exponent. -/
  bound : Int
  /-- The sign written before an exponent that is not negative. -/
  plus : String
  /-- The least number of digits of an exponent. -/
  exponentWidth : Nat
  /-- The word for a value that is not a number. -/
  nan : String
  /-- Whether that word takes a sign. -/
  signsNan : Bool
  /-- The word for positive infinity. -/
  infinity : String

namespace Layout

/-- Floats as values: like `%.14g`, so the exponent has a sign and two digits. -/
def value : Layout where
  least := -4
  bound := 14
  plus := "+"
  exponentWidth := 2
  nan := "nan"
  signsNan := true
  infinity := "inf"

/-- Floats in listings: positional up to sixteen digits, and bare exponents. -/
def listing : Layout where
  least := -4
  bound := 16
  plus := ""
  exponentWidth := 1
  nan := "NaN"
  signsNan := false
  infinity := "inf"

/-- Zeros. -/
def zeros (n : Nat) : List Char := List.replicate n '0'

/-- The digits `ds`, the first of which stands for `10 ^ k`, in positional notation, with `.0` if
there is no fraction. -/
def positional (ds : List Char) (k : Int) : List Char :=
  if k < 0 then '0' :: '.' :: (zeros (-k - 1).toNat ++ ds)
  else
    let whole := k.toNat + 1
    let fraction := ds.drop whole
    ds.take whole ++ zeros (whole - ds.length) ++ '.' :: (if fraction = [] then ['0'] else fraction)

/-- The digits `ds`, the first of which stands for `10 ^ k`, with an exponent. -/
def scientific (l : Layout) (ds : List Char) (k : Int) : List Char :=
  let mantissa := match ds with
    | d :: (f :: fs) => d :: '.' :: f :: fs
    | _ => ds
  let exponent := Nat.toDigits 10 k.natAbs
  let sign := if k < 0 then ['-'] else l.plus.toList
  mantissa ++ 'e' :: (sign ++ zeros (l.exponentWidth - exponent.length) ++ exponent)

/-- The text of a float whose finite nonzero values have the digits that `choose` selects from the
mantissa and the binary exponent. -/
def render (l : Layout) (choose : Nat → Int → Decimal) (x : Binary64) : String :=
  match x with
  | .nan negative => if negative && l.signsNan then "-" ++ l.nan else l.nan
  | .infinity negative => if negative then "-" ++ l.infinity else l.infinity
  | .finite negative m e =>
    let body :=
      if m = 0 then ['0', '.', '0']
      else
        let d := choose m e
        let k := d.magnitude
        if l.least ≤ k ∧ k < l.bound then positional d.significant k
        else l.scientific d.significant k
    String.ofList (if negative then '-' :: body else body)

end Layout

/-- The text of a float value: fourteen significant digits, ties to even, without trailing
zeros. -/
def Binary64.toText (x : Binary64) : String :=
  Layout.value.render (fun m e => (Decimal.exact m e).roundTo 14) x

/-- The text of a float constant in a listing: the fewest digits that read back. -/
def Binary64.toLiteral (x : Binary64) : String :=
  Layout.listing.render Decimal.shortest x

end LuaMachine
