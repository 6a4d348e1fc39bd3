import LuaMachine.Number.Binary64

/-!
# Numerals

A numeral is an optional sign followed by decimal or hexadecimal digits, with an optional fraction
and an optional exponent; blanks around it are ignored.  Reading is done in two steps: the bytes
are split into the parts of a numeral, and the parts are given a value.

A numeral without fraction and exponent is an integer: a hexadecimal one always, reduced to 64
bits, a decimal one if its signed value fits.  Any other numeral is a float.

## Main definitions

* `Number` : an integer or a float.
* `Numeral` : the parts of a numeral.
* `Numeral.parse?` : the parts of a byte string.
* `Numeral.value` : the number that the parts denote.
* `Number.read?` : the number written in a byte string.
-/

namespace LuaMachine

/-- An integer or a float.  A float is kept as its bits, which tell one NaN from another. -/
inductive Number where
  | integer (i : Int64)
  | float (bits : UInt64)
  deriving DecidableEq, Inhabited

/-- The base of the digits of a numeral. -/
inductive Radix where
  | decimal
  | hexadecimal
  deriving DecidableEq, Repr

/-- The digits of an exponent and its sign. -/
structure ExponentPart where
  negative : Bool
  digits : List UInt8

/-- The parts of a numeral.  Digits are bytes as written. -/
structure Numeral where
  negative : Bool
  radix : Radix
  whole : List UInt8
  /-- The digits after the point, if there is a point. -/
  fraction : Option (List UInt8)
  /-- The exponent, if there is an exponent mark. -/
  exponent : Option ExponentPart

namespace Numeral

/-- The blanks that may surround a numeral: space, tab, line feed, carriage return, vertical tab
and form feed. -/
def isBlank (b : UInt8) : Bool :=
  b == 0x20 || b == 0x09 || b == 0x0A || b == 0x0D || b == 0x0B || b == 0x0C

/-- The bytes without blanks at either end. -/
def trim (s : List UInt8) : List UInt8 :=
  ((s.dropWhile isBlank).reverse.dropWhile isBlank).reverse

/-- A decimal digit. -/
def isDecimalDigit (b : UInt8) : Bool := 0x30 ≤ b && b ≤ 0x39

/-- A hexadecimal digit of either case. -/
def isHexDigit (b : UInt8) : Bool :=
  isDecimalDigit b || (0x61 ≤ b && b ≤ 0x66) || (0x41 ≤ b && b ≤ 0x46)

/-- The value of a digit. -/
def digitValue (b : UInt8) : Nat :=
  if b ≤ 0x39 then b.toNat - 0x30
  else if b ≤ 0x46 then b.toNat - 0x41 + 10
  else b.toNat - 0x61 + 10

/-- The digits of a radix. -/
def isDigit : Radix → UInt8 → Bool
  | .decimal => isDecimalDigit
  | .hexadecimal => isHexDigit

/-- The letter that announces the exponent: `e` for decimal and `p` for hexadecimal numerals, in
either case. -/
def isExponentMark : Radix → UInt8 → Bool
  | .decimal, b => b == 0x65 || b == 0x45
  | .hexadecimal, b => b == 0x70 || b == 0x50

/-- Splits off a sign: whether it is a minus, and the rest. -/
def splitSign : List UInt8 → Bool × List UInt8
  | 0x2D :: rest => (true, rest)
  | 0x2B :: rest => (false, rest)
  | s => (false, s)

/-- Splits off the mark of a hexadecimal numeral. -/
def splitRadix : List UInt8 → Radix × List UInt8
  | 0x30 :: 0x78 :: rest => (.hexadecimal, rest)
  | 0x30 :: 0x58 :: rest => (.hexadecimal, rest)
  | s => (.decimal, s)

/-- Splits off a point and the digits after it. -/
def splitFraction (radix : Radix) : List UInt8 → Option (List UInt8) × List UInt8
  | 0x2E :: rest => (some (rest.takeWhile (isDigit radix)), rest.dropWhile (isDigit radix))
  | s => (none, s)

/-- Reads what follows the digits: nothing, or an exponent with at least one decimal digit. -/
def parseExponent? (radix : Radix) : List UInt8 → Option (Option ExponentPart)
  | [] => some none
  | mark :: rest =>
    let (negative, digits) := splitSign rest
    if isExponentMark radix mark && !digits.isEmpty && digits.all isDecimalDigit then
      some (some ⟨negative, digits⟩)
    else none

/-- The parts of a numeral without blanks around it. -/
def ofList? (s : List UInt8) : Option Numeral :=
  let (negative, body) := splitSign s
  let (radix, body) := splitRadix body
  let whole := body.takeWhile (isDigit radix)
  let (fraction, rest) := splitFraction radix (body.dropWhile (isDigit radix))
  if whole.isEmpty && (fraction.getD []).isEmpty then none
  else (parseExponent? radix rest).map fun exponent =>
    { negative, radix, whole, fraction, exponent }

/-- The parts of the numeral that a byte string holds, blanks around it ignored. -/
def parse? (s : List UInt8) : Option Numeral := ofList? (trim s)

/-- The value of a list of digits in base `base`. -/
def natValue (base : Nat) (digits : List UInt8) : Nat :=
  digits.foldl (fun n b => n * base + digitValue b) 0

/-- `± x`. -/
def applySign (negative : Bool) (x : Float) : Float := if negative then -x else x

/-- The value of a decimal numeral as the nearest float. -/
def decimalFloat (n : Numeral) : Float :=
  let fraction := n.fraction.getD []
  let shift : Int := match n.exponent with
    | none => 0
    | some e => Binary64.signed e.negative (natValue 10 e.digits)
  let exponent := shift - fraction.length
  Float.ofScientific (natValue 10 (n.whole ++ fraction)) (exponent < 0) exponent.natAbs

/-- The digits of an exponent as a 64-bit integer.  A product or a sum that is too large becomes
the greatest integer. -/
def exponentMagnitude (digits : List UInt8) : Int64 :=
  digits.foldl (fun e b =>
    Int64.ofIntClamp ((Int64.ofIntClamp (e.toInt * 10)).toInt + digitValue b)) 0

/-- An exponent as a 64-bit integer. -/
def exponentWord (e : ExponentPart) : Int64 :=
  if e.negative then -exponentMagnitude e.digits else exponentMagnitude e.digits

/-- The binary exponent of a hexadecimal numeral: four less for each digit after the point, and
the exponent as written, in 64-bit arithmetic. -/
def binaryExponent (n : Numeral) : Int64 :=
  let scale := (n.fraction.getD []).foldl (fun exponent _ => exponent - 4) 0
  match n.exponent with
  | none => scale
  | some e => scale + exponentWord e

/-- The digits of a hexadecimal numeral, before and after the point, as a float.  They accumulate in
floating point. -/
def hexadecimalMantissa (digits : List UInt8) : Float :=
  digits.foldl (fun x b => x * 16.0 + (digitValue b).toFloat) 0.0

/-- The value of a hexadecimal numeral as a float: its digits, multiplied by the power of two. -/
def hexadecimalFloat (n : Numeral) : Float :=
  let exponent := max (-0x80000000) (min (binaryExponent n).toInt 0x7FFFFFFF)
  hexadecimalMantissa (n.whole ++ n.fraction.getD []) * Binary64.powerOfTwo exponent

/-- The value of a numeral as a float. -/
def floatValue (n : Numeral) : Float :=
  applySign n.negative <| match n.radix with
    | .decimal => decimalFloat n
    | .hexadecimal => hexadecimalFloat n

/-- The signed value of the digits before the point. -/
def wholeValue (n : Numeral) : Int :=
  Binary64.signed n.negative <| natValue (match n.radix with
    | .decimal => 10
    | .hexadecimal => 16) n.whole

/-- A natural number as an unsigned 64-bit integer, if it is in range. -/
def unsigned? (n : Nat) : Option UInt64 :=
  if n < 0x10000000000000000 then some (UInt64.ofNat n) else none

/-- The greatest magnitude of a 64-bit integer of a sign. -/
def magnitudeBound (negative : Bool) : UInt64 :=
  if negative then 0x8000000000000000 else 0x7FFFFFFFFFFFFFFF

/-- A magnitude with one more decimal digit, if it does not exceed the bound. -/
def decimalStep? (bound magnitude : UInt64) (b : UInt8) : Option UInt64 := do
  let tens ← unsigned? (magnitude.toNat * 10)
  let next ← unsigned? (tens.toNat + digitValue b)
  if next ≤ bound then some next else none

/-- The magnitude that decimal digits denote, if an integer of the sign can have it. -/
def decimalMagnitude? (negative : Bool) (digits : List UInt8) : Option UInt64 :=
  digits.foldlM (decimalStep? (magnitudeBound negative)) 0

/-- The magnitude that hexadecimal digits denote, reduced to 64 bits. -/
def hexadecimalMagnitude (digits : List UInt8) : UInt64 :=
  digits.foldl (fun a b => a * 16 + UInt64.ofNat (digitValue b)) 0

/-- The integer of a sign and a magnitude, reduced to 64 bits. -/
def signedWord (negative : Bool) (magnitude : UInt64) : Int64 :=
  if negative then -magnitude.toInt64 else magnitude.toInt64

/-- The integer that a numeral denotes, if it has neither fraction nor exponent and, for a decimal
numeral, the value is in range. -/
def integerValue? (n : Numeral) : Option Int64 :=
  match n.fraction, n.exponent, n.radix with
  | none, none, .hexadecimal => some (signedWord n.negative (hexadecimalMagnitude n.whole))
  | none, none, .decimal =>
    (decimalMagnitude? n.negative n.whole).map (signedWord n.negative)
  | _, _, _ => none

/-- The number that a numeral denotes. -/
def value (n : Numeral) : Number :=
  match n.integerValue? with
  | some i => .integer i
  | none => .float n.floatValue.toBits

end Numeral

/-- The number written in a byte string, if it holds a numeral. -/
def Number.read? (s : ByteArray) : Option Number :=
  (Numeral.parse? s.toList).map Numeral.value

end LuaMachine
