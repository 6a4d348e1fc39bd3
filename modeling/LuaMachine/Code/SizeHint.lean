/-!
# Size hints

The instruction that creates a table carries two size hints, each in one byte of the form
`eeeeexxx`: a number below 8 stands for itself, and otherwise the byte stands for
`(8 + xxx) · 2 ^ (eeeee - 1)`.  Encoding rounds up.

## Main definitions

* `SizeHint.encode` : the byte for a size.
* `SizeHint.decode` : the size that a byte stands for.
-/

namespace LuaMachine.SizeHint

/-- Divides by 16, rounding up, while the number is 128 or more; counts four binary places each
time.  The addition wraps at 32 bits. -/
def coarse (x : UInt32) (places : UInt32) : UInt32 × UInt32 :=
  if 128 ≤ x then coarse ((x + 15) >>> 4) (places + 4) else (x, places)
termination_by x.toNat
decreasing_by
  rename_i h
  have hx : 128 ≤ x.toNat := by simpa [UInt32.le_iff_toNat_le] using h
  have := x.toNat_lt
  simp only [UInt32.toNat_shiftRight, UInt32.toNat_add, UInt32.reduceToNat, Nat.reduceMod,
    Nat.shiftRight_eq_div_pow]
  omega

/-- Divides by 2, rounding up, while the number is 16 or more; counts one binary place each
time. -/
def fine (x : UInt32) (places : UInt32) : UInt32 × UInt32 :=
  if 16 ≤ x then fine ((x + 1) >>> 1) (places + 1) else (x, places)
termination_by x.toNat
decreasing_by
  rename_i h
  have hx : 16 ≤ x.toNat := by simpa [UInt32.le_iff_toNat_le] using h
  have := x.toNat_lt
  simp only [UInt32.toNat_shiftRight, UInt32.toNat_add, UInt32.reduceToNat, Nat.reduceMod,
    Nat.shiftRight_eq_div_pow]
  omega

/-- The byte that stands for the least size not below `x` that has a byte. -/
def encode (x : UInt32) : UInt32 :=
  if x < 8 then x
  else
    let (y, e) := coarse x 0
    let (z, e) := fine y e
    ((e + 1) <<< 3) ||| (z - 8)

/-- The size that `x` stands for, in 64 bits: bits shifted out at the top are lost. -/
def decode (x : UInt32) : UInt64 :=
  if x < 8 then x.toUInt64
  else ((x &&& 7) + 8).toUInt64 <<< ((x >>> 3) - 1).toUInt64

end LuaMachine.SizeHint
