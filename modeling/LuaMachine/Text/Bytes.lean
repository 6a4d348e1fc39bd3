/-!
# Byte strings

The equality and the order of byte strings and the hash that samples a string from its end.

## Main definitions

* `Text.decideEq` : equality of byte strings.
* `Text.order` : the lexicographic order of bytes.
* `Text.hash` : a 32-bit hash of a byte string.
-/

namespace LuaMachine.Text

/-- Two byte strings are equal if their bytes are, which is decided without unpacking them. -/
instance (priority := 2000) decideEq : DecidableEq ByteArray := ByteArray.decEq

/-- The lexicographic order: the first byte that differs decides, and a proper beginning comes
first. -/
def order : List UInt8 → List UInt8 → Ordering
  | [], [] => .eq
  | [], _ :: _ => .lt
  | _ :: _, [] => .gt
  | a :: as, b :: bs => if a < b then .lt else if b < a then .gt else order as bs

/-- One byte enters the hash. -/
def mix (h : UInt32) (b : UInt8) : UInt32 :=
  h ^^^ ((h <<< 5) + (h >>> 2) + b.toUInt32)

/-- Mixes the bytes at the places `l - 1`, `l - 1 - step`, … into the hash. -/
def hashFrom (s : ByteArray) (step : Nat) (h : UInt32) (l : Nat) : UInt32 :=
  if 0 < step ∧ step ≤ l then hashFrom s step (mix h (s[l - 1]?.getD 0)) (l - step) else h
termination_by l

/-- The hash of a byte string.  A string of 32 bytes or more is sampled at regular distances from
its end. -/
def hash (s : ByteArray) : UInt32 :=
  hashFrom s (s.size / 32 + 1) (0x2545F491 ^^^ UInt32.ofNat s.size) s.size

end LuaMachine.Text
