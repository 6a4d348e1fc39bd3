import LuaMachine.Value.Basic

/-!
# Table keys

A table identifies keys by raw equality.  A key is a normal form of a value: a float equal to an
integer becomes that integer, and nil and NaN are no keys.

## Main definitions

* `Key` : the normal forms.
* `Key.ofValue`, `Key.toValue` : from values to keys and back.
* `Key.Fault` : why a value is no key.
-/

namespace LuaMachine

/-- A key of a table. -/
inductive Key where
  | integer (i : Int64)
  | string (s : ByteArray)
  /-- A float that is not equal to an integer, by its bits. -/
  | float (bits : UInt64)
  | boolean (b : Bool)
  | object (r : Reference)
  deriving DecidableEq, Hashable

/-- Why a value cannot be a key. -/
inductive Key.Fault where
  | nil | nan
  deriving DecidableEq, Repr

namespace Key

/-- The key of a float with the given bits. -/
def ofBits (bits : UInt64) : Except Fault Key :=
  match Binary64.ofBits bits with
  | .nan _ => .error .nan
  | x =>
    match x.toInt64? with
    | some i => .ok (.integer i)
    | none => .ok (.float bits)

/-- The key of a value. -/
def ofValue : Value → Except Fault Key
  | .nil => .error .nil
  | .boolean b => .ok (.boolean b)
  | .integer i => .ok (.integer i)
  | .float bits => ofBits bits
  | .string s => .ok (.string s)
  | .object r => .ok (.object r)

/-- The value of a key. -/
def toValue : Key → Value
  | integer i => .integer i
  | string s => .string s
  | float bits => .float bits
  | boolean b => .boolean b
  | object r => .object r

/-- The key with the UTF-8 bytes of a text. -/
def ofText (s : String) : Key := .string s.toUTF8

end Key

end LuaMachine
