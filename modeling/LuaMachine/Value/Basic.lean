import LuaMachine.Code.Prototype
import LuaMachine.Number.Layout
import LuaMachine.Number.Numeral
import LuaMachine.Text.Quoted
import LuaMachine.Text.Utf8

/-!
# Values

A value is nil, a boolean, an integer, a float, a byte string, or a reference to an object.
Objects are tables, functions (closures of the machine's own code and native ones), userdata and
threads; a reference names its object by a number, and equal references name the same object.

## Main definitions

* `Reference`, `Value` : references and values.
* `Kind` : the basic types, `Value.kind` the type of a value.
* `Value.toNumber?`, `Value.toFloat?`, `Value.toInteger?` : conversions, which accept numerals in
  strings.
* `Value.rawEqual` : equality without metatables.
* `Value.text` : the text of a value.
-/

namespace LuaMachine

/-- The name of a table. -/
structure TableId where
  index : Nat
  deriving DecidableEq, Repr, Hashable, Inhabited

/-- The name of a closure. -/
structure ClosureId where
  index : Nat
  deriving DecidableEq, Repr, Hashable, Inhabited

/-- The name of a native function. -/
structure NativeId where
  index : Nat
  deriving DecidableEq, Repr, Hashable, Inhabited

/-- The name of a userdata object. -/
structure UserdataId where
  index : Nat
  deriving DecidableEq, Repr, Hashable, Inhabited

/-- The name of a thread. -/
structure ThreadId where
  index : Nat
  deriving DecidableEq, Repr, Hashable, Inhabited

/-- A reference to an object. -/
inductive Reference where
  | table (id : TableId)
  | closure (id : ClosureId)
  | native (id : NativeId)
  | userdata (id : UserdataId)
  | thread (id : ThreadId)
  deriving DecidableEq, Repr, Hashable

/-- A value.  A float is kept as its bits, which tell one NaN from another. -/
inductive Value where
  | nil
  | boolean (b : Bool)
  | integer (i : Int64)
  | float (bits : UInt64)
  | string (s : ByteArray)
  | object (r : Reference)
  deriving Inhabited

/-- The basic types. -/
inductive Kind where
  | nil | boolean | userdata | number | string | table | function | thread
  deriving DecidableEq, Repr

namespace Kind

/-- All basic types in the order of their tags. -/
def all : List Kind := [nil, boolean, userdata, number, string, table, function, thread]

/-- The name of a basic type. -/
def name : Kind → String
  | nil => "nil"
  | boolean => "boolean"
  | userdata => "userdata"
  | number => "number"
  | string => "string"
  | table => "table"
  | function => "function"
  | thread => "thread"

end Kind

namespace Reference

/-- The basic type of an object. -/
def kind : Reference → Kind
  | table _ => .table
  | closure _ | native _ => .function
  | userdata _ => .userdata
  | thread _ => .thread

/-- A number of its own for each object. -/
def ordinal : Reference → Nat
  | table id => 5 * id.index
  | closure id => 5 * id.index + 1
  | native id => 5 * id.index + 2
  | userdata id => 5 * id.index + 3
  | thread id => 5 * id.index + 4

/-- The identity of an object as text: a hexadecimal number that no two objects share. -/
def address (r : Reference) : String :=
  "0x" ++ String.ofList (Nat.toDigits 16 (0x7F0000000000 + 16 * r.ordinal))

end Reference

namespace Value

/-- A reference to a table. -/
@[match_pattern] abbrev table (id : TableId) : Value := .object (.table id)

/-- A reference to a closure. -/
@[match_pattern] abbrev closure (id : ClosureId) : Value := .object (.closure id)

/-- A reference to a native function. -/
@[match_pattern] abbrev native (id : NativeId) : Value := .object (.native id)

/-- A reference to a userdata object. -/
@[match_pattern] abbrev userdata (id : UserdataId) : Value := .object (.userdata id)

/-- A reference to a thread. -/
@[match_pattern] abbrev thread (id : ThreadId) : Value := .object (.thread id)

/-- The string with the UTF-8 bytes of a text. -/
def ofText (s : String) : Value := .string s.toUTF8

/-- A number as a value. -/
def ofNumber : Number → Value
  | .integer i => .integer i
  | .float bits => .float bits

/-- A float as a value. -/
def ofFloat (x : Float) : Value := .float x.toBits

/-- A natural number as an integer, reduced to 64 bits. -/
def ofNat (n : Nat) : Value := .integer (Int64.ofNat n)

/-- The value of a constant. -/
def ofConstant : Constant → Value
  | .nil => .nil
  | .boolean b => .boolean b
  | .integer i => .integer i
  | .float bits => .float bits
  | .string s => .string s

/-- The basic type of a value. -/
def kind : Value → Kind
  | nil => .nil
  | boolean _ => .boolean
  | integer _ | float _ => .number
  | string _ => .string
  | object r => r.kind

/-! ### Classification -/

/-- The value is nil. -/
def isNil : Value → Bool
  | nil => true
  | _ => false

/-- The value counts as true: all but nil and `false` do. -/
def isTruthy : Value → Bool
  | nil | boolean false => false
  | _ => true

/-- The value is an integer or a float. -/
def isNumber : Value → Bool
  | integer _ | float _ => true
  | _ => false

/-- The value is a closure or a native function. -/
def isFunction : Value → Bool
  | closure _ | native _ => true
  | _ => false

/-- The value refers to an object. -/
def isObject : Value → Bool
  | object _ => true
  | _ => false

/-- The value can be concatenated without a metamethod. -/
def isConcatenable : Value → Bool
  | string _ | integer _ | float _ => true
  | _ => false

/-- The table that the value refers to. -/
def table? : Value → Option TableId
  | table id => some id
  | _ => none

/-- The closure that the value refers to. -/
def closure? : Value → Option ClosureId
  | closure id => some id
  | _ => none

/-- The bytes of a string. -/
def bytes? : Value → Option ByteArray
  | string s => some s
  | _ => none

/-! ### Conversions -/

/-- The number that the value is or, for a string, holds. -/
def toNumber? : Value → Option Number
  | integer i => some (.integer i)
  | float bits => some (.float bits)
  | string s => Number.read? s
  | _ => none

/-- A number as a float; an integer is rounded to the nearest one. -/
def floatOf : Number → Float
  | .integer i => Float.ofInt i.toInt
  | .float bits => Float.ofBits bits

/-- The integer equal to a number. -/
def integerOf? : Number → Option Int64
  | .integer i => some i
  | .float bits => (Binary64.ofBits bits).toInt64?

/-- The value as a float. -/
def toFloat? (v : Value) : Option Float := v.toNumber?.map floatOf

/-- The integer equal to the value. -/
def toInteger? (v : Value) : Option Int64 := v.toNumber?.bind integerOf?

/-- The value as a float value: a float stays what it is, bit by bit. -/
def floating? : Value → Option Value
  | float bits => some (float bits)
  | v => v.toFloat?.map ofFloat

/-- The value as a float, if it is a number and not a string. -/
def asFloat? : Value → Option Float
  | integer i => some (Float.ofInt i.toInt)
  | float bits => some (Float.ofBits bits)
  | _ => none

/-! ### Text -/

/-- The text of a value, with no regard to metatables. -/
def text : Value → String
  | nil => "nil"
  | boolean b => toString b
  | integer i => toString i.toInt
  | float bits => (Binary64.ofBits bits).toText
  | string s => Text.ofBytes s
  | object r => r.kind.name ++ ": " ++ r.address

/-- The text of a value with strings in quotes. -/
def inspect : Value → String
  | string s => Text.quote (Text.ofBytes s)
  | v => v.text

/-- The bytes that the value contributes to a concatenation. -/
def concatBytes? : Value → Option ByteArray
  | string s => some s
  | integer i => some (toString i.toInt).toUTF8
  | float bits => some (Binary64.ofBits bits).toText.toUTF8
  | _ => none

/-! ### Equality -/

/-- Equality without metatables: numbers are compared by value, strings by content and objects by
identity. -/
def rawEqual : Value → Value → Bool
  | nil, nil => true
  | boolean a, boolean b => a == b
  | integer a, integer b => a == b
  | float a, float b => Float.ofBits a == Float.ofBits b
  | integer i, float a | float a, integer i => (Binary64.ofBits a).toInt64? == some i
  | string a, string b => a == b
  | object a, object b => a == b
  | _, _ => false

@[simp] theorem isNil_nil : isNil nil = true := rfl

theorem isNil_iff {v : Value} : v.isNil ↔ v = nil := by
  cases v <;> simp [isNil]

end Value

end LuaMachine
