import LuaMachine.Operator

/-!
# Metamethod events

A metatable changes what an operation does to a value: the operation looks for a handler under the
key of its event.  The field `__name` is listed with the events although it holds a type name and
not a handler.

## Main definitions

* `Event` : the events, `Event.all` the list of them in their fixed order.
* `Event.shortName`, `Event.name` : the name of an event without and with the two leading
  underscores.
-/

namespace LuaMachine

/-- The events for which a metatable may hold a handler. -/
inductive Event where
  | index | newIndex | length | equal
  | arithmetic (op : Operator)
  | less | lessEqual | concat | call | toText | typeName
  deriving DecidableEq, Repr, Inhabited

namespace Event

/-- All events in their order. -/
def all : List Event :=
  [index, newIndex, length, equal] ++ Operator.all.map arithmetic ++
    [less, lessEqual, concat, call, toText, typeName]

/-- The name of an event, as messages about metamethods show it. -/
def shortName : Event → String
  | index => "index"
  | newIndex => "newindex"
  | length => "len"
  | equal => "eq"
  | arithmetic .add => "add"
  | arithmetic .sub => "sub"
  | arithmetic .mul => "mul"
  | arithmetic .mod => "mod"
  | arithmetic .pow => "pow"
  | arithmetic .div => "div"
  | arithmetic .floorDiv => "idiv"
  | arithmetic .bitAnd => "band"
  | arithmetic .bitOr => "bor"
  | arithmetic .bitXor => "bxor"
  | arithmetic .shiftLeft => "shl"
  | arithmetic .shiftRight => "shr"
  | arithmetic .negate => "unm"
  | arithmetic .bitNot => "bnot"
  | less => "lt"
  | lessEqual => "le"
  | concat => "concat"
  | call => "call"
  | toText => "tostring"
  | typeName => "name"

/-- The key under which a metatable holds the handler. -/
def name (e : Event) : String := "__" ++ e.shortName

/-- The event with a given key. -/
def ofName? (s : String) : Option Event := all.find? (·.name == s)

theorem mem_all (e : Event) : e ∈ all := by
  cases e with
  | arithmetic op => cases op <;> decide
  | _ => decide

end Event

end LuaMachine
