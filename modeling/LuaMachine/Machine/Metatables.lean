import LuaMachine.Machine.Basic

/-!
# Metatables

Every table and every userdata object has a metatable of its own; all other values share one with
the values of the same basic type.

## Main definitions

* `Machine.metatable?` : the metatable of a value.
* `Machine.handler?` : the handler of a value for an event.
* `Machine.typeName`, `Machine.blamedTypeName` : type names for messages.
* `Metatable.assign` : gives a value a metatable.
-/

namespace LuaMachine

namespace Machine

/-- The metatable of a value. -/
def metatable? (m : Machine) : Value → Option TableId
  | .table id => (m.heap.table id).metatable
  | .userdata id => (m.heap.userdatum id).metatable
  | v => (m.kindMetatables.find? fun (kind, _) => kind == v.kind).map (·.2)

/-- A field of the metatable of a value, nil if there is none. -/
def metafield (m : Machine) (v : Value) (e : Event) : Value :=
  match m.metatable? v with
  | some id => (m.heap.table id).getText e.name
  | none => .nil

/-- The handler of a value for an event. -/
def handler? (m : Machine) (v : Value) (e : Event) : Option Value :=
  let handler := m.metafield v e
  if handler.isNil then none else some handler

/-- The handler of the first value for an event or else that of the second. -/
def binaryHandler? (m : Machine) (a b : Value) (e : Event) : Option Value :=
  (m.handler? a e).or (m.handler? b e)

/-- The type name that the metatable of a value holds. -/
def customTypeName? (m : Machine) (v : Value) : Option String :=
  (m.metafield v .typeName).bytes?.map Text.ofBytes

/-- The type name of a value, which its metatable may replace. -/
def typeName (m : Machine) (v : Value) : String := (m.customTypeName? v).getD v.kind.name

/-- The type name of a value that an operation complains about: only the metatables of tables and
userdata objects may replace it. -/
def blamedTypeName (m : Machine) (v : Value) : String :=
  match v.kind with
  | .table | .userdata => m.typeName v
  | kind => kind.name

end Machine

namespace Metatable

/-- Gives a value a metatable or takes it away; for values other than tables and userdata objects
this concerns all values of the basic type. -/
def assign (v : Value) (metatable : Option TableId) : Routine Unit := modify fun m =>
  match v with
  | .table id => { m with heap := m.heap.modifyTable id ({ · with metatable }) }
  | .userdata id => { m with heap := m.heap.setUserdataMetatable id metatable }
  | v =>
    let others := m.kindMetatables.filter fun (kind, _) => kind != v.kind
    { m with
      kindMetatables := match metatable with
        | some id => (v.kind, id) :: others
        | none => others }

end Metatable

end LuaMachine
