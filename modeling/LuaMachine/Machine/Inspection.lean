import LuaMachine.Machine.Basic

/-!
# Descriptions of objects

## Main definitions

* `Machine.describe` : a short description of an object for its developer.
-/

namespace LuaMachine.Machine

/-- A short description of a value: what a closure was compiled from, the name of a native
function, and whether a userdata object has a metatable. -/
def describe (m : Machine) : Value → String
  | .closure id =>
    let c := m.heap.closure id
    s!"LuaClosure({c.proto.source}:{c.proto.lineDefined}, {c.cells.size} upvalues)"
  | .native id => s!"NativeFunction({(m.heap.native id).name})"
  | .userdata id =>
    "HostValue \x7b has_metatable: " ++ toString (m.heap.userdatum id).metatable.isSome ++ " \x7d"
  | .thread id =>
    "ThreadHandle \x7b name: Some(" ++ Text.quote (m.heap.threadName id) ++ ") \x7d"
  | .table id => (m.heap.table id).shape
  | v => v.inspect

end LuaMachine.Machine
