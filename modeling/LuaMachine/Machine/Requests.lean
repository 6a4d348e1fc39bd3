import LuaMachine.Machine.Loading
import LuaMachine.Machine.Operations

/-!
# Answers to native functions

## Main definitions

* `Request.perform` : what the machine does for a request.
* `Behaviour.run` : a native function as a computation of the machine.
-/

namespace LuaMachine

namespace Journal

/-- An entry for values.  The heap is kept only if they refer to it. -/
def entryOf (values : List Value) (m : Machine) : JournalEntry :=
  .values values (if values.any (·.isObject) then m.heap else {})

/-- Adds an entry. -/
def add (entry : Machine → JournalEntry) : Exec Unit := fun m =>
  let entry := entry m
  .done { m with notebook.journal := entry :: m.notebook.journal } ()

end Journal

namespace Request

/-- How the running native function is called in complaints about its arguments. -/
def complainedName? (m : Machine) : Option CalleeName :=
  (m.frameInfoAt? 0).map fun _ => m.calleeName?.getD ⟨"?", false⟩

/-- Fails at the position of the caller. -/
def complainAtCaller {α : Type} (cause : Machine → Cause) : Exec α := fun m =>
  .stopped m (.failure { cause := cause m, position := m.position 1 })

/-- Nothing, as the answer of an operation that yields no value. -/
def silently (x : Exec Unit) : Exec (List Value) := do
  x
  pure []

/-- One value as an answer. -/
def single (x : Exec Value) : Exec (List Value) := do pure [← x]

/-- The values of the integer keys from 1 to `n`. -/
def items (t : Table) (n : Nat) : List Value :=
  (List.range' 1 n).map fun i => t.getInteger (Int64.ofNat i)

/-- What the machine does for a request. -/
def perform : Request → Exec (List Value)
  | call f args => .call f args none
  | index o k => single (Operation.index o k .unknown)
  | setIndex o k v => silently (Operation.setIndex o k v .unknown)
  | render v => single (Value.string <$> Operation.render v)
  | metatable v => .gets fun m => [((m.metatable? v).map .table).getD .nil]
  | setMetatable v mt => silently (Metatable.assign v mt)
  | typeName v => .gets fun m => [.ofText (m.typeName v)]
  | position level => .gets fun m => [.ofText (m.position level)]
  | traceback message level => .gets fun m => [.ofText (m.activeTraceback message level)]
  | globals => .gets fun m => [.table m.globals]
  | argumentError n text => complainAtCaller fun m => .argument n (complainedName? m) text
  | typeError n expected got => complainAtCaller fun m =>
    .argumentType n (complainedName? m) expected <| match got with
      | none => "no value"
      | some v => m.typeName v
  | complain text => complainAtCaller fun _ => .message text
  | newTable => fun m =>
    let (heap, id) := m.heap.addTable .empty
    .done { m with heap } [.table id]
  | newUserdata tag => fun m =>
    let (heap, id) := m.heap.addUserdata { tag }
    .done { m with heap } [.userdata id]
  | newThread name => fun m =>
    let (heap, id) := m.heap.addThread name
    .done { m with heap } [.thread id]
  | load p => single do pure (.closure (← Closure.load p))
  | rawGet t k => single (Operation.rawGet t k)
  | rawSet t k v => silently (Operation.rawSet t k v)
  | rawLength t => .gets fun m => [.ofNat (m.heap.table t).border]
  | next t k => fun m =>
    match (m.heap.table t).next? k with
    | none => .stopped m (.failure (.of .traversal))
    | some none => .done m [.nil]
    | some (some (k, v)) => .done m [k.toValue, v]
  | unpack t => .gets fun m => items (m.heap.table t) (m.heap.table t).border
  | remembered name => .gets fun m => [m.notebook.bindings.getD name .nil]
  | remember name v => fun m =>
    .done { m with notebook.bindings := m.notebook.bindings.insert name v } []
  | note values => silently (Journal.add (Journal.entryOf values))
  | noteCaller level => silently (Journal.add fun m => .caller (m.frameInfoAt? level))
  | noteCallee => silently (Journal.add fun m => .callee m.calleeName?)

end Request

/-- A native function as a computation of the machine. -/
def Behaviour.run : Behaviour → Exec (List Value)
  | finish results => pure results
  | fail e => .throw e
  | request r next => fun m =>
    (r.perform m).attempt.bind fun answer => (next answer).run
  | newNative name body next => fun m =>
    let (heap, id) := m.heap.addNative { name, body }
    (next (.native id)).run { m with heap }

end LuaMachine
