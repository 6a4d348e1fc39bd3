import LuaMachine.Machine.Run
import LuaMachine.Native.Expression

/-!
# The machine as seen by its host

## Main definitions

* `Host.call` : calls a value, with a number of wanted results.
* `Host.global`, `Host.setGlobal`, `Host.register` : global variables.
* `Host.evaluate` : the values of an expression.
* `Host.errorMessage` : the message of a failure as a program would print it.
-/

namespace LuaMachine.Host

/-- The greatest number of results that can be asked for. -/
def resultLimit : Nat := 0x7FFFFFFF

/-- Calls a value for a number of results, or for all. -/
def call (f : Value) (args : List Value) (wanted : Option Nat) : Exec (List Value) :=
  if wanted.any (resultLimit < ·) then .fail .resultCount else .call f args wanted

/-- The value of a global variable. -/
def global (name : String) : Exec Value := .gets fun m => (m.heap.table m.globals).getText name

/-- Assigns to a global variable. -/
def setGlobal (name : String) (v : Value) : Exec Unit := fun m =>
  .done { m with heap := m.heap.modifyTable m.globals (·.setText name v) } ()

/-- Enters a module among those that have been loaded. -/
def setLoaded (name : String) (v : Value) : Exec Unit := fun m =>
  .done { m with heap := m.heap.modifyTable m.loaded (·.setText name v) } ()

/-- The values of an expression that is no part of a function. -/
def evaluate (e : Expression) : Exec (List Value) := (e.run [] .finish).run

/-- Assigns a native function with a scripted body to a global variable. -/
def register (name : String) (body : List Expression) : Exec Unit := do
  let f ← evaluate (.function name body)
  setGlobal name (f.headD .nil)

/-- An operator on two values; a unary one takes the first. -/
def arithmetic (op : Operator) (a b : Value) : Exec Value :=
  Operation.arithmetic op a (if op.isUnary then a else b) .unknown .unknown

/-- The message of a failure as a program would print it: a raised object that can render itself
does so. -/
def errorMessage (e : Failure) : Exec String := do
  match e.cause with
  | .raised v =>
    if e.position = "" && !v.isConcatenable && ((← Exec.state).handler? v .toText).isSome then
      match ← (Operation.render v).attempt with
      | .ok s => pure (Text.ofBytes s)
      | .error _ => pure e.text
    else pure e.text
  | _ => pure e.text

end LuaMachine.Host
