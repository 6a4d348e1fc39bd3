import LuaMachine.Failure

/-!
# Native functions

A native function acts on the machine through requests only: it asks for an operation, receives
the values that the operation yields or the failure in which it ends, and goes on.  What it does
between the requests is arbitrary, so a behaviour is a tree whose branches are functions of the
answers.

## Main definitions

* `Request` : the operations that a native function may ask for.
* `Behaviour` : what a native function does with its arguments.
* `NativeFunction` : a named behaviour.
* `Behaviour.ask` : a request whose failure ends the function.
-/

namespace LuaMachine

/-- An operation that a native function asks the machine for.  All answers are lists of values. -/
inductive Request where
  /-- Calls a value; the answer is all results. -/
  | call (f : Value) (arguments : List Value)
  /-- Indexes a value, with `__index`. -/
  | index (object key : Value)
  /-- Assigns to an index of a value, with `__newindex`. -/
  | setIndex (object key value : Value)
  /-- Renders a value as text, with `__tostring` and `__name`. -/
  | render (v : Value)
  /-- The metatable of a value, or nil. -/
  | metatable (v : Value)
  /-- Gives a value a metatable, or takes it away. -/
  | setMetatable (v : Value) (metatable : Option TableId)
  /-- The type name of a value, with `__name`. -/
  | typeName (v : Value)
  /-- The position of the call level, as messages begin with it. -/
  | position (level : Nat)
  /-- A listing of the frames from a level on, after a message if there is one. -/
  | traceback (message : Option String) (level : Nat)
  /-- The table of globals. -/
  | globals
  /-- Complains about argument `n`. -/
  | argumentError (n : Nat) (text : String)
  /-- Complains about the type of argument `n`, which is absent or a given value. -/
  | typeError (n : Nat) (expected : String) (got : Option Value)
  /-- Complains with a message at the position of the caller. -/
  | complain (text : String)
  /-- A new empty table. -/
  | newTable
  /-- A new userdata object that holds a tag. -/
  | newUserdata (tag : String)
  /-- A new thread with a name. -/
  | newThread (name : String)
  /-- The closure of a prototype, if the prototype is well formed. -/
  | load (p : Prototype)
  /-- Reads a table, with no regard to metatables. -/
  | rawGet (t : TableId) (key : Value)
  /-- Writes to a table, with no regard to metatables. -/
  | rawSet (t : TableId) (key value : Value)
  /-- The length of a table, with no regard to metatables. -/
  | rawLength (t : TableId)
  /-- The key and value after a key, or nil at the end. -/
  | next (t : TableId) (key : Value)
  /-- The values of the keys from 1 up to the length of a table. -/
  | unpack (t : TableId)
  /-- The value of a variable in the notebook, or nil. -/
  | remembered (name : String)
  /-- Writes a variable into the notebook. -/
  | remember (name : String) (v : Value)
  /-- Enters values into the journal. -/
  | note (values : List Value)
  /-- Enters the description of a call level into the journal. -/
  | noteCaller (level : Nat)
  /-- Enters into the journal how the running function was named. -/
  | noteCallee

/-- What a native function does. -/
inductive Behaviour where
  /-- Returns results. -/
  | finish (results : List Value)
  /-- Fails. -/
  | fail (e : Failure)
  /-- Asks for an operation and goes on with the answer or the failure. -/
  | request (r : Request) (next : Except Failure (List Value) → Behaviour)
  /-- Creates a native function and goes on with it. -/
  | newNative (name : String) (body : List Value → Behaviour) (next : Value → Behaviour)

instance : Inhabited Behaviour := ⟨.finish []⟩

/-- A native function: its name, and what it does with its arguments. -/
structure NativeFunction where
  name : String
  body : List Value → Behaviour
  deriving Inhabited

namespace Behaviour

/-- Asks for an operation; a failure ends the function. -/
def ask (r : Request) (next : List Value → Behaviour) : Behaviour :=
  .request r fun
    | .ok values => next values
    | .error e => .fail e

/-- Asks for an operation that yields one value. -/
def askValue (r : Request) (next : Value → Behaviour) : Behaviour :=
  ask r fun values => next (values.headD .nil)

end Behaviour

end LuaMachine
