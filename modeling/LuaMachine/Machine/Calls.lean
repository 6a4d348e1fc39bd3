import LuaMachine.Machine.Cells
import LuaMachine.Machine.Requests
import LuaMachine.Machine.Stack

/-!
# Calls

A call finds the called value in a stack slot and the arguments in the slots behind it, up to the
first free one.  A value that is not a function is replaced by its handler for calls and becomes
the first argument.  A closure gets a frame, in which its registers begin with the parameters; of
a function with a variable number of arguments, the additional ones stay below the registers.  A
native function runs at once.  In the end the results are moved to the slot of the called value.

## Main definitions

* `Call.resolve` : replaces values by their handlers until a function is found.
* `Call.pushClosure` : the frame of a closure.
* `Call.deliver` : the results of a native function.
* `Call.leave` : ends the frame of a closure.
* `Call.enter` : begins a call.
* `Call.replace` : begins a call in place of the running one.
* `Control` : how the machine goes on after an instruction.
-/

namespace LuaMachine

/-- How the machine goes on. -/
inductive Control where
  /-- With the next instruction of the innermost frame. -/
  | next
  /-- With the computation that made the call which has just ended. -/
  | finished
  /-- With a call of the iterator in slot `function`, and then with the next instruction. -/
  | iterate (function wanted : Nat)
  deriving Repr, DecidableEq

namespace Call

/-- Replaces the value in a slot by its handler for calls; the value becomes the first argument. -/
def insertHandler (function : Nat) : Routine Unit := do
  let v ← Stack.read function
  let m ← get
  match m.handler? v .call with
  | none => .fail (m.operandFault "call" v (m.slotOrigin function))
  | some handler =>
    Stack.reserve (m.top + 1)
    Stack.insert function m.top handler
    Stack.setTop (m.top + 1)

/-- Replaces the value in a slot by handlers, at most `n` times, until it is a function. -/
def resolveWithin (function : Nat) : Nat → Routine Unit
  | 0 => do
    if !(← Stack.read function).isFunction then .fail (.chain .call)
  | n + 1 => do
    if !(← Stack.read function).isFunction then
      insertHandler function
      resolveWithin function n

/-- Replaces the value in a slot by handlers until it is a function. -/
def resolve (function : Nat) : Routine Unit := do
  resolveWithin function (← get).limits.handlerChain

/-- Fails if no further frame is allowed. -/
def checkDepth : Routine Unit := do
  let m ← get
  if m.limits.callDepth ≤ m.frames.size then .fail .stackOverflow

/-- Adds a frame, which is called by the innermost one. -/
def push (f : Frame) : Routine Unit := modify fun m =>
  { m with frames := m.frames.push { f with caller? := Frame.innermost? m.frames } }

/-- Removes the innermost frame. -/
def pop : Routine Unit := modify fun m => { m with frames := m.frames.pop }

/-- Begins a call of a closure: passes the parameters, sets all other registers to nil and adds the
frame. -/
def pushClosure (id : ClosureId) (function : Nat) (wanted : Option Nat)
    (isTailCall isFresh : Bool) : Routine Unit := do
  checkDepth
  let proto := ((← get).heap.closure id).proto
  let argumentCount ← Stack.countFrom (function + 1)
  let free ← Stack.top
  Stack.reserve (free + proto.parameters + proto.registers)
  let base := if proto.isVararg then free else function + 1
  if proto.isVararg then Stack.take (function + 1) base argumentCount proto.parameters
  let passed := if proto.isVararg then proto.parameters else min argumentCount proto.parameters
  Stack.clear (base + passed) (proto.registers - passed)
  let top := base + proto.registers
  push { Frame.ofClosure id function base top wanted with isTailCall, isFresh }
  Stack.setTop top

/-- A list of exactly the wanted length: cut, or filled up with nil. -/
def adjust (wanted : Option Nat) (values : List Value) : List Value :=
  match wanted with
  | none => values
  | some n => values.take n ++ List.replicate (n - values.length) .nil

/-- Writes the results of a native function into the slots from that of the function on.  The slots
are reserved first, so that no more nils are made than the stack has room for. -/
def deliver (function : Nat) (values : List Value) (wanted : Option Nat) : Routine Unit := do
  let count := wanted.getD values.length
  Stack.reserve (function + count)
  Stack.writeAll function (adjust wanted values)
  Stack.setTop (function + count)

/-- Ends the frame of a closure: moves `n` results from the slots from `first` on to those from
that of the function on.  Yields the frame that has ended. -/
def leave (first n : Nat) : Routine Frame := do
  match (← get).frame? with
  | none => .fail (.internal "return without an active frame")
  | some f =>
    pop
    let count := f.wanted.getD n
    Stack.reserve (f.function + count)
    Stack.copy first f.function n count
    Stack.setTop (f.function + count)
    pure f

/-- How the machine goes on after the call of a frame has ended. -/
def afterReturn (f : Frame) : Routine Control := do
  if f.isFresh then pure .finished
  else
    if f.wanted.isSome then Stack.resetTop
    pure .next

/-- Runs a native function to its end. -/
def runNative (id : NativeId) (function : Nat) (wanted : Option Nat) (isFresh : Bool) :
    Exec Control := do
  checkDepth
  let free ← Stack.top
  let args ← Stack.readRange (function + 1) free
  let f := { Frame.ofNative function free wanted with isFresh }
  push f
  let results ← (((← Exec.state).heap.native id).body args).run
  pop
  deliver function results wanted
  afterReturn f

/-- Begins the call of the value in a slot. -/
def enter (function : Nat) (wanted : Option Nat) (isFresh : Bool) : Exec Control := do
  resolve function
  match ← Stack.read function with
  | .closure id =>
    pushClosure id function wanted false isFresh
    pure .next
  | .native id => runNative id function wanted isFresh
  | _ => .fail (.internal "call handler did not yield a function")

/-- Begins the call of the closure in a slot in place of the running call: the frame makes room for
the new one, which inherits its place on the stack and what is wanted of it. -/
def replace (current : Frame) (id : ClosureId) (function : Nat) : Routine Unit := do
  Cell.closeFrom current.base
  let count ← Stack.countFrom function
  Stack.take function current.function count count
  Stack.setTop (current.function + count)
  pop
  pushClosure id current.function current.wanted true current.isFresh

/-- Begins the call of a value from within an instruction, a native function or from the host: puts
function and arguments behind all slots in use. -/
def start (f : Value) (args : List Value) (wanted : Option Nat) (function : Nat) :
    Exec Control := do
  modifyGet (m := Routine) fun m => ((), { m with reentries := m.reentries + 1 })
  Stack.reserve (function + 1 + args.length)
  Stack.writeAll function (f :: args)
  Stack.setTop (function + 1 + args.length)
  let m ← Exec.state
  if m.limits.nativeDepth < m.reentries then .fail .nativeOverflow
  else enter function wanted true

/-- Begins the call of an iterator, whose function and arguments are on the stack already. -/
def startIterator (function wanted : Nat) : Exec Control := do
  modifyGet (m := Routine) fun m => ((), { m with reentries := m.reentries + 1 })
  let m ← Exec.state
  if m.limits.nativeDepth < m.reentries then .fail .nativeOverflow
  else enter function (some wanted) true

end Call

end LuaMachine
