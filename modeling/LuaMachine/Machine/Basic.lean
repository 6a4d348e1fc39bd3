import LuaMachine.Code.ChunkName
import LuaMachine.Code.Provenance
import LuaMachine.Machine.Frame
import LuaMachine.Machine.Heap
import LuaMachine.Machine.Limits

/-!
# The state of the machine

All frames share one stack of values.  `top` is the first slot that is free for operations with a
variable number of values.

## Main definitions

* `Machine` : the state of the machine, `Machine.new` the state at the beginning.
* `FrameInfo` : what is known about a frame.
* `Notebook` : what native functions keep for the host.
* `Stop`, `Routine` : operations on the state that may fail.
-/

namespace LuaMachine

/-- What is known about a frame. -/
structure FrameInfo where
  /-- The kind of function: a main chunk, another closure or a native function. -/
  what : String
  /-- The chunk name. -/
  source : String
  /-- The short form of the chunk name. -/
  shortSource : String
  line? : Option UInt32 := none
  lineDefined : UInt32 := 0
  /-- How the caller named the function. -/
  designation? : Option Designation := none
  isTailCall : Bool := false

/-- An entry of the journal. -/
inductive JournalEntry where
  /-- Values, with the objects to which they refer as they were at that time. -/
  | values (vs : List Value) (heap : Heap)
  /-- The description of a call level. -/
  | caller (info : Option FrameInfo)
  /-- How the running native function was named. -/
  | callee (name : Option CalleeName)

/-- What native functions keep for the host: bindings of variables, and a journal whose last entry
comes first. -/
structure Notebook where
  bindings : Std.HashMap String Value := ∅
  journal : List JournalEntry := []

instance : Inhabited Notebook := ⟨{}⟩

/-- The state of the machine. -/
structure Machine where
  limits : Limits
  heap : Heap
  /-- The global variables. -/
  globals : TableId
  /-- The modules that have been loaded; function names in tracebacks are looked up there. -/
  loaded : TableId
  registry : TableId
  /-- The metatables that all values of a basic type share. -/
  kindMetatables : List (Kind × TableId) := []
  /-- The value stack. -/
  stack : Array Value
  /-- The first free slot. -/
  top : Nat := 0
  /-- The active calls, innermost last. -/
  frames : Array Frame := #[]
  /-- The open cells with their slots, highest slot first. -/
  openCells : List (Nat × CellId) := []
  /-- The number of calls in progress that come from within instructions, native functions or the
  host. -/
  reentries : Nat := 0
  /-- The number of instructions that may still be executed. -/
  budget : Option Nat
  notebook : Notebook := {}
  deriving Inhabited

/-- Something that only malformed code could do, and that the check of prototypes excludes. -/
inductive Fault where
  /-- A stack slot does not exist. -/
  | slot (i : Nat)
  /-- A constant does not exist. -/
  | constant (k : Nat)
  /-- An upvalue does not exist. -/
  | upvalue (u : Nat)
  /-- A nested prototype does not exist. -/
  | prototype (n : Nat)
  /-- An instruction that should carry an extra operand does not exist. -/
  | extraOperand (pc : Nat)
  /-- A range of slots ends before it begins. -/
  | negativeRange (first last : Nat)
  deriving Repr, DecidableEq

/-- Why an operation does not yield a result. -/
inductive Stop where
  | failure (e : Failure)
  | fault (f : Fault)

/-- An operation on the state that calls no functions of the program. -/
abbrev Routine := EStateM Stop Machine

/-- Fails with a cause. -/
def Routine.fail {α : Type} (cause : Cause) : Routine α :=
  throw (.failure (.of cause))

/-- Stops at something that malformed code does. -/
def Routine.fault {α : Type} (f : Fault) : Routine α :=
  throw (.fault f)

namespace Machine

/-- The state at the beginning.  The globals contain themselves as `_G` and are the only loaded
module; the registry leads to the globals under 2 and to the loaded modules under `_LOADED`. -/
def new (limits : Limits) : Machine :=
  let globals : TableId := ⟨0⟩
  let loaded : TableId := ⟨1⟩
  let registry : TableId := ⟨2⟩
  { limits
    heap := { tables := #[
      Table.empty.setText "_G" (.table globals),
      Table.empty.setText "_G" (.table globals),
      (Table.empty.setInteger 2 (.table globals)).setText "_LOADED" (.table loaded)] }
    globals
    loaded
    registry
    stack := Array.replicate limits.initialStackSize .nil
    budget := limits.budget }

/-- The innermost frame. -/
def frame? (m : Machine) : Option Frame := m.frames.back?

/-- The closure of a frame. -/
def closureOf? (m : Machine) (f : Frame) : Option Closure := f.closure?.map m.heap.closure

/-- The first slot after all that is in use. -/
def freeSlot (m : Machine) : Nat :=
  match m.frame? with
  | some f => max m.top f.top
  | none => m.top

end Machine

end LuaMachine
