import LuaMachine.Native.Behaviour
import LuaMachine.Table.Basic

/-!
# The heap

The heap holds the objects that references name: tables, closures, native functions, userdata and
threads, and the cells in which closures keep the variables that they share.  Objects are only
ever added, so a name stays valid.

## Main definitions

* `Cell` : a shared variable, which lies on the stack while the cell is open.
* `Closure`, `Userdata` : other objects.
* `Heap` : all objects, with functions that add, read and change them.
-/

namespace LuaMachine

/-- The name of a cell. -/
structure CellId where
  index : Nat
  deriving DecidableEq, Repr, Hashable, Inhabited

/-- A variable that closures share. -/
inductive Cell where
  /-- The variable is a slot of the value stack. -/
  | opened (slot : Nat)
  /-- The variable has left the stack, and the cell holds its value. -/
  | closed (v : Value)
  deriving Inhabited

/-- The slot of an open cell. -/
def Cell.slot? : Cell → Option Nat
  | opened slot => some slot
  | closed _ => none

/-- A prototype together with the cells for its upvalues. -/
structure Closure where
  proto : Prototype
  cells : Array CellId
  deriving Inhabited

/-- An object of the host, which holds a tag. -/
structure Userdata where
  tag : String
  metatable : Option TableId := none
  deriving Inhabited

/-- All objects. -/
structure Heap where
  tables : Array Table := #[]
  closures : Array Closure := #[]
  natives : Array NativeFunction := #[]
  cells : Array Cell := #[]
  userdata : Array Userdata := #[]
  /-- The names of the threads. -/
  threads : Array String := #[]
  deriving Inhabited

namespace Heap

/-! ### Reading -/

/-- The table with a name. -/
def table (h : Heap) (id : TableId) : Table := h.tables[id.index]?.getD .empty

/-- The closure with a name. -/
def closure (h : Heap) (id : ClosureId) : Closure := h.closures[id.index]?.getD default

/-- The native function with a name. -/
def native (h : Heap) (id : NativeId) : NativeFunction := h.natives[id.index]?.getD default

/-- The cell with a name. -/
def cell (h : Heap) (id : CellId) : Cell := h.cells[id.index]?.getD default

/-- The userdata object with a name. -/
def userdatum (h : Heap) (id : UserdataId) : Userdata := h.userdata[id.index]?.getD default

/-- The name that a thread was given. -/
def threadName (h : Heap) (id : ThreadId) : String := h.threads[id.index]?.getD ""

/-! ### Adding objects -/

/-- Adds a table. -/
def addTable (h : Heap) (t : Table) : Heap × TableId :=
  ({ h with tables := h.tables.push t }, ⟨h.tables.size⟩)

/-- Adds a closure. -/
def addClosure (h : Heap) (c : Closure) : Heap × ClosureId :=
  ({ h with closures := h.closures.push c }, ⟨h.closures.size⟩)

/-- Adds a native function. -/
def addNative (h : Heap) (f : NativeFunction) : Heap × NativeId :=
  ({ h with natives := h.natives.push f }, ⟨h.natives.size⟩)

/-- Adds a cell. -/
def addCell (h : Heap) (c : Cell) : Heap × CellId :=
  ({ h with cells := h.cells.push c }, ⟨h.cells.size⟩)

/-- Adds a userdata object. -/
def addUserdata (h : Heap) (u : Userdata) : Heap × UserdataId :=
  ({ h with userdata := h.userdata.push u }, ⟨h.userdata.size⟩)

/-- Adds a thread. -/
def addThread (h : Heap) (name : String) : Heap × ThreadId :=
  ({ h with threads := h.threads.push name }, ⟨h.threads.size⟩)

/-! ### Changing objects -/

/-- Changes a table. -/
def modifyTable (h : Heap) (id : TableId) (f : Table → Table) : Heap :=
  { h with tables := h.tables.modify id.index f }

/-- Changes a cell. -/
def setCell (h : Heap) (id : CellId) (c : Cell) : Heap :=
  { h with cells := h.cells.setIfInBounds id.index c }

/-- Gives a userdata object a metatable or takes it away. -/
def setUserdataMetatable (h : Heap) (id : UserdataId) (metatable : Option TableId) : Heap :=
  { h with userdata := h.userdata.modify id.index ({ · with metatable }) }

end Heap

end LuaMachine
