import LuaMachine.Machine.Cells

/-!
# Loading prototypes

A prototype becomes a closure once it has passed the check.  The first upvalue of a loaded closure
holds the global variables, the others hold nil.

## Main definitions

* `Closure.load` : the closure of a prototype.
-/

namespace LuaMachine.Closure

/-- A closed cell for each upvalue of a loaded prototype. -/
def createCells (first : Value) : List UpvalueInfo → Routine (List CellId)
  | [] => pure []
  | _ :: rest => do
    let id ← Cell.create (.closed first)
    return id :: (← createCells .nil rest)

/-- Adds a closure to the heap. -/
def create (proto : Prototype) (cells : List CellId) : Routine ClosureId := fun m =>
  let (heap, id) := m.heap.addClosure { proto, cells := cells.toArray }
  .ok id { m with heap }

/-- The closure of a prototype, if the prototype passes the check. -/
def load (proto : Prototype) : Routine ClosureId := do
  match proto.verify with
  | .error d => .fail (.defect d)
  | .ok () =>
    let cells ← createCells (.table (← get).globals) proto.upvalues
    create proto cells

end LuaMachine.Closure
