import LuaMachine.Machine.Basic

/-!
# Shared variables

A closure shares the variables that it uses with the function that declared them.  While that
function runs, a variable lies in its register, and a cell that is open at the slot gives access to
it; there is at most one such cell for a slot.  When the register goes out of use, the cell is
closed and keeps the value.

## Main definitions

* `Cell.capture` : the cell that is open at a slot.
* `Cell.read`, `Cell.write` : the variable of a cell.
* `Cell.closeFrom` : closes the cells that are open at a slot or a higher one.
-/

namespace LuaMachine.Cell

/-- The value of the variable.  A slot that does not exist reads as nil. -/
def value (m : Machine) (id : CellId) : Value :=
  match m.heap.cell id with
  | opened slot => m.stack[slot]?.getD .nil
  | closed v => v

/-- Reads the variable. -/
def read (id : CellId) : Routine Value := fun m => .ok (value m id) m

/-- Assigns to the variable. -/
def write (id : CellId) (v : Value) : Routine Unit := modify fun m =>
  match m.heap.cell id with
  | opened slot => { m with stack := m.stack.setIfInBounds slot v }
  | closed _ => { m with heap := m.heap.setCell id (closed v) }

/-- Adds a cell to the heap. -/
def create (c : Cell) : Routine CellId := fun m =>
  let (heap, id) := m.heap.addCell c
  .ok id { m with heap }

/-- The cell that is open at a slot, in a list with the highest slot first. -/
def find? (slot : Nat) : List (Nat × CellId) → Option CellId
  | [] => none
  | (s, id) :: rest => if s = slot then some id else if s < slot then none else find? slot rest

/-- Enters a cell into a list with the highest slot first. -/
def enter (slot : Nat) (id : CellId) : List (Nat × CellId) → List (Nat × CellId)
  | [] => [(slot, id)]
  | (s, other) :: rest =>
    if slot < s then (s, other) :: enter slot id rest else (slot, id) :: (s, other) :: rest

/-- The cell that is open at a slot; it is created if there is none. -/
def capture (slot : Nat) : Routine CellId := do
  match find? slot (← get).openCells with
  | some id => pure id
  | none =>
    let id ← create (opened slot)
    modify fun m => { m with openCells := enter slot id m.openCells }
    pure id

/-- Closes a cell: it keeps the value of its slot. -/
def close (id : CellId) : Routine Unit := modify fun m =>
  match m.heap.cell id with
  | opened slot => { m with heap := m.heap.setCell id (closed (m.stack[slot]?.getD .nil)) }
  | closed _ => m

/-- Closes the cells in a list. -/
def closeAll : List (Nat × CellId) → Routine Unit
  | [] => pure ()
  | (_, id) :: rest => do
    close id
    closeAll rest

/-- Closes the cells that are open at slot `level` or a higher one. -/
def closeFrom (level : Nat) : Routine Unit := do
  let cells := (← get).openCells
  match cells with
  | [] => pure ()
  | (slot, _) :: _ =>
    if level ≤ slot then
      closeAll (cells.takeWhile fun (slot, _) => level ≤ slot)
      modify fun m => { m with openCells := cells.dropWhile fun (slot, _) => level ≤ slot }

end LuaMachine.Cell
