import LuaMachine.Machine.Calls

/-!
# Instructions

The machine executes the instructions of the innermost frame one after the other.  An instruction
is fetched, paid for out of the budget, and executed; the next one is already selected while it
runs, so that tests and jumps only move the selection.

## Main definitions

* `Activation` : the innermost frame with its closure.
* `Activation.execute` : one instruction.
* `Dispatch.step` : fetches and executes the next instruction.
-/

namespace LuaMachine

/-- A frame with its closure. -/
structure Activation where
  frame : Frame
  closure : Closure

namespace Activation

variable (a : Activation)

/-! ### Operands -/

/-- The slot of a register. -/
@[inline] def slot (r : Nat) : Nat := a.frame.base + r

/-- The value of a register. -/
@[inline] def read (r : Nat) : Routine Value := Stack.read (a.slot r)

/-- Writes a register. -/
@[inline] def write (r : Nat) (v : Value) : Routine Unit := Stack.write (a.slot r) v

/-- The value of a constant. -/
def constant (k : Nat) : Routine Value :=
  match a.closure.proto.constants[k]? with
  | some c => pure (.ofConstant c)
  | none => .fault (.constant k)

/-- The value of a register or a constant. -/
def operand (field : Nat) : Routine Value :=
  match Operand.ofField field with
  | .register r => a.read r
  | .constant k => a.constant k

/-- The cell of an upvalue. -/
def cell (u : Nat) : Routine CellId :=
  match a.closure.cells[u]? with
  | some id => pure id
  | none => .fault (.upvalue u)

/-- The value of an upvalue. -/
def upvalue (u : Nat) : Routine Value := do Cell.read (← a.cell u)

/-! ### The selection of the next instruction -/

/-- Changes the innermost frame. -/
def modifyFrame (f : Frame → Frame) : Routine Unit := modify fun m =>
  { m with frames := m.frames.modify (m.frames.size - 1) f }

/-- Moves the selection. -/
def jump (offset : Int) : Routine Unit := modifyFrame fun f =>
  { f with pc := (f.pc + offset).toNat }

/-- Skips an instruction. -/
def skip : Routine Unit := modifyFrame fun f => { f with pc := f.pc + 1 }

/-- Skips an instruction if a condition holds. -/
def skipIf (condition : Bool) : Routine Unit := if condition then skip else pure ()

/-- The operand that the instruction after this one carries; that instruction is skipped. -/
def extraOperand : Routine Nat := do
  match a.closure.proto.code[a.frame.pc]? with
  | some i =>
    skip
    pure i.ax
  | none => .fault (.extraOperand a.frame.pc)

/-! ### Groups of instructions -/

/-- Sets the registers from `r` to `r + n` to nil. -/
def clear (r n : Nat) : Routine Unit := Stack.clear (a.slot r) (n + 1)

/-- Writes what a computation yields into a register. -/
@[inline] def store (r : Nat) (x : Exec Value) : Exec Control := do
  a.write r (← x)
  pure .next

/-- An operation that only changes registers. -/
@[inline] def simply (x : Routine Unit) : Exec Control := do
  x
  pure .next

/-- An arithmetic operation on two operands. -/
def binary (i : Instruction) (op : Operator) : Exec Control := do
  let x ← a.operand i.b
  let y ← a.operand i.c
  a.store i.a (Operation.arithmetic op x y (.ofField i.b) (.ofField i.c))

/-- An arithmetic operation on one register. -/
def unary (i : Instruction) (op : Operator) : Exec Control := do
  let x ← a.read i.b
  a.store i.a (Operation.arithmetic op x x (.register i.b) (.register i.b))

/-- Compares two operands and skips the next instruction unless the result is the expected one. -/
def compare (i : Instruction) (test : Value → Value → Exec Bool) : Exec Control := do
  let x ← a.operand i.b
  let y ← a.operand i.c
  let result ← test x y
  skipIf (result != (i.a != 0))
  pure .next

/-- Loads a method: the receiver goes behind the function. -/
def loadMethod (i : Instruction) : Exec Control := do
  let receiver ← a.read i.b
  let key ← a.operand i.c
  a.write (i.a + 1) receiver
  a.store i.a (Operation.index receiver key (.register i.b))

/-- Reads an index. -/
def getIndex (i : Instruction) (table : Routine Value) (origin : Origin) : Exec Control := do
  let t ← table
  let key ← a.operand i.c
  a.store i.a (Operation.index t key origin)

/-- Assigns to an index. -/
def setIndex (i : Instruction) (table : Routine Value) (origin : Origin) : Exec Control := do
  let t ← table
  let key ← a.operand i.b
  let v ← a.operand i.c
  Operation.setIndex t key v origin
  pure .next

/-- Concatenates the registers from `B` to `C`. -/
def concat (i : Instruction) : Exec Control := do
  let values ← Stack.readRange (a.slot i.b) (a.slot i.c + 1)
  a.store i.a (Operation.concat values fun n => .register (i.b + n))

/-- The values that control a numeric loop. -/
def loop (r : Nat) : Routine NumericLoop := do
  pure { index := ← a.read r, limit := ← a.read (r + 1), step := ← a.read (r + 2) }

/-- Prepares a numeric loop and jumps to its end, where the first turn is decided. -/
def prepareLoop (i : Instruction) : Routine Unit := do
  match (← a.loop i.a).prepare with
  | .error bound => .fail (.loopBound bound)
  | .ok l =>
    a.write i.a l.index
    a.write (i.a + 1) l.limit
    a.write (i.a + 2) l.step
    jump i.sbx

/-- Advances a numeric loop and jumps back for another turn. -/
def advanceLoop (i : Instruction) : Routine Unit := do
  match (← a.loop i.a).advance? with
  | none => .fail .unpreparedLoop
  | some none => pure ()
  | some (some index) =>
    a.write i.a index
    a.write (i.a + 3) index
    jump i.sbx

/-- Puts the iterator and its arguments on top of the loop's registers and calls it. -/
def callIterator (i : Instruction) : Routine Control := do
  let function := a.slot (i.a + 3)
  Stack.reserve (function + 3)
  Stack.copy (a.slot i.a) function 3 3
  Stack.setTop (function + 3)
  pure (.iterate function i.c)

/-- Goes on with a loop over an iterator if there is another value. -/
def continueIteration (i : Instruction) : Routine Unit := do
  let v ← a.read (i.a + 1)
  if !v.isNil then
    a.write i.a v
    jump i.sbx

/-- Marks the end of the arguments, unless it has been marked already. -/
def setArguments (i : Instruction) : Routine Unit :=
  if i.b != 0 then Stack.setTop (a.slot i.a + i.b) else pure ()

/-- A call. -/
def call (i : Instruction) : Exec Control := do
  a.setArguments i
  Call.enter (a.slot i.a) (if i.c = 0 then none else some (i.c - 1)) false

/-- A call in place of the running one.  A native function cannot replace it and is called like any
other; the instruction behind returns its results. -/
def tailCall (i : Instruction) : Exec Control := do
  a.setArguments i
  Call.resolve (a.slot i.a)
  match ← Stack.read (a.slot i.a) with
  | .closure id =>
    Call.replace a.frame id (a.slot i.a)
    pure .next
  | _ => Call.enter (a.slot i.a) none false

/-- The number of values that are returned. -/
def resultCount (i : Instruction) : Routine Nat :=
  if i.b != 0 then pure (i.b - 1) else Stack.countFrom (a.slot i.a)

/-- Returns to the caller. -/
def ret (i : Instruction) : Routine Control := do
  let n ← a.resultCount i
  Cell.closeFrom a.frame.base
  Call.afterReturn (← Call.leave (a.slot i.a) n)

/-- The number of additional arguments of the running function. -/
def extraCount : Nat := (a.frame.base - a.frame.function - 1) - a.closure.proto.parameters

/-- The number of additional arguments to load.  If the instruction gives none, these are all, and
there is room for them. -/
def loadedCount (i : Instruction) : Routine Nat :=
  if i.b = 0 then do
    Stack.reserve (a.slot i.a + a.extraCount)
    Stack.setTop (a.slot i.a + a.extraCount)
    pure a.extraCount
  else pure (i.b - 1)

/-- Loads the additional arguments. -/
def vararg (i : Instruction) : Routine Unit := do
  let wanted ← a.loadedCount i
  Stack.copy (a.frame.base - a.extraCount) (a.slot i.a) a.extraCount wanted

/-- Stores values under consecutive integer keys. -/
def storeItems (t : Table) (first : Int64) : List Value → Table
  | [] => t
  | v :: rest => storeItems (t.setInteger first v) (first + 1) rest

/-- The number of items to store. -/
def itemCount (i : Instruction) : Routine Nat :=
  if i.b = 0 then Stack.countFrom (a.slot i.a + 1) else pure i.b

/-- The number of the run of items. -/
def batch (i : Instruction) : Routine Nat :=
  if i.c = 0 then a.extraOperand else pure i.c

/-- Stores a run of registers as items of a list. -/
def setList (i : Instruction) : Routine Unit := do
  let target := a.slot i.a
  let n ← a.itemCount i
  let c ← a.batch i
  match ← Stack.read target with
  | .table id =>
    let items ← Stack.readRange (target + 1) (target + 1 + n)
    modify fun m =>
      let first := (c - 1) * m.limits.itemsPerFlush
      { m with heap := m.heap.modifyTable id (storeItems · (Int64.ofNat (first + 1)) items) }
    Stack.resetTop
  | _ => .fail .listTarget

/-- The cell that a nested closure shares with the running one. -/
def capture (u : UpvalueInfo) : Routine CellId :=
  if u.inStack then Cell.capture (a.slot u.index) else a.cell u.index

/-- The cells that a nested closure shares with the running one. -/
def captureAll : List UpvalueInfo → Routine (List CellId)
  | [] => pure []
  | u :: rest => do
    let id ← a.capture u
    return id :: (← captureAll rest)

/-- Creates a nested closure. -/
def closeOver (i : Instruction) : Routine Unit := do
  match a.closure.proto.children[i.bx]? with
  | none => .fault (.prototype i.bx)
  | some proto =>
    let cells ← a.captureAll proto.upvalues
    a.write i.a (.closure (← Closure.create proto cells))

/-- Executes one instruction. -/
def execute (op : Opcode) (i : Instruction) : Exec Control :=
  match op with
  | .move => simply do a.write i.a (← a.read i.b)
  | .loadConstant => simply do a.write i.a (← a.constant i.bx)
  | .loadConstantExtra => simply do a.write i.a (← a.constant (← a.extraOperand))
  | .loadBoolean => simply do
    a.write i.a (.boolean (i.b != 0))
    skipIf (i.c != 0)
  | .loadNil => simply (a.clear i.a i.b)
  | .getUpvalue => simply do a.write i.a (← a.upvalue i.b)
  | .setUpvalue => simply do
    let v ← a.read i.a
    Cell.write (← a.cell i.b) v
  | .getTableUpvalue => a.getIndex i (a.upvalue i.b) (.upvalue i.b)
  | .getTable => a.getIndex i (a.read i.b) (.register i.b)
  | .setTableUpvalue => a.setIndex i (a.upvalue i.a) (.upvalue i.a)
  | .setTable => a.setIndex i (a.read i.a) (.register i.a)
  | .newTable => a.store i.a do pure ((← Request.newTable.perform).headD .nil)
  | .self => a.loadMethod i
  | .add => a.binary i .add
  | .sub => a.binary i .sub
  | .mul => a.binary i .mul
  | .mod => a.binary i .mod
  | .pow => a.binary i .pow
  | .div => a.binary i .div
  | .floorDiv => a.binary i .floorDiv
  | .bitAnd => a.binary i .bitAnd
  | .bitOr => a.binary i .bitOr
  | .bitXor => a.binary i .bitXor
  | .shiftLeft => a.binary i .shiftLeft
  | .shiftRight => a.binary i .shiftRight
  | .negate => a.unary i .negate
  | .bitNot => a.unary i .bitNot
  | .not => simply do a.write i.a (.boolean !(← a.read i.b).isTruthy)
  | .length => do
    let v ← a.read i.b
    a.store i.a (Operation.length v (.register i.b))
  | .concat => a.concat i
  | .jump => simply do
    if i.a != 0 then Cell.closeFrom (a.slot (i.a - 1))
    jump i.sbx
  | .equal => a.compare i Operation.equal
  | .lessThan => a.compare i Operation.less
  | .lessEqual => a.compare i Operation.lessEqual
  | .test => simply do skipIf ((← a.read i.a).isTruthy != (i.c != 0))
  | .testSet => simply do
    let v ← a.read i.b
    if v.isTruthy == (i.c != 0) then a.write i.a v else skip
  | .call => a.call i
  | .tailCall => a.tailCall i
  | .ret => a.ret i
  | .forLoop => simply (a.advanceLoop i)
  | .forPrepare => simply (a.prepareLoop i)
  | .iteratorCall => a.callIterator i
  | .iteratorLoop => simply (a.continueIteration i)
  | .setList => simply (a.setList i)
  | .closure => simply (a.closeOver i)
  | .vararg => simply (a.vararg i)
  | .extraArgument => .fail .strayOperand

end Activation

namespace Dispatch

/-- Takes one instruction from the budget. -/
def pay : Routine Unit := fun m =>
  match m.budget with
  | none => .ok () m
  | some 0 => .error (.failure (.of .budgetExhausted)) m
  | some (n + 1) => .ok () { m with budget := some n }

/-- The innermost frame with its closure. -/
def innermost : Routine Activation := fun m =>
  match m.frame? with
  | none => .error (.failure (.of (.internal "dispatch without an active frame"))) m
  | some frame =>
    match m.closureOf? frame with
    | none => .error (.failure (.of (.internal "dispatch on a native frame"))) m
    | some closure => .ok { frame, closure } m

/-- The next instruction of a frame; the one behind it is selected. -/
def fetch (a : Activation) : Routine Instruction := do
  match a.closure.proto.code[a.frame.pc]? with
  | none => .fail (.endOfCode a.frame.pc)
  | some i =>
    Activation.skip
    pure i

/-- Fetches and executes the next instruction of the innermost frame. -/
def step : Exec Control := do
  let a ← innermost
  let i ← fetch a
  pay
  match i.opcode? with
  | none => .fail (.internal s!"invalid opcode {i.opcodeNumber}")
  | some op =>
    let a : Activation := { a with frame.pc := a.frame.pc + 1 }
    a.execute op i

end Dispatch

end LuaMachine
