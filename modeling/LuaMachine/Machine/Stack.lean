import LuaMachine.Machine.Basic

/-!
# The value stack

Slots are read and written one by one or in ranges.  The stack grows on demand up to its limit;
a slot that does not exist is a fault.

## Main definitions

* `Stack.reserve` : makes sure that slots exist.
* `Stack.read`, `Stack.write` : single slots.
* `Stack.readRange`, `Stack.writeAll`, `Stack.clear` : ranges of slots.
* `Stack.setTop` : moves the first free slot.
-/

namespace LuaMachine.Stack

/-- Makes sure that the slots below `needed` exist; new slots hold nil. -/
def reserve (needed : Nat) : Routine Unit := fun m =>
  if needed ≤ m.stack.size then .ok () m
  else if m.limits.stackSize < needed then .error (.failure (.of .stackOverflow)) m
  else
    let missing := needed - m.stack.size
    .ok () { m with stack := m.stack ++ Array.replicate missing Value.nil }

/-- The value in a slot. -/
def read (i : Nat) : Routine Value := fun m =>
  match m.stack[i]? with
  | some v => .ok v m
  | none => .error (.fault (.slot i)) m

/-- Writes a slot. -/
def write (i : Nat) (v : Value) : Routine Unit := fun m =>
  if i < m.stack.size then .ok () { m with stack := m.stack.setIfInBounds i v }
  else .error (.fault (.slot i)) m

/-- Writes values into the slots from `first` on. -/
def writeAll (first : Nat) : List Value → Routine Unit
  | [] => pure ()
  | v :: rest => do
    write first v
    writeAll (first + 1) rest

/-- Writes nil into `count` slots from `first` on. -/
def clear (first : Nat) : Nat → Routine Unit
  | 0 => pure ()
  | count + 1 => do
    write first .nil
    clear (first + 1) count

/-- The values of the slots from `first` up to `last`, exclusive. -/
def readRange (first last : Nat) : Routine (List Value) := fun m =>
  if last < first then .error (.fault (.negativeRange first last)) m
  else if m.stack.size < last then .error (.fault (.slot (last - 1))) m
  else .ok (m.stack.extract first last).toList m

/-- The first free slot. -/
def top : Routine Nat := fun m => .ok m.top m

/-- Moves the first free slot. -/
def setTop (top : Nat) : Routine Unit := modify ({ · with top })

/-- Moves the first free slot behind the innermost frame. -/
def resetTop : Routine Unit := modify fun m =>
  match m.frame? with
  | some f => { m with top := f.top }
  | none => m

/-- The number of slots from `first` to the first free one. -/
def countFrom (first : Nat) : Routine Nat := fun m =>
  if m.top < first then .error (.fault (.negativeRange first m.top)) m
  else .ok (m.top - first) m

/-- Copies `count` values from the slots from `source` on to those from `target` on, one after the
other in ascending order.  Beyond `available` values there is nil. -/
def copy (source target available : Nat) : Nat → Routine Unit
  | 0 => pure ()
  | count + 1 => do
    let v ← if 0 < available then read source else pure .nil
    write target v
    copy (source + 1) (target + 1) (available - 1) count

/-- Moves `count` values from the slots from `source` on to those from `target` on, in ascending
order; every slot that a value leaves holds nil until it is written.  Beyond `available` values
there is nil. -/
def take (source target available : Nat) : Nat → Routine Unit
  | 0 => pure ()
  | count + 1 => do
    if 0 < available then
      let v ← read source
      write source .nil
      write target v
    else
      write target .nil
    take (source + 1) (target + 1) (available - 1) count

/-- Puts a value into slot `first` and moves the values from there to slot `last`, exclusive, up by
one. -/
def insert (first last : Nat) (v : Value) : Routine Unit := do
  let moved ← readRange first last
  writeAll first (v :: moved)

end LuaMachine.Stack
