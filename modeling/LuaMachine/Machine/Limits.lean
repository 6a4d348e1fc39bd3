/-!
# Limits

Every resource of the machine has a limit.

## Main definitions

* `Limits` : the limits with their defaults.
-/

namespace LuaMachine

/-- The limits of a machine. -/
structure Limits where
  /-- The greatest number of active frames. -/
  callDepth : Nat := 200000
  /-- The greatest number of nested calls from within instructions and native functions. -/
  nativeDepth : Nat := 100
  /-- The greatest number of stack slots. -/
  stackSize : Nat := 1000000
  /-- The number of stack slots at the beginning. -/
  initialStackSize : Nat := 40
  /-- The greatest length of a chain of handlers for indexing and calling. -/
  handlerChain : Nat := 2000
  /-- The number of items that one instruction stores into a list. -/
  itemsPerFlush : Nat := 50
  /-- The number of instructions that may be executed; without a number there is no limit. -/
  budget : Option Nat := none
  deriving Repr, DecidableEq, Inhabited

end LuaMachine
