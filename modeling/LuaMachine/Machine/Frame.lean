import LuaMachine.Value.Basic

/-!
# Frames

A frame is one active call.  The called function lies in a stack slot, to which the results are
moved when the call ends; the registers of a closure's frame are the slots from its base on.

## Main definitions

* `Frame` : an active call.
* `Frame.ofClosure`, `Frame.ofNative` : the frame of a call that begins.
* `Frame.innermost?` : the index of the innermost of some frames.
-/

namespace LuaMachine

/-- An active call. -/
structure Frame where
  /-- The running closure; native functions have none. -/
  closure? : Option ClosureId
  /-- The slot of the called function. -/
  function : Nat
  /-- The slot of the first register. -/
  base : Nat
  /-- The slot after the last one that belongs to the frame. -/
  top : Nat
  /-- The next instruction. -/
  pc : Nat := 0
  /-- The number of results that the caller wants; `none` stands for all. -/
  wanted : Option Nat
  /-- The index of the calling frame. -/
  caller? : Option Nat := none
  /-- The frame replaced that of its caller. -/
  isTailCall : Bool := false
  /-- The call comes from within an instruction or from the host: when it ends, the dispatch of
  instructions does not simply go on with the frame below. -/
  isFresh : Bool := false
  deriving Inhabited, Repr

namespace Frame

/-- The frame of a call of a closure. -/
def ofClosure (id : ClosureId) (function base top : Nat) (wanted : Option Nat) : Frame where
  closure? := some id
  function
  base
  top
  wanted

/-- The frame of a call of a native function. -/
def ofNative (function top : Nat) (wanted : Option Nat) : Frame where
  closure? := none
  function
  base := function + 1
  top
  wanted

/-- The frame belongs to a closure. -/
def isClosure (f : Frame) : Bool := f.closure?.isSome

/-- The instruction that is being executed. -/
def currentPc (f : Frame) : Nat := f.pc - 1

/-- The index of the innermost of some frames, which are listed with the innermost last. -/
def innermost? (frames : Array Frame) : Option Nat :=
  if frames.size = 0 then none else some (frames.size - 1)

end Frame

end LuaMachine
