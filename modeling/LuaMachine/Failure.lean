import LuaMachine.Code.Verification
import LuaMachine.Event
import LuaMachine.Value.Key
import LuaMachine.Value.NumericLoop

/-!
# Failures

A failure has a cause, a position in the source and, once it has left the call in which it arose, a
list of the frames that were active then.  The position and the frames are added while the failure
travels outward; the cause never changes.

## Main definitions

* `Cause` : what went wrong, `Cause.description` its text.
* `FrameSnapshot` : one frame of the call chain at the time of a failure.
* `Failure` : cause, position and frames; `Failure.text` the whole message.
* `Failure.toValue` : the value under which a program sees the failure.
-/

namespace LuaMachine

/-- How the caller of a native function named it. -/
structure CalleeName where
  name : String
  /-- The function was called as a method, so that its first argument is the receiver. -/
  isMethod : Bool
  deriving DecidableEq, Repr

/-- What went wrong. -/
inductive Cause where
  /-- An argument of a native function is bad. -/
  | argument (n : Nat) (callee : Option CalleeName) (text : String)
  /-- An argument of a native function has the wrong type. -/
  | argumentType (n : Nat) (callee : Option CalleeName) (expected got : String)
  /-- An operation was applied to a value of the wrong type; `origin` tells where the value came
  from, if that is known. -/
  | operand (verb typeName origin : String)
  /-- Two values have no order. -/
  | comparison (left right : String)
  /-- A bitwise operation was applied to a number that is no integer. -/
  | noInteger (origin : String)
  /-- A native function gave up with a message. -/
  | message (text : String)
  /-- An integer was divided by zero, to find the quotient. -/
  | divisionByZero
  /-- An integer was divided by zero, to find the remainder. -/
  | moduloByZero
  /-- The handlers of an event form a chain that is too long. -/
  | chain (event : Event)
  /-- A value of a numeric loop is no number. -/
  | loopBound (bound : NumericLoop.Bound)
  /-- The handler that renders a value as text returned something else. -/
  | renderedText
  /-- A program raised a value. -/
  | raised (v : Value)
  /-- A value cannot be a key of a table. -/
  | key (fault : Key.Fault)
  /-- A traversal was to go on from a value that is not among the keys. -/
  | traversal
  /-- The value stack or the chain of frames would exceed its limit. -/
  | stackOverflow
  /-- Calls from within instructions and native functions are nested too deeply. -/
  | nativeOverflow
  /-- No more instructions may be executed. -/
  | budgetExhausted
  /-- A prototype is malformed. -/
  | defect (d : Defect)
  /-- Execution went past the last instruction. -/
  | endOfCode (pc : Nat)
  /-- A numeric loop advanced without having been prepared. -/
  | unpreparedLoop
  /-- Items were to be stored in a value that is not a table. -/
  | listTarget
  /-- An instruction that only carries an operand was executed. -/
  | strayOperand
  /-- More results were asked for than can be counted. -/
  | resultCount
  /-- Anything else that should not happen. -/
  | internal (text : String)

/-- The description of a bad argument.  For a method the receiver is not counted. -/
def argumentMessage (n : Nat) (callee : Option CalleeName) (text : String) : String :=
  match callee with
  | none => s!"bad argument #{n} ({text})"
  | some ⟨name, true⟩ =>
    if n = 1 then s!"calling '{name}' on bad self ({text})"
    else s!"bad argument #{n - 1} to '{name}' ({text})"
  | some ⟨name, false⟩ => s!"bad argument #{n} to '{name}' ({text})"

/-- The description of a raised value: strings and numbers speak for themselves. -/
def raisedMessage (v : Value) : String :=
  if v.isConcatenable then v.text else s!"(error object is a {v.kind.name} value)"

/-- The description of a value that cannot be a key. -/
def Key.Fault.message : Key.Fault → String
  | .nil => "table index is nil"
  | .nan => "table index is NaN"

/-- The description of a cause. -/
def Cause.description : Cause → String
  | .argument n callee text => argumentMessage n callee text
  | .argumentType n callee expected got =>
    argumentMessage n callee s!"{expected} expected, got {got}"
  | .operand verb typeName origin => s!"attempt to {verb} a {typeName} value{origin}"
  | .comparison left right =>
    if left = right then s!"attempt to compare two {left} values"
    else s!"attempt to compare {left} with {right}"
  | .noInteger origin => s!"number{origin} has no integer representation"
  | .message text => text
  | .divisionByZero => "attempt to perform 'n//0'"
  | .moduloByZero => "attempt to perform 'n%0'"
  | .chain event => s!"'{event.name}' chain too long; possible loop"
  | .loopBound bound => s!"'for' {bound.text} must be a number"
  | .renderedText => "'__tostring' must return a string"
  | .raised v => raisedMessage v
  | .key fault => fault.message
  | .traversal => "invalid key to 'next'"
  | .stackOverflow => "stack overflow"
  | .nativeOverflow => "C stack overflow"
  | .budgetExhausted => "instruction budget exhausted"
  | .defect d => "internal error: " ++ d.message
  | .endOfCode pc => s!"internal error: pc {pc} out of range"
  | .unpreparedLoop => "internal error: FORLOOP on unprepared loop state"
  | .listTarget => "internal error: SETLIST target is not a table"
  | .strayOperand => "internal error: EXTRAARG executed"
  | .resultCount => "internal error: result count out of range"
  | .internal text => "internal error: " ++ text

/-- One frame of the call chain at the time of a failure. -/
structure FrameSnapshot where
  /-- The running function. -/
  function : Value
  /-- The instruction that was being executed. -/
  pc : Nat
  /-- The frame belongs to a closure and not to a native function. -/
  isClosure : Bool
  /-- The frame replaced that of its caller. -/
  isTailCall : Bool

/-- A failure. -/
structure Failure where
  cause : Cause
  /-- The chunk and line where the failure arose, empty if it arose elsewhere than in code. -/
  position : String := ""
  /-- The frames that were active when the failure arose, innermost first, once they are known. -/
  traceback : Option (List FrameSnapshot) := none

namespace Failure

/-- A failure with a cause and nothing else yet. -/
def of (cause : Cause) : Failure := { cause }

/-- The message: position and description. -/
def text (e : Failure) : String := e.position ++ e.cause.description

/-- The value under which a program sees the failure: a raised value as it is, and otherwise the
message. -/
def toValue (e : Failure) : Value :=
  match e.cause with
  | .raised v => if e.position = "" then v else .ofText e.text
  | _ => .ofText e.text

/-- The value that was raised, if the failure comes from one. -/
def raised? (e : Failure) : Option Value :=
  match e.cause with
  | .raised v => some v
  | _ => none

/-- Adds the position, unless the failure has one or has left its call already. -/
def locate (e : Failure) (position : String) : Failure :=
  if e.position = "" ∧ e.traceback.isNone then { e with position } else e

/-- Adds the frames, unless the failure has them already. -/
def trace (e : Failure) (frames : List FrameSnapshot) : Failure :=
  { e with traceback := some (e.traceback.getD frames) }

end Failure

end LuaMachine
