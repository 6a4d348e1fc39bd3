import LuaMachine.Code.Instruction
import LuaMachine.Text.Bytes

/-!
# Function prototypes

A prototype is the compiled form of a function: its instructions and constants, the prototypes of
the functions nested in it, the upvalues that its closures capture, the shape of its frame, and
information for messages, which may be missing: lines, names of local variables and of upvalues.

## Main definitions

* `Constant`, `UpvalueInfo`, `LocalVariable`, `Prototype`.
* `Prototype.internConstant`, `Prototype.emit` and others : building a prototype step by step.
* `Prototype.line?`, `Prototype.localName?`, `Prototype.upvalueName` : the information for
  messages.
-/

namespace LuaMachine

/-- An entry of the constant pool.  A float is kept as its bits: the pool tells `0.0` from `-0.0`
and one NaN from another. -/
inductive Constant where
  | nil
  | boolean (b : Bool)
  | integer (i : Int64)
  | float (bits : UInt64)
  | string (s : ByteArray)
  deriving DecidableEq, Inhabited

/-- The bytes of a string constant. -/
def Constant.bytes? : Constant → Option ByteArray
  | .string s => some s
  | _ => none

/-- How a closure obtains one of its upvalues. -/
structure UpvalueInfo where
  /-- The name in the source, unless it was stripped. -/
  name : Option String
  /-- Whether the upvalue is a register of the enclosing function, rather than one of its
  upvalues. -/
  inStack : Bool
  /-- The register, or the index among the enclosing function's upvalues. -/
  index : Nat
  deriving Inhabited

/-- A local variable and the instructions at which it is active: from `start` on, up to `stop`
exclusive. -/
structure LocalVariable where
  name : String
  start : UInt32
  stop : UInt32
  deriving Inhabited

/-- The compiled form of a function. -/
structure Prototype where
  /-- The instructions. -/
  code : Array Instruction := #[]
  /-- The constant pool. -/
  constants : Array Constant := #[]
  /-- The prototypes of the functions nested in this one. -/
  children : List Prototype := []
  /-- The upvalues of the function's closures. -/
  upvalues : List UpvalueInfo := []
  /-- The number of fixed parameters. -/
  parameters : Nat := 0
  /-- Whether the function accepts more arguments than it has parameters. -/
  isVararg : Bool := false
  /-- The number of registers. -/
  registers : Nat := 2
  /-- The chunk name. -/
  source : String := "=?"
  /-- The line where the definition begins; zero for a main chunk. -/
  lineDefined : UInt32 := 0
  /-- The line where the definition ends. -/
  lastLineDefined : UInt32 := 0
  /-- The line of each instruction; shorter than the code, or empty, where lines were
  stripped. -/
  lines : Array UInt32 := #[]
  /-- The local variables in the order of their first instructions. -/
  locals : List LocalVariable := []
  deriving Inhabited

namespace Prototype

/-! ### Building a prototype -/

/-- Adds an instruction with its line. -/
def emit (p : Prototype) (i : Instruction) (line : UInt32) : Prototype :=
  { p with code := p.code.push i, lines := p.lines.push line }

/-- The pool with a constant, and the constant's index: that of an equal entry if there is one,
otherwise a new one at the end. -/
def internConstant (p : Prototype) (k : Constant) : Prototype × Nat :=
  match p.constants.findIdx? (· == k) with
  | some i => (p, i)
  | none => ({ p with constants := p.constants.push k }, p.constants.size)

/-- Adds the prototype of a nested function. -/
def addChild (p : Prototype) (child : Prototype) : Prototype :=
  { p with children := p.children ++ [child] }

/-- Declares an upvalue. -/
def addUpvalue (p : Prototype) (name : String) (inStack : Bool) (index : Nat) : Prototype :=
  { p with upvalues := p.upvalues ++ [⟨some name, inStack, index⟩] }

/-- Records a local variable. -/
def addLocal (p : Prototype) (name : String) (start stop : UInt32) : Prototype :=
  { p with locals := p.locals ++ [⟨name, start, stop⟩] }

/-- Replaces `sBx` of the instruction at `pc`. -/
def patchJump (p : Prototype) (pc : Nat) (sbx : Int) : Prototype :=
  { p with code := p.code.modify pc (·.withSbx sbx) }

/-! ### Information for messages -/

/-- A main chunk rather than a nested function. -/
def isMain (p : Prototype) : Bool := p.lineDefined == 0

/-- The line of the instruction at `pc`, if it is known. -/
def line? (p : Prototype) (pc : Nat) : Option UInt32 := p.lines[pc]?

/-- The `n`-th of the variables that are active at `pc`, counted from 1.  The list is in the order
of first instructions, so the search ends at the first variable that begins after `pc`. -/
def activeLocal? (pc : Nat) : List LocalVariable → Nat → Option LocalVariable
  | [], _ => none
  | v :: rest, n =>
    if pc < v.start.toNat then none
    else if pc < v.stop.toNat then
      if n = 1 then some v else activeLocal? pc rest (n - 1)
    else activeLocal? pc rest n

/-- The name of the `n`-th local variable that is active at `pc`, counted from 1. -/
def localName? (p : Prototype) (n pc : Nat) : Option String :=
  if n = 0 then none else (activeLocal? pc p.locals n).map (·.name)

/-- The name of an upvalue, `?` if it has none. -/
def upvalueName (p : Prototype) (i : Nat) : String :=
  (p.upvalues[i]?.bind (·.name)).getD "?"

end Prototype

end LuaMachine
