import LuaMachine.Code.Prototype
import LuaMachine.Event
import LuaMachine.Text.Utf8

/-!
# Where a register's value came from

Messages name the value they complain about.  The name is found in the code: a register that holds
a local variable has that variable's name, and otherwise the last instruction that wrote the
register tells what was loaded into it.  An instruction that a forward jump may have skipped says
nothing about the register.

## Main definitions

* `Designation` : a name together with the role it plays.
* `Instruction.writes` : the registers that an instruction writes.
* `Prototype.lastWriter?` : the last instruction that certainly wrote a register.
* `Prototype.objectName?` : the name of a register's value.
* `Prototype.callName?` : the name under which an instruction calls a function.

## Main results

* `Prototype.lastWriter?_lt` : the last writer stands before the place it is asked for, so the
  search for a name goes strictly backwards.
-/

namespace LuaMachine

/-- What a name designates. -/
inductive Role where
  | localVariable | global | field | upvalue | constant | method | iterator | metamethod
  deriving DecidableEq, Repr

/-- The word for a role. -/
def Role.text : Role → String
  | localVariable => "local"
  | global => "global"
  | field => "field"
  | upvalue => "upvalue"
  | constant => "constant"
  | method => "method"
  | iterator => "for iterator"
  | metamethod => "metamethod"

/-- A name and what it designates. -/
structure Designation where
  role : Role
  name : String
  deriving DecidableEq, Repr

/-- The instruction writes register `r`.  A call writes all registers from its own on, since the
number of its results may depend on the callee. -/
def Instruction.writes (i : Instruction) (r : Nat) : Bool :=
  match i.opcode? with
  | none => false
  | some .loadNil => i.a ≤ r && r ≤ i.a + i.b
  | some .iteratorCall => i.a + 2 ≤ r
  | some .call | some .tailCall => i.a ≤ r
  | some op => op.setsA && i.a == r

/-- The operator of an arithmetic instruction. -/
def Opcode.operator? : Opcode → Option Operator
  | add => some .add
  | sub => some .sub
  | mul => some .mul
  | mod => some .mod
  | pow => some .pow
  | div => some .div
  | floorDiv => some .floorDiv
  | bitAnd => some .bitAnd
  | bitOr => some .bitOr
  | bitXor => some .bitXor
  | shiftLeft => some .shiftLeft
  | shiftRight => some .shiftRight
  | negate => some .negate
  | bitNot => some .bitNot
  | _ => none

/-- The event whose handler an instruction may call. -/
def Opcode.event? : Opcode → Option Event
  | self | getTableUpvalue | getTable => some .index
  | setTableUpvalue | setTable => some .newIndex
  | length => some .length
  | concat => some .concat
  | equal => some .equal
  | lessThan => some .less
  | lessEqual => some .lessEqual
  | op => op.operator?.map .arithmetic

namespace Prototype

/-- The target of a jump at `pc` that leads forward, but not past `last`. -/
def forwardTarget? (i : Instruction) (pc last : Nat) : Option Nat :=
  let target : Int := pc + 1 + i.sbx
  if i.opcode? = some .jump ∧ pc < target ∧ target ≤ last then some target.toNat else none

/-- The state of a walk through the code in search of the last writer of a register. -/
structure Search where
  /-- The last writer so far, unless a jump may have skipped it. -/
  writer : Option Nat := none
  /-- The furthest target of the jumps so far: instructions before it are conditional. -/
  frontier : Nat := 0

/-- One instruction of the walk. -/
def Search.advance (p : Prototype) (last r : Nat) (s : Search) (pc : Nat) : Search :=
  match p.code[pc]? with
  | none => s
  | some i =>
    { writer := if i.writes r then (if s.frontier ≤ pc then some pc else none) else s.writer
      frontier := max s.frontier ((forwardTarget? i pc last).getD 0) }

/-- The last instruction before `last` that wrote register `r`, if no jump may have skipped it. -/
def lastWriter? (p : Prototype) (last r : Nat) : Option Nat :=
  ((List.range (min last p.code.size)).foldl (Search.advance p last r) {}).writer

/-- A walk over places before `last` finds a place before `last`. -/
theorem Search.writer_lt {p : Prototype} {last r pc : Nat} (places : List Nat)
    (h : ∀ x ∈ places, x < last) (s : Search) (hs : ∀ x, s.writer = some x → x < last)
    (found : (places.foldl (Search.advance p last r) s).writer = some pc) : pc < last := by
  induction places generalizing s with
  | nil => exact hs pc found
  | cons x rest ih =>
    refine ih (fun y hy => h y (List.mem_cons_of_mem x hy)) _ ?_ found
    intro y hy
    simp only [Search.advance] at hy
    split at hy
    · exact hs y hy
    · dsimp only at hy
      split at hy
      · split at hy
        · simp only [Option.some.injEq] at hy
          exact hy ▸ h x List.mem_cons_self
        · simp at hy
      · exact hs y hy

theorem lastWriter?_lt {p : Prototype} {last r pc : Nat} (h : p.lastWriter? last r = some pc) :
    pc < last :=
  Search.writer_lt (List.range (min last p.code.size))
    (fun x hx => by simp only [List.mem_range] at hx; omega) {} (by simp) h

/-- The text of constant `k`, if it is a string. -/
def stringConstant? (p : Prototype) (k : Nat) : Option String :=
  (p.constants[k]?.bind Constant.bytes?).map Text.ofBytes

/-- The name of a key operand: a string constant, or a register that was loaded from one; `name`
gives the name of a register. -/
def keyName (p : Prototype) (field : Nat) (name : Nat → Option Designation) : String :=
  match Operand.ofField field with
  | .constant k => (p.stringConstant? k).getD "?"
  | .register r =>
    match name r with
    | some ⟨.constant, key⟩ => key
    | _ => "?"

/-- What an index into the variable `table` designates: a field, or a global if the table is the
environment. -/
def fieldRole (table : Option String) : Role :=
  if table == some "_ENV" then .global else .field

/-- The name of the value in register `r` just before the instruction at `last`. -/
def objectName? (p : Prototype) (last r : Nat) : Option Designation :=
  match p.localName? (r + 1) last with
  | some name => some ⟨.localVariable, name⟩
  | none =>
    match _h : p.lastWriter? last r with
    | none => none
    | some pc =>
      match p.code[pc]? with
      | none => none
      | some i =>
        match i.opcode? with
        | some .move => if i.b < i.a then objectName? p pc i.b else none
        | some .getTableUpvalue =>
          some ⟨fieldRole (some (p.upvalueName i.b)), p.keyName i.c fun r => objectName? p pc r⟩
        | some .getTable =>
          some ⟨fieldRole (p.localName? (i.b + 1) pc), p.keyName i.c fun r => objectName? p pc r⟩
        | some .getUpvalue => some ⟨.upvalue, p.upvalueName i.b⟩
        | some .loadConstant => (p.stringConstant? i.bx).map (⟨.constant, ·⟩)
        | some .loadConstantExtra =>
          p.code[pc + 1]?.bind fun extra => (p.stringConstant? extra.ax).map (⟨.constant, ·⟩)
        | some .self => some ⟨.method, p.keyName i.c fun r => objectName? p pc r⟩
        | _ => none
termination_by last
decreasing_by all_goals exact lastWriter?_lt _h

/-- The name under which the instruction at `pc` calls a function: that of the called value, or of
the event whose handler is called. -/
def callName? (p : Prototype) (pc : Nat) : Option Designation :=
  match p.code[pc]? with
  | none => none
  | some i =>
    match i.opcode? with
    | none => none
    | some .call | some .tailCall => p.objectName? pc i.a
    | some .iteratorCall => some ⟨.iterator, Role.iterator.text⟩
    | some op => op.event?.map fun e => ⟨.metamethod, e.shortName⟩

end Prototype

end LuaMachine
