import LuaMachine.Machine.Metatables

/-!
# Names and tracebacks

Messages tell where in the source something happened, what a value was called, and which calls led
there.

## Main definitions

* `Machine.snapshots` : the active frames, from each one to its caller.
* `Machine.frameInfo` : what is known about a frame.
* `Machine.position` : the beginning of a message that a call level produces.
* `Origin`, `Machine.originText` : where an operand came from.
* `Machine.globalName?` : the name under which the loaded modules hold a function.
* `Machine.calleeName?` : how the running function was named.
* `Machine.listing` : a traceback.
-/

namespace LuaMachine

/-- Where an operand of the running function came from. -/
inductive Origin where
  | unknown
  | register (r : Nat)
  | upvalue (u : Nat)
  deriving DecidableEq, Repr

/-- The origin of an operand: constants have none. -/
def Origin.ofField (field : Nat) : Origin :=
  match Operand.ofField field with
  | .register r => .register r
  | .constant _ => .unknown

namespace Machine

/-- The present state of a frame. -/
def snapshot (m : Machine) (f : Frame) : FrameSnapshot where
  function := match f.closure? with
    | some id => .closure id
    | none => m.stack[f.function]?.getD .nil
  pc := f.currentPc
  isClosure := f.isClosure
  isTailCall := f.isTailCall

/-- The frame with a given index and those that called it, one after the other.  There are at most
`n` of them. -/
def callers (frames : Array Frame) : Nat → Option Nat → List Frame
  | 0, _ => []
  | n + 1, i =>
    match i.bind (frames[·]?) with
    | some f => f :: callers frames n f.caller?
    | none => []

/-- The active frames, innermost first. -/
def snapshots (m : Machine) : List FrameSnapshot :=
  (callers m.frames m.frames.size (Frame.innermost? m.frames)).map m.snapshot

/-- The frame that is `level` calls above the one with a given index. -/
def callerAt? (frames : Array Frame) : Nat → Option Nat → Option Frame
  | 0, i => i.bind (frames[·]?)
  | level + 1, i => (i.bind (frames[·]?)).bind fun f => callerAt? frames level f.caller?

/-- The active frame at a level; the innermost has level 0. -/
def snapshotAt? (m : Machine) (level : Nat) : Option FrameSnapshot :=
  (callerAt? m.frames level (Frame.innermost? m.frames)).map m.snapshot

/-- The closure that runs in a frame. -/
def closureIn? (m : Machine) (s : FrameSnapshot) : Option Closure :=
  if s.isClosure then s.function.closure?.map m.heap.closure else none

/-- The name that the calling instruction gives to the function of a frame.  A tail call leaves no
such instruction behind. -/
def designation? (m : Machine) (s : FrameSnapshot) (caller : Option FrameSnapshot) :
    Option Designation :=
  if s.isTailCall then none
  else caller.bind fun c => (m.closureIn? c).bind fun cl => cl.proto.callName? c.pc

/-- What is known about a frame, given the frame that called it. -/
def frameInfo (m : Machine) (s : FrameSnapshot) (caller : Option FrameSnapshot) : FrameInfo :=
  let designation? := m.designation? s caller
  match m.closureIn? s with
  | some c =>
    { what := if c.proto.isMain then "main" else "Lua"
      source := c.proto.source
      shortSource := ChunkName.display c.proto.source
      line? := c.proto.line? s.pc
      lineDefined := c.proto.lineDefined
      designation?
      isTailCall := s.isTailCall }
  | none =>
    { what := "C"
      source := "=[C]"
      shortSource := "[C]"
      designation?
      isTailCall := s.isTailCall }

/-- What is known about the active frame at a level. -/
def frameInfoAt? (m : Machine) (level : Nat) : Option FrameInfo :=
  (m.snapshotAt? level).map fun s => m.frameInfo s (m.snapshotAt? (level + 1))

/-- Chunk and line of the active frame at a level as the beginning of a message, empty if there is
no line. -/
def position (m : Machine) (level : Nat) : String :=
  match m.frameInfoAt? level with
  | some info =>
    match info.line?.filter (0 < ·) with
    | some line => s!"{info.shortSource}:{line}: "
    | none => ""
  | none => ""

/-- Chunk and line of the running closure as the beginning of a message, with a question mark for
an unknown line; empty if no closure is running. -/
def ownPosition (m : Machine) : String :=
  match m.frame? with
  | some f =>
    match m.closureOf? f with
    | some c =>
      let line := match c.proto.line? f.currentPc with
        | some line => toString line
        | none => "?"
      s!"{ChunkName.display c.proto.source}:{line}: "
    | none => ""
  | none => ""

/-- A name in a message. -/
def designationText (d : Designation) : String := s!" ({d.role.text} '{d.name}')"

/-- The name of an operand of the running closure, empty if there is none. -/
def originText (m : Machine) (o : Origin) : String :=
  match m.frame? with
  | none => ""
  | some f =>
    match m.closureOf? f with
    | none => ""
    | some c =>
      match o with
      | .unknown => ""
      | .upvalue u => designationText ⟨.upvalue, c.proto.upvalueName u⟩
      | .register r =>
        match c.proto.objectName? f.currentPc r with
        | some d => designationText d
        | none => ""

/-- The origin of the value in a slot: a register, if the running closure has it there. -/
def slotOrigin (m : Machine) (slot : Nat) : Origin :=
  match m.frame? with
  | some f => if f.isClosure && f.base ≤ slot && slot < f.top then .register (slot - f.base)
    else .unknown
  | none => .unknown

/-- The complaint that an operation does not work on a value. -/
def operandFault (m : Machine) (verb : String) (v : Value) (o : Origin) : Cause :=
  .operand verb (m.blamedTypeName v) (m.originText o)

/-! ### Functions in the loaded modules -/

/-- The first string key of a table whose value is a given one. -/
def fieldName? (m : Machine) (table function : Value) : Option String :=
  table.table?.bind fun id =>
    (m.heap.table id).toList.findSome? fun
      | (.string s, v) => if v.rawEqual function then some (Text.ofBytes s) else none
      | _ => none

/-- The name under which the loaded modules hold a function: the name of a module, or a field of a
module, which is qualified by the module's name unless it is a global variable. -/
def globalName? (m : Machine) (function : Value) : Option String :=
  (m.heap.table m.loaded).toList.findSome? fun
    | (.string s, module) =>
      let moduleName := Text.ofBytes s
      if module.rawEqual function then some moduleName
      else (m.fieldName? module function).map fun field =>
        if moduleName = "_G" then field else moduleName ++ "." ++ field
    | _ => none

/-- How the running function was named: by the calling instruction, by the loaded modules, or by
the name a native function was created with. -/
def calleeName? (m : Machine) : Option CalleeName :=
  match m.snapshotAt? 0, m.frameInfoAt? 0 with
  | some s, some info =>
    match info.designation? with
    | some d => some ⟨d.name, d.role == .method⟩
    | none =>
      let own := match s.function with
        | .native id => some (m.heap.native id).name
        | _ => none
      ((m.globalName? s.function).or own).map (⟨·, false⟩)
  | _, _ => none

/-! ### Tracebacks -/

/-- A function in a traceback. -/
def functionText (m : Machine) (function : Value) (info : FrameInfo) : String :=
  match m.globalName? function, info.designation? with
  | some name, _ => s!"function '{name}'"
  | none, some d => s!"{d.role.text} '{d.name}'"
  | none, none =>
    if info.what = "main" then "main chunk"
    else if info.what ≠ "C" then s!"function <{info.shortSource}:{info.lineDefined}>"
    else "?"

/-- One frame in a traceback. -/
def frameLine (m : Machine) (s : FrameSnapshot) (caller : Option FrameSnapshot) : String :=
  let info := m.frameInfo s caller
  let line := match info.line?.filter (0 < ·) with
    | some line => s!"{line}:"
    | none => ""
  let tail := if info.isTailCall then "\n\t(...tail calls...)" else ""
  s!"\n\t{info.shortSource}:{line} in {m.functionText s.function info}{tail}"

/-- The number of frames shown before a gap. -/
def levelsBeforeGap : Nat := 10

/-- The number of frames shown after a gap. -/
def levelsAfterGap : Nat := 11

/-- A traceback from a level on.  If there are more frames than are shown before and after a gap,
and one more, it goes on behind the gap as soon as the level of the gap is reached. -/
def listingFrom (m : Machine) (frames : Array FrameSnapshot) (level : Nat) : String :=
  if h : level < frames.size then
    if levelsBeforeGap + levelsAfterGap + 1 < frames.size ∧ level = levelsBeforeGap then
      "\n\t..." ++ m.listingFrom frames (frames.size - levelsAfterGap)
    else
      m.frameLine frames[level] frames[level + 1]? ++ m.listingFrom frames (level + 1)
  else ""
termination_by frames.size - level
decreasing_by all_goals omega

/-- A traceback of frames, innermost first. -/
def listing (m : Machine) (frames : List FrameSnapshot) : String :=
  "stack traceback:" ++ m.listingFrom frames.toArray 0

/-- A traceback depends on the machine through its lines only. -/
theorem listing_congr {m m' : Machine}
    (h : ∀ s caller, m'.frameLine s caller = m.frameLine s caller) (frames : List FrameSnapshot) :
    m'.listing frames = m.listing frames := by
  have hfrom (frames : Array FrameSnapshot) (level : Nat) :
      m'.listingFrom frames level = m.listingFrom frames level := by
    fun_induction listingFrom m frames level with
    | case1 level hlevel hgap ih => rw [listingFrom, dif_pos hlevel, if_pos hgap, ih]
    | case2 level hlevel hgap ih => rw [listingFrom, dif_pos hlevel, if_neg hgap, ih, h]
    | case3 level hlevel => rw [listingFrom, dif_neg hlevel]
  rw [listing, listing, hfrom]

/-- The traceback of a failure. -/
def failureTraceback (m : Machine) (e : Failure) : String := m.listing (e.traceback.getD [])

/-- A traceback of the active frames from a level on, after a message if there is one. -/
def activeTraceback (m : Machine) (message : Option String) (level : Nat) : String :=
  let text := m.listing (m.snapshots.drop level)
  match message with
  | some message => message ++ "\n" ++ text
  | none => text

end Machine

end LuaMachine
