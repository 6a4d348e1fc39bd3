import LuaMachine.Code.ChunkName
import LuaMachine.Code.Prototype
import LuaMachine.Number.Layout
import LuaMachine.Text.Utf8

/-!
# Listings of prototypes

A listing shows a prototype line by line: a header, the instructions with their source lines and a
comment for operands that refer elsewhere, the constants, the local variables, the upvalues, and
the nested functions, indented.

## Main definitions

* `Constant.literal` : a constant in a listing.
* `Prototype.instructionText` : one instruction with its comment.
* `Prototype.listing` : the listing of a prototype and of the functions nested in it.
-/

namespace LuaMachine

/-- A constant in a listing.  A string stands in quotes without further escapes. -/
def Constant.literal : Constant → String
  | .nil => "nil"
  | .boolean b => toString b
  | .integer i => toString i.toInt
  | .float bits => (Binary64.ofBits bits).toLiteral
  | .string s => "\"" ++ Text.ofBytes s ++ "\""

/-- `s` filled up with spaces on the right. -/
def padRight (width : Nat) (s : String) : String :=
  s ++ String.ofList (List.replicate (width - s.length) ' ')

/-- `s` filled up with spaces on the left. -/
def padLeft (width : Nat) (s : String) : String :=
  String.ofList (List.replicate (width - s.length) ' ') ++ s

namespace Prototype

/-- A nine-bit operand in a listing: constants count down from -1. -/
def operandNumber (field : Nat) : Int :=
  if Operand.isConstant field then -1 - Operand.constantIndex field else field

/-- The constant that an operand refers to, `?` if the pool has no such entry. -/
def constantComment (p : Prototype) (field : Nat) : String :=
  match p.constants[Operand.constantIndex field]? with
  | some k => k.literal
  | none => "?"

/-- The comment of an instruction in the three-operand format: the constants that `B` and `C`
refer to, or the name of the upvalue that is read or written. -/
def operandComment (p : Prototype) (op : Opcode) (i : Instruction) : String :=
  let constants :=
    if op.takesConstants then ([i.b, i.c].filter Operand.isConstant).map p.constantComment else []
  let upvalue := match op with
    | .getUpvalue | .setUpvalue | .getTableUpvalue => "\t; " ++ p.upvalueName i.b
    | .setTableUpvalue => "\t; " ++ p.upvalueName i.a
    | _ => ""
  (if constants.isEmpty then "" else "\t; " ++ " ".intercalate constants) ++ upvalue

/-- The comment of an instruction with operand `Bx`. -/
def indexComment (p : Prototype) (op : Opcode) (i : Instruction) : String :=
  match op with
  | .loadConstant =>
    match p.constants[i.bx]? with
    | some k => "\t; " ++ k.literal
    | none => ""
  | .closure => s!"\t; function [{i.bx}]"
  | _ => ""

/-- One instruction, at `pc`, with its comment. -/
def instructionText (p : Prototype) (pc : Nat) (i : Instruction) : String :=
  match i.opcode? with
  | none => i.invalidText
  | some op =>
    padRight 10 op.mnemonic ++ match op.format with
    | .abc =>
      s!"{i.a} {operandNumber i.b} {operandNumber i.c}" ++ p.operandComment op i
    | .abx => s!"{i.a} {i.bx}" ++ p.indexComment op i
    | .asbx => s!"{i.a} {i.sbx}\t; to {pc + 2 + i.sbx}"
    | .ax => s!"{i.ax}"

/-- The line of an instruction in brackets, `-` if it is not known. -/
def lineLabel (p : Prototype) (pc : Nat) : String :=
  match p.line? pc with
  | some line => s!"[{line}]"
  | none => "[-]"

/-- The first line of a listing. -/
def header (p : Prototype) : String :=
  let plus := if p.isVararg then "+" else ""
  s!"function <{ChunkName.display p.source}:{p.lineDefined}> ({p.parameters}{plus} params, " ++
  s!"{p.registers} slots, {p.upvalues.length} upvalues, {p.constants.size} constants, " ++
  s!"{p.children.length} functions)\n"

/-- A section with a heading and numbered lines; an empty section is left out. -/
def sectionText (indent title : String) (entries : List String) : String :=
  if entries.isEmpty then ""
  else
    s!"{indent}{title} ({entries.length}):\n" ++
    String.join (entries.zipIdx.map fun (text, i) => s!"{indent}\t{i}\t{text}\n")

/-- The lines for the instructions. -/
def codeText (p : Prototype) (indent : String) : String :=
  String.join (p.code.toList.zipIdx.map fun (i, pc) =>
    s!"{indent}\t{pc + 1}\t{padLeft 5 (p.lineLabel pc)}\t{p.instructionText pc i}\n")

/-- The line for a local variable, its range counted from 1. -/
def localText (v : LocalVariable) : String := s!"{v.name}\t{v.start + 1}\t{v.stop + 1}"

/-- The line for an upvalue. -/
def upvalueText (u : UpvalueInfo) : String :=
  u.name.getD "-" ++ s!"\t{u.inStack.toNat}\t{u.index}"

/-- The listing of a prototype without its nested functions. -/
def ownListing (p : Prototype) (indent : String) : String :=
  indent ++ p.header ++ p.codeText indent ++
  sectionText indent "constants" (p.constants.toList.map Constant.literal) ++
  sectionText indent "locals" (p.locals.map localText) ++
  sectionText indent "upvalues" (p.upvalues.map upvalueText)

mutual

/-- The listing of a prototype at an indentation. -/
def listingAt (indent : String) : Prototype → String
  | p@⟨_, _, children, _, _, _, _, _, _, _, _, _⟩ =>
    ownListing p indent ++ childrenListing indent 0 children

/-- The listings of nested functions, numbered from `n`. -/
def childrenListing (indent : String) (n : Nat) : List Prototype → String
  | [] => ""
  | child :: rest =>
    s!"{indent}function [{n}]:\n" ++ listingAt (indent ++ "  ") child ++
    childrenListing indent (n + 1) rest

end

/-- The listing of a prototype and of the functions nested in it. -/
def listing (p : Prototype) : String := listingAt "" p

end Prototype

end LuaMachine
