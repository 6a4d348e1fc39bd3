import LuaMachine.Native.Arguments
import LuaMachine.Value.Arithmetic
import LuaMachine.Value.Order

/-!
# Scripted native functions

Expressions describe native functions and values without code of the host.  An expression yields a
list of values.  Where one value is needed, it is the first one, or nil if there is none.

## Main definitions

* `Primitive` : operations on the values of their operands.
* `Expression` : the expressions.
* `Expression.run` : an expression as a behaviour, given the arguments of the function.
* `Expression.body` : a list of expressions as the body of a native function.
-/

namespace LuaMachine

/-- The placeholder for the address of an object. -/
def addressPlaceholder : String := "ADDR"

/-- Replaces the address of an object at the end of its text: it says nothing that a script could
rely on. -/
def Value.hideAddress (v : Value) (s : ByteArray) : ByteArray :=
  match v with
  | .object r =>
    let address := r.address.toUTF8
    let start := s.size - address.size
    if s.extract start s.size == address then s.extract 0 start ++ addressPlaceholder.toUTF8 else s
  | _ => s

/-- Operations on the values of their operands. -/
inductive Primitive where
  | call | protectedCall
  | index | setIndex
  | metatable | setMetatable
  | render | typeName
  | raise
  | note
  | remember (name : String)
  | values
  | rest
  | rawGet | rawSet | rawLength | next | unpack
  | less | equal
  | arithmetic (op : Operator)
  | concat
  | kind | toNumber

/-- An expression. -/
inductive Expression where
  /-- A value that is not an object. -/
  | constant (v : Value)
  /-- The value of a variable in the notebook. -/
  | remembered (name : String)
  /-- The value of a global variable. -/
  | global (name : String)
  /-- A new table with entries and a metatable. -/
  | table (entries : List (Expression × Expression)) (metatable : Option Expression)
  /-- A new native function. -/
  | function (name : String) (body : List Expression)
  /-- A new userdata object. -/
  | userdata (tag : String) (metatable : Option Expression)
  /-- A new thread. -/
  | thread (name : String)
  /-- The closure of a prototype. -/
  | closure (p : Prototype)
  /-- All arguments. -/
  | arguments
  /-- The argument at a place. -/
  | argument (n : Nat)
  /-- The number of arguments. -/
  | argumentCount
  /-- An argument that must fit. -/
  | check (kind : ArgumentKind) (n : Nat)
  /-- An argument that may be missing. -/
  | optional (kind : ArgumentKind) (n : Nat) (default : Value)
  /-- Whether an argument counts as true. -/
  | truth (n : Nat)
  /-- Fails with a message. -/
  | complain (text : String)
  /-- Complains about an argument. -/
  | argumentError (n : Nat) (text : String)
  /-- Complains about the type of an argument. -/
  | typeError (n : Nat) (expected : String)
  /-- The position of a call level. -/
  | position (level : Nat)
  /-- A traceback from a call level on. -/
  | traceback (message : Option String) (level : Nat)
  /-- The table of globals. -/
  | globals
  /-- Notes the description of a call level. -/
  | noteCaller (level : Nat)
  /-- Notes how the function was named. -/
  | noteCallee
  /-- An operation on the values of operands. -/
  | apply (p : Primitive) (operands : List Expression)
  /-- A choice. -/
  | conditional (condition yes no : Expression)

instance : Inhabited Expression := ⟨.arguments⟩

namespace Primitive

/-- An operand contributes all its values, and not just one. -/
def spreads (p : Primitive) (place : Nat) : Bool :=
  match p with
  | call | protectedCall => 0 < place
  | note | values | concat => true
  | _ => false

/-- An operation on a table; for any other value it yields nil. -/
def onTable (v : Value) (next : List Value → Behaviour) (f : TableId → Behaviour) : Behaviour :=
  match v with
  | .table id => f id
  | _ => next [.nil]

/-- The arguments from a place on; a value that is no integer or less than 1 stands for 1. -/
def argumentsFrom (args : List Value) (v : Value) : List Value :=
  match v with
  | .integer i => args.drop (i.toInt - 1).toNat
  | _ => args

/-- An operator on two values, without metatables; nil if they are unsuitable. -/
def calculate (op : Operator) (a b : Value) (next : List Value → Behaviour) : Behaviour :=
  match op.apply a b with
  | .value v => next [v]
  | .unsuitable => next [.nil]
  | .divisionByZero => .fail (.of .divisionByZero)
  | .moduloByZero => .fail (.of .moduloByZero)

/-- Performs an operation on values `vs`, in a function with arguments `args`. -/
def perform (p : Primitive) (args vs : List Value) (proceed : List Value → Behaviour) :
    Behaviour :=
  let operand := fun n => vs[n]?.getD .nil
  match p with
  | call => .ask (.call (operand 0) vs.tail) proceed
  | protectedCall => .request (.call (operand 0) vs.tail) fun
    | .ok results => proceed (.boolean true :: results)
    | .error e => proceed [.boolean false, e.toValue]
  | index => .ask (.index (operand 0) (operand 1)) proceed
  | setIndex => .ask (.setIndex (operand 0) (operand 1) (operand 2)) proceed
  | metatable => .ask (.metatable (operand 0)) proceed
  | setMetatable => .ask (.setMetatable (operand 0) (operand 1).table?) fun _ =>
    proceed [operand 0]
  | render => .askValue (.render (operand 0)) fun
    | .string s => proceed [.string ((operand 0).hideAddress s)]
    | v => proceed [v]
  | typeName => .ask (.typeName (operand 0)) proceed
  | raise => .fail (.of (.raised (operand 0)))
  | note => .ask (.note vs) proceed
  | remember name => .ask (.remember name (operand 0)) proceed
  | values => proceed vs
  | rest => proceed (argumentsFrom args (operand 0))
  | rawGet => onTable (operand 0) proceed fun t => .ask (.rawGet t (operand 1)) proceed
  | rawSet => onTable (operand 0) proceed fun t =>
    .ask (.rawSet t (operand 1) (operand 2)) fun _ => proceed [operand 0]
  | rawLength => onTable (operand 0) proceed fun t => .ask (.rawLength t) proceed
  | next => onTable (operand 0) proceed fun t => .ask (.next t (operand 1)) proceed
  | unpack => onTable (operand 0) proceed fun t => .ask (.unpack t) proceed
  | less => proceed [.boolean ((operand 0).less? (operand 1) == some true)]
  | equal => proceed [.boolean ((operand 0).rawEqual (operand 1))]
  | arithmetic op => calculate op (operand 0) (operand 1) proceed
  | concat => proceed [.string (vs.foldl (fun s v => s ++ v.concatBytes?.getD .empty) .empty)]
  | kind => proceed [.ofText (operand 0).kind.name]
  | toNumber => proceed [((operand 0).toNumber?.map .ofNumber).getD .nil]

end Primitive

namespace Expression

mutual

/-- An expression as a behaviour that goes on with the values of the expression. -/
def run (args : List Value) : Expression → (List Value → Behaviour) → Behaviour
  | constant v, next => next [v]
  | remembered name, next => .ask (.remembered name) next
  | global name, next => .askValue .globals fun g =>
    Primitive.rawGet.perform args [g, .ofText name] next
  | table entries metatable, next => .askValue .newTable fun t =>
    fill args t entries (equip args t metatable next)
  | function name body, next => .newNative name (fun args => runBody args body) fun f => next [f]
  | userdata tag metatable, next => .askValue (.newUserdata tag) fun u =>
    equip args u metatable next
  | thread name, next => .ask (.newThread name) next
  | closure p, next => .ask (.load p) next
  | arguments, next => next args
  | argument n, next => next [Arguments.get args n]
  | argumentCount, next => next [.ofNat args.length]
  | check kind n, next => Arguments.check args kind n fun v => next [v]
  | optional kind n default, next => Arguments.optional args kind n default fun v => next [v]
  | truth n, next => next [.boolean (Arguments.get args n).isTruthy]
  | complain text, next => .ask (.complain text) next
  | argumentError n text, _ => Arguments.complain n text
  | typeError n expected, _ => Arguments.refuse args n expected
  | position level, next => .ask (.position level) next
  | traceback message level, next => .ask (.traceback message level) next
  | globals, next => .ask .globals next
  | noteCaller level, next => .ask (.noteCaller level) next
  | noteCallee, next => .ask .noteCallee next
  | apply p operands, next => runOperands args p 0 operands fun vs => p.perform args vs next
  | conditional condition yes no, next => run args condition fun vs =>
    if (vs.headD .nil).isTruthy then run args yes next else run args no next

/-- Writes the entries of a new table one after the other. -/
def fill (args : List Value) (t : Value) : List (Expression × Expression) → Behaviour → Behaviour
  | [], next => next
  | (k, v) :: rest, next =>
    run args k fun ks => run args v fun vs =>
      Primitive.rawSet.perform args [t, ks.headD .nil, vs.headD .nil] fun _ =>
        fill args t rest next

/-- Gives a new object its metatable. -/
def equip (args : List Value) (v : Value) :
    Option Expression → (List Value → Behaviour) → Behaviour
  | none, next => next [v]
  | some e, next => run args e fun vs =>
    Primitive.setMetatable.perform args [v, vs.headD .nil] next

/-- The values of operands from a place on. -/
def runOperands (args : List Value) (p : Primitive) (place : Nat) :
    List Expression → (List Value → Behaviour) → Behaviour
  | [], next => next []
  | e :: rest, next => run args e fun vs =>
    runOperands args p (place + 1) rest fun more =>
      next ((if p.spreads place then vs else [vs.headD .nil]) ++ more)

/-- Expressions one after the other; the values of the last one are the results. -/
def runBody (args : List Value) : List Expression → Behaviour
  | [] => .finish []
  | [e] => run args e .finish
  | e :: rest => run args e fun _ => runBody args rest

end

/-- A list of expressions as the body of a native function. -/
def body (es : List Expression) (args : List Value) : Behaviour := runBody args es

end Expression

end LuaMachine
