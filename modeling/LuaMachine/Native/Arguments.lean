import LuaMachine.Native.Behaviour

/-!
# Arguments of native functions

A native function receives a list of values and says what it expects of each.  An argument that
does not fit makes the function fail with a complaint that names the function as its caller did.

## Main definitions

* `Arguments.get` : the argument at a place, counted from 1.
* `ArgumentKind` : what can be expected of an argument.
* `Arguments.check` : an argument that must fit.
* `Arguments.optional` : an argument that may be missing or nil.
-/

namespace LuaMachine

/-- What a native function can expect of an argument. -/
inductive ArgumentKind where
  | any | integer | number | string | boolean | table | function | userdata | thread
  deriving DecidableEq, Repr

namespace Arguments

/-- The argument at a place, counted from 1; nil if there is none. -/
def get (args : List Value) (n : Nat) : Value :=
  if n = 0 then .nil else args[n - 1]?.getD .nil

/-- There is an argument at a place. -/
def isPresent (args : List Value) (n : Nat) : Bool := 0 < n && n ≤ args.length

/-- Complains about the type of an argument. -/
def refuse (args : List Value) (n : Nat) (expected : String) : Behaviour :=
  .ask (.typeError n expected (if isPresent args n then some (get args n) else none)) .finish

/-- Complains about an argument. -/
def complain (n : Nat) (text : String) : Behaviour := .ask (.argumentError n text) .finish

/-- Goes on with an argument that must fit.  Numbers are converted between integers and floats, and
to and from numerals in strings. -/
def check (args : List Value) (kind : ArgumentKind) (n : Nat) (next : Value → Behaviour) :
    Behaviour :=
  let v := get args n
  match kind with
  | .any => if isPresent args n then next v else complain n "value expected"
  | .integer =>
    match v.toInteger?, v.toNumber? with
    | some i, _ => next (.integer i)
    | none, some _ => complain n "number has no integer representation"
    | none, none => refuse args n "number"
  | .number =>
    match v.floating? with
    | some x => next x
    | none => refuse args n "number"
  | .string =>
    match v.concatBytes? with
    | some s => next (.string s)
    | none => refuse args n "string"
  | .boolean =>
    match v with
    | .boolean _ => next v
    | _ => refuse args n "boolean"
  | .table => if v.kind == .table then next v else refuse args n "table"
  | .function => if v.kind == .function then next v else refuse args n "function"
  | .userdata => if v.kind == .userdata then next v else refuse args n "userdata"
  | .thread => if v.kind == .thread then next v else refuse args n "thread"

/-- A default of the expected kind.  Objects have none. -/
def defaultOf (kind : ArgumentKind) (default : Value) : Value :=
  match kind with
  | .integer => .integer (default.toInteger?.getD 0)
  | .number => default.floating?.getD (.ofFloat 0.0)
  | .string => .string (default.bytes?.getD .empty)
  | .boolean => .boolean default.isTruthy
  | _ => .nil

/-- Goes on with an argument that may be missing or nil; then the default takes its place. -/
def optional (args : List Value) (kind : ArgumentKind) (n : Nat) (default : Value)
    (next : Value → Behaviour) : Behaviour :=
  if (get args n).isNil then next (defaultOf kind default) else check args kind n next

end Arguments

end LuaMachine
