import LuaMachine.Machine.Resumption
import LuaMachine.Value.Arithmetic
import LuaMachine.Value.Order

/-!
# Operations with metamethods

Indexing, arithmetic, comparison, length, concatenation and rendering as text first try to do
without metatables; where that is impossible, they look for a handler and call it.

## Main definitions

* `Operation.index`, `Operation.setIndex` : indexing, along chains of handlers.
* `Operation.arithmetic`, `Operation.equal`, `Operation.less`, `Operation.lessEqual`.
* `Operation.length`, `Operation.concat`, `Operation.render`.
-/

namespace LuaMachine.Operation

/-! ### Tables -/

/-- Reads a table. -/
def rawGet (t : TableId) (key : Value) : Exec Value := .gets fun m => (m.heap.table t).get key

/-- Writes to a table. -/
def rawSet (t : TableId) (key value : Value) : Exec Unit := fun m =>
  match Key.ofValue key with
  | .ok k => .done { m with heap := m.heap.modifyTable t (·.setKey k value) } ()
  | .error fault => .stopped m (.failure (.of (.key fault)))

/-- Follows the handlers for indexing from `v` on, at most `n` values in all.  Only the first value
has an origin. -/
def indexChain (key : Value) : Nat → Value → Origin → Exec Value
  | 0, _, _ => .fail (.chain .index)
  | n + 1, v, origin => do
    let found ← match v with
      | .table t => rawGet t key
      | _ => pure .nil
    if !found.isNil then pure found
    else
      match (← Exec.state).handler? v .index with
      | some handler =>
        if handler.isFunction then .callForValue handler [v, key]
        else indexChain key n handler .unknown
      | none =>
        match v with
        | .table _ => pure .nil
        | _ => .failWith fun m => m.operandFault "index" v origin

/-- The value of `v` at `key`: that of a table, or what the handler for indexing gives. -/
def index (v key : Value) (origin : Origin) : Exec Value := do
  indexChain key (← Exec.state).limits.handlerChain v origin

/-- Follows the handlers for assignment from `v` on, at most `n` values in all. -/
def setIndexChain (key value : Value) : Nat → Value → Origin → Exec Unit
  | 0, _, _ => .fail (.chain .newIndex)
  | n + 1, v, origin => do
    let present ← match v with
      | .table t => (do pure !(← rawGet t key).isNil)
      | _ => pure false
    let handler ← if present then pure none else Exec.gets (·.handler? v .newIndex)
    match handler, v with
    | some handler, _ =>
      if handler.isFunction then
        let _ ← Exec.call handler [v, key, value] (some 0)
      else setIndexChain key value n handler .unknown
    | none, .table t => rawSet t key value
    | none, _ => .failWith fun m => m.operandFault "index" v origin

/-- Assigns to `v` at `key`: to the table itself if the key is present or nothing handles
assignments, and otherwise as the handler decides. -/
def setIndex (v key value : Value) (origin : Origin) : Exec Unit := do
  setIndexChain key value (← Exec.state).limits.handlerChain v origin

/-! ### Arithmetic -/

/-- The complaint about the operands of an arithmetic operation: the first operand that is no
number is to blame, or for a bitwise operation on numbers the first that is no integer. -/
def arithmeticCause (m : Machine) (op : Operator) (a b : Value) (oa ob : Origin) : Cause :=
  let verb := if op.isBitwise then "perform bitwise operation on" else "perform arithmetic on"
  match a.toNumber?, b.toNumber? with
  | none, _ => m.operandFault verb a oa
  | some _, some _ =>
    if op.isBitwise then .noInteger (m.originText (if a.toInteger?.isNone then oa else ob))
    else m.operandFault verb b ob
  | some _, none => m.operandFault verb b ob

/-- An operator on two values. -/
def arithmetic (op : Operator) (a b : Value) (oa ob : Origin) : Exec Value :=
  match op.apply a b with
  | .value v => pure v
  | .divisionByZero => .fail .divisionByZero
  | .moduloByZero => .fail .moduloByZero
  | .unsuitable => do
    match (← Exec.state).binaryHandler? a b (.arithmetic op) with
    | some handler => .callForValue handler [a, b]
    | none => .failWith fun m => arithmeticCause m op a b oa ob

/-! ### Comparison -/

/-- `a == b`: raw equality, or the handler's decision for two tables or two userdata objects. -/
def equal (a b : Value) : Exec Bool := do
  if a.rawEqual b then pure true
  else if !a.mayOverloadEqual b then pure false
  else
    match (← Exec.state).binaryHandler? a b .equal with
    | some handler => (·.isTruthy) <$> Exec.callForValue handler [a, b]
    | none => pure false

/-- The decision of the handler for an order, if there is one. -/
def ordered? (a b : Value) (e : Event) : Exec (Option Bool) := do
  match (← Exec.state).binaryHandler? a b e with
  | some handler => (some ·.isTruthy) <$> Exec.callForValue handler [a, b]
  | none => pure none

/-- The complaint that two values have no order. -/
def comparisonCause (m : Machine) (a b : Value) : Cause :=
  .comparison (m.blamedTypeName a) (m.blamedTypeName b)

/-- `a < b`. -/
def less (a b : Value) : Exec Bool :=
  match a.less? b with
  | some r => pure r
  | none => do
    match ← ordered? a b .less with
    | some r => pure r
    | none => .failWith (comparisonCause · a b)

/-- `a ≤ b`.  Without a handler of its own it is decided as `not (b < a)`. -/
def lessEqual (a b : Value) : Exec Bool :=
  match a.lessEqual? b with
  | some r => pure r
  | none => do
    match ← ordered? a b .lessEqual with
    | some r => pure r
    | none =>
      match ← ordered? b a .less with
      | some r => pure !r
      | none => .failWith (comparisonCause · a b)

/-! ### Length, concatenation, text -/

/-- The length of a string or a table, or what the handler gives. -/
def length (v : Value) (origin : Origin) : Exec Value := do
  match v with
  | .string s => pure (.ofNat s.size)
  | _ =>
    match (← Exec.state).handler? v .length with
    | some handler => .callForValue handler [v, v]
    | none =>
      match v with
      | .table t => .gets fun m => .ofNat (m.heap.table t).border
      | _ => .failWith fun m => m.operandFault "get length of" v origin

/-- The bytes of strings and numbers one after the other; other values have none. -/
def joined (values : List Value) : ByteArray :=
  values.foldl (fun s v => s ++ v.concatBytes?.getD .empty) .empty

/-- The concatenation of two values of which one is neither string nor number. -/
def concatPair (a b : Value) (oa ob : Origin) : Exec Value := do
  match (← Exec.state).binaryHandler? a b .concat with
  | some handler => .callForValue handler [a, b]
  | none => .failWith fun m =>
    if a.isConcatenable then m.operandFault "concatenate" b ob
    else m.operandFault "concatenate" a oa

/-- A string without bytes, to which another one need not be joined. -/
def isEmptyString (v : Value) : Bool := v.bytes?.any (·.size == 0)

/-- Concatenates `right` with the values to the left of it, nearest first.  A run of strings and
numbers is joined in one go, unless one of its last two is empty: then the other one takes the place
of both. -/
def concatLeft (origin : Nat → Origin) (right : Value) (left : List Value) : Exec Value :=
  match left with
  | [] => pure right
  | a :: rest =>
    if _h : a.isConcatenable && right.isConcatenable then
      if isEmptyString right then concatLeft origin (.string (joined [a])) rest
      else if isEmptyString a then concatLeft origin (.string (joined [right])) rest
      else
        let run := (a :: rest).takeWhile (·.isConcatenable)
        concatLeft origin (.string (joined (run.reverse ++ [right])))
          ((a :: rest).dropWhile (·.isConcatenable))
    else do
      let v ← concatPair a right (origin rest.length) (origin (rest.length + 1))
      concatLeft origin v rest
termination_by left.length
decreasing_by
  · simp
  · simp
  · simp only [Bool.and_eq_true] at _h
    simp only [List.dropWhile_cons, _h.1, if_true, List.length_cons]
    have := (List.dropWhile_sublist (fun v : Value => v.isConcatenable) (l := rest)).length_le
    omega
  · simp

/-- Concatenates values from the right; `origin` tells where the value at a place came from. -/
def concat (values : List Value) (origin : Nat → Origin) : Exec Value :=
  match values.reverse with
  | [] => pure (.string .empty)
  | right :: left => concatLeft origin right left

/-- The text of a value: what its handler gives, or for an object its type name and address. -/
def render (v : Value) : Exec ByteArray := do
  match (← Exec.state).handler? v .toText with
  | some handler =>
    match (← Exec.callForValue handler [v]).concatBytes? with
    | some s => pure s
    | none => fun m =>
      .stopped m (.failure { cause := .renderedText, position := m.position 1 })
  | none =>
    match v with
    | .string s => pure s
    | .object r => .gets fun m => (m.typeName v ++ ": " ++ r.address).toUTF8
    | v => pure v.text.toUTF8

end LuaMachine.Operation
