import LuaMachine.Machine.Operations

/-!
# Turns of the loop along handlers

An access to a value at a key may be passed on: a value that has nothing of its own at the key
leaves the access to its handler.  Indexing and assignment follow the handlers in a loop, of which
each turn asks two things of the state and changes nothing: what the value at hand has at the key,
and to which handler it leaves the access.  What becomes of the access depends on the answers alone.

## Main definitions

* `Machine.ownValue` : what a value has at a key without handlers.
* `Machine.successor?` : the handler to which a value leaves an access.
* `Operation.indexBy`, `Operation.assignBy` : the rest of a turn.

## Main statements

* `Operation.indexChain_succ`, `Operation.setIndexChain_succ` : one turn.
-/

namespace LuaMachine

/-- What a value has at a key, of itself: nil unless it is a table. -/
def Machine.ownValue (m : Machine) (key v : Value) : Value :=
  match v with
  | .table t => (m.heap.table t).get key
  | _ => .nil

/-- The handler to which a value leaves an access.  A table with a value at the key asks none. -/
def Machine.successor? (m : Machine) (e : Event) (key v : Value) : Option Value :=
  if (m.ownValue key v).isNil then m.handler? v e else none

namespace Operation

/-- What becomes of indexing once it is known what `v` has of its own and to which handler it leaves
the access; `n` more values may be visited. -/
def indexBy (key : Value) (n : Nat) (v : Value) (origin : Origin) (own : Value)
    (handler : Option Value) : Exec Value :=
  match handler with
  | some handler =>
    if handler.isFunction then .callForValue handler [v, key]
    else indexChain key n handler .unknown
  | none =>
    match v with
    | .table _ => pure own
    | _ => .failWith fun m => m.operandFault "index" v origin

/-- The handler of a table is asked for unless the table has a value at the key. -/
private theorem indexRest_table (m : Machine) (key : Value) (n : Nat) (t : TableId)
    (origin : Origin) (own : Value) :
    Exec.bind (.pure own) (fun found =>
      if !found.isNil then pure found else do
        match (← Exec.state).handler? (.table t) .index with
        | some handler =>
          if handler.isFunction then .callForValue handler [.table t, key]
          else indexChain key n handler .unknown
        | none => pure .nil) m =
    indexBy key n (.table t) origin own
      (if own.isNil then m.handler? (.table t) .index else none) m := by
  cases own with
  | nil => rfl
  | _ => rfl

/-- One turn of indexing. -/
theorem indexChain_succ (key : Value) (n : Nat) (v : Value) (origin : Origin) :
    indexChain key (n + 1) v origin = (do
      let own ← Exec.gets (·.ownValue key v)
      indexBy key n v origin own (← Exec.gets (·.successor? .index key v))) := by
  funext m
  cases v with
  | object r =>
    cases r with
    | table t => exact indexRest_table m key n t origin ((m.heap.table t).get key)
    | _ => rfl
  | _ => rfl

/-- What becomes of an assignment once it is known to which handler `v` leaves it; `n` more values
may be visited. -/
def assignBy (key value : Value) (n : Nat) (v : Value) (origin : Origin)
    (handler : Option Value) : Exec Unit :=
  match handler, v with
  | some handler, _ =>
    if handler.isFunction then do
      let _ ← Exec.call handler [v, key, value] (some 0)
    else setIndexChain key value n handler .unknown
  | none, .table t => rawSet t key value
  | none, _ => .failWith fun m => m.operandFault "index" v origin

/-- The handler of a value is asked for unless there is a value at the key. -/
private theorem bind_assignBy (m : Machine) (key value : Value) (n : Nat) (v : Value)
    (origin : Origin) (own : Value) :
    (if !own.isNil then pure none >>= assignBy key value n v origin
      else Exec.gets (·.handler? v .newIndex) >>= assignBy key value n v origin) m =
    assignBy key value n v origin (if own.isNil then m.handler? v .newIndex else none) m := by
  cases own.isNil <;> rfl

/-- One turn of assignment. -/
theorem setIndexChain_succ (key value : Value) (n : Nat) (v : Value) (origin : Origin) :
    setIndexChain key value (n + 1) v origin =
      Exec.gets (·.successor? .newIndex key v) >>= assignBy key value n v origin := by
  funext m
  cases v with
  | object r =>
    cases r with
    | table t => exact bind_assignBy m key value n (.table t) origin ((m.heap.table t).get key)
    | _ => rfl
  | _ => rfl

end Operation

end LuaMachine
