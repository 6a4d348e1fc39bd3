import LuaMachine.Machine.Naming

/-!
# Computations that call

An instruction or a native function may call functions of the program in its course.  Such a
computation is described up to its next call: it is done, or it has stopped, or it waits for a call
to end and goes on with the outcome.  The description makes all re-entry explicit, so that the
machine runs in small steps and no part of it calls itself.

## Main definitions

* `Resumption` : the state of a computation.
* `Exec` : computations from a state of the machine on, a monad.
* `Exec.call` : calls a value.
* `Exec.attempt` : a computation whose failure is an answer.
* `Exec.annotated` : adds a position to the failures of a computation.
-/

namespace LuaMachine

/-- A computation up to its next call. -/
inductive Resumption (α : Type) where
  /-- The computation is over. -/
  | done (m : Machine) (a : α)
  /-- The computation has failed. -/
  | stopped (m : Machine) (s : Stop)
  /-- The computation calls a value and waits for the outcome; `wanted` is the number of results
  it wants, `none` stands for all. -/
  | waiting (m : Machine) (f : Value) (arguments : List Value) (wanted : Option Nat)
      (next : Machine → Except Failure (List Value) → Resumption α)

namespace Resumption

/-- Goes on with a further computation. -/
def bind {α β : Type} (r : Resumption α) (f : α → Machine → Resumption β) : Resumption β :=
  match r with
  | done m a => f a m
  | stopped m s => stopped m s
  | waiting m g args wanted next => waiting m g args wanted fun m' o => (next m' o).bind f

/-- Changes the failures of a computation, given the state in which they arise. -/
def mapFailure {α : Type} (change : Machine → Failure → Failure) : Resumption α → Resumption α
  | done m a => done m a
  | stopped m (.failure e) => stopped m (.failure (change m e))
  | stopped m (.fault f) => stopped m (.fault f)
  | waiting m g args wanted next =>
    waiting m g args wanted fun m' o => (next m' o).mapFailure change

/-- Turns failures into answers. -/
def attempt {α : Type} : Resumption α → Resumption (Except Failure α)
  | done m a => done m (.ok a)
  | stopped m (.failure e) => done m (.error e)
  | stopped m (.fault f) => stopped m (.fault f)
  | waiting m g args wanted next => waiting m g args wanted fun m' o => (next m' o).attempt

end Resumption

/-- A computation from a state of the machine on. -/
def Exec (α : Type) : Type := Machine → Resumption α

namespace Exec

/-- The computation that yields `a` at once. -/
@[inline] protected def pure {α : Type} (a : α) : Exec α := fun m => .done m a

/-- One computation after the other. -/
@[inline] protected def bind {α β : Type} (x : Exec α) (f : α → Exec β) : Exec β :=
  fun m => (x m).bind f

instance : Monad Exec where
  pure := Exec.pure
  bind := Exec.bind

/-- An operation that calls nothing. -/
@[inline] def ofRoutine {α : Type} (x : Routine α) : Exec α := fun m =>
  match x m with
  | .ok a m => .done m a
  | .error s m => .stopped m s

instance : MonadLift Routine Exec := ⟨ofRoutine⟩

/-- The state of the machine. -/
@[inline] def state : Exec Machine := fun m => .done m m

/-- A function of the state. -/
@[inline] def gets {α : Type} (f : Machine → α) : Exec α := fun m => .done m (f m)

/-- Fails. -/
def throw {α : Type} (e : Failure) : Exec α := fun m => .stopped m (.failure e)

/-- Fails with a cause. -/
def fail {α : Type} (cause : Cause) : Exec α := throw (.of cause)

/-- Fails with a cause that depends on the state. -/
def failWith {α : Type} (cause : Machine → Cause) : Exec α := fun m =>
  .stopped m (.failure (.of (cause m)))

/-- Calls a value and yields the results; a failure of the call is one of the computation. -/
def call (f : Value) (args : List Value) (wanted : Option Nat) : Exec (List Value) := fun m =>
  .waiting m f args wanted fun m' o =>
    match o with
    | .ok results => .done m' results
    | .error e => .stopped m' (.failure e)

/-- Calls a value for its first result. -/
def callForValue (f : Value) (args : List Value) : Exec Value := do
  pure ((← call f args (some 1)).headD .nil)

/-- A computation whose failure is an answer. -/
def attempt {α : Type} (x : Exec α) : Exec (Except Failure α) := fun m => (x m).attempt

/-- Adds a position to the failures of a computation that have none: that of the closure running at
the time. -/
def annotated {α : Type} (x : Exec α) : Exec α := fun m =>
  (x m).mapFailure fun m' e => e.locate m'.ownPosition

end Exec

end LuaMachine
