import LuaMachine.Machine.Dispatch

/-!
# Running the machine

The machine runs in small steps.  Its configuration holds the computation in progress and the calls
within which it takes place: each call that came from within an instruction, a native function or
the host, together with what goes on when it has ended, and each call of an iterator.

A call that ends restores the first free slot.  One that fails also drops the frames that it has
entered, after closing the cells that are open in its part of the stack, and gives the failure a
list of the frames unless an inner call has done so.

## Main definitions

* `Pending` : a call in progress.
* `Config`, `Config.step` : configurations and steps.
* `Config.run` : a number of steps.
* `Machine.run` : a call from the host.
* `Exec.evaluate` : a computation with all its calls.
-/

namespace LuaMachine

/-- A call in progress that does not belong to the sequence of instructions. -/
inductive Pending where
  /-- A call in the slot `function`, made when there were `depth` frames and `top` was the first
  free slot.  The host waits for its outcome if no computation does. -/
  | boundary (depth top function : Nat)
      (next : Option (Machine → Except Failure (List Value) → Resumption Control))
  /-- A call of an iterator by the innermost frame. -/
  | iterator

/-- A configuration. -/
structure Config where
  /-- The computation in progress. -/
  current : Resumption Control
  /-- The calls in progress, innermost first. -/
  pending : List Pending

/-- What a step leads to. -/
inductive Step where
  | more (c : Config)
  | final (m : Machine) (outcome : Except Stop (List Value))

namespace Config

/-- A call is over, one way or the other. -/
def countDown (m : Machine) : Machine := { m with reentries := m.reentries - 1 }

/-- The state after a call has failed: its cells are closed and its frames dropped. -/
def unwind (depth top function : Nat) (m : Machine) : Machine :=
  match Cell.closeFrom function m with
  | .ok _ m | .error _ m => { m with frames := m.frames.shrink depth, top }

/-- Adds the active frames to a failure that has none. -/
def trace (m : Machine) (e : Failure) : Failure :=
  if e.traceback.isNone then e.trace m.snapshots else e

/-- Hands the outcome of a call to the computation that waits for it. -/
def resume (m : Machine) (outcome : Except Failure (List Value)) (pending : List Pending)
    (next : Option (Machine → Except Failure (List Value) → Resumption Control)) : Step :=
  match next, outcome with
  | some next, outcome => .more ⟨next m outcome, pending⟩
  | none, .ok results => .final m (.ok results)
  | none, .error e => .final m (.error (.failure e))

/-- The innermost call has ended. -/
def complete (m : Machine) : List Pending → Step
  | [] => .final m (.ok [])
  | .iterator :: rest =>
    match Stack.resetTop (countDown m) with
    | .ok _ m => .more ⟨.done m .next, rest⟩
    | .error s m => .more ⟨.stopped m s, rest⟩
  | .boundary _ top function next :: rest =>
    match Stack.readRange function m.top m with
    | .ok results m => resume { countDown m with top } (.ok results) rest next
    | .error s m => .final m (.error s)

/-- The innermost call has failed.  The failure of an iterator is one of the frame that called
it. -/
def abort (m : Machine) (e : Failure) : List Pending → Step
  | [] => .final m (.error (.failure e))
  | .iterator :: rest =>
    let m := countDown m
    .more ⟨.stopped m (.failure (e.locate m.ownPosition)), rest⟩
  | .boundary depth top function next :: rest =>
    let m := countDown m
    let e := trace m e
    resume (unwind depth top function m) (.error e) rest next

/-- Begins a call. -/
def begin (m : Machine) (f : Value) (args : List Value) (wanted : Option Nat)
    (next : Option (Machine → Except Failure (List Value) → Resumption Control))
    (pending : List Pending) : Config :=
  let function := m.freeSlot
  let boundary := .boundary m.frames.size m.top function next
  ⟨Call.start f args wanted function m, boundary :: pending⟩

/-- One step. -/
def step (c : Config) : Step :=
  match c with
  | ⟨.done m .next, pending⟩ => .more ⟨Dispatch.step.annotated m, pending⟩
  | ⟨.done m .finished, pending⟩ => complete m pending
  | ⟨.done m (.iterate function wanted), pending⟩ =>
    .more ⟨Call.startIterator function wanted m, .iterator :: pending⟩
  | ⟨.stopped m (.failure e), pending⟩ => abort m e pending
  | ⟨.stopped m (.fault f), _⟩ => .final m (.error (.fault f))
  | ⟨.waiting m f args wanted next, pending⟩ =>
    .more (begin m f args wanted (some next) pending)

/-- At most `n` steps; without a result if they do not suffice. -/
def run : Nat → Config → Option (Machine × Except Stop (List Value))
  | 0, _ => none
  | n + 1, c =>
    match c.step with
    | .more c => run n c
    | .final m outcome => some (m, outcome)

end Config

/-- Calls a value, in at most `n` steps.  A number of wanted results is that of the results. -/
def Machine.run (n : Nat) (m : Machine) (f : Value) (args : List Value) (wanted : Option Nat) :
    Option (Machine × Except Stop (List Value)) :=
  (Config.begin m f args wanted none []).run n

/-- A computation with all its calls, each in at most `n` steps. -/
def Resumption.evaluate {α : Type} (n : Nat) : Resumption α → Option (Machine × Except Stop α)
  | done m a => some (m, .ok a)
  | stopped m s => some (m, .error s)
  | waiting m f args wanted next =>
    match m.run n f args wanted with
    | none => none
    | some (m, .ok results) => (next m (.ok results)).evaluate n
    | some (m, .error (.failure e)) => (next m (.error e)).evaluate n
    | some (m, .error (.fault f)) => some (m, .error (.fault f))

/-- A computation with all its calls, each in at most `n` steps. -/
def Exec.evaluate {α : Type} (n : Nat) (x : Exec α) (m : Machine) :
    Option (Machine × Except Stop α) :=
  (x m).evaluate n

end LuaMachine
