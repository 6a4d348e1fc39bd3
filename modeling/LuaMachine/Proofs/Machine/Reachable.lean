import LuaMachine.Machine.Interface
import LuaMachine.Proofs.Machine.Nesting

/-!
# Reachable states

A machine is in a reachable state if a host has brought it there with the operations that it has, or
if it waits for a nested call in the course of such an operation.  All these states are steady, so
that whatever holds of calls from steady states holds of every call.

## Main definitions

* `Host.Operation` : the operations of a host that may change the machine.
* `Resumption.Reaches` : the progress of an operation through its calls.
* `Machine.Reachable` : the states in which calls can be made.

## Main statements

* `Host.Operation.triple` : an operation goes on from steady states to steady ones.
* `Machine.Reachable.steady` : reachable states are steady.
-/

namespace LuaMachine

/-! ### Operations of a host -/

namespace Host

/-- The operations of a host that may change the machine: calls and operations with metamethods,
whatever a native function can do, variables, and the direct access to the stack, to shared variables
and to the budget. -/
inductive Operation : {α : Type} → Exec α → Prop where
  | call (f : Value) (args : List Value) (wanted : Option Nat) : Operation (Host.call f args wanted)
  | behave (b : Behaviour) : Operation b.run
  | setGlobal (name : String) (v : Value) : Operation (Host.setGlobal name v)
  | setLoaded (name : String) (v : Value) : Operation (Host.setLoaded name v)
  | register (name : String) (body : List Expression) : Operation (Host.register name body)
  | arithmetic (op : Operator) (a b : Value) : Operation (Host.arithmetic op a b)
  | equal (a b : Value) : Operation (Operation.equal a b)
  | less (a b : Value) : Operation (Operation.less a b)
  | lessEqual (a b : Value) : Operation (Operation.lessEqual a b)
  | length (v : Value) : Operation (Operation.length v .unknown)
  | concat (values : List Value) : Operation (Operation.concat values fun _ => .unknown)
  | errorMessage (e : Failure) : Operation (Host.errorMessage e)
  | reserve (needed : Nat) : Operation (Exec.ofRoutine (Stack.reserve needed))
  | write (slot : Nat) (v : Value) : Operation (Exec.ofRoutine (Stack.write slot v))
  | capture (slot : Nat) : Operation (Exec.ofRoutine (Cell.capture slot))
  | assign (id : CellId) (v : Value) : Operation (Exec.ofRoutine (Cell.write id v))
  | closeFrom (level : Nat) : Operation (Exec.ofRoutine (Cell.closeFrom level))
  | setBudget (budget : Option Nat) : Operation fun m => .done { m with budget } ()

end Host

/-- The state in which a computation is over, has failed or waits for a call.  A fault leaves
none. -/
def Resumption.state? {α : Type} : Resumption α → Option Machine
  | done m _ => some m
  | stopped m (.failure _) => some m
  | stopped _ (.fault _) => none
  | waiting m _ _ _ _ => some m

/-- A computation goes on from one call to the next. -/
inductive Resumption.Reaches {α : Type} (r : Resumption α) : Resumption α → Prop where
  | refl : Reaches r r
  | call {m m' : Machine} {f : Value} {args : List Value} {wanted : Option Nat} {n : Nat}
    {next : Machine → Except Failure (List Value) → Resumption α}
    {outcome : Except Failure (List Value)} : Reaches r (.waiting m f args wanted next) →
    m.run n f args wanted = some (m', outcome.mapError .failure) → Reaches r (next m' outcome)

/-- The states in which the host or a computation of the machine may call a value. -/
inductive Machine.Reachable : Machine → Prop where
  | new (limits : Limits) : Reachable (.new limits)
  | operation {α : Type} {x : Exec α} {m m' : Machine} {r : Resumption α} : Host.Operation x →
    Reachable m → (x m).Reaches r → r.state? = some m' → Reachable m'
  | nested {m m' : Machine} {f f' : Value} {args args' : List Value} {wanted wanted' : Option Nat}
    {next : Machine → Except Failure (List Value) → Resumption Control} {pending : List Pending} :
    Reachable m → (Config.begin m f args wanted none []).Reaches
      ⟨.waiting m' f' args' wanted' next, pending⟩ → Reachable m'

/-! ### Steady states -/

theorem robust_steady {level : Nat} : Robust level Machine.Steady where
  sound := fun _ h => h.sound
  quiet := fun _ _ h hq => h.of_quiet hq

theorem admits_steady : balanced.Admits Machine.Steady where
  ready := fun _ h => h
  returned := fun _ _ _ _ h hreturned => h.of_quiet hreturned.toQuiet

namespace Host

open Exec (Keeps)

theorem keeps_evaluate {K : Contract} {level : Nat} {I : Machine → Prop} (hK : K.Admits I)
    (hI : Robust level I) (e : Expression) : Keeps K I (evaluate e) :=
  Behaviour.keeps_run hK hI _

theorem keeps_setGlobal {K : Contract} {level : Nat} {I : Machine → Prop} (hI : Robust level I)
    (name : String) (v : Value) : Keeps K I (setGlobal name v) :=
  fun _ hm => hI.undisturbed hm (Machine.undisturbed_heap rfl rfl)

theorem keeps_errorMessage {K : Contract} {I : Machine → Prop} (hK : K.Admits I) (e : Failure) :
    Keeps K I (errorMessage e) := by
  rw [errorMessage]
  split
  · refine Keeps.state.bind fun m => ?_
    split
    · refine (LuaMachine.Operation.keeps_render hK _).attempt.bind fun answer => ?_
      split
      · exact Keeps.pure
      · exact Keeps.pure
    · exact Keeps.pure
  · exact Keeps.pure

/-- A host may open a cell at any slot, so that it need not be a register of an active frame. -/
theorem keeps_capture (slot : Nat) : Routine.Keeps Machine.Steady (Cell.capture slot) := by
  intro m hm
  rw [Cell.capture_eq]
  cases h : Cell.find? slot m.openCells with
  | some id => exact hm
  | none =>
    exact
      { sound := Cell.sound_capture hm.sound h
        stable := fun f hf => { hm.stable f hf with }
        chained := hm.chained }

theorem triple_of_keeps {α : Type} {x : Exec α} (h : Keeps balanced Machine.Steady x) :
    Exec.Triple balanced Machine.Steady x (fun _ => Machine.Steady)
      fun s m => ∀ e, s = .failure e → m.Steady :=
  h.mono (fun _ hm => hm) (fun _ _ hm => hm) fun _ _ hs _ he => hs.of_eq_failure he

/-- **Operations of a host.** Unless they fault, they leave the machine steady. -/
theorem Operation.triple {α : Type} {x : Exec α} (hx : Operation x) :
    Exec.Triple balanced Machine.Steady x (fun _ => Machine.Steady)
      fun s m => ∀ e, s = .failure e → m.Steady := by
  have hrobust : Robust 0 Machine.Steady := robust_steady
  cases hx with
  | call f args wanted =>
    rw [Host.call]
    split
    · exact triple_of_keeps Keeps.fail
    · exact triple_of_keeps (Keeps.call admits_steady _ _ _)
  | behave b => exact triple_of_keeps (Behaviour.keeps_run admits_steady hrobust b)
  | setGlobal name v => exact triple_of_keeps (keeps_setGlobal hrobust name v)
  | setLoaded name v =>
    exact triple_of_keeps fun _ hm => hrobust.undisturbed hm (Machine.undisturbed_heap rfl rfl)
  | register name body =>
    exact triple_of_keeps
      ((keeps_evaluate admits_steady hrobust _).bind fun _ => keeps_setGlobal hrobust _ _)
  | arithmetic op a b =>
    exact triple_of_keeps (LuaMachine.Operation.keeps_arithmetic admits_steady _ _ _ _ _)
  | equal a b => exact triple_of_keeps (LuaMachine.Operation.keeps_equal admits_steady _ _)
  | less a b => exact triple_of_keeps (LuaMachine.Operation.keeps_less admits_steady _ _)
  | lessEqual a b => exact triple_of_keeps (LuaMachine.Operation.keeps_lessEqual admits_steady _ _)
  | length v => exact triple_of_keeps (LuaMachine.Operation.keeps_length admits_steady _ _)
  | concat values => exact triple_of_keeps (LuaMachine.Operation.keeps_concat admits_steady _ _)
  | errorMessage e => exact triple_of_keeps (keeps_errorMessage admits_steady e)
  | reserve needed =>
    exact triple_of_keeps (Keeps.lift ((Stack.triple_reserve hrobust.stack needed).post
      fun _ _ hm => hm.1))
  | write slot v =>
    intro m hm
    by_cases hslot : slot < m.stack.size
    · have hwrite : Stack.write slot v m =
          .ok () { m with stack := m.stack.setIfInBounds slot v } := by
        simp only [Stack.write, if_pos hslot]
      rw [Exec.ofRoutine, hwrite]
      exact hrobust.stack m _ hm (by simp)
    · have hwrite : Stack.write slot v m = .error (.fault (.slot slot)) m := by
        simp only [Stack.write, if_neg hslot]
      rw [Exec.ofRoutine, hwrite]
      intro e he
      cases he
  | capture slot =>
    exact triple_of_keeps (Keeps.lift (keeps_capture slot))
  | assign id v => exact triple_of_keeps (Keeps.lift (Cell.keeps_write hrobust id v))
  | closeFrom level =>
    exact triple_of_keeps (Keeps.lift (Cell.keeps_closeFrom hrobust (Nat.zero_le _)))
  | setBudget budget =>
    intro m hm
    exact ⟨{ hm.sound with }, fun f hf => { hm.stable f hf with }, hm.chained⟩

end Host

/-! ### Reachable states -/

theorem steady_new (limits : Limits) : (Machine.new limits).Steady where
  sound :=
    { closures := fun c hc => absurd hc (Array.not_mem_empty c)
      top_le := Nat.zero_le _
      sorted := List.Pairwise.nil
      opened := fun slot id => by simp [Machine.new] }
  stable := fun f hf => absurd hf (Array.not_mem_empty f)
  chained := .empty

namespace Resumption

variable {α : Type} {r r' : Resumption α} {K : Contract} {Q : α → Machine → Prop}
  {E : Stop → Machine → Prop}

/-- What an operation promises holds wherever it goes on after a call. -/
theorem Meets.of_reaches (h : r.Meets K Q E) (hready : ∀ m, K.ready m → m.Steady)
    (hreturned : ∀ m wanted m' outcome, m.Returned wanted m' outcome →
      K.returned m wanted m' outcome) (hreaches : r.Reaches r') : r'.Meets K Q E := by
  induction hreaches with
  | refl => exact h
  | call _ hrun ih =>
    exact ih.2 _ _ (hreturned _ _ _ _ ((hready _ ih.1).returned_of_run hrun))

/-- What holds at calls, at the end and after failures holds in the state of an operation. -/
theorem Meets.of_state? {I : Machine → Prop} {m : Machine}
    (h : r.Meets K (fun _ => I) fun s m => ∀ e, s = .failure e → I m)
    (hready : ∀ m, K.ready m → I m) (hstate : r.state? = some m) : I m := by
  cases r with
  | done _ _ =>
    cases hstate
    exact h
  | stopped _ stop =>
    cases stop with
    | failure e =>
      cases hstate
      exact h e rfl
    | fault => cases hstate
  | waiting _ _ _ _ _ =>
    cases hstate
    exact hready _ h.1

end Resumption

namespace Config

/-- In the course of a call, a configuration is as it should be, or there has been a fault. -/
theorem InProgress.of_reaches {s₀ : Machine} {wanted₀ : Option Nat} {c c' : Config}
    (hs₀ : s₀.Steady) (h : InProgress s₀ wanted₀ c) (hreaches : c.Reaches c') :
    InProgress s₀ wanted₀ c' ∨ ∃ m f, c'.current = .stopped m (.fault f) := by
  induction hreaches with
  | refl => exact .inl h
  | @step c' c'' _ hstep ih =>
    rcases ih with hc' | ⟨m, f, hfault⟩
    · by_cases hstarved : c'.Starved
      · obtain ⟨m, first, last, pending, -, hstep'⟩ := hstarved.step
        rw [hstep] at hstep'
        cases hstep'
        exact .inr ⟨m, _, rfl⟩
      · have hadvances := hc'.step hs₀ hstarved
        rw [hstep] at hadvances
        exact .inl hadvances
    · obtain ⟨current, pending⟩ := c'
      cases hfault
      cases hstep

/-- Where there is a state, there has been no fault. -/
theorem InProgress.of_reaches_state? {s₀ m : Machine} {wanted₀ : Option Nat} {c c' : Config}
    (hs₀ : s₀.Steady) (h : InProgress s₀ wanted₀ c) (hreaches : c.Reaches c')
    (hstate : c'.current.state? = some m) : InProgress s₀ wanted₀ c' := by
  rcases h.of_reaches hs₀ hreaches with hc' | ⟨_, _, hfault⟩
  · exact hc'
  · rw [hfault] at hstate
    cases hstate

end Config

/-- **Reachable states.** They are steady. -/
theorem Machine.Reachable.steady {m : Machine} (h : m.Reachable) : m.Steady := by
  induction h with
  | new limits => exact steady_new limits
  | operation hx _ hreaches hstate ih =>
    exact ((hx.triple _ ih).of_reaches (fun _ h => h) (fun _ _ _ _ h => h) hreaches).of_state?
      (fun _ h => h) hstate
  | nested _ hreaches ih =>
    obtain ⟨_, _, _, -, hcurrent⟩ :=
      (Config.inProgress_begin ih _ _ _).of_reaches_state? ih hreaches rfl
    exact hcurrent.1.1

end LuaMachine
