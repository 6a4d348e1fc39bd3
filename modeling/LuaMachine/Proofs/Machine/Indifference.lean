import LuaMachine.Proofs.Machine.Compositional
import LuaMachine.Proofs.Machine.Enduring

/-!
# Indifference to the budget

The budget is read and written only when an instruction is paid for.  Everything else does the same
with any budget and leaves it as it is, up to its next call and after each outcome of the call.

## Main definitions

* `Resumption.withBudget` : a computation with another budget in its present state.
* `Resumption.Indifferent`, `Exec.Indifferent` : computations that pay no attention to the budget.

## Main statements

* `Exec.Ordinary.indifferent`, `Behaviour.indifferent_run` : primitives and native functions.
* `Exec.compositional_indifferent` : calls and instructions.
-/

namespace LuaMachine

variable {α β : Type}

/-! ### Computations up to their next call -/

namespace Resumption

/-- The computation with another budget in its present state. -/
def withBudget (b : Option Nat) : Resumption α → Resumption α
  | done m a => done (m.withBudget b) a
  | stopped m s => stopped (m.withBudget b) s
  | waiting m f args wanted next => waiting (m.withBudget b) f args wanted next

/-- What waits for a call does the same with any budget. -/
def Indifferent : Resumption α → Prop
  | done _ _ => True
  | stopped _ _ => True
  | waiting _ _ _ _ next => ∀ o m,
    (∀ b, next (m.withBudget b) o = (next m o).withBudget b) ∧ (next m o).Indifferent

@[simp] theorem withBudget_withBudget (r : Resumption α) (b b' : Option Nat) :
    (r.withBudget b).withBudget b' = r.withBudget b' := by
  cases r <;> rfl

@[simp] theorem withBudget_budget (r : Resumption α) : r.withBudget r.machine.budget = r := by
  cases r <;> rfl

@[simp] theorem machine_withBudget (r : Resumption α) (b : Option Nat) :
    (r.withBudget b).machine = r.machine.withBudget b := by
  cases r <;> rfl

theorem Indifferent.withBudget {r : Resumption α} (h : r.Indifferent) (b : Option Nat) :
    (r.withBudget b).Indifferent := by
  cases r with
  | done _ _ => trivial
  | stopped _ _ => trivial
  | waiting _ _ _ _ _ => exact h

end Resumption

/-! ### Computations -/

/-- The routine does the same with any budget, and leaves it as it is. -/
def Routine.Indifferent (x : Routine α) : Prop :=
  ∀ m b, x (m.withBudget b) = match x m with
    | .ok a m' => .ok a (m'.withBudget b)
    | .error s m' => .error s (m'.withBudget b)

/-- The computation does the same with any budget. -/
def Exec.Indifferent (x : Exec α) : Prop :=
  ∀ m, (∀ b, x (m.withBudget b) = (x m).withBudget b) ∧ (x m).Indifferent

namespace Resumption

variable {r : Resumption α} {f : α → Exec β} {change : Machine → Failure → Failure}

theorem bind_withBudget (hf : ∀ a, (f a).Indifferent) (b : Option Nat) :
    (r.withBudget b).bind f = (r.bind f).withBudget b := by
  cases r with
  | done m a => exact (hf a m).1 b
  | stopped m s => rfl
  | waiting m g args wanted next => rfl

theorem attempt_withBudget (r : Resumption α) (b : Option Nat) :
    (r.withBudget b).attempt = r.attempt.withBudget b := by
  rcases r with _ | ⟨_, _ | _⟩ | _ <;> rfl

theorem mapFailure_withBudget (hchange : ∀ m b e, change (m.withBudget b) e = change m e)
    (r : Resumption α) (b : Option Nat) :
    (r.withBudget b).mapFailure change = (r.mapFailure change).withBudget b := by
  rcases r with _ | ⟨_, _ | _⟩ | _ <;> simp only [withBudget, mapFailure, hchange]

namespace Indifferent

theorem bind (h : r.Indifferent) (hf : ∀ a, (f a).Indifferent) : (r.bind f).Indifferent := by
  induction r with
  | done m a => exact (hf a m).2
  | stopped m s => trivial
  | waiting m g args wanted next ih =>
    refine fun o m' => ⟨fun b => ?_, ih m' o (h o m').2⟩
    exact (congrArg (Resumption.bind · f) ((h o m').1 b)).trans (bind_withBudget hf b)

theorem attempt (h : r.Indifferent) : r.attempt.Indifferent := by
  induction r with
  | done m a => trivial
  | stopped m s => cases s <;> trivial
  | waiting m g args wanted next ih =>
    refine fun o m' => ⟨fun b => ?_, ih m' o (h o m').2⟩
    exact (congrArg Resumption.attempt ((h o m').1 b)).trans (attempt_withBudget _ b)

theorem mapFailure (h : r.Indifferent) (hchange : ∀ m b e, change (m.withBudget b) e = change m e) :
    (r.mapFailure change).Indifferent := by
  induction r with
  | done m a => trivial
  | stopped m s => cases s <;> trivial
  | waiting m g args wanted next ih =>
    refine fun o m' => ⟨fun b => ?_, ih m' o (h o m').2⟩
    exact (congrArg (Resumption.mapFailure change) ((h o m').1 b)).trans
      (mapFailure_withBudget hchange _ b)

end Indifferent

end Resumption

theorem Routine.Ordinary.indifferent {x : Routine α} (h : Ordinary x) : x.Indifferent := by
  induction h with
  | pure a => exact fun _ _ => rfl
  | @bind _ _ x f _ _ ihx ihf =>
    intro m b
    have hx := ihx m b
    cases hxm : x m with
    | ok a m' =>
      rw [hxm] at hx
      rw [bind_of_ok hx, bind_of_ok hxm]
      exact ihf a m' b
    | error s m' =>
      rw [hxm] at hx
      rw [bind_of_error hx, bind_of_error hxm]
  | @inspect _ f _ hf ih =>
    intro m b
    rw [bind_get, bind_get, hf]
    exact ih m m b
  | modify hf =>
    intro m b
    simp only [modify_eq, hf.withBudget]
  | select f => exact fun _ _ => rfl
  | reserve needed =>
    intro m b
    change (if needed ≤ m.stack.size then _ else if m.limits.stackSize < needed then _ else _) = _
    unfold Stack.reserve
    split
    · rfl
    · split <;> rfl
  | stop hs => exact fun _ _ => rfl

namespace Exec.Indifferent

theorem bind {x : Exec α} {f : α → Exec β} (hx : Indifferent x) (hf : ∀ a, Indifferent (f a)) :
    Indifferent (x >>= f) := fun m =>
  ⟨fun b => (congrArg (Resumption.bind · f) ((hx m).1 b)).trans
    (Resumption.bind_withBudget hf b), (hx m).2.bind hf⟩

theorem inspect {f : Machine → Exec α} (hf : ∀ m, Indifferent (f m))
    (h : ∀ m b, f (m.withBudget b) = f m) : Indifferent (state >>= f) := by
  refine fun m => ⟨fun b => ?_, (hf m m).2⟩
  change f (m.withBudget b) (m.withBudget b) = (f m m).withBudget b
  rw [h, (hf m m).1 b]

theorem lift {x : Routine α} (h : x.Indifferent) : Indifferent (ofRoutine x) := by
  intro m
  cases hxm : x m with
  | ok a m' =>
    refine ⟨fun b => ?_, by simp only [ofRoutine, hxm, Resumption.Indifferent]⟩
    have hx := h m b
    rw [hxm] at hx
    simp only [ofRoutine, hx, hxm, Resumption.withBudget]
  | error s m' =>
    refine ⟨fun b => ?_, by simp only [ofRoutine, hxm, Resumption.Indifferent]⟩
    have hx := h m b
    rw [hxm] at hx
    simp only [ofRoutine, hx, hxm, Resumption.withBudget]

theorem attempt {x : Exec α} (h : Indifferent x) : Indifferent x.attempt := fun m =>
  ⟨fun b => (congrArg Resumption.attempt ((h m).1 b)).trans
    (Resumption.attempt_withBudget _ b), (h m).2.attempt⟩

theorem annotated {x : Exec α} (h : Indifferent x) : Indifferent x.annotated := fun m =>
  ⟨fun b => (congrArg (Resumption.mapFailure _) ((h m).1 b)).trans
    (Resumption.mapFailure_withBudget (fun _ _ _ => rfl) _ b),
    (h m).2.mapFailure fun _ _ _ => rfl⟩

end Exec.Indifferent

/-- **Ordinary computations.** They pay no attention to the budget. -/
theorem Exec.Ordinary.indifferent {x : Exec α} (h : Ordinary x) : Indifferent x := by
  induction h with
  | pure a => exact fun _ => ⟨fun _ => rfl, trivial⟩
  | bind _ _ ihx ihf => exact ihx.bind ihf
  | inspect _ hf ih => exact .inspect ih hf
  | lift hx => exact .lift hx.indifferent
  | call f args wanted =>
    refine fun m => ⟨fun _ => rfl, fun o m' => ?_⟩
    cases o with
    | ok results => exact ⟨fun _ => rfl, trivial⟩
    | error e => exact ⟨fun _ => rfl, trivial⟩

/-- **Native functions.** Nor do they, whatever they request. -/
theorem Behaviour.indifferent_run (b : Behaviour) : Exec.Indifferent b.run := by
  induction b with
  | finish results => exact (Exec.Ordinary.pure results).indifferent
  | fail e => exact fun _ => ⟨fun _ => rfl, trivial⟩
  | request r next ih => exact (Request.ordinary_perform r).indifferent.attempt.bind ih
  | newNative name body next _ ih =>
    intro m
    exact ih (.native ⟨m.heap.natives.size⟩)
      { m with heap.natives := m.heap.natives.push ⟨name, body⟩ }

namespace Call

open Exec (Indifferent)

theorem indifferent_install {x : Routine (Frame × α)} (hx : x.Ordinary) :
    Indifferent (Exec.ofRoutine (install x)) := by
  rw [install, Exec.ofRoutine_bind]
  refine .bind (Exec.Ordinary.lift ordinary_checkDepth).indifferent fun _ => ?_
  rw [Exec.ofRoutine_bind]
  exact .bind (Exec.Ordinary.lift hx).indifferent fun _ => .lift fun _ _ => rfl

theorem indifferent_pop : Indifferent (Exec.ofRoutine pop) := .lift fun _ _ => rfl

theorem indifferent_runNative (id : NativeId) (function : Nat) (wanted : Option Nat)
    (isFresh : Bool) : Indifferent (runNative id function wanted isFresh) := by
  rw [runNative_eq]
  refine .bind (indifferent_install ordinary_layoutNative) fun p =>
    .inspect (fun m => .bind (Behaviour.indifferent_run _) fun results =>
      .bind indifferent_pop fun _ => ?_) fun _ _ => rfl
  exact (Exec.Ordinary.bind (.lift (ordinary_deliver _ _ _)) fun _ =>
    .lift (ordinary_afterReturn _)).indifferent

end Call

/-- **Instructions.** Nor do calls and instructions. -/
theorem Exec.compositional_indifferent : Compositional Indifferent where
  ordinary hx := hx.indifferent
  bind hx hf := hx.bind hf
  inspect hf h := .inspect hf h
  install hx := Call.indifferent_install hx
  pop := Call.indifferent_pop
  runNative := Call.indifferent_runNative

namespace Call

theorem indifferent_start (f : Value) (args : List Value) (wanted : Option Nat) (function : Nat) :
    Exec.Indifferent (start f args wanted function) :=
  Exec.compositional_indifferent.start (.lift fun _ _ => rfl) f args wanted function

theorem indifferent_startIterator (function wanted : Nat) :
    Exec.Indifferent (startIterator function wanted) :=
  Exec.compositional_indifferent.startIterator (.lift fun _ _ => rfl) function wanted

end Call

/-- **Steps.** An instruction that is executed, or that is not, leaves a computation that pays no
attention to the budget. -/
theorem Dispatch.indifferent_annotated (m : Machine) : (step.annotated m).Indifferent := by
  refine Resumption.Indifferent.mapFailure ?_ fun _ _ _ => rfl
  rcases step_cases m with ⟨_, -, hstep⟩ | ⟨-, _, -, -, hstep⟩ | ⟨-, f, c, i, hstep⟩
  · rw [hstep]
    trivial
  · rw [hstep]
    trivial
  · rw [hstep]
    exact (Exec.compositional_indifferent.dispatch f c i _).2

end LuaMachine
