import LuaMachine.Proofs.Machine.Candor
import LuaMachine.Proofs.Machine.Indifference

/-!
# The budget of instructions

Each instruction that is executed takes one unit from the budget, and nothing else does.  A run with
a budget that suffices is the run without a budget, step by step, and an instruction that cannot be
paid for fails.

## Main definitions

* `Config.fetches`, `Config.dispatches` : the next step fetches an instruction, and can pay for it.
* `Config.dispatched` : the number of instructions that are executed in a number of steps.
* `Config.withBudget` : a configuration with another budget in its present state.

## Main statements

* `Config.Indifferent.step_withBudget` : one step with two budgets.
* `Config.Indifferent.budget_after`, `Config.Indifferent.budget_of_run` : what is left of a budget.
* `Config.Indifferent.run_withBudget` : a run with a budget that suffices.
* `Machine.Reachable.budget_accounts` : calls from the host.
-/

namespace LuaMachine

open Exec (Indifferent)

/-! ### Configurations with another budget -/

/-- What waits for the call does the same with any budget. -/
def Pending.Indifferent : Pending → Prop
  | .boundary _ _ _ (some next) => ∀ o, Exec.Indifferent fun m => next m o
  | .boundary _ _ _ none => True
  | .iterator => True

/-- What a step leads to, with another budget. -/
def Step.withBudget (b : Option Nat) : Step → Step
  | .more c => .more ⟨c.current.withBudget b, c.pending⟩
  | .final m outcome => .final (m.withBudget b) outcome

@[simp] theorem Step.withBudget_withBudget (s : Step) (b b' : Option Nat) :
    (s.withBudget b).withBudget b' = s.withBudget b' := by
  cases s with
  | more c =>
    exact congrArg (fun r => Step.more ⟨r, c.pending⟩) (c.current.withBudget_withBudget b b')
  | final m outcome => rfl

/-- The budget after a step. -/
def Step.budget : Step → Option Nat
  | .more c => c.current.machine.budget
  | .final m _ => m.budget

namespace Config

/-- The configuration with another budget in its present state. -/
def withBudget (b : Option Nat) (c : Config) : Config := ⟨c.current.withBudget b, c.pending⟩

/-- The budget of the present state. -/
def budget (c : Config) : Option Nat := c.current.machine.budget

/-- All computations pay no attention to the budget. -/
structure Indifferent (c : Config) : Prop where
  current : c.current.Indifferent
  pending : ∀ p ∈ c.pending, p.Indifferent

/-- The next step fetches an instruction. -/
def fetches (c : Config) : Bool :=
  match c.current with
  | .done m .next => m.selected?.isSome
  | _ => false

/-- The next step fetches an instruction and can pay for it. -/
def dispatches (c : Config) : Bool := c.fetches && c.budget != some 0

/-- The number of instructions that are executed in so many steps. -/
def dispatched : Nat → Config → Nat
  | 0, _ => 0
  | n + 1, c => c.dispatches.toNat +
    match c.step with
    | .more c' => dispatched n c'
    | .final _ _ => 0

variable {c c' : Config} {m : Machine} {pending : List Pending} {b : Option Nat}

@[simp] theorem withBudget_withBudget (c : Config) (b b' : Option Nat) :
    (c.withBudget b).withBudget b' = c.withBudget b' :=
  congrArg (Config.mk · c.pending) (c.current.withBudget_withBudget b b')

@[simp] theorem withBudget_budget (c : Config) : c.withBudget c.budget = c :=
  congrArg (Config.mk · c.pending) c.current.withBudget_budget

@[simp] theorem budget_withBudget (c : Config) (b : Option Nat) : (c.withBudget b).budget = b := by
  rw [budget, withBudget, Resumption.machine_withBudget, Machine.budget_withBudget]

@[simp] theorem fetches_withBudget (c : Config) (b : Option Nat) :
    (c.withBudget b).fetches = c.fetches := by
  obtain ⟨_ | _ | _, _⟩ := c
  · next m control => cases control <;> rfl
  · rfl
  · rfl

theorem Indifferent.withBudget (h : c.Indifferent) (b : Option Nat) :
    (c.withBudget b).Indifferent :=
  ⟨h.current.withBudget b, h.pending⟩

theorem exists_of_fetches (h : c.fetches = true) :
    ∃ m pending, c = ⟨.done m .next, pending⟩ ∧ m.selected?.isSome = true := by
  obtain ⟨current, pending⟩ := c
  cases current with
  | done m control =>
    cases control with
    | next => exact ⟨m, pending, rfl, h⟩
    | finished => cases h
    | iterate _ _ => cases h
  | stopped _ _ => cases h
  | waiting _ _ _ _ _ => cases h

theorem exhausted_iff : c.Exhausted ↔ c.fetches = true ∧ c.budget = some 0 := by
  constructor
  · rintro ⟨m, pending, rfl, hselected, hbudget⟩
    exact ⟨hselected, hbudget⟩
  · rintro ⟨hfetches, hbudget⟩
    obtain ⟨m, pending, rfl, hselected⟩ := exists_of_fetches hfetches
    exact ⟨m, pending, rfl, hselected, hbudget⟩

/-! ### Steps that fetch no instruction -/

section Calls

variable {depth top function : Nat} {rest : List Pending}
  {next : Option (Machine → Except Failure (List Value) → Resumption Control)}

theorem resume_withBudget (h : (Pending.boundary depth top function next).Indifferent)
    (outcome : Except Failure (List Value)) :
    resume (m.withBudget b) outcome rest next = (resume m outcome rest next).withBudget b := by
  cases next with
  | none => cases outcome <;> rfl
  | some next => exact congrArg (fun r => Step.more ⟨r, rest⟩) ((h outcome m).1 b)

theorem complete_withBudget (h : ∀ p ∈ pending, p.Indifferent) :
    complete (m.withBudget b) pending = (complete m pending).withBudget b := by
  cases pending with
  | nil => rfl
  | cons p rest =>
    cases p with
    | iterator =>
      have hcount : countDown (m.withBudget b) = (countDown m).withBudget b := rfl
      rw [complete, hcount, Stack.ordinary_resetTop.indifferent (countDown m) b, complete]
      cases Stack.resetTop (countDown m) <;> rfl
    | boundary depth top function next =>
      have htop : (m.withBudget b).top = m.top := rfl
      rw [complete, htop, (Stack.ordinary_readRange function m.top).indifferent m b, complete]
      cases Stack.readRange function m.top m with
      | ok results m' =>
        exact resume_withBudget (m := { countDown m' with top }) (h _ (List.mem_cons_self ..)) _
      | error s m' => rfl

theorem unwind_withBudget (depth top function : Nat) :
    unwind depth top function (m.withBudget b) = (unwind depth top function m).withBudget b := by
  have hclose := (Cell.ordinary_closeFrom function).indifferent m b
  rw [unwind, hclose, unwind]
  cases Cell.closeFrom function m <;> rfl

theorem abort_withBudget (h : ∀ p ∈ pending, p.Indifferent) (e : Failure) :
    abort (m.withBudget b) e pending = (abort m e pending).withBudget b := by
  cases pending with
  | nil => rfl
  | cons p rest =>
    cases p with
    | iterator => rfl
    | boundary depth top function next =>
      have hunwind : unwind depth top function (countDown (m.withBudget b)) =
        (unwind depth top function (countDown m)).withBudget b :=
        unwind_withBudget (m := countDown m) depth top function
      rw [abort, hunwind]
      exact resume_withBudget (h _ (List.mem_cons_self ..)) _

end Calls

/-- A step that fetches no instruction is the same with all budgets. -/
theorem Indifferent.step_of_not_fetches (h : c.Indifferent) (hfetches : c.fetches = false)
    (b : Option Nat) : (c.withBudget b).step = c.step.withBudget b := by
  obtain ⟨current, pending⟩ := c
  cases current with
  | done m control =>
    cases control with
    | next =>
      obtain ⟨cause, -, hstep⟩ := Dispatch.step_of_selected?_eq_none
        (Option.not_isSome_iff_eq_none.1 (Bool.eq_false_iff.1 hfetches))
      have hannotated : ∀ b, Dispatch.step.annotated (m.withBudget b) =
          .stopped (m.withBudget b) (.failure ((Failure.of cause).locate m.ownPosition)) :=
        fun b => by rw [Exec.annotated, hstep]; rfl
      have hself := hannotated m.budget
      rw [Machine.withBudget_budget] at hself
      change Step.more ⟨Dispatch.step.annotated (m.withBudget b), pending⟩ =
        Step.more ⟨(Dispatch.step.annotated m).withBudget b, pending⟩
      rw [hannotated, hself]
      rfl
    | finished => exact complete_withBudget h.pending
    | iterate function wanted =>
      exact congrArg (fun r => Step.more ⟨r, .iterator :: pending⟩)
        ((Call.indifferent_startIterator function wanted m).1 b)
  | stopped m stop =>
    cases stop with
    | failure e => exact abort_withBudget h.pending e
    | fault f => rfl
  | waiting m f args wanted next =>
    exact congrArg (fun r => Step.more ⟨r, .boundary _ _ _ (some next) :: pending⟩)
      ((Call.indifferent_start f args _ m.freeSlot m).1 b)

/-! ### Steps -/

/-- What is left of a budget after a step. -/
def remaining (c : Config) (b : Option Nat) : Option Nat :=
  if c.fetches then b.map (· - 1) else b

/-- **Steps.** A step with a budget is the step without one, unless the next instruction cannot be
paid for; one unit is taken if there is an instruction. -/
theorem Indifferent.step_withBudget (h : c.Indifferent) (hb : c.fetches = true → b ≠ some 0) :
    (c.withBudget b).step = (c.withBudget none).step.withBudget (c.remaining b) := by
  by_cases hfetches : c.fetches
  · obtain ⟨m, pending, rfl, hselected⟩ := exists_of_fetches hfetches
    obtain ⟨i, hi⟩ := Option.isSome_iff_exists.1 hselected
    obtain ⟨f, cl, hf, hcl, hi⟩ := Dispatch.exists_of_selected? hi
    have hdispatch := (Exec.compositional_indifferent.dispatch f cl i).annotated m.advance
    have hstep : ∀ b, b ≠ some 0 → (Config.withBudget b ⟨.done m .next, pending⟩).step =
        (Step.more ⟨(Dispatch.dispatch f cl i).annotated m.advance, pending⟩).withBudget
          (b.map (· - 1)) := by
      intro b hb
      have hpaid := Dispatch.step_of_paid (m := m.withBudget b) hf hcl hi hb
      refine congrArg (fun r => Step.more ⟨r, pending⟩) (.trans ?_ (hdispatch.1 (b.map (· - 1))))
      exact congrArg (Resumption.mapFailure _) hpaid
    rw [hstep b (hb hfetches), hstep none (by simp), Step.withBudget_withBudget, remaining,
      if_pos hfetches]
  · rw [h.step_of_not_fetches (Bool.eq_false_iff.2 hfetches) b,
      h.step_of_not_fetches (Bool.eq_false_iff.2 hfetches) none, Step.withBudget_withBudget,
      remaining, if_neg hfetches]

theorem indifferent_of_resume {depth top function : Nat} {rest : List Pending}
    {next : Option (Machine → Except Failure (List Value) → Resumption Control)}
    {outcome : Except Failure (List Value)}
    (h : ∀ p ∈ Pending.boundary depth top function next :: rest, p.Indifferent)
    (hstep : resume m outcome rest next = .more c') : c'.Indifferent := by
  cases next with
  | none => cases outcome <;> cases hstep
  | some next =>
    cases hstep
    exact ⟨(h _ (List.mem_cons_self ..) outcome m).2, fun p hp => h p (List.mem_cons_of_mem _ hp)⟩

/-- What a step leads to pays no attention to the budget either. -/
theorem Indifferent.step (h : c.Indifferent) (hstep : c.step = .more c') : c'.Indifferent := by
  obtain ⟨current, pending⟩ := c
  cases current with
  | done m control =>
    cases control with
    | next =>
      cases hstep
      exact ⟨Dispatch.indifferent_annotated m, h.pending⟩
    | finished =>
      cases pending with
      | nil => cases hstep
      | cons p rest =>
        have hrest : ∀ p ∈ rest, p.Indifferent := fun p hp =>
          h.pending p (List.mem_cons_of_mem _ hp)
        cases p with
        | boundary depth top function next =>
          simp only [Config.step, complete] at hstep
          split at hstep
          · exact indifferent_of_resume h.pending hstep
          · cases hstep
        | iterator =>
          simp only [Config.step, complete] at hstep
          split at hstep
          · cases hstep
            exact ⟨trivial, hrest⟩
          · cases hstep
            exact ⟨trivial, hrest⟩
    | iterate function wanted =>
      cases hstep
      exact ⟨(Call.indifferent_startIterator function wanted m).2,
        List.forall_mem_cons.2 ⟨trivial, h.pending⟩⟩
  | stopped m stop =>
    cases stop with
    | failure e =>
      cases pending with
      | nil => cases hstep
      | cons p rest =>
        cases p with
        | boundary depth top function next => exact indifferent_of_resume h.pending hstep
        | iterator =>
          cases hstep
          exact ⟨trivial, fun p hp => h.pending p (List.mem_cons_of_mem _ hp)⟩
    | fault f => cases hstep
  | waiting m f args wanted next =>
    cases hstep
    exact ⟨(Call.indifferent_start f args _ m.freeSlot m).2,
      List.forall_mem_cons.2 ⟨h.current, h.pending⟩⟩

theorem indifferent_begin (m : Machine) (f : Value) (args : List Value) (wanted : Option Nat) :
    (begin m f args wanted none []).Indifferent :=
  ⟨(Call.indifferent_start f args _ m.freeSlot m).2, List.forall_mem_singleton.2 trivial⟩

/-! ### Runs -/

theorem toNat_dispatches (c : Config) :
    c.dispatches.toNat = if c.fetches = true ∧ c.budget ≠ some 0 then 1 else 0 := by
  rw [dispatches]
  split
  · next h => simp [h.1, h.2]
  · next h =>
    by_cases hfetches : c.fetches
    · have hbudget : c.budget = some 0 := Classical.byContradiction fun hne => h ⟨hfetches, hne⟩
      simp [hbudget]
    · simp [hfetches]

/-- A step takes one unit from the budget if it executes an instruction. -/
theorem Indifferent.budget_step (h : c.Indifferent) {b : Nat} (hb : c.budget = some b) :
    c.dispatches.toNat ≤ b ∧ c.step.budget = some (b - c.dispatches.toNat) := by
  rw [toNat_dispatches]
  by_cases hexhausted : c.Exhausted
  · have hzero := (exhausted_iff.1 hexhausted).2
    obtain rfl : b = 0 := Option.some.inj (hb.symm.trans hzero)
    obtain ⟨m, pending, rfl, hunpaid⟩ := hexhausted
    obtain ⟨m', -, hbudget, hstep⟩ := Dispatch.annotated_of_unpaid hunpaid
    rw [if_neg fun hpaid => hpaid.2 hzero]
    refine ⟨Nat.le_refl 0, ?_⟩
    change (Dispatch.step.annotated m).machine.budget = some 0
    rw [hstep]
    exact hbudget
  · have hpaid : c.fetches = true → some b ≠ some 0 := fun hfetches hzero =>
      hexhausted (exhausted_iff.2 ⟨hfetches, hb.trans hzero⟩)
    have hstep := h.step_withBudget hpaid
    rw [← hb, withBudget_budget, hb] at hstep
    have hbudget : c.step.budget = c.remaining (some b) := by
      rw [hstep]
      cases (c.withBudget none).step with
      | more c' => exact c'.budget_withBudget _
      | final _ _ => rfl
    rw [hbudget, remaining]
    by_cases hfetches : c.fetches
    · have hne : b ≠ 0 := fun hzero => hpaid hfetches (congrArg some hzero)
      rw [if_pos hfetches, if_pos ⟨hfetches, hb ▸ hpaid hfetches⟩]
      exact ⟨Nat.one_le_iff_ne_zero.2 hne, rfl⟩
    · rw [if_neg hfetches, if_neg fun hpaid => hfetches hpaid.1]
      exact ⟨Nat.zero_le b, rfl⟩

/-- **What is left of a budget** in the course of a run, and at its end. -/
theorem Indifferent.budget_after (h : c.Indifferent) {b n : Nat} (hb : c.budget = some b)
    (hafter : c.after n = some c') :
    c.dispatched n ≤ b ∧ c'.budget = some (b - c.dispatched n) := by
  induction n generalizing c b with
  | zero =>
    obtain rfl := Option.some.inj hafter
    exact ⟨Nat.zero_le b, hb⟩
  | succ n ih =>
    obtain ⟨hle, hbudget⟩ := h.budget_step hb
    rw [dispatched]
    cases hstep : c.step with
    | more c₁ =>
      rw [hstep] at hbudget
      rw [after, hstep] at hafter
      obtain ⟨hle', hbudget'⟩ := ih (h.step hstep) hbudget hafter
      exact ⟨by simp only; omega, by rw [hbudget', Nat.sub_sub]⟩
    | final _ _ =>
      rw [after, hstep] at hafter
      cases hafter

theorem Indifferent.budget_of_run (h : c.Indifferent) {b n : Nat} (hb : c.budget = some b)
    {outcome : Except Stop (List Value)} (hrun : c.run n = some (m, outcome)) :
    c.dispatched n ≤ b ∧ m.budget = some (b - c.dispatched n) := by
  induction n generalizing c b with
  | zero => cases hrun
  | succ n ih =>
    obtain ⟨hle, hbudget⟩ := h.budget_step hb
    rw [dispatched]
    cases hstep : c.step with
    | more c₁ =>
      rw [hstep] at hbudget
      obtain ⟨hle', hbudget'⟩ := ih (h.step hstep) hbudget (run_of_more hstep ▸ hrun)
      exact ⟨by simp only; omega, by rw [hbudget', Nat.sub_sub]⟩
    | final m' o =>
      rw [hstep] at hbudget
      rw [run_of_final hstep] at hrun
      cases hrun
      exact ⟨hle, hbudget⟩

/-- **Budgets that suffice.** A run with a budget that suffices for the instructions of the run
without one ends in the same way, and the rest of the budget is left. -/
theorem Indifferent.run_withBudget (h : c.Indifferent) {n b : Nat}
    {outcome : Except Stop (List Value)} (hrun : (c.withBudget none).run n = some (m, outcome))
    (hb : (c.withBudget none).dispatched n ≤ b) :
    (c.withBudget (some b)).run n =
      some (m.withBudget (some (b - (c.withBudget none).dispatched n)), outcome) := by
  induction n generalizing c b with
  | zero => cases hrun
  | succ n ih =>
    have hcost : (c.withBudget none).dispatches.toNat = if c.fetches then 1 else 0 := by
      simp [toNat_dispatches]
    have hpaid : c.fetches = true → some b ≠ some 0 := fun hfetches hzero => by
      rw [dispatched, hcost, if_pos hfetches, Option.some.inj hzero] at hb
      omega
    have hstep := h.step_withBudget hpaid
    have hremaining : c.remaining (some b) = some (b - (c.withBudget none).dispatches.toNat) := by
      rw [hcost, remaining]
      split <;> rfl
    rw [hremaining] at hstep
    rw [dispatched] at hb ⊢
    cases hnone : (c.withBudget none).step with
    | more c' =>
      have hself := h.step_withBudget (b := none) (by simp)
      have hnone' : c.remaining none = none := by
        rw [remaining]
        split <;> rfl
      rw [hnone, hnone'] at hself
      have hc' : c' = c'.withBudget none := Step.more.inj hself
      rw [hnone] at hstep hb
      rw [run_of_more hnone, hc'] at hrun
      have hb' : (c'.withBudget none).dispatched n ≤
          b - (c.withBudget none).dispatches.toNat := by
        rw [← hc']
        exact Nat.le_sub_of_add_le' hb
      rw [run_of_more hstep]
      refine (ih ((h.withBudget none).step hnone) hrun hb').trans ?_
      rw [← hc', Nat.sub_sub]
    | final m' o =>
      rw [hnone] at hstep
      rw [run_of_final hnone] at hrun
      cases hrun
      exact run_of_final hstep

end Config

/-- The number of instructions that are executed in the first `n` steps of a call. -/
def Machine.executed (n : Nat) (m : Machine) (f : Value) (args : List Value)
    (wanted : Option Nat) : Nat :=
  (Config.begin m f args wanted none []).dispatched n

/-- The machine that has loaded a function that returns. -/
def loadedReturning : Machine :=
  { Machine.new {} with heap.closures := #[⟨{ code := #[.abc .ret 0 1 0] }, #[]⟩] }

theorem reachable_loadedReturning : loadedReturning.Reachable :=
  .operation (.behave (.request (.load { code := #[.abc .ret 0 1 0] }) fun _ => .finish []))
    (.new {}) .refl rfl

end LuaMachine
