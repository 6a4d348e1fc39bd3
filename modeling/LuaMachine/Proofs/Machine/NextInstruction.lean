import LuaMachine.Proofs.Machine.Ordinary
import LuaMachine.Proofs.Machine.Shortage

/-!
# The next instruction

The innermost frame selects the next instruction.  It is executed if it can be paid for; otherwise
the machine fails, as it does where there is no instruction.

## Main definitions

* `Machine.selected?` : the instruction that is selected.
* `Machine.advance` : the state in which it is executed, when it has been paid for.
* `Machine.Exhausted` : it cannot be paid for.
* `Dispatch.dispatch` : its execution.

## Main statements

* `Dispatch.step_cases` : what a step does.
-/

namespace LuaMachine

/-- The instruction that the innermost frame has selected. -/
def Machine.selected? (m : Machine) : Option Instruction :=
  m.frame?.bind fun f => (m.closureOf? f).bind fun c => c.proto.code[f.pc]?

/-- The state in which the next instruction is executed: it has been paid for, and the one behind it
is selected. -/
def Machine.advance (m : Machine) : Machine :=
  { m with
    frames := m.frames.modify (m.frames.size - 1) fun f => { f with pc := f.pc + 1 }
    budget := m.budget.map (· - 1) }

/-- The innermost frame while its next instruction is executed. -/
def Frame.activation (f : Frame) (c : Closure) : Activation := ⟨{ f with pc := f.pc + 1 }, c⟩

/-- The next instruction has been fetched and cannot be paid for. -/
structure Machine.Exhausted (m : Machine) : Prop where
  selected : m.selected?.isSome
  budget : m.budget = some 0

namespace Dispatch

variable {m : Machine}

/-- An instruction that has been fetched and paid for is executed. -/
def dispatch (f : Frame) (c : Closure) (i : Instruction) : Exec Control :=
  match i.opcode? with
  | none => .fail (.internal s!"invalid opcode {i.opcodeNumber}")
  | some op => (f.activation c).execute op i

theorem exists_of_selected? {i : Instruction} (h : m.selected? = some i) :
    ∃ f c, m.frame? = some f ∧ m.closureOf? f = some c ∧ c.proto.code[f.pc]? = some i := by
  obtain ⟨f, hf, h⟩ := Option.bind_eq_some_iff.1 h
  obtain ⟨c, hc, h⟩ := Option.bind_eq_some_iff.1 h
  exact ⟨f, c, hf, hc, h⟩

/-- Where there is no instruction the machine complains, whatever the budget is. -/
theorem step_of_selected?_eq_none (h : m.selected? = none) : ∃ cause : Cause, cause.IsOwn ∧
    ∀ b, step (m.withBudget b) = .stopped (m.withBudget b) (.failure (.of cause)) := by
  cases hf : m.frame? with
  | none =>
    refine ⟨.internal "dispatch without an active frame", ⟨by simp, by simp⟩, fun b => ?_⟩
    have hf' : (m.withBudget b).frame? = none := hf
    exact Exec.bind_of_error (x := innermost) (by simp only [innermost, hf'])
  | some f =>
    cases hc : m.closureOf? f with
    | none =>
      refine ⟨.internal "dispatch on a native frame", ⟨by simp, by simp⟩, fun b => ?_⟩
      have hf' : (m.withBudget b).frame? = some f := hf
      have hc' : (m.withBudget b).closureOf? f = none := hc
      exact Exec.bind_of_error (x := innermost) (by simp only [innermost, hf', hc'])
    | some c =>
      have hi : c.proto.code[f.pc]? = none := by
        simpa only [Machine.selected?, hf, hc, Option.bind_some] using h
      exact ⟨.endOfCode f.pc, ⟨by simp, by simp⟩, fun b =>
        step_of_endOfCode (m := m.withBudget b) hf hc hi⟩

/-- One that can be paid for is executed. -/
theorem step_of_paid {f : Frame} {c : Closure} {i : Instruction} (hf : m.frame? = some f)
    (hc : m.closureOf? f = some c) (hi : c.proto.code[f.pc]? = some i)
    (hbudget : m.budget ≠ some 0) : step m = dispatch f c i m.advance := by
  cases hop : i.opcode? with
  | some op =>
    rw [step_eq hf hc hi hbudget hop, dispatch, hop]
    rfl
  | none =>
    have hpay : pay { m with
        frames := m.frames.modify (m.frames.size - 1) fun f => { f with pc := f.pc + 1 } } =
        .ok () m.advance := pay_eq hbudget
    unfold step dispatch
    refine (Exec.bind_of_ok (innermost_eq hf hc)).trans ((Exec.bind_of_ok (fetch_eq hi)).trans
      ((Exec.bind_of_ok hpay).trans ?_))
    rw [hop]

/-- One that cannot be paid for is not executed. -/
theorem step_of_unpaid (h : m.Exhausted) : ∃ m' : Machine, m.Touched m' ∧ m'.budget = some 0 ∧
    step m = .stopped m' (.failure (.of .budgetExhausted)) := by
  obtain ⟨i, hselected⟩ := Option.isSome_iff_exists.1 h.selected
  obtain ⟨f, c, hf, hc, hi⟩ := exists_of_selected? hselected
  exact ⟨_, Machine.Touched.select m fun f => f.pc + 1, h.budget,
    step_of_exhausted hf hc hi h.budget⟩

/-- **Steps.** The machine complains, or the budget is exhausted, or an instruction is executed. -/
theorem step_cases (m : Machine) :
    (∃ cause : Cause, cause.IsOwn ∧ step m = .stopped m (.failure (.of cause))) ∨
    (m.Exhausted ∧ ∃ m' : Machine, m.Touched m' ∧ m'.budget = some 0 ∧
      step m = .stopped m' (.failure (.of .budgetExhausted))) ∨
    (m.budget ≠ some 0 ∧ ∃ f c i, step m = dispatch f c i m.advance) := by
  cases hselected : m.selected? with
  | none =>
    obtain ⟨cause, hcause, hstep⟩ := step_of_selected?_eq_none hselected
    exact .inl ⟨cause, hcause, hstep m.budget⟩
  | some i =>
    by_cases hbudget : m.budget = some 0
    · have hexhausted : m.Exhausted := ⟨by rw [hselected]; rfl, hbudget⟩
      exact .inr (.inl ⟨hexhausted, step_of_unpaid hexhausted⟩)
    · obtain ⟨f, c, hf, hc, hi⟩ := exists_of_selected? hselected
      exact .inr (.inr ⟨hbudget, f, c, i, step_of_paid hf hc hi hbudget⟩)

end Dispatch

end LuaMachine
