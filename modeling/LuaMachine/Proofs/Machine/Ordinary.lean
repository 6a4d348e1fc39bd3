import LuaMachine.Machine.Dispatch
import LuaMachine.Proofs.Machine.Triple

/-!
# Ordinary computations

Most of what the machine does is put together from a few primitives: it looks at the state apart
from the budget, changes contents, makes room on the stack, selects the next instruction, fails
with a complaint of its own and calls values, passing on the failures of the calls.  Computations
that are made in this way are called ordinary.  What is known about the primitives then holds of
all of them.

## Main definitions

* `Machine.withBudget` : the state with another budget.
* `Machine.ContentChange` : a change of contents.
* `Machine.Touched` : what a state may become between two calls.
* `Stop.IsOwn` : a complaint of the machine itself.
* `Routine.Ordinary`, `Exec.Ordinary` : what is put together from primitives.
* `Tolerant`, `Exec.Mild` : invariants that primitives keep, and computations that keep them.
* `Resumption.Dutiful` : the failures of calls are passed on.

## Main statements

* `Routine.Ordinary.touched`, `Exec.Ordinary.mild` : ordinary computations only touch the state.
* `Exec.Ordinary.dutiful` : ordinary computations pass on the failures of calls.
-/

namespace LuaMachine

variable {α β : Type}

/-! ### Primitives -/

/-- A frame with no regard to the instruction that it has selected. -/
def Frame.unselected (f : Frame) : Frame := { f with pc := 0 }

namespace Machine

/-- The state with another budget. -/
def withBudget (m : Machine) (budget : Option Nat) : Machine := { m with budget }

@[simp] theorem withBudget_withBudget (m : Machine) (b b' : Option Nat) :
    (m.withBudget b).withBudget b' = m.withBudget b' := rfl

@[simp] theorem withBudget_budget (m : Machine) : m.withBudget m.budget = m := rfl

@[simp] theorem budget_withBudget (m : Machine) (b : Option Nat) : (m.withBudget b).budget = b :=
  rfl

/-- A change of contents: the limits, the frames, the slots and the count of calls stay as they
are, and the budget plays no part in it. -/
structure ContentChange (f : Machine → Machine) : Prop where
  limits : ∀ m, (f m).limits = m.limits
  frames : ∀ m, (f m).frames = m.frames
  size_stack : ∀ m, (f m).stack.size = m.stack.size
  reentries : ∀ m, (f m).reentries = m.reentries
  withBudget : ∀ m b, f (m.withBudget b) = (f m).withBudget b

/-- Contents have changed, slots have been added up to the limit, or another instruction has been
selected. -/
structure Touched (m m' : Machine) : Prop where
  limits : m'.limits = m.limits
  frames : m'.frames.map Frame.unselected = m.frames.map Frame.unselected
  size_stack : m'.stack.size ≤ max m.stack.size m.limits.stackSize
  reentries : m'.reentries = m.reentries

namespace Touched

variable {m m' m'' : Machine}

theorem refl (m : Machine) : m.Touched m := ⟨rfl, rfl, Nat.le_max_left _ _, rfl⟩

theorem trans (h : m.Touched m') (h' : m'.Touched m'') : m.Touched m'' where
  limits := h'.limits.trans h.limits
  frames := h'.frames.trans h.frames
  size_stack := by
    have hle := h'.size_stack
    rw [h.limits] at hle
    exact Nat.le_trans hle (Nat.max_le.2 ⟨h.size_stack, Nat.le_max_right _ _⟩)
  reentries := h'.reentries.trans h.reentries

theorem size_frames (h : m.Touched m') : m'.frames.size = m.frames.size := by
  simpa only [Array.size_map] using congrArg Array.size h.frames

/-- Each frame is as it was but for the selection. -/
theorem exists_frame (h : m.Touched m') {i : Nat} {f' : Frame} (hf' : m'.frames[i]? = some f') :
    ∃ f, m.frames[i]? = some f ∧ f'.unselected = f.unselected := by
  have heq : (m.frames.map Frame.unselected)[i]? = some f'.unselected := by
    rw [← h.frames, Array.getElem?_map, hf', Option.map_some]
  rw [Array.getElem?_map] at heq
  obtain ⟨f, hf, hunselected⟩ := Option.map_eq_some_iff.1 heq
  exact ⟨f, hf, hunselected.symm⟩

theorem select (m : Machine) (f : Frame → Nat) : m.Touched { m with
    frames := m.frames.modify (m.frames.size - 1) fun g => { g with pc := f g } } where
  limits := rfl
  frames := by
    refine Array.ext (by simp) fun i hi hi' => ?_
    simp only [Array.getElem_map, Array.getElem_modify]
    split <;> rfl
  size_stack := Nat.le_max_left _ _
  reentries := rfl

end Touched

theorem ContentChange.touched {f : Machine → Machine} (h : ContentChange f) (m : Machine) :
    m.Touched (f m) where
  limits := h.limits m
  frames := by rw [h.frames]
  size_stack := h.size_stack m ▸ Nat.le_max_left _ _
  reentries := h.reentries m

end Machine

/-- The machine complains with such a cause of its own accord: nothing has been raised, and the
budget is not exhausted. -/
structure Cause.IsOwn (cause : Cause) : Prop where
  ne_budgetExhausted : cause ≠ .budgetExhausted
  ne_raised : ∀ v, cause ≠ .raised v

/-- A complaint of the machine itself, which has not yet left a call, or a fault. -/
def Stop.IsOwn : Stop → Prop
  | .failure e => e.traceback = none ∧ e.cause.IsOwn
  | .fault _ => True

open Machine (ContentChange Touched)

/-! ### Computations made of primitives -/

/-- The routine is put together from primitives. -/
inductive Routine.Ordinary : {α : Type} → Routine α → Prop where
  | pure {α : Type} (a : α) : Ordinary (pure a)
  | bind {α β : Type} {x : Routine α} {f : α → Routine β} :
    Ordinary x → (∀ a, Ordinary (f a)) → Ordinary (x >>= f)
  /-- The state is looked at, apart from the budget. -/
  | inspect {α : Type} {f : Machine → Routine α} :
    (∀ m, Ordinary (f m)) → (∀ m b, f (m.withBudget b) = f m) → Ordinary (get >>= f)
  | modify {f : Machine → Machine} : ContentChange f → Ordinary (modify f : Routine Unit)
  | select (f : Frame → Nat) : Ordinary (Activation.modifyFrame fun g => { g with pc := f g })
  | reserve (needed : Nat) : Ordinary (Stack.reserve needed)
  | stop {α : Type} {s : Stop} : s.IsOwn → Ordinary (throw s : Routine α)

/-- The computation is put together from primitives and calls. -/
inductive Exec.Ordinary : {α : Type} → Exec α → Prop where
  | pure {α : Type} (a : α) : Ordinary (pure a)
  | bind {α β : Type} {x : Exec α} {f : α → Exec β} :
    Ordinary x → (∀ a, Ordinary (f a)) → Ordinary (x >>= f)
  | inspect {α : Type} {f : Machine → Exec α} :
    (∀ m, Ordinary (f m)) → (∀ m b, f (m.withBudget b) = f m) → Ordinary (state >>= f)
  | lift {α : Type} {x : Routine α} : Routine.Ordinary x → Ordinary (ofRoutine x)
  | call (f : Value) (args : List Value) (wanted : Option Nat) : Ordinary (call f args wanted)

namespace Routine.Ordinary

variable {x : Routine α}

theorem fail {cause : Cause} (h : cause.IsOwn) : Ordinary (Routine.fail cause : Routine α) :=
  .stop ⟨rfl, h⟩

theorem fault {f : Fault} : Ordinary (Routine.fault f : Routine α) := .stop trivial

/-- **Ordinary routines.** They touch the state, and when they stop they complain. -/
theorem touched (h : Ordinary x) (m : Machine) :
    Triple (· = m) x (fun _ => m.Touched) fun s m' => m.Touched m' ∧ s.IsOwn := by
  rintro m rfl
  induction h generalizing m with
  | pure a => exact .refl m
  | @bind _ _ x f _ _ ihx ihf =>
    have hx := ihx m
    cases hxm : x m with
    | ok a m' =>
      rw [hxm] at hx
      have hf := ihf a m'
      rw [bind_of_ok hxm]
      cases hfm : f a m' with
      | ok b m'' =>
        rw [hfm] at hf
        exact hx.trans hf
      | error s m'' =>
        rw [hfm] at hf
        exact ⟨hx.trans hf.1, hf.2⟩
    | error s m' =>
      rw [hxm] at hx
      rw [bind_of_error hxm]
      exact hx
  | inspect _ _ ih => exact ih m m
  | modify hf => exact hf.touched m
  | select f => exact Touched.select m f
  | reserve needed =>
    by_cases hsize : needed ≤ m.stack.size
    · simp only [Stack.reserve, if_pos hsize]
      exact .refl m
    · by_cases hlimit : m.limits.stackSize < needed
      · simp only [Stack.reserve, if_neg hsize, if_pos hlimit]
        exact ⟨.refl m, rfl, by simp [Failure.of], by simp [Failure.of]⟩
      · simp only [Stack.reserve, if_neg hsize, if_neg hlimit]
        exact ⟨rfl, rfl, by simp; omega, rfl⟩
  | stop hs => exact ⟨.refl m, hs⟩

end Routine.Ordinary

/-! ### Invariants -/

/-- An invariant of the limits, the frames, the size of the stack and the count of calls that holds
of all that a state may become between two calls. -/
def Tolerant (I : Machine → Prop) : Prop := ∀ m m', I m → m.Touched m' → I m'

theorem Routine.Ordinary.keeps {x : Routine α} {I : Machine → Prop} (h : Ordinary x)
    (hI : Tolerant I) : Triple I x (fun _ => I) fun _ => I := by
  intro m hm
  have htouched := h.touched m m rfl
  cases hxm : x m with
  | ok a m' =>
    rw [hxm] at htouched
    exact hI m m' hm htouched
  | error s m' =>
    rw [hxm] at htouched
    exact hI m m' hm htouched.1

/-- The computation keeps all tolerant invariants that its calls keep, whether or not it stops. -/
def Exec.Mild (x : Exec α) : Prop :=
  ∀ ⦃K : Contract⦄ ⦃I : Machine → Prop⦄, K.Admits I → Tolerant I →
    Triple K I x (fun _ => I) fun _ => I

namespace Exec.Mild

theorem bind {x : Exec α} {f : α → Exec β} (hx : Mild x) (hf : ∀ a, Mild (f a)) :
    Mild (x >>= f) :=
  fun _ _ hK hI => (hx hK hI).bind fun a => hf a hK hI

theorem attempt {x : Exec α} (hx : Mild x) : Mild x.attempt :=
  fun _ _ hK hI m hm => (hx hK hI m hm).attempt (fun _ _ hm' => hm') fun _ _ hm' => hm'

end Exec.Mild

/-! ### Failures of calls -/

/-- The computation passes on the failures of its calls, and when it stops otherwise it
complains. -/
def Resumption.Dutiful : Resumption α → Prop
  | done _ _ => True
  | stopped _ s => s.IsOwn
  | waiting _ _ _ _ next => (∀ m e, next m (.error e) = .stopped m (.failure e)) ∧
    ∀ m results, (next m (.ok results)).Dutiful

theorem Resumption.Dutiful.bind {r : Resumption α} {f : α → Machine → Resumption β}
    (h : r.Dutiful) (hf : ∀ a m, (f a m).Dutiful) : (r.bind f).Dutiful := by
  induction r with
  | done m a => exact hf a m
  | stopped m s => exact h
  | waiting m g args wanted next ih =>
    refine ⟨fun m' e => ?_, fun m' results => ih m' (.ok results) (h.2 m' results)⟩
    change (next m' (.error e)).bind f = _
    rw [h.1]
    rfl

namespace Exec.Ordinary

variable {x : Exec α}

theorem gets {f : Machine → α} (h : ∀ m b, f (m.withBudget b) = f m) :
    Ordinary (Exec.gets f) :=
  .inspect (f := fun m => Exec.pure (f m)) (fun m => .pure (f m)) fun m b => by rw [h]

theorem fail {cause : Cause} (h : cause.IsOwn) : Ordinary (Exec.fail cause : Exec α) :=
  .lift (.fail h)

/-- A complaint may depend on the state. -/
theorem failWith {cause : Machine → Cause} (h : ∀ m, (cause m).IsOwn)
    (h' : ∀ m b, cause (m.withBudget b) = cause m) : Ordinary (Exec.failWith cause : Exec α) :=
  .inspect (f := fun m => Exec.fail (cause m)) (fun m => .fail (h m)) fun m b => by rw [h']

/-- So may its position, if it is made at the place of the caller. -/
theorem complain (cause : Machine → Cause) (h : ∀ m, (cause m).IsOwn)
    (h' : ∀ m b, cause (m.withBudget b) = cause m) :
    Ordinary (fun m => .stopped m (.failure { cause := cause m, position := m.position 1 }) :
      Exec α) :=
  .inspect (f := fun m => Exec.throw { cause := cause m, position := m.position 1 })
    (fun m => .lift (.stop (s := .failure { cause := cause m, position := m.position 1 })
      ⟨rfl, h m⟩)) fun m b => by rw [h']; rfl

theorem callForValue (f : Value) (args : List Value) : Ordinary (Exec.callForValue f args) :=
  .bind (.call f args (some 1)) fun _ => .pure _

/-- **Ordinary computations.** They keep every tolerant invariant that their calls keep. -/
theorem mild (h : Ordinary x) : Mild x := by
  intro K I hK hI
  induction h with
  | pure a => exact Triple.pure fun _ hm => hm
  | bind _ _ ihx ihf => exact ihx.bind ihf
  | inspect _ _ ih => exact fun m hm => ih m m hm
  | lift hx => exact Triple.lift (hx.keeps hI)
  | call f args wanted =>
    refine fun m hm => ⟨hK.ready m hm, fun m' outcome ho => ?_⟩
    have hm' := hK.returned m wanted m' outcome hm ho
    cases outcome with
    | ok results => exact hm'
    | error e => exact hm'

/-- They pass on the failures of their calls. -/
theorem dutiful (h : Ordinary x) (m : Machine) : (x m).Dutiful := by
  induction h generalizing m with
  | pure a => trivial
  | bind _ _ ihx ihf => exact (ihx m).bind ihf
  | inspect _ _ ih => exact ih m m
  | @lift _ x hx =>
    have htouched := hx.touched m m rfl
    cases hxm : x m with
    | ok a m' => simp only [ofRoutine, hxm, Resumption.Dutiful]
    | error s m' =>
      rw [hxm] at htouched
      simp only [ofRoutine, hxm, Resumption.Dutiful]
      exact htouched.2
  | call f args wanted => exact ⟨fun _ _ => rfl, fun _ _ => trivial⟩

end Exec.Ordinary

end LuaMachine
