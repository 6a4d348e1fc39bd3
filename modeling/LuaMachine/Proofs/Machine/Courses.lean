import LuaMachine.Proofs.Machine.AlikeRuns
import LuaMachine.Proofs.Machine.NextInstruction
import LuaMachine.Proofs.Machine.Reachable

/-!
# The course of a call

A call that has begun takes its course until it returns or fails.  A run that is compared with
itself shows what all steps in the course of the call leave as it was: the slots that are watched,
the place of the first frame of the call on the stack and what is wanted of it.

## Main definitions

* `Machine.Due` : the next instruction, which can be paid for.
* `Config.Course` : steps, with a condition on where they are made.
* `Config.Lasts` : a call has neither ended nor failed.
* `Machine.watch` : a call that is watched with all slots shown.

## Main statements

* `Config.Abreast.of_course` : a run stays in step with itself.
* `Config.Abreast.guarded` : what holds of the states in its course.
* `Config.Abreast.guarded_of_final` : what holds when a call from the host has ended.
-/

namespace LuaMachine

open Machine (Alike Akin Guarded)

/-! ### The next instruction -/

/-- The next instruction of the innermost frame `f` with the closure `c` is an `op`, and it can be
paid for. -/
structure Machine.Due (m : Machine) (f : Frame) (c : Closure) (op : Opcode) (i : Instruction) :
    Prop where
  frame : m.frame? = some f
  closure : m.closureOf? f = some c
  instruction : c.proto.code[f.pc]? = some i
  opcode : i.opcode? = some op
  paid : m.budget ≠ some 0

/-- The next instruction with its frame and closure, if it can be paid for. -/
def Machine.due? (m : Machine) : Option (Frame × Closure × Opcode × Instruction) := do
  let f ← m.frame?
  let c ← m.closureOf? f
  let i ← c.proto.code[f.pc]?
  let op ← i.opcode?
  if m.budget = some 0 then none else some (f, c, op, i)

theorem Machine.due_of_due? {m : Machine} {f : Frame} {c : Closure} {op : Opcode} {i : Instruction}
    (h : m.due? = some (f, c, op, i)) : m.Due f c op i := by
  obtain ⟨f', hf, h⟩ := Option.bind_eq_some_iff.1 h
  obtain ⟨c', hc, h⟩ := Option.bind_eq_some_iff.1 h
  obtain ⟨i', hi, h⟩ := Option.bind_eq_some_iff.1 h
  obtain ⟨op', hop, h⟩ := Option.bind_eq_some_iff.1 h
  split at h
  · cases h
  · next hpaid =>
    cases h
    exact ⟨hf, hc, hi, hop, hpaid⟩

theorem Dispatch.step_of_due {m : Machine} {f : Frame} {c : Closure} {op : Opcode} {i : Instruction}
    (h : m.Due f c op i) : step m = (f.activation c).execute op i m.advance :=
  step_eq h.frame h.closure h.instruction h.paid h.opcode

/-- An instruction that is due in the course of a call has been accepted, and its frame lies on the
stack. -/
theorem Machine.Due.active {s m : Machine} {function : Nat} {wanted : Option Nat} {f : Frame}
    {c : Closure} {op : Opcode} {i : Instruction} (h : m.Due f c op i)
    (hrunning : Running s function wanted m) :
    c.proto.operandsFit f.pc op i = true ∧ (f.activation c).Accepted ∧
      ∃ fs, m.frames = fs.push f ∧ m.advance.frames = fs.push { f with pc := f.pc + 1 } ∧
        Active s function wanted fs (f.activation c).frame m.advance := by
  obtain ⟨op', fs, hop, hfit, haccepted, hframes, hactive⟩ :=
    Dispatch.exists_active hrunning h.frame h.closure h.instruction
  obtain rfl : op' = op := Option.some.inj (hop.symm.trans h.opcode)
  refine ⟨hfit, haccepted, fs, hframes, ?_, hactive.setBudget _⟩
  simp only [advance, hframes, Array.size_push, Nat.add_sub_cancel]
  exact modify_push_last _ _ _

/-- No other frame lies where the innermost one does, or above. -/
theorem Machine.eq_innermost {m : Machine} {f g : Frame} {j : Nat} (hf : m.frame? = some f)
    (hg : m.frames[j]? = some g) (hj : m.frames.size - 1 ≤ j) : g = f := by
  have hlt := (Array.getElem?_eq_some_iff.1 hg).1
  obtain rfl : j = m.frames.size - 1 := by omega
  rw [frame?, Array.back?_eq_getElem?] at hf
  exact Option.some.inj (hg.symm.trans hf)

/-- Only one instruction is due. -/
theorem Machine.Due.not_assigns {m : Machine} {f : Frame} {c : Closure} {op : Opcode}
    {i : Instruction} {slot : Nat} (h : m.Due f c op i) (hop : op ≠ .setUpvalue) :
    ¬m.Assigns slot := by
  rintro ⟨f', c', i', -, hf, hc, hi, hop', -⟩
  obtain rfl : f' = f := Option.some.inj (hf.symm.trans h.frame)
  obtain rfl : c' = c := Option.some.inj (hc.symm.trans h.closure)
  obtain rfl : i' = i := Option.some.inj (hi.symm.trans h.instruction)
  exact hop (Option.some.inj (h.opcode.symm.trans hop'))

/-! ### A call that is watched -/

/-- A call on top of `depth` frames in the slot `level` or above, seen in the state `m` with all its
slots shown. -/
def Machine.watch (m : Machine) (depth level : Nat) (kept : Nat → Option Value)
    (kept_lt : ∀ i v, kept i = some v → i < level) (root : Nat → Option Nat → Bool → Prop) :
    Vantage where
  depth
  level
  shown := 0
  shown_le := Nat.zero_le _
  kept
  kept_lt
  reentries := m.reentries
  root

theorem Machine.guarded_watch {m : Machine} {depth level : Nat} {kept : Nat → Option Value}
    {kept_lt : ∀ i v, kept i = some v → i < level} {root : Nat → Option Nat → Bool → Prop}
    (hdepth : depth ≤ m.frames.size)
    (hlevel : ∀ (j : Nat) (f : Frame), m.frames[j]? = some f → depth ≤ j → level ≤ f.function)
    (hkept : ∀ i v, kept i = some v → m.stack[i]? = some v)
    (hroot : ∀ f, m.frames[depth]? = some f → root f.function f.wanted f.isFresh) :
    Guarded (m.watch depth level kept kept_lt root) m.frames.size m where
  size_frames := rfl
  depth_le := hdepth
  admits := fun j f hf =>
    { level_le := hlevel j f hf
      fresh := fun hpos hj => absurd hj (Nat.ne_of_gt hpos)
      root := fun hj => hroot f (by rwa [← show j = depth from hj]) }
  kept := hkept
  reentries := rfl

namespace Config

/-! ### Courses -/

/-- Steps lead from one configuration to another, each from one as specified. -/
inductive Course (P : Config → Prop) (c : Config) : Config → Prop where
  | refl : Course P c c
  | step {c' c'' : Config} : Course P c c' → P c' → c'.step = .more c'' → Course P c c''

/-- A call on top of `depth` frames, made while the calls `outer` were in progress, has neither
ended nor failed. -/
def Lasts (depth : Nat) (outer : List Pending) (c : Config) : Prop :=
  c.pending = outer → c.GoesOn depth

variable {s₀ m : Machine} {wanted₀ : Option Nat} {V₀ : Vantage} {n₀ : Nat} {outer : List Pending}
  {c c' c₁ : Config} {P : Config → Prop}

theorem Course.mono {Q : Config → Prop} (h : Course P c c') (hPQ : ∀ c, P c → Q c) :
    Course Q c c' := by
  induction h with
  | refl => exact .refl
  | step _ hP hstep ih => exact ih.step (hPQ _ hP) hstep

theorem Course.reaches (h : Course P c c') : c.Reaches c' := by
  induction h with
  | refl => exact .refl
  | step _ _ hstep ih => exact ih.step hstep

/-- An instruction that succeeds makes a step. -/
theorem step_of_dispatch {m' : Machine} {control : Control} {pending : List Pending}
    (h : Dispatch.step m = .done m' control) :
    (⟨.done m .next, pending⟩ : Config).step = .more ⟨.done m' control, pending⟩ := by
  simp only [Config.step, Exec.annotated, h, Resumption.mapFailure]

/-- A call in progress is in step with itself. -/
theorem InProgress.abreast {V : Vantage} {pending : List Pending}
    (h : InProgress s₀ wanted₀ ⟨.done m .next, pending⟩) (hm : Guarded V m.frames.size m) :
    Abreast s₀ wanted₀ V 0 pending ⟨.done m .next, pending⟩ ⟨.done m .next, pending⟩ := by
  obtain ⟨s, function, wanted, hawaits, hmeets⟩ := h
  exact ⟨V, 0, s, function, wanted, .outer hawaits, .inl hmeets, m, rfl, hm.alike.akin⟩

/-- **Courses.** A run stays in step with itself as long as the call that is watched lasts, if no
instruction assigns to a variable in a watched slot. -/
theorem Abreast.of_course (h : Abreast s₀ wanted₀ V₀ n₀ outer c c)
    (hcourse : Course (fun c => c.Lasts V₀.depth outer ∧
      ∀ slot, c.Assigns slot → V₀.kept slot = none) c c') :
    Abreast s₀ wanted₀ V₀ n₀ outer c' c' := by
  induction hcourse with
  | refl => exact h
  | step _ hP hstep ih =>
    obtain ⟨c₁, c₁', h₁, h₁', habreast⟩ := ih.step hP.1 hP.2 fun _ => not_fault_of_step hstep
    cases hstep.symm.trans h₁
    cases hstep.symm.trans h₁'
    exact habreast

/-- In the course of the call its frames lie where they should, and watched slots have kept their
values. -/
theorem Abreast.guarded (h : Abreast s₀ wanted₀ V₀ n₀ outer c c')
    (hm : c.current.state? = some m) :
    ∃ W k, W = { V₀ with reentries := W.reentries } ∧ (c.pending = outer → W = V₀) ∧
      Guarded W k m := by
  obtain ⟨current, pending⟩ := c
  obtain ⟨W, n, s, function, wanted, hpaired, -, hcurrent⟩ := h
  have hW : pending = outer → W = V₀ := fun hpending => by
    subst hpending
    exact hpaired.eq_outer.1
  refine ⟨W, ?_⟩
  cases current with
  | done m₁ control =>
    obtain rfl : m₁ = m := Option.some.inj hm
    obtain ⟨_, -, k, hm⟩ := hcurrent
    exact ⟨k, hpaired.vantage_eq, hW, hm.toGuarded⟩
  | stopped m₁ stop =>
    cases stop with
    | failure e =>
      obtain rfl : m₁ = m := Option.some.inj hm
      obtain ⟨_, -, k, hm⟩ := hcurrent
      exact ⟨k, hpaired.vantage_eq, hW, hm.toGuarded⟩
    | fault f => cases hm
  | waiting m₁ f args wanted' next =>
    obtain rfl : m₁ = m := Option.some.inj hm
    obtain ⟨_, _, -, n', k, -, hm, -⟩ := hcurrent
    exact ⟨k, hpaired.vantage_eq, hW, hm.toGuarded⟩

/-- Watched slots have kept their values. -/
theorem Abreast.kept (h : Abreast s₀ wanted₀ V₀ n₀ outer c c') (hm : c.current.state? = some m)
    {slot : Nat} {v : Value} (hslot : V₀.kept slot = some v) : m.stack[slot]? = some v := by
  obtain ⟨W, k, hW, -, hguarded⟩ := h.guarded hm
  exact hguarded.kept slot v (by rw [hW]; exact hslot)

/-! ### Calls from the host -/

section Host

variable {s : Machine} {wanted : Option Nat} {V : Vantage}

/-- A call from the host lasts until there is no further step. -/
theorem Abreast.lasts (hs : s.Steady) (hdepth : V.depth = s.frames.size)
    (h : Abreast s wanted V.up s.freeSlot (hostCall s) c c) (hstep : c.step = .more c₁) :
    c.Lasts V.depth (hostCall s) := fun hpending => Classical.byContradiction fun hgoes => by
  obtain ⟨_, _, _, heq, -⟩ := h.final hs (Nat.le_of_eq hdepth) hpending (hdepth ▸ hgoes)
  cases hstep.symm.trans heq

theorem Abreast.of_hostCourse (hs : s.Steady) (hdepth : V.depth = s.frames.size)
    (h : Abreast s wanted V.up s.freeSlot (hostCall s) c c)
    (hcourse : Course (fun c => ∀ slot, c.Assigns slot → V.kept slot = none) c c') :
    Abreast s wanted V.up s.freeSlot (hostCall s) c' c' := by
  induction hcourse with
  | refl => exact h
  | step _ hP hstep ih =>
    obtain ⟨c₁, c₁', h₁, h₁', habreast⟩ := ih.step (ih.lasts (V := V) hs hdepth hstep) hP
      fun _ => not_fault_of_step hstep
    cases hstep.symm.trans h₁
    cases hstep.symm.trans h₁'
    exact habreast

/-- When it has ended without a fault, watched slots have kept their values. -/
theorem Abreast.guarded_of_final (hs : s.Steady) (hdepth : V.depth = s.frames.size)
    (h : Abreast s wanted V.up s.freeSlot (hostCall s) c c)
    {outcome : Except Failure (List Value)}
    (hstep : c.step = .final m (outcome.mapError .failure)) :
    Guarded V s.frames.size m := by
  by_cases hover : c.pending = hostCall s ∧ ¬c.GoesOn s.frames.size
  · obtain ⟨m₁, _, _, heq, -, h₁⟩ := h.final hs (Nat.le_of_eq hdepth) hover.1 hover.2
    obtain rfl : m = m₁ := (Step.final.inj (hstep.symm.trans heq)).1
    exact h₁.toGuarded
  · obtain ⟨_, _, heq, -⟩ := h.step
      (fun hpending => Classical.byContradiction fun hgoes => hover ⟨hpending, hdepth ▸ hgoes⟩)
      (fun _ ⟨_, _, hc, _⟩ => by subst hc; cases hstep)
      (fun _ f hf => by
        obtain ⟨current, pending⟩ := c
        obtain rfl : current = _ := hf
        cases outcome <;> cases hstep)
    cases hstep.symm.trans heq

end Host

end Config

end LuaMachine
