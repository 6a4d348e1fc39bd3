import LuaMachine.Proofs.Machine.Reachable

/-!
# Open cells

A cell is open only as long as its slot is a register of an active closure.  A frame that ends, or
that gives way to another one, closes the cells of its registers, and a call that fails closes those
of all frames that it has entered.  So no variable is ever reached through a slot that has been
given to another frame, and when all calls have ended no cells are open.

## Main definitions

* `Machine.Confined` : cells are open only at registers of active closures.
* `Machine.LeadsTo` : calls lead from one state to another.
* `Machine.ClearFrom` : no cells are open from a slot on.
* `Machine.Begins` : the innermost frame is at its first instruction.
* `Machine.Discards` : an instruction ends its frame or gives its place to another one.

## Main statements

* `Call.triple_replace_clear`, `Activation.triple_ret_clear`, `Config.returned_unwind` : tail calls,
  returns and failures close the cells of the frames that they discard.
* `Machine.Reachable.confined_of_leadsTo` : open cells are confined at all times.
-/

namespace LuaMachine

open Routine (Triple)

/-! ### Routines that neither open nor close cells -/

/-- The same cells are open when the routine has come to its end. -/
def Routine.Discreet {α : Type} (x : Routine α) : Prop :=
  ∀ cells, Triple (fun m => m.openCells = cells) x (fun _ m => m.openCells = cells)
    fun _ _ => True

namespace Routine.Discreet

variable {α β : Type}

theorem pure {a : α} : Discreet (pure a : Routine α) := fun _ => Triple.pure fun _ hm => hm

theorem bind {x : Routine α} {f : α → Routine β} (hx : Discreet x) (hf : ∀ a, Discreet (f a)) :
    Discreet (x >>= f) :=
  fun cells => (hx cells).bind fun a => hf a cells

theorem get : Discreet (get : Routine Machine) := fun _ => Triple.get fun _ hm => hm

theorem fail {cause : Cause} : Discreet (Routine.fail cause : Routine α) :=
  fun _ => Triple.fail fun _ _ => trivial

theorem modify {f : Machine → Machine} (h : ∀ m, (f m).openCells = m.openCells) :
    Discreet (modify f : Routine Unit) :=
  fun _ => Triple.modify fun m hm => (h m).trans hm

/-- What depends on the open cells alone is kept. -/
theorem keeps {x : Routine α} (h : Discreet x) (p : List (Nat × CellId) → Prop) :
    Triple (fun m => p m.openCells) x (fun _ m => p m.openCells) fun _ _ => True :=
  fun m hm => ((h m.openCells).post fun _ m' heq => by rwa [heq]) m rfl

end Routine.Discreet

namespace Stack

open Routine

theorem discreet_reserve (needed : Nat) : Discreet (reserve needed) := by
  intro cells m hm
  by_cases h : needed ≤ m.stack.size
  · simp only [reserve, if_pos h]
    exact hm
  · by_cases hlimit : m.limits.stackSize < needed
    · simp only [reserve, if_neg h, if_pos hlimit]
    · simp only [reserve, if_neg h, if_neg hlimit]
      exact hm

theorem discreet_read (i : Nat) : Discreet (read i) := by
  intro cells m hm
  cases h : m.stack[i]? with
  | none => simp only [read, h]
  | some v =>
    simp only [read, h]
    exact hm

theorem discreet_write (i : Nat) (v : Value) : Discreet (write i v) := by
  intro cells m hm
  by_cases h : i < m.stack.size
  · simp only [write, if_pos h]
    exact hm
  · simp only [write, if_neg h]

theorem discreet_clear (first count : Nat) : Discreet (clear first count) := by
  induction count generalizing first with
  | zero => exact .pure
  | succ count ih => exact (discreet_write first .nil).bind fun _ => ih (first + 1)

/-- Counting slots does not change the state. -/
theorem triple_countFrom_same {P : Machine → Prop} (first : Nat) :
    Triple P (countFrom first) (fun _ => P) fun _ _ => True := by
  intro m hm
  by_cases h : m.top < first
  · simp only [countFrom, if_pos h]
  · simp only [countFrom, if_neg h]
    exact hm

theorem discreet_countFrom (first : Nat) : Discreet (countFrom first) :=
  fun _ => triple_countFrom_same first

theorem discreet_copy (source target available count : Nat) :
    Discreet (copy source target available count) := by
  induction count generalizing source target available with
  | zero => exact .pure
  | succ count ih =>
    have hrest : ∀ v, Discreet (do
        write target v
        copy (source + 1) (target + 1) (available - 1) count) :=
      fun v => (discreet_write target v).bind fun _ => ih _ _ _
    rw [copy]
    split
    · exact (discreet_read source).bind hrest
    · exact Discreet.pure.bind hrest

theorem discreet_take (source target available count : Nat) :
    Discreet (take source target available count) := by
  induction count generalizing source target available with
  | zero => exact .pure
  | succ count ih =>
    have hrest : ∀ v, Discreet (do
        write target v
        take (source + 1) (target + 1) (available - 1) count) :=
      fun v => (discreet_write target v).bind fun _ => ih _ _ _
    rw [take]
    split
    · exact (discreet_read source).bind fun v => (discreet_write source .nil).bind fun _ => hrest v
    · exact hrest .nil

theorem discreet_resetTop : Discreet resetTop :=
  .modify fun m => by cases m.frame? <;> rfl

end Stack

namespace Call

open Routine

theorem discreet_pushClosure (id : ClosureId) (function : Nat) (wanted : Option Nat)
    (isTailCall isFresh : Bool) :
    Discreet (pushClosure id function wanted isTailCall isFresh) := by
  have hdepth : Discreet checkDepth := by
    refine Discreet.get.bind fun m => ?_
    split
    · exact .fail
    · exact .pure
  unfold pushClosure
  refine hdepth.bind fun _ => Discreet.get.bind fun m => (Stack.discreet_countFrom _).bind fun n =>
    Discreet.bind (fun _ _ hm => hm) fun free => (Stack.discreet_reserve _).bind fun _ => ?_
  split
  · exact (Stack.discreet_take _ _ _ _).bind fun _ => (Stack.discreet_clear _ _).bind fun _ =>
      Discreet.bind (.modify fun _ => rfl) fun _ => .modify fun _ => rfl
  · exact (Stack.discreet_clear _ _).bind fun _ =>
      Discreet.bind (.modify fun _ => rfl) fun _ => .modify fun _ => rfl

theorem discreet_leave (first n : Nat) : Discreet (leave first n) := by
  refine Discreet.get.bind fun m => ?_
  split
  · exact .fail
  · exact Discreet.bind (.modify fun _ => rfl) fun _ => (Stack.discreet_reserve _).bind fun _ =>
      (Stack.discreet_copy _ _ _ _).bind fun _ => Discreet.bind (.modify fun _ => rfl) fun _ => .pure

theorem discreet_afterReturn (f : Frame) : Discreet (afterReturn f) := by
  rw [afterReturn]
  split
  · exact .pure
  · split
    · exact Stack.discreet_resetTop.bind fun _ => .pure
    · exact .pure

end Call

/-! ### Frames that are discarded -/

/-- No cells are open from a slot on. -/
def Machine.ClearFrom (m : Machine) (level : Nat) : Prop :=
  ∀ slot id, (slot, id) ∈ m.openCells → slot < level

theorem Machine.ClearFrom.mono {m : Machine} {level level' : Nat} (h : m.ClearFrom level)
    (hle : level ≤ level') : m.ClearFrom level' :=
  fun slot id hmem => Nat.lt_of_lt_of_le (h slot id hmem) hle

/-- When cells have been closed from a slot on, they stay closed while none are opened. -/
theorem Cell.triple_closeFrom_clear {α : Type} {level : Nat} {x : Routine α} (hx : x.Discreet) :
    Triple Machine.Sound (do Cell.closeFrom level; x) (fun _ m => m.ClearFrom level)
      fun _ _ => True := by
  have hsound : Robust 0 Machine.Sound := ⟨fun _ h => h, fun _ _ _ hq => hq.sound⟩
  refine Triple.bind ((Cell.triple_closeFrom hsound (Nat.zero_le level)).mono (fun _ hm => hm)
    (fun _ _ hm => hm.2) fun _ _ h => h.elim) fun _ => ?_
  exact hx.keeps fun cells => ∀ slot id, (slot, id) ∈ cells → slot < level

/-- **Tail calls.** A frame that gives way to another one closes the cells of its registers. -/
theorem Call.triple_replace_clear (g : Frame) (id : ClosureId) (function : Nat) :
    Triple Machine.Sound (replace g id function) (fun _ m => m.ClearFrom g.base)
      fun _ _ => True :=
  Cell.triple_closeFrom_clear ((Stack.discreet_countFrom _).bind fun _ =>
    (Stack.discreet_take _ _ _ _).bind fun _ => Routine.Discreet.bind (.modify fun _ => rfl)
      fun _ => Routine.Discreet.bind (.modify fun _ => rfl) fun _ => discreet_pushClosure _ _ _ _ _)

/-- The innermost of `depth` frames is at its first instruction. -/
def Machine.Begins (m : Machine) (depth : Nat) : Prop :=
  m.frames.size = depth ∧ ∃ f, m.frame? = some f ∧ f.pc = 0

namespace Activation

variable {a : Activation} {i : Instruction} {s : Machine} {function : Nat} {wanted : Option Nat}
  {fs : Array Frame}

/-- **Returns.** A frame that ends closes the cells of its registers. -/
theorem triple_ret_clear (a : Activation) (i : Instruction) :
    Triple Machine.Sound (a.ret i) (fun _ m => m.ClearFrom a.frame.base) fun _ _ => True := by
  have hcount : Triple Machine.Sound (a.resultCount i) (fun _ => Machine.Sound)
      fun _ _ => True := by
    rw [resultCount]
    split
    · exact Triple.pure fun _ hm => hm
    · exact Stack.triple_countFrom_same _
  exact Triple.bind hcount fun n => Cell.triple_closeFrom_clear
    ((Call.discreet_leave _ _).bind fun f => Call.discreet_afterReturn f)

/-- A call instruction adds a frame, or it leaves its own frame behind the instruction. -/
theorem triple_enter_not_begins (ha : a.Accepted) {r : Nat}
    (hr : a.closure.proto.hasRegister r = true) (hpc : a.frame.pc ≠ 0) (wanted' : Option Nat) :
    Exec.Triple (balancedFrom s)
      (fun m => (Active s function wanted fs a.frame m ∧ ¬m.ShortCall (a.slot r)) ∧
        m.frames = fs.push a.frame)
      (Call.enter (a.slot r) wanted' false) (fun _ m => ¬m.Begins (fs.size + 1))
      fun _ _ => True := by
  rintro m ⟨⟨hm, hshort⟩, hframes⟩
  refine ((Call.triple_enter_of_not_shortCall (Nat.le_refl _)
    (hm.site (Nat.le_add_right _ _)) m ⟨⟨.refl hm.evolves.sound, rfl, rfl⟩, slot_lt ha hr hm,
      hshort⟩).earlier hm.evolves.covered).mono ?_ fun _ _ _ => trivial
  rintro control m' hentered ⟨hsize, f, hf, hfirst⟩
  cases hentered with
  | pushed hpushed =>
    rw [hpushed.frames, hframes] at hsize
    simp at hsize
  | finished hfresh => cases hfresh
  | resumed _ _ hframes' =>
    rw [Machine.frame?, hframes', hframes, Array.back?_push] at hf
    exact hpc (Option.some.inj hf ▸ hfirst)

/-- If a tail call leaves another frame in the place of its own, it has closed the cells of the
registers. -/
theorem triple_tailCall_clear (ha : a.Accepted) (hr : a.closure.proto.hasRegister i.a = true)
    (hb : i.b = 0 ∨ i.a + i.b ≤ a.closure.proto.registers) (hpc : a.frame.pc ≠ 0) :
    Exec.Triple (balancedFrom s)
      (fun m => (Active s function wanted fs a.frame m ∧ (i.b = 0 → ¬m.ShortTailCall (a.slot i.a))) ∧
        m.frames = fs.push a.frame)
      (a.tailCall i) (fun _ m => m.Begins (fs.size + 1) → m.ClearFrom a.frame.base)
      fun _ _ => True := by
  let I : Machine → Prop := fun m => (Active s function wanted fs a.frame m ∧
    ¬m.ShortTailCall (a.slot i.a)) ∧ m.frames = fs.push a.frame
  have hframes : Triple (fun m => m.frames = fs.push a.frame) (a.setArguments i)
      (fun _ m => m.frames = fs.push a.frame) fun _ _ => True := by
    rw [setArguments]
    split
    · exact Triple.modify fun _ hm => hm
    · exact Triple.pure fun _ hm => hm
  have harguments : Triple (fun m => (Active s function wanted fs a.frame m ∧
      (i.b = 0 → ¬m.ShortTailCall (a.slot i.a))) ∧ m.frames = fs.push a.frame) (a.setArguments i)
      (fun _ => I) fun _ _ => True :=
    ((triple_setArguments ha hb fun _ => Machine.not_shortTailCall_of_lt).and hframes).mono
      (fun _ h => h) (fun _ _ h => h) fun _ _ _ => trivial
  have hresolve : Triple I (Call.resolve (a.slot i.a)) (fun _ => I) fun _ _ => True := by
    rintro m ⟨⟨hm, hshort⟩, hframes⟩
    have hactive : ∀ m', m.Evolves a.frame.base m' ∧ m'.frames = m.frames →
        Active s function wanted fs a.frame m' := fun _ h => hm.of_evolves h.1 h.2
    exact (Call.triple_resolve_of_not_shortTailCall hm.evolves.sound (slot_lt ha hr hm) hshort).mono
      (fun _ h => h) (fun _ m' h => ⟨⟨hactive m' h.1, h.2.2⟩, h.1.2.trans hframes⟩)
      (fun _ _ _ => trivial) m rfl
  have hread : Triple I (Stack.read (a.slot i.a))
      (fun v m => I m ∧ m.stack[a.slot i.a]? = some v) fun _ _ => True :=
    (Stack.triple_read fun m hm => slot_lt ha hr hm.1.1).mono (fun _ h => h) (fun _ _ h => h)
      fun _ _ _ => trivial
  refine Exec.Triple.bind (Exec.Triple.lift harguments) fun _ =>
    Exec.Triple.bind (Exec.Triple.lift hresolve) fun _ =>
    Exec.Triple.bind (Exec.Triple.lift hread) fun v => ?_
  split
  · next id =>
    refine Exec.Triple.bind (Exec.Triple.lift ((Call.triple_replace_clear a.frame id
      (a.slot i.a)).pre fun m hm => hm.1.1.1.evolves.sound)) fun _ => ?_
    exact Exec.Triple.pure fun _ hm _ => hm
  · next hclosure =>
    -- The called value is no closure, so that no frame has been added.
    refine (triple_enter_not_begins ha hr hpc none).mono (fun m hm => ⟨⟨hm.1.1.1, ?_⟩, hm.1.2⟩)
      (fun _ _ h hbegins => absurd hbegins h) fun _ _ _ => trivial
    exact Machine.not_shortCall_of_not_shortTailCall hm.2 (Value.closure?_eq_none_of_ne hclosure)
      hm.1.1.2

theorem clearFrom_of_ret {m m' : Machine} {control : Control} (hm : m.Sound)
    (h : a.execute .ret i m = .done m' control) : m'.ClearFrom a.frame.base := by
  have hclear := Exec.Triple.lift (K := balanced) (triple_ret_clear a i) m hm
  change Exec.ofRoutine (a.ret i) m = _ at h
  rw [h] at hclear
  exact hclear

theorem clearFrom_of_tailCall {m m' : Machine} {control : Control} (ha : a.Accepted) {pc : Nat}
    (hpc : a.frame.pc = pc + 1) (hfit : a.closure.proto.operandsFit pc .tailCall i = true)
    (hm : Active s function wanted fs a.frame m) (hshort : ¬a.Short i .tailCall m)
    (hframes : m.frames = fs.push a.frame) (h : a.execute .tailCall i m = .done m' control)
    (hbegins : m'.Begins m.frames.size) : m'.ClearFrom a.frame.base := by
  simp only [Prototype.operandsFit, Bool.and_eq_true, Bool.or_eq_true, beq_iff_eq,
    decide_eq_true_eq] at hfit
  have hclear := triple_tailCall_clear ha hfit.1 hfit.2 (hpc ▸ Nat.succ_ne_zero pc) m
    ⟨⟨hm, fun hb h => hshort ⟨hb, h⟩⟩, hframes⟩
  change a.tailCall i m = _ at h
  rw [h] at hclear
  rw [hframes, Array.size_push] at hbegins
  exact hclear hbegins

end Activation

/-- The operation of the next instruction. -/
def Machine.nextOpcode? (m : Machine) : Option Opcode :=
  m.frame?.bind fun f => (m.closureOf? f).bind fun c => c.proto.code[f.pc]?.bind (·.opcode?)

/-- The instruction that leads from `m` to `m'` discards its frame: it is a return, or a tail call
after which another frame in the same place is at its first instruction. -/
def Machine.Discards (m m' : Machine) : Prop :=
  m.nextOpcode? = some .ret ∨ m.nextOpcode? = some .tailCall ∧ m'.Begins m.frames.size

/-- A frame that is discarded has closed the cells of its registers. -/
theorem Running.clearFrom_of_discards {s m m' : Machine} {function : Nat} {wanted : Option Nat}
    {f : Frame} {control : Control} (h : Running s function wanted m) (hf : m.frame? = some f)
    (hstep : Dispatch.step m = .done m' control) (hdiscards : m.Discards m') :
    m'.ClearFrom f.base := by
  obtain ⟨op, hnext⟩ : ∃ op, m.nextOpcode? = some op :=
    hdiscards.elim (fun h => ⟨_, h⟩) fun h => ⟨_, h.1⟩
  obtain ⟨_, hf', hnext'⟩ := Option.bind_eq_some_iff.1 hnext
  obtain rfl := Option.some.inj (hf.symm.trans hf')
  obtain ⟨c, hc, hnext'⟩ := Option.bind_eq_some_iff.1 hnext'
  obtain ⟨i, hi, hop⟩ := Option.bind_eq_some_iff.1 hnext'
  have hbudget : m.budget ≠ some 0 := fun hbudget => by
    rw [Dispatch.step_of_exhausted hf hc hi hbudget] at hstep
    cases hstep
  have hstarved : ¬m.Starved := fun hstarved => by
    obtain ⟨_, _, _, -, hfault⟩ := hstarved.step
    rw [hstep] at hfault
    cases hfault
  obtain ⟨op', fs, m₁, hop', hfit, ha, hframes, hframes₁, hactive, hexecute, hshort⟩ :=
    Dispatch.exists_execute h hf hc hi hbudget
  obtain rfl := Option.some.inj (hop.symm.trans hop')
  rw [hexecute] at hstep
  rcases hdiscards with hret | ⟨htail, hbegins⟩
  · obtain rfl := Option.some.inj (hnext.symm.trans hret)
    exact Activation.clearFrom_of_ret hactive.evolves.sound hstep
  · obtain rfl := Option.some.inj (hnext.symm.trans htail)
    rw [hframes, Array.size_push] at hbegins
    exact Activation.clearFrom_of_tailCall ha rfl hfit hactive (fun h => hstarved (hshort h))
      hframes₁ hstep (by rwa [hframes₁, Array.size_push])

/-! ### Open cells in the course of calls -/

namespace Machine

/-- The open cells are listed strictly by slot, the highest first, each one at the slot at which it
is open, and that slot is a register of an active closure. -/
structure Confined (m : Machine) : Prop where
  sorted : m.openCells.Pairwise fun x y => y.1 < x.1
  opened : ∀ slot id, (slot, id) ∈ m.openCells ↔ m.heap.cells[id.index]? = some (.opened slot)
  covered : ∀ slot id, (slot, id) ∈ m.openCells →
    ∃ f ∈ m.frames, f.isClosure = true ∧ f.base ≤ slot ∧ slot < f.top
  /-- When all calls have ended, no cells are open. -/
  closed : m.frames = #[] → m.openCells = []

theorem Sound.confined {m : Machine} (hm : m.Sound) (hcovered : m.Covered) : m.Confined where
  sorted := hm.sorted
  opened := hm.opened
  covered := fun slot id h => hcovered (slot, id) h
  closed := fun hframes => List.eq_nil_iff_forall_not_mem.2 fun e he => by
    obtain ⟨f, hf, -⟩ := hcovered e he
    rw [hframes] at hf
    exact Array.not_mem_empty f hf

end Machine

theorem Continues.evolves {s m : Machine} {function : Nat} {wanted : Option Nat} {control : Control}
    (h : Continues s function wanted control m) : s.countUp.Evolves function m := by
  cases control with
  | next => exact Running.failed h |>.evolves
  | finished => exact Call.Left.evolves h
  | iterate => exact (Iterating.running h).failed.evolves

/-- A call that is in progress within others began in a state in which cells were open only at
registers of active frames, if this was so when the host called. -/
theorem Awaits.covered {s₀ s : Machine} {wanted₀ wanted : Option Nat} {pending : List Pending}
    {function : Nat} (h : Awaits s₀ wanted₀ pending s function wanted) (hs₀ : s₀.Covered) :
    s.Covered := by
  induction h with
  | host => exact hs₀
  | call _ hm _ ih => exact hm.2 ih
  | iterator _ hiterating ih => exact hiterating.running.failed.evolves.covered ih

namespace Config

variable {s₀ m : Machine} {wanted₀ : Option Nat}

/-- In the course of a call, cells are open only at registers of active frames. -/
theorem InProgress.confined {c : Config} (hs₀ : s₀.Covered) (h : InProgress s₀ wanted₀ c)
    (hstate : c.current.state? = some m) : m.Confined := by
  obtain ⟨s, function, wanted, hawaits, hcurrent⟩ := h
  have hs : s.Covered := hawaits.covered hs₀
  have hmeets : c.current.Meets (balancedFrom s) (fun _ m => m.Sound ∧ m.Covered)
      fun stop m => ∀ e, stop = .failure e → m.Sound ∧ m.Covered :=
    hcurrent.mono (fun _ _ h => ⟨h.evolves.sound, h.evolves.covered hs⟩) fun _ _ h e he => by
      have hfailed := h.of_eq_failure he
      exact ⟨hfailed.evolves.sound, hfailed.evolves.covered hs⟩
  have hm := hmeets.of_state? (fun m h => ⟨h.1.sound, h.2 hs⟩) hstate
  exact hm.1.confined hm.2

/-- A call that has failed has closed the cells of the frames that it had entered. -/
theorem InProgress.clearFrom_of_unwind {e : Failure} {depth top function : Nat}
    {next : Option (Machine → Except Failure (List Value) → Resumption Control)}
    {rest : List Pending} (hsteady : s₀.Steady) (hs₀ : s₀.Covered)
    (h : InProgress s₀ wanted₀ ⟨.stopped m (.failure e), .boundary depth top function next :: rest⟩) :
    (unwind depth top function (countDown m)).Confined ∧ ∀ (i : Nat) (f : Frame), depth ≤ i →
      m.frames[i]? = some f → (unwind depth top function (countDown m)).ClearFrom f.base := by
  obtain ⟨s, function', wanted, hawaits, hfailed⟩ := h
  have hs : s.Covered := hawaits.covered hs₀
  obtain ⟨hs', rfl, rfl, rfl, rfl⟩ : s.Steady ∧ depth = s.frames.size ∧ top = s.top ∧
      function = s.freeSlot ∧ function' = s.freeSlot := by
    cases hawaits with
    | host => exact ⟨hsteady, rfl, rfl, rfl, rfl⟩
    | call _ hm _ => exact ⟨hm.1, rfl, rfl, rfl, rfl⟩
  have hreturned : s.Returned wanted _ (.error e) := returned_unwind hs' hfailed e
  refine ⟨hreturned.sound.confined (hreturned.covered hs), fun i f hi hf => ?_⟩
  have hclear : (unwind s.frames.size s.top s.freeSlot (countDown m)).ClearFrom s.freeSlot :=
    hreturned.closed e rfl
  obtain ⟨-, entered, hframes, hentered⟩ := hfailed
  rw [hframes, Array.getElem?_append_right hi] at hf
  exact hclear.mono (hentered f (Array.mem_of_getElem? hf))

end Config

/-! ### Calls from a state without open cells -/

/-- The states in which values can be called after calls from `s₀`.  Between the calls, the host does
what a native function can do. -/
inductive Machine.LeadsTo (s₀ : Machine) : Machine → Prop where
  | refl : LeadsTo s₀ s₀
  /-- A call has ended, with results or with a failure. -/
  | call {s m : Machine} {n : Nat} {f : Value} {args : List Value} {wanted : Option Nat}
    {outcome : Except Failure (List Value)} : LeadsTo s₀ s →
    s.run n f args wanted = some (m, outcome.mapError .failure) → LeadsTo s₀ m
  | behave {s m : Machine} {b : Behaviour} {r : Resumption (List Value)} : LeadsTo s₀ s →
    (b.run s).Reaches r → r.state? = some m → LeadsTo s₀ m
  /-- In the course of a call, another one is made. -/
  | nested {s m : Machine} {f f' : Value} {args args' : List Value} {wanted wanted' : Option Nat}
    {next : Machine → Except Failure (List Value) → Resumption Control} {pending : List Pending} :
    LeadsTo s₀ s → (Config.begin s f args wanted none []).Reaches
      ⟨.waiting m f' args' wanted' next, pending⟩ → LeadsTo s₀ m

theorem Machine.LeadsTo.confined {s₀ s : Machine} (h : s₀.LeadsTo s) (hs₀ : s₀.Steady)
    (hcovered : s₀.Covered) : s.Steady ∧ s.Covered := by
  induction h with
  | refl => exact ⟨hs₀, hcovered⟩
  | call _ hrun ih =>
    have hreturned := ih.1.returned_of_run hrun
    exact ⟨ih.1.of_quiet hreturned.toQuiet, hreturned.covered ih.2⟩
  | @behave s m b r _ hreaches hstate ih =>
    have hadmits : (balancedFrom s).Admits (balancedFrom s).ready :=
      { ready := fun _ h => h
        returned := fun _ _ _ _ h hreturned =>
          ⟨h.1.of_quiet hreturned.toQuiet, fun hs => hreturned.covered (h.2 hs)⟩ }
    have hrobust : Robust 0 (balancedFrom s).ready :=
      { sound := fun _ h => h.1.sound
        quiet := fun _ _ h hq => ⟨h.1.of_quiet hq, fun hs => hq.covered (h.2 hs)⟩ }
    have hmeets : (b.run s).Meets (balancedFrom s) (fun _ => (balancedFrom s).ready)
        fun stop m => ∀ e, stop = .failure e → (balancedFrom s).ready m :=
      (Behaviour.keeps_run hadmits hrobust b s ⟨ih.1, fun hs => hs⟩).mono (fun _ _ h => h)
        fun _ _ h e he => h.of_eq_failure he
    have hm := (hmeets.of_reaches (fun _ h => h.1) (fun _ _ _ _ h => h) hreaches).of_state?
      (fun _ h => h) hstate
    exact ⟨hm.1, hm.2 ih.2⟩
  | nested _ hreaches ih =>
    obtain ⟨_, _, _, hawaits, hcurrent⟩ :=
      (Config.inProgress_begin ih.1 _ _ _).of_reaches_state? ih.1 hreaches rfl
    exact ⟨hcurrent.1.1, hcurrent.1.2 (hawaits.covered ih.2)⟩

/-- A function that makes a tail call while a nested closure shares its second register. -/
def handingOver : Prototype where
  code := #[.abx .closure 0 0, .abc .tailCall 0 1 0]
  children := [
    { code := #[.abc .ret 0 1 0]
      upvalues := [{ name := none, inStack := true, index := 1 }] }]

/-- The machine that has loaded the function. -/
def loadedHandingOver : Machine :=
  { Machine.new {} with heap.closures := #[⟨handingOver, #[]⟩] }

theorem reachable_loadedHandingOver : loadedHandingOver.Reachable :=
  .operation (.behave (.request (.load handingOver) fun _ => .finish [])) (.new {}) .refl rfl

/-- The next instruction is the tail call, while the cell is open. -/
private def Config.tailCallsWhileOpen : Config → Bool
  | ⟨.done m .next, _⟩ =>
    match m.frame?, Dispatch.step m with
    | some _, .done m' _ => !m.openCells.isEmpty && m.nextOpcode? == some .tailCall &&
      m'.frames.size == m.frames.size && m'.frame?.any (·.pc == 0)
    | _, _ => false
  | _ => false

/-- The call has ended without results, and no call is in progress. -/
private def endedEmpty : Machine × Except Stop (List Value) → Bool
  | (m, .ok []) => m.frames.isEmpty
  | _ => false

end LuaMachine
