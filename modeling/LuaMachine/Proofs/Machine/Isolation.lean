import LuaMachine.Proofs.Machine.Balance
import LuaMachine.Proofs.Machine.CallStack
import LuaMachine.Proofs.Machine.Courses

/-!
# Isolation

A call leaves all slots below that of the called value as they are, until it returns or fails and
whatever it does: instructions of all functions that it calls, native functions, metamethods, tail
calls and handlers for calls.  Only an assignment to a shared variable can change such a slot, if
the cell of the variable is open there.

A call from within an instruction or a native function finds its first free slot above the registers
of the running frame and above a variable number of values that has been left for the next
instruction, so that it spares both.

## Main definitions

* `Config.Calls` : the next step begins a call in the sequence of instructions.

## Main statements

* `Config.Calls.abreast` : a call in the sequence of instructions is watched.
* `Machine.Reachable.isolated` : calls leave the slots below as they are.
-/

namespace LuaMachine

open Machine (Alike Akin Guarded)

/-- The next step begins a call in the slot `function` on top of `depth` frames: a call instruction,
a tail call, which replaces the running function only by a closure, or the call of an iterator. -/
inductive Config.Calls : Config → Nat → Nat → Prop where
  | call {m : Machine} {f : Frame} {c : Closure} {i : Instruction} {pending : List Pending} :
    m.Due f c .call i → Calls ⟨.done m .next, pending⟩ m.frames.size (f.base + i.a)
  | aside {m : Machine} {f : Frame} {c : Closure} {i : Instruction} {pending : List Pending} :
    m.Due f c .tailCall i →
    (∀ id m', (f.activation c).callee i m.advance ≠ .ok (.closure id) m') →
    Calls ⟨.done m .next, pending⟩ m.frames.size (f.base + i.a)
  | replacing {m m' : Machine} {f : Frame} {c : Closure} {i : Instruction} {id : ClosureId}
    {pending : List Pending} :
    m.Due f c .tailCall i → (f.activation c).callee i m.advance = .ok (.closure id) m' →
    Calls ⟨.done m .next, pending⟩ (m.frames.size - 1) f.function
  | iterator {m : Machine} {function count : Nat} {pending : List Pending} :
    Calls ⟨.done m (.iterate function count), pending⟩ m.frames.size function

/-- A call on top of `depth` frames in the slot `level`, with a watch on a slot below. -/
def Machine.watchSlot (m : Machine) (depth level slot : Nat) (hslot : slot < level) : Vantage :=
  m.watch depth level (fun i => if i = slot then m.stack[slot]? else none)
    (fun i v hi => by
      split at hi
      · next heq => exact heq ▸ hslot
      · cases hi)
    fun _ _ _ => True

section Watch

variable {m : Machine} {depth level slot : Nat}

theorem Machine.guarded_watchSlot (hslot : slot < level) (hdepth : depth ≤ m.frames.size)
    (hlevel : ∀ (j : Nat) (f : Frame), m.frames[j]? = some f → depth ≤ j → level ≤ f.function) :
    Guarded (m.watchSlot depth level slot hslot) m.frames.size m :=
  guarded_watch hdepth hlevel
    (fun i v hi => by
      split at hi
      · next heq => rw [heq, hi]
      · cases hi)
    fun _ _ => trivial

/-- Further frames may be called in any slots from `level` on. -/
theorem Machine.admits_watchSlot {hslot : slot < level} {wanted : Option Nat} {isFresh : Bool} :
    (m.watchSlot depth level slot hslot).Admits depth level wanted isFresh where
  level_le := fun _ => Nat.le_refl _
  fresh := fun hpos heq => absurd heq (Nat.ne_of_gt hpos)
  root := fun _ => trivial

theorem Machine.kept_watchSlot_self (m : Machine) (depth : Nat) (hslot : slot < level)
    (hlt : slot < m.stack.size) :
    (m.watchSlot depth level slot hslot).kept slot = some m.stack[slot] :=
  (if_pos rfl).trans (Array.getElem?_eq_getElem hlt)

/-- Other slots are not watched. -/
theorem Machine.kept_watchSlot {hslot : slot < level} {i : Nat} (hi : i ≠ slot) :
    (m.watchSlot depth level slot hslot).kept i = none :=
  if_neg hi

end Watch

namespace Config

variable {s₀ m : Machine} {wanted₀ : Option Nat} {c c₁ : Config} {depth function slot n : Nat}
  {V : Vantage}

/-- What has begun in step with itself stays so. -/
theorem abreast_of_inStep (hs₀ : s₀.Steady) (h : InProgress s₀ wanted₀ c)
    (hstep : c.step = .more c₁) (hpending : c₁.pending = c.pending)
    (hinstep : c₁.current.InStep V (fun _ => Akin V n) (Akin V n) c₁.current) :
    Abreast s₀ wanted₀ V n c.pending c₁ c₁ := by
  obtain ⟨current, pending⟩ := c₁
  obtain rfl : pending = c.pending := hpending
  rcases h.of_reaches hs₀ (.step .refl hstep) with ⟨s, f, wanted, hawaits, hmeets⟩ | hfault
  · exact ⟨V, n, s, f, wanted, .outer hawaits, .inl hmeets, hinstep⟩
  · obtain ⟨s, f, wanted, hawaits, -⟩ := h
    exact ⟨V, n, s, f, wanted, .outer hawaits, .inr hfault, hinstep⟩

section Due

variable {s : Machine} {wanted : Option Nat} {f : Frame} {closure : Closure} {i : Instruction}

/-- An instruction is executed in a state that is like itself. -/
theorem alike_advance (h : Guarded V m.frames.size m) (n : Nat) :
    Alike V n m.frames.size m.advance m.advance :=
  (h.alike.select (m.frames.size - 1) fun f => f.pc + 1).setBudget (m.budget.map (· - 1))

/-- A call instruction begins a call that can be watched. -/
theorem inStep_call_of_due (hdue : m.Due f closure .call i) (h : Guarded V m.frames.size m)
    (hlevel : V.level ≤ f.base + i.a)
    (hadmits : ∀ wanted, V.Admits m.frames.size (f.base + i.a) wanted false) :
    ∃ n, (Dispatch.step m).InStep V (fun _ => Akin V n) (Akin V n) (Dispatch.step m) := by
  rw [Dispatch.step_of_due hdue]
  exact ⟨f.base + i.a + i.b + 1, Activation.inStep_call (a := f.activation closure) hlevel
    (by simp only [Activation.slot, Frame.activation]; omega)
    (.inr (by simp only [Activation.slot, Frame.activation]; omega)) h.depth_le hadmits _ _
    (alike_advance h _)⟩

/-- A tail call begins a call that can be watched if it does not replace the running one. -/
theorem inStep_tailCall_of_due (hdue : m.Due f closure .tailCall i)
    (hcallee : ∀ id m', (f.activation closure).callee i m.advance ≠ .ok (.closure id) m')
    (h : Guarded V m.frames.size m) (hlevel : V.level ≤ f.base + i.a)
    (hadmits : ∀ wanted, V.Admits m.frames.size (f.base + i.a) wanted false) :
    ∃ n, (Dispatch.step m).InStep V (fun _ => Akin V n) (Akin V n) (Dispatch.step m) := by
  have hslot : (f.activation closure).slot i.a < f.base + i.a + i.b + 1 := by
    simp only [Activation.slot, Frame.activation]
    omega
  have hb : (f.activation closure).slot i.a + i.b ≤ f.base + i.a + i.b + 1 := by
    simp only [Activation.slot, Frame.activation]
    omega
  refine ⟨f.base + i.a + i.b + 1, ?_⟩
  have hstep := Dispatch.step_of_due hdue
  rw [show (f.activation closure).execute .tailCall i = (f.activation closure).tailCall i from rfl,
    Activation.tailCall_eq] at hstep
  have halike := Activation.parallel_callee hlevel hslot (.inr hb) _ _ (alike_advance h _)
  cases hv : (f.activation closure).callee i m.advance with
  | error stop m₁ =>
    rw [hv] at halike
    obtain ⟨_, heq, h₁⟩ := halike
    cases heq
    rw [hstep.trans (Exec.bind_of_error hv)]
    exact ⟨m₁, rfl, h₁.akin⟩
  | ok v m₁ =>
    rw [hv] at halike
    obtain ⟨_, heq, h₁⟩ := halike
    cases heq
    rw [hstep.trans (Exec.bind_of_ok hv)]
    split
    · exact absurd hv (hcallee _ _)
    · exact Call.inStep_enter hlevel hslot h.depth_le (hadmits none) _ _ h₁

end Due

/-- The slots below the registers of a running function lie on the stack. -/
theorem lt_size_of_due {s : Machine} {level : Nat} {wanted : Option Nat} {f : Frame}
    {closure : Closure} {op : Opcode} {i : Instruction} (hrunning : Running s level wanted m)
    (hdue : m.Due f closure op i) (hr : closure.proto.hasRegister i.a = true)
    (hslot : slot < f.base + i.a) : slot < m.stack.size := by
  obtain ⟨-, haccepted, fs, -, -, hactive⟩ := hdue.active hrunning
  have hlt : f.base + i.a < f.top := Activation.slot_lt_top haccepted hr
  have hle : f.top ≤ m.stack.size := hactive.innermost.top_le
  omega

section Kinds

variable {pending : List Pending} {f : Frame} {closure : Closure} {i : Instruction}

/-- A tail call of a closure begins a call in the place of the running one, which is watched before
the frame gives way. -/
theorem abreast_replacing (h : InProgress s₀ wanted₀ ⟨.done m .next, pending⟩)
    (hdue : m.Due f closure .tailCall i) (hslot : slot < f.function)
    (hstep : (⟨.done m .next, pending⟩ : Config).step = .more c₁) :
    slot < m.stack.size ∧ Abreast s₀ wanted₀
      (m.watchSlot (m.frames.size - 1) f.function slot hslot) 0 pending c₁ c₁ := by
  obtain ⟨_, _, _, -, hmeets⟩ := id h
  obtain ⟨-, -, fs, hframes, -, hactive⟩ := hdue.active hmeets
  have hsize : m.frames.size = fs.size + 1 := by rw [hframes, Array.size_push]
  have hguarded := Machine.guarded_watchSlot hslot (Nat.sub_le m.frames.size 1)
    fun j g hg hj => Nat.le_of_eq
      (congrArg Frame.function (Machine.eq_innermost hdue.frame hg hj).symm)
  have hlt : slot < m.stack.size := by
    have hfits : Frame.Stable _ _ := hactive.innermost
    have hbase : f.function < f.base := hfits.function_lt
    have htop : f.base ≤ f.top := hfits.base_le
    have hstack : f.top ≤ m.stack.size := hfits.top_le
    omega
  obtain ⟨c₂, c₂', hc₂, hc₂', habreast⟩ := (h.abreast hguarded).step
    (fun _ => show m.frames.size - 1 < m.frames.size by omega)
    (fun i ⟨m₁, p, hc, hassigns⟩ => by
      cases hc
      exact absurd hassigns (hdue.not_assigns (by decide)))
    (fun _ _ => not_fault_of_step hstep _)
  cases hstep.symm.trans hc₂
  cases hstep.symm.trans hc₂'
  exact ⟨hlt, habreast⟩

/-- The call of an iterator is one of its own on top of the running one. -/
theorem abreast_iterator {count : Nat}
    (h : InProgress s₀ wanted₀ ⟨.done m (.iterate function count), pending⟩)
    (hslot : slot < function)
    (hstep : (⟨.done m (.iterate function count), pending⟩ : Config).step = .more c₁) :
    slot < m.stack.size ∧ Abreast s₀ wanted₀ (m.watchSlot m.frames.size function slot hslot)
      (function + 1) pending c₁ c₁ := by
  obtain ⟨s, level, wanted, hawaits, hiterating⟩ := h
  replace hiterating : Iterating s level wanted function m := hiterating
  obtain rfl : _ = c₁ := Step.more.inj hstep
  have hguarded := Machine.guarded_watchSlot hslot (Nat.le_refl m.frames.size)
    fun _ _ hf hj => absurd (Array.getElem?_eq_some_iff.1 hf).1 (Nat.not_lt.2 hj)
  refine ⟨?_, _, _, m, function, some count,
    .iterator (.outer hawaits) hiterating (Nat.le_refl _)
      (Nat.zero_lt_of_lt hiterating.running.size_lt),
    .inl (meets_startIterator hiterating),
    Call.inStep_startIterator (V := m.watchSlot m.frames.size function slot hslot) (Nat.le_refl _)
      (Nat.lt_succ_self function) (Nat.le_refl _) Machine.admits_watchSlot m m hguarded.alike⟩
  have htop := hiterating.steady.sound.top_le
  have hlt := hiterating.iterator_lt
  omega

end Kinds

/-- **Calls in the sequence of instructions.** They can be watched, whatever the slot. -/
theorem Calls.abreast (hs₀ : s₀.Steady) (h : InProgress s₀ wanted₀ c)
    (hcalls : c.Calls depth function) (hm : c.current.state? = some m) (hslot : slot < function)
    (hstep : c.step = .more c₁) :
    slot < m.stack.size ∧
      ∃ n, Abreast s₀ wanted₀ (m.watchSlot depth function slot hslot) n c.pending c₁ c₁ := by
  obtain ⟨_, _, _, -, hmeets⟩ := id h
  have hguarded : depth = m.frames.size →
      Guarded (m.watchSlot depth function slot hslot) m.frames.size m := fun hdepth =>
    Machine.guarded_watchSlot hslot (Nat.le_of_eq hdepth) fun j f hf hj =>
      absurd (Array.getElem?_eq_some_iff.1 hf).1 (Nat.not_lt.2 (hdepth ▸ hj))
  cases hcalls with
  | @call m' f closure i pending hdue =>
    obtain rfl : m' = m := Option.some.inj hm
    obtain rfl : _ = c₁ := Step.more.inj hstep
    obtain ⟨hfit, -⟩ := hdue.active hmeets
    simp only [Prototype.operandsFit, Bool.and_eq_true] at hfit
    obtain ⟨n, hinstep⟩ := inStep_call_of_due hdue (hguarded rfl) (Nat.le_refl _)
      fun _ => Machine.admits_watchSlot
    exact ⟨lt_size_of_due hmeets hdue hfit.1 hslot, n,
      abreast_of_inStep hs₀ h rfl rfl hinstep.annotated⟩
  | @aside m' f closure i pending hdue hcallee =>
    obtain rfl : m' = m := Option.some.inj hm
    obtain rfl : _ = c₁ := Step.more.inj hstep
    obtain ⟨hfit, -⟩ := hdue.active hmeets
    simp only [Prototype.operandsFit, Bool.and_eq_true] at hfit
    obtain ⟨n, hinstep⟩ := inStep_tailCall_of_due hdue hcallee (hguarded rfl) (Nat.le_refl _)
      fun _ => Machine.admits_watchSlot
    exact ⟨lt_size_of_due hmeets hdue hfit.1 hslot, n,
      abreast_of_inStep hs₀ h rfl rfl hinstep.annotated⟩
  | @replacing m' _ f closure i _ pending hdue hcallee =>
    obtain rfl : m' = m := Option.some.inj hm
    obtain ⟨hlt, habreast⟩ := abreast_replacing h hdue hslot hstep
    exact ⟨hlt, 0, habreast⟩
  | @iterator m' function count pending =>
    obtain rfl : m' = m := Option.some.inj hm
    obtain ⟨hlt, habreast⟩ := abreast_iterator h hslot hstep
    exact ⟨hlt, _, habreast⟩

end Config

namespace Machine

variable {s m : Machine} {wanted : Option Nat} {slot : Nat}

/-- The slots in use exist. -/
theorem Steady.freeSlot_le (hs : s.Steady) : s.freeSlot ≤ s.stack.size := by
  have htop := hs.sound.top_le
  rw [freeSlot]
  split
  · next f hf =>
    have hf := (hs.stable f (Array.mem_of_back? hf)).top_le
    omega
  · exact htop

/-- What the host calls can be watched. -/
theorem Steady.abreast_begin (hs : s.Steady) (hslot : slot < s.freeSlot) (f : Value)
    (args : List Value) (wanted : Option Nat) :
    Config.Abreast s wanted (s.watchSlot s.frames.size s.freeSlot slot hslot).up s.freeSlot
      (Config.hostCall s) (.begin s f args wanted none []) (.begin s f args wanted none []) :=
  have hguarded := guarded_watchSlot hslot (Nat.le_refl s.frames.size)
    fun _ _ hj hle => absurd (Array.getElem?_eq_some_iff.1 hj).1 (Nat.not_lt.2 hle)
  Config.abreast_begin hs hguarded.alike (Nat.le_refl _) admits_watchSlot f args

theorem Steady.abreast_of_course (hs : s.Steady) (hslot : slot < s.freeSlot) {f : Value}
    {args : List Value} {c : Config}
    (hcourse : (Config.begin s f args wanted none []).Course (fun c => ¬c.Assigns slot) c) :
    Config.Abreast s wanted (s.watchSlot s.frames.size s.freeSlot slot hslot).up s.freeSlot
      (Config.hostCall s) c c := by
  refine (hs.abreast_begin hslot f args wanted).of_hostCourse hs rfl
    (hcourse.mono fun c hc i hi => ?_)
  exact kept_watchSlot fun heq => hc (heq ▸ hi)

/-- The first free slot is again what it was when the call began. -/
theorem Steady.top_of_final (hs : s.Steady) {f : Value} {args : List Value} {c : Config}
    (hreaches : (Config.begin s f args wanted none []).Reaches c)
    {outcome : Except Failure (List Value)}
    (hstep : c.step = .final m (outcome.mapError .failure)) : m.top = s.top := by
  have hrun : c.run 1 = some (m, outcome.mapError .failure) := Config.run_of_final hstep
  obtain ⟨k, hk⟩ := hreaches.run
  exact (hs.returned_of_run ((hk 1).trans hrun)).top

end Machine

/-! ### A register of the calling function -/

/-- A function that calls a nested closure, with a value in its first register. -/
def keeping : Prototype where
  code := #[.abc .loadBoolean 0 1 0, .abx .closure 1 0, .abc .call 1 1 1]
  children := [{ code := #[.abc .ret 0 1 0] }]

/-- The machine that has loaded the function. -/
def loadedKeeping : Machine :=
  { Machine.new {} with heap.closures := #[⟨keeping, #[]⟩] }

theorem reachable_loadedKeeping : loadedKeeping.Reachable :=
  .operation (.behave (.request (.load keeping) fun _ => .finish [])) (.new {}) .refl rfl

/-- The next two instructions are the call and the return of the nested closure, while the value is
in its register. -/
private def Config.callsKeeping (c : Config) : Bool :=
  match c with
  | ⟨.done m .next, _⟩ => match m.due?, c.step with
    | some (f, _, .call, i), .more ⟨.done m₁ .next, pending⟩ =>
      m.frames.size == 1 && f.base + i.a == 2 &&
      (match m.stack[1]? with
        | some (Value.boolean true) => true
        | _ => false) &&
      match m₁.due?, (⟨.done m₁ .next, pending⟩ : Config).step with
        | some (_, _, .ret, _), .more ⟨.done m₂ .next, _⟩ =>
          m₁.frames.size == 2 && m₂.frames.size == 1
        | _, _ => false
    | _, _ => false
  | _ => false

end LuaMachine
