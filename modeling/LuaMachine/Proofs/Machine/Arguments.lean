import LuaMachine.Proofs.Machine.Courses
import LuaMachine.Proofs.Machine.StackRoom

/-!
# Arguments

A call of a closure passes its arguments in the first registers.  If the number of arguments is
variable, those of parameters are moved behind the others, so that the additional ones lie right
below the registers for as long as the call lasts.  How many there are is not recorded anywhere: an
instruction that loads them finds it in the place of the registers and that of the function.

## Main definitions

* `Prototype.extras` : the additional arguments.
* `Machine.Loads` : an instruction that loads them.

## Main statements

* `Machine.Due.loads` : the instruction finds what lies below the registers.
* `Call.pushClosure_passes` : arguments are passed, and additional ones can be loaded.
-/

namespace LuaMachine

/-- The additional arguments of a call, for which there are no parameters. -/
def Prototype.extras (p : Prototype) (args : List Value) : List Value :=
  if p.isVararg then args.drop p.parameters else []

/-- The number of values that an instruction loads out of `n`. -/
def Instruction.loaded (i : Instruction) (n : Nat) : Nat := if i.b = 0 then n else i.b - 1

/-- The next step executes the instruction `i` in the frame `f`, and this loads the values
`extras`. -/
structure Machine.Loads (m : Machine) (f : Frame) (i : Instruction) (extras : List Value) :
    Prop where
  /-- As many as the instruction asks for, or all of them, get into the registers from `A` on. -/
  filled : ∀ m' control, Dispatch.step m = .done m' control →
    m'.Filled (f.base + i.a) (i.loaded extras.length) extras
  /-- Only all of them are marked by the first free slot. -/
  top : ∀ m' control, Dispatch.step m = .done m' control →
    m'.top = if i.b = 0 then f.base + i.a + extras.length else m.top
  /-- The registers have to exist, unless all values are loaded: then there has to be room. -/
  succeeds : (i.b = 0 → f.base + i.a + extras.length ≤ max m.stack.size m.limits.stackSize) →
    (i.b ≠ 0 → f.base + i.a + (i.b - 1) ≤ m.stack.size) →
      ∃ m', Dispatch.step m = .done m' .next

/-! ### Loading additional arguments -/

namespace Activation

variable {a : Activation} {i : Instruction} {m m' : Machine} {extras : List Value}

theorem loadedCount_ok {n : Nat} (h : a.loadedCount i m = .ok n m') :
    n = i.loaded a.extraCount ∧ ∃ stack : Array Value,
      m' = { m with stack, top := if i.b = 0 then a.slot i.a + a.extraCount else m.top } ∧
      m.stack.size ≤ stack.size ∧ (i.b = 0 → a.slot i.a + a.extraCount ≤ stack.size) ∧
      ∀ j < m.stack.size, stack[j]? = m.stack[j]? := by
  rw [loadedCount] at h
  rw [Instruction.loaded]
  split at h
  · next hb =>
    obtain ⟨_, m₁, hreserve, h⟩ := Routine.exists_of_bind h
    obtain ⟨stack, rfl, hsize, hstack⟩ := Stack.reserve_ok hreserve
    cases h
    exact ⟨(if_pos hb).symm, stack, by rw [if_pos hb], by omega, fun _ => by omega, hstack⟩
  · next hb =>
    cases h
    exact ⟨(if_neg hb).symm, m.stack, by rw [if_neg hb], Nat.le_refl _, fun h => absurd h hb,
      fun _ _ => rfl⟩

/-- **Additional arguments.** What lies below the registers is loaded. -/
theorem vararg_ok (hcount : a.extraCount = extras.length)
    (hextras : m.Filled (a.frame.base - extras.length) extras.length extras)
    (h : a.vararg i m = .ok () m') :
    m'.Filled (a.slot i.a) (i.loaded extras.length) extras ∧
      m'.top = if i.b = 0 then a.slot i.a + extras.length else m.top := by
  obtain ⟨n, m₁, hloaded, hcopy⟩ := Routine.exists_of_bind h
  obtain ⟨rfl, stack₁, rfl, -, -, hstack₁⟩ := loadedCount_ok hloaded
  rw [hcount] at hcopy
  have hbelow : a.extraCount ≤ a.frame.base := by
    rw [extraCount]
    omega
  have hapart : a.frame.base - extras.length + min extras.length (i.loaded extras.length) ≤
      a.slot i.a := by
    rw [slot]
    omega
  obtain ⟨stack, rfl, -, hcopied, -⟩ := Stack.copy_ok (.inr hapart) hcopy
  refine ⟨fun j hj => (hcopied j hj).trans ?_, rfl⟩
  split
  · next hlt =>
    exact Stack.getElem?_of_extends hstack₁ (hextras j hlt)
  · next hge => rw [List.getElem?_eq_none (Nat.not_lt.1 hge), Option.getD_none]

/-- They are loaded if there is room. -/
theorem succeeds_vararg (hcount : a.extraCount = extras.length)
    (hextras : m.Filled (a.frame.base - extras.length) extras.length extras)
    (hall : i.b = 0 → a.slot i.a + extras.length ≤ max m.stack.size m.limits.stackSize)
    (hsome : i.b ≠ 0 → a.slot i.a + (i.b - 1) ≤ m.stack.size) : (a.vararg i).Succeeds m := by
  have hloaded : (a.loadedCount i).Succeeds m := by
    rw [loadedCount]
    split
    · next hb =>
      exact (Stack.succeeds_reserve (hcount ▸ hall hb)).bind fun _ _ _ =>
        (Routine.succeeds_modify _).bind fun _ _ _ => Routine.succeeds_pure _
    · exact Routine.succeeds_pure _
  refine hloaded.bind fun n m₁ h => ?_
  obtain ⟨rfl, stack, rfl, hsize, hreserved, -⟩ := loadedCount_ok h
  rw [hcount] at hreserved ⊢
  refine Stack.succeeds_copy (fun hpos => ?_) ?_
  · have hlast := hextras (extras.length - 1) (by omega)
    have hlt := (Array.getElem?_eq_some_iff.1 hlast).1
    simp only
    omega
  · rw [Instruction.loaded]
    split
    · next hb => exact hreserved hb
    · next hb => exact Nat.le_trans (hsome hb) hsize

end Activation

namespace Machine

variable {m : Machine} {f : Frame} {c : Closure} {i : Instruction} {extras : List Value}

theorem Due.loads (hdue : m.Due f c .vararg i)
    (hcount : (f.activation c).extraCount = extras.length)
    (hextras : m.Filled (f.base - extras.length) extras.length extras) : m.Loads f i extras := by
  have hloaded : ∀ m' control, Dispatch.step m = .done m' control →
      control = .next ∧ (f.activation c).vararg i m.advance = .ok () m' := by
    intro m' control h
    rw [Dispatch.step_of_due hdue] at h
    cases hvararg : (f.activation c).vararg i m.advance with
    | error stop m₁ => cases (Exec.bind_of_error hvararg).symm.trans h
    | ok _ m₁ =>
      cases (Exec.bind_of_ok hvararg).symm.trans h
      exact ⟨rfl, rfl⟩
  have hextras' : m.advance.Filled (f.base - extras.length) extras.length extras := hextras
  refine ⟨fun m' control h => ?_, fun m' control h => ?_, fun hall hsome => ?_⟩
  · exact (Activation.vararg_ok hcount hextras' (hloaded m' control h).2).1
  · exact (Activation.vararg_ok hcount hextras' (hloaded m' control h).2).2
  · obtain ⟨⟨⟩, m', h⟩ :=
      Activation.succeeds_vararg (m := m.advance) hcount hextras hall hsome
    refine ⟨m', ?_⟩
    rw [Dispatch.step_of_due hdue]
    exact Exec.bind_of_ok h

end Machine

/-! ### Passing arguments -/

/-- The places of the function and of the registers tell how many additional arguments there
are. -/
theorem Prototype.length_extras (p : Prototype) (args : List Value) (function : Nat) :
    p.base function args.length - function - 1 - p.parameters = (p.extras args).length := by
  rw [base, extras]
  split
  · rw [List.length_drop]
    omega
  · simp only [List.length_nil]
    omega

namespace Call

variable {m m' : Machine} {id : ClosureId} {function : Nat} {wanted : Option Nat}
  {isTailCall isFresh : Bool}

/-- Parameters are the first registers. -/
theorem Passed.filled_parameters {p : Prototype} {args : List Value}
    (h : Passed m p function args m') (hparameters : p.parameters ≤ p.registers) :
    m'.Filled (p.base function args.length) p.parameters args := fun r hr => by
  rw [h.registers r (Nat.lt_of_lt_of_le hr hparameters), Prototype.parameter,
    List.getElem?_take_of_lt hr]

/-- Additional arguments lie right below the registers. -/
theorem Passed.filled_extras {p : Prototype} {args : List Value}
    (h : Passed m p function args m') :
    m'.Filled (p.base function args.length - (p.extras args).length) (p.extras args).length
      (p.extras args) := by
  rw [Prototype.base, Prototype.extras]
  split
  · next hvararg =>
    intro j hj
    rw [List.length_drop] at hj ⊢
    rw [List.getElem?_drop, show function + 1 + args.length - (args.length - p.parameters) + j =
      function + 1 + (p.parameters + j) by omega, h.extras hvararg _ (by omega) (by omega),
      List.getElem?_eq_getElem (by omega), Option.getD_some]
  · exact fun j hj => absurd hj (Nat.not_lt_zero j)

/-- **Arguments and additional arguments.** When the call of a closure has begun, its parameters are
the first registers and hold the arguments in order, completed with nil, and all other registers
hold nil.  If the number of arguments is variable, the additional ones lie right below the
registers, in order.  As long as they have not been changed there, an instruction of this call that
loads them yields them: all of them, or as many as it asks for, completed with nil.  Where the
number of arguments is not variable it yields none. -/
theorem pushClosure_passes {p : Prototype} {args : List Value}
    (hproto : (m.heap.closure id).proto = p) (hparameters : p.parameters ≤ p.registers)
    (htop : m.top ≤ m.stack.size) (hargs : m.slots (function + 1) m.top = args)
    (h : pushClosure id function wanted isTailCall isFresh m = .ok () m') :
    ∃ f : Frame, m'.frames = m.frames.push f ∧ f.closure? = some id ∧ f.function = function ∧
      f.top = f.base + p.registers ∧
      m'.Filled f.base p.parameters args ∧
      (∀ r, p.parameters ≤ r → r < p.registers → m'.stack[f.base + r]? = some .nil) ∧
      m'.Filled (f.base - (p.extras args).length) (p.extras args).length (p.extras args) ∧
      ∀ (m₁ : Machine) (g : Frame) (c : Closure) (i : Instruction), m₁.Due g c .vararg i →
        c.proto = p → g.function = f.function → g.base = f.base →
        (∀ j < (p.extras args).length, m₁.stack[f.base - (p.extras args).length + j]? =
          m'.stack[f.base - (p.extras args).length + j]?) →
        m₁.Loads g i (p.extras args) := by
  obtain ⟨-, hpassed, heq⟩ := pushClosure_ok htop h
  rw [hproto, hargs] at hpassed heq
  refine ⟨_, congrArg Machine.frames heq, rfl, rfl, hpassed.top,
    hpassed.filled_parameters hparameters, fun r hr hlt => ?_, hpassed.filled_extras,
    fun m₁ g c i hdue hproto' hfunction hbase hunchanged => ?_⟩
  · have hnil : p.parameter args r = .nil := Prototype.parameter_eq_nil (by omega)
    exact (hpassed.registers r hlt).trans (congrArg some hnil)
  · refine hdue.loads ?_ ?_
    · show g.base - g.function - 1 - c.proto.parameters = (p.extras args).length
      rw [hbase, hfunction, hproto']
      exact Prototype.length_extras p args function
    · rw [hbase]
      exact fun j hj => (hunchanged j hj).trans (hpassed.filled_extras j hj)

/-- A function that returns what follows its first argument. -/
def dropping : Prototype where
  code := #[.abc .vararg 1 0 0, .abc .ret 1 0 0]
  parameters := 1
  isVararg := true
  registers := 2

/-- It is about to be called with three arguments. -/
def beforeDropping : Machine :=
  { Machine.new {} with
    heap.closures := #[⟨dropping, #[]⟩]
    stack := #[.closure ⟨0⟩, .integer 1, .integer 2, .integer 3]
    top := 4 }

/-- The first argument has been moved behind the others. -/
def inDropping : Machine :=
  { beforeDropping with
    stack := #[.closure ⟨0⟩, .nil, .integer 2, .integer 3, .integer 1, .nil, .nil]
    top := 6
    frames := #[Frame.ofClosure ⟨0⟩ 0 4 6 none] }

/-- The others are loaded behind it. -/
theorem pushClosure_passes_dropping :
    pushClosure ⟨0⟩ 0 none false false beforeDropping = .ok () inDropping ∧
    inDropping.Filled 4 1 [.integer 1, .integer 2, .integer 3] ∧
    inDropping.Filled 2 2 [.integer 2, .integer 3] ∧
    ∃ m', Dispatch.step inDropping = .done m' .next ∧
      m'.Filled 5 2 [.integer 2, .integer 3] ∧ m'.top = 7 := by
  have hpush : pushClosure ⟨0⟩ 0 none false false beforeDropping = .ok () inDropping := rfl
  have hdue : inDropping.Due (.ofClosure ⟨0⟩ 0 4 6 none) ⟨dropping, #[]⟩ .vararg
      (.abc .vararg 1 0 0) := ⟨rfl, rfl, rfl, rfl, nofun⟩
  obtain ⟨f, hframes, -, -, -, hparameters, -, hextras, hloads⟩ :=
    pushClosure_passes (p := dropping) rfl (by decide) (by decide) rfl hpush
  obtain rfl : Frame.ofClosure ⟨0⟩ 0 4 6 none = f :=
    Option.some.inj (congrArg (fun frames : Array Frame => frames[0]?) hframes)
  have hall := hloads inDropping _ _ _ hdue rfl rfl rfl fun _ _ => rfl
  obtain ⟨m', hstep⟩ := hall.succeeds (fun _ => by decide) fun h => absurd rfl h
  exact ⟨hpush, hparameters, hextras, m', hstep, hall.filled _ _ hstep, hall.top _ _ hstep⟩

end Call

end LuaMachine
