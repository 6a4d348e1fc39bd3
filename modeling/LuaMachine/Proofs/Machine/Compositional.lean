import LuaMachine.Proofs.Machine.NextInstruction
import LuaMachine.Proofs.Machine.OrdinaryInstructions

/-!
# Properties that pass from the parts to the whole

An instruction is put together from ordinary computations, from frames that are added after a check
of the depth, from frames that are removed, and from native functions.  A property that holds of
these parts, and of one computation after another if it holds of each, holds of all instructions.

## Main definitions

* `Call.install`, `Call.layout` : the addition of a frame, and the frame of a closure.
* `Call.enterCounted` : the entry of a call that has been counted.
* `Exec.Compositional` : a property that passes from the parts to the whole.

## Main statements

* `Exec.Compositional.enter` : it holds of calls.
* `Exec.Compositional.execute` : it holds of all instructions.
-/

namespace LuaMachine

/-! ### Frames that are added -/

namespace Call

/-- Adds a frame if another one is allowed. -/
def install {α : Type} (x : Routine (Frame × α)) : Routine α := do
  checkDepth
  let (f, a) ← x
  push f
  pure a

/-- The frame of a closure with its first free slot: the parameters are passed, and all other
registers hold nil. -/
def layout (id : ClosureId) (function : Nat) (wanted : Option Nat) (isTailCall isFresh : Bool) :
    Routine (Frame × Nat) := do
  let proto := ((← get).heap.closure id).proto
  let argumentCount ← Stack.countFrom (function + 1)
  let free ← Stack.top
  Stack.reserve (free + proto.parameters + proto.registers)
  let base := if proto.isVararg then free else function + 1
  if proto.isVararg then Stack.take (function + 1) base argumentCount proto.parameters
  let passed := if proto.isVararg then proto.parameters else min argumentCount proto.parameters
  Stack.clear (base + passed) (proto.registers - passed)
  let top := base + proto.registers
  pure ({ Frame.ofClosure id function base top wanted with isTailCall, isFresh }, top)

variable {id : ClosureId} {function : Nat} {wanted : Option Nat} {isTailCall isFresh : Bool}

theorem pushClosure_eq : pushClosure id function wanted isTailCall isFresh =
    install (layout id function wanted isTailCall isFresh) >>= Stack.setTop := by
  unfold pushClosure install layout
  simp only [bind_assoc, pure_bind]
  refine congrArg _ (funext fun _ => congrArg _ (funext fun m => congrArg _ (funext fun n =>
    congrArg _ (funext fun free => congrArg _ (funext fun _ => ?_)))))
  split
  · simp only [bind_assoc, pure_bind]
  · simp only [bind_assoc, pure_bind]

theorem ordinary_layout : (layout id function wanted isTailCall isFresh).Ordinary := by
  refine .inspect (fun m => .bind (Stack.ordinary_countFrom _) fun n => .bind Stack.ordinary_top
    fun free => .bind (.reserve _) fun _ => ?_) fun _ _ => rfl
  split
  · exact .bind (Stack.ordinary_take _ _ _ _) fun _ => .bind (Stack.ordinary_clear _ _) fun _ =>
      .pure _
  · exact .bind (Stack.ordinary_clear _ _) fun _ => .pure _

/-- The frame of a native function with its arguments. -/
def layoutNative (function : Nat) (wanted : Option Nat) (isFresh : Bool) :
    Routine (Frame × Frame × List Value) := do
  let free ← Stack.top
  let args ← Stack.readRange (function + 1) free
  let f := { Frame.ofNative function free wanted with isFresh }
  pure (f, f, args)

theorem ordinary_layoutNative : (layoutNative function wanted isFresh).Ordinary :=
  .bind Stack.ordinary_top fun _ => .bind (Stack.ordinary_readRange _ _) fun _ => .pure _

end Call

theorem Call.runNative_eq (id : NativeId) (function : Nat) (wanted : Option Nat) (isFresh : Bool) :
    runNative id function wanted isFresh = (do
      let (f, args) ← install (layoutNative function wanted isFresh)
      let results ← (((← Exec.state).heap.native id).body args).run
      pop
      deliver function results wanted
      afterReturn f) := by
  have hlift : ∀ {α : Type} (x : Routine α), (liftM x : Exec α) = Exec.ofRoutine x := fun _ => rfl
  simp only [runNative, install, layoutNative, hlift, Exec.ofRoutine_bind, Exec.ofRoutine_pure,
    bind_assoc, pure_bind]

/-! ### Calls that are counted -/

namespace Call

/-- A call that has been counted is entered, unless there are too many. -/
def enterCounted (function : Nat) (wanted : Option Nat) : Exec Control := do
  let m ← Exec.state
  if m.limits.nativeDepth < m.reentries then .fail .nativeOverflow
  else enter function wanted true

variable {function : Nat} {wanted : Option Nat} {m : Machine}

theorem enterCounted_eq : enterCounted function wanted m =
    if m.limits.nativeDepth < m.reentries then .stopped m (.failure (.of .nativeOverflow))
    else enter function wanted true m := by
  change (if m.limits.nativeDepth < m.reentries then (.fail .nativeOverflow : Exec Control)
    else enter function wanted true) m = _
  split <;> rfl

theorem start_eq (f : Value) (args : List Value) : start f args wanted function = (do
    modify (m := Routine) Machine.countUp
    Stack.reserve (function + 1 + args.length)
    Stack.writeAll function (f :: args)
    Stack.setTop (function + 1 + args.length)
    enterCounted function wanted) := rfl

theorem startIterator_eq (count : Nat) : startIterator function count = (do
    modify (m := Routine) Machine.countUp
    enterCounted function (some count)) := rfl

end Call

/-! ### Properties of instructions -/

/-- The property holds of instructions if it holds of their parts. -/
structure Exec.Compositional (Φ : {α : Type} → Exec α → Prop) : Prop where
  ordinary : ∀ {α : Type} {x : Exec α}, x.Ordinary → Φ x
  bind : ∀ {α β : Type} {x : Exec α} {f : α → Exec β}, Φ x → (∀ a, Φ (f a)) → Φ (x >>= f)
  inspect : ∀ {α : Type} {f : Machine → Exec α}, (∀ m, Φ (f m)) →
    (∀ m b, f (m.withBudget b) = f m) → Φ (Exec.state >>= f)
  install : ∀ {α : Type} {x : Routine (Frame × α)}, x.Ordinary →
    Φ (Exec.ofRoutine (Call.install x))
  pop : Φ (Exec.ofRoutine Call.pop)
  runNative : ∀ id function wanted isFresh, Φ (Call.runNative id function wanted isFresh)

namespace Exec.Compositional

variable {Φ : {α : Type} → Exec α → Prop} {α β : Type}

theorem lift (h : Compositional Φ) {x : Routine α} (hx : x.Ordinary) : Φ (ofRoutine x) :=
  h.ordinary (.lift hx)

theorem lift_bind (h : Compositional Φ) {x : Routine α} {f : α → Routine β}
    (hx : Φ (ofRoutine x)) (hf : ∀ a, Φ (ofRoutine (f a))) : Φ (ofRoutine (x >>= f)) := by
  rw [ofRoutine_bind]
  exact h.bind hx hf

theorem pushClosure (h : Compositional Φ) (id : ClosureId) (function : Nat) (wanted : Option Nat)
    (isTailCall isFresh : Bool) :
    Φ (ofRoutine (Call.pushClosure id function wanted isTailCall isFresh)) := by
  rw [Call.pushClosure_eq]
  exact h.lift_bind (h.install Call.ordinary_layout) fun _ => h.lift (Stack.ordinary_setTop _)

/-- **Calls.** A property that passes from the parts to the whole holds of calls. -/
theorem enter (h : Compositional Φ) (function : Nat) (wanted : Option Nat) (isFresh : Bool) :
    Φ (Call.enter function wanted isFresh) := by
  refine h.bind (h.lift (Call.ordinary_resolve function)) fun _ =>
    h.bind (h.lift (Stack.ordinary_read function)) fun v => ?_
  split
  · exact h.bind (h.pushClosure _ _ _ _ _) fun _ => h.ordinary (.pure _)
  · exact h.runNative _ _ _ _
  · exact h.ordinary (.fail ⟨by simp, by simp⟩)

theorem replace (h : Compositional Φ) (current : Frame) (id : ClosureId) (function : Nat) :
    Φ (ofRoutine (Call.replace current id function)) :=
  h.lift_bind (h.lift (Cell.ordinary_closeFrom _)) fun _ =>
    h.lift_bind (h.lift (Stack.ordinary_countFrom _)) fun _ =>
      h.lift_bind (h.lift (Stack.ordinary_take _ _ _ _)) fun _ =>
        h.lift_bind (h.lift (Stack.ordinary_setTop _)) fun _ =>
          h.lift_bind h.pop fun _ => h.pushClosure _ _ _ _ _

theorem leave (h : Compositional Φ) (first n : Nat) : Φ (ofRoutine (Call.leave first n)) := by
  rw [Call.leave, ofRoutine_bind, ofRoutine_get]
  refine h.inspect (fun m => ?_) fun _ _ => rfl
  split
  · exact h.lift (.fail ⟨by simp, by simp⟩)
  · exact h.lift_bind h.pop fun _ => h.lift (.bind (.reserve _) fun _ =>
      .bind (Stack.ordinary_copy _ _ _ _) fun _ => .bind (Stack.ordinary_setTop _) fun _ => .pure _)

theorem ret (h : Compositional Φ) (a : Activation) (i : Instruction) : Φ (ofRoutine (a.ret i)) :=
  h.lift_bind (h.lift (a.ordinary_resultCount i)) fun _ =>
    h.lift_bind (h.lift (Cell.ordinary_closeFrom _)) fun _ =>
      h.lift_bind (h.leave _ _) fun _ => h.lift (Call.ordinary_afterReturn _)

theorem call (h : Compositional Φ) (a : Activation) (i : Instruction) : Φ (a.call i) :=
  h.bind (h.lift (a.ordinary_setArguments i)) fun _ => h.enter _ _ _

theorem tailCall (h : Compositional Φ) (a : Activation) (i : Instruction) : Φ (a.tailCall i) := by
  refine h.bind (h.lift (a.ordinary_setArguments i)) fun _ =>
    h.bind (h.lift (Call.ordinary_resolve _)) fun _ =>
      h.bind (h.lift (Stack.ordinary_read _)) fun v => ?_
  split
  · exact h.bind (h.replace _ _ _) fun _ => h.ordinary (.pure _)
  · exact h.enter _ _ _

/-- **Instructions.** It holds of all instructions. -/
theorem execute (h : Compositional Φ) (a : Activation) (op : Opcode) (i : Instruction) :
    Φ (a.execute op i) := by
  by_cases hcall : op = .call
  · exact hcall ▸ h.call a i
  by_cases htail : op = .tailCall
  · exact htail ▸ h.tailCall a i
  by_cases hret : op = .ret
  · exact hret ▸ h.ret a i
  · exact h.ordinary (a.ordinary_execute i hcall htail hret)

theorem dispatch (h : Compositional Φ) (f : Frame) (c : Closure) (i : Instruction) :
    Φ (Dispatch.dispatch f c i) := by
  rw [Dispatch.dispatch]
  split
  · exact h.ordinary (.fail ⟨by simp, by simp⟩)
  · exact h.execute _ _ _

theorem enterCounted (h : Compositional Φ) (function : Nat) (wanted : Option Nat) :
    Φ (Call.enterCounted function wanted) := by
  refine h.inspect (fun m => ?_) fun _ _ => rfl
  split
  · exact h.ordinary (.fail ⟨by simp, by simp⟩)
  · exact h.enter _ _ _

variable (hcount : Φ (ofRoutine (modify Machine.countUp)))

include hcount

/-- It holds of calls from within instructions and native functions if they may be counted. -/
theorem start (h : Compositional Φ) (f : Value) (args : List Value) (wanted : Option Nat)
    (function : Nat) : Φ (Call.start f args wanted function) := by
  rw [Call.start_eq]
  exact h.bind hcount fun _ => h.bind (h.lift (.reserve _)) fun _ =>
    h.bind (h.lift (Stack.ordinary_writeAll _ _)) fun _ =>
      h.bind (h.lift (Stack.ordinary_setTop _)) fun _ => h.enterCounted function wanted

theorem startIterator (h : Compositional Φ) (function wanted : Nat) :
    Φ (Call.startIterator function wanted) := by
  rw [Call.startIterator_eq]
  exact h.bind hcount fun _ => h.enterCounted function wanted

end Exec.Compositional

end LuaMachine
