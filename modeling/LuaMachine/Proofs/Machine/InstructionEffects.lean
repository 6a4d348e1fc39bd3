import LuaMachine.Proofs.Code.Acceptance
import LuaMachine.Proofs.Machine.Progress

/-!
# Effects of instructions

An instruction whose operands have been accepted reads and writes registers of its own frame only.
It goes on with the next instruction, or with a call of an iterator, or it fails.  The instructions
that call and return are treated apart.

## Main definitions

* `Activation.Accepted` : the frame belongs to a closure that can run and has its registers.
* `Activation.Steps` : an instruction leads on with the call in whose course it is executed.

## Main statements

* `Activation.keeps_read`, `Activation.keeps_write`, `Activation.keeps_operand` : operands.
* `Activation.steps_store`, `Activation.steps_simply` : instructions that change registers.
* `Activation.steps_callIterator`, `Activation.keeps_vararg`, `Activation.triple_setList` :
  instructions that move the first free slot.
* `Activation.keeps_closeOver` : nested closures can run.
-/

namespace LuaMachine

open Routine (Triple Keeps)

/-- An activation of a closure that can run, whose frame has the registers of its prototype. -/
structure Activation.Accepted (a : Activation) : Prop where
  closure : a.closure.Accepted
  top_eq : a.frame.top = a.frame.base + a.closure.proto.registers

namespace Activation

variable {a : Activation} {s : Machine} {function : Nat} {wanted : Option Nat} {fs : Array Frame}

/-- In the course of an instruction of the activation `a`, a computation leads on with the call or
the call fails. -/
def Steps (s : Machine) (function : Nat) (wanted : Option Nat) (fs : Array Frame) (a : Activation)
    (x : Exec Control) : Prop :=
  Exec.Triple (balancedFrom s) (Active s function wanted fs a.frame) x (Continues s function wanted)
    (Stop.Spares (Failed s function))

/-! ### Registers and other operands -/

theorem hasRegister_mono {p : Prototype} {r r' : Nat} (hr : p.hasRegister r = true) (h : r' ≤ r) :
    p.hasRegister r' = true := by
  simp only [Prototype.hasRegister, decide_eq_true_eq] at hr ⊢
  omega

/-- The registers of the frame are slots of the stack. -/
theorem registers_le (ha : a.Accepted) {m : Machine}
    (hm : Active s function wanted fs a.frame m) :
    a.slot a.closure.proto.registers ≤ m.stack.size := by
  rw [slot, ← ha.top_eq]
  exact hm.innermost.top_le

theorem slot_lt (ha : a.Accepted) {r : Nat} (hr : a.closure.proto.hasRegister r = true)
    {m : Machine} (hm : Active s function wanted fs a.frame m) : a.slot r < m.stack.size := by
  have hle := registers_le ha hm
  have hlt : r < a.closure.proto.registers := by simpa [Prototype.hasRegister] using hr
  simp only [slot] at hle ⊢
  omega

/-- The registers are slots of the frame. -/
theorem slot_lt_top (ha : a.Accepted) {r : Nat} (hr : a.closure.proto.hasRegister r = true) :
    a.slot r < a.frame.top := by
  have hlt : r < a.closure.proto.registers := by simpa [Prototype.hasRegister] using hr
  rw [slot, ha.top_eq]
  omega

theorem exists_owns (ha : a.Accepted) {r : Nat} (hr : a.closure.proto.hasRegister r = true)
    {m : Machine} (hm : Active s function wanted fs a.frame m) :
    ∃ f ∈ m.frames, f.Owns (a.slot r) := by
  obtain ⟨pc, hframes⟩ := hm.frames
  exact ⟨{ a.frame with pc }, hframes ▸ Array.mem_push_self, hm.nested.isClosure,
    Nat.le_add_right _ _, slot_lt_top ha hr⟩

theorem keeps_read (ha : a.Accepted) {r : Nat} (hr : a.closure.proto.hasRegister r = true) :
    Keeps (Active s function wanted fs a.frame) (a.read r) :=
  Stack.keeps_read fun _ hm => slot_lt ha hr hm

theorem keeps_write (ha : a.Accepted) {r : Nat} (hr : a.closure.proto.hasRegister r = true)
    (v : Value) : Keeps (Active s function wanted fs a.frame) (a.write r v) :=
  Stack.keeps_write robust_active.stack (fun _ hm => slot_lt ha hr hm) v

theorem keeps_constant {I : Machine → Prop} {k : Nat}
    (hk : a.closure.proto.hasConstant k = true) : Keeps I (a.constant k) := by
  have hlt : k < a.closure.proto.constants.size := by simpa [Prototype.hasConstant] using hk
  rw [constant, Array.getElem?_eq_getElem hlt]
  exact Keeps.pure

theorem keeps_operand (ha : a.Accepted) {field : Nat}
    (h : a.closure.proto.hasOperand field = true) :
    Keeps (Active s function wanted fs a.frame) (a.operand field) := by
  rw [Prototype.hasOperand] at h
  rw [operand]
  cases hfield : Operand.ofField field with
  | register r => exact keeps_read ha (by simpa [hfield] using h)
  | constant k => exact keeps_constant (by simpa [hfield] using h)

theorem keeps_cell {I : Machine → Prop} (ha : a.Accepted) {u : Nat}
    (hu : a.closure.proto.hasUpvalue u = true) : Keeps I (a.cell u) := by
  have hlt : u < a.closure.cells.size := by
    simpa [Prototype.hasUpvalue, ha.closure.cells] using hu
  rw [cell, Array.getElem?_eq_getElem hlt]
  exact Keeps.pure

theorem keeps_upvalue {I : Machine → Prop} (ha : a.Accepted) {u : Nat}
    (hu : a.closure.proto.hasUpvalue u = true) : Keeps I (a.upvalue u) :=
  (keeps_cell ha hu).bind fun id => Cell.keeps_read id

/-! ### The selection of the next instruction -/

theorem keeps_jump (offset : Int) : Keeps (Active s function wanted fs a.frame) (jump offset) :=
  Keeps.modify fun _ hm => hm.setPc _

theorem keeps_skip : Keeps (Active s function wanted fs a.frame) skip :=
  Keeps.modify fun _ hm => hm.setPc _

theorem keeps_skipIf (condition : Bool) :
    Keeps (Active s function wanted fs a.frame) (skipIf condition) := by
  rw [skipIf]
  split
  · exact keeps_skip
  · exact Keeps.pure

/-- The operand that the next instruction carries. -/
theorem triple_extraOperand {I : Machine → Prop} (hI : Keeps I skip) {extra : Instruction}
    (h : a.closure.proto.code[a.frame.pc]? = some extra) :
    Triple I a.extraOperand (fun n m => I m ∧ n = extra.ax) (Stop.Spares I) := by
  rw [extraOperand, h]
  exact Triple.bind hI fun _ => Triple.pure fun _ hm => ⟨hm, rfl⟩

/-! ### Steps -/

theorem Steps.bind {α : Type} {x : Exec α} {f : α → Exec Control}
    (hx : Exec.Keeps (balancedFrom s) (Active s function wanted fs a.frame) x)
    (hf : ∀ v, Steps s function wanted fs a (f v)) : Steps s function wanted fs a (x >>= f) :=
  Exec.Triple.bind (hx.spares fun _ hm => hm.failed) hf

theorem steps_next : Steps s function wanted fs a (pure .next) :=
  Exec.Triple.pure fun _ hm => hm.running

theorem steps_fail (cause : Cause) : Steps s function wanted fs a (.fail cause) :=
  Exec.Triple.fail fun _ hm => hm.failed

theorem steps_simply {x : Routine Unit} (h : Keeps (Active s function wanted fs a.frame) x) :
    Steps s function wanted fs a (simply x) :=
  Steps.bind (.lift h) fun _ => steps_next

theorem steps_store (ha : a.Accepted) {r : Nat} (hr : a.closure.proto.hasRegister r = true)
    {x : Exec Value} (h : Exec.Keeps (balancedFrom s) (Active s function wanted fs a.frame) x) :
    Steps s function wanted fs a (a.store r x) :=
  Steps.bind h fun v => Steps.bind (.lift (keeps_write ha hr v)) fun _ => steps_next

/-! ### Operations with metamethods -/

variable {i : Instruction}

theorem steps_binary (ha : a.Accepted) (op : Operator)
    (hr : a.closure.proto.hasRegister i.a = true) (hb : a.closure.proto.hasOperand i.b = true)
    (hc : a.closure.proto.hasOperand i.c = true) :
    Steps s function wanted fs a (a.binary i op) :=
  Steps.bind (.lift (keeps_operand ha hb)) fun _ => Steps.bind (.lift (keeps_operand ha hc))
    fun _ => steps_store ha hr (Operation.keeps_arithmetic admits_active _ _ _ _ _)

theorem steps_unary (ha : a.Accepted) (op : Operator)
    (hr : a.closure.proto.hasRegister i.a = true) (hb : a.closure.proto.hasRegister i.b = true) :
    Steps s function wanted fs a (a.unary i op) :=
  Steps.bind (.lift (keeps_read ha hb)) fun _ =>
    steps_store ha hr (Operation.keeps_arithmetic admits_active _ _ _ _ _)

theorem steps_compare (ha : a.Accepted) {test : Value → Value → Exec Bool}
    (htest : ∀ x y, Exec.Keeps (balancedFrom s) (Active s function wanted fs a.frame) (test x y))
    (hb : a.closure.proto.hasOperand i.b = true) (hc : a.closure.proto.hasOperand i.c = true) :
    Steps s function wanted fs a (a.compare i test) :=
  Steps.bind (.lift (keeps_operand ha hb)) fun x => Steps.bind (.lift (keeps_operand ha hc))
    fun y => Steps.bind (htest x y) fun _ => Steps.bind (.lift (keeps_skipIf _)) fun _ => steps_next

theorem steps_loadMethod (ha : a.Accepted) (hr : a.closure.proto.hasRegister (i.a + 1) = true)
    (hb : a.closure.proto.hasRegister i.b = true) (hc : a.closure.proto.hasOperand i.c = true) :
    Steps s function wanted fs a (a.loadMethod i) :=
  Steps.bind (.lift (keeps_read ha hb)) fun _ => Steps.bind (.lift (keeps_operand ha hc))
    fun _ => Steps.bind (.lift (keeps_write ha hr _)) fun _ =>
      steps_store ha (hasRegister_mono hr (Nat.le_succ _))
        (Operation.keeps_index admits_active _ _ _)

theorem steps_getIndex (ha : a.Accepted) {table : Routine Value} (origin : Origin)
    (htable : Keeps (Active s function wanted fs a.frame) table)
    (hr : a.closure.proto.hasRegister i.a = true) (hc : a.closure.proto.hasOperand i.c = true) :
    Steps s function wanted fs a (a.getIndex i table origin) :=
  Steps.bind (.lift htable) fun _ => Steps.bind (.lift (keeps_operand ha hc)) fun _ =>
    steps_store ha hr (Operation.keeps_index admits_active _ _ _)

theorem steps_setIndex (ha : a.Accepted) {table : Routine Value} (origin : Origin)
    (htable : Keeps (Active s function wanted fs a.frame) table)
    (hb : a.closure.proto.hasOperand i.b = true) (hc : a.closure.proto.hasOperand i.c = true) :
    Steps s function wanted fs a (a.setIndex i table origin) :=
  Steps.bind (.lift htable) fun _ => Steps.bind (.lift (keeps_operand ha hb)) fun _ =>
    Steps.bind (.lift (keeps_operand ha hc)) fun _ =>
      Steps.bind (Operation.keeps_setIndex admits_active robust_active _ _ _ _) fun _ => steps_next

theorem steps_concat (ha : a.Accepted) (hr : a.closure.proto.hasRegister i.a = true)
    (hle : i.b ≤ i.c) (hc : a.closure.proto.hasRegister i.c = true) :
    Steps s function wanted fs a (a.concat i) := by
  have hrange : Keeps (Active s function wanted fs a.frame)
      (Stack.readRange (a.slot i.b) (a.slot i.c + 1)) :=
    (Stack.triple_readRange fun m hm => ⟨by simp only [slot]; omega, slot_lt ha hc hm⟩).post
      fun _ _ hm => hm.1
  exact Steps.bind (.lift hrange) fun _ =>
    steps_store ha hr (Operation.keeps_concat admits_active _ _)

/-! ### Registers in a row -/

theorem keeps_clear (ha : a.Accepted) {r n : Nat}
    (hr : a.closure.proto.hasRegister (r + n) = true) :
    Keeps (Active s function wanted fs a.frame) (a.clear r n) := by
  refine Stack.keeps_clear robust_active.stack fun m hm => ?_
  have := slot_lt ha hr hm
  simp only [slot] at this ⊢
  omega

/-! ### Loops -/

theorem keeps_loop (ha : a.Accepted) {r : Nat}
    (hr : a.closure.proto.hasRegister (r + 3) = true) :
    Keeps (Active s function wanted fs a.frame) (a.loop r) :=
  (keeps_read ha (hasRegister_mono hr (by omega))).bind fun _ =>
    (keeps_read ha (hasRegister_mono hr (by omega))).bind fun _ =>
      (keeps_read ha (hasRegister_mono hr (by omega))).bind fun _ => Keeps.pure

theorem keeps_prepareLoop (ha : a.Accepted)
    (hr : a.closure.proto.hasRegister (i.a + 3) = true) :
    Keeps (Active s function wanted fs a.frame) (a.prepareLoop i) := by
  refine (keeps_loop ha hr).bind fun l => ?_
  split
  · exact Keeps.fail
  · exact (keeps_write ha (hasRegister_mono hr (by omega)) _).bind fun _ =>
      (keeps_write ha (hasRegister_mono hr (by omega)) _).bind fun _ =>
        (keeps_write ha (hasRegister_mono hr (by omega)) _).bind fun _ => keeps_jump _

theorem keeps_advanceLoop (ha : a.Accepted)
    (hr : a.closure.proto.hasRegister (i.a + 3) = true) :
    Keeps (Active s function wanted fs a.frame) (a.advanceLoop i) := by
  refine (keeps_loop ha hr).bind fun l => ?_
  split
  · exact Keeps.fail
  · exact Keeps.pure
  · exact (keeps_write ha (hasRegister_mono hr (by omega)) _).bind fun _ =>
      (keeps_write ha hr _).bind fun _ => keeps_jump _

theorem keeps_continueIteration (ha : a.Accepted)
    (hr : a.closure.proto.hasRegister (i.a + 1) = true) :
    Keeps (Active s function wanted fs a.frame) (a.continueIteration i) := by
  refine (keeps_read ha hr).bind fun v => ?_
  split
  · exact (keeps_write ha (hasRegister_mono hr (by omega)) v).bind fun _ => keeps_jump _
  · exact Keeps.pure

/-- **Iterators.** An iterator is called behind the registers that control the loop. -/
theorem steps_callIterator (ha : a.Accepted)
    (hr : a.closure.proto.hasRegister (i.a + 2) = true) :
    Steps s function wanted fs a (Exec.ofRoutine (a.callIterator i)) := by
  have hcopied : Keeps (fun m => Active s function wanted fs a.frame m ∧
      a.slot (i.a + 3) + 3 ≤ m.stack.size) (Stack.copy (a.slot i.a) (a.slot (i.a + 3)) 3 3) :=
    Stack.keeps_copy (robust_active.stack.and fun _ _ h hsize => Nat.le_trans h hsize)
      (fun m hm _ => by
        have := slot_lt ha hr hm.1
        simp only [slot] at this ⊢
        omega) fun m hm => hm.2
  refine Exec.Triple.lift (Triple.bind ((Stack.triple_reserve robust_active.stack _).spares
    fun _ hm => hm.failed) fun _ => Triple.bind (hcopied.spares fun _ hm => hm.1.failed) fun _ =>
    Triple.bind (Q := fun _ m => Active s function wanted fs a.frame m ∧
      m.top = a.slot (i.a + 3) + 3) (Triple.modify fun m hm => ⟨hm.1.setTop hm.2, rfl⟩) fun _ =>
    Triple.pure fun m hm => ?_)
  obtain ⟨hm, htop⟩ := hm
  have hfunction := hm.function_le
  have hbase := hm.innermost.function_lt
  refine ⟨hm.running, hm.steady, (hm.site (Nat.le_add_right _ _)).above, ?_, by omega⟩
  simp only [slot]
  omega

/-! ### Variable numbers of values -/

/-- There is room for the additional arguments that are loaded. -/
theorem triple_loadedCount (ha : a.Accepted)
    (hb : i.b = 0 ∨ i.a + i.b ≤ a.closure.proto.registers) :
    Triple (Active s function wanted fs a.frame) (a.loadedCount i)
      (fun n m => Active s function wanted fs a.frame m ∧ a.slot i.a + n ≤ m.stack.size)
      (Stop.Spares (Active s function wanted fs a.frame)) := by
  rw [loadedCount]
  split
  · exact Triple.bind (Stack.triple_reserve robust_active.stack _) fun _ =>
      Triple.bind (Q := fun _ m => Active s function wanted fs a.frame m ∧
        a.slot i.a + a.extraCount ≤ m.stack.size)
        (Triple.modify fun m hm => ⟨hm.1.setTop hm.2, hm.2⟩) fun _ => Triple.pure fun m hm => hm
  · next hne =>
    refine Triple.pure fun m hm => ⟨hm, ?_⟩
    have hle := registers_le ha hm
    have hb := hb.resolve_left hne
    simp only [slot] at hle ⊢
    omega

theorem keeps_vararg (ha : a.Accepted)
    (hb : i.b = 0 ∨ i.a + i.b ≤ a.closure.proto.registers) :
    Keeps (Active s function wanted fs a.frame) (a.vararg i) := by
  refine Triple.bind (triple_loadedCount ha hb) fun n => ?_
  refine ((Stack.keeps_copy (robust_active.stack.and fun _ _ h hsize => Nat.le_trans h hsize)
    (fun m hm hpos => ?_) fun m hm => hm.2).spares fun _ hm => hm.1).post fun _ _ hm => hm.1
  have hbase := hm.1.innermost.base_le
  have htop := hm.1.innermost.top_le
  simp only [extraCount] at hpos ⊢
  omega

theorem keeps_resetTop : Keeps (Active s function wanted fs a.frame) Stack.resetTop := by
  refine Keeps.modify fun m hm => ?_
  obtain ⟨pc, hframes⟩ := hm.frames
  have hframe : m.frame? = some { a.frame with pc } := by
    rw [Machine.frame?, hframes, Array.back?_push]
  rw [hframe]
  exact hm.setTop hm.innermost.top_le

/-- The items of a list lie on the stack, provided that they do not end before they begin. -/
theorem triple_itemCount (ha : a.Accepted)
    (hb : i.b = 0 ∨ a.closure.proto.hasRegister (i.a + i.b) = true) :
    Triple (fun m => Active s function wanted fs a.frame m ∧ (i.b = 0 → a.slot i.a < m.top))
      (a.itemCount i)
      (fun n m => Active s function wanted fs a.frame m ∧ a.slot i.a + 1 + n ≤ m.stack.size)
      (Stop.Spares (Active s function wanted fs a.frame)) := by
  rw [itemCount]
  split
  · next hzero =>
    refine ((Stack.triple_countFrom fun m hm => hm.2 hzero).spares fun _ hm => hm.1).post
      fun n m hm => ⟨hm.1.1, ?_⟩
    rw [← hm.2]
    exact hm.1.1.evolves.sound.top_le
  · next hne =>
    refine Triple.pure fun m hm => ⟨hm.1, ?_⟩
    have hlt := slot_lt ha (hb.resolve_left hne) hm.1
    simp only [slot] at hlt ⊢
    omega

theorem keeps_batch {I : Machine → Prop} (hI : Keeps I skip)
    (hc : i.c = 0 → ∃ extra, a.closure.proto.code[a.frame.pc]? = some extra) :
    Keeps I (a.batch i) := by
  rw [batch]
  split
  · next hzero =>
    obtain ⟨extra, hextra⟩ := hc hzero
    exact (triple_extraOperand hI hextra).post fun _ _ hm => hm.1
  · exact Keeps.pure

/-- **Items of a list.** If their number is not given, they must not end before they begin. -/
theorem triple_setList (ha : a.Accepted)
    (hb : i.b = 0 ∨ a.closure.proto.hasRegister (i.a + i.b) = true)
    (hc : i.c = 0 → ∃ extra, a.closure.proto.code[a.frame.pc]? = some extra) :
    Triple (fun m => Active s function wanted fs a.frame m ∧ (i.b = 0 → a.slot i.a < m.top))
      (a.setList i) (fun _ => Active s function wanted fs a.frame)
      (Stop.Spares (Active s function wanted fs a.frame)) := by
  refine Triple.bind (triple_itemCount ha hb) fun n => ?_
  let J : Machine → Prop := fun m => Active s function wanted fs a.frame m ∧
    a.slot i.a + 1 + n ≤ m.stack.size
  have hfail : ∀ m, J m → Active s function wanted fs a.frame m := fun _ hm => hm.1
  have hbatch : Keeps J (a.batch i) :=
    keeps_batch (Keeps.modify fun m hm => ⟨hm.1.setPc _, hm.2⟩) hc
  have htarget : Keeps J (Stack.read (a.slot i.a)) := Stack.keeps_read fun m hm => by
    have := hm.2
    omega
  have hitems : Triple J (Stack.readRange (a.slot i.a + 1) (a.slot i.a + 1 + n))
      (fun _ => Active s function wanted fs a.frame)
      (Stop.Spares (Active s function wanted fs a.frame)) :=
    ((Stack.triple_readRange fun m hm => ⟨Nat.le_add_right _ _, hm.2⟩).spares hfail).post
      fun _ _ hm => hm.1.1
  refine Triple.bind (hbatch.spares hfail) fun c => Triple.bind (htarget.spares hfail) fun v => ?_
  split
  · exact Triple.bind hitems fun items => Triple.bind (Keeps.modify fun m hm =>
      robust_active.undisturbed hm (Machine.undisturbed_heap rfl rfl)) fun _ => keeps_resetTop
  · exact Triple.fail hfail

/-! ### Cells and closures -/

theorem triple_captureAll (ha : a.Accepted) {us : List UpvalueInfo}
    (hus : ∀ u ∈ us, if u.inStack then a.closure.proto.hasRegister u.index = true
      else a.closure.proto.hasUpvalue u.index = true) :
    Triple (Active s function wanted fs a.frame) (a.captureAll us)
      (fun ids m => Active s function wanted fs a.frame m ∧ ids.length = us.length)
      (Stop.Spares (Active s function wanted fs a.frame)) := by
  induction us with
  | nil => exact Triple.pure fun m hm => ⟨hm, rfl⟩
  | cons u rest ih =>
    obtain ⟨hu, hrest⟩ := List.forall_mem_cons.1 hus
    have hcapture : Keeps (Active s function wanted fs a.frame) (a.capture u) := by
      rw [capture]
      split
      · next hstack =>
        refine Cell.keeps_capture robust_active (Nat.le_add_right _ _) fun m hm => ?_
        exact exists_owns ha (by simpa [hstack] using hu) hm
      · next hstack => exact keeps_cell ha (by simpa [hstack] using hu)
    exact Triple.bind hcapture fun id => Triple.bind (ih hrest) fun ids =>
      Triple.pure fun m hm => ⟨hm.1, congrArg Nat.succ hm.2⟩

/-- **Nested closures.** The prototype of a nested closure has been accepted with that of the
running one, and what it captures exists. -/
theorem keeps_closeOver (ha : a.Accepted) (hr : a.closure.proto.hasRegister i.a = true)
    (h : a.closure.proto.children[i.bx]?.any a.closure.proto.canCapture = true) :
    Keeps (Active s function wanted fs a.frame) (a.closeOver i) := by
  obtain ⟨child, hchild, hcapture⟩ := (Option.any_eq_true _ _).1 h
  have hverified : child.verify = .ok () :=
    Prototype.verify_of_mem_children ha.closure.verified (List.mem_of_getElem? hchild)
  rw [closeOver, hchild]
  refine Triple.bind (triple_captureAll ha fun u hu => ?_) fun cells =>
    Triple.assume fun hcells => ?_
  · have := List.all_eq_true.1 hcapture u hu
    split <;> simp_all
  · exact (Closure.keeps_create robust_active hverified hcells).bind fun id =>
      keeps_write ha hr _

end Activation

end LuaMachine
