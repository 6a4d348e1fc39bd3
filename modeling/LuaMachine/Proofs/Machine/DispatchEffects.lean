import LuaMachine.Proofs.Machine.InstructionEffects

/-!
# Effects of steps

The instructions that call or return change the frames of the call in progress.  With them, every
instruction of a closure that can run is executed as specified, unless it takes values that end
before they begin.

## Main statements

* `Activation.triple_ret`, `Activation.steps_call`, `Activation.steps_tailCall` : returns and calls.
* `Activation.triple_execute` : every instruction.
* `Dispatch.triple_step` : the step of the innermost frame.
-/

namespace LuaMachine

open Routine (Triple Keeps)

namespace Activation

variable {a : Activation} {s : Machine} {function : Nat} {wanted : Option Nat} {fs : Array Frame}
  {i : Instruction}

/-! ### Returns -/

/-- The results lie on the stack, provided that they do not end before they begin. -/
theorem triple_resultCount (ha : a.Accepted)
    (hb : i.b = 0 ∨ i.a + i.b ≤ a.closure.proto.registers) :
    Triple (fun m => Active s function wanted fs a.frame m ∧ (i.b = 0 → a.slot i.a ≤ m.top))
      (a.resultCount i)
      (fun n m => Active s function wanted fs a.frame m ∧ a.slot i.a + n ≤ m.stack.size)
      (Stop.Spares (Active s function wanted fs a.frame)) := by
  rw [resultCount]
  split
  · next hne =>
    refine Triple.pure fun m hm => ⟨hm.1, ?_⟩
    have hle := registers_le ha hm.1
    have hb := hb.resolve_left (by simpa using hne)
    simp only [slot] at hle ⊢
    omega
  · next hzero =>
    refine ((Stack.triple_countFrom fun m hm => hm.2 (by simpa using hzero)).spares
      fun _ hm => hm.1).post fun n m hm => ⟨hm.1.1, ?_⟩
    rw [← hm.2]
    exact hm.1.1.evolves.sound.top_le

/-- The cells of the frame are closed; its results stay where they are. -/
theorem triple_closeFrame {n : Nat} :
    Triple (fun m => Active s function wanted fs a.frame m ∧ n ≤ m.stack.size)
      (Cell.closeFrom a.frame.base)
      (fun _ m => (Active s function wanted fs a.frame m ∧ n ≤ m.stack.size) ∧
        ∀ slot id, (slot, id) ∈ m.openCells → slot < a.frame.base)
      (Stop.Spares (Failed s function)) := by
  have hrobust : Robust a.frame.base fun m =>
      Active s function wanted fs a.frame m ∧ n ≤ m.stack.size :=
    ⟨fun m hm => robust_active.sound m hm.1, fun m m' hm hq =>
      ⟨robust_active.quiet m m' hm.1 hq, Nat.le_trans hm.2 hq.stack⟩⟩
  exact (Cell.triple_closeFrom hrobust (Nat.le_refl _)).mono (fun _ hm => hm) (fun _ _ hm => hm)
    fun _ _ h => h.elim

/-- The frame ends, and the one below goes on. -/
theorem triple_finish {first n : Nat} :
    Triple (fun m => (Active s function wanted fs a.frame m ∧ first + n ≤ m.stack.size) ∧
        ∀ slot id, (slot, id) ∈ m.openCells → slot < a.frame.base)
      (do Call.afterReturn (← Call.leave first n))
      (Continues s function wanted) (Stop.Spares (Failed s function)) := by
  rintro m ⟨⟨hm, hsize⟩, hclosed⟩
  obtain ⟨pc, hframes⟩ := hm.frames
  have hnested := (hm.withPc pc).nested
  have hrefused : ∀ m', Call.Refused function m fs m' → Failed s function m' :=
    fun _ h => hnested.refused hm.below hm.evolves h
  have hleave : Triple (fun m' => Vacated function m fs { a.frame with pc } m.top m' ∧
      first + n ≤ m'.stack.size) (Call.leave first n)
      (fun f m' => Call.Left function m fs a.frame.function a.frame.wanted m' ∧
        f = { a.frame with pc }) (Stop.Spares (Failed s function)) :=
    Call.triple_leave.spares hrefused
  have hvacated : Vacated function m fs { a.frame with pc } m.top m :=
    { evolves := .refl hm.evolves.sound
      frames := hframes
      top := rfl
      vacant := fun e he howns => Nat.not_lt.2 howns.2.1 (hclosed e.1 e.2 he) }
  refine Triple.bind (R := Continues s function wanted) hleave (fun f => Triple.assume ?_) m
    ⟨hvacated, hsize⟩
  rintro rfl
  exact ((Call.triple_afterReturn hm.below).spares fun m' h => hrefused m' (.of_frames_eq h)).post
    fun _ _ h => hnested.continues hm.below hm.evolves h

/-- **Returns.** A return ends the innermost frame. -/
theorem triple_ret (ha : a.Accepted) (hb : i.b = 0 ∨ i.a + i.b ≤ a.closure.proto.registers) :
    Triple (fun m => Active s function wanted fs a.frame m ∧ (i.b = 0 → a.slot i.a ≤ m.top))
      (a.ret i) (Continues s function wanted) (Stop.Spares (Failed s function)) :=
  Triple.bind ((triple_resultCount ha hb).spares fun _ hm => hm.failed) fun n =>
    Triple.bind (triple_closeFrame (n := a.slot i.a + n)) fun _ => triple_finish

/-! ### Calls -/

/-- The end of the arguments is marked behind the called value. -/
theorem triple_setArguments {P : Machine → Prop} (ha : a.Accepted)
    (hb : i.b = 0 ∨ i.a + i.b ≤ a.closure.proto.registers) (hP : ∀ m, a.slot i.a < m.top → P m) :
    Triple (fun m => Active s function wanted fs a.frame m ∧ (i.b = 0 → P m)) (a.setArguments i)
      (fun _ m => Active s function wanted fs a.frame m ∧ P m) (Stop.Spares (Failed s function)) := by
  rw [setArguments]
  split
  · next hne =>
    have hne : i.b ≠ 0 := by simpa using hne
    refine Triple.modify fun m hm => ⟨hm.1.setTop ?_, hP _ ?_⟩
    · have hle := registers_le ha hm.1
      have hb := hb.resolve_left hne
      simp only [slot] at hle ⊢
      omega
    · exact Nat.lt_add_of_pos_right (Nat.pos_of_ne_zero hne)
  · next hzero => exact Triple.pure fun m hm => ⟨hm.1, hm.2 (by simpa using hzero)⟩

/-- A call that does not run short goes on in the frame of the called closure, or it has ended at
once. -/
theorem triple_enter (ha : a.Accepted) {r : Nat} (hr : a.closure.proto.hasRegister r = true)
    (wanted' : Option Nat) :
    Exec.Triple (balancedFrom s)
      (fun m => Active s function wanted fs a.frame m ∧ ¬m.ShortCall (a.slot r))
      (Call.enter (a.slot r) wanted' false) (Continues s function wanted)
      (Stop.Spares (Failed s function)) := by
  rintro m ⟨hm, hshort⟩
  have hbase : a.frame.base ≤ a.slot r := Nat.le_add_right _ _
  have hlevel : function ≤ a.slot r :=
    Nat.le_trans hm.function_le (Nat.le_trans (Nat.le_of_lt hm.innermost.function_lt) hbase)
  refine ((Call.triple_enter_of_not_shortCall hlevel (hm.site hbase) m
    ⟨⟨.refl hm.evolves.sound, rfl, rfl⟩, slot_lt ha hr hm, hshort⟩).earlier
      hm.evolves.covered).mono ?_ ?_
  · exact fun _ _ h => hm.continues hbase (slot_lt_top ha hr) h
  · exact fun _ _ hs => hs.mono fun _ h => hm.refused h

/-- **Calls.** A call instruction, unless it runs short. -/
theorem steps_call (ha : a.Accepted) (hr : a.closure.proto.hasRegister i.a = true)
    (hb : i.b = 0 ∨ i.a + i.b ≤ a.closure.proto.registers) :
    Exec.Triple (balancedFrom s)
      (fun m => Active s function wanted fs a.frame m ∧ (i.b = 0 → ¬m.ShortCall (a.slot i.a)))
      (a.call i) (Continues s function wanted) (Stop.Spares (Failed s function)) :=
  Exec.Triple.bind (Exec.Triple.lift
    (triple_setArguments ha hb fun _ => Machine.not_shortCall_of_lt)) fun _ => triple_enter ha hr _

/-- In search of a function, values are replaced by their handlers. -/
theorem triple_resolve (ha : a.Accepted) {r : Nat} (hr : a.closure.proto.hasRegister r = true) :
    Triple (fun m => Active s function wanted fs a.frame m ∧ ¬m.ShortTailCall (a.slot r))
      (Call.resolve (a.slot r))
      (fun _ m => Active s function wanted fs a.frame m ∧ ¬m.ShortTailCall (a.slot r))
      (Stop.Spares (Failed s function)) := by
  rintro m ⟨hm, hshort⟩
  have hactive : ∀ m', (m.Evolves a.frame.base m' ∧ m'.frames = m.frames) →
      Active s function wanted fs a.frame m' := fun _ h => hm.of_evolves h.1 h.2
  exact ((Call.triple_resolve_of_not_shortTailCall hm.evolves.sound (slot_lt ha hr hm) hshort).spares
    fun m' h => (hactive m' h).failed).post (fun _ m' h => ⟨hactive m' h.1, h.2.2⟩) m rfl

/-- The innermost frame gives way to that of a closure, unless the call runs short. -/
theorem triple_replace (id : ClosureId) {r : Nat} :
    Triple (fun m => (Active s function wanted fs a.frame m ∧ ¬m.ShortTailCall (a.slot r)) ∧
        m.stack[a.slot r]? = some (.closure id))
      (Call.replace a.frame id (a.slot r)) (fun _ => Running s function wanted)
      (Stop.Spares (Failed s function)) := by
  rintro m ⟨⟨hm, hshort⟩, hread⟩
  obtain ⟨pc, hframes⟩ := hm.frames
  have hnested := (hm.withPc pc).nested
  have hroom : ¬(m.top < a.slot r ∨
      m.top = a.slot r ∧ m.frames.size ≤ m.limits.callDepth) := fun h => by
    refine hshort ⟨_, hread, (if_pos ?_).mpr h⟩
    rfl
  rw [hframes, Array.size_push] at hroom
  have hfunction := hm.innermost.function_lt
  have hslot : a.frame.base ≤ a.slot r := Nat.le_add_right _ _
  have hreplace : Triple (Held function m (fs.push { a.frame with pc }) m.top)
      (Call.replace { a.frame with pc } id (a.slot r))
      (fun _ m' => ∃ f, Call.Pushed function m fs id a.frame.function a.frame.wanted
        a.frame.isFresh f m') (Stop.Spares (Call.Refused function m fs)) :=
    Call.triple_replace id (Nat.le_trans hm.function_le (Nat.le_of_lt hfunction))
      (Nat.le_trans (Nat.le_of_lt hfunction) hslot) (by omega) (by omega)
  exact (hreplace.spares fun _ h => hnested.refused hm.below hm.evolves h).post
    (fun _ _ ⟨f, hf⟩ => hnested.continues hm.below hm.evolves (.pushed hf)) m
    ⟨.refl hm.evolves.sound, hframes, rfl⟩

/-- **Tail calls.** A tail call, unless it runs short. -/
theorem steps_tailCall (ha : a.Accepted) (hr : a.closure.proto.hasRegister i.a = true)
    (hb : i.b = 0 ∨ i.a + i.b ≤ a.closure.proto.registers) :
    Exec.Triple (balancedFrom s)
      (fun m => Active s function wanted fs a.frame m ∧ (i.b = 0 → ¬m.ShortTailCall (a.slot i.a)))
      (a.tailCall i) (Continues s function wanted) (Stop.Spares (Failed s function)) := by
  let I : Machine → Prop := fun m =>
    Active s function wanted fs a.frame m ∧ ¬m.ShortTailCall (a.slot i.a)
  have hread : Triple I (Stack.read (a.slot i.a))
      (fun v m => I m ∧ m.stack[a.slot i.a]? = some v) (Stop.Spares I) :=
    Stack.triple_read fun m hm => slot_lt ha hr hm.1
  refine Exec.Triple.bind (Exec.Triple.lift
    (triple_setArguments ha hb fun _ => Machine.not_shortTailCall_of_lt)) fun _ =>
    Exec.Triple.bind (Exec.Triple.lift (triple_resolve ha hr)) fun _ =>
    Exec.Triple.bind (Exec.Triple.lift (hread.spares fun _ hm => hm.1.failed)) fun v => ?_
  split
  · next id =>
    exact Exec.Triple.bind (Exec.Triple.lift (triple_replace id)) fun _ =>
      Exec.Triple.pure fun _ hm => hm
  · next hclosure =>
    exact (triple_enter ha hr none).pre fun m hm => ⟨hm.1.1,
      Machine.not_shortCall_of_not_shortTailCall hm.2 (Value.closure?_eq_none_of_ne hclosure)
        hm.1.2⟩

/-! ### All instructions -/

/-- Most instructions do not take a variable number of values. -/
theorem Steps.supplied {op : Opcode} {x : Exec Control} (h : Steps s function wanted fs a x) :
    Exec.Triple (balancedFrom s) (fun m => Active s function wanted fs a.frame m ∧ ¬a.Short i op m) x
      (Continues s function wanted) (Stop.Spares (Failed s function)) :=
  h.pre fun _ hm => hm.1

/-- **Instructions.** An instruction whose operands have been accepted is executed without a fault,
unless it takes values that end before they begin. -/
theorem triple_execute (ha : a.Accepted) {pc : Nat} (hpc : a.frame.pc = pc + 1) {op : Opcode}
    (hfit : a.closure.proto.operandsFit pc op i = true) :
    Exec.Triple (balancedFrom s) (fun m => Active s function wanted fs a.frame m ∧ ¬a.Short i op m)
      (a.execute op i) (Continues s function wanted) (Stop.Spares (Failed s function)) := by
  cases op <;> simp only [Prototype.operandsFit, Bool.and_eq_true, Bool.or_eq_true, beq_iff_eq,
    bne_iff_ne, decide_eq_true_eq] at hfit
  case move =>
    exact (steps_simply ((keeps_read ha hfit.2).bind fun v => keeps_write ha hfit.1 v)).supplied
  case loadConstant =>
    exact (steps_simply ((keeps_constant hfit.2).bind fun v => keeps_write ha hfit.1 v)).supplied
  case loadConstantExtra =>
    obtain ⟨extra, hextra, hconstant⟩ := (Option.any_eq_true _ _).1 hfit.2
    have hcode : a.closure.proto.code[a.frame.pc]? = some extra :=
      hpc ▸ (Prototype.extraAfter?_eq_some_iff.1 hextra).1
    refine (steps_simply (Triple.bind (triple_extraOperand keeps_skip hcode) fun k =>
      Triple.assume ?_)).supplied
    rintro rfl
    exact (keeps_constant hconstant).bind fun v => keeps_write ha hfit.1 v
  case loadBoolean =>
    exact (steps_simply ((keeps_write ha hfit _).bind fun _ => keeps_skipIf _)).supplied
  case loadNil => exact (steps_simply (keeps_clear ha hfit)).supplied
  case getUpvalue =>
    exact (steps_simply ((keeps_upvalue ha hfit.2).bind fun v => keeps_write ha hfit.1 v)).supplied
  case setUpvalue =>
    exact (steps_simply ((keeps_read ha hfit.1).bind fun v => (keeps_cell ha hfit.2).bind fun id =>
      Cell.keeps_write robust_active id v)).supplied
  case getTableUpvalue =>
    exact (steps_getIndex ha _ (keeps_upvalue ha hfit.1.2) hfit.1.1 hfit.2).supplied
  case getTable =>
    exact (steps_getIndex ha _ (keeps_read ha hfit.1.2) hfit.1.1 hfit.2).supplied
  case setTableUpvalue =>
    exact (steps_setIndex ha _ (keeps_upvalue ha hfit.1.1) hfit.1.2 hfit.2).supplied
  case setTable =>
    exact (steps_setIndex ha _ (keeps_read ha hfit.1.1) hfit.1.2 hfit.2).supplied
  case newTable =>
    exact (steps_store ha hfit ((Request.keeps_perform admits_active robust_active _).bind
      fun _ => Exec.Keeps.pure)).supplied
  case self => exact (steps_loadMethod ha hfit.1.1 hfit.1.2 hfit.2).supplied
  case add | sub | mul | mod | pow | div | floorDiv | bitAnd | bitOr | bitXor | shiftLeft
      | shiftRight =>
    exact (steps_binary ha _ hfit.1.1 hfit.1.2 hfit.2).supplied
  case negate | bitNot => exact (steps_unary ha _ hfit.1 hfit.2).supplied
  case not =>
    exact (steps_simply ((keeps_read ha hfit.2).bind fun _ => keeps_write ha hfit.1 _)).supplied
  case length =>
    exact (Steps.bind (.lift (keeps_read ha hfit.2)) fun _ =>
      steps_store ha hfit.1 (Operation.keeps_length admits_active _ _)).supplied
  case concat => exact (steps_concat ha hfit.1.1 hfit.1.2 hfit.2).supplied
  case jump =>
    refine (steps_simply ?_).supplied
    dsimp only
    split
    · exact (Cell.keeps_closeFrom robust_active (Nat.le_add_right _ _)).bind fun _ => keeps_jump _
    · exact keeps_jump _
  case equal =>
    exact (steps_compare ha (Operation.keeps_equal admits_active) hfit.1 hfit.2).supplied
  case lessThan =>
    exact (steps_compare ha (Operation.keeps_less admits_active) hfit.1 hfit.2).supplied
  case lessEqual =>
    exact (steps_compare ha (Operation.keeps_lessEqual admits_active) hfit.1 hfit.2).supplied
  case test => exact (steps_simply ((keeps_read ha hfit).bind fun _ => keeps_skipIf _)).supplied
  case testSet =>
    refine (steps_simply ((keeps_read ha hfit.2).bind fun v => ?_)).supplied
    split
    · exact keeps_write ha hfit.1 v
    · exact keeps_skip
  case call =>
    exact (steps_call ha hfit.1 hfit.2).pre fun _ hm => ⟨hm.1, fun hb h => hm.2 ⟨hb, h⟩⟩
  case tailCall =>
    exact (steps_tailCall ha hfit.1 hfit.2).pre fun _ hm => ⟨hm.1, fun hb h => hm.2 ⟨hb, h⟩⟩
  case ret =>
    exact (Exec.Triple.lift (triple_ret ha hfit.2)).pre
      fun _ hm => ⟨hm.1, fun hb => Nat.le_of_not_lt fun h => hm.2 ⟨hb, h⟩⟩
  case forLoop => exact (steps_simply (keeps_advanceLoop ha hfit)).supplied
  case forPrepare => exact (steps_simply (keeps_prepareLoop ha hfit)).supplied
  case iteratorCall =>
    refine (steps_callIterator ha ?_).supplied
    simp only [Prototype.hasRegister, decide_eq_true_eq]
    omega
  case iteratorLoop => exact (steps_simply (keeps_continueIteration ha hfit)).supplied
  case setList =>
    have hextra : i.c = 0 → ∃ extra, a.closure.proto.code[a.frame.pc]? = some extra := fun hc => by
      obtain ⟨extra, hextra⟩ := Option.isSome_iff_exists.1 (hfit.2.resolve_left (absurd hc))
      exact ⟨extra, hpc ▸ (Prototype.extraAfter?_eq_some_iff.1 hextra).1⟩
    have hset : Routine.Triple
        (fun m => Active s function wanted fs a.frame m ∧ ¬a.Short i .setList m) (a.setList i)
        (fun _ => Active s function wanted fs a.frame) (Stop.Spares (Failed s function)) :=
      ((triple_setList ha hfit.1 hextra).spares fun _ hm => hm.failed).pre
        fun _ hm => ⟨hm.1, fun hb => Nat.lt_of_not_le fun h => hm.2 ⟨hb, h⟩⟩
    exact Exec.Triple.bind (Exec.Triple.lift hset) fun _ => steps_next
  case closure => exact (steps_simply (keeps_closeOver ha hfit.1 hfit.2)).supplied
  case vararg => exact (steps_simply (keeps_vararg ha hfit.2)).supplied
  case extraArgument => exact (steps_fail _).supplied

end Activation

/-! ### Steps -/

/-- The operands of an instruction have been accepted if its closure can run. -/
theorem Closure.Accepted.exists_opcode {c : Closure} (h : c.Accepted) {pc : Nat} {i : Instruction}
    (hi : c.proto.code[pc]? = some i) :
    ∃ op, i.opcode? = some op ∧ c.proto.operandsFit pc op i = true := by
  have hown := Prototype.verify_eq_ok_iff.1 h.verified c.proto (.self _)
  obtain ⟨op, hop, hfit, -⟩ :=
    Prototype.verifyInstruction_eq_ok_iff.1 ((Prototype.verifyOwn_eq_ok_iff.1 hown).2 pc i hi)
  exact ⟨op, hop, hfit⟩

namespace Dispatch

variable {s : Machine} {function : Nat} {wanted : Option Nat}

/-- A closure that has instructions is on the heap and can run. -/
theorem exists_accepted {m : Machine} {id : ClosureId} {pc : Nat} {i : Instruction} (hm : m.Sound)
    (hi : (m.heap.closure id).proto.code[pc]? = some i) :
    (∃ c, m.heap.closures[id.index]? = some c) ∧ (m.heap.closure id).Accepted := by
  cases hc : m.heap.closures[id.index]? with
  | none =>
    simp only [Heap.closure, hc] at hi
    cases hi
  | some c =>
    refine ⟨⟨c, rfl⟩, hm.closures _ ?_⟩
    simp only [Heap.closure, hc, Option.getD_some]
    exact Array.mem_of_getElem? hc

/-- An instruction of a call in progress has been accepted, and while it is executed its frame is
active. -/
theorem exists_active {m : Machine} {f : Frame} {c : Closure} {i : Instruction}
    (h : Running s function wanted m) (hf : m.frame? = some f) (hc : m.closureOf? f = some c)
    (hi : c.proto.code[f.pc]? = some i) :
    ∃ op fs, i.opcode? = some op ∧ c.proto.operandsFit f.pc op i = true ∧
      (Activation.mk { f with pc := f.pc + 1 } c).Accepted ∧ m.frames = fs.push f ∧
      Active s function wanted fs { f with pc := f.pc + 1 } { m with
        frames := m.frames.modify (m.frames.size - 1) fun f => { f with pc := f.pc + 1 } } := by
  obtain ⟨fs, g, hnested, hframes, hstable, hfits, hevolves⟩ := h
  obtain rfl : g = f := by simpa [Machine.frame?, hframes] using hf
  obtain ⟨id, hid⟩ := Option.isSome_iff_exists.1 hnested.isClosure
  obtain rfl : m.heap.closure id = c := by simpa [Machine.closureOf?, hid] using hc
  -- Only now is it known that the closure is on the heap.
  obtain ⟨hexists, haccepted⟩ := exists_accepted hevolves.sound hi
  obtain ⟨op, hop, hfit⟩ := haccepted.exists_opcode hi
  have hstable' : g.Stable m :=
    { toFits := hfits
      exists_closure := fun id' hid' => Option.some.inj (hid.symm.trans hid') ▸ hexists }
  have hm : Active s function wanted fs g m :=
    { nested := hnested
      frames := ⟨g.pc, hframes⟩
      stable := fun f hf => by
        rcases Array.mem_push.1 hf with hf | rfl
        · exact hstable f hf
        · exact hstable'
      evolves := hevolves }
  exact ⟨op, fs, hop, hfit, ⟨haccepted, hfits.registers id hid⟩, hframes,
    (hm.setPc fun f => f.pc + 1).withPc (g.pc + 1)⟩

/-- An instruction that can be paid for is executed, and unless the machine is starved it does not
run short. -/
theorem exists_execute {m : Machine} {f : Frame} {c : Closure} {i : Instruction}
    (h : Running s function wanted m) (hf : m.frame? = some f) (hc : m.closureOf? f = some c)
    (hi : c.proto.code[f.pc]? = some i) (hbudget : m.budget ≠ some 0) :
    ∃ op fs m', i.opcode? = some op ∧ c.proto.operandsFit f.pc op i = true ∧
      (Activation.mk { f with pc := f.pc + 1 } c).Accepted ∧ m.frames = fs.push f ∧
      m'.frames = fs.push { f with pc := f.pc + 1 } ∧
      Active s function wanted fs { f with pc := f.pc + 1 } m' ∧
      step m = (Activation.mk { f with pc := f.pc + 1 } c).execute op i m' ∧
      ((Activation.mk { f with pc := f.pc + 1 } c).Short i op m' → m.Starved) := by
  obtain ⟨op, fs, hop, hfit, ha, hframes, hactive⟩ := exists_active h hf hc hi
  have hstep := step_eq hf hc hi hbudget hop
  refine ⟨op, fs, _, hop, hfit, ha, hframes, ?_, hactive.setBudget _, hstep, fun hshort =>
    ⟨f, c, i, op, hf, hc, hi, hop, hbudget, hshort.congr (by simp)⟩⟩
  simp only [hframes, Array.size_push, Nat.add_sub_cancel]
  exact modify_push_last _ _ _

/-- **Steps.** The innermost frame of a call in progress goes on with the next instruction, unless
the machine is starved. -/
theorem triple_step :
    Exec.Triple (balancedFrom s) (fun m => Running s function wanted m ∧ ¬m.Starved) step
      (Continues s function wanted) (Stop.Spares (Failed s function)) := by
  rintro m ⟨hrunning, hstarved⟩
  obtain ⟨fs, f, hnested, hframes, -⟩ := id hrunning
  obtain ⟨id, hid⟩ := Option.isSome_iff_exists.1 hnested.isClosure
  have hf : m.frame? = some f := by rw [Machine.frame?, hframes, Array.back?_push]
  have hc : m.closureOf? f = some (m.heap.closure id) := by rw [Machine.closureOf?, hid]; rfl
  cases hi : (m.heap.closure id).proto.code[f.pc]? with
  | none =>
    rw [step_of_endOfCode hf hc hi]
    exact hrunning.failed
  | some i =>
    by_cases hbudget : m.budget = some 0
    · obtain ⟨_, _, -, -, -, -, hactive⟩ := exists_active hrunning hf hc hi
      rw [step_of_exhausted hf hc hi hbudget]
      exact hactive.failed
    · obtain ⟨op, fs, m', -, hfit, ha, -, -, hactive, hstep, hshort⟩ :=
        exists_execute hrunning hf hc hi hbudget
      rw [hstep]
      exact Activation.triple_execute ha rfl hfit m' ⟨hactive, fun h => hstarved (hshort h)⟩

end Dispatch

end LuaMachine
