import LuaMachine.Proofs.Machine.AlikeCalls
import LuaMachine.Proofs.Machine.DispatchEffects

/-!
# Instructions in step

An instruction reads registers of its own frame, all of which the states agree on, and it writes
registers of its own frame.  Other slots are concerned only if a function is called, or if a
variable is assigned that another function declared.

## Main definitions

* `Activation.Watched` : the running frame belongs to the call that is watched.
* `Machine.Assigns` : the next instruction assigns to a shared variable.

## Main statements

* `Activation.parallel_binary`, `Activation.parallel_setList` and others : instructions that do not
  call a value on their own account.
* `Activation.inStep_call`, `Activation.inStep_tailCall`, `Activation.inStep_ret` : calls and
  returns.
* `Activation.inStep_execute` : every instruction.
* `Dispatch.inStep_step` : the step of the innermost frame.
-/

namespace LuaMachine

open Machine (Alike Akin)

variable {V : Vantage} {n k : Nat}

namespace Stack

/-- Copying does not depend on the first free slot, if all slots exist. -/
theorem setTop_copy_comm {source target available count top : Nat} {m : Machine}
    (hsource : 0 < available → source + min available count ≤ m.stack.size)
    (htarget : target + count ≤ m.stack.size) :
    (do setTop top; copy source target available count) m =
      (do copy source target available count; setTop top) m := by
  change copy source target available count { m with top } = _
  induction count generalizing source target available m with
  | zero => rfl
  | succ count ih =>
    have hwrite : ∀ (m : Machine) v, target < m.stack.size →
        write target v m = .ok () { m with stack := m.stack.setIfInBounds target v } :=
      fun m v h => by simp only [write, if_pos h]
    have hrest : ∀ v, (do write target v; copy (source + 1) (target + 1) (available - 1) count)
        { m with top } = (do
          write target v
          copy (source + 1) (target + 1) (available - 1) count
          setTop top) m := fun v => by
      rw [Routine.bind_of_ok (hwrite m v (by omega)),
        Routine.bind_of_ok (hwrite { m with top } v (by simp only; omega))]
      exact ih (m := { m with stack := m.stack.setIfInBounds target v })
        (by simp only [Array.size_setIfInBounds]; omega)
        (by simp only [Array.size_setIfInBounds]; omega)
    rw [copy]
    split
    · next h =>
      have hlt : source < m.stack.size := by
        have := hsource h
        omega
      have hread : ∀ m' : Machine, m'.stack = m.stack → read source m' = .ok m.stack[source] m' :=
        fun m' hstack => by
          simp only [read, hstack]
          rw [Array.getElem?_eq_getElem hlt]
      simp only [bind_assoc]
      rw [Routine.bind_of_ok (hread m rfl), Routine.bind_of_ok (hread { m with top } rfl)]
      exact hrest _
    · simp only [bind_assoc, pure_bind]
      exact hrest _

end Stack

namespace Activation

open Routine (InStep Parallel)

/-- The frame of the activation is the innermost one and belongs to the call that is watched; the
states agree on its slots. -/
structure Watched (V : Vantage) (n k : Nat) (a : Activation) : Prop where
  accepted : a.Accepted
  depth_lt : V.depth < k
  admits : V.Admits (k - 1) a.frame.function a.frame.wanted a.frame.isFresh
  function_lt : a.frame.function < a.frame.base
  base_le : a.frame.base ≤ a.frame.top
  top_le : a.frame.top ≤ n

variable {a : Activation} {i : Instruction}

/-! ### Registers and other operands -/

namespace Watched

theorem mono {n' : Nat} (h : a.Watched V n k) (hn : n ≤ n') : a.Watched V n' k :=
  { h with top_le := Nat.le_trans h.top_le hn }

theorem level_le (h : a.Watched V n k) (r : Nat) : V.level ≤ a.slot r := by
  have := h.admits.level_le (by have := h.depth_lt; omega)
  have := h.function_lt
  simp only [slot]
  omega

theorem slot_lt (h : a.Watched V n k) {r : Nat} (hr : a.closure.proto.hasRegister r = true) :
    a.slot r < n :=
  Nat.lt_of_lt_of_le (slot_lt_top h.accepted hr) h.top_le

/-- The end of a row of registers. -/
theorem slot_le (h : a.Watched V n k) {r : Nat} (hr : r ≤ a.closure.proto.registers) :
    a.slot r ≤ n := by
  have := h.accepted.top_eq
  have := h.top_le
  simp only [slot]
  omega

theorem pos (h : a.Watched V n k) : 0 < n := by
  have := h.function_lt
  have := h.base_le
  have := h.top_le
  omega

end Watched

theorem parallel_read (ha : a.Watched V n k) {r : Nat}
    (hr : a.closure.proto.hasRegister r = true) : Parallel V n k (a.read r) :=
  Stack.parallel_read (ha.slot_lt hr)

theorem parallel_write (ha : a.Watched V n k) (r : Nat) (v : Value) :
    Parallel V n k (a.write r v) :=
  Stack.parallel_write (ha.level_le r) v

theorem parallel_constant (c : Nat) : Parallel V n k (a.constant c) := by
  rw [constant]
  split
  · exact Parallel.pure
  · exact Parallel.fault

theorem parallel_operand (ha : a.Watched V n k) {field : Nat}
    (h : a.closure.proto.hasOperand field = true) : Parallel V n k (a.operand field) := by
  rw [Prototype.hasOperand] at h
  rw [operand]
  cases hfield : Operand.ofField field with
  | register r => exact parallel_read ha (by simpa [hfield] using h)
  | constant c => exact parallel_constant c

theorem parallel_cell (u : Nat) : Parallel V n k (a.cell u) := by
  rw [cell]
  split
  · exact Parallel.pure
  · exact Parallel.fault

theorem parallel_upvalue (ha : a.Watched V n k) (u : Nat) : Parallel V n k (a.upvalue u) :=
  (parallel_cell u).bind fun id => Cell.parallel_read ha.pos id

/-! ### The selection of the next instruction -/

theorem parallel_select (pc : Frame → Nat) :
    Parallel V n k (modifyFrame fun f => { f with pc := pc f }) := by
  refine Parallel.modify fun m m' h => ?_
  obtain ⟨stack, rfl⟩ := h.exists_stack
  exact h.select _ pc

theorem parallel_jump (offset : Int) : Parallel V n k (jump offset) := parallel_select _

theorem parallel_skip : Parallel V n k skip := parallel_select _

theorem parallel_skipIf (condition : Bool) : Parallel V n k (skipIf condition) := by
  rw [skipIf]
  split
  · exact parallel_skip
  · exact Parallel.pure

theorem parallel_extraOperand : Parallel V n k a.extraOperand := by
  rw [extraOperand]
  split
  · exact parallel_skip.bind fun _ => Parallel.pure
  · exact Parallel.fault

/-! ### Instructions that change registers -/

theorem parallel_simply {x : Routine Unit} (h : Parallel V n k x) :
    Exec.Parallel V n k (simply x) :=
  (Exec.Parallel.lift h).bind fun _ => Exec.Parallel.pure

theorem parallel_store (ha : a.Watched V n k) {r : Nat} {x : Exec Value}
    (h : Exec.Parallel V n k x) : Exec.Parallel V n k (a.store r x) :=
  h.bind fun v => (Exec.Parallel.lift (parallel_write ha r v)).bind fun _ => Exec.Parallel.pure

theorem parallel_binary (ha : a.Watched V n k) (op : Operator)
    (hb : a.closure.proto.hasOperand i.b = true) (hc : a.closure.proto.hasOperand i.c = true) :
    Exec.Parallel V n k (a.binary i op) :=
  (Exec.Parallel.lift (parallel_operand ha hb)).bind fun _ =>
    (Exec.Parallel.lift (parallel_operand ha hc)).bind fun _ =>
      parallel_store ha (Operation.parallel_arithmetic ha.depth_lt _ _ _ _ _)

theorem parallel_unary (ha : a.Watched V n k) (op : Operator)
    (hb : a.closure.proto.hasRegister i.b = true) : Exec.Parallel V n k (a.unary i op) :=
  (Exec.Parallel.lift (parallel_read ha hb)).bind fun _ =>
    parallel_store ha (Operation.parallel_arithmetic ha.depth_lt _ _ _ _ _)

theorem parallel_compare (ha : a.Watched V n k) {test : Value → Value → Exec Bool}
    (htest : ∀ x y, Exec.Parallel V n k (test x y)) (hb : a.closure.proto.hasOperand i.b = true)
    (hc : a.closure.proto.hasOperand i.c = true) : Exec.Parallel V n k (a.compare i test) :=
  (Exec.Parallel.lift (parallel_operand ha hb)).bind fun x =>
    (Exec.Parallel.lift (parallel_operand ha hc)).bind fun y => (htest x y).bind fun _ =>
      (Exec.Parallel.lift (parallel_skipIf _)).bind fun _ => Exec.Parallel.pure

theorem parallel_loadMethod (ha : a.Watched V n k) (hb : a.closure.proto.hasRegister i.b = true)
    (hc : a.closure.proto.hasOperand i.c = true) : Exec.Parallel V n k (a.loadMethod i) :=
  (Exec.Parallel.lift (parallel_read ha hb)).bind fun _ =>
    (Exec.Parallel.lift (parallel_operand ha hc)).bind fun _ =>
      (Exec.Parallel.lift (parallel_write ha _ _)).bind fun _ =>
        parallel_store ha (Operation.parallel_index ha.depth_lt _ _ _)

theorem parallel_getIndex (ha : a.Watched V n k) {table : Routine Value} (origin : Origin)
    (htable : Parallel V n k table) (hc : a.closure.proto.hasOperand i.c = true) :
    Exec.Parallel V n k (a.getIndex i table origin) :=
  (Exec.Parallel.lift htable).bind fun _ =>
    (Exec.Parallel.lift (parallel_operand ha hc)).bind fun _ =>
      parallel_store ha (Operation.parallel_index ha.depth_lt _ _ _)

theorem parallel_setIndex (ha : a.Watched V n k) {table : Routine Value} (origin : Origin)
    (htable : Parallel V n k table) (hb : a.closure.proto.hasOperand i.b = true)
    (hc : a.closure.proto.hasOperand i.c = true) :
    Exec.Parallel V n k (a.setIndex i table origin) :=
  (Exec.Parallel.lift htable).bind fun _ =>
    (Exec.Parallel.lift (parallel_operand ha hb)).bind fun _ =>
      (Exec.Parallel.lift (parallel_operand ha hc)).bind fun _ =>
        (Operation.parallel_setIndex ha.depth_lt _ _ _ _).bind fun _ => Exec.Parallel.pure

theorem parallel_concat (ha : a.Watched V n k) (hc : a.closure.proto.hasRegister i.c = true) :
    Exec.Parallel V n k (a.concat i) :=
  (Exec.Parallel.lift (Stack.parallel_readRange (ha.slot_lt hc))).bind fun _ =>
    parallel_store ha (Operation.parallel_concat ha.depth_lt _ _)

theorem parallel_clear (ha : a.Watched V n k) {r c : Nat}
    (hr : a.closure.proto.hasRegister (r + c) = true) : Parallel V n k (a.clear r c) :=
  (Stack.inStep_clear (ha.level_le r)
    (Nat.le_of_lt (ha.slot_lt (hasRegister_mono hr (Nat.le_add_right _ _)))) _).post
      fun _ _ _ h => h.mono (Nat.le_max_left _ _)

/-! ### Loops -/

theorem parallel_loop (ha : a.Watched V n k) {r : Nat}
    (hr : a.closure.proto.hasRegister (r + 3) = true) : Parallel V n k (a.loop r) :=
  (parallel_read ha (hasRegister_mono hr (by omega))).bind fun _ =>
    (parallel_read ha (hasRegister_mono hr (by omega))).bind fun _ =>
      (parallel_read ha (hasRegister_mono hr (by omega))).bind fun _ => Parallel.pure

theorem parallel_prepareLoop (ha : a.Watched V n k)
    (hr : a.closure.proto.hasRegister (i.a + 3) = true) : Parallel V n k (a.prepareLoop i) := by
  refine (parallel_loop ha hr).bind fun l => ?_
  split
  · exact Parallel.fail
  · exact (parallel_write ha _ _).bind fun _ => (parallel_write ha _ _).bind fun _ =>
      (parallel_write ha _ _).bind fun _ => parallel_jump _

theorem parallel_advanceLoop (ha : a.Watched V n k)
    (hr : a.closure.proto.hasRegister (i.a + 3) = true) : Parallel V n k (a.advanceLoop i) := by
  refine (parallel_loop ha hr).bind fun l => ?_
  split
  · exact Parallel.fail
  · exact Parallel.pure
  · exact (parallel_write ha _ _).bind fun _ => (parallel_write ha _ _).bind fun _ =>
      parallel_jump _

theorem parallel_continueIteration (ha : a.Watched V n k)
    (hr : a.closure.proto.hasRegister (i.a + 1) = true) :
    Parallel V n k (a.continueIteration i) := by
  refine (parallel_read ha hr).bind fun v => ?_
  split
  · exact (parallel_write ha _ _).bind fun _ => parallel_jump _
  · exact Parallel.pure

/-- **Iterators.** An iterator and its arguments are copied behind the registers that control the
loop. -/
theorem parallel_callIterator (ha : a.Watched V n k)
    (hr : a.closure.proto.hasRegister (i.a + 2) = true) : Parallel V n k (a.callIterator i) := by
  have hslot := ha.slot_lt hr
  refine (Stack.parallel_reserve _).bind fun _ =>
    InStep.bind (Stack.inStep_copy (ha.level_le _) ?_ ?_) fun _ =>
      InStep.bind ((Stack.parallel_setTop ?_).mono (fun _ _ h => h)
        (fun _ _ _ h => h.mono (Nat.le_max_left _ _)) fun _ _ h => h.mono (Nat.le_max_left _ _))
        fun _ => Parallel.pure
  · simp only [slot] at hslot ⊢
    omega
  · simp only [slot] at hslot ⊢
    omega
  · omega

/-! ### Variable numbers of values -/

/-- **Additional arguments.** They are loaded from below the registers. -/
theorem parallel_vararg (ha : a.Watched V n k) (hr : a.closure.proto.hasRegister i.a = true) :
    Parallel V n k (a.vararg i) := by
  have hbase := ha.base_le
  have htop := ha.top_le
  have hslot := ha.slot_lt hr
  have hfunction := ha.function_lt
  have hextra : a.extraCount ≤ a.frame.base := by
    simp only [extraCount]
    omega
  have hcopy : ∀ count, InStep (Alike V n k)
      (Stack.copy (a.frame.base - a.extraCount) (a.slot i.a) a.extraCount count)
      (fun _ => Alike V (max n (a.slot i.a + count)) k) (Alike V n k) := fun count =>
    Stack.inStep_copy (ha.level_le _) (by omega) (by omega)
  by_cases hzero : i.b = 0
  · simp only [vararg, loadedCount, if_pos hzero, bind_assoc, pure_bind]
    -- Copying fills the slots up to the new end, so that it may as well come first.
    intro m m' h
    have hreserve := Stack.parallel_reserve (a.slot i.a + a.extraCount) m m' h
    have hreserved := Stack.triple_reserve (fun _ _ _ _ => trivial : StackRobust fun _ => True)
      (a.slot i.a + a.extraCount) m trivial
    cases hm : Stack.reserve (a.slot i.a + a.extraCount) m with
    | error s m₁ =>
      rw [hm] at hreserve
      obtain ⟨m₁', hm', h₁⟩ := hreserve
      rw [Routine.bind_of_error hm, Routine.bind_of_error hm']
      exact ⟨m₁', rfl, h₁⟩
    | ok u m₁ =>
      rw [hm] at hreserve hreserved
      obtain ⟨m₁', hm', h₁⟩ := hreserve
      have hsize := h₁.size_stack
      have hsize' := hreserved.2
      simp only [slot] at hsize'
      rw [Routine.bind_of_ok hm, Routine.bind_of_ok hm',
        Stack.setTop_copy_comm (by omega) (by simp only [slot]; omega),
        Stack.setTop_copy_comm (by omega) (by simp only [slot]; omega)]
      exact (InStep.bind (hcopy _) fun _ => (Stack.parallel_setTop (by omega)).mono
        (fun _ _ h => h) (fun _ _ _ h => h.mono (Nat.le_max_left _ _))
        fun _ _ h => h.mono (Nat.le_max_left _ _)) m₁ m₁' h₁
  · simp only [vararg, loadedCount, if_neg hzero, pure_bind]
    exact (hcopy _).post fun _ _ _ h => h.mono (Nat.le_max_left _ _)

/-- The items of a list lie below the first free slot, or in registers. -/
theorem inStep_itemCount (ha : a.Watched V n k)
    (hb : i.b = 0 ∨ a.closure.proto.hasRegister (i.a + i.b) = true) :
    InStep (Alike V n k) (a.itemCount i)
      (fun c => Alike V (max n (a.slot i.a + 1 + c)) k) (Alike V n k) := by
  rw [itemCount]
  split
  · exact (Stack.inStep_countFrom _).post fun _ _ _ h => h.1
  · next hne =>
    have hslot := ha.slot_lt (hb.resolve_left hne)
    refine InStep.pure fun _ _ h => h.mono ?_
    simp only [slot] at hslot ⊢
    omega

theorem parallel_batch : Parallel V n k (a.batch i) := by
  rw [batch]
  split
  · exact parallel_extraOperand
  · exact Parallel.pure

/-- The items that have been counted are stored. -/
theorem parallel_storeBatch (ha : a.Watched V n k) (c : Nat) :
    Parallel V (max n (a.slot i.a + 1 + c)) k (do
      let batch ← a.batch i
      match ← Stack.read (a.slot i.a) with
      | .table id =>
        let items ← Stack.readRange (a.slot i.a + 1) (a.slot i.a + 1 + c)
        modify fun m =>
          let first := (batch - 1) * m.limits.itemsPerFlush
          { m with heap := m.heap.modifyTable id (storeItems · (Int64.ofNat (first + 1)) items) }
        Stack.resetTop
      | _ => .fail .listTarget) := by
  refine parallel_batch.bind fun batch =>
    (Stack.parallel_read (by omega)).bind fun v => ?_
  split
  · refine (Stack.parallel_readRange (by omega)).bind fun items =>
      Parallel.bind (Parallel.modify fun m m' h => ?_) fun _ =>
        Stack.parallel_resetTop fun _ => Nat.lt_of_le_of_lt V.shown_le ha.depth_lt
    obtain ⟨stack, rfl⟩ := h.exists_stack
    exact h.setObjects rfl
  · exact Parallel.fail

/-- **Items of a list.** -/
theorem parallel_setList (ha : a.Watched V n k)
    (hb : i.b = 0 ∨ a.closure.proto.hasRegister (i.a + i.b) = true) :
    Parallel V n k (a.setList i) := by
  refine InStep.bind (inStep_itemCount ha hb) fun c => ?_
  exact (parallel_storeBatch ha c).mono (fun _ _ h => h)
    (fun _ _ _ h => h.mono (Nat.le_max_left _ _)) fun _ _ h => h.mono (Nat.le_max_left _ _)

/-! ### Cells and closures -/

theorem parallel_captureAll (ha : a.Watched V n k) {us : List UpvalueInfo}
    (hus : ∀ u ∈ us, u.inStack = true → a.closure.proto.hasRegister u.index = true) :
    Parallel V n k (a.captureAll us) := by
  induction us with
  | nil => exact Parallel.pure
  | cons u rest ih =>
    obtain ⟨hu, hrest⟩ := List.forall_mem_cons.1 hus
    have hcapture : Parallel V n k (a.capture u) := by
      rw [capture]
      split
      · next hstack => exact Cell.parallel_capture (ha.slot_lt (hu hstack))
      · exact parallel_cell _
    exact hcapture.bind fun _ => (ih hrest).bind fun _ => Parallel.pure

/-- **Nested closures.** They share the same cells in both states. -/
theorem parallel_closeOver (ha : a.Watched V n k)
    (h : a.closure.proto.children[i.bx]?.any a.closure.proto.canCapture = true) :
    Parallel V n k (a.closeOver i) := by
  obtain ⟨child, hchild, hcapture⟩ := (Option.any_eq_true _ _).1 h
  rw [closeOver, hchild]
  refine (parallel_captureAll ha fun u hu hstack => ?_).bind fun _ =>
    (Closure.parallel_create _ _).bind fun _ => parallel_write ha _ _
  have := List.all_eq_true.1 hcapture u hu
  simpa [hstack] using this

/-! ### Calls and returns -/

/-- The end of the arguments is marked in both states. -/
theorem parallel_setArguments (hb : i.b = 0 ∨ a.slot i.a + i.b ≤ n) :
    Parallel V n k (a.setArguments i) := by
  rw [setArguments]
  split
  · next hne => exact Stack.parallel_setTop (hb.resolve_left (by simpa using hne))
  · exact Parallel.pure

/-- **Calls.** The frame of the instruction need not belong to the call that is watched. -/
theorem inStep_call (hlevel : V.level ≤ a.slot i.a) (hslot : a.slot i.a < n)
    (hb : i.b = 0 ∨ a.slot i.a + i.b ≤ n) (hdepth : V.depth ≤ k)
    (hadmits : ∀ wanted, V.Admits k (a.slot i.a) wanted false) :
    Exec.InStep V (Alike V n k) (a.call i) (fun _ => Akin V n) (Akin V n) :=
  Exec.InStep.bind (.lift ((parallel_setArguments hb).spares fun _ _ h => h.akin)) fun _ =>
    Call.inStep_enter hlevel hslot hdepth (hadmits _)

theorem Watched.arguments_le (ha : a.Watched V n k)
    (hb : i.b = 0 ∨ i.a + i.b ≤ a.closure.proto.registers) : i.b = 0 ∨ a.slot i.a + i.b ≤ n :=
  hb.imp_right fun hb => by
    have := ha.slot_le hb
    simpa only [slot, Nat.add_assoc] using this

/-- What is called, when handlers have been inserted for values that are no functions. -/
def callee (a : Activation) (i : Instruction) : Routine Value := do
  a.setArguments i
  Call.resolve (a.slot i.a)
  Stack.read (a.slot i.a)

/-- A closure replaces the running one, and everything else is called. -/
theorem tailCall_eq (a : Activation) (i : Instruction) :
    a.tailCall i = Exec.ofRoutine (a.callee i) >>= fun v =>
      match v with
      | .closure id => do
        Call.replace a.frame id (a.slot i.a)
        pure .next
      | _ => Call.enter (a.slot i.a) none false := by
  simp only [callee, Exec.ofRoutine_bind, bind_assoc]
  rfl

theorem parallel_callee (hlevel : V.level ≤ a.slot i.a) (hslot : a.slot i.a < n)
    (hb : i.b = 0 ∨ a.slot i.a + i.b ≤ n) : Parallel V n k (a.callee i) :=
  (parallel_setArguments hb).bind fun _ => (Call.parallel_resolve hlevel hslot).bind fun _ =>
    Stack.parallel_read hslot

/-- **Tail calls.** The frame that gives way belongs to the call that is watched. -/
theorem inStep_tailCall (ha : a.Watched V n k) (hr : a.closure.proto.hasRegister i.a = true)
    (hb : i.b = 0 ∨ i.a + i.b ≤ a.closure.proto.registers) :
    Exec.InStep V (Alike V n k) (a.tailCall i) (fun _ => Akin V n) (Akin V n) := by
  have hlevel := ha.level_le i.a
  have hslot := ha.slot_lt hr
  rw [tailCall_eq]
  refine Exec.InStep.bind (.lift ((parallel_callee hlevel hslot (ha.arguments_le hb)).spares
    fun _ _ h => h.akin)) fun v => ?_
  split
  · next id =>
    refine Exec.InStep.bind (.lift (Call.inStep_replace id ha.depth_lt ha.admits ?_ hslot))
      fun _ => Exec.InStep.pure fun _ _ h => h
    have := ha.function_lt
    simp only [slot]
    omega
  · exact Call.inStep_enter hlevel hslot (Nat.le_of_lt ha.depth_lt)
      (Vantage.admits_of_lt ha.depth_lt hlevel)

theorem inStep_resultCount (ha : a.Watched V n k)
    (hb : i.b = 0 ∨ i.a + i.b ≤ a.closure.proto.registers) :
    InStep (Alike V n k) (a.resultCount i)
      (fun c => Alike V (max n (a.slot i.a + c)) k) (Alike V n k) := by
  rw [resultCount]
  split
  · next hne =>
    have hle := (ha.arguments_le hb).resolve_left (by simpa using hne)
    exact InStep.pure fun _ _ h => h.mono (by omega)
  · exact (Stack.inStep_countFrom _).post fun _ _ _ h => h.1

/-- **Returns.** The results lie below the first free slot, or in registers. -/
theorem inStep_ret (ha : a.Watched V n k)
    (hb : i.b = 0 ∨ i.a + i.b ≤ a.closure.proto.registers) :
    InStep (Alike V n k) (a.ret i) (fun _ => Akin V n) (Akin V n) := by
  have hdepth := ha.depth_lt
  refine InStep.bind ((inStep_resultCount ha hb).spares fun _ _ h => h.akin) fun c =>
    InStep.bind ((Cell.parallel_closeFrom _).spares
      fun _ _ h => h.akin_of_le (Nat.le_max_left _ _)) fun _ =>
    InStep.bind ((Call.inStep_leave hdepth (Nat.le_max_right _ _)).spares
      fun _ _ h => h.mono (Nat.le_max_left _ _)) fun f => ?_
  rintro m m' ⟨h, hadmits⟩
  exact (Call.parallel_afterReturn fun hfresh hpos => hadmits.shown_lt (by omega) hfresh hpos).mono
    (fun _ _ h => h) (fun _ _ _ h => h.akin_of_le (Nat.le_max_left _ _))
    (fun _ _ h => h.akin_of_le (Nat.le_max_left _ _)) m m' h

/-! ### Every instruction -/

/-- A shared variable is assigned that does not lie in a watched slot. -/
theorem inStep_setUpvalue (ha : a.Watched V n k) (hr : a.closure.proto.hasRegister i.a = true) :
    InStep (fun m m' => Alike V n k m m' ∧ ∀ id slot, a.closure.cells[i.b]? = some id →
        m.heap.cell id = .opened slot → V.kept slot = none)
      (do
        let v ← a.read i.a
        Cell.write (← a.cell i.b) v)
      (fun _ => Alike V n k) (Alike V n k) := by
  refine InStep.bind ((Stack.inStep_read (fun _ _ h => h.1) (ha.slot_lt hr)).spares
    fun _ _ h => h.1) fun v => ?_
  rw [cell]
  split
  · next id hid =>
    simp only [pure_bind]
    exact (Cell.inStep_write id v).pre fun _ _ h => ⟨h.1, fun slot => h.2 id slot hid⟩
  · exact InStep.bind (Q := fun _ _ _ => False) (InStep.fault fun _ _ h => h.1)
      fun _ _ _ h => h.elim

/-- **Instructions.** An instruction whose operands have been accepted takes the same course in both
states, unless it assigns to a variable in a watched slot. -/
theorem inStep_execute {op : Opcode} {pc : Nat} (ha : a.Watched V n k)
    (hfit : a.closure.proto.operandsFit pc op i = true) :
    Exec.InStep V (fun m m' => Alike V n k m m' ∧ (op = .setUpvalue → ∀ id slot,
        a.closure.cells[i.b]? = some id → m.heap.cell id = .opened slot → V.kept slot = none))
      (a.execute op i) (fun _ => Akin V n) (Akin V n) := by
  by_cases hop : op = .setUpvalue
  · subst hop
    simp only [Prototype.operandsFit, Bool.and_eq_true] at hfit
    exact Exec.InStep.bind (.lift (((inStep_setUpvalue ha hfit.1).pre fun _ _ h =>
      ⟨h.1, h.2 rfl⟩).spares fun _ _ h => h.akin)) fun _ => Exec.InStep.pure fun _ _ h => h.akin
  refine Exec.InStep.pre ?_ fun _ _ h => h.1
  cases op <;> simp only [Prototype.operandsFit, Bool.and_eq_true, Bool.or_eq_true, beq_iff_eq,
    bne_iff_ne, decide_eq_true_eq] at hfit
  case setUpvalue => exact absurd rfl hop
  case move =>
    exact (parallel_simply ((parallel_read ha hfit.2).bind fun v => parallel_write ha _ v)).akin
  case loadConstant =>
    exact (parallel_simply ((parallel_constant _).bind fun v => parallel_write ha _ v)).akin
  case loadConstantExtra =>
    exact (parallel_simply (parallel_extraOperand.bind fun c => (parallel_constant c).bind
      fun v => parallel_write ha _ v)).akin
  case loadBoolean =>
    exact (parallel_simply ((parallel_write ha _ _).bind fun _ => parallel_skipIf _)).akin
  case loadNil => exact (parallel_simply (parallel_clear ha hfit)).akin
  case getUpvalue =>
    exact (parallel_simply ((parallel_upvalue ha _).bind fun v => parallel_write ha _ v)).akin
  case getTableUpvalue =>
    exact (parallel_getIndex ha _ (parallel_upvalue ha _) hfit.2).akin
  case getTable => exact (parallel_getIndex ha _ (parallel_read ha hfit.1.2) hfit.2).akin
  case setTableUpvalue =>
    exact (parallel_setIndex ha _ (parallel_upvalue ha _) hfit.1.2 hfit.2).akin
  case setTable =>
    exact (parallel_setIndex ha _ (parallel_read ha hfit.1.1) hfit.1.2 hfit.2).akin
  case newTable =>
    exact (parallel_store ha ((Request.parallel_perform ha.depth_lt _).bind
      fun _ => Exec.Parallel.pure)).akin
  case self => exact (parallel_loadMethod ha hfit.1.2 hfit.2).akin
  case add | sub | mul | mod | pow | div | floorDiv | bitAnd | bitOr | bitXor | shiftLeft
      | shiftRight =>
    exact (parallel_binary ha _ hfit.1.2 hfit.2).akin
  case negate | bitNot => exact (parallel_unary ha _ hfit.2).akin
  case not =>
    exact (parallel_simply ((parallel_read ha hfit.2).bind fun _ => parallel_write ha _ _)).akin
  case length =>
    exact ((Exec.Parallel.lift (parallel_read ha hfit.2)).bind fun _ =>
      parallel_store ha (Operation.parallel_length ha.depth_lt _ _)).akin
  case concat => exact (parallel_concat ha hfit.2).akin
  case jump =>
    refine (parallel_simply ?_).akin
    dsimp only
    split
    · exact (Cell.parallel_closeFrom _).bind fun _ => parallel_jump _
    · exact parallel_jump _
  case equal =>
    exact (parallel_compare ha (Operation.parallel_equal ha.depth_lt) hfit.1 hfit.2).akin
  case lessThan =>
    exact (parallel_compare ha (Operation.parallel_less ha.depth_lt) hfit.1 hfit.2).akin
  case lessEqual =>
    exact (parallel_compare ha (Operation.parallel_lessEqual ha.depth_lt) hfit.1 hfit.2).akin
  case test =>
    exact (parallel_simply ((parallel_read ha hfit).bind fun _ => parallel_skipIf _)).akin
  case testSet =>
    refine (parallel_simply ((parallel_read ha hfit.2).bind fun v => ?_)).akin
    split
    · exact parallel_write ha _ v
    · exact parallel_skip
  case call =>
    have hlevel := ha.level_le i.a
    exact inStep_call hlevel (ha.slot_lt hfit.1) (ha.arguments_le hfit.2) (Nat.le_of_lt ha.depth_lt)
      fun _ => Vantage.admits_of_lt ha.depth_lt hlevel
  case tailCall => exact inStep_tailCall ha hfit.1 hfit.2
  case ret => exact Exec.InStep.lift (inStep_ret ha hfit.2)
  case forLoop => exact (parallel_simply (parallel_advanceLoop ha hfit)).akin
  case forPrepare => exact (parallel_simply (parallel_prepareLoop ha hfit)).akin
  case iteratorCall =>
    refine (Exec.Parallel.lift (parallel_callIterator ha ?_)).akin
    simp only [Prototype.hasRegister, decide_eq_true_eq]
    omega
  case iteratorLoop => exact (parallel_simply (parallel_continueIteration ha hfit)).akin
  case setList => exact (parallel_simply (parallel_setList ha hfit.1)).akin
  case closure => exact (parallel_simply (parallel_closeOver ha hfit.2)).akin
  case vararg => exact (parallel_simply (parallel_vararg ha hfit.1)).akin
  case extraArgument => exact Exec.Parallel.fail.akin

end Activation

/-! ### Steps -/

/-- The next instruction assigns to the shared variable that lies in a slot. -/
def Machine.Assigns (m : Machine) (slot : Nat) : Prop :=
  ∃ f c i id, m.frame? = some f ∧ m.closureOf? f = some c ∧ c.proto.code[f.pc]? = some i ∧
    i.opcode? = some .setUpvalue ∧ m.budget ≠ some 0 ∧ c.cells[i.b]? = some id ∧
    m.heap.cell id = .opened slot

namespace Dispatch

variable {m m' s : Machine} {function : Nat} {wanted : Option Nat}

/-- The frame of an instruction belongs to the call that is watched if it is not one of those that
were there before. -/
theorem exists_watched (h : Alike V n k m m') (hk : V.depth < k) {f : Frame} {c : Closure}
    {fs : Array Frame} (hframes : m.frames = fs.push f) (hfits : f.Fits m)
    (haccepted : (Activation.mk { f with pc := f.pc + 1 } c).Accepted) :
    ∃ n', n ≤ n' ∧ Alike V n' k m m' ∧
      (Activation.mk { f with pc := f.pc + 1 } c).Watched V n' k := by
  have hsize := h.size_frames
  rw [hframes, Array.size_push] at hsize
  have hlast : m.frames[k - 1]? = some f := by
    rw [hframes, ← hsize, Nat.add_sub_cancel, Array.getElem?_push_size]
  have hshown : V.shown ≤ k - 1 := by
    have := V.shown_le
    omega
  exact ⟨max n f.top, Nat.le_max_left _ _,
    h.extend fun i _ hi => h.agree_register hshown hlast (by omega),
    { accepted := haccepted
      depth_lt := hk
      admits := h.admits (k - 1) f hlast
      function_lt := hfits.function_lt
      base_le := hfits.base_le
      top_le := Nat.le_max_right _ _ }⟩

/-- **Steps.** The innermost frame of the call that is watched goes on in the same way in both
states, unless its next instruction assigns to a variable in a watched slot. -/
theorem inStep_step (h : Alike V n k m m') (hrunning : Running s function wanted m)
    (hk : V.depth < k) (hfree : ∀ slot, m.Assigns slot → V.kept slot = none) :
    (step m).InStep V (fun _ => Akin V n) (Akin V n) (step m') := by
  obtain ⟨fs, f, hnested, hframes, -, hfits, -⟩ := id hrunning
  obtain ⟨id, hid⟩ := Option.isSome_iff_exists.1 hnested.isClosure
  have hf : m.frame? = some f := by rw [Machine.frame?, hframes, Array.back?_push]
  have hc : m.closureOf? f = some (m.heap.closure id) := by rw [Machine.closureOf?, hid]; rfl
  obtain ⟨stack, rfl⟩ := h.exists_stack
  cases hi : (m.heap.closure id).proto.code[f.pc]? with
  | none =>
    rw [step_of_endOfCode hf hc hi, step_of_endOfCode (m := { m with stack }) hf hc hi]
    exact ⟨_, rfl, h.akin⟩
  | some i =>
    by_cases hbudget : m.budget = some 0
    · rw [step_of_exhausted hf hc hi hbudget,
        step_of_exhausted (m := { m with stack }) hf hc hi hbudget]
      exact ⟨_, rfl, (h.select _ _).akin⟩
    · obtain ⟨op, -, hop, hfit, haccepted, -⟩ := exists_active hrunning hf hc hi
      obtain ⟨n', hn, h', hwatched⟩ := exists_watched h hk hframes hfits haccepted
      rw [step_eq hf hc hi hbudget hop, step_eq (m := { m with stack }) hf hc hi hbudget hop]
      have hpaid := (h'.select (m.frames.size - 1) fun f => f.pc + 1).setBudget
        (m.budget.map (· - 1))
      refine (Activation.inStep_execute hwatched hfit _ _
        ⟨hpaid, fun hset cell slot hcell hopened => ?_⟩).mono
        (fun _ _ _ h => h.mono hn) fun _ _ h => h.mono hn
      exact hfree slot ⟨f, _, i, cell, hf, hc, hi, hset ▸ hop, hbudget, hcell, hopened⟩

end Dispatch

end LuaMachine
