import LuaMachine.Proofs.Machine.OrdinaryOperations

/-!
# Ordinary instructions

The parts of a call that leave the frames alone are ordinary, and so are all instructions but those
that call or return.

## Main statements

* `Call.ordinary_resolve`, `Call.ordinary_deliver` : what comes before and after a call.
* `Activation.ordinary_execute` : instructions that neither call nor return.
-/

namespace LuaMachine

open Routine (Ordinary)

/-! ### Parts of calls -/

namespace Call

theorem ordinary_insertHandler (function : Nat) : Ordinary (insertHandler function) := by
  refine .bind (Stack.ordinary_read function) fun v => .inspect (fun m => ?_) fun _ _ => rfl
  split
  · exact .fail (Operation.isOwn_operandFault _ _ _ _)
  · exact .bind (.reserve _) fun _ => .bind (Stack.ordinary_insert _ _ _) fun _ =>
      Stack.ordinary_setTop _

theorem ordinary_resolveWithin (function n : Nat) : Ordinary (resolveWithin function n) := by
  induction n with
  | zero =>
    refine .bind (Stack.ordinary_read function) fun v => ?_
    split
    · exact .fail ⟨by simp, by simp⟩
    · exact .pure ()
  | succ n ih =>
    refine .bind (Stack.ordinary_read function) fun v => ?_
    split
    · exact .bind (ordinary_insertHandler function) fun _ => ih
    · exact .pure ()

theorem ordinary_resolve (function : Nat) : Ordinary (resolve function) :=
  .inspect (fun _ => ordinary_resolveWithin _ _) fun _ _ => rfl

theorem ordinary_checkDepth : Ordinary checkDepth := by
  refine .inspect (fun m => ?_) fun _ _ => rfl
  split
  · exact .fail ⟨by simp, by simp⟩
  · exact .pure ()

theorem ordinary_deliver (function : Nat) (values : List Value) (wanted : Option Nat) :
    Ordinary (deliver function values wanted) :=
  .bind (.reserve _) fun _ => .bind (Stack.ordinary_writeAll _ _) fun _ => Stack.ordinary_setTop _

theorem ordinary_afterReturn (f : Frame) : Ordinary (afterReturn f) := by
  rw [afterReturn]
  split
  · exact .pure _
  · split
    · exact .bind Stack.ordinary_resetTop fun _ => .pure _
    · exact .pure _

end Call

namespace Activation

variable (a : Activation) (i : Instruction)

/-! ### Operands and the selection -/

theorem ordinary_read (r : Nat) : Ordinary (a.read r) := Stack.ordinary_read _

theorem ordinary_write (r : Nat) (v : Value) : Ordinary (a.write r v) := Stack.ordinary_write _ _

theorem ordinary_constant (k : Nat) : Ordinary (a.constant k) := by
  rw [constant]
  split
  · exact .pure _
  · exact .fault

theorem ordinary_operand (field : Nat) : Ordinary (a.operand field) := by
  rw [operand]
  split
  · exact a.ordinary_read _
  · exact a.ordinary_constant _

theorem ordinary_cell (u : Nat) : Ordinary (a.cell u) := by
  rw [cell]
  split
  · exact .pure _
  · exact .fault

theorem ordinary_upvalue (u : Nat) : Ordinary (a.upvalue u) :=
  .bind (a.ordinary_cell u) fun _ => Cell.ordinary_read _

theorem ordinary_jump (offset : Int) : Ordinary (jump offset) :=
  .select fun f => (f.pc + offset).toNat

theorem ordinary_skip : Ordinary skip := .select fun f => f.pc + 1

theorem ordinary_skipIf (condition : Bool) : Ordinary (skipIf condition) := by
  rw [skipIf]
  split
  · exact ordinary_skip
  · exact .pure ()

theorem ordinary_extraOperand : Ordinary a.extraOperand := by
  rw [extraOperand]
  split
  · exact .bind ordinary_skip fun _ => .pure _
  · exact .fault

/-! ### Groups of instructions -/

section Groups

open Exec (Ordinary)

variable {a i}

theorem ordinary_store {r : Nat} {x : Exec Value} (h : Ordinary x) : Ordinary (a.store r x) :=
  .bind h fun _ => .bind (.lift (a.ordinary_write _ _)) fun _ => .pure _

theorem ordinary_simply {x : Routine Unit} (h : x.Ordinary) : Ordinary (simply x) :=
  .bind (.lift h) fun _ => .pure _

variable (a i)

theorem ordinary_binary (op : Operator) : Ordinary (a.binary i op) :=
  .bind (.lift (a.ordinary_operand _)) fun _ => .bind (.lift (a.ordinary_operand _)) fun _ =>
    ordinary_store (Operation.ordinary_arithmetic _ _ _ _ _)

theorem ordinary_unary (op : Operator) : Ordinary (a.unary i op) :=
  .bind (.lift (a.ordinary_read _)) fun _ =>
    ordinary_store (Operation.ordinary_arithmetic _ _ _ _ _)

theorem ordinary_compare {test : Value → Value → Exec Bool} (h : ∀ x y, Ordinary (test x y)) :
    Ordinary (a.compare i test) :=
  .bind (.lift (a.ordinary_operand _)) fun _ => .bind (.lift (a.ordinary_operand _)) fun _ =>
    .bind (h _ _) fun _ => .bind (.lift (ordinary_skipIf _)) fun _ => .pure _

theorem ordinary_loadMethod : Ordinary (a.loadMethod i) :=
  .bind (.lift (a.ordinary_read _)) fun _ => .bind (.lift (a.ordinary_operand _)) fun _ =>
    .bind (.lift (a.ordinary_write _ _)) fun _ => ordinary_store (Operation.ordinary_index _ _ _)

theorem ordinary_getIndex {table : Routine Value} (h : table.Ordinary) (origin : Origin) :
    Ordinary (a.getIndex i table origin) :=
  .bind (.lift h) fun _ => .bind (.lift (a.ordinary_operand _)) fun _ =>
    ordinary_store (Operation.ordinary_index _ _ _)

theorem ordinary_setIndex {table : Routine Value} (h : table.Ordinary) (origin : Origin) :
    Ordinary (a.setIndex i table origin) :=
  .bind (.lift h) fun _ => .bind (.lift (a.ordinary_operand _)) fun _ =>
    .bind (.lift (a.ordinary_operand _)) fun _ =>
      .bind (Operation.ordinary_setIndex _ _ _ _) fun _ => .pure _

theorem ordinary_concat : Ordinary (a.concat i) :=
  .bind (.lift (Stack.ordinary_readRange _ _)) fun _ =>
    ordinary_store (Operation.ordinary_concat _ _)

end Groups

theorem ordinary_loop (r : Nat) : Ordinary (a.loop r) :=
  .bind (a.ordinary_read _) fun _ => .bind (a.ordinary_read _) fun _ =>
    .bind (a.ordinary_read _) fun _ => .pure _

theorem ordinary_prepareLoop : Ordinary (a.prepareLoop i) := by
  refine .bind (a.ordinary_loop _) fun l => ?_
  split
  · exact .fail ⟨by simp, by simp⟩
  · exact .bind (a.ordinary_write _ _) fun _ => .bind (a.ordinary_write _ _) fun _ =>
      .bind (a.ordinary_write _ _) fun _ => ordinary_jump _

theorem ordinary_advanceLoop : Ordinary (a.advanceLoop i) := by
  refine .bind (a.ordinary_loop _) fun l => ?_
  split
  · exact .fail ⟨by simp, by simp⟩
  · exact .pure ()
  · exact .bind (a.ordinary_write _ _) fun _ => .bind (a.ordinary_write _ _) fun _ =>
      ordinary_jump _

theorem ordinary_callIterator : Ordinary (a.callIterator i) :=
  .bind (.reserve _) fun _ => .bind (Stack.ordinary_copy _ _ _ _) fun _ =>
    .bind (Stack.ordinary_setTop _) fun _ => .pure _

theorem ordinary_continueIteration : Ordinary (a.continueIteration i) := by
  refine .bind (a.ordinary_read _) fun v => ?_
  split
  · exact .bind (a.ordinary_write _ _) fun _ => ordinary_jump _
  · exact .pure ()

theorem ordinary_setArguments : Ordinary (a.setArguments i) := by
  rw [setArguments]
  split
  · exact Stack.ordinary_setTop _
  · exact .pure ()

theorem ordinary_resultCount : Ordinary (a.resultCount i) := by
  rw [resultCount]
  split
  · exact .pure _
  · exact Stack.ordinary_countFrom _

theorem ordinary_vararg : Ordinary (a.vararg i) := by
  refine .bind ?_ fun wanted => Stack.ordinary_copy _ _ _ _
  rw [loadedCount]
  split
  · exact .bind (.reserve _) fun _ => .bind (Stack.ordinary_setTop _) fun _ => .pure _
  · exact .pure _

theorem ordinary_itemCount : Ordinary (a.itemCount i) := by
  rw [itemCount]
  split
  · exact Stack.ordinary_countFrom _
  · exact .pure _

theorem ordinary_batch : Ordinary (a.batch i) := by
  rw [batch]
  split
  · exact a.ordinary_extraOperand
  · exact .pure _

theorem ordinary_setList : Ordinary (a.setList i) := by
  refine .bind (a.ordinary_itemCount i) fun n => .bind (a.ordinary_batch i) fun c =>
    .bind (Stack.ordinary_read _) fun v => ?_
  split
  · exact .bind (Stack.ordinary_readRange _ _) fun items =>
      .bind (.modify (Machine.contentChange_heap _ fun _ _ => rfl)) fun _ => Stack.ordinary_resetTop
  · exact .fail ⟨by simp, by simp⟩

theorem ordinary_captureAll (us : List UpvalueInfo) : Ordinary (a.captureAll us) := by
  induction us with
  | nil => exact .pure _
  | cons u rest ih =>
    have hcapture : Ordinary (a.capture u) := by
      rw [capture]
      split
      · exact Cell.ordinary_capture _
      · exact a.ordinary_cell _
    exact .bind hcapture fun _ => .bind ih fun _ => .pure _

theorem ordinary_closeOver : Ordinary (a.closeOver i) := by
  rw [closeOver]
  split
  · exact .fault
  · exact .bind (a.ordinary_captureAll _) fun _ => .bind (Closure.ordinary_create _ _) fun _ =>
      a.ordinary_write _ _

/-! ### Instructions -/

/-- **Instructions.** An instruction that neither calls nor returns is ordinary. -/
theorem ordinary_execute {op : Opcode} (hcall : op ≠ .call) (htail : op ≠ .tailCall)
    (hret : op ≠ .ret) : (a.execute op i).Ordinary := by
  have hwrite : ∀ {x : Routine Value} (r : Nat), x.Ordinary →
      (simply do a.write r (← x)).Ordinary :=
    fun r hx => ordinary_simply (.bind hx fun _ => a.ordinary_write _ _)
  cases op with
  | move => exact hwrite _ (a.ordinary_read _)
  | loadConstant => exact hwrite _ (a.ordinary_constant _)
  | loadConstantExtra =>
    exact ordinary_simply (.bind a.ordinary_extraOperand fun _ => .bind (a.ordinary_constant _)
      fun _ => a.ordinary_write _ _)
  | loadBoolean =>
    exact ordinary_simply (.bind (a.ordinary_write _ _) fun _ => ordinary_skipIf _)
  | loadNil => exact ordinary_simply (Stack.ordinary_clear _ _)
  | getUpvalue => exact hwrite _ (a.ordinary_upvalue _)
  | setUpvalue =>
    exact ordinary_simply (.bind (a.ordinary_read _) fun _ => .bind (a.ordinary_cell _)
      fun _ => Cell.ordinary_write _ _)
  | getTableUpvalue => exact a.ordinary_getIndex i (a.ordinary_upvalue _) _
  | getTable => exact a.ordinary_getIndex i (a.ordinary_read _) _
  | setTableUpvalue => exact a.ordinary_setIndex i (a.ordinary_upvalue _) _
  | setTable => exact a.ordinary_setIndex i (a.ordinary_read _) _
  | newTable =>
    exact ordinary_store (.bind (Request.ordinary_perform .newTable) fun _ => .pure _)
  | self => exact a.ordinary_loadMethod i
  | add | sub | mul | mod | pow | div | floorDiv | bitAnd | bitOr | bitXor | shiftLeft
  | shiftRight => exact a.ordinary_binary i _
  | negate | bitNot => exact a.ordinary_unary i _
  | not => exact ordinary_simply (.bind (a.ordinary_read _) fun _ => a.ordinary_write _ _)
  | length =>
    exact .bind (.lift (a.ordinary_read _)) fun v =>
      ordinary_store (Operation.ordinary_length v _)
  | concat => exact a.ordinary_concat i
  | jump =>
    refine ordinary_simply ?_
    split
    · exact .bind (Cell.ordinary_closeFrom _) fun _ => ordinary_jump _
    · exact .bind (.pure ()) fun _ => ordinary_jump _
  | equal => exact a.ordinary_compare i Operation.ordinary_equal
  | lessThan => exact a.ordinary_compare i Operation.ordinary_less
  | lessEqual => exact a.ordinary_compare i Operation.ordinary_lessEqual
  | test => exact ordinary_simply (.bind (a.ordinary_read _) fun _ => ordinary_skipIf _)
  | testSet =>
    refine ordinary_simply (.bind (a.ordinary_read _) fun v => ?_)
    split
    · exact a.ordinary_write _ _
    · exact ordinary_skip
  | call => exact absurd rfl hcall
  | tailCall => exact absurd rfl htail
  | ret => exact absurd rfl hret
  | forLoop => exact ordinary_simply (a.ordinary_advanceLoop i)
  | forPrepare => exact ordinary_simply (a.ordinary_prepareLoop i)
  | iteratorCall => exact .lift (a.ordinary_callIterator i)
  | iteratorLoop => exact ordinary_simply (a.ordinary_continueIteration i)
  | setList => exact ordinary_simply (a.ordinary_setList i)
  | closure => exact ordinary_simply (a.ordinary_closeOver i)
  | vararg => exact ordinary_simply (a.ordinary_vararg i)
  | extraArgument => exact .fail ⟨by simp, by simp⟩

end Activation

end LuaMachine
