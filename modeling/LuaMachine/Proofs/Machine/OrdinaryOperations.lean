import LuaMachine.Proofs.Machine.HandlerChains
import LuaMachine.Proofs.Machine.Ordinary

/-!
# Ordinary operations

All operations on the stack, on cells and on objects are ordinary, and so are the operations with
metamethods and the answers to native functions.  A native function as a whole is not, since it may
do anything about the failure of a call, but it keeps the same invariants.

## Main statements

* `Operation.ordinary_index`, `Operation.ordinary_setIndex`, `Operation.ordinary_arithmetic` and
  others : operations with metamethods.
* `Request.ordinary_perform` : the answers to native functions.
* `Behaviour.mild_run` : native functions, by induction on their requests.
-/

namespace LuaMachine

open Machine (ContentChange)
open Routine (Ordinary)

/-! ### The stack -/

namespace Machine

variable {f : Machine → Machine}

theorem contentChange_heap (heap : Machine → Heap) (h : ∀ m b, heap (m.withBudget b) = heap m) :
    ContentChange fun m => { m with heap := heap m } :=
  ⟨fun _ => rfl, fun _ => rfl, fun _ => rfl, fun _ => rfl, fun m b => by rw [h]; rfl⟩

theorem contentChange_top (top : Nat) : ContentChange fun m => { m with top } :=
  ⟨fun _ => rfl, fun _ => rfl, fun _ => rfl, fun _ => rfl, fun _ _ => rfl⟩

theorem contentChange_openCells (f : List (Nat × CellId) → List (Nat × CellId)) :
    ContentChange fun m => { m with openCells := f m.openCells } :=
  ⟨fun _ => rfl, fun _ => rfl, fun _ => rfl, fun _ => rfl, fun _ _ => rfl⟩

theorem contentChange_slot (i : Nat) (v : Value) :
    ContentChange fun m => { m with stack := m.stack.setIfInBounds i v } :=
  ⟨fun _ => rfl, fun _ => rfl, fun _ => Array.size_setIfInBounds, fun _ => rfl, fun _ _ => rfl⟩

end Machine

open Machine (contentChange_heap contentChange_top contentChange_openCells contentChange_slot)

/-- An object is added to the heap, or one is changed. -/
theorem Routine.ordinary_heap {α : Type} (f : Machine → α) (heap : Machine → Heap)
    (hf : ∀ m b, f (m.withBudget b) = f m) (hheap : ∀ m b, heap (m.withBudget b) = heap m) :
    Ordinary (fun m => .ok (f m) { m with heap := heap m }) := by
  change Ordinary (get >>= fun m : Machine => do
    modify fun m => { m with heap := heap m }
    pure (f m))
  exact .inspect (fun m => .bind (.modify (contentChange_heap heap hheap)) fun _ => .pure _)
    fun m b => by rw [hf]

/-- Something is written into the notebook. -/
theorem Routine.ordinary_notebook {α : Type} (a : α) (notebook : Machine → Notebook)
    (h : ∀ m b, notebook (m.withBudget b) = notebook m) :
    Ordinary (fun m => .ok a { m with notebook := notebook m }) := by
  change Ordinary (do
    modify fun m => { m with notebook := notebook m }
    pure a)
  exact .bind (.modify ⟨fun _ => rfl, fun _ => rfl, fun _ => rfl, fun _ => rfl,
    fun m b => by rw [h]; rfl⟩) fun _ => .pure a

namespace Stack

theorem ordinary_read (i : Nat) : Ordinary (read i) := by
  have heq : read i = (get >>= fun m : Machine => (m.stack[i]?).elim (.fault (.slot i)) pure) := by
    funext m
    cases h : m.stack[i]? <;> simp only [Routine.bind_get, read, h] <;> rfl
  rw [heq]
  refine .inspect (fun m => ?_) fun _ _ => rfl
  cases m.stack[i]? with
  | none => exact .fault
  | some v => exact .pure v

theorem ordinary_write (i : Nat) (v : Value) : Ordinary (write i v) := by
  have heq : write i v = (get >>= fun m : Machine => if i < m.stack.size then
      modify fun m => { m with stack := m.stack.setIfInBounds i v } else .fault (.slot i)) := by
    funext m
    by_cases h : i < m.stack.size <;>
      simp only [Routine.bind_get, write, h, if_true, if_false] <;> rfl
  rw [heq]
  refine .inspect (fun m => ?_) fun _ _ => rfl
  split
  · exact .modify (contentChange_slot i v)
  · exact .fault

theorem ordinary_writeAll (first : Nat) (vs : List Value) : Ordinary (writeAll first vs) := by
  induction vs generalizing first with
  | nil => exact .pure ()
  | cons v rest ih => exact .bind (ordinary_write first v) fun _ => ih (first + 1)

theorem ordinary_clear (first count : Nat) : Ordinary (clear first count) := by
  induction count generalizing first with
  | zero => exact .pure ()
  | succ count ih => exact .bind (ordinary_write first .nil) fun _ => ih (first + 1)

theorem ordinary_readRange (first last : Nat) : Ordinary (readRange first last) := by
  have heq : readRange first last = (get >>= fun m : Machine =>
      if last < first then .fault (.negativeRange first last)
      else if m.stack.size < last then .fault (.slot (last - 1))
      else pure (m.stack.extract first last).toList) := by
    funext m
    by_cases h : last < first <;> by_cases h' : m.stack.size < last <;>
      simp only [Routine.bind_get, readRange, h, h', if_true, if_false] <;> rfl
  rw [heq]
  refine .inspect (fun m => ?_) fun _ _ => rfl
  split
  · exact .fault
  · split
    · exact .fault
    · exact .pure _

theorem ordinary_top : Ordinary top :=
  .inspect (f := fun m => pure m.top) (fun _ => .pure _) fun _ _ => rfl

theorem ordinary_setTop (top : Nat) : Ordinary (setTop top) :=
  .modify (contentChange_top top)

theorem ordinary_resetTop : Ordinary resetTop := by
  have heq : resetTop = (get >>= fun m : Machine =>
      m.frame?.elim (pure ()) fun f => setTop f.top) := by
    funext m
    cases h : m.frame? <;> simp only [Routine.bind_get, resetTop, Routine.modify_eq, h] <;> rfl
  rw [heq]
  refine .inspect (fun m => ?_) fun _ _ => rfl
  cases m.frame? with
  | none => exact .pure ()
  | some f => exact ordinary_setTop _

theorem ordinary_countFrom (first : Nat) : Ordinary (countFrom first) := by
  have heq : countFrom first = (get >>= fun m : Machine =>
      if m.top < first then .fault (.negativeRange first m.top) else pure (m.top - first)) := by
    funext m
    by_cases h : m.top < first <;>
      simp only [Routine.bind_get, countFrom, h, if_true, if_false] <;> rfl
  rw [heq]
  refine .inspect (fun m => ?_) fun _ _ => rfl
  split
  · exact .fault
  · exact .pure _

theorem ordinary_copy (source target available count : Nat) :
    Ordinary (copy source target available count) := by
  induction count generalizing source target available with
  | zero => exact .pure ()
  | succ count ih =>
    have hrest : ∀ v, Ordinary (do
        write target v
        copy (source + 1) (target + 1) (available - 1) count) :=
      fun v => .bind (ordinary_write target v) fun _ => ih _ _ _
    rw [copy]
    split
    · exact .bind (ordinary_read source) hrest
    · exact .bind (.pure _) hrest

theorem ordinary_take (source target available count : Nat) :
    Ordinary (take source target available count) := by
  induction count generalizing source target available with
  | zero => exact .pure ()
  | succ count ih =>
    have hrest : ∀ v, Ordinary (do
        write target v
        take (source + 1) (target + 1) (available - 1) count) :=
      fun v => .bind (ordinary_write target v) fun _ => ih _ _ _
    rw [take]
    split
    · exact .bind (ordinary_read source) fun v =>
        .bind (ordinary_write source .nil) fun _ => hrest v
    · exact hrest .nil

theorem ordinary_insert (first last : Nat) (v : Value) : Ordinary (insert first last v) :=
  .bind (ordinary_readRange first last) fun _ => ordinary_writeAll _ _

end Stack

/-! ### Cells and objects -/

namespace Cell

theorem ordinary_read (id : CellId) : Ordinary (read id) :=
  .inspect (f := fun m => pure (value m id)) (fun _ => .pure _) fun _ _ => rfl

section CellContents

variable {id : CellId} {f : Machine → Machine} {g : Nat → Machine → Machine}
  {h : Value → Machine → Machine}

/-- What is done to a cell depends on whether it is open. -/
private theorem modify_of_cell (hf : ∀ m, f m = match m.heap.cell id with
      | opened slot => g slot m
      | closed v => h v m) :
    (modify f : Routine Unit) = (get >>= fun m : Machine => match m.heap.cell id with
      | opened slot => modify (g slot)
      | closed v => modify (h v)) := by
  funext m
  cases hc : m.heap.cell id <;> simp only [Routine.bind_get, Routine.modify_eq, hf, hc]

private theorem ordinary_modifyCell (hf : ∀ m, f m = match m.heap.cell id with
      | opened slot => g slot m
      | closed v => h v m)
    (hg : ∀ slot, ContentChange (g slot)) (hh : ∀ v, ContentChange (h v)) :
    Ordinary (modify f : Routine Unit) := by
  rw [modify_of_cell hf]
  refine .inspect (fun m => ?_) fun _ _ => rfl
  split
  · exact .modify (hg _)
  · exact .modify (hh _)

end CellContents

theorem ordinary_write (id : CellId) (v : Value) : Ordinary (write id v) :=
  ordinary_modifyCell (fun _ => rfl) (fun slot => contentChange_slot slot v)
    fun _ => contentChange_heap _ fun _ _ => rfl

theorem ordinary_create (c : Cell) : Ordinary (create c) :=
  Routine.ordinary_heap (fun m => (m.heap.addCell c).2) (fun m => (m.heap.addCell c).1)
    (fun _ _ => rfl) fun _ _ => rfl

theorem ordinary_capture (slot : Nat) : Ordinary (capture slot) := by
  refine .inspect (fun m => ?_) fun _ _ => rfl
  split
  · exact .pure _
  · exact .bind (ordinary_create _) fun id =>
      .bind (.modify (contentChange_openCells _)) fun _ => .pure _

theorem ordinary_close (id : CellId) : Ordinary (close id) :=
  ordinary_modifyCell (fun _ => rfl) (fun slot => contentChange_heap
    (fun m => m.heap.setCell id (closed (m.stack[slot]?.getD .nil))) fun _ _ => rfl)
    fun _ => contentChange_openCells fun cells => cells

theorem ordinary_closeAll (cells : List (Nat × CellId)) : Ordinary (closeAll cells) := by
  induction cells with
  | nil => exact .pure ()
  | cons e rest ih => exact .bind (ordinary_close e.2) fun _ => ih

theorem ordinary_closeFrom (level : Nat) : Ordinary (closeFrom level) := by
  refine .inspect (fun m => ?_) fun _ _ => rfl
  dsimp only
  split
  · exact .pure ()
  · split
    · exact .bind (ordinary_closeAll _) fun _ => .modify (contentChange_openCells fun _ => _)
    · exact .pure ()

end Cell

namespace Closure

theorem ordinary_createCells (first : Value) (us : List UpvalueInfo) :
    Ordinary (createCells first us) := by
  induction us generalizing first with
  | nil => exact .pure []
  | cons u rest ih => exact .bind (Cell.ordinary_create _) fun _ => .bind (ih .nil) fun _ => .pure _

theorem ordinary_create (proto : Prototype) (cells : List CellId) : Ordinary (create proto cells) :=
  Routine.ordinary_heap (fun m => (m.heap.addClosure ⟨proto, cells.toArray⟩).2)
    (fun m => (m.heap.addClosure ⟨proto, cells.toArray⟩).1) (fun _ _ => rfl) fun _ _ => rfl

theorem ordinary_load (proto : Prototype) : Ordinary (load proto) := by
  rw [load]
  split
  · exact .fail ⟨by simp, by simp⟩
  · exact .inspect (fun m => .bind (ordinary_createCells _ _) fun _ => ordinary_create _ _)
      fun _ _ => rfl

end Closure

theorem Metatable.ordinary_assign (v : Value) (metatable : Option TableId) :
    Ordinary (assign v metatable) := by
  rw [assign]
  cases v with
  | object r =>
    cases r with
    | table id => exact .modify (contentChange_heap _ fun _ _ => rfl)
    | userdata id => exact .modify (contentChange_heap _ fun _ _ => rfl)
    | _ => exact .modify ⟨fun _ => rfl, fun _ => rfl, fun _ => rfl, fun _ => rfl, fun _ _ => rfl⟩
  | _ => exact .modify ⟨fun _ => rfl, fun _ => rfl, fun _ => rfl, fun _ => rfl, fun _ _ => rfl⟩

/-! ### Operations with metamethods -/

namespace Operation

open Exec (Ordinary)

theorem ordinary_rawGet (t : TableId) (key : Value) : Ordinary (rawGet t key) :=
  .gets fun _ _ => rfl

theorem ordinary_rawSet (t : TableId) (key value : Value) : Ordinary (rawSet t key value) := by
  unfold rawSet
  cases Key.ofValue key with
  | ok k =>
    exact .lift (.modify (contentChange_heap (fun m =>
      m.heap.modifyTable t (·.setKey k value)) fun _ _ => rfl))
  | error fault => exact .fail ⟨by simp, by simp⟩

theorem isOwn_operandFault (m : Machine) (verb : String) (v : Value) (o : Origin) :
    (m.operandFault verb v o).IsOwn := by
  rw [Machine.operandFault]
  exact ⟨by simp, by simp⟩

/-- The complaint about an operand. -/
theorem ordinary_operandFault {α : Type} (verb : String) (v : Value) (o : Origin) :
    Ordinary (Exec.failWith fun m => m.operandFault verb v o : Exec α) :=
  .failWith (fun m => isOwn_operandFault m verb v o) fun _ _ => rfl

theorem ordinary_indexChain (key : Value) (n : Nat) (v : Value) (origin : Origin) :
    Ordinary (indexChain key n v origin) := by
  induction n generalizing v origin with
  | zero => exact .fail ⟨by simp, by simp⟩
  | succ n ih =>
    rw [indexChain_succ]
    refine .bind (.gets fun _ _ => rfl) fun own => .bind (.gets fun _ _ => rfl) fun handler => ?_
    unfold indexBy
    split
    · split
      · exact .callForValue _ _
      · exact ih _ _
    · split
      · exact .pure _
      · exact ordinary_operandFault _ _ _

theorem ordinary_index (v key : Value) (origin : Origin) : Ordinary (index v key origin) :=
  .inspect (fun _ => ordinary_indexChain _ _ _ _) fun _ _ => rfl

theorem ordinary_setIndexChain (key value : Value) (n : Nat) (v : Value) (origin : Origin) :
    Ordinary (setIndexChain key value n v origin) := by
  induction n generalizing v origin with
  | zero => exact .fail ⟨by simp, by simp⟩
  | succ n ih =>
    rw [setIndexChain_succ]
    refine .bind (.gets fun _ _ => rfl) fun handler => ?_
    unfold assignBy
    split
    · split
      · exact .bind (.call _ _ _) fun _ => .pure _
      · exact ih _ _
    · exact ordinary_rawSet _ _ _
    · exact ordinary_operandFault _ _ _

theorem ordinary_setIndex (v key value : Value) (origin : Origin) :
    Ordinary (setIndex v key value origin) :=
  .inspect (fun _ => ordinary_setIndexChain _ _ _ _ _) fun _ _ => rfl

theorem isOwn_arithmeticCause (m : Machine) (op : Operator) (a b : Value) (oa ob : Origin) :
    (arithmeticCause m op a b oa ob).IsOwn := by
  unfold arithmeticCause
  dsimp only
  split
  · exact isOwn_operandFault _ _ _ _
  · split
    · exact ⟨by simp, by simp⟩
    · exact isOwn_operandFault _ _ _ _
  · exact isOwn_operandFault _ _ _ _

theorem ordinary_arithmetic (op : Operator) (a b : Value) (oa ob : Origin) :
    Ordinary (arithmetic op a b oa ob) := by
  rw [arithmetic]
  split
  · exact .pure _
  · exact .fail ⟨by simp, by simp⟩
  · exact .fail ⟨by simp, by simp⟩
  · refine .inspect (fun m => ?_) fun _ _ => rfl
    split
    · exact .callForValue _ _
    · exact .failWith (fun m => isOwn_arithmeticCause m op a b oa ob) fun _ _ => rfl

theorem ordinary_equal (a b : Value) : Ordinary (equal a b) := by
  rw [equal]
  split
  · exact .pure _
  · split
    · exact .pure _
    · refine .inspect (fun m => ?_) fun _ _ => rfl
      split
      · exact .bind (.callForValue _ _) fun _ => .pure _
      · exact .pure _

theorem ordinary_ordered? (a b : Value) (e : Event) : Ordinary (ordered? a b e) := by
  refine .inspect (fun m => ?_) fun _ _ => rfl
  split
  · exact .bind (.callForValue _ _) fun _ => .pure _
  · exact .pure _

/-- The complaint that two values have no order. -/
theorem ordinary_comparisonCause {α : Type} (a b : Value) :
    Ordinary (Exec.failWith (comparisonCause · a b) : Exec α) :=
  .failWith (fun _ => ⟨by simp [comparisonCause], by simp [comparisonCause]⟩) fun _ _ => rfl

theorem ordinary_less (a b : Value) : Ordinary (less a b) := by
  rw [less]
  split
  · exact .pure _
  · refine .bind (ordinary_ordered? a b .less) fun r => ?_
    split
    · exact .pure _
    · exact ordinary_comparisonCause a b

theorem ordinary_lessEqual (a b : Value) : Ordinary (lessEqual a b) := by
  rw [lessEqual]
  split
  · exact .pure _
  · refine .bind (ordinary_ordered? a b .lessEqual) fun r => ?_
    split
    · exact .pure _
    · refine .bind (ordinary_ordered? b a .less) fun r' => ?_
      split
      · exact .pure _
      · exact ordinary_comparisonCause a b

theorem ordinary_length (v : Value) (origin : Origin) : Ordinary (length v origin) := by
  cases v with
  | string s => exact .pure _
  | _ =>
    refine .inspect (fun m => ?_) fun _ _ => rfl
    split
    · exact .callForValue _ _
    · split
      · exact .gets fun _ _ => rfl
      · exact ordinary_operandFault _ _ _

theorem ordinary_concatPair (a b : Value) (oa ob : Origin) :
    Ordinary (concatPair a b oa ob) := by
  refine .inspect (fun m => ?_) fun _ _ => rfl
  split
  · exact .callForValue _ _
  · refine .failWith (fun m => ?_) fun _ _ => rfl
    split
    · exact isOwn_operandFault _ _ _ _
    · exact isOwn_operandFault _ _ _ _

theorem ordinary_concatLeft (origin : Nat → Origin) (right : Value) (left : List Value) :
    Ordinary (concatLeft origin right left) := by
  fun_induction concatLeft origin right left with
  | case1 right => exact .pure _
  | case2 right a rest h hright ih => exact ih
  | case3 right a rest h hright hleft ih => exact ih
  | case4 right a rest h hright hleft run ih => exact ih
  | case5 right a rest h ih => exact .bind (ordinary_concatPair _ _ _ _) fun v => ih v

theorem ordinary_concat (values : List Value) (origin : Nat → Origin) :
    Ordinary (concat values origin) := by
  rw [concat]
  split
  · exact .pure _
  · exact ordinary_concatLeft _ _ _

theorem ordinary_render (v : Value) : Ordinary (render v) := by
  refine .inspect (fun m => ?_) fun _ _ => rfl
  split
  · refine .bind (.callForValue _ _) fun r => ?_
    split
    · exact .pure _
    · exact .complain (fun _ => .renderedText) (fun _ => ⟨by simp, by simp⟩) fun _ _ => rfl
  · split
    · exact .pure _
    · exact .gets fun _ _ => rfl
    · exact .pure _

end Operation

/-! ### Requests -/

namespace Request

open Exec (Ordinary)

theorem ordinary_silently {x : Exec Unit} (h : Ordinary x) : Ordinary (silently x) :=
  .bind h fun _ => .pure _

theorem ordinary_single {x : Exec Value} (h : Ordinary x) : Ordinary (single x) :=
  .bind h fun _ => .pure _

theorem ordinary_next (t : TableId) (k : Value) : Ordinary (Request.next t k).perform := by
  have heq : (Request.next t k).perform = (Exec.state >>= fun m : Machine =>
      ((m.heap.table t).next? k).elim (Exec.fail .traversal) fun following =>
        pure (following.elim [.nil] fun entry => [entry.1.toValue, entry.2])) := by
    funext m
    change Request.perform (.next t k) m = Option.elim ((m.heap.table t).next? k)
      (Exec.fail .traversal) _ m
    rcases h : (m.heap.table t).next? k with _ | _ | e <;> simp only [perform, h] <;> rfl
  rw [heq]
  refine .inspect (fun m => ?_) fun _ _ => rfl
  cases (m.heap.table t).next? k with
  | none => exact .fail ⟨by simp, by simp⟩
  | some following => exact .pure _

/-- A traceback does not depend on the budget. -/
theorem activeTraceback_withBudget (m : Machine) (b : Option Nat) (message : Option String)
    (level : Nat) :
    (m.withBudget b).activeTraceback message level = m.activeTraceback message level := by
  have hsnapshots : (m.withBudget b).snapshots = m.snapshots := rfl
  have hlisting (frames : List FrameSnapshot) :
      (m.withBudget b).listing frames = m.listing frames := by
    refine Machine.listing_congr ?_ frames
    intro s caller
    rfl
  simp only [Machine.activeTraceback, hsnapshots, hlisting]

/-- An entry of the journal is made from the state as it is, apart from the budget. -/
theorem ordinary_add (entry : Machine → JournalEntry)
    (h : ∀ m b, entry (m.withBudget b) = entry m) : Ordinary (Journal.add entry) :=
  .lift (Routine.ordinary_notebook () (fun m =>
    { m.notebook with journal := entry m :: m.notebook.journal }) fun m b => by rw [h]; rfl)

/-- **Requests.** What the machine does for a native function is ordinary. -/
theorem ordinary_perform (r : Request) : Ordinary r.perform := by
  cases r with
  | call f args => exact .call _ _ _
  | index o k => exact ordinary_single (Operation.ordinary_index _ _ _)
  | setIndex o k v => exact ordinary_silently (Operation.ordinary_setIndex _ _ _ _)
  | render v => exact ordinary_single (.bind (Operation.ordinary_render v) fun _ => .pure _)
  | metatable v => exact .gets fun _ _ => rfl
  | setMetatable v mt => exact ordinary_silently (.lift (Metatable.ordinary_assign v mt))
  | typeName v => exact .gets fun _ _ => rfl
  | position level => exact .gets fun _ _ => rfl
  | traceback message level =>
    exact .gets fun m b => by rw [activeTraceback_withBudget]
  | globals => exact .gets fun _ _ => rfl
  | argumentError n text => exact .complain _ (fun _ => ⟨by simp, by simp⟩) fun _ _ => rfl
  | typeError n expected got => exact .complain _ (fun _ => ⟨by simp, by simp⟩) fun _ _ => rfl
  | complain text => exact .complain _ (fun _ => ⟨by simp, by simp⟩) fun _ _ => rfl
  | newTable =>
    exact .lift (Routine.ordinary_heap (fun m => [Value.table (m.heap.addTable .empty).2])
      (fun m => (m.heap.addTable .empty).1) (fun _ _ => rfl) fun _ _ => rfl)
  | newUserdata tag =>
    exact .lift (Routine.ordinary_heap (fun m => [Value.userdata (m.heap.addUserdata { tag }).2])
      (fun m => (m.heap.addUserdata { tag }).1) (fun _ _ => rfl) fun _ _ => rfl)
  | newThread name =>
    exact .lift (Routine.ordinary_heap (fun m => [Value.thread (m.heap.addThread name).2])
      (fun m => (m.heap.addThread name).1) (fun _ _ => rfl) fun _ _ => rfl)
  | load p => exact ordinary_single (.bind (.lift (Closure.ordinary_load p)) fun _ => .pure _)
  | rawGet t k => exact ordinary_single (Operation.ordinary_rawGet t k)
  | rawSet t k v => exact ordinary_silently (Operation.ordinary_rawSet t k v)
  | rawLength t => exact .gets fun _ _ => rfl
  | next t k => exact ordinary_next t k
  | unpack t => exact .gets fun _ _ => rfl
  | remembered name => exact .gets fun _ _ => rfl
  | remember name v =>
    exact .lift (Routine.ordinary_notebook [] (fun m =>
      { m.notebook with bindings := m.notebook.bindings.insert name v }) fun _ _ => rfl)
  | note values => exact ordinary_silently (ordinary_add _ fun _ _ => rfl)
  | noteCaller level => exact ordinary_silently (ordinary_add _ fun _ _ => rfl)
  | noteCallee => exact ordinary_silently (ordinary_add _ fun _ _ => rfl)

end Request

/-! ### Native functions -/

/-- **Native functions.** A native function keeps every tolerant invariant that its calls keep,
whatever it requests. -/
theorem Behaviour.mild_run (b : Behaviour) : Exec.Mild b.run := by
  induction b with
  | finish results => exact (Exec.Ordinary.pure results).mild
  | fail e => exact fun _ _ _ _ _ hm => hm
  | request r next ih => exact (Request.ordinary_perform r).mild.attempt.bind ih
  | newNative name body next _ ih =>
    exact fun _ _ hK hI m hm => ih _ hK hI _ (hI _ _ hm ⟨rfl, rfl, Nat.le_max_left _ _, rfl⟩)

end LuaMachine
