import LuaMachine.Proofs.Machine.Courses
import LuaMachine.Proofs.Value.IntegerLoops

/-!
# Loops on integers in the machine

A loop is prepared by one instruction, and another one stands at its end: it finds the next value
and jumps back to the body, or it goes on behind the loop.  Both look at three control registers.
What the body does does not matter for the values of the loop as long as it leaves these registers
alone. 
## Main definitions

* `Machine.DueAt` : the next instruction works on the registers from some slot on.
* `Machine.Controls` : the control registers of a loop on integers.
* `Machine.LoopRun` : the turns of a loop, with bodies that spare the control registers.

## Main statements

* `Machine.step_forLoop` : what the instruction at the end of a loop does.
* `Machine.LoopRun.invariant` : the values of the turns are those of the progression, wrapped.
* `Machine.integer_loop` : a loop runs for the values that do not lie past the limit, and it ends if
  the first value past the limit has 64 bits.
-/

namespace LuaMachine

open NumericLoop

namespace Machine

variable {m m' m₀ : Machine} {slot : Nat} {i : Instruction}
  {index init limit step : Int64} {v : Value} {vs : List Int64}

/-! ### Instructions of loops -/

/-- The next instruction is an `op`, and `slot` is the register that its operand `A` names. -/
def DueAt (m : Machine) (op : Opcode) (slot : Nat) (i : Instruction) : Prop :=
  ∃ f c, m.Due f c op i ∧ f.base + i.a = slot

/-- The three registers from `slot` on control a loop on integers.  There is one more behind them,
for the variable of the loop. -/
structure Controls (m : Machine) (slot : Nat) (index limit step : Int64) : Prop where
  index : m.stack[slot]? = some (.integer index)
  limit : m.stack[slot + 1]? = some (.integer limit)
  step : m.stack[slot + 2]? = some (.integer step)
  room : slot + 3 < m.stack.size

/-- A slot holds another value. -/
def put (m : Machine) (slot : Nat) (v : Value) : Machine :=
  { m with stack := m.stack.setIfInBounds slot v }

/-- The innermost frame has selected another instruction. -/
def jumped (m : Machine) (offset : Int) : Machine :=
  { m with frames := m.frames.modify (m.frames.size - 1) fun f =>
    { f with pc := (f.pc + offset).toNat } }

/-- The state after the preparation of a loop: the index is one step back. -/
def prepared (m : Machine) (slot : Nat) (init limit step : Int64) (i : Instruction) : Machine :=
  (((m.advance.put slot (.integer (init - step))).put (slot + 1) (.integer limit)).put (slot + 2)
    (.integer step)).jumped i.sbx

/-- The state at the beginning of a turn: its value is the index and the variable of the loop, and
the body is selected. -/
def turned (m : Machine) (slot : Nat) (v : Int64) (i : Instruction) : Machine :=
  ((m.advance.put slot (.integer v)).put (slot + 3) (.integer v)).jumped i.sbx

@[simp] theorem size_put : (m.put slot v).stack.size = m.stack.size :=
  Array.size_setIfInBounds

theorem write_eq (h : slot < m.stack.size) (v : Value) :
    Stack.write slot v m = .ok () (m.put slot v) :=
  if_pos h

theorem loop_eq {a : Activation} {r : Nat} (h : m.Controls (a.slot r) index limit step) :
    a.loop r m = .ok ⟨.integer index, .integer limit, .integer step⟩ m :=
  (Routine.bind_of_ok (Call.read_eq h.index)).trans
    ((Routine.bind_of_ok (Call.read_eq h.limit)).trans (Routine.bind_of_ok (Call.read_eq h.step)))

/-- A loop on integers is prepared by one step back. -/
theorem step_forPrepare (hdue : m.DueAt .forPrepare slot i) (h : m.Controls slot init limit step) :
    Dispatch.step m = .done (m.prepared slot init limit step i) .next := by
  obtain ⟨f, c, hdue, rfl⟩ := hdue
  have hcontrols : m.advance.Controls ((f.activation c).slot i.a) init limit step :=
    ⟨h.index, h.limit, h.step, h.room⟩
  have hprepare : (f.activation c).prepareLoop i m.advance =
      .ok () (m.prepared (f.base + i.a) init limit step i) := by
    rw [Activation.prepareLoop, Routine.bind_of_ok (loop_eq hcontrols), prepare_integers]
    refine (Routine.bind_of_ok (write_eq ?_ _)).trans ((Routine.bind_of_ok (write_eq ?_ _)).trans
      (Routine.bind_of_ok (write_eq ?_ _)))
    · exact Nat.lt_of_le_of_lt (Nat.le_add_right _ 3) h.room
    · rw [size_put]
      exact Nat.lt_of_le_of_lt (Nat.le_add_right _ 2) h.room
    · rw [size_put, size_put]
      exact Nat.lt_of_succ_lt h.room
  rw [Dispatch.step_of_due hdue]
  exact Exec.bind_of_ok hprepare

/-- The instruction at the end of a loop begins another turn, unless the next value lies past the
limit. -/
theorem step_forLoop (hdue : m.DueAt .forLoop slot i) (h : m.Controls slot index limit step) :
    Dispatch.step m = .done (if Past limit step (index + step).toInt then m.advance
      else m.turned slot (index + step) i) .next := by
  obtain ⟨f, c, hdue, rfl⟩ := hdue
  have hcontrols : m.advance.Controls ((f.activation c).slot i.a) index limit step :=
    ⟨h.index, h.limit, h.step, h.room⟩
  have hadvance : (f.activation c).advanceLoop i m.advance =
      .ok () (if Past limit step (index + step).toInt then m.advance
        else m.turned (f.base + i.a) (index + step) i) := by
    rw [Activation.advanceLoop, Routine.bind_of_ok (loop_eq hcontrols), advance?_integers]
    split
    · rfl
    · refine (Routine.bind_of_ok (write_eq ?_ _)).trans (Routine.bind_of_ok (write_eq ?_ _))
      · exact Nat.lt_of_le_of_lt (Nat.le_add_right _ 3) h.room
      · rw [size_put]
        exact h.room
  rw [Dispatch.step_of_due hdue]
  exact Exec.bind_of_ok hadvance

/-! ### The control registers -/

theorem getElem?_put_self (h : slot < m.stack.size) : (m.put slot v).stack[slot]? = some v :=
  Array.getElem?_setIfInBounds_self_of_lt h

theorem getElem?_put_ne {j : Nat} (h : slot ≠ j) : (m.put slot v).stack[j]? = m.stack[j]? :=
  Array.getElem?_setIfInBounds_ne h

@[simp] theorem stack_jumped (offset : Int) : (m.jumped offset).stack = m.stack := rfl

@[simp] theorem stack_advance : m.advance.stack = m.stack := rfl

theorem Controls.prepared (h : m.Controls slot init limit step) :
    (m.prepared slot init limit step i).Controls slot (init - step) limit step := by
  have hroom := h.room
  constructor <;> simp only [Machine.prepared, stack_jumped]
  · rw [getElem?_put_ne (by omega), getElem?_put_ne (by omega), getElem?_put_self]
    rw [stack_advance]
    omega
  · rw [getElem?_put_ne (by omega), getElem?_put_self]
    rw [size_put, stack_advance]
    omega
  · rw [getElem?_put_self]
    rw [size_put, size_put, stack_advance]
    omega
  · simpa only [size_put, stack_advance]

/-- At the beginning of a turn its value is the index. -/
theorem Controls.turned (h : m.Controls slot index limit step) (v : Int64) :
    (m.turned slot v i).Controls slot v limit step := by
  have hroom := h.room
  constructor <;> simp only [Machine.turned, stack_jumped]
  · rw [getElem?_put_ne (by omega), getElem?_put_self]
    rw [stack_advance]
    omega
  · rw [getElem?_put_ne (by omega), getElem?_put_ne (by omega), stack_advance, h.limit]
  · rw [getElem?_put_ne (by omega), getElem?_put_ne (by omega), stack_advance, h.step]
  · simpa only [size_put, stack_advance]

/-- At the beginning of a turn its value is also that of the variable. -/
theorem Controls.delivered_turned (h : m.Controls slot index limit step) (v : Int64) :
    (m.turned slot v i).stack[slot + 3]? = some (.integer v) := by
  rw [Machine.turned, stack_jumped, getElem?_put_self]
  rw [size_put, stack_advance]
  exact h.room

/-- The machine goes from one state to another and leaves the control registers of a loop alone. -/
structure Spares (m : Machine) (slot : Nat) (m' : Machine) : Prop where
  kept : ∀ r < 3, m'.stack[slot + r]? = m.stack[slot + r]?
  size_le : m.stack.size ≤ m'.stack.size

theorem Controls.of_spares (h : m.Controls slot index limit step) (hspares : m.Spares slot m') :
    m'.Controls slot index limit step where
  index := (hspares.kept 0 (by decide)).trans h.index
  limit := (hspares.kept 1 (by decide)).trans h.limit
  step := (hspares.kept 2 (by decide)).trans h.step
  room := Nat.lt_of_lt_of_le h.room hspares.size_le

/-! ### Turns -/

/-- The machine goes on with the next instruction, and nothing else changes. -/
def Leaves (m : Machine) : Prop := Dispatch.step m = .done m.advance .next

/-- The machine begins a turn of a loop with a value, which it puts into the index register and into
the variable of the loop. -/
structure TurnsWith (m : Machine) (slot : Nat) (v : Int64) (i : Instruction) : Prop where
  step : Dispatch.step m = .done (m.turned slot v i) .next
  stays : ¬m.Leaves
  index : (m.turned slot v i).stack[slot]? = some (.integer v)
  delivered : (m.turned slot v i).stack[slot + 3]? = some (.integer v)

/-- The turns that a loop makes, beginning in the state `m₀`, with their values.  Between its turns
the machine may do anything that spares the control registers. -/
inductive LoopRun (slot : Nat) (m₀ : Machine) : List Int64 → Machine → Prop where
  | begin : LoopRun slot m₀ [] m₀
  | body {vs : List Int64} {m m' : Machine} (run : LoopRun slot m₀ vs m)
      (spares : m.Spares slot m') : LoopRun slot m₀ vs m'
  | turn {vs : List Int64} {m : Machine} {v : Int64} {i : Instruction} (run : LoopRun slot m₀ vs m)
      (due : m.DueAt .forLoop slot i) (turns : m.TurnsWith slot v i) :
      LoopRun slot m₀ (vs ++ [v]) (m.turned slot v i)

/-- A turn changes the index, so that the loop does not leave at the same time. -/
theorem turned_ne_advance (h : m.Controls slot index limit step) (hstep : step ≠ 0) :
    m.turned slot (index + step) i ≠ m.advance := fun heq => by
  have hindex : m.advance.stack[slot]? = some (.integer (index + step)) :=
    heq ▸ (h.turned (index + step)).index
  have hsame : index + step = index :=
    Value.integer.inj (Option.some.inj (hindex.symm.trans h.index))
  exact hstep (by simpa using hsame)

/-- The loop leaves if the next value lies past the limit. -/
theorem leaves_iff (hdue : m.DueAt .forLoop slot i) (h : m.Controls slot index limit step)
    (hstep : step ≠ 0) : m.Leaves ↔ Past limit step (index + step).toInt := by
  rw [Leaves, step_forLoop hdue h]
  split
  · next hpast => exact iff_of_true rfl hpast
  · next hpast =>
    exact iff_of_false (fun heq => turned_ne_advance h hstep (Resumption.done.inj heq).1) hpast

/-- Otherwise it turns with that value and no other. -/
theorem turnsWith_iff {v : Int64} (hdue : m.DueAt .forLoop slot i)
    (h : m.Controls slot index limit step) (hstep : step ≠ 0) :
    m.TurnsWith slot v i ↔ ¬Past limit step (index + step).toInt ∧ v = index + step := by
  constructor
  · intro hturns
    have hpast : ¬Past limit step (index + step).toInt :=
      fun hpast => hturns.stays ((leaves_iff hdue h hstep).2 hpast)
    refine ⟨hpast, ?_⟩
    have heq := hturns.step
    rw [step_forLoop hdue h, if_neg hpast] at heq
    have hindex := hturns.index
    rw [← (Resumption.done.inj heq).1, (h.turned _).index] at hindex
    exact (Value.integer.inj (Option.some.inj hindex)).symm
  · rintro ⟨hpast, rfl⟩
    exact
      { step := by rw [step_forLoop hdue h, if_neg hpast]
        stays := fun hleaves => hpast ((leaves_iff hdue h hstep).1 hleaves)
        index := (h.turned _).index
        delivered := h.delivered_turned _ }

/-- **Values of turns.** The index is one step before the next value of the progression, wrapped,
and the turns have had the values before that. -/
theorem LoopRun.invariant (hrun : LoopRun slot m₀ vs m) (hstep : step ≠ 0)
    (h : m₀.Controls slot (init - step) limit step) :
    m.Controls slot (wrapped init step vs.length - step) limit step ∧
      vs = (List.range vs.length).map (wrapped init step) := by
  induction hrun with
  | begin => exact ⟨by simpa using h, rfl⟩
  | body _ hspares ih => exact ⟨ih.1.of_spares hspares, ih.2⟩
  | @turn vs m v i _ hdue hturns ih =>
    obtain ⟨-, hv⟩ := (turnsWith_iff hdue ih.1 hstep).1 hturns
    rw [Int64.sub_add_cancel] at hv
    subst hv
    refine ⟨?_, ?_⟩
    · rw [List.length_append, List.length_singleton, wrapped_succ, Int64.add_sub_cancel]
      exact ih.1.turned _
    · rw [List.length_append, List.length_singleton, List.range_succ, List.map_append, ← ih.2]
      rfl

/-- Before the first value past the limit the values of the turns are those of the progression. -/
theorem LoopRun.values (hrun : LoopRun slot m₀ vs m) (hstep : step ≠ 0)
    (h : m₀.Controls slot (init - step) limit step) :
    (vs.take (turnCount init limit step)).map Int64.toInt =
      (List.range (min (turnCount init limit step) vs.length)).map (progression init step) := by
  rw [(hrun.invariant hstep h).2, ← List.map_take, List.take_range, List.map_map, List.length_map,
    List.length_range]
  refine List.map_congr_left fun k hk => ?_
  have hlt : k < turnCount init limit step :=
    Nat.lt_of_lt_of_le (List.mem_range.1 hk) (Nat.min_le_left _ _)
  exact toInt_wrapped (representable_of_lt hstep hlt)

/-- **Turns and ends.** The next turn or the end of a loop up to the first value past the limit. -/
theorem LoopRun.next (hrun : LoopRun slot m₀ vs m) (hstep : step ≠ 0)
    (h : m₀.Controls slot (init - step) limit step) (hdue : m.DueAt .forLoop slot i)
    (hle : vs.length ≤ turnCount init limit step) :
    (m.Leaves ↔ vs.length = turnCount init limit step ∧
      Representable (progression init step vs.length)) ∧
    (¬m.Leaves → m.TurnsWith slot (wrapped init step vs.length) i) := by
  have hcontrols := (hrun.invariant hstep h).1
  have hleaves := leaves_iff hdue hcontrols hstep
  rw [Int64.sub_add_cancel] at hleaves
  refine ⟨hleaves.trans (past_wrapped_iff hstep hle), fun hstays => ?_⟩
  rw [turnsWith_iff hdue hcontrols hstep, Int64.sub_add_cancel]
  exact ⟨fun hpast => hstays (hleaves.2 hpast), rfl⟩

/-- **Loops on integers.** A loop makes a turn for each value of the progression that does not lie
past the limit, in order.  Then it ends if the first value past the limit has 64 bits; otherwise it
goes on. -/
theorem integer_loop (hdue : m.DueAt .forPrepare slot i) (h : m.Controls slot init limit step)
    (hstep : step ≠ 0) :
    Dispatch.step m = .done (m.prepared slot init limit step i) .next ∧
    (∀ k, Past limit step (progression init step k) ↔ turnCount init limit step ≤ k) ∧
    ∀ vs m', LoopRun slot (m.prepared slot init limit step i) vs m' →
      (vs.take (turnCount init limit step)).map Int64.toInt =
        (List.range (min (turnCount init limit step) vs.length)).map (progression init step) ∧
      ∀ j, m'.DueAt .forLoop slot j →
        (vs.length < turnCount init limit step →
          ∃ v, v.toInt = progression init step vs.length ∧ m'.TurnsWith slot v j) ∧
        (vs.length = turnCount init limit step →
          (m'.Leaves ↔ Representable (progression init step vs.length)) ∧
          (¬m'.Leaves → ∃ v, m'.TurnsWith slot v j)) := by
  refine ⟨step_forPrepare hdue h, past_progression_iff hstep, fun vs m' hrun =>
    ⟨hrun.values hstep h.prepared, fun j hdue' => ⟨fun hlt => ?_, fun heq => ?_⟩⟩⟩
  · obtain ⟨hleaves, hturns⟩ := hrun.next hstep h.prepared hdue' (Nat.le_of_lt hlt)
    have hstays : ¬m'.Leaves := fun h' => Nat.ne_of_lt hlt (hleaves.1 h').1
    exact ⟨_, toInt_wrapped (representable_of_lt hstep hlt), hturns hstays⟩
  · obtain ⟨hleaves, hturns⟩ := hrun.next hstep h.prepared hdue' (Nat.le_of_eq heq)
    exact ⟨hleaves.trans (and_iff_right heq), fun hstays => ⟨_, hturns hstays⟩⟩

end Machine

/-! ### A loop that ends -/

/-- A function with an empty loop. -/
def looping : Prototype where
  code := #[.asbx .forPrepare 0 0, .asbx .forLoop 0 (-1)]
  registers := 4

/-- It is about to count from three to eight in steps of four. -/
def countingByFour : Machine :=
  { Machine.new {} with
    heap.closures := #[⟨looping, #[]⟩]
    stack := #[.integer 3, .integer 8, .integer 4, .nil]
    top := 4
    frames := #[{ closure? := some ⟨0⟩, function := 0, base := 0, top := 4, wanted := none }] }

/-- The loop makes two turns, and it ends. -/
theorem integer_loop_countingByFour : ∃ m₀ m₁ m₂ : Machine,
    Dispatch.step countingByFour = .done m₀ .next ∧
    Dispatch.step m₀ = .done m₁ .next ∧ m₁.stack[3]? = some (.integer 3) ∧
    Dispatch.step m₁ = .done m₂ .next ∧ m₂.stack[3]? = some (.integer 7) ∧
    Dispatch.step m₂ = .done m₂.advance .next := by
  have hdue : countingByFour.DueAt .forPrepare 0 (.asbx .forPrepare 0 0) :=
    ⟨_, _, ⟨rfl, rfl, rfl, rfl, nofun⟩, rfl⟩
  obtain ⟨hstep₀, -, hruns⟩ := Machine.integer_loop hdue
    (⟨rfl, rfl, rfl, by decide⟩ : countingByFour.Controls 0 3 8 4) (by decide)
  have hdue₀ : (countingByFour.prepared 0 3 8 4 (.asbx .forPrepare 0 0)).DueAt .forLoop 0
      (.asbx .forLoop 0 (-1)) := ⟨_, _, ⟨rfl, rfl, rfl, rfl, nofun⟩, rfl⟩
  obtain ⟨v, hv, hturn₁⟩ := ((hruns [] _ .begin).2 _ hdue₀).1 (by decide)
  obtain rfl : v = 3 := Int64.toInt_inj.1 (hv.trans (by decide))
  have hrun₁ := Machine.LoopRun.begin.turn hdue₀ hturn₁
  have hdue₁ : ((countingByFour.prepared 0 3 8 4 (.asbx .forPrepare 0 0)).turned 0 3
      (.asbx .forLoop 0 (-1))).DueAt .forLoop 0 (.asbx .forLoop 0 (-1)) :=
    ⟨_, _, ⟨rfl, rfl, rfl, rfl, nofun⟩, rfl⟩
  obtain ⟨v, hv, hturn₂⟩ := ((hruns _ _ hrun₁).2 _ hdue₁).1 (by decide)
  obtain rfl : v = 7 := Int64.toInt_inj.1 (hv.trans (by decide))
  have hrun₂ := hrun₁.turn hdue₁ hturn₂
  have hdue₂ : (((countingByFour.prepared 0 3 8 4 (.asbx .forPrepare 0 0)).turned 0 3
      (.asbx .forLoop 0 (-1))).turned 0 7 (.asbx .forLoop 0 (-1))).DueAt .forLoop 0
      (.asbx .forLoop 0 (-1)) := ⟨_, _, ⟨rfl, rfl, rfl, rfl, nofun⟩, rfl⟩
  have hleaves := (((hruns _ _ hrun₂).2 _ hdue₂).2 (by decide)).1.2 ⟨11, by decide⟩
  exact ⟨_, _, _, hstep₀, hturn₁.step, hturn₁.delivered, hturn₂.step, hturn₂.delivered, hleaves⟩

end LuaMachine
