import LuaMachine.Proofs.Machine.AlikeEffects
import LuaMachine.Proofs.Machine.CallEffects

/-!
# Calls in step

A call finds its function and its arguments below the first free slot, where the states agree, and
it writes no slot below that of the function.  The frame of a closure is entered only after all its
registers have been written, and when a frame ends, the states agree on the results.

## Main statements

* `Call.parallel_resolve` : the search for handlers.
* `Call.inStep_pushClosure`, `Call.inStep_runNative`, `Call.inStep_enter` : calls of closures, of
  native functions and of values.
* `Call.inStep_replace` : calls in place of the running one.
* `Call.inStep_leave`, `Call.parallel_afterReturn` : the end of a closure's call.
* `Call.inStep_start`, `Call.inStep_startIterator` : calls that do not belong to the sequence of
  instructions.
-/

namespace LuaMachine

open Machine (Alike Akin)

variable {V : Vantage} {n k : Nat}

namespace Stack

open Routine

/-- The states agree below the first free slot. -/
theorem inStep_top {P : Machine → Machine → Prop} {E : Machine → Machine → Prop}
    (hP : ∀ m m', P m m' → Alike V n k m m') :
    InStep P top (fun free m m' => Alike V (max n free) k m m' ∧ P m m' ∧ m.top = free) E := by
  intro m m' h
  have h' := hP m m' h
  have htop : m'.top = m.top := h'.apply_eq fun _ _ => rfl
  refine ⟨m', congrArg (EStateM.Result.ok · m') htop, h'.extend fun i _ hi => ?_, h, rfl⟩
  exact h'.agree_of_lt_top (by omega)

/-- The values from a slot on end with the first free slot. -/
theorem inStep_countFrom (first : Nat) :
    InStep (Alike V n k) (countFrom first)
      (fun c m m' => Alike V (max n (first + c)) k m m' ∧ m.top = first + c) (Alike V n k) := by
  intro m m' h
  have htop : m'.top = m.top := h.apply_eq fun _ _ => rfl
  by_cases hlt : m.top < first
  · simp only [countFrom, htop, if_pos hlt]
    exact ⟨m', rfl, h⟩
  · simp only [countFrom, htop, if_neg hlt]
    refine ⟨m', rfl, h.extend fun i _ hi => h.agree_of_lt_top ?_, ?_⟩
    · omega
    · omega

end Stack

namespace Call

open Routine (InStep Parallel)

variable {function : Nat} {wanted : Option Nat} {isTailCall isFresh : Bool}

/-! ### Handlers for calls -/

theorem parallel_insertHandler (hlevel : V.level ≤ function) (hfunction : function < n) :
    Parallel V n k (insertHandler function) := by
  refine Parallel.bind (Stack.parallel_read hfunction) fun v =>
    InStep.get (fun _ _ h => h) (fun _ _ => rfl) fun m₀ => ?_
  split
  · exact InStep.fail fun _ _ h => h.1
  · next handler _ =>
    have hinsert : InStep (Alike V (max n m₀.top) k) (do
        Stack.reserve (m₀.top + 1)
        Stack.insert function m₀.top handler
        Stack.setTop (m₀.top + 1))
        (fun _ => Alike V (max (max n m₀.top) (m₀.top + 1)) k) (Alike V (max n m₀.top) k) :=
      InStep.bind (Stack.parallel_reserve _) fun _ =>
        InStep.bind (Stack.inStep_insert hlevel (by omega) (by omega) handler) fun _ =>
          (Stack.parallel_setTop (by omega)).spares fun _ _ h => h.mono (by omega)
    refine hinsert.mono ?_ (fun _ _ _ h => h.mono (by omega)) fun _ _ h => h.mono (by omega)
    rintro m m' ⟨h, rfl⟩
    exact h.extend fun i _ hi => h.agree_of_lt_top (by omega)

theorem parallel_resolveWithin (hlevel : V.level ≤ function) (hfunction : function < n) (c : Nat) :
    Parallel V n k (resolveWithin function c) := by
  induction c with
  | zero =>
    refine (Stack.parallel_read hfunction).bind fun v => ?_
    split
    · exact Parallel.fail
    · exact Parallel.pure
  | succ c ih =>
    refine (Stack.parallel_read hfunction).bind fun v => ?_
    split
    · exact (parallel_insertHandler hlevel hfunction).bind fun _ => ih
    · exact Parallel.pure

/-- **Handlers for calls.** A called value is replaced by the same handlers in both states. -/
theorem parallel_resolve (hlevel : V.level ≤ function) (hfunction : function < n) :
    Parallel V n k (resolve function) :=
  Parallel.get (fun _ _ => rfl) fun _ => parallel_resolveWithin hlevel hfunction _

/-! ### Frames that are added and removed -/

theorem parallel_checkDepth : Parallel V n k checkDepth := by
  refine Parallel.get (fun _ _ => rfl) fun m₀ => ?_
  split
  · exact Parallel.fail
  · exact Parallel.pure

theorem inStep_push {f : Frame} (hf : V.Admits k f.function f.wanted f.isFresh)
    (hfunction : f.function < n) (htop : f.top ≤ n) {E : Machine → Machine → Prop} :
    InStep (Alike V n k) (push f) (fun _ => Alike V n (k + 1)) E := by
  refine InStep.modify fun m m' h => ?_
  have hfunction' : ∀ i ≤ f.function, m'.stack[i]? = m.stack[i]? := fun i hi =>
    h.agree_of_lt (Nat.lt_of_le_of_lt hi hfunction)
  have htop' : ∀ i < f.top, m'.stack[i]? = m.stack[i]? := fun i hi =>
    h.agree_of_lt (Nat.lt_of_lt_of_le hi htop)
  obtain ⟨stack, rfl⟩ := h.exists_stack
  exact h.push hf hfunction' htop'

theorem inStep_pop (hk : V.depth < k) {E : Machine → Machine → Prop} :
    InStep (Alike V n k) pop (fun _ => Alike V n (k - 1)) E := by
  refine InStep.modify fun m m' h => ?_
  have hsize : m.frames.pop.size = k - 1 := by rw [Array.size_pop, h.size_frames]
  obtain ⟨stack, rfl⟩ := h.exists_stack
  have hpop : Alike V n m.frames.pop.size { m with frames := m.frames.pop }
      { m with frames := m.frames.pop, stack } := by
    refine h.take (fun j f hf => ?_) (by omega)
    rw [Array.getElem?_pop] at hf
    split at hf
    · exact hf
    · cases hf
  rwa [hsize] at hpop

/-- The registers behind the parameters are cleared, and the frame is added. -/
theorem inStep_install {id : ClosureId} {base passed registers : Nat}
    (hlevel : V.level ≤ base + passed) (hbase : base + passed ≤ n) (hfunction : function < n)
    (hadmits : V.Admits k function wanted isFresh) :
    InStep (Alike V n k) (do
        Stack.clear (base + passed) (registers - passed)
        push { Frame.ofClosure id function base (base + registers) wanted with isTailCall, isFresh }
        Stack.setTop (base + registers))
      (fun _ => Alike V n (k + 1)) (Akin V n) :=
  InStep.bind ((Stack.inStep_clear hlevel hbase _).spares fun _ _ h => h.akin) fun _ =>
    InStep.bind (inStep_push (hadmits) (by simp only [Frame.ofClosure]; omega)
      (by simp only [Frame.ofClosure]; omega)) fun _ =>
      (Stack.parallel_setTop (by omega)).mono (fun _ _ h => h) (fun _ _ _ h => h.mono (by omega))
        fun _ _ h => h.akin_of_le (by omega)

/-- **The frame of a closure.** All slots up to the end of the new frame hold the same in both
states. -/
theorem inStep_pushClosure (id : ClosureId) (hlevel : V.level ≤ function)
    (hadmits : V.Admits k function wanted isFresh) :
    InStep (Alike V n k) (pushClosure id function wanted isTailCall isFresh)
      (fun _ => Alike V n (k + 1)) (Akin V n) := by
  unfold pushClosure
  refine InStep.bind (parallel_checkDepth.spares fun _ _ h => h.akin) fun _ =>
    InStep.get (fun _ _ h => h) (fun _ _ => rfl) fun m₀ => ?_
  generalize (m₀.heap.closure id).proto = proto
  refine InStep.bind ((Stack.inStep_countFrom _).mono (fun _ _ h => h.1) (fun _ _ _ h => h)
    fun _ _ h => h.akin) fun c => InStep.bind (Stack.inStep_top fun _ _ h => h.1) fun free => ?_
  by_cases hfree : free = function + 1 + c
  · refine InStep.pre ?_ fun _ _ h => h.1
    refine InStep.bind ((Stack.parallel_reserve _).spares fun _ _ h => h.akin_of_le (by omega))
      fun _ => ?_
    split
    · refine InStep.bind ((Stack.inStep_take (by omega) (by omega) (by omega)).spares
        fun _ _ h => h.akin_of_le (by omega)) fun _ => ?_
      exact (inStep_install (by omega) (by omega) (by omega) hadmits).mono (fun _ _ h => h)
        (fun _ _ _ h => h.mono (by omega)) fun _ _ h => h.mono (by omega)
    · exact (inStep_install (by omega) (by omega) (by omega) hadmits).mono (fun _ _ h => h)
        (fun _ _ _ h => h.mono (by omega)) fun _ _ h => h.mono (by omega)
  · exact fun m m' h => absurd (h.2.2.symm.trans h.2.1.2) hfree

/-! ### The end of a call -/

/-- The results are the same in both states. -/
theorem parallel_deliver (hlevel : V.level ≤ function) (hfunction : function ≤ n)
    (values : List Value) : Parallel V n k (deliver function values wanted) :=
  (Stack.parallel_reserve _).bind fun _ =>
    InStep.bind (Stack.inStep_writeAll hlevel hfunction _) fun _ =>
      (Stack.parallel_setTop (by rw [length_adjust]; omega)).mono (fun _ _ h => h)
        (fun _ _ _ h => h.mono (by omega)) fun _ _ h => h.mono (by omega)

/-- The frame below goes on, unless the one that has ended was fresh. -/
theorem parallel_afterReturn {f : Frame} (hf : f.isFresh = false → 0 < k → V.shown < k) :
    Parallel V n k (afterReturn f) := by
  rw [afterReturn]
  split
  · exact Parallel.pure
  · next hfresh =>
    rw [Bool.not_eq_true] at hfresh
    split
    · exact (Stack.parallel_resetTop (hf hfresh)).bind fun _ => Parallel.pure
    · exact Parallel.pure

/-- The innermost frame belongs to the call that is watched. -/
theorem inStep_leave {first c : Nat} (hk : V.depth < k) (hsource : first + c ≤ n) :
    InStep (Alike V n k) (leave first c)
      (fun f m m' => Alike V n (k - 1) m m' ∧ V.Admits (k - 1) f.function f.wanted f.isFresh)
      (Akin V n) := by
  unfold leave
  refine InStep.get (fun _ _ h => h) (fun _ _ => rfl) fun m₀ => ?_
  split
  · exact InStep.fail fun _ _ h => h.1.akin
  · next f hf =>
    have hlast : ∀ m m', Alike V n k m m' ∧ m = m₀ → m.frames[k - 1]? = some f := by
      rintro m m' ⟨h, rfl⟩
      rw [← h.size_frames, ← Array.back?_eq_getElem?]
      exact hf
    intro m m' h
    have hadmits := h.1.admits (k - 1) f (hlast m m' h)
    have hlevel : V.level ≤ f.function := hadmits.level_le (by omega)
    have hextend : Alike V (max n f.function) k m m' := h.1.extend fun i _ hi =>
      h.1.agree_function (Array.mem_of_getElem? (hlast m m' h)) (by omega)
    refine InStep.bind (inStep_pop hk) (fun _ => InStep.bind ((Stack.parallel_reserve _).spares
      fun _ _ h => h.akin_of_le (by omega)) fun _ => InStep.bind ((Stack.inStep_copy hlevel
        (by omega) (by omega)).spares fun _ _ h => h.akin_of_le (by omega)) fun _ =>
      InStep.bind ((Stack.parallel_setTop (by omega)).spares fun _ _ h => h.akin_of_le (by omega))
        fun _ => InStep.pure fun _ _ h => ⟨h.mono (by omega), hadmits⟩) m m' hextend

/-! ### Calls of native functions and of values -/

/-- **Native functions.** A native function that is called takes the same course in both states and
has the same results. -/
theorem inStep_runNative (id : NativeId) (hlevel : V.level ≤ function) (hfunction : function < n)
    (hdepth : V.depth ≤ k)
    (hadmits : V.Admits k function wanted isFresh) :
    Exec.InStep V (Alike V n k) (runNative id function wanted isFresh) (fun _ => Alike V n k)
      (Akin V n) := by
  refine Exec.InStep.bind (.lift (parallel_checkDepth.spares fun _ _ h => h.akin)) fun _ =>
    Exec.InStep.bind (.lift (Stack.inStep_top fun _ _ h => h)) fun free => ?_
  refine Exec.InStep.bind ((Exec.InStep.lift (Stack.parallel_readRange (by omega))).mono
    (fun _ _ h => h.1) (fun _ _ _ h => h) fun _ _ h => h.akin_of_le (by omega)) fun args => ?_
  refine Exec.InStep.bind (.lift (inStep_push hadmits (by simp only [Frame.ofNative]; omega)
    (by simp only [Frame.ofNative]; omega))) fun _ =>
    Exec.InStep.state (fun _ _ h => h) (fun _ _ => rfl) fun m₀ => ?_
  refine Exec.InStep.bind ((Behaviour.parallel_run (by omega) _).spares
    fun _ _ h => h.akin_of_le (by omega)) fun results => ?_
  refine Exec.InStep.bind (.lift (inStep_pop (by omega))) fun _ => ?_
  rw [Nat.add_sub_cancel]
  refine Exec.InStep.bind (.lift ((parallel_deliver hlevel (by omega) results).spares
    fun _ _ h => h.akin_of_le (by omega))) fun _ => ?_
  exact (Exec.InStep.lift (parallel_afterReturn fun hfresh hpos =>
    hadmits.shown_lt hdepth hfresh hpos)).mono (fun _ _ h => h) (fun _ _ _ h => h.mono (by omega))
      fun _ _ h => h.akin_of_le (by omega)

/-- **Calls.** A value is called in a slot on which the states agree. -/
theorem inStep_enter (hlevel : V.level ≤ function) (hfunction : function < n) (hdepth : V.depth ≤ k)
    (hadmits : V.Admits k function wanted isFresh) :
    Exec.InStep V (Alike V n k) (enter function wanted isFresh) (fun _ => Akin V n) (Akin V n) := by
  refine Exec.InStep.bind (.lift ((parallel_resolve hlevel hfunction).spares fun _ _ h => h.akin))
    fun _ => Exec.InStep.bind (.lift ((Stack.parallel_read hfunction).spares fun _ _ h => h.akin))
      fun v => ?_
  split
  · next id =>
    exact Exec.InStep.bind (.lift (inStep_pushClosure id hlevel hadmits)) fun _ =>
      Exec.InStep.pure fun _ _ h => h.akin
  · next id =>
    exact (inStep_runNative id hlevel hfunction hdepth hadmits).mono (fun _ _ h => h)
      (fun _ _ _ h => h.akin) fun _ _ h => h
  · exact Exec.InStep.fail fun _ _ h => h.akin

/-! ### Calls in place of the running one -/

/-- **Tail calls.** Function and arguments are moved down to the slot of the running call. -/
theorem inStep_replace {current : Frame} (id : ClosureId) (hk : V.depth < k)
    (hcurrent : V.Admits (k - 1) current.function current.wanted current.isFresh)
    (hle : current.function ≤ function) (hfunction : function < n) :
    InStep (Alike V n k) (replace current id function) (fun _ => Akin V n) (Akin V n) := by
  have hlevel : V.level ≤ current.function := hcurrent.level_le (by omega)
  refine InStep.bind ((Cell.parallel_closeFrom _).spares fun _ _ h => h.akin) fun _ =>
    InStep.bind ((Stack.inStep_countFrom function).mono (fun _ _ h => h) (fun _ _ _ h => h.1)
      fun _ _ h => h.akin) fun count => ?_
  refine InStep.bind ((Stack.inStep_take hlevel (by omega) (by omega)).spares
    fun _ _ h => h.akin_of_le (by omega)) fun _ => ?_
  refine InStep.bind ((Stack.parallel_setTop (by omega)).spares
    fun _ _ h => h.akin_of_le (by omega)) fun _ => InStep.bind (inStep_pop hk) fun _ => ?_
  refine (inStep_pushClosure id hlevel hcurrent).mono
    (fun _ _ h => h) (fun _ _ _ h => h.akin_of_le (by omega)) fun _ _ h => h.mono (by omega)

/-! ### Calls from within instructions, from native functions and from the host -/

/-- A call that does not belong to the sequence of instructions is refused if too many are in
progress. -/
theorem inStep_enterCounted (hlevel : V.level ≤ function) (hfunction : function < n)
    (hdepth : V.depth ≤ k)
    (hadmits : V.Admits k function wanted true) :
    Exec.InStep V (Alike V n k)
      (do
        let m ← Exec.state
        if m.limits.nativeDepth < m.reentries then .fail .nativeOverflow
        else enter function wanted true)
      (fun _ => Akin V n) (Akin V n) := by
  refine Exec.InStep.state (fun _ _ h => h) (fun _ _ => rfl) fun m₀ => ?_
  split
  · exact Exec.InStep.fail fun _ _ h => h.akin
  · exact inStep_enter hlevel hfunction hdepth hadmits

/-- **Calls from elsewhere.** Function and arguments are put behind slots on which the states
agree. -/
theorem inStep_start (f : Value) (args : List Value) (hlevel : V.level ≤ function)
    (hfunction : function ≤ n) (hdepth : V.depth ≤ k)
    (hadmits : V.Admits k function wanted true) :
    Exec.InStep V.up (Alike V n k) (start f args wanted function)
      (fun _ => Akin V.up n) (Akin V.up n) := by
  have hlevel' : V.up.level ≤ function := hlevel
  refine Exec.InStep.bind (Q := fun _ => Alike V.up n k) (.lift fun m m' h => ⟨_, rfl, h.countUp⟩)
    fun _ => ?_
  refine Exec.InStep.bind (.lift ((Stack.parallel_reserve _).spares fun _ _ h => h.akin)) fun _ =>
    Exec.InStep.bind (.lift ((Stack.inStep_writeAll hlevel' hfunction _).spares
      fun _ _ h => h.akin)) fun _ => ?_
  rw [List.length_cons]
  refine Exec.InStep.bind (.lift ((Stack.parallel_setTop (by omega)).spares
    fun _ _ h => h.akin_of_le (by omega))) fun _ => ?_
  exact (inStep_enterCounted hlevel' (by omega) hdepth hadmits.up).mono (fun _ _ h => h)
    (fun _ _ _ h => h.mono (by omega))
      fun _ _ h => h.mono (by omega)

/-- The function and the arguments of an iterator lie on the stack already. -/
theorem inStep_startIterator {count : Nat} (hlevel : V.level ≤ function) (hfunction : function < n)
    (hdepth : V.depth ≤ k)
    (hadmits : V.Admits k function (some count) true) :
    Exec.InStep V.up (Alike V n k) (startIterator function count) (fun _ => Akin V.up n)
      (Akin V.up n) := by
  have hlevel' : V.up.level ≤ function := hlevel
  exact Exec.InStep.bind (Q := fun _ => Alike V.up n k) (.lift fun m m' h => ⟨_, rfl, h.countUp⟩)
    fun _ => inStep_enterCounted hlevel' hfunction hdepth hadmits.up

end Call

end LuaMachine
