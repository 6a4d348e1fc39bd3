import LuaMachine.Proofs.Machine.OperationEffects

/-!
# Effects of calls

A call from a state `m₀` adds a frame for a closure, or it runs a native function to its end.  Until
then the state evolves from `m₀`, and the frames that were there stay.  The called function lies in
a slot from `level` on, so that only cells from there on are opened and closed.

## Main definitions

* `Held`, `Vacated` : the state has evolved, with given frames and a given first free slot; and no
  cell is open at a register of the innermost frame.
* `Call.Site` : a slot above active frames, in which a call can be made.
* `Call.Callable`, `Call.Resolved` : the called value, before and after the search for handlers.
* `Call.Pushed` : the frame of a closure has been added.
* `Call.Left`, `Call.Entered` : a call has ended; a call has been entered or has ended at once.
* `Call.Refused` : a call has failed.

## Main statements

* `Call.triple_pushClosure`, `Call.triple_runNative` : calls of closures and of native functions.
* `Call.triple_resolve` : the search for handlers.
* `Call.triple_enter` : calls of values.
* `Call.triple_replace` : calls in place of the running one.
* `Call.triple_leave`, `Call.triple_afterReturn` : the end of a closure's call.
* `Call.triple_start`, `Call.triple_startIterator` : calls that do not belong to the sequence of
  instructions.
-/

namespace LuaMachine

open Routine (Triple)

variable {level : Nat} {I : Machine → Prop}

/-! ### States in the course of a call -/

/-- The state has evolved from `m₀` and has given frames and a given first free slot. -/
structure Held (level : Nat) (m₀ : Machine) (frames : Array Frame) (top : Nat) (m : Machine) :
    Prop where
  evolves : m₀.Evolves level m
  frames : m.frames = frames
  top : m.top = top

theorem robust_held {m₀ : Machine} {frames : Array Frame} {top : Nat} :
    Robust level (Held level m₀ frames top) where
  sound := fun _ h => h.evolves.sound
  quiet := fun _ _ h hq =>
    { evolves := h.evolves.trans hq.toEvolves
      frames := hq.frames.trans h.frames
      top := hq.top.trans h.top }

/-- Moreover, no cell is open at a register of the innermost frame `g`, so that it can be removed. -/
structure Vacated (level : Nat) (m₀ : Machine) (fs : Array Frame) (g : Frame) (top : Nat)
    (m : Machine) : Prop extends Held level m₀ (fs.push g) top m where
  vacant : ∀ e ∈ m.openCells, ¬g.Owns e.1

theorem StackRobust.and {I J : Machine → Prop} (hI : StackRobust I) (hJ : StackRobust J) :
    StackRobust fun m => I m ∧ J m :=
  fun m stack h hstack => ⟨hI m stack h.1 hstack, hJ m stack h.2 hstack⟩

theorem stackRobust_vacated {m₀ : Machine} {fs : Array Frame} {g : Frame} {top : Nat} :
    StackRobust (Vacated level m₀ fs g top) :=
  fun m stack h hstack => { robust_held.stack m stack h.toHeld hstack with vacant := h.vacant }

namespace Call

/-- The frames lie on the stack of `m₀`, one on top of the other, and a call can be made in the slot
`function` above them. -/
structure Site (m₀ : Machine) (fs : Array Frame) (function : Nat) : Prop where
  stable : ∀ f ∈ fs, f.Stable m₀
  chained : Frame.Chained fs
  above : ∀ f, fs.back? = some f → f.function < function

theorem Site.countUp {s : Machine} {function : Nat} (hs : s.Steady)
    (h : ∀ f, s.frames.back? = some f → f.function < function) :
    Site s.countUp s.frames function :=
  ⟨hs.countUp.stable, hs.chained, h⟩

/-- A frame has been added for a call of the closure `id` in slot `function`. -/
structure Pushed (level : Nat) (m₀ : Machine) (fs : Array Frame) (id : ClosureId) (function : Nat)
    (wanted : Option Nat) (isFresh : Bool) (f : Frame) (m : Machine) : Prop where
  evolves : m₀.Evolves level m
  frames : m.frames = fs.push f
  fits : f.Fits m
  closure : f.closure? = some id
  function : f.function = function
  wanted : f.wanted = wanted
  caller : f.caller? = Frame.innermost? fs
  isFresh : f.isFresh = isFresh

variable {m₀ : Machine} {fs : Array Frame} {function : Nat} {id : ClosureId} {wanted : Option Nat}
  {isTailCall isFresh : Bool}

/-- The number of frames is below the limit if the check does not fail. -/
theorem triple_checkDepth {top : Nat} :
    Triple (Held level m₀ fs top) checkDepth
      (fun _ m => Held level m₀ fs top m ∧ fs.size < m₀.limits.callDepth)
      (Stop.Spares (Held level m₀ fs top)) := by
  refine Triple.bind (Q := fun m₁ m => Held level m₀ fs top m ∧ m₁ = m)
    (Triple.get fun m hm => ⟨hm, rfl⟩) fun m₁ => ?_
  split
  · exact Triple.fail fun m hm => hm.1
  · next h =>
    refine Triple.pure fun m hm => ⟨hm.1, ?_⟩
    obtain ⟨hm, rfl⟩ := hm
    rw [← hm.frames, ← hm.evolves.limits]
    omega

/-! ### Frames that are added and removed -/

theorem triple_push {top : Nat} (f : Frame) {E : Stop → Machine → Prop} :
    Triple (Held level m₀ fs top) (push f)
      (fun _ => Held level m₀ (fs.push { f with caller? := Frame.innermost? fs }) top) E :=
  Triple.modify fun m hm => by
    rw [hm.frames]
    exact
      { evolves := hm.evolves.setFrames fun h => (hm.frames ▸ h).push _
        frames := rfl
        top := hm.top }

theorem triple_pop {top : Nat} {g : Frame} {E : Stop → Machine → Prop} :
    Triple (Vacated level m₀ fs g top) pop (fun _ => Held level m₀ fs top) E :=
  Triple.modify fun m hm => by
    have hpop : m.frames.pop = fs := by simp [hm.frames]
    rw [hpop]
    exact
      { evolves := hm.evolves.setFrames fun h => (hm.frames ▸ h).pop hm.vacant
        frames := rfl
        top := hm.top }

/-- When the cells of a frame have been closed, it can be removed. -/
theorem triple_vacate {top : Nat} {g : Frame} (hlevel : level ≤ g.base) {E : Stop → Machine → Prop} :
    Triple (Held level m₀ (fs.push g) top) (Cell.closeFrom g.base)
      (fun _ => Vacated level m₀ fs g top) E :=
  (Cell.triple_closeFrom robust_held hlevel).mono (fun _ hm => hm)
    (fun _ _ hm => { hm.1 with
      vacant := fun e he howns => Nat.not_lt.2 howns.2.1 (hm.2 e.1 e.2 he) })
    fun _ _ h => h.elim

/-- The registers behind the parameters are cleared, and the frame is added. -/
theorem triple_install {base passed registers : Nat} (hbase : function < base)
    (hI : StackRobust I) (hevolves : ∀ m, I m → m₀.Evolves level m ∧ m.frames = fs)
    (hregisters : ∀ m, I m → (m.heap.closure id).proto.registers = registers)
    (hsize : ∀ m, I m → base + max passed registers ≤ m.stack.size) :
    Triple I (do
        Stack.clear (base + passed) (registers - passed)
        push { Frame.ofClosure id function base (base + registers) wanted with isTailCall, isFresh }
        Stack.setTop (base + registers))
      (fun _ m => ∃ f, Pushed level m₀ fs id function wanted isFresh f m)
      (Stop.Spares fun m => m₀.Evolves level m ∧ m.frames = fs) := by
  have hclear : Routine.Keeps I (Stack.clear (base + passed) (registers - passed)) :=
    Stack.keeps_clear hI fun m hm => by
      have := hsize m hm
      omega
  refine Triple.bind (hclear.spares hevolves) fun _ m hm => ?_
  obtain ⟨h, hframes⟩ := hevolves m hm
  have htop : base + registers ≤ m.stack.size := by
    have := hsize m hm
    omega
  refine ⟨{ Frame.ofClosure id function base (base + registers) wanted with
      caller? := Frame.innermost? fs, isTailCall, isFresh }, ?_⟩
  exact
    { evolves := (h.setFrames fun hc => hc.push _).setTop htop
      frames := hframes ▸ rfl
      fits := ⟨hbase, Nat.le_add_right _ _, htop, fun id' hid => by
        obtain rfl := Option.some.inj hid
        exact congrArg (base + ·) (hregisters m hm).symm⟩
      closure := rfl
      function := rfl
      wanted := rfl
      caller := rfl
      isFresh := rfl }

/-- **The frame of a closure.** If another frame is allowed, the slot of the called function must
lie below the first free one. -/
theorem triple_pushClosure {top : Nat} (id : ClosureId)
    (htop : fs.size < m₀.limits.callDepth → function < top) :
    Triple (Held level m₀ fs top) (pushClosure id function wanted isTailCall isFresh)
      (fun _ m => ∃ f, Pushed level m₀ fs id function wanted isFresh f m)
      (Stop.Spares fun m => m₀.Evolves level m ∧ m.frames = fs) := by
  have hfail : ∀ m, Held level m₀ fs top m → m₀.Evolves level m ∧ m.frames = fs :=
    fun _ h => ⟨h.evolves, h.frames⟩
  unfold pushClosure
  refine Triple.bind (triple_checkDepth.spares hfail) fun _ => Triple.assume fun hdepth => ?_
  have hfunction := htop hdepth
  -- The prototype is read once, and what follows changes nothing but the stack.
  refine Triple.bind (Q := fun m₁ m => Held level m₀ fs top m ∧
    m.heap.closures = m₁.heap.closures) (Triple.get fun m hm => ⟨hm, rfl⟩) fun m₁ => ?_
  generalize hproto : (m₁.heap.closure id).proto = proto
  let J : Machine → Prop := fun m => Held level m₀ fs top m ∧ m.heap.closures = m₁.heap.closures
  have hJ : StackRobust J := robust_held.stack.and fun _ _ h _ => h
  have hfail' : ∀ m, J m → m₀.Evolves level m ∧ m.frames = fs := fun m hm => hfail m hm.1
  have hcount : Triple J (Stack.countFrom (function + 1))
      (fun n m => J m ∧ top = function + 1 + n) (Stop.Spares J) :=
    (Stack.triple_countFrom fun m hm => hm.1.top.symm ▸ hfunction).post
      fun _ _ hm => ⟨hm.1, hm.1.1.top ▸ hm.2⟩
  refine Triple.bind (hcount.spares hfail') fun n => Triple.assume fun hn => ?_
  have hfree : Triple J Stack.top (fun free m => J m ∧ free = top)
      (Stop.Spares fun m => m₀.Evolves level m ∧ m.frames = fs) := fun m hm => ⟨hm, hm.1.top⟩
  refine Triple.bind hfree fun free => Triple.assume fun hfree => ?_
  subst hfree
  refine Triple.bind ((Stack.triple_reserve hJ _).spares hfail') fun _ => ?_
  let J' : Machine → Prop := fun m => J m ∧ free + proto.parameters + proto.registers ≤ m.stack.size
  have hJ' : StackRobust J' := hJ.and fun m stack hm hsize => Nat.le_trans hm hsize
  have hregisters : ∀ m, J' m → (m.heap.closure id).proto.registers = proto.registers := by
    intro m hm
    rw [Heap.closure, hm.1.2, ← Heap.closure, hproto]
  split
  · have htake : Routine.Keeps J' (Stack.take (function + 1) free n proto.parameters) :=
      Stack.keeps_take hJ' (fun m hm _ => by have := hm.2; omega) fun m hm => by
        have := hm.2
        omega
    refine Triple.bind (htake.spares fun m hm => hfail' m hm.1) fun _ => ?_
    exact triple_install (by omega) hJ' (fun m hm => hfail' m hm.1) hregisters fun m hm => by
      have := hm.2
      omega
  · exact triple_install (by omega) hJ' (fun m hm => hfail' m hm.1) hregisters fun m hm => by
      have := hm.2
      omega

/-! ### Handlers for calls -/

theorem triple_insertHandler {top : Nat} (hle : function ≤ top) :
    Triple (fun m => Held level m₀ fs top m ∧ function < m.stack.size) (insertHandler function)
      (fun _ m => Held level m₀ fs (top + 1) m ∧ function < m.stack.size)
      (Stop.Spares fun m => m₀.Evolves level m ∧ m.frames = fs) := by
  let I : Machine → Prop := fun m => Held level m₀ fs top m ∧ function < m.stack.size
  have hI : StackRobust I := robust_held.stack.and fun _ _ h hsize => Nat.lt_of_lt_of_le h hsize
  have hfail : ∀ m, I m → m₀.Evolves level m ∧ m.frames = fs := fun m hm =>
    ⟨hm.1.evolves, hm.1.frames⟩
  unfold insertHandler
  refine Triple.bind ((Stack.keeps_read fun m hm => hm.2).spares hfail) fun v =>
    Triple.bind (Q := fun m₁ m => I m ∧ m₁.top = top) (Triple.get fun m hm => ⟨hm, hm.1.top⟩)
      fun m₁ => Triple.assume fun htop => ?_
  split
  · exact Triple.fail hfail
  · rw [htop]
    refine Triple.bind ((Stack.triple_reserve hI _).spares hfail) fun _ => Triple.bind
      ((Stack.keeps_insert (hI.and fun _ _ h hsize => Nat.le_trans h hsize) _ hle
        fun m hm => hm.2).spares fun m hm => hfail m hm.1) fun _ => Triple.modify fun m hm => ?_
    exact ⟨⟨hm.1.1.evolves.setTop hm.2, hm.1.1.frames, rfl⟩, hm.1.2⟩

/-- The called value lies in the slot `function`, and below the first free slot unless it is no
function. -/
structure Callable (level : Nat) (m₀ : Machine) (fs : Array Frame) (function free : Nat)
    (m : Machine) : Prop extends Held level m₀ fs free m where
  function_lt : function < m.stack.size
  not_isFunction : free = function → ∀ v, m.stack[function]? = some v → v.isFunction = false

/-- A function lies in the slot `function`, below the first free slot. -/
structure Resolved (level : Nat) (m₀ : Machine) (fs : Array Frame) (function : Nat) (m : Machine) :
    Prop where
  evolves : m₀.Evolves level m
  frames : m.frames = fs
  function_lt : function < m.top
  isFunction : ∃ v, m.stack[function]? = some v ∧ v.isFunction

theorem Callable.resolved {top : Nat} {v : Value} {m : Machine} (hle : function ≤ top)
    (h : Callable level m₀ fs function top m) (hread : m.stack[function]? = some v)
    (hv : v.isFunction) : Resolved level m₀ fs function m where
  evolves := h.evolves
  frames := h.frames
  function_lt := by
    have hne : function ≠ top := fun htop => by simp [h.not_isFunction htop.symm v hread] at hv
    exact h.top ▸ Nat.lt_of_le_of_ne hle hne
  isFunction := ⟨v, hread, hv⟩

theorem triple_resolveWithin {top : Nat} (n : Nat) (hle : function ≤ top) :
    Triple (Callable level m₀ fs function top) (resolveWithin function n)
      (fun _ m => Resolved level m₀ fs function m)
      (Stop.Spares fun m => m₀.Evolves level m ∧ m.frames = fs) := by
  have hfail : ∀ top m, Callable level m₀ fs function top m →
      m₀.Evolves level m ∧ m.frames = fs := fun _ m hm => ⟨hm.evolves, hm.frames⟩
  induction n generalizing top with
  | zero =>
    refine Triple.bind ((Stack.triple_read fun m hm => hm.function_lt).spares (hfail top))
      fun v => ?_
    split
    · exact Triple.fail fun m hm => hfail top m hm.1
    · next hv => exact Triple.pure fun m hm => hm.1.resolved hle hm.2 (by simpa using hv)
  | succ n ih =>
    refine Triple.bind ((Stack.triple_read fun m hm => hm.function_lt).spares (hfail top))
      fun v => ?_
    split
    · refine Triple.bind ((triple_insertHandler hle).pre
        fun m hm => ⟨hm.1.toHeld, hm.1.function_lt⟩) fun _ => ?_
      -- Once a handler has been inserted, the function lies below the first free slot.
      refine (ih (Nat.le_succ_of_le hle)).pre fun m hm => ⟨hm.1, hm.2, fun h => ?_⟩
      omega
    · next hv => exact Triple.pure fun m hm => hm.1.resolved hle hm.2 (by simpa using hv)

/-- **Handlers for calls.** A callable value is replaced by handlers until there is a function. -/
theorem triple_resolve {top : Nat} (hle : function ≤ top) :
    Triple (Callable level m₀ fs function top) (resolve function)
      (fun _ m => Resolved level m₀ fs function m)
      (Stop.Spares fun m => m₀.Evolves level m ∧ m.frames = fs) :=
  Triple.bind (Q := fun _ => Callable level m₀ fs function top) (Triple.get fun _ hm => hm)
    fun _ => triple_resolveWithin _ hle

/-! ### The end of a call -/

/-- The results of a call lie in the slots from `function` up to the first free one. -/
structure Left (level : Nat) (m₀ : Machine) (fs : Array Frame) (function : Nat)
    (wanted : Option Nat) (m : Machine) : Prop where
  evolves : m₀.Evolves level m
  frames : m.frames = fs
  function_le : function ≤ m.top
  count : ∀ n, wanted = some n → m.top = function + n

/-- How a call goes on that has been entered: a closure runs in a new frame, or the call has ended
already. -/
inductive Entered (level : Nat) (m₀ : Machine) (fs : Array Frame) (function : Nat)
    (wanted : Option Nat) (isFresh : Bool) : Control → Machine → Prop where
  | pushed {id : ClosureId} {f : Frame} {m : Machine} :
    Pushed level m₀ fs id function wanted isFresh f m →
    Entered level m₀ fs function wanted isFresh .next m
  | finished {m : Machine} : isFresh = true → Left level m₀ fs function wanted m →
    Entered level m₀ fs function wanted isFresh .finished m
  | resumed {m : Machine} : isFresh = false → m₀.Evolves level m → m.frames = fs →
    Entered level m₀ fs function wanted isFresh .next m

theorem length_adjust (wanted : Option Nat) (values : List Value) :
    (adjust wanted values).length = wanted.getD values.length := by
  cases wanted with
  | none => rfl
  | some n =>
    simp only [adjust, List.length_append, List.length_take, List.length_replicate,
      Option.getD_some]
    omega

/-- The results of a native function are delivered. -/
theorem triple_deliver {top : Nat} (values : List Value) :
    Triple (Held level m₀ fs top) (deliver function values wanted)
      (fun _ m => Left level m₀ fs function wanted m)
      (Stop.Spares fun m => m₀.Evolves level m ∧ m.frames = fs) := by
  have hfail : ∀ m, Held level m₀ fs top m → m₀.Evolves level m ∧ m.frames = fs :=
    fun _ h => ⟨h.evolves, h.frames⟩
  refine Triple.bind ((Stack.triple_reserve robust_held.stack _).spares hfail) fun _ =>
    Triple.bind ((Stack.keeps_writeAll (robust_held.stack.and
      fun _ _ h hsize => Nat.le_trans h hsize) fun m hm => ?_).spares fun m hm => hfail m hm.1)
      fun _ => Triple.modify fun m hm => ?_
  · rw [length_adjust]
    exact hm.2
  · exact
      { evolves := hm.1.evolves.setTop hm.2
        frames := hm.1.frames
        function_le := Nat.le_add_right _ _
        count := fun n hn => by rw [hn]; rfl }

theorem triple_resetTop (hstable : ∀ f ∈ fs, f.Stable m₀) :
    Routine.Keeps (fun m => m₀.Evolves level m ∧ m.frames = fs) Stack.resetTop := by
  refine Routine.Keeps.modify fun m hm => ?_
  cases hf : m.frame? with
  | none => exact hm
  | some f =>
    have hmem : f ∈ fs := hm.2 ▸ Array.mem_of_back? hf
    exact ⟨hm.1.setTop ((hstable f hmem).of_evolves hm.1).top_le, hm.2⟩

theorem triple_afterReturn {f : Frame} (hstable : ∀ f ∈ fs, f.Stable m₀) :
    Triple (Left level m₀ fs f.function f.wanted) (afterReturn f)
      (Entered level m₀ fs f.function f.wanted f.isFresh)
      (Stop.Spares fun m => m₀.Evolves level m ∧ m.frames = fs) := by
  rw [afterReturn]
  split
  · next hfresh => exact Triple.pure fun m hm => .finished hfresh hm
  · next hfresh =>
    rw [Bool.not_eq_true] at hfresh
    have hnext : Triple (fun m => m₀.Evolves level m ∧ m.frames = fs) (pure .next)
        (Entered level m₀ fs f.function f.wanted f.isFresh)
        (Stop.Spares fun m => m₀.Evolves level m ∧ m.frames = fs) :=
      Triple.pure fun m hm => .resumed hfresh hm.1 hm.2
    split
    · exact Triple.bind ((triple_resetTop hstable).pre fun m hm => ⟨hm.evolves, hm.frames⟩)
        fun _ => hnext
    · exact hnext.pre fun m hm => ⟨hm.evolves, hm.frames⟩

/-! ### Native functions -/

/-- A call has failed; frames that it has entered may still be there. -/
structure Refused (level : Nat) (m₀ : Machine) (fs : Array Frame) (m : Machine) : Prop where
  evolves : m₀.Evolves level m
  frames : ∃ entered : Array Frame, m.frames = fs ++ entered ∧ ∀ f ∈ entered, level ≤ f.base

theorem Refused.of_frames_eq {m : Machine} (h : m₀.Evolves level m ∧ m.frames = fs) :
    Refused level m₀ fs m :=
  ⟨h.1, #[], by rw [h.2, Array.append_empty], by simp⟩

/-- A call that has been made in the course of another one has failed, and so has that one. -/
theorem Refused.within {m m' : Machine} {outer entered : Array Frame} {level' : Nat}
    (h : Refused level' m fs m') (hlevel : level ≤ level') (hevolves : m₀.Evolves level m)
    (hfs : fs = outer ++ entered) (hentered : ∀ f ∈ entered, level ≤ f.base) :
    Refused level m₀ outer m' := by
  obtain ⟨hm', inner, hinner, hbase⟩ := h
  refine ⟨hevolves.trans (hm'.mono hlevel), entered ++ inner, ?_, fun f hf => ?_⟩
  · rw [hinner, hfs, Array.append_assoc]
  · rcases Array.mem_append.1 hf with hf | hf
    · exact hentered f hf
    · exact Nat.le_trans hlevel (hbase f hf)

/-- The frame of the call may still be there. -/
theorem Refused.of_push {m : Machine} {g : Frame} {top : Nat}
    (h : Held level m₀ (fs.push g) top m) (hlevel : level ≤ g.base) : Refused level m₀ fs m :=
  ⟨h.evolves, #[g], h.frames, by simpa using hlevel⟩

/-- While a native function runs, calls find its frame on the stack. -/
theorem admits_native {top : Nat} {f : Frame} (hlevel : level ≤ function)
    (hsite : Site m₀ fs function) (htop : function < top)
    (hf : f = { Frame.ofNative function top wanted with
      caller? := Frame.innermost? fs, isFresh }) :
    (balancedFrom m₀).Admits (Held level m₀ (fs.push f) top) where
  ready := fun m h => by
    refine ⟨?_, h.evolves.covered⟩
    exact
      { sound := h.evolves.sound
        stable := fun g hg => by
          rcases Array.mem_push.1 (h.frames ▸ hg) with hg | rfl
          · exact (hsite.stable g hg).of_evolves h.evolves
          · subst hf
            exact ⟨⟨Nat.lt_succ_self _, htop, h.top ▸ h.evolves.sound.top_le, nofun⟩, nofun⟩
        chained := by
          subst hf
          exact h.frames ▸ hsite.chained.push ⟨rfl, hsite.above, nofun⟩ }
  returned := fun m _ m' _ h hreturned =>
    { evolves := by
        have hfree := m.top_le_freeSlot
        rw [h.top] at hfree
        exact h.evolves.trans (hreturned.toEvolves.mono (by omega))
      frames := hreturned.frames.trans h.frames
      top := hreturned.top.trans h.top }

/-- **Native functions.** A native function that is called ends with its results in place of the
function, whatever it does. -/
theorem triple_runNative {top : Nat} (id : NativeId) (hlevel : level ≤ function)
    (hsite : Site m₀ fs function) (htop : function < top) :
    Exec.Triple (balancedFrom m₀) (Held level m₀ fs top) (runNative id function wanted isFresh)
      (Entered level m₀ fs function wanted isFresh) (Stop.Spares (Refused level m₀ fs)) := by
  have hfail : ∀ m, Held level m₀ fs top m → Refused level m₀ fs m :=
    fun _ h => .of_frames_eq ⟨h.evolves, h.frames⟩
  have hdepth : Triple (Held level m₀ fs top) checkDepth (fun _ => Held level m₀ fs top)
      (Stop.Spares (Refused level m₀ fs)) :=
    (triple_checkDepth.spares hfail).post fun _ _ hm => hm.1
  refine Exec.Triple.bind (Exec.Triple.lift hdepth) fun _ => ?_
  refine Exec.Triple.bind (Q := fun free m => Held level m₀ fs top m ∧ free = top)
    (Exec.Triple.lift fun m hm => ⟨hm, hm.top⟩) fun free => Exec.Triple.assume fun hfree => ?_
  subst hfree
  have hargs : Triple (Held level m₀ fs free) (Stack.readRange (function + 1) free)
      (fun args m => Held level m₀ fs free m ∧ args.length = free - (function + 1))
      (Stop.Spares (Held level m₀ fs free)) :=
    Stack.triple_readRange fun m hm => ⟨htop, hm.top ▸ hm.evolves.sound.top_le⟩
  refine Exec.Triple.bind (Exec.Triple.lift (hargs.spares hfail)) fun args => ?_
  generalize hf : ({ Frame.ofNative function free wanted with
    caller? := Frame.innermost? fs, isFresh } : Frame) = f
  have hpush : Triple (fun m => Held level m₀ fs free m ∧ args.length = free - (function + 1))
      (push { Frame.ofNative function free wanted with isFresh })
      (fun _ => Held level m₀ (fs.push f) free) (Stop.Spares (Refused level m₀ fs)) :=
    hf ▸ (triple_push _).pre fun m hm => hm.1
  refine Exec.Triple.bind (Exec.Triple.lift hpush) fun _ =>
    Exec.Triple.bind (Q := fun _ => Held level m₀ (fs.push f) free)
      (Exec.Triple.state fun _ hm => hm) fun m₁ => ?_
  have hrun := Behaviour.keeps_run (admits_native hlevel hsite htop hf.symm) robust_held
    ((m₁.heap.native id).body args)
  have hbase : level ≤ f.base := by
    subst hf
    exact Nat.le_succ_of_le hlevel
  refine Exec.Triple.bind (hrun.spares fun m hm => .of_push hm hbase) fun results => ?_
  have hpop : Triple (Held level m₀ (fs.push f) free) pop (fun _ => Held level m₀ fs free)
      (Stop.Spares (Refused level m₀ fs)) :=
    triple_pop.pre fun m hm => { hm with
      vacant := fun e _ howns => by
        subst hf
        cases howns.1 }
  refine Exec.Triple.bind (Exec.Triple.lift hpop) fun _ =>
    Exec.Triple.bind (Exec.Triple.lift ((triple_deliver results).spares fun _ h =>
      .of_frames_eq h)) fun _ => ?_
  exact Exec.Triple.lift ((triple_afterReturn (f := { Frame.ofNative function free wanted with
    isFresh }) hsite.stable).spares fun _ h => .of_frames_eq h)

/-- **Calls.** A call of a callable value enters the frame of a closure or ends at once. -/
theorem triple_enter {top : Nat} (hlevel : level ≤ function) (hsite : Site m₀ fs function)
    (hle : function ≤ top) :
    Exec.Triple (balancedFrom m₀) (Callable level m₀ fs function top) (enter function wanted isFresh)
      (Entered level m₀ fs function wanted isFresh) (Stop.Spares (Refused level m₀ fs)) := by
  refine Exec.Triple.bind (Exec.Triple.lift ((triple_resolve hle).spares fun _ h =>
    .of_frames_eq h)) fun _ => ?_
  have hread : Triple (Resolved level m₀ fs function) (Stack.read function)
      (fun v m => Resolved level m₀ fs function m ∧ m.stack[function]? = some v)
      (Stop.Spares (Resolved level m₀ fs function)) :=
    Stack.triple_read fun m hm => Nat.lt_of_lt_of_le hm.function_lt hm.evolves.sound.top_le
  refine Exec.Triple.bind (Exec.Triple.lift (hread.spares fun m hm =>
    .of_frames_eq ⟨hm.evolves, hm.frames⟩)) fun v m hm => ?_
  obtain ⟨⟨hevolves, hframes, hlt, -⟩, -⟩ := hm
  have hheld : Held level m₀ fs m.top m := ⟨hevolves, hframes, rfl⟩
  split
  · next id =>
    have hpush : Triple (Held level m₀ fs m.top) (pushClosure id function wanted false isFresh)
        (fun _ m' => Entered level m₀ fs function wanted isFresh .next m')
        (Stop.Spares (Refused level m₀ fs)) :=
      ((triple_pushClosure id fun _ => hlt).spares fun _ h => .of_frames_eq h).post
        fun _ m' ⟨f, hf⟩ => .pushed hf
    exact (Exec.Triple.bind (Exec.Triple.lift hpush) fun _ =>
      Exec.Triple.pure fun _ h => h) m hheld
  · next id => exact triple_runNative id hlevel hsite hlt m hheld
  · exact Refused.of_frames_eq ⟨hevolves, hframes⟩

/-! ### Calls in place of the running one -/

/-- **Tail calls.** The running frame gives way to that of the called closure, which inherits its
place, what is wanted of it, and whether it is fresh. -/
theorem triple_replace {top : Nat} {g : Frame} (id : ClosureId) (hlevel : level ≤ g.base)
    (hfunction : g.function ≤ function) (hle : function ≤ top)
    (htop : fs.size < m₀.limits.callDepth → function < top) :
    Triple (Held level m₀ (fs.push g) top) (replace g id function)
      (fun _ m => ∃ f, Pushed level m₀ fs id g.function g.wanted g.isFresh f m)
      (Stop.Spares (Refused level m₀ fs)) := by
  have hfail : ∀ m, Vacated level m₀ fs g top m → Refused level m₀ fs m := fun m hm =>
    .of_push hm.toHeld hlevel
  refine Triple.bind (triple_vacate hlevel) fun _ => ?_
  have hcount : Triple (Vacated level m₀ fs g top) (Stack.countFrom function)
      (fun count m => Vacated level m₀ fs g top m ∧ top = function + count)
      (Stop.Spares (Refused level m₀ fs)) :=
    ((Stack.triple_countFrom fun m hm => hm.top.symm ▸ hle).spares hfail).post
      fun _ m hm => ⟨hm.1, hm.1.top ▸ hm.2⟩
  refine Triple.bind hcount fun count => Triple.assume fun hcount => ?_
  have hsize : ∀ m, Vacated level m₀ fs g top m → function + count ≤ m.stack.size :=
    fun m hm => hcount ▸ hm.top ▸ hm.evolves.sound.top_le
  refine Triple.bind ((Stack.keeps_take stackRobust_vacated (fun m hm _ => ?_)
    fun m hm => ?_).spares hfail) fun _ => ?_
  · have := hsize m hm
    omega
  · have := hsize m hm
    omega
  refine Triple.bind (Q := fun _ => Vacated level m₀ fs g (g.function + count))
    (Triple.modify fun m hm => ?_) fun _ => Triple.bind triple_pop fun _ => ?_
  · have := hsize m hm
    exact
      { evolves := hm.evolves.setTop (by omega)
        frames := hm.frames
        top := rfl
        vacant := hm.vacant }
  · refine (triple_pushClosure id fun hdepth => ?_).spares fun _ h => .of_frames_eq h
    have := htop hdepth
    omega

/-! ### The end of a closure's call -/

/-- The frame of a closure is removed, and its results are moved to the slot of the function. -/
theorem triple_leave {top first n : Nat} {g : Frame} :
    Triple (fun m => Vacated level m₀ fs g top m ∧ first + n ≤ m.stack.size) (leave first n)
      (fun f m => Left level m₀ fs g.function g.wanted m ∧ f = g)
      (Stop.Spares (Refused level m₀ fs)) := by
  have hframe : ∀ m, Vacated level m₀ fs g top m → m.frame? = some g := fun m hm => by
    rw [Machine.frame?, hm.frames, Array.back?_push]
  unfold leave
  refine Triple.bind (Q := fun m₁ m => (Vacated level m₀ fs g top m ∧
    first + n ≤ m.stack.size) ∧ m₁.frame? = some g)
    (Triple.get fun m hm => ⟨hm, hframe m hm.1⟩) fun m₁ => Triple.assume fun hm₁ => ?_
  rw [hm₁]
  let I : Machine → Prop := fun m => Held level m₀ fs top m ∧ first + n ≤ m.stack.size
  have hI : StackRobust I := robust_held.stack.and fun _ _ h hsize => Nat.le_trans h hsize
  have hfail : ∀ m, I m → Refused level m₀ fs m := fun m hm =>
    .of_frames_eq ⟨hm.1.evolves, hm.1.frames⟩
  have hpop : Triple (fun m => Vacated level m₀ fs g top m ∧ first + n ≤ m.stack.size) pop
      (fun _ => I) (Stop.Spares (Refused level m₀ fs)) := fun m hm =>
    ⟨triple_pop (E := fun _ _ => False) m hm.1, hm.2⟩
  refine Triple.bind hpop fun _ =>
    Triple.bind ((Stack.triple_reserve hI _).spares hfail) fun _ =>
    Triple.bind ((Stack.keeps_copy (hI.and fun _ _ h hsize => Nat.le_trans h hsize)
      (fun m hm _ => ?_) fun m hm => hm.2).spares fun m hm => hfail m hm.1) fun _ =>
    Triple.bind (Q := fun _ => Left level m₀ fs g.function g.wanted) (Triple.modify fun m hm => ?_)
      fun _ => Triple.pure fun m hm => ⟨hm, rfl⟩
  · have := hm.1.2
    omega
  · exact
      { evolves := hm.1.1.evolves.setTop hm.2
        frames := hm.1.1.frames
        function_le := Nat.le_add_right _ _
        count := fun k hk => by rw [hk]; rfl }

/-! ### Calls from within instructions, from native functions and from the host -/

/-- A call that comes from elsewhere than from the sequence of instructions is counted, and it is
refused if too many are in progress. -/
theorem triple_enterCounted {s : Machine} {top : Nat} (hsite : Site s.countUp s.frames function)
    (hlt : function < top) :
    Exec.Triple (balancedFrom s) (Held function s.countUp s.frames top)
      (do
        let m ← Exec.state
        if m.limits.nativeDepth < m.reentries then .fail .nativeOverflow
        else enter function wanted true)
      (Entered function s.countUp s.frames function wanted true)
      (Stop.Spares (Refused function s.countUp s.frames)) := by
  refine Exec.Triple.bind (Q := fun _ => Held function s.countUp s.frames top)
    (Exec.Triple.state fun _ hm => hm) fun m₁ => ?_
  split
  · exact Exec.Triple.fail fun m hm => .of_frames_eq ⟨hm.evolves, hm.frames⟩
  · refine Exec.Triple.pre (triple_enter (Nat.le_refl _) hsite (Nat.le_of_lt hlt)) fun m hm => ?_
    exact
      { hm with
        function_lt := Nat.lt_of_lt_of_le hlt (hm.top ▸ hm.evolves.sound.top_le)
        not_isFunction := fun h => absurd h (Nat.ne_of_gt hlt) }

theorem held_countUp {s : Machine} (hs : s.Sound) :
    Held level s.countUp s.frames s.top s.countUp :=
  ⟨.refl hs.countUp, rfl, rfl⟩

/-- **Calls from elsewhere.** The function and its arguments are put behind all slots in use. -/
theorem triple_start {s : Machine} (hs : s.Sound) (hsite : Site s.countUp s.frames function)
    (f : Value) (args : List Value) :
    Exec.Triple (balancedFrom s) (fun m => m = s) (start f args wanted function)
      (Entered function s.countUp s.frames function wanted true)
      (Stop.Spares (Refused function s.countUp s.frames)) := by
  let I : Machine → Prop := Held function s.countUp s.frames s.top
  have hfail : ∀ m, I m → Refused function s.countUp s.frames m := fun m hm =>
    .of_frames_eq ⟨hm.evolves, hm.frames⟩
  unfold start
  refine Exec.Triple.bind (Q := fun _ => I)
    (Exec.Triple.lift (by rintro m rfl; exact held_countUp hs)) fun _ =>
    Exec.Triple.bind (Exec.Triple.lift
      ((Stack.triple_reserve robust_held.stack _).spares hfail)) fun _ =>
    Exec.Triple.bind (Exec.Triple.lift ((Stack.keeps_writeAll (robust_held.stack.and
      fun _ _ h hsize => Nat.le_trans h hsize) fun m hm => ?_).spares fun m hm => hfail m hm.1))
      fun _ => Exec.Triple.bind
        (Q := fun _ => Held function s.countUp s.frames (function + 1 + args.length))
        (Exec.Triple.lift (Triple.modify fun m hm =>
          ⟨hm.1.evolves.setTop hm.2, hm.1.frames, rfl⟩)) fun _ =>
        triple_enterCounted hsite (by omega)
  have := hm.2
  simp only [List.length_cons]
  omega

/-- The function and the arguments of an iterator lie on the stack already. -/
theorem triple_startIterator {s : Machine} {wanted : Nat} (hs : s.Sound)
    (hsite : Site s.countUp s.frames function) (hlt : function < s.top) :
    Exec.Triple (balancedFrom s) (fun m => m = s) (startIterator function wanted)
      (Entered function s.countUp s.frames function (some wanted) true)
      (Stop.Spares (Refused function s.countUp s.frames)) :=
  Exec.Triple.bind (Q := fun _ => Held function s.countUp s.frames s.top)
    (Exec.Triple.lift (by rintro m rfl; exact held_countUp hs)) fun _ =>
    triple_enterCounted hsite hlt

end Call

end LuaMachine
