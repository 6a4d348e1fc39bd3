import LuaMachine.Proofs.Machine.Shortage

/-!
# The progress of a call

A call that does not belong to the sequence of instructions begins in some state, with the called
value in some slot.  As long as it runs, its frames lie on top of the frames of that state: first a
fresh one for the called value, then frames that were entered by call instructions.  It ends with
the results from the slot of the called value on, or it fails.

## Main definitions

* `Nested` : the frames of a call in progress.
* `Running`, `Iterating` : states in which a call goes on with the next instruction or with a call
  of an iterator.
* `Continues`, `Failed` : how the instructions of a call go on or fail.
* `Active` : states in the course of an instruction.

## Main statements

* `Nested.le_function` : the frames of a call lie behind the slot of the called value.
* `robust_active`, `admits_active` : what happens in the course of an instruction.
* `Call.Entered.begins` : the beginning of a call.
* `Nested.continues`, `Active.continues` : returns and tail calls, and call instructions.
-/

namespace LuaMachine

/-- The frames `fs` and the innermost frame `f` of a call in progress: on top of the frames `outer`
there is a fresh frame for the value in slot `function`, of which `wanted` results are wanted, and
then frames that have been entered from the frame below. -/
inductive Nested (outer : Array Frame) (function : Nat) (wanted : Option Nat) :
    Array Frame → Frame → Prop where
  | first {f : Frame} : Frame.Chained outer → f.Follows outer → f.isClosure = true →
    f.isFresh = true → f.function = function → f.wanted = wanted →
    Nested outer function wanted outer f
  | inner {fs : Array Frame} {g f : Frame} : Nested outer function wanted fs g →
    f.Follows (fs.push g) → f.isClosure = true → f.isFresh = false →
    Nested outer function wanted (fs.push g) f

/-- The call that began in `s` goes on with the next instruction of its innermost frame. -/
def Running (s : Machine) (function : Nat) (wanted : Option Nat) (m : Machine) : Prop :=
  ∃ fs f, Nested s.frames function wanted fs f ∧ m.frames = fs.push f ∧
    (∀ g ∈ fs, g.Stable m) ∧ f.Fits m ∧ s.countUp.Evolves function m

/-- The call that began in `s` goes on with a call of the iterator in slot `iterator`, and then with
the next instruction. -/
structure Iterating (s : Machine) (function : Nat) (wanted : Option Nat) (iterator : Nat)
    (m : Machine) : Prop where
  running : Running s function wanted m
  steady : m.Steady
  above : ∀ f, m.frames.back? = some f → f.function < iterator
  function_le : function ≤ iterator
  iterator_lt : iterator < m.top

/-- How the instructions of a call go on. -/
def Continues (s : Machine) (function : Nat) (wanted : Option Nat) : Control → Machine → Prop
  | .next => Running s function wanted
  | .finished => Call.Left function s.countUp s.frames function wanted
  | .iterate iterator _ => Iterating s function wanted iterator

/-- The call that began in `s` has failed. -/
abbrev Failed (s : Machine) (function : Nat) : Machine → Prop :=
  Call.Refused function s.countUp s.frames

variable {s m m' : Machine} {function : Nat} {wanted : Option Nat} {fs : Array Frame} {f g : Frame}

namespace Nested

theorem isClosure {outer : Array Frame} (h : Nested outer function wanted fs f) :
    f.isClosure = true := by
  cases h <;> assumption

theorem follows {outer : Array Frame} (h : Nested outer function wanted fs f) : f.Follows fs := by
  cases h <;> assumption

theorem chained {outer : Array Frame} (h : Nested outer function wanted fs f) :
    Frame.Chained (fs.push f) := by
  induction h with
  | first houter hf => exact houter.push hf
  | inner _ hf _ _ ih => exact ih.push hf

/-- A frame may be replaced by one for another closure that has its place. -/
theorem replace {outer : Array Frame} (h : Nested outer function wanted fs f)
    (hclosure : g.isClosure = true) (hfunction : g.function = f.function)
    (hwanted : g.wanted = f.wanted) (hcaller : g.caller? = f.caller?)
    (hfresh : g.isFresh = f.isFresh) : Nested outer function wanted fs g := by
  have hfollows := h.follows.replace (hclosure.trans h.isClosure.symm) hfunction hcaller hfresh
  cases h with
  | first houter _ _ hf hf' hf'' =>
    exact .first houter hfollows hclosure (hfresh.trans hf) (hfunction.trans hf')
      (hwanted.trans hf'')
  | inner hnested _ _ hf => exact .inner hnested hfollows hclosure (hfresh.trans hf)

/-- The frames of a call lie behind the slot of the called value. -/
theorem le_function {outer : Array Frame} (h : Nested outer function wanted fs f) :
    function ≤ f.function := by
  induction h with
  | first _ _ _ _ hf _ => exact Nat.le_of_eq hf.symm
  | inner _ hf _ _ ih => exact Nat.le_trans ih (Nat.le_of_lt (hf.function_lt _ Array.back?_push))

/-- The frames that were there before are still there, below those of the call. -/
theorem exists_append {outer : Array Frame} (h : Nested outer function wanted fs f)
    (hfs : ∀ g ∈ fs, g.function < g.base) :
    ∃ entered, fs = outer ++ entered ∧ ∀ g ∈ entered, function ≤ g.base := by
  induction h with
  | first => exact ⟨#[], by simp, by simp⟩
  | @inner fs g f hg _ _ _ ih =>
    obtain ⟨entered, rfl, hentered⟩ := ih fun g hg => hfs g (Array.mem_push_of_mem _ hg)
    refine ⟨entered.push g, by simp, fun g' hg' => ?_⟩
    rcases Array.mem_push.1 hg' with hg' | rfl
    · exact hentered g' hg'
    · exact Nat.le_trans hg.le_function (Nat.le_of_lt (hfs g' Array.mem_push_self))

theorem exists_append_push {outer : Array Frame} (h : Nested outer function wanted fs f)
    (hfs : ∀ g ∈ fs.push f, g.function < g.base) :
    ∃ entered, fs.push f = outer ++ entered ∧ ∀ g ∈ entered, function ≤ g.base := by
  obtain ⟨entered, hentered, hbase⟩ := h.exists_append fun g hg =>
    hfs g (Array.mem_push_of_mem _ hg)
  refine ⟨entered.push f, by rw [hentered, Array.append_push], fun g hg => ?_⟩
  rcases Array.mem_push.1 hg with hg | rfl
  · exact hbase g hg
  · exact Nat.le_trans h.le_function (Nat.le_of_lt (hfs g Array.mem_push_self))

end Nested

theorem Running.failed (h : Running s function wanted m) : Failed s function m := by
  obtain ⟨fs, f, hnested, hframes, hstable, hfits, hevolves⟩ := h
  refine ⟨hevolves, hframes ▸ hnested.exists_append_push fun g hg => ?_⟩
  rcases Array.mem_push.1 hg with hg | rfl
  · exact (hstable g hg).function_lt
  · exact hfits.function_lt

/-- In the course of an instruction of the frame `f`, only its selection of the next instruction has
changed, and the frames below are `fs`. -/
structure Active (s : Machine) (function : Nat) (wanted : Option Nat) (fs : Array Frame) (f : Frame)
    (m : Machine) : Prop where
  nested : Nested s.frames function wanted fs f
  frames : ∃ pc, m.frames = fs.push { f with pc }
  stable : ∀ g ∈ fs.push f, g.Stable m
  evolves : s.countUp.Evolves function m

theorem modify_push_last {α : Type} (xs : Array α) (x : α) (f : α → α) :
    (xs.push x).modify xs.size f = xs.push (f x) := by
  refine Array.ext (by simp) fun i _ _ => ?_
  rw [Array.getElem_modify, Array.getElem_push, Array.getElem_push]
  split
  · next h => simp [← h]
  · next h =>
    split
    · rfl
    · simp_all
      omega

namespace Active

theorem below (h : Active s function wanted fs f m) : ∀ g ∈ fs, g.Stable m :=
  fun g hg => h.stable g (Array.mem_push_of_mem _ hg)

theorem innermost (h : Active s function wanted fs f m) : f.Stable m :=
  h.stable f Array.mem_push_self

theorem function_le (h : Active s function wanted fs f m) : function ≤ f.function :=
  h.nested.le_function

/-- The instruction that is selected belongs to the state rather than to the frame. -/
theorem withPc (h : Active s function wanted fs f m) (pc : Nat) :
    Active s function wanted fs { f with pc } m where
  nested := h.nested.replace h.nested.isClosure rfl rfl rfl rfl
  frames := h.frames
  stable := fun g hg => by
    rcases Array.mem_push.1 hg with hg | rfl
    · exact h.below g hg
    · exact { h.innermost with }
  evolves := h.evolves

theorem steady (h : Active s function wanted fs f m) : m.Steady where
  sound := h.evolves.sound
  stable := fun g hg => by
    obtain ⟨pc, hframes⟩ := h.frames
    exact (h.withPc pc).stable g (hframes ▸ hg)
  chained := by
    obtain ⟨pc, hframes⟩ := h.frames
    exact hframes ▸ (h.withPc pc).nested.chained

theorem running (h : Active s function wanted fs f m) : Running s function wanted m := by
  obtain ⟨pc, hframes⟩ := h.frames
  exact ⟨fs, { f with pc }, (h.withPc pc).nested, hframes, h.below,
    (h.withPc pc).innermost.toFits, h.evolves⟩

/-- The frames that were there when the call began are still there, below those of the call. -/
theorem exists_append (h : Active s function wanted fs f m) :
    ∃ entered, m.frames = s.frames ++ entered ∧ ∀ g ∈ entered, function ≤ g.base := by
  obtain ⟨pc, hframes⟩ := h.frames
  have hactive := h.withPc pc
  exact hframes ▸ hactive.nested.exists_append_push fun g hg => (hactive.stable g hg).function_lt

theorem failed (h : Active s function wanted fs f m) : Failed s function m :=
  ⟨h.evolves, h.exists_append⟩

/-- Calls are made in registers of the frame, or behind them. -/
theorem site (h : Active s function wanted fs f m) {slot : Nat} (hslot : f.base ≤ slot) :
    Call.Site m m.frames slot where
  stable := h.steady.stable
  chained := h.steady.chained
  above := fun g hg => by
    obtain ⟨pc, hframes⟩ := h.frames
    obtain rfl : { f with pc } = g := by simpa [hframes] using hg
    exact Nat.lt_of_lt_of_le h.innermost.function_lt hslot

theorem of_evolves (h : Active s function wanted fs f m) (hm : m.Evolves f.base m')
    (hframes : m'.frames = m.frames) : Active s function wanted fs f m' where
  nested := h.nested
  frames := hframes ▸ h.frames
  stable := fun g hg => (h.stable g hg).of_evolves hm
  evolves := h.evolves.trans
    (hm.mono (Nat.le_trans h.function_le (Nat.le_of_lt h.innermost.function_lt)))

/-- The first free slot can be moved within the stack. -/
theorem setTop (h : Active s function wanted fs f m) {top : Nat} (htop : top ≤ m.stack.size) :
    Active s function wanted fs f { m with top } where
  nested := h.nested
  frames := h.frames
  stable := fun g hg => { h.stable g hg with }
  evolves := h.evolves.setTop htop

/-- The budget does not matter. -/
theorem setBudget (h : Active s function wanted fs f m) (budget : Option Nat) :
    Active s function wanted fs f { m with budget } where
  nested := h.nested
  frames := h.frames
  stable := fun g hg => { h.stable g hg with }
  evolves := { h.evolves with sound := { h.evolves.sound with } }

/-- The selection of the next instruction can be moved. -/
theorem setPc (h : Active s function wanted fs f m) (pc : Frame → Nat) :
    Active s function wanted fs f { m with
      frames := m.frames.modify (m.frames.size - 1) fun f => { f with pc := pc f } } where
  nested := h.nested
  frames := by
    obtain ⟨pc₀, hframes⟩ := h.frames
    refine ⟨pc { f with pc := pc₀ }, ?_⟩
    simp only [hframes, Array.size_push, Nat.add_sub_cancel]
    exact modify_push_last _ _ _
  stable := fun g hg => { h.stable g hg with }
  evolves := by
    obtain ⟨pc₀, hframes⟩ := h.frames
    refine h.evolves.setFrames fun hcovers => ?_
    rw [hframes] at hcovers ⊢
    rw [Array.size_push, Nat.add_sub_cancel, modify_push_last]
    exact hcovers.replace fun _ howns => howns

end Active

/-- What happens in the course of an instruction concerns only cells of its own frame. -/
theorem robust_active : Robust f.base (Active s function wanted fs f) where
  sound := fun _ h => h.evolves.sound
  quiet := fun _ _ h hq => h.of_evolves hq.toEvolves hq.frames

/-- Calls in the course of an instruction leave its frame as it is. -/
theorem admits_active : (balancedFrom s).Admits (Active s function wanted fs f) where
  ready := fun _ h => ⟨h.steady, h.evolves.covered⟩
  returned := fun m _ m' _ h hreturned => by
    obtain ⟨pc, hframes⟩ := h.frames
    have hfree : f.top ≤ m.freeSlot := Machine.frame_top_le_freeSlot (f := { f with pc }) hframes
    have hbase := h.innermost.base_le
    exact robust_active.quiet m m' h
      { hreturned.toQuiet with toEvolves := hreturned.toEvolves.mono (by omega) }

/-! ### How calls go on -/

open Call

theorem Machine.Evolves.stable {level : Nat} (h : m.Evolves level m') {fs : Array Frame}
    (hfs : ∀ g ∈ fs, g.Stable m) : ∀ g ∈ fs, g.Stable m' :=
  fun g hg => (hfs g hg).of_evolves h

theorem Call.Pushed.isClosure {level : Nat} {id : ClosureId} {isFresh : Bool}
    (h : Pushed level m fs id function wanted isFresh f m') : f.isClosure = true := by
  rw [Frame.isClosure, h.closure]
  rfl

/-- A call that begins goes on in the frame of the called closure, or it has ended already. -/
theorem Call.Entered.begins {control : Control} (hsite : Site s.countUp s.frames function)
    (h : Entered function s.countUp s.frames function wanted true control m) :
    Continues s function wanted control m := by
  cases h with
  | @pushed id f _ hpushed =>
    have hfollows : f.Follows s.frames :=
      { caller := hpushed.caller
        function_lt := hpushed.function ▸ hsite.above
        owned := fun _ hfresh => by
          rw [hpushed.isFresh] at hfresh
          cases hfresh }
    exact ⟨s.frames, f, .first hsite.chained hfollows hpushed.isClosure hpushed.isFresh
      hpushed.function hpushed.wanted, hpushed.frames, hpushed.evolves.stable hsite.stable,
      hpushed.fits, hpushed.evolves⟩
  | finished _ hleft => exact hleft
  | resumed h => cases h

namespace Nested

/-- Where the innermost frame has ended, the frame below goes on, or else the call has ended; and
the frame may have given way to another one. -/
theorem continues {control : Control} (h : Nested s.frames function wanted fs f)
    (hstable : ∀ g ∈ fs, g.Stable m) (hevolves : s.countUp.Evolves function m)
    (hentered : Entered function m fs f.function f.wanted f.isFresh control m') :
    Continues s function wanted control m' := by
  cases hentered with
  | @pushed id g _ hpushed =>
    exact ⟨fs, g, h.replace hpushed.isClosure hpushed.function hpushed.wanted
      (hpushed.caller.trans h.follows.caller.symm) hpushed.isFresh, hpushed.frames,
      hpushed.evolves.stable hstable, hpushed.fits, hevolves.trans hpushed.evolves⟩
  | finished hfresh hleft =>
    cases h with
    | first _ _ _ _ hfunction hwanted =>
      subst hfunction hwanted
      exact { hleft with evolves := hevolves.trans hleft.evolves }
    | inner _ _ _ hf => rw [hf] at hfresh; cases hfresh
  | resumed hfresh hm' hframes =>
    cases h with
    | first _ _ _ hf _ _ => rw [hf] at hfresh; cases hfresh
    | @inner fs g _ hnested _ _ _ =>
      have hstable' := hm'.stable hstable
      exact ⟨fs, g, hnested, hframes, fun g' hg' => hstable' g' (Array.mem_push_of_mem _ hg'),
        (hstable' g Array.mem_push_self).toFits, hevolves.trans hm'⟩

/-- If the frame below cannot go on, the call has failed. -/
theorem refused (h : Nested s.frames function wanted fs f) (hstable : ∀ g ∈ fs, g.Stable m)
    (hevolves : s.countUp.Evolves function m) (hrefused : Refused function m fs m') :
    Failed s function m' := by
  obtain ⟨entered, hfs, hentered⟩ := h.exists_append fun g hg => (hstable g hg).function_lt
  exact hrefused.within (Nat.le_refl _) hevolves hfs hentered

end Nested

namespace Active

/-- A call instruction enters a frame on top of its own, or the call has ended at once. -/
theorem continues {slot : Nat} {wanted' : Option Nat} {control : Control}
    (h : Active s function wanted fs f m) (hslot : f.base ≤ slot) (hlt : slot < f.top)
    (hentered : Entered function m m.frames slot wanted' false control m') :
    Continues s function wanted control m' := by
  obtain ⟨pc, hframes⟩ := h.frames
  have hstable : ∀ g ∈ m.frames, g.Stable m := h.steady.stable
  have hnested : Nested s.frames function wanted fs { f with pc } :=
    h.nested.replace h.nested.isClosure rfl rfl rfl rfl
  cases hentered with
  | @pushed id g _ hpushed =>
    rw [hframes] at hstable hpushed
    have hfollows : g.Follows (fs.push { f with pc }) :=
      { caller := hpushed.caller
        function_lt := fun f' hf' => by
          obtain rfl : { f with pc } = f' := by simpa using hf'
          exact hpushed.function ▸ Nat.lt_of_lt_of_le h.innermost.function_lt hslot
        owned := fun _ _ =>
          ⟨{ f with pc }, Array.back?_push, h.nested.isClosure, hpushed.function ▸ hslot,
            hpushed.function ▸ hlt⟩ }
    exact ⟨_, g, .inner hnested hfollows hpushed.isClosure hpushed.isFresh, hpushed.frames,
      hpushed.evolves.stable hstable, hpushed.fits, h.evolves.trans hpushed.evolves⟩
  | finished h => cases h
  | resumed _ hm' hframes' =>
    have hstable' := hm'.stable hstable
    rw [hframes] at hstable' hframes'
    exact ⟨fs, _, hnested, hframes', fun g hg => hstable' g (Array.mem_push_of_mem _ hg),
      (hstable' _ Array.mem_push_self).toFits, h.evolves.trans hm'⟩

theorem refused (h : Active s function wanted fs f m) (hrefused : Refused function m m.frames m') :
    Failed s function m' := by
  obtain ⟨entered, hframes, hentered⟩ := h.exists_append
  exact hrefused.within (Nat.le_refl _) h.evolves hframes hentered

end Active

end LuaMachine
