import LuaMachine.Proofs.Machine.FrameChain
import LuaMachine.Proofs.Machine.Triple

/-!
# What calls leave behind

A state of the machine is sound if its closures have passed verification and its open cells are
those that the list of open cells names.  Whatever the machine does in the course of a call, it
keeps the state sound, does not take slots or closures away, and changes nothing about the cells
that are open below the slot of the called function.  If cells are open only at registers of active
frames, as they are unless the host opens others, this stays so.

## Main definitions

* `Closure.Accepted`, `Machine.Sound` : closures that can run, and sound states.
* `Machine.Covered` : cells are open only at registers of active frames.
* `Machine.Undisturbed` : only contents have changed, and new objects have been added.
* `Machine.Evolves` : what a state becomes while cells are opened and closed from a slot on.
* `Machine.Quiet` : what it becomes while the frames stay the same as well.
* `Frame.Fits`, `Frame.Stable`, `Machine.Steady` : frames that lie on the stack, and states in
  which all frames do.
* `Machine.Returned`, `balanced`, `balancedFrom` : what a call leaves behind, as a contract.
* `Robust`, `StackRobust` : invariants that do not depend on contents.

## Main statements

* `Machine.Undisturbed.quiet` : a change of contents is quiet.
* `Machine.Evolves.trans` : changes in succession.
* `Frame.Stable.of_evolves` : frames stay where they are.
-/

namespace LuaMachine

/-- A closure can run: its prototype has been accepted and it has a cell for each upvalue. -/
structure Closure.Accepted (c : Closure) : Prop where
  verified : c.proto.verify = .ok ()
  cells : c.cells.size = c.proto.upvalues.length

namespace Machine

/-- The closures can run, the first free slot is a slot or the end of the stack, and the open cells
are listed with their slots, the highest first. -/
structure Sound (m : Machine) : Prop where
  closures : ∀ c ∈ m.heap.closures, c.Accepted
  top_le : m.top ≤ m.stack.size
  sorted : m.openCells.Pairwise fun x y => y.1 < x.1
  opened : ∀ slot id, (slot, id) ∈ m.openCells ↔ m.heap.cells[id.index]? = some (.opened slot)

/-- Cells are open only at registers of active frames. -/
def Covered (m : Machine) : Prop := Frame.Covers m.frames m.openCells

/-- Only contents of slots, objects and closed cells have changed, or objects and slots have been
added. -/
structure Undisturbed (m m' : Machine) : Prop where
  limits : m'.limits = m.limits
  reentries : m'.reentries = m.reentries
  frames : m'.frames = m.frames
  top : m'.top = m.top
  openCells : m'.openCells = m.openCells
  stack : m.stack.size ≤ m'.stack.size
  closures : ∀ (i : Nat) (c : Closure), m.heap.closures[i]? = some c →
    m'.heap.closures[i]? = some c
  accepted : ∀ c ∈ m'.heap.closures, c ∈ m.heap.closures ∨ c.Accepted
  opened : ∀ i slot : Nat, m'.heap.cells[i]? = some (.opened slot) ↔
    m.heap.cells[i]? = some (.opened slot)

/-- The state has become another sound one; slots and closures are still there, below `level` the
same cells are open, and no cell has been left open outside of registers of active frames. -/
structure Evolves (level : Nat) (m m' : Machine) : Prop where
  limits : m'.limits = m.limits
  reentries : m'.reentries = m.reentries
  stack : m.stack.size ≤ m'.stack.size
  closures : ∀ (i : Nat) (c : Closure), m.heap.closures[i]? = some c →
    m'.heap.closures[i]? = some c
  cells : ∀ slot id, slot < level → ((slot, id) ∈ m'.openCells ↔ (slot, id) ∈ m.openCells)
  covered : m.Covered → m'.Covered
  sound : m'.Sound

/-- The state has become another sound one with the same frames and the same first free slot, and
below `level` the same cells are open. -/
structure Quiet (level : Nat) (m m' : Machine) : Prop extends Evolves level m m' where
  frames : m'.frames = m.frames
  top : m'.top = m.top

variable {level level' : Nat} {m m' m'' : Machine}

namespace Evolves

theorem refl (h : m.Sound) : Evolves level m m where
  limits := rfl
  reentries := rfl
  stack := Nat.le_refl _
  closures := fun _ _ hc => hc
  cells := fun _ _ _ => Iff.rfl
  covered := id
  sound := h

theorem trans (h : Evolves level m m') (h' : Evolves level m' m'') : Evolves level m m'' where
  limits := h'.limits.trans h.limits
  reentries := h'.reentries.trans h.reentries
  stack := Nat.le_trans h.stack h'.stack
  closures := fun i c hc => h'.closures i c (h.closures i c hc)
  cells := fun slot id hslot => (h'.cells slot id hslot).trans (h.cells slot id hslot)
  covered := fun hm => h'.covered (h.covered hm)
  sound := h'.sound

theorem mono (h : Evolves level m m') (hlevel : level' ≤ level) : Evolves level' m m' :=
  { h with cells := fun slot id hslot => h.cells slot id (Nat.lt_of_lt_of_le hslot hlevel) }

/-- The first free slot can be moved within the stack. -/
theorem setTop (h : Evolves level m m') {top : Nat} (htop : top ≤ m'.stack.size) :
    Evolves level m { m' with top } :=
  { h with sound := { h.sound with top_le := htop } }

/-- The frames matter only in so far as cells are open at their registers. -/
theorem setFrames (h : Evolves level m m') {frames : Array Frame}
    (hframes : Frame.Covers m'.frames m'.openCells → Frame.Covers frames m'.openCells) :
    Evolves level m { m' with frames } :=
  { h with
    covered := fun hm => hframes (h.covered hm)
    sound := { h.sound with } }

/-- The frames can be taken back to what they were when no cells are open from `level` on. -/
theorem restoreFrames (h : Evolves level m m')
    (hclosed : ∀ slot id, (slot, id) ∈ m'.openCells → slot < level) :
    Evolves level m { m' with frames := m.frames } :=
  { h with
    covered := fun hm e he => hm e ((h.cells e.1 e.2 (hclosed e.1 e.2 he)).1 he)
    sound := { h.sound with } }

end Evolves

/-- A change of contents keeps a state sound and changes nothing about its frames and cells. -/
theorem Undisturbed.quiet (h : Undisturbed m m') (hm : m.Sound) : Quiet level m m' :=
  { h with
    cells := fun _ _ _ => by rw [h.openCells]
    covered := fun hm => by rwa [Covered, h.frames, h.openCells]
    sound :=
      { closures := fun c hc => (h.accepted c hc).elim (hm.closures c) id
        top_le := h.top ▸ Nat.le_trans hm.top_le h.stack
        sorted := h.openCells ▸ hm.sorted
        opened := fun slot id => by rw [h.openCells, h.opened, hm.opened] } }

end Machine

/-! ### Frames on the stack -/

/-- A frame lies on the stack behind the called function and has the registers of its closure. -/
structure Frame.Fits (f : Frame) (m : Machine) : Prop where
  function_lt : f.function < f.base
  base_le : f.base ≤ f.top
  top_le : f.top ≤ m.stack.size
  registers : ∀ id, f.closure? = some id →
    f.top = f.base + (m.heap.closure id).proto.registers

/-- A frame that lies on the stack and whose closure exists. -/
structure Frame.Stable (f : Frame) (m : Machine) : Prop extends f.Fits m where
  exists_closure : ∀ id, f.closure? = some id → ∃ c, m.heap.closures[id.index]? = some c

theorem Frame.Stable.of_evolves {f : Frame} {level : Nat} {m m' : Machine} (hf : f.Stable m)
    (h : m.Evolves level m') : f.Stable m' where
  function_lt := hf.function_lt
  base_le := hf.base_le
  top_le := Nat.le_trans hf.top_le h.stack
  registers := fun id hid => by
    obtain ⟨c, hc⟩ := hf.exists_closure id hid
    have hregisters := hf.registers id hid
    simp only [Heap.closure, hc, Option.getD_some] at hregisters
    simp only [Heap.closure, h.closures _ _ hc, Option.getD_some, hregisters]
  exists_closure := fun id hid => (hf.exists_closure id hid).imp fun c hc => h.closures _ _ hc

namespace Machine

/-- A sound state in which all frames lie on the stack, one on top of the other. -/
structure Steady (m : Machine) : Prop where
  sound : m.Sound
  stable : ∀ f ∈ m.frames, f.Stable m
  chained : Frame.Chained m.frames

/-- The outcome of a call from `m` and what it leaves behind: the frames and the first free slot are
as before, and below the first slot that the call could use the same cells are open.  After a
failure no cells are open from there on. -/
structure Returned (m : Machine) (wanted : Option Nat) (m' : Machine)
    (outcome : Except Failure (List Value)) : Prop extends Quiet m.freeSlot m m' where
  length_results : ∀ results n, outcome = .ok results → wanted = some n → results.length = n
  closed : ∀ e, outcome = .error e → ∀ slot id, (slot, id) ∈ m'.openCells → slot < m.freeSlot

variable {level : Nat} {m m' : Machine}

theorem Steady.of_quiet (h : m.Steady) (hq : m.Quiet level m') : m'.Steady where
  sound := hq.sound
  stable := fun f hf => (h.stable f (hq.frames ▸ hf)).of_evolves hq.toEvolves
  chained := hq.frames ▸ h.chained

/-- The state in which one more call is in progress. -/
def countUp (m : Machine) : Machine := { m with reentries := m.reentries + 1 }

theorem Sound.countUp (h : m.Sound) : m.countUp.Sound := { h with }

theorem Steady.countUp (h : m.Steady) : m.countUp.Steady where
  sound := h.sound.countUp
  stable := fun f hf => { h.stable f hf with }
  chained := h.chained

theorem top_le_freeSlot (m : Machine) : m.top ≤ m.freeSlot := by
  rw [freeSlot]
  split
  · exact Nat.le_max_left _ _
  · exact Nat.le_refl _

theorem frame_top_le_freeSlot {fs : Array Frame} {f : Frame} (h : m.frames = fs.push f) :
    f.top ≤ m.freeSlot := by
  simp only [freeSlot, frame?, h, Array.back?_push]
  exact Nat.le_max_right _ _

theorem Steady.function_lt_freeSlot (h : m.Steady) {f : Frame} (hf : m.frames.back? = some f) :
    f.function < m.freeSlot := by
  have hstable := h.stable f (Array.mem_of_back? hf)
  have hfree : f.top ≤ m.freeSlot := by
    simp only [freeSlot, frame?, hf]
    exact Nat.le_max_right _ _
  have hlt := hstable.function_lt
  have hle := hstable.base_le
  omega

end Machine

/-- Calls are made from steady states, and they are balanced. -/
def balanced : Contract where
  ready := Machine.Steady
  returned := Machine.Returned

/-- Moreover, calls that are made in the course of one from `s` are made from states in which cells
are open only at registers of active frames, if `s` is such a state. -/
def balancedFrom (s : Machine) : Contract where
  ready m := m.Steady ∧ (s.Covered → m.Covered)
  returned := Machine.Returned

/-- What has been called from a later state has been called from the earlier one. -/
theorem Resumption.Meets.earlier {α : Type} {s m : Machine} {r : Resumption α}
    {Q : α → Machine → Prop} {E : Stop → Machine → Prop} (h : r.Meets (balancedFrom m) Q E)
    (hm : s.Covered → m.Covered) : r.Meets (balancedFrom s) Q E :=
  h.exchange (fun _ hready => ⟨hready.1, fun hs => hready.2 (hm hs)⟩) fun _ _ _ _ hr => hr

/-! ### Robust invariants -/

/-- An invariant of sound states that only depends on frames, slots and the cells open below
`level`. -/
structure Robust (level : Nat) (I : Machine → Prop) : Prop where
  sound : ∀ m, I m → m.Sound
  quiet : ∀ m m', I m → m.Quiet level m' → I m'

/-- An invariant that depends neither on the contents of the stack nor on slots that are added. -/
def StackRobust (I : Machine → Prop) : Prop :=
  ∀ (m : Machine) (stack : Array Value), I m → m.stack.size ≤ stack.size → I { m with stack }

theorem Robust.undisturbed {level : Nat} {I : Machine → Prop} (hI : Robust level I) {m m' : Machine}
    (hm : I m) (h : m.Undisturbed m') : I m' :=
  hI.quiet m m' hm (h.quiet (hI.sound m hm))

end LuaMachine
