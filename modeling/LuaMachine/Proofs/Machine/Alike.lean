import LuaMachine.Proofs.Machine.Triple

/-!
# Two runs in step

Two states that differ only in the contents of stack slots are alike if they agree on all slots that
the machine may read before it writes them.  A computation that starts in states that are alike
takes the same course in both: it makes the same calls, yields the same result or stops for the same
reason, and the states stay alike.

All this is seen from outside a call.  The frames that belong to the call lie above a slot, and some
slots below it are watched: they keep their values, which makes the comparison of a run with itself
a statement about what the run leaves alone.

## Main definitions

* `Vantage` : from where a call is watched.
* `Machine.Visible`, `Machine.Guarded`, `Machine.Alike` : slots on which two states agree, what
  holds of the frames of the call and of the watched slots, and states that are alike.
* `Resumption.InStep` : computations up to their next call that keep in step.
* `Routine.InStep`, `Routine.Parallel`, `Exec.InStep`, `Exec.Parallel` : routines and computations
  that keep in step from states that are alike.

## Main statements

* `Machine.Alike.write`, `Machine.Alike.push`, `Machine.Alike.setHeap` and others : changes of both
  states.
* `Exec.Parallel.bind`, `Exec.Parallel.state`, `Exec.Parallel.attempt` : computations in succession.
-/

namespace LuaMachine

/-- From where a call is watched. -/
structure Vantage where
  /-- The frames from this index on belong to the call. -/
  depth : Nat
  /-- They have been called in slots from this one on. -/
  level : Nat
  /-- The states agree on all slots of the frames from this index on. -/
  shown : Nat
  shown_le : shown ≤ depth
  /-- The values of watched slots, which lie below `level`. -/
  kept : Nat → Option Value
  kept_lt : ∀ i v, kept i = some v → i < level
  /-- The number of calls in progress. -/
  reentries : Nat
  /-- What is known of the first frame of the call: the slot in which it was called, the number of
  results that are wanted, and whether it is fresh. -/
  root : Nat → Option Nat → Bool → Prop

namespace Vantage

/-- A frame for a call in the slot `function` can have the index `j`. -/
structure Admits (V : Vantage) (j function : Nat) (wanted : Option Nat) (isFresh : Bool) :
    Prop where
  level_le : V.depth ≤ j → V.level ≤ function
  /-- It is not from a frame with hidden slots that the first one has been entered. -/
  fresh : 0 < j → j = V.shown → isFresh = true
  root : j = V.depth → V.root function wanted isFresh

/-- A frame that is not fresh and belongs to the call has been entered from a frame whose slots are
shown. -/
theorem Admits.shown_lt {V : Vantage} {j function : Nat} {wanted : Option Nat} {isFresh : Bool}
    (h : V.Admits j function wanted isFresh) (hj : V.depth ≤ j) (hfresh : isFresh = false)
    (hpos : 0 < j) : V.shown < j := by
  have hne : j ≠ V.shown := fun heq => by simp [h.fresh hpos heq] at hfresh
  have := V.shown_le
  omega

/-- There are no further conditions on a frame that is not the first one of the call. -/
theorem admits_of_lt {V : Vantage} {j function : Nat} {wanted : Option Nat} {isFresh : Bool}
    (hj : V.depth < j) (hlevel : V.level ≤ function) : V.Admits j function wanted isFresh where
  level_le := fun _ => hlevel
  fresh := fun _ heq => absurd (heq ▸ V.shown_le) (Nat.not_le.2 hj)
  root := fun heq => absurd heq (Nat.ne_of_gt hj)

/-- Slots that do not lie below the call are not watched. -/
theorem kept_eq_none {V : Vantage} {i : Nat} (hi : V.level ≤ i) : V.kept i = none :=
  Option.eq_none_iff_forall_not_mem.2 fun v hv => Nat.not_lt.2 hi (V.kept_lt i v hv)

/-- The same when one more call is in progress. -/
def up (V : Vantage) : Vantage := { V with reentries := V.reentries + 1 }

theorem Admits.up {V : Vantage} {j function : Nat} {wanted : Option Nat} {isFresh : Bool}
    (h : V.Admits j function wanted isFresh) : V.up.Admits j function wanted isFresh :=
  { h with }

end Vantage

namespace Machine

/-- The contents of a slot may matter: it lies below `n`, below the call or below the first free
slot, a function was called there or above, it lies below the end of a frame whose slots are shown,
or a cell is open there. -/
def Visible (V : Vantage) (n : Nat) (m : Machine) (i : Nat) : Prop :=
  i < max n V.level ∨ i < m.top ∨ (∃ f ∈ m.frames, i ≤ f.function) ∨
    (∃ (j : Nat) (f : Frame), V.shown ≤ j ∧ m.frames[j]? = some f ∧ i < f.top) ∨
    ∃ j : Nat, m.heap.cells[j]? = some (.opened i)

/-- There are `k` frames; those of the call lie where they should, and watched slots have kept their
values. -/
structure Guarded (V : Vantage) (k : Nat) (m : Machine) : Prop where
  size_frames : m.frames.size = k
  depth_le : V.depth ≤ k
  admits : ∀ (j : Nat) (f : Frame), m.frames[j]? = some f →
    V.Admits j f.function f.wanted f.isFresh
  kept : ∀ i v, V.kept i = some v → m.stack[i]? = some v
  reentries : m.reentries = V.reentries

/-- The states differ only in the contents of slots that do not matter. -/
structure Alike (V : Vantage) (n k : Nat) (m m' : Machine) : Prop extends Guarded V k m where
  eq : m' = { m with stack := m'.stack }
  size_stack : m'.stack.size = m.stack.size
  agree : ∀ i, Visible V n m i → m'.stack[i]? = m.stack[i]?

variable {V : Vantage} {n n' k : Nat} {m m' : Machine}

/-- A state is like itself. -/
theorem Guarded.alike (h : Guarded V k m) : Alike V n k m m :=
  { h with eq := rfl, size_stack := rfl, agree := fun _ _ => rfl }

namespace Alike

/-- The other state has only another stack. -/
theorem exists_stack (h : Alike V n k m m') : ∃ stack, m' = { m with stack } := ⟨_, h.eq⟩

theorem agree_of_lt (h : Alike V n k m m') {i : Nat} (hi : i < n) : m'.stack[i]? = m.stack[i]? :=
  h.agree i (.inl (Nat.lt_of_lt_of_le hi (Nat.le_max_left _ _)))

theorem agree_of_lt_level (h : Alike V n k m m') {i : Nat} (hi : i < V.level) :
    m'.stack[i]? = m.stack[i]? :=
  h.agree i (.inl (Nat.lt_of_lt_of_le hi (Nat.le_max_right _ _)))

theorem agree_of_lt_top (h : Alike V n k m m') {i : Nat} (hi : i < m.top) :
    m'.stack[i]? = m.stack[i]? :=
  h.agree i (.inr (.inl hi))

theorem agree_function (h : Alike V n k m m') {f : Frame} (hf : f ∈ m.frames) {i : Nat}
    (hi : i ≤ f.function) : m'.stack[i]? = m.stack[i]? :=
  h.agree i (.inr (.inr (.inl ⟨f, hf, hi⟩)))

theorem agree_register (h : Alike V n k m m') {j : Nat} {f : Frame} (hj : V.shown ≤ j)
    (hf : m.frames[j]? = some f) {i : Nat} (hi : i < f.top) : m'.stack[i]? = m.stack[i]? :=
  h.agree _ (.inr (.inr (.inr (.inl ⟨j, f, hj, hf, hi⟩))))

theorem agree_cell (h : Alike V n k m m') {j slot : Nat}
    (hj : m.heap.cells[j]? = some (.opened slot)) : m'.stack[slot]? = m.stack[slot]? :=
  h.agree _ (.inr (.inr (.inr (.inr ⟨j, hj⟩))))

/-- The states agree on further slots. -/
theorem extend (h : Alike V n k m m') (hn : ∀ i, n ≤ i → i < n' → m'.stack[i]? = m.stack[i]?) :
    Alike V n' k m m' :=
  { h with
    agree := fun i hi => by
      rcases hi with hi | hi
      · rcases Nat.lt_or_ge i (max n V.level) with hlt | hge
        · exact h.agree i (.inl hlt)
        · exact hn i (by omega) (by omega)
      · exact h.agree i (.inr hi) }

theorem mono (h : Alike V n k m m') (hn : n' ≤ n) : Alike V n' k m m' :=
  h.extend fun _ hi hi' => absurd (Nat.lt_of_lt_of_le hi' hn) (Nat.not_lt.2 hi)

/-! ### Changes of the stack -/

/-- A slot that is not watched is written. -/
theorem write (h : Alike V n k m m') {i : Nat} (hi : V.kept i = none) (v : Value) :
    Alike V n k { m with stack := m.stack.setIfInBounds i v }
      { m' with stack := m'.stack.setIfInBounds i v } where
  size_frames := h.size_frames
  depth_le := h.depth_le
  admits := h.admits
  kept := fun j w hj => by
    have hne : i ≠ j := fun heq => by simp [← heq, hi] at hj
    rw [Array.getElem?_setIfInBounds_ne hne]
    exact h.kept j w hj
  reentries := h.reentries
  eq := by rw [h.eq]
  size_stack := by simpa using h.size_stack
  agree := fun j hj => by
    simp only [Array.getElem?_setIfInBounds, h.size_stack, h.agree j hj]

/-- What has been written is the same in both states. -/
theorem agree_write (h : Alike V n k m m') (i : Nat) (v : Value) {j : Nat}
    (hj : j = i ∨ m'.stack[j]? = m.stack[j]?) :
    (m'.stack.setIfInBounds i v)[j]? = (m.stack.setIfInBounds i v)[j]? := by
  simp only [Array.getElem?_setIfInBounds, h.size_stack]
  split
  · rfl
  · next hne => exact hj.resolve_left (Ne.symm hne)

/-- Slots that hold nil are added. -/
theorem grow (h : Alike V n k m m') (missing : Nat) :
    Alike V n k { m with stack := m.stack ++ Array.replicate missing .nil }
      { m' with stack := m'.stack ++ Array.replicate missing .nil } where
  size_frames := h.size_frames
  depth_le := h.depth_le
  admits := h.admits
  kept := fun j w hj => by
    have hw := h.kept j w hj
    rw [Array.getElem?_append_left (Array.getElem?_eq_some_iff.1 hw).1]
    exact hw
  reentries := h.reentries
  eq := by rw [h.eq]
  size_stack := by simp [h.size_stack]
  agree := fun j hj => by
    simp only [Array.getElem?_append, h.size_stack, h.agree j hj]

/-- The first free slot is moved. -/
theorem setTop (h : Alike V n k m m') {top : Nat}
    (htop : ∀ i < top, m'.stack[i]? = m.stack[i]?) :
    Alike V n k { m with top } { m' with top } :=
  { h with
    eq := by rw [h.eq]
    agree := fun i hi => by
      rcases hi with hi | hi | hi
      · exact h.agree i (.inl hi)
      · exact htop i hi
      · exact h.agree i (.inr (.inr hi)) }

/-! ### Changes of the frames -/

/-- A frame is added on whose slots the states agree. -/
theorem push (h : Alike V n k m m') {f : Frame} (hf : V.Admits k f.function f.wanted f.isFresh)
    (hfunction : ∀ i ≤ f.function, m'.stack[i]? = m.stack[i]?)
    (hslots : ∀ i < f.top, m'.stack[i]? = m.stack[i]?) :
    Alike V n (k + 1) { m with frames := m.frames.push f }
      { m' with frames := m'.frames.push f } where
  size_frames := by simp [h.size_frames]
  depth_le := Nat.le_succ_of_le h.depth_le
  admits := fun j g hg => by
    rw [Array.getElem?_push] at hg
    split at hg
    · next heq =>
      obtain rfl := Option.some.inj hg
      rw [heq, h.size_frames]
      exact hf
    · exact h.admits j g hg
  kept := h.kept
  reentries := h.reentries
  eq := by rw [h.eq]
  size_stack := h.size_stack
  agree := fun i hi => by
    rcases hi with hi | hi | ⟨g, hg, hi⟩ | ⟨j, g, hj, hg, hi⟩ | ⟨j, hj⟩
    · exact h.agree i (.inl hi)
    · exact h.agree_of_lt_top hi
    · rcases Array.mem_push.1 hg with hg | rfl
      · exact h.agree_function hg hi
      · exact hfunction i hi
    · rw [Array.getElem?_push] at hg
      split at hg
      · obtain rfl := Option.some.inj hg
        exact hslots i hi
      · exact h.agree_register hj hg hi
    · exact h.agree_cell hj

/-- Frames are removed that are above all others. -/
theorem take (h : Alike V n k m m') {frames : Array Frame}
    (hframes : ∀ (j : Nat) (f : Frame), frames[j]? = some f → m.frames[j]? = some f)
    (hdepth : V.depth ≤ frames.size) :
    Alike V n frames.size { m with frames } { m' with frames } where
  size_frames := rfl
  depth_le := hdepth
  admits := fun j f hf => h.admits j f (hframes j f hf)
  kept := h.kept
  reentries := h.reentries
  eq := by rw [h.eq]
  size_stack := h.size_stack
  agree := fun i hi => by
    rcases hi with hi | hi | ⟨g, hg, hi⟩ | ⟨j, g, hj, hg, hi⟩ | ⟨j, hj⟩
    · exact h.agree i (.inl hi)
    · exact h.agree_of_lt_top hi
    · obtain ⟨j, hj⟩ := Array.mem_iff_getElem?.1 hg
      exact h.agree_function (Array.mem_of_getElem? (hframes j g hj)) hi
    · exact h.agree_register hj (hframes j g hg) hi
    · exact h.agree_cell hj

/-- The selection of a frame's next instruction does not matter. -/
theorem select (h : Alike V n k m m') (j : Nat) (pc : Frame → Nat) :
    Alike V n k { m with frames := m.frames.modify j fun f => { f with pc := pc f } }
      { m' with frames := m'.frames.modify j fun f => { f with pc := pc f } } := by
  have hframes : ∀ (i : Nat) (g : Frame),
      (m.frames.modify j fun f => { f with pc := pc f })[i]? = some g →
      ∃ f, m.frames[i]? = some f ∧ ∃ pc, g = { f with pc } := fun i g hg => by
    rw [Array.getElem?_modify] at hg
    split at hg
    · obtain ⟨f, hf, rfl⟩ := Option.map_eq_some_iff.1 hg
      exact ⟨f, hf, _, rfl⟩
    · exact ⟨g, hg, g.pc, rfl⟩
  exact
    { size_frames := by simpa using h.size_frames
      depth_le := h.depth_le
      admits := fun i g hg => by
        obtain ⟨f, hf, _, rfl⟩ := hframes i g hg
        exact h.admits i f hf
      kept := h.kept
      reentries := h.reentries
      eq := by rw [h.eq]
      size_stack := h.size_stack
      agree := fun i hi => by
        rcases hi with hi | hi | ⟨g, hg, hi⟩ | ⟨j, g, hj, hg, hi⟩ | ⟨j, hj⟩
        · exact h.agree i (.inl hi)
        · exact h.agree_of_lt_top hi
        · obtain ⟨j, hj⟩ := Array.mem_iff_getElem?.1 hg
          obtain ⟨f, hf, _, rfl⟩ := hframes j g hj
          exact h.agree_function (Array.mem_of_getElem? hf) hi
        · obtain ⟨f, hf, _, rfl⟩ := hframes j g hg
          exact h.agree_register hj hf hi
        · exact h.agree_cell hj }

/-! ### Other changes -/

/-- Objects are added and changed, and cells are opened only at slots on which the states agree. -/
theorem setHeap (h : Alike V n k m m') {heap : Heap}
    (hcells : ∀ j slot : Nat, heap.cells[j]? = some (.opened slot) →
      m.heap.cells[j]? = some (.opened slot) ∨ m'.stack[slot]? = m.stack[slot]?) :
    Alike V n k { m with heap } { m' with heap } :=
  { h with
    eq := by rw [h.eq]
    agree := fun i hi => by
      rcases hi with hi | hi | hi | hi | ⟨j, hj⟩
      · exact h.agree i (.inl hi)
      · exact h.agree_of_lt_top hi
      · exact h.agree i (.inr (.inr (.inl hi)))
      · exact h.agree i (.inr (.inr (.inr (.inl hi))))
      · exact (hcells j i hj).elim h.agree_cell fun hagree => hagree }

/-- Cells are not concerned. -/
theorem setObjects (h : Alike V n k m m') {heap : Heap} (hcells : heap.cells = m.heap.cells) :
    Alike V n k { m with heap } { m' with heap } :=
  h.setHeap fun _ _ hj => .inl (hcells ▸ hj)

theorem setOpenCells (h : Alike V n k m m') (openCells : List (Nat × CellId)) :
    Alike V n k { m with openCells } { m' with openCells } :=
  { h with eq := by rw [h.eq] }

theorem setNotebook (h : Alike V n k m m') (notebook : Notebook) :
    Alike V n k { m with notebook } { m' with notebook } :=
  { h with eq := by rw [h.eq] }

theorem setKindMetatables (h : Alike V n k m m') (kindMetatables : List (Kind × TableId)) :
    Alike V n k { m with kindMetatables } { m' with kindMetatables } :=
  { h with eq := by rw [h.eq] }

theorem setBudget (h : Alike V n k m m') (budget : Option Nat) :
    Alike V n k { m with budget } { m' with budget } :=
  { h with eq := by rw [h.eq] }

/-- One more call is in progress. -/
theorem countUp (h : Alike V n k m m') :
    Alike V.up n k { m with reentries := m.reentries + 1 }
      { m' with reentries := m'.reentries + 1 } :=
  { h with
    admits := fun j f hf => (h.admits j f hf).up
    eq := by rw [h.eq]
    reentries := congrArg Nat.succ h.reentries }

/-- It has ended. -/
theorem countDown (h : Alike V.up n k m m') :
    Alike V n k { m with reentries := m.reentries - 1 }
      { m' with reentries := m'.reentries - 1 } :=
  { h with
    admits := fun j f hf => { h.admits j f hf with }
    eq := by rw [h.eq]
    reentries := congrArg Nat.pred h.reentries }

/-! ### What both states tell -/

/-- What does not depend on the stack is the same for both states. -/
theorem apply_eq {γ : Type} (h : Alike V n k m m') {f : Machine → γ}
    (hf : ∀ (m : Machine) (stack : Array Value), f { m with stack } = f m) : f m' = f m := by
  rw [h.eq]
  exact hf m _

theorem snapshot_eq (h : Alike V n k m m') {f : Frame} (hf : f ∈ m.frames) :
    m'.snapshot f = m.snapshot f := by
  simp only [snapshot, h.agree_function hf (Nat.le_refl _)]

theorem frames_eq (h : Alike V n k m m') : m'.frames = m.frames := by rw [h.eq]

theorem mem_callers {frames : Array Frame} {f : Frame} {c : Nat} {i : Option Nat}
    (hf : f ∈ callers frames c i) : f ∈ frames := by
  induction c generalizing i with
  | zero => cases hf
  | succ c ih =>
    rw [callers] at hf
    split at hf
    · next g hg =>
      obtain ⟨j, -, hj⟩ := Option.bind_eq_some_iff.1 hg
      rcases List.mem_cons.1 hf with rfl | hf
      · exact Array.mem_of_getElem? hj
      · exact ih hf
    · cases hf

theorem mem_of_callerAt? {frames : Array Frame} {f : Frame} {level : Nat} {i : Option Nat}
    (hf : callerAt? frames level i = some f) : f ∈ frames := by
  induction level generalizing i with
  | zero =>
    obtain ⟨j, -, hj⟩ := Option.bind_eq_some_iff.1 hf
    exact Array.mem_of_getElem? hj
  | succ level ih =>
    obtain ⟨g, -, hg⟩ := Option.bind_eq_some_iff.1 hf
    exact ih hg

theorem snapshots_eq (h : Alike V n k m m') : m'.snapshots = m.snapshots := by
  rw [snapshots, snapshots, h.frames_eq]
  exact List.map_congr_left fun f hf => h.snapshot_eq (mem_callers hf)

theorem snapshotAt?_eq (h : Alike V n k m m') (level : Nat) :
    m'.snapshotAt? level = m.snapshotAt? level := by
  rw [snapshotAt?, snapshotAt?, h.frames_eq]
  cases hf : callerAt? m.frames level (Frame.innermost? m.frames) with
  | none => rfl
  | some f => exact congrArg some (h.snapshot_eq (mem_of_callerAt? hf))

theorem frameInfoAt?_eq (h : Alike V n k m m') (level : Nat) :
    m'.frameInfoAt? level = m.frameInfoAt? level := by
  rw [frameInfoAt?, h.snapshotAt?_eq, h.snapshotAt?_eq, h.eq]
  rfl

theorem position_eq (h : Alike V n k m m') (level : Nat) :
    m'.position level = m.position level := by
  rw [position, h.frameInfoAt?_eq]
  rfl

theorem calleeName?_eq (h : Alike V n k m m') : m'.calleeName? = m.calleeName? := by
  rw [calleeName?, h.snapshotAt?_eq, h.frameInfoAt?_eq, h.eq]
  rfl

theorem listing_eq (h : Alike V n k m m') (frames : List FrameSnapshot) :
    m'.listing frames = m.listing frames := by
  obtain ⟨stack, rfl⟩ := h.exists_stack
  refine listing_congr ?_ frames
  intro s caller
  rfl

theorem activeTraceback_eq (h : Alike V n k m m') (message : Option String) (level : Nat) :
    m'.activeTraceback message level = m.activeTraceback message level := by
  simp only [activeTraceback, h.snapshots_eq, h.listing_eq]

end Alike

/-- The states are alike, whatever the number of frames. -/
def Akin (V : Vantage) (n : Nat) (m m' : Machine) : Prop := ∃ k, Alike V n k m m'

theorem Alike.akin (h : Alike V n k m m') : Akin V n m m' := ⟨k, h⟩

theorem Alike.akin_of_le (h : Alike V n' k m m') (hn : n ≤ n') : Akin V n m m' := (h.mono hn).akin

theorem Akin.mono (h : Akin V n m m') (hn : n' ≤ n) : Akin V n' m m' :=
  h.imp fun _ h => h.mono hn

end Machine

open Machine (Alike Akin)

variable {α β : Type} {V : Vantage} {n k : Nat}

/-! ### Computations up to their next call -/

namespace Resumption

variable {Q Q' : α → Machine → Machine → Prop} {R : β → Machine → Machine → Prop}
  {E E' : Machine → Machine → Prop}

/-- The computations make the same calls, from states that are alike, and provided that the states
are alike again when a call has ended, they yield the same result or stop for the same reason, in
states as specified. -/
def InStep (V : Vantage) (Q : α → Machine → Machine → Prop) (E : Machine → Machine → Prop) :
    Resumption α → Resumption α → Prop
  | done m a, r' => ∃ m', r' = done m' a ∧ Q a m m'
  | stopped m s, r' => ∃ m', r' = stopped m' s ∧ E m m'
  | waiting m f args wanted next, r' => ∃ m' next', r' = waiting m' f args wanted next' ∧
    ∃ n k, V.depth < k ∧ Alike V n k m m' ∧
      ∀ m₁ m₁' o, Alike V n k m₁ m₁' → (next m₁ o).InStep V Q E (next' m₁' o)

theorem InStep.mono {r r' : Resumption α} (h : r.InStep V Q E r')
    (hQ : ∀ a m m', Q a m m' → Q' a m m') (hE : ∀ m m', E m m' → E' m m') :
    r.InStep V Q' E' r' := by
  induction r generalizing r' with
  | done m a =>
    obtain ⟨m', rfl, hm⟩ := h
    exact ⟨m', rfl, hQ _ _ _ hm⟩
  | stopped m s =>
    obtain ⟨m', rfl, hm⟩ := h
    exact ⟨m', rfl, hE _ _ hm⟩
  | waiting m f args wanted next ih =>
    obtain ⟨m', next', rfl, n, k, hk, hm, hnext⟩ := h
    exact ⟨m', next', rfl, n, k, hk, hm, fun m₁ m₁' o h₁ => ih m₁ o (hnext m₁ m₁' o h₁)⟩

theorem InStep.bind {r r' : Resumption α} {f f' : α → Machine → Resumption β}
    (h : r.InStep V Q E r') (hf : ∀ a m m', Q a m m' → (f a m).InStep V R E (f' a m')) :
    (r.bind f).InStep V R E (r'.bind f') := by
  induction r generalizing r' with
  | done m a =>
    obtain ⟨m', rfl, hm⟩ := h
    exact hf a m m' hm
  | stopped m s =>
    obtain ⟨m', rfl, hm⟩ := h
    exact ⟨m', rfl, hm⟩
  | waiting m g args wanted next ih =>
    obtain ⟨m', next', rfl, n, k, hk, hm, hnext⟩ := h
    exact ⟨m', _, rfl, n, k, hk, hm, fun m₁ m₁' o h₁ => ih m₁ o (hnext m₁ m₁' o h₁)⟩

/-- Failures may be changed in the same way. -/
theorem InStep.mapFailure {r r' : Resumption α} {change : Machine → Failure → Failure}
    (h : r.InStep V Q E r') (hchange : ∀ m m' e, E m m' → change m' e = change m e) :
    (r.mapFailure change).InStep V Q E (r'.mapFailure change) := by
  induction r generalizing r' with
  | done m a =>
    obtain ⟨m', rfl, hm⟩ := h
    exact ⟨m', rfl, hm⟩
  | stopped m s =>
    obtain ⟨m', rfl, hm⟩ := h
    cases s with
    | failure e => exact ⟨m', congrArg (fun e => stopped m' (.failure e)) (hchange m m' e hm), hm⟩
    | fault f => exact ⟨m', rfl, hm⟩
  | waiting m f args wanted next ih =>
    obtain ⟨m', next', rfl, n, k, hk, hm, hnext⟩ := h
    exact ⟨m', _, rfl, n, k, hk, hm, fun m₁ m₁' o h₁ => ih m₁ o (hnext m₁ m₁' o h₁)⟩

/-- A position is added to failures: the states agree on the running closure. -/
theorem InStep.annotated {x : Exec α} {m m' : Machine}
    (h : (x m).InStep V Q (Akin V n) (x m')) :
    (x.annotated m).InStep V Q (Akin V n) (x.annotated m') :=
  h.mapFailure fun _ _ e ⟨_, h₁⟩ =>
    congrArg (fun position => e.locate position) (h₁.apply_eq fun _ _ => rfl)

theorem InStep.attempt {r r' : Resumption α} {Q' : Except Failure α → Machine → Machine → Prop}
    (h : r.InStep V Q E r') (hQ : ∀ a m m', Q a m m' → Q' (.ok a) m m')
    (hE : ∀ e m m', E m m' → Q' (.error e) m m') : r.attempt.InStep V Q' E r'.attempt := by
  induction r generalizing r' with
  | done m a =>
    obtain ⟨m', rfl, hm⟩ := h
    exact ⟨m', rfl, hQ _ _ _ hm⟩
  | stopped m s =>
    obtain ⟨m', rfl, hm⟩ := h
    cases s with
    | failure e => exact ⟨m', rfl, hE _ _ _ hm⟩
    | fault f => exact ⟨m', rfl, hm⟩
  | waiting m f args wanted next ih =>
    obtain ⟨m', next', rfl, n, k, hk, hm, hnext⟩ := h
    exact ⟨m', _, rfl, n, k, hk, hm, fun m₁ m₁' o h₁ => ih m₁ o (hnext m₁ m₁' o h₁)⟩

end Resumption

/-! ### Routines -/

namespace Routine

variable {P P' : Machine → Machine → Prop} {Q Q' : α → Machine → Machine → Prop}
  {R : β → Machine → Machine → Prop} {E E' : Machine → Machine → Prop}

/-- From states as specified the routine leads to one result and states as specified, or it stops
for one reason. -/
def InStep (P : Machine → Machine → Prop) (x : Routine α) (Q : α → Machine → Machine → Prop)
    (E : Machine → Machine → Prop) : Prop :=
  ∀ m m', P m m' → match x m with
    | .ok a m₁ => ∃ m₁', x m' = .ok a m₁' ∧ Q a m₁ m₁'
    | .error s m₁ => ∃ m₁', x m' = .error s m₁' ∧ E m₁ m₁'

/-- From states that are alike the routine leads to such states. -/
def Parallel (V : Vantage) (n k : Nat) (x : Routine α) : Prop :=
  InStep (Alike V n k) x (fun _ => Alike V n k) (Alike V n k)

theorem InStep.mono {x : Routine α} (h : InStep P x Q E) (hP : ∀ m m', P' m m' → P m m')
    (hQ : ∀ a m m', Q a m m' → Q' a m m') (hE : ∀ m m', E m m' → E' m m') :
    InStep P' x Q' E' := by
  intro m m' hm
  have hx := h m m' (hP m m' hm)
  cases hxm : x m with
  | ok a m₁ =>
    rw [hxm] at hx
    exact hx.imp fun m₁' h₁ => ⟨h₁.1, hQ a m₁ m₁' h₁.2⟩
  | error s m₁ =>
    rw [hxm] at hx
    exact hx.imp fun m₁' h₁ => ⟨h₁.1, hE m₁ m₁' h₁.2⟩

theorem InStep.pre {x : Routine α} (h : InStep P x Q E) (hP : ∀ m m', P' m m' → P m m') :
    InStep P' x Q E :=
  h.mono hP (fun _ _ _ hm => hm) fun _ _ hm => hm

theorem InStep.post {x : Routine α} (h : InStep P x Q E) (hQ : ∀ a m m', Q a m m' → Q' a m m') :
    InStep P x Q' E :=
  h.mono (fun _ _ hm => hm) hQ fun _ _ hm => hm

theorem InStep.spares {x : Routine α} (h : InStep P x Q E) (hE : ∀ m m', E m m' → E' m m') :
    InStep P x Q E' :=
  h.mono (fun _ _ hm => hm) (fun _ _ _ hm => hm) hE

theorem InStep.pure {a : α} (h : ∀ m m', P m m' → Q a m m') :
    InStep P (pure a : Routine α) Q E :=
  fun m m' hm => ⟨m', rfl, h m m' hm⟩

theorem InStep.bind {x : Routine α} {f : α → Routine β} (hx : InStep P x Q E)
    (hf : ∀ a, InStep (Q a) (f a) R E) : InStep P (x >>= f) R E := by
  intro m m' hm
  have hx' := hx m m' hm
  cases hxm : x m with
  | ok a m₁ =>
    rw [hxm] at hx'
    obtain ⟨m₁', hxm', hm₁⟩ := hx'
    rw [bind_of_ok hxm, bind_of_ok hxm']
    exact hf a m₁ m₁' hm₁
  | error s m₁ =>
    rw [hxm] at hx'
    obtain ⟨m₁', hxm', hm₁⟩ := hx'
    rw [bind_of_error hxm, bind_of_error hxm']
    exact ⟨m₁', rfl, hm₁⟩

/-- The state is read, and what follows is the same for both states. -/
theorem InStep.get {f : Machine → Routine β} (hP : ∀ m m', P m m' → Alike V n k m m')
    (hf : ∀ (m : Machine) (stack : Array Value), f { m with stack } = f m)
    (h : ∀ m₀, InStep (fun m m' => P m m' ∧ m = m₀) (f m₀) R E) : InStep P (get >>= f) R E := by
  intro m m' hm
  have h' := h m m m' ⟨hm, rfl⟩
  rw [bind_get, bind_get, (hP m m' hm).apply_eq hf]
  exact h'

theorem InStep.modify {f : Machine → Machine} {Q : Unit → Machine → Machine → Prop}
    (h : ∀ m m', P m m' → Q () (f m) (f m')) : InStep P (modify f : Routine Unit) Q E :=
  fun m m' hm => ⟨f m', rfl, h m m' hm⟩

theorem InStep.fail {cause : Cause} (h : ∀ m m', P m m' → E m m') :
    InStep P (Routine.fail cause : Routine α) Q E :=
  fun m m' hm => ⟨m', rfl, h m m' hm⟩

theorem InStep.fault {f : Fault} (h : ∀ m m', P m m' → E m m') :
    InStep P (Routine.fault f : Routine α) Q E :=
  fun m m' hm => ⟨m', rfl, h m m' hm⟩

theorem Parallel.pure {a : α} : Parallel V n k (pure a : Routine α) :=
  InStep.pure fun _ _ hm => hm

theorem Parallel.bind {x : Routine α} {f : α → Routine β} (hx : Parallel V n k x)
    (hf : ∀ a, Parallel V n k (f a)) : Parallel V n k (x >>= f) :=
  InStep.bind hx hf

theorem Parallel.get {f : Machine → Routine β}
    (hf : ∀ (m : Machine) (stack : Array Value), f { m with stack } = f m)
    (h : ∀ m₀, Parallel V n k (f m₀)) : Parallel V n k (get >>= f) :=
  InStep.get (fun _ _ hm => hm) hf fun m₀ => (h m₀).pre fun _ _ hm => hm.1

theorem Parallel.modify {f : Machine → Machine}
    (h : ∀ m m', Alike V n k m m' → Alike V n k (f m) (f m')) :
    Parallel V n k (modify f : Routine Unit) :=
  InStep.modify h

theorem Parallel.fail {cause : Cause} : Parallel V n k (Routine.fail cause : Routine α) :=
  InStep.fail fun _ _ hm => hm

theorem Parallel.fault {f : Fault} : Parallel V n k (Routine.fault f : Routine α) :=
  InStep.fault fun _ _ hm => hm

end Routine

/-! ### Computations that call -/

namespace Exec

variable {P P' : Machine → Machine → Prop} {Q Q' : α → Machine → Machine → Prop}
  {R : β → Machine → Machine → Prop} {E E' : Machine → Machine → Prop}

/-- From states as specified the computation makes the same calls and leads to one result and states
as specified, or it stops for one reason. -/
def InStep (V : Vantage) (P : Machine → Machine → Prop) (x : Exec α)
    (Q : α → Machine → Machine → Prop) (E : Machine → Machine → Prop) : Prop :=
  ∀ m m', P m m' → (x m).InStep V Q E (x m')

/-- From states that are alike the computation leads to such states. -/
def Parallel (V : Vantage) (n k : Nat) (x : Exec α) : Prop :=
  InStep V (Alike V n k) x (fun _ => Alike V n k) (Alike V n k)

theorem InStep.mono {x : Exec α} (h : InStep V P x Q E) (hP : ∀ m m', P' m m' → P m m')
    (hQ : ∀ a m m', Q a m m' → Q' a m m') (hE : ∀ m m', E m m' → E' m m') :
    InStep V P' x Q' E' :=
  fun m m' hm => (h m m' (hP m m' hm)).mono hQ hE

theorem InStep.pre {x : Exec α} (h : InStep V P x Q E) (hP : ∀ m m', P' m m' → P m m') :
    InStep V P' x Q E :=
  h.mono hP (fun _ _ _ hm => hm) fun _ _ hm => hm

theorem InStep.spares {x : Exec α} (h : InStep V P x Q E) (hE : ∀ m m', E m m' → E' m m') :
    InStep V P x Q E' :=
  h.mono (fun _ _ hm => hm) (fun _ _ _ hm => hm) hE

theorem InStep.pure {a : α} (h : ∀ m m', P m m' → Q a m m') : InStep V P (pure a : Exec α) Q E :=
  fun m m' hm => ⟨m', rfl, h m m' hm⟩

theorem InStep.bind {x : Exec α} {f : α → Exec β} (hx : InStep V P x Q E)
    (hf : ∀ a, InStep V (Q a) (f a) R E) : InStep V P (x >>= f) R E :=
  fun m m' hm => (hx m m' hm).bind hf

/-- An operation that calls nothing is a routine. -/
theorem InStep.lift {x : Routine α} (h : Routine.InStep P x Q E) :
    InStep V P (ofRoutine x) Q E := by
  intro m m' hm
  have hx := h m m' hm
  cases hxm : x m with
  | ok a m₁ =>
    rw [hxm] at hx
    obtain ⟨m₁', hxm', hm₁⟩ := hx
    simp only [ofRoutine, hxm, hxm']
    exact ⟨m₁', rfl, hm₁⟩
  | error s m₁ =>
    rw [hxm] at hx
    obtain ⟨m₁', hxm', hm₁⟩ := hx
    simp only [ofRoutine, hxm, hxm']
    exact ⟨m₁', rfl, hm₁⟩

/-- The state is read, and what follows is the same for both states. -/
theorem InStep.state {f : Machine → Exec β} (hP : ∀ m m', P m m' → Alike V n k m m')
    (hf : ∀ (m : Machine) (stack : Array Value), f { m with stack } = f m)
    (h : ∀ m₀, InStep V P (f m₀) R E) : InStep V P (state >>= f) R E := by
  intro m m' hm
  have h' := h m m m' hm
  change (f m m).InStep V R E (f m' m')
  rw [(hP m m' hm).apply_eq hf]
  exact h'

theorem InStep.fail {cause : Cause} (h : ∀ m m', P m m' → E m m') :
    InStep V P (Exec.fail cause : Exec α) Q E :=
  fun m m' hm => ⟨m', rfl, h m m' hm⟩

theorem Parallel.pure {a : α} : Parallel V n k (pure a : Exec α) :=
  InStep.pure fun _ _ hm => hm

theorem Parallel.bind {x : Exec α} {f : α → Exec β} (hx : Parallel V n k x)
    (hf : ∀ a, Parallel V n k (f a)) : Parallel V n k (x >>= f) :=
  InStep.bind hx hf

theorem Parallel.lift {x : Routine α} (h : Routine.Parallel V n k x) :
    Parallel V n k (ofRoutine x) :=
  InStep.lift h

theorem Parallel.state {f : Machine → Exec β}
    (hf : ∀ (m : Machine) (stack : Array Value), f { m with stack } = f m)
    (h : ∀ m₀, Parallel V n k (f m₀)) : Parallel V n k (state >>= f) :=
  InStep.state (fun _ _ hm => hm) hf h

/-- What both states tell is read. -/
theorem Parallel.gets_of_eq {f : Machine → α} (hf : ∀ m m', Alike V n k m m' → f m' = f m) :
    Parallel V n k (gets f) :=
  fun m m' hm => ⟨m', congrArg (Resumption.done m') (hf m m' hm), hm⟩

theorem Parallel.gets {f : Machine → α}
    (hf : ∀ (m : Machine) (stack : Array Value), f { m with stack } = f m) :
    Parallel V n k (gets f) :=
  Parallel.gets_of_eq fun _ _ hm => hm.apply_eq hf

theorem Parallel.throw {e : Failure} : Parallel V n k (throw e : Exec α) :=
  fun _ m' hm => ⟨m', rfl, hm⟩

theorem Parallel.fail {cause : Cause} : Parallel V n k (Exec.fail cause : Exec α) :=
  Parallel.throw

/-- The failure depends on what both states tell. -/
theorem Parallel.stopped {e : Machine → Failure} (he : ∀ m m', Alike V n k m m' → e m' = e m) :
    Parallel V n k (fun m => .stopped m (.failure (e m)) : Exec α) :=
  fun m m' hm => ⟨m', congrArg (fun e => Resumption.stopped m' (.failure e)) (he m m' hm), hm⟩

theorem Parallel.failWith {cause : Machine → Cause}
    (hcause : ∀ (m : Machine) (stack : Array Value), cause { m with stack } = cause m) :
    Parallel V n k (failWith cause : Exec α) :=
  Parallel.stopped fun _ _ hm => congrArg Failure.of (hm.apply_eq hcause)

/-- **Calls.** A call in the course of the one that is watched begins and ends in states that are
alike. -/
theorem Parallel.call (hk : V.depth < k) (f : Value) (args : List Value) (wanted : Option Nat) :
    Parallel V n k (call f args wanted) := by
  refine fun m m' hm => ⟨m', _, rfl, n, k, hk, hm, fun m₁ m₁' o h₁ => ?_⟩
  cases o with
  | ok results => exact ⟨m₁', rfl, h₁⟩
  | error e => exact ⟨m₁', rfl, h₁⟩

theorem Parallel.callForValue (hk : V.depth < k) (f : Value) (args : List Value) :
    Parallel V n k (callForValue f args) :=
  (Parallel.call hk f args (some 1)).bind fun _ => Parallel.pure

/-- The number of frames need not be told. -/
theorem Parallel.akin {x : Exec α} (h : Parallel V n k x) :
    InStep V (Alike V n k) x (fun _ => Akin V n) (Akin V n) :=
  h.mono (fun _ _ hm => hm) (fun _ _ _ hm => hm.akin) fun _ _ hm => hm.akin

theorem Parallel.attempt {x : Exec α} (h : Parallel V n k x) : Parallel V n k x.attempt :=
  fun m m' hm => (h m m' hm).attempt (fun _ _ _ h₁ => h₁) fun _ _ _ h₁ => h₁

end Exec

end LuaMachine
