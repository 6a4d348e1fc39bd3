import LuaMachine.Machine.Calls
import LuaMachine.Proofs.Machine.Invariant

/-!
# Effects of stack and cell operations

The operations on stack slots change contents only, so that they keep every robust invariant; they
do not fault as long as the slots exist.  Opening and closing cells changes the list of open cells
from a slot on.

## Main statements

* `Stack.keeps_write`, `Stack.keeps_copy`, `Stack.keeps_take` and others : slots that exist can be
  read and written.
* `Stack.triple_reserve` : reserved slots exist.
* `Cell.keeps_capture`, `Cell.triple_closeFrom` : cells are opened and closed from a slot on.
* `Closure.keeps_load` : a loaded closure can run.
-/

namespace LuaMachine

variable {level : Nat} {I : Machine → Prop}

namespace Machine

/-- Only the stack has changed. -/
theorem undisturbed_stack {m : Machine} {stack : Array Value} (h : m.stack.size ≤ stack.size) :
    m.Undisturbed { m with stack } where
  limits := rfl
  reentries := rfl
  frames := rfl
  top := rfl
  openCells := rfl
  stack := h
  closures := fun _ _ hc => hc
  accepted := fun _ hc => .inl hc
  opened := fun _ _ => Iff.rfl

/-- Only objects other than closures and cells have changed. -/
theorem undisturbed_heap {m : Machine} {heap : Heap} (hclosures : heap.closures = m.heap.closures)
    (hcells : heap.cells = m.heap.cells) : m.Undisturbed { m with heap } where
  limits := rfl
  reentries := rfl
  frames := rfl
  top := rfl
  openCells := rfl
  stack := Nat.le_refl _
  closures := fun _ _ hc => hclosures ▸ hc
  accepted := fun _ hc => .inl (hclosures ▸ hc)
  opened := fun _ _ => by simp only [hcells]

/-- Only cells have changed, and the same ones are open. -/
theorem undisturbed_cells {m : Machine} {cells : Array Cell}
    (h : ∀ i slot : Nat, cells[i]? = some (.opened slot) ↔ m.heap.cells[i]? = some (.opened slot)) :
    m.Undisturbed { m with heap.cells := cells } where
  limits := rfl
  reentries := rfl
  frames := rfl
  top := rfl
  openCells := rfl
  stack := Nat.le_refl _
  closures := fun _ _ hc => hc
  accepted := fun _ hc => .inl hc
  opened := h

/-- Closures that can run have been added. -/
theorem undisturbed_closure {m : Machine} {c : Closure} (hc : c.Accepted) :
    m.Undisturbed { m with heap.closures := m.heap.closures.push c } where
  limits := rfl
  reentries := rfl
  frames := rfl
  top := rfl
  openCells := rfl
  stack := Nat.le_refl _
  closures := fun i c' hc' => by
    have hi : i < m.heap.closures.size := (Array.getElem?_eq_some_iff.1 hc').1
    simp only [Array.getElem?_push, if_neg (Nat.ne_of_lt hi), hc']
  accepted := fun c' hc' => (Array.mem_push.1 hc').imp_right fun (h : c' = c) => h ▸ hc
  opened := fun _ _ => Iff.rfl

end Machine

theorem Robust.stack (hI : Robust level I) : StackRobust I :=
  fun _ _ hm h => hI.undisturbed hm (Machine.undisturbed_stack h)

/-! ### The stack -/

namespace Stack

open Routine

/-- Slots that have been reserved exist. -/
theorem triple_reserve (hI : StackRobust I) (needed : Nat) :
    Triple I (reserve needed) (fun _ m => I m ∧ needed ≤ m.stack.size) (Stop.Spares I) := by
  intro m hm
  by_cases h : needed ≤ m.stack.size
  · simp only [reserve, if_pos h]
    exact ⟨hm, h⟩
  · by_cases hlimit : m.limits.stackSize < needed
    · simp only [reserve, if_neg h, if_pos hlimit]
      exact hm
    · simp only [reserve, if_neg h, if_neg hlimit]
      refine ⟨hI _ _ hm ?_, ?_⟩
      · simp
      · simp only [Array.size_append, Array.size_replicate]
        omega

theorem keeps_read {i : Nat} (hi : ∀ m, I m → i < m.stack.size) : Keeps I (read i) := by
  intro m hm
  simp only [read, Array.getElem?_eq_getElem (hi m hm)]
  exact hm

/-- A slot that exists has a value. -/
theorem triple_read {i : Nat} (hi : ∀ m, I m → i < m.stack.size) :
    Triple I (read i) (fun v m => I m ∧ m.stack[i]? = some v) (Stop.Spares I) := by
  intro m hm
  simp only [read, Array.getElem?_eq_getElem (hi m hm)]
  exact ⟨hm, trivial⟩

theorem keeps_write (hI : StackRobust I) {i : Nat} (hi : ∀ m, I m → i < m.stack.size) (v : Value) :
    Keeps I (write i v) := by
  intro m hm
  simp only [write, if_pos (hi m hm)]
  exact hI _ _ hm (by simp)

theorem keeps_writeAll (hI : StackRobust I) {first : Nat} {vs : List Value}
    (h : ∀ m, I m → first + vs.length ≤ m.stack.size) : Keeps I (writeAll first vs) := by
  induction vs generalizing first with
  | nil => exact Keeps.pure
  | cons v rest ih =>
    simp only [List.length_cons] at h
    refine (keeps_write hI (fun m hm => ?_) v).bind fun _ => ih fun m hm => ?_
    · have := h m hm
      omega
    · have := h m hm
      omega

theorem keeps_clear (hI : StackRobust I) {first count : Nat}
    (h : ∀ m, I m → first + count ≤ m.stack.size) : Keeps I (clear first count) := by
  induction count generalizing first with
  | zero => exact Keeps.pure
  | succ count ih =>
    refine (keeps_write hI (fun m hm => ?_) .nil).bind fun _ => ih fun m hm => ?_
    · have := h m hm
      omega
    · have := h m hm
      omega

/-- A range of slots that exist has as many values as slots. -/
theorem triple_readRange {first last : Nat}
    (h : ∀ m, I m → first ≤ last ∧ last ≤ m.stack.size) :
    Triple I (readRange first last) (fun vs m => I m ∧ vs.length = last - first)
      (Stop.Spares I) := by
  intro m hm
  obtain ⟨hfirst, hlast⟩ := h m hm
  simp only [readRange, if_neg (Nat.not_lt.2 hfirst), if_neg (Nat.not_lt.2 hlast)]
  refine ⟨hm, ?_⟩
  simp only [Array.length_toList, Array.size_extract]
  omega

/-- The number of slots up to the first free one. -/
theorem triple_countFrom {first : Nat} (h : ∀ m, I m → first ≤ m.top) :
    Triple I (countFrom first) (fun n m => I m ∧ m.top = first + n) (Stop.Spares I) := by
  intro m hm
  have hfirst := h m hm
  simp only [countFrom, if_neg (Nat.not_lt.2 hfirst)]
  exact ⟨hm, by omega⟩

/-- Values are copied between slots that exist. -/
theorem keeps_copy (hI : StackRobust I) {source target available count : Nat}
    (hsource : ∀ m, I m → 0 < available → source + min available count ≤ m.stack.size)
    (htarget : ∀ m, I m → target + count ≤ m.stack.size) :
    Keeps I (copy source target available count) := by
  induction count generalizing source target available with
  | zero => exact Keeps.pure
  | succ count ih =>
    have hrest : Keeps I (copy (source + 1) (target + 1) (available - 1) count) := by
      refine ih (fun m hm h => ?_) fun m hm => ?_
      · have := hsource m hm (by omega)
        omega
      · have := htarget m hm
        omega
    have hwrite : ∀ v, Keeps I (write target v) := fun v => keeps_write hI (fun m hm => by
      have := htarget m hm
      omega) v
    rw [copy]
    split
    · next h =>
      refine (keeps_read fun m hm => ?_).bind fun v => (hwrite v).bind fun _ => hrest
      have := hsource m hm h
      omega
    · exact Keeps.pure.bind fun v => (hwrite v).bind fun _ => hrest

/-- Values are moved between slots that exist. -/
theorem keeps_take (hI : StackRobust I) {source target available count : Nat}
    (hsource : ∀ m, I m → 0 < available → source + min available count ≤ m.stack.size)
    (htarget : ∀ m, I m → target + count ≤ m.stack.size) :
    Keeps I (take source target available count) := by
  induction count generalizing source target available with
  | zero => exact Keeps.pure
  | succ count ih =>
    have hrest : Keeps I (take (source + 1) (target + 1) (available - 1) count) := by
      refine ih (fun m hm h => ?_) fun m hm => ?_
      · have := hsource m hm (by omega)
        omega
      · have := htarget m hm
        omega
    have hwrite : ∀ v, Keeps I (write target v) := fun v => keeps_write hI (fun m hm => by
      have := htarget m hm
      omega) v
    rw [take]
    split
    · next h =>
      have hslot : ∀ m, I m → source < m.stack.size := fun m hm => by
        have := hsource m hm h
        omega
      exact (keeps_read hslot).bind fun v => (keeps_write hI hslot .nil).bind fun _ =>
        (hwrite v).bind fun _ => hrest
    · exact (hwrite .nil).bind fun _ => hrest

/-- A value is put between others, for which there is another slot. -/
theorem keeps_insert (hI : StackRobust I) {first last : Nat} (v : Value) (hle : first ≤ last)
    (h : ∀ m, I m → last + 1 ≤ m.stack.size) : Keeps I (insert first last v) := by
  refine Triple.bind (triple_readRange fun m hm => ⟨hle, Nat.le_of_succ_le (h m hm)⟩) fun vs =>
    Triple.assume fun hvs => ?_
  refine keeps_writeAll hI fun m hm => ?_
  have := h m hm
  simp only [List.length_cons]
  omega

end Stack

/-! ### Cells -/

namespace Cell

open Routine

theorem keeps_read (id : CellId) : Keeps I (read id) := fun _ hm => hm

/-- A cell that is written stays open or closed. -/
theorem keeps_write (hI : Robust level I) (id : CellId) (v : Value) : Keeps I (write id v) := by
  refine Keeps.modify fun m hm => ?_
  cases h : m.heap.cell id with
  | opened slot => exact hI.undisturbed hm (Machine.undisturbed_stack (by simp))
  | closed old =>
    refine hI.undisturbed hm (Machine.undisturbed_cells fun i slot => ?_)
    by_cases hi : id.index = i
    · subst hi
      have hopen : m.heap.cells[id.index]? ≠ some (.opened slot) := fun hslot => by
        simp [Heap.cell, hslot] at h
      simp [Array.getElem?_setIfInBounds, hopen]
    · simp [hi]

theorem keeps_create (hI : Robust level I) (v : Value) : Keeps I (create (.closed v)) := by
  refine fun m hm => hI.undisturbed hm (Machine.undisturbed_cells fun i slot => ?_)
  by_cases hi : i = m.heap.cells.size <;> simp [Array.getElem?_push, hi]

/-! #### Opening a cell -/

theorem mem_enter {slot slot' : Nat} {id id' : CellId} {cells : List (Nat × CellId)} :
    (slot', id') ∈ enter slot id cells ↔
      (slot' = slot ∧ id' = id) ∨ (slot', id') ∈ cells := by
  induction cells with
  | nil => simp [enter]
  | cons e rest ih =>
    obtain ⟨s, other⟩ := e
    rw [enter]
    split
    · rw [List.mem_cons, ih, List.mem_cons]
      exact or_left_comm
    · rw [List.mem_cons, Prod.mk.injEq]

theorem pairwise_enter {slot : Nat} {id : CellId} {cells : List (Nat × CellId)}
    (hsorted : cells.Pairwise fun x y => y.1 < x.1) (hfree : ∀ e ∈ cells, e.1 ≠ slot) :
    (enter slot id cells).Pairwise fun x y => y.1 < x.1 := by
  induction cells with
  | nil => simp [enter]
  | cons e rest ih =>
    obtain ⟨s, other⟩ := e
    obtain ⟨hhead, hrest⟩ := List.pairwise_cons.1 hsorted
    rw [enter]
    split
    · next h =>
      refine List.pairwise_cons.2 ⟨?_, ih hrest fun e he => hfree e (List.mem_cons_of_mem _ he)⟩
      rintro ⟨s', id'⟩ he
      rcases mem_enter.1 he with ⟨rfl, _⟩ | he
      · exact h
      · exact hhead _ he
    · next h =>
      have hs : s < slot := by
        have := hfree (s, other) List.mem_cons_self
        simp only [ne_eq] at this
        omega
      refine List.pairwise_cons.2 ⟨fun e he => ?_, hsorted⟩
      rcases List.mem_cons.1 he with rfl | he
      · exact hs
      · exact Nat.lt_trans (hhead e he) hs

theorem find?_eq_none {slot : Nat} {cells : List (Nat × CellId)}
    (hsorted : cells.Pairwise fun x y => y.1 < x.1) (h : find? slot cells = none) :
    ∀ e ∈ cells, e.1 ≠ slot := by
  induction cells with
  | nil => simp
  | cons e rest ih =>
    obtain ⟨s, other⟩ := e
    obtain ⟨hhead, hrest⟩ := List.pairwise_cons.1 hsorted
    simp only [find?] at h
    split at h
    · cases h
    · next hs =>
      refine List.forall_mem_cons.2 ⟨hs, ?_⟩
      split at h
      · next hlt => exact fun e he => Nat.ne_of_lt (Nat.lt_trans (hhead e he) hlt)
      · exact ih hrest h

/-- What capturing a slot yields, and the state that it leaves. -/
theorem capture_eq (slot : Nat) (m : Machine) :
    capture slot m = match find? slot m.openCells with
      | some id => .ok id m
      | none => .ok ⟨m.heap.cells.size⟩
        { m with
          heap := { m.heap with cells := m.heap.cells.push (.opened slot) }
          openCells := enter slot ⟨m.heap.cells.size⟩ m.openCells } := by
  rw [capture, Routine.bind_get]
  cases find? slot m.openCells <;> rfl

/-- A new cell is open at its slot alone. -/
theorem sound_capture {slot : Nat} {m : Machine} (hm : m.Sound)
    (h : find? slot m.openCells = none) :
    Machine.Sound { m with
      heap := { m.heap with cells := m.heap.cells.push (.opened slot) }
      openCells := enter slot ⟨m.heap.cells.size⟩ m.openCells } where
  closures := hm.closures
  top_le := hm.top_le
  sorted := pairwise_enter hm.sorted (find?_eq_none hm.sorted h)
  opened := by
    rintro slot' ⟨i⟩
    rw [mem_enter, hm.opened, Array.getElem?_push, CellId.mk.injEq]
    split
    · next hi =>
      change i = m.heap.cells.size at hi
      simp [hi, eq_comm]
    · next hi =>
      change i ≠ m.heap.cells.size at hi
      simp [hi]

/-- A cell is opened at a register of an active frame, from `level` on. -/
theorem keeps_capture (hI : Robust level I) {slot : Nat} (hslot : level ≤ slot)
    (howns : ∀ m, I m → ∃ f ∈ m.frames, f.Owns slot) : Keeps I (capture slot) := by
  intro m hm
  rw [capture_eq]
  cases h : find? slot m.openCells with
  | some id => exact hm
  | none =>
    refine hI.quiet m _ hm
      { limits := rfl, reentries := rfl, frames := rfl, top := rfl, stack := Nat.le_refl _
        closures := fun _ _ hc => hc
        cells := fun slot' id hlt => ?_
        covered := fun hcovered e he => ?_
        sound := sound_capture (hI.sound m hm) h }
    · rw [mem_enter, or_iff_right]
      omega
    · rcases mem_enter.1 he with ⟨rfl, -⟩ | he
      · exact howns m hm
      · exact hcovered e he

/-! #### Closing cells -/

/-- A cell that has been closed keeps the value of its slot. -/
def detach (stack : Array Value) : Cell → Cell
  | opened slot => closed (stack[slot]?.getD .nil)
  | closed v => closed v

theorem detach_detach (stack : Array Value) (c : Cell) :
    (c.detach stack).detach stack = c.detach stack := by
  cases c <;> rfl

theorem detach_ne_opened (stack : Array Value) (c : Cell) (slot : Nat) :
    c.detach stack ≠ opened slot := by
  cases c <;> nofun

/-- A cell is closed, and no other cell changes. -/
theorem close_eq (id : CellId) (m : Machine) :
    close id m = .ok () { m with
      heap.cells := m.heap.cells.modify id.index (detach m.stack) } := by
  have hcell : m.heap.cell id = m.heap.cells[id.index]?.getD default := rfl
  have hmodify : m.heap.cells.modify id.index (detach m.stack) =
      m.heap.cells.setIfInBounds id.index ((m.heap.cell id).detach m.stack) := by
    refine Array.ext (by simp) fun i hi hi' => ?_
    rw [Array.getElem_modify, Array.getElem_setIfInBounds]
    split
    · next h => simp [hcell, ← h, show id.index < m.heap.cells.size by simpa [h] using hi]
    · rfl
  rw [hmodify, close, Routine.modify_eq]
  cases h : m.heap.cell id with
  | opened slot => rfl
  | closed v =>
    have hsame : m.heap.cells.setIfInBounds id.index (closed v) = m.heap.cells := by
      refine Array.ext (by simp) fun i hi hi' => ?_
      rw [Array.getElem_setIfInBounds]
      split
      · next heq =>
        rw [← h, hcell, heq, Array.getElem?_eq_getElem hi', Option.getD_some]
      · rfl
    simp only [detach, hsame]

/-- The cells of a list are closed, and no other cells change. -/
theorem closeAll_eq (l : List (Nat × CellId)) (m : Machine) :
    ∃ cells, closeAll l m = .ok () { m with heap.cells := cells } ∧
      ∀ i : Nat, cells[i]? = m.heap.cells[i]?.map fun c =>
        if i ∈ l.map (·.2.index) then c.detach m.stack else c := by
  induction l generalizing m with
  | nil => exact ⟨m.heap.cells, rfl, by simp⟩
  | cons e rest ih =>
    obtain ⟨slot₀, id⟩ := e
    obtain ⟨cells, hm, hcells⟩ := ih { m with
      heap.cells := m.heap.cells.modify id.index (detach m.stack) }
    refine ⟨cells, ?_, fun i => ?_⟩
    · rw [closeAll, Routine.bind_of_ok (close_eq id m), hm]
    · rw [hcells, Array.getElem?_modify]
      cases m.heap.cells[i]? with
      | none => simp
      | some c =>
        by_cases hi : i = id.index
        · by_cases hrest : id.index ∈ rest.map (·.2.index) <;> simp [hi, hrest, detach_detach]
        · simp only [if_neg (Ne.symm hi), List.map_cons, List.mem_cons, hi, false_or,
            Option.map_some]

/-- The cells that are still open are those that have not been closed. -/
theorem opened_iff_of_closeAll {l : List (Nat × CellId)} {stack : Array Value}
    {cells cells' : Array Cell} (h : ∀ i : Nat, cells'[i]? = cells[i]?.map fun c =>
      if i ∈ l.map (·.2.index) then c.detach stack else c) (i slot : Nat) :
    cells'[i]? = some (.opened slot) ↔
      cells[i]? = some (.opened slot) ∧ ∀ e ∈ l, e.2.index ≠ i := by
  rw [h]
  by_cases hi : i ∈ l.map (·.2.index)
  · simp only [if_pos hi, Option.map_eq_some_iff, detach_ne_opened, and_false, exists_false,
      false_iff, not_and]
    obtain ⟨e, he, heq⟩ := List.mem_map.1 hi
    exact fun _ hall => hall e he heq
  · simp only [if_neg hi, Option.map_id_fun', id_eq]
    exact (and_iff_left fun e he heq => hi (List.mem_map.2 ⟨e, he, heq⟩)).symm

section Sorted

variable {l : Nat} {cells : List (Nat × CellId)}

theorem mem_dropWhile (hsorted : cells.Pairwise fun x y => y.1 < x.1) {e : Nat × CellId} :
    e ∈ cells.dropWhile (fun e => l ≤ e.1) ↔ e ∈ cells ∧ e.1 < l := by
  induction cells with
  | nil => simp
  | cons x rest ih =>
    obtain ⟨hhead, hrest⟩ := List.pairwise_cons.1 hsorted
    by_cases hx : l ≤ x.1
    · rw [List.dropWhile_cons_of_pos (by simpa using hx), ih hrest, List.mem_cons]
      refine and_congr_left fun he => (or_iff_right ?_).symm
      rintro rfl
      omega
    · rw [List.dropWhile_cons_of_neg (by simpa using hx)]
      refine (and_iff_left_of_imp fun he => ?_).symm
      rcases List.mem_cons.1 he with rfl | he
      · omega
      · have := hhead e he
        omega

theorem mem_takeWhile (hsorted : cells.Pairwise fun x y => y.1 < x.1) {e : Nat × CellId} :
    e ∈ cells.takeWhile (fun e => l ≤ e.1) ↔ e ∈ cells ∧ l ≤ e.1 := by
  induction cells with
  | nil => simp
  | cons x rest ih =>
    obtain ⟨hhead, hrest⟩ := List.pairwise_cons.1 hsorted
    by_cases hx : l ≤ x.1
    · rw [List.takeWhile_cons_of_pos (by simpa using hx), List.mem_cons, List.mem_cons, ih hrest,
        or_and_right]
      exact or_congr_left (and_iff_left_of_imp fun he => he ▸ hx).symm
    · rw [List.takeWhile_cons_of_neg (by simpa using hx)]
      refine iff_of_false List.not_mem_nil fun ⟨he, hle⟩ => ?_
      rcases List.mem_cons.1 he with rfl | he
      · omega
      · have := hhead e he
        omega

end Sorted

/-- The state after cells have been closed from a slot on. -/
theorem closeFrom_eq (l : Nat) (m : Machine) :
    ∃ cells, closeFrom l m = .ok () { m with
        heap := { m.heap with cells }
        openCells := m.openCells.dropWhile fun e => l ≤ e.1 } ∧
      ∀ i : Nat, cells[i]? = m.heap.cells[i]?.map fun c =>
        if i ∈ (m.openCells.takeWhile fun e => l ≤ e.1).map (·.2.index) then c.detach m.stack
        else c := by
  rw [closeFrom, Routine.bind_get]
  cases hcells : m.openCells with
  | nil =>
    refine ⟨m.heap.cells, ?_, by simp⟩
    change EStateM.Result.ok () m = _
    rw [List.dropWhile_nil, ← hcells]
  | cons e rest =>
    obtain ⟨slot, id⟩ := e
    by_cases hslot : l ≤ slot
    · obtain ⟨cells, hm, hclosed⟩ :=
        closeAll_eq (((slot, id) :: rest).takeWhile fun e => l ≤ e.1) m
      refine ⟨cells, ?_, hclosed⟩
      simp only [if_pos hslot]
      exact Routine.bind_of_ok hm
    · refine ⟨m.heap.cells, ?_, ?_⟩
      · simp only [if_neg hslot]
        rw [List.dropWhile_cons_of_neg (by simpa using hslot), ← hcells]
        rfl
      · rw [List.takeWhile_cons_of_neg (by simpa using hslot)]
        simp

/-- **Closing cells from a slot on.** No cells stay open from the slot on, and the cells below it
are not concerned. -/
theorem triple_closeFrom (hI : Robust level I) {l : Nat} (hl : level ≤ l) :
    Triple I (closeFrom l) (fun _ m => I m ∧ ∀ slot id, (slot, id) ∈ m.openCells → slot < l)
      fun _ _ => False := by
  intro m hm
  have hsound := hI.sound m hm
  obtain ⟨cells, heq, hcells⟩ := closeFrom_eq l m
  have hopened := opened_iff_of_closeAll hcells
  rw [heq]
  refine ⟨hI.quiet m _ hm ?_, fun slot id h => ((mem_dropWhile hsound.sorted).1 h).2⟩
  refine
    { limits := rfl, reentries := rfl, frames := rfl, top := rfl, stack := Nat.le_refl _
      closures := fun _ _ hc => hc
      cells := fun slot id hslot => ?_
      covered := fun hcovered => hcovered.mono fun e he => ((mem_dropWhile hsound.sorted).1 he).1
      sound :=
        { hsound with
          sorted := hsound.sorted.sublist (List.dropWhile_sublist _)
          opened := fun slot id => ?_ } }
  · rw [mem_dropWhile hsound.sorted]
    exact and_iff_left_of_imp fun _ => Nat.lt_of_lt_of_le hslot hl
  · rw [mem_dropWhile hsound.sorted, hopened, hsound.opened]
    refine and_congr_right fun hid => ⟨fun hlt e he hindex => ?_, fun hfree => ?_⟩
    · -- A cell is open at one slot only, and this one is not among those that are closed.
      obtain ⟨hmem, hle⟩ := (mem_takeWhile hsound.sorted).1 he
      have he' := (hsound.opened e.1 e.2).1 hmem
      rw [hindex, hid] at he'
      injection he' with he'
      injection he' with he'
      omega
    · refine Nat.lt_of_not_le fun hle => ?_
      exact hfree (slot, id) ((mem_takeWhile hsound.sorted).2
        ⟨(hsound.opened slot id).2 hid, hle⟩) rfl

theorem keeps_closeFrom (hI : Robust level I) {l : Nat} (hl : level ≤ l) :
    Keeps I (closeFrom l) :=
  (triple_closeFrom hI hl).mono (fun _ hm => hm) (fun _ _ hm => hm.1) fun _ _ hm => hm.elim

end Cell

/-! ### Closures -/

namespace Closure

open Routine

theorem triple_createCells (hI : Robust level I) (first : Value) (us : List UpvalueInfo) :
    Triple I (createCells first us) (fun ids m => I m ∧ ids.length = us.length)
      (Stop.Spares I) := by
  induction us generalizing first with
  | nil => exact Triple.pure fun _ hm => ⟨hm, rfl⟩
  | cons u rest ih =>
    refine Triple.bind (Cell.keeps_create hI first) fun id => Triple.bind (ih .nil) fun ids => ?_
    exact Triple.pure fun _ hm => ⟨hm.1, congrArg Nat.succ hm.2⟩

/-- A closure can be added if its prototype has been accepted and it has enough cells. -/
theorem keeps_create (hI : Robust level I) {proto : Prototype} {cells : List CellId}
    (hproto : proto.verify = .ok ()) (hcells : cells.length = proto.upvalues.length) :
    Keeps I (create proto cells) :=
  fun _ hm => hI.undisturbed hm (Machine.undisturbed_closure ⟨hproto, by simpa using hcells⟩)

theorem keeps_load (hI : Robust level I) (proto : Prototype) : Keeps I (load proto) := by
  rw [load]
  cases hproto : proto.verify with
  | error d => exact Keeps.fail
  | ok _ =>
    refine Triple.bind (Triple.get (Q := fun _ => I) fun _ hm => hm) fun m =>
      Triple.bind (triple_createCells hI _ _) fun ids => Triple.assume fun hids => ?_
    exact keeps_create hI hproto hids

end Closure

end LuaMachine
