import LuaMachine.Proofs.Machine.StackContents
import LuaMachine.Proofs.Machine.StackEffects

/-!
# Cells as shared variables

Cells that are captured, read, assigned and closed, on a stack whose slots are written in between,
behave as variables.  What they hold is described by the history of these operations alone: a
capture of a slot yields the cell that is open there, a read yields the last value that was assigned
to the variable, and it makes no difference to the variable whether it lies on the stack or in the
cell.

## Main definitions

* `Cell.Event`, `Cell.Records` : operations with their answers, and the histories of the machine.
* `Cell.openAt?` : the slot at which a cell is open after a history.
* `Cell.content`, `Cell.assignedValue` : the values of slots and variables after a history.
* `Cell.Reflects` : a state in which slots and cells hold what the history says.

## Main statements

* `Cell.Records.reflects` : the machine does so after every history.
* `Cell.Records.openAt?_iff` : until when a cell is open.
* `Cell.Records.implements` : cells implement shared variables.
-/

namespace LuaMachine.Cell

/-! ### Histories -/

/-- An operation on a slot or a cell, with its answer. -/
inductive Event where
  /-- The capture of a slot has yielded a cell. -/
  | captured (slot : Nat) (id : CellId)
  /-- A value has been written to a slot. -/
  | stored (slot : Nat) (v : Value)
  /-- A value has been assigned through a cell. -/
  | assigned (id : CellId) (v : Value)
  /-- A cell has been read. -/
  | fetched (id : CellId) (v : Value)
  /-- The cells from a slot on have been closed. -/
  | closed (level : Nat)

/-- Some capture has yielded the cell. -/
def Obtained (id : CellId) (h : List Event) : Prop := ∃ slot, .captured slot id ∈ h

/-- The operations that lead from the state `m₀` to another one, the latest first.  Slots lie on the
stack, and cells have been obtained by captures. -/
inductive Records (m₀ : Machine) : List Event → Machine → Prop where
  | nil : Records m₀ [] m₀
  | capture {h : List Event} {m m' : Machine} {slot : Nat} {id : CellId} : Records m₀ h m →
    slot < m.stack.size → capture slot m = .ok id m' → Records m₀ (.captured slot id :: h) m'
  | store {h : List Event} {m m' : Machine} {slot : Nat} {v : Value} : Records m₀ h m →
    Stack.write slot v m = .ok () m' → Records m₀ (.stored slot v :: h) m'
  | assign {h : List Event} {m m' : Machine} {id : CellId} {v : Value} : Records m₀ h m →
    Obtained id h → write id v m = .ok () m' → Records m₀ (.assigned id v :: h) m'
  | fetch {h : List Event} {m m' : Machine} {id : CellId} {v : Value} : Records m₀ h m →
    Obtained id h → read id m = .ok v m' → Records m₀ (.fetched id v :: h) m'
  | close {h : List Event} {m m' : Machine} {level : Nat} : Records m₀ h m →
    closeFrom level m = .ok () m' → Records m₀ (.closed level :: h) m'

/-! ### Variables -/

/-- The slot at which a cell is open after a history. -/
def openAt? (id : CellId) : List Event → Option Nat
  | [] => none
  | .captured slot id' :: h => if id' = id then some slot else openAt? id h
  | .closed level :: h => (openAt? id h).filter (· < level)
  | _ :: h => openAt? id h

/-- The value that an event after the history `h` brings into a slot: a write to the slot, or an
assignment through a cell that is open there. -/
def stored? (slot : Nat) (h : List Event) : Event → Option Value
  | .stored slot' v => if slot' = slot then some v else none
  | .assigned id v => if openAt? id h = some slot then some v else none
  | _ => none

/-- The value in a slot after a history: the last one brought there, or the one that it contained in
the state `m₀`. -/
def content (m₀ : Machine) (slot : Nat) : List Event → Value
  | [] => m₀.stack[slot]?.getD .nil
  | e :: h => (stored? slot h e).getD (content m₀ slot h)

/-- The value that an event after the history `h` assigns to the variable of a cell: an assignment
through the cell, or a write to its slot while it is open. -/
def assigned? (id : CellId) (h : List Event) : Event → Option Value
  | .assigned id' v => if id' = id then some v else none
  | .stored slot v => if openAt? id h = some slot then some v else none
  | _ => none

/-- The value of the variable of a cell after a history: the last one assigned to it, or else what
its slot contained when the cell was opened there. -/
def assignedValue (m₀ : Machine) (id : CellId) : List Event → Value
  | [] => .nil
  | .captured slot id' :: h =>
    if id' = id ∧ openAt? id h = none then content m₀ slot h else assignedValue m₀ id h
  | e :: h => (assigned? id h e).getD (assignedValue m₀ id h)

/-- In the state `m` slots and cells hold what the history `h` from `m₀` on says. -/
structure Reflects (m₀ : Machine) (h : List Event) (m : Machine) : Prop where
  size : m.stack.size = m₀.stack.size
  content : ∀ slot, m.stack[slot]?.getD .nil = content m₀ slot h
  sorted : m.openCells.Pairwise fun x y => y.1 < x.1
  listed : ∀ slot id, (slot, id) ∈ m.openCells ↔ openAt? id h = some slot
  /-- An open cell belongs to a slot of the stack. -/
  opened : ∀ slot id, openAt? id h = some slot →
    m.heap.cells[id.index]? = some (.opened slot) ∧ slot < m.stack.size
  /-- The variable of an open cell is the slot. -/
  shared : ∀ slot id, openAt? id h = some slot → assignedValue m₀ id h = Cell.content m₀ slot h
  /-- A cell that has been closed holds the variable. -/
  closed : ∀ id, Obtained id h → openAt? id h = none →
    m.heap.cells[id.index]? = some (.closed (assignedValue m₀ id h))

variable {m₀ m m' : Machine} {h : List Event} {slot level : Nat} {id : CellId} {v : Value}

theorem Obtained.cons {e : Event} (hid : Obtained id h) : Obtained id (e :: h) :=
  hid.imp fun _ hmem => List.mem_cons_of_mem _ hmem

theorem obtained_captured {slot' : Nat} {id' : CellId} :
    Obtained id (.captured slot' id' :: h) ↔ id' = id ∨ Obtained id h := by
  simp only [Obtained, List.mem_cons, Event.captured.injEq, exists_or]
  exact or_congr_left ⟨fun ⟨_, _, heq⟩ => heq.symm, fun heq => ⟨slot', rfl, heq.symm⟩⟩

/-- Only a capture yields a cell. -/
theorem Obtained.of_cons {e : Event} (he : ∀ slot id, e ≠ .captured slot id)
    (hid : Obtained id (e :: h)) : Obtained id h := by
  obtain ⟨slot, hmem⟩ := hid
  exact ⟨slot, (List.mem_cons.1 hmem).resolve_left fun heq => he slot id heq.symm⟩

/-- A cell that is open has been obtained. -/
theorem obtained_of_openAt? (hopen : openAt? id h = some slot) : Obtained id h := by
  induction h with
  | nil => cases hopen
  | cons e h ih =>
    cases e with
    | captured slot' id' =>
      rw [obtained_captured]
      by_cases hid : id' = id
      · exact .inl hid
      · exact .inr (ih (by rwa [openAt?, if_neg hid] at hopen))
    | closed level =>
      rw [openAt?, Option.filter_eq_some_iff] at hopen
      exact (ih hopen.1).cons
    | _ => exact (ih hopen).cons

/-- A cell that is open at a slot stays open there when the slot is captured again. -/
theorem openAt?_captured (hopen : openAt? id h = some slot) (id' : CellId) :
    openAt? id' (.captured slot id :: h) = openAt? id' h := by
  rw [openAt?]
  split
  · next heq => rw [← heq, hopen]
  · rfl

theorem openAt?_closed {slot' : Nat} :
    openAt? id (.closed level :: h) = some slot' ↔ openAt? id h = some slot' ∧ slot' < level := by
  rw [openAt?, Option.filter_eq_some_iff, decide_eq_true_eq]

/-- A write changes the slot. -/
theorem content_stored {slot' : Nat} : content m₀ slot' (.stored slot v :: h) =
    if slot = slot' then v else content m₀ slot' h := by
  rw [content, stored?]
  split <;> rfl

/-- It changes the variable whose cell is open there. -/
theorem assignedValue_stored : assignedValue m₀ id (.stored slot v :: h) =
    if openAt? id h = some slot then v else assignedValue m₀ id h := by
  change (assigned? id h (.stored slot v)).getD _ = _
  rw [assigned?]
  split <;> rfl

/-- An assignment changes the slot at which the cell is open. -/
theorem content_assigned : content m₀ slot (.assigned id v :: h) =
    if openAt? id h = some slot then v else content m₀ slot h := by
  rw [content, stored?]
  split <;> rfl

/-- It changes the variable. -/
theorem assignedValue_assigned {id' : CellId} : assignedValue m₀ id' (.assigned id v :: h) =
    if id = id' then v else assignedValue m₀ id' h := by
  change (assigned? id' h (.assigned id v)).getD _ = _
  rw [assigned?]
  split <;> rfl

theorem find?_eq_some {cells : List (Nat × CellId)} (hfind : find? slot cells = some id) :
    (slot, id) ∈ cells := by
  induction cells with
  | nil => cases hfind
  | cons e rest ih =>
    obtain ⟨s, other⟩ := e
    rw [find?] at hfind
    split at hfind
    · next hs =>
      obtain rfl := Option.some.inj hfind
      exact hs ▸ List.mem_cons_self
    · split at hfind
      · cases hfind
      · exact List.mem_cons_of_mem _ (ih hfind)

/-! ### Steps -/

namespace Reflects

/-- Without open cells, nothing has been captured at the beginning. -/
theorem refl (hnone : m₀.openCells = []) : Reflects m₀ [] m₀ where
  size := rfl
  content := fun _ => rfl
  sorted := hnone ▸ List.Pairwise.nil
  listed := fun _ _ => by simp [hnone, openAt?]
  opened := nofun
  shared := nofun
  closed := fun _ hid => by simp [Obtained] at hid

/-- A cell that has been obtained is on the heap. -/
theorem lt_size (hr : Reflects m₀ h m) (hid : Obtained id h) :
    id.index < m.heap.cells.size := by
  cases hopen : openAt? id h with
  | none => exact (Array.getElem?_eq_some_iff.1 (hr.closed id hid hopen)).1
  | some slot => exact (Array.getElem?_eq_some_iff.1 (hr.opened slot id hopen).1).1

/-- At most one cell is open at a slot. -/
theorem unique (hr : Reflects m₀ h m) {id' : CellId} (hopen : openAt? id h = some slot)
    (hopen' : openAt? id' h = some slot) : id = id' := by
  have hmem := (hr.listed slot id).2 hopen
  have hmem' := (hr.listed slot id').2 hopen'
  obtain ⟨i, hi, heq⟩ := List.mem_iff_getElem.1 hmem
  obtain ⟨j, hj, heq'⟩ := List.mem_iff_getElem.1 hmem'
  have hpairwise := List.pairwise_iff_getElem.1 hr.sorted
  rcases Nat.lt_trichotomy i j with hlt | rfl | hlt
  · exact absurd (hpairwise i j hi hj hlt) (by simp [heq, heq'])
  · exact (Prod.mk.inj (heq.symm.trans heq')).2
  · exact absurd (hpairwise j i hj hi hlt) (by simp [heq, heq'])

/-- The readable value of a cell is that of its variable. -/
theorem value_eq (hr : Reflects m₀ h m) (hid : Obtained id h) :
    value m id = assignedValue m₀ id h := by
  cases hopen : openAt? id h with
  | none => simp only [value, Heap.cell, hr.closed id hid hopen, Option.getD_some]
  | some slot =>
    simp only [value, Heap.cell, (hr.opened slot id hopen).1, Option.getD_some, hr.content,
      hr.shared slot id hopen]

/-- An event that changes nothing. -/
theorem congr (hr : Reflects m₀ h m) {e : Event} (hopen : ∀ id, openAt? id (e :: h) = openAt? id h)
    (hstored : ∀ slot, stored? slot h e = none)
    (hassigned : ∀ id, assignedValue m₀ id (e :: h) = assignedValue m₀ id h)
    (hobtained : ∀ id, Obtained id (e :: h) → Obtained id h) : Reflects m₀ (e :: h) m where
  size := hr.size
  content := fun slot => by rw [hr.content, Cell.content, hstored, Option.getD_none]
  sorted := hr.sorted
  listed := fun slot id => by rw [hr.listed, hopen]
  opened := fun slot id => by
    rw [hopen]
    exact hr.opened slot id
  shared := fun slot id => by
    rw [hopen, hassigned, Cell.content, hstored, Option.getD_none]
    exact hr.shared slot id
  closed := fun id hid => by
    rw [hopen, hassigned]
    exact hr.closed id (hobtained id hid)

/-- A capture yields the cell that is open at the slot, or a new one. -/
theorem capture_cases (hr : Reflects m₀ h m) (hcapture : capture slot m = .ok id m') :
    (openAt? id h = some slot ∧ m' = m) ∨
      (¬Obtained id h ∧ (∀ e ∈ m.openCells, e.1 ≠ slot) ∧ id = ⟨m.heap.cells.size⟩ ∧
        m' = { m with
          heap := { m.heap with cells := m.heap.cells.push (.opened slot) }
          openCells := enter slot id m.openCells }) := by
  rw [capture_eq] at hcapture
  cases hfind : find? slot m.openCells with
  | some id' =>
    rw [hfind] at hcapture
    cases hcapture
    exact .inl ⟨(hr.listed slot id).1 (find?_eq_some hfind), rfl⟩
  | none =>
    rw [hfind] at hcapture
    cases hcapture
    exact .inr ⟨fun hid => Nat.lt_irrefl _ (hr.lt_size hid), find?_eq_none hr.sorted hfind, rfl,
      rfl⟩

/-- **Captures.** -/
theorem capture (hr : Reflects m₀ h m) (hslot : slot < m.stack.size)
    (hcapture : capture slot m = .ok id m') : Reflects m₀ (.captured slot id :: h) m' := by
  rcases hr.capture_cases hcapture with ⟨hopen, rfl⟩ | ⟨hfresh, hfree, hid, rfl⟩
  · refine hr.congr (openAt?_captured hopen) (fun _ => rfl) (fun id' => ?_) fun id' hid' => ?_
    · refine if_neg fun hnone => ?_
      rw [← hnone.1, hopen] at hnone
      exact absurd hnone.2 nofun
    · exact (obtained_captured.1 hid').elim (fun heq => heq ▸ obtained_of_openAt? hopen) fun h => h
  have hnone : openAt? id h = none := Option.eq_none_iff_forall_ne_some.2 fun slot' hopen =>
    hfresh (obtained_of_openAt? hopen)
  have hopenAt : ∀ id', id ≠ id' → openAt? id' (.captured slot id :: h) = openAt? id' h :=
    fun id' hne => if_neg hne
  have hold : ∀ id', Obtained id' h → (m.heap.cells.push (.opened slot))[id'.index]? =
      m.heap.cells[id'.index]? := fun id' hid' => by
    rw [Array.getElem?_push, if_neg (Nat.ne_of_lt (hr.lt_size hid'))]
  exact
    { size := hr.size
      content := hr.content
      sorted := pairwise_enter hr.sorted hfree
      listed := fun slot' id' => by
        rw [mem_enter, hr.listed]
        by_cases hne : id = id'
        · subst hne
          simp [openAt?, hnone, eq_comm]
        · simp [hopenAt id' hne, Ne.symm hne]
      opened := fun slot' id' hopen => by
        by_cases hne : id = id'
        · subst hne
          obtain rfl : slot = slot' := by simpa [openAt?] using hopen
          exact ⟨by simp [hid], hslot⟩
        · rw [hopenAt id' hne] at hopen
          exact ⟨(hold id' (obtained_of_openAt? hopen)).trans (hr.opened slot' id' hopen).1,
            (hr.opened slot' id' hopen).2⟩
      shared := fun slot' id' hopen => by
        by_cases hne : id = id'
        · subst hne
          obtain rfl : slot = slot' := by simpa [openAt?] using hopen
          exact if_pos ⟨rfl, hnone⟩
        · rw [hopenAt id' hne] at hopen
          exact (if_neg fun heq => hne heq.1).trans (hr.shared slot' id' hopen)
      closed := fun id' hid' hopen => by
        by_cases hne : id = id'
        · subst hne
          simp [openAt?] at hopen
        · rw [hopenAt id' hne] at hopen
          have hid' := (obtained_captured.1 hid').resolve_left hne
          refine (hold id' hid').trans ((hr.closed id' hid' hopen).trans ?_)
          exact congrArg (fun v => some (Cell.closed v)) (if_neg fun heq => hne heq.1).symm }

/-- **Writes to slots.** -/
theorem store (hr : Reflects m₀ h m) (hwrite : Stack.write slot v m = .ok () m') :
    Reflects m₀ (.stored slot v :: h) m' := by
  obtain ⟨hslot, rfl⟩ := Stack.write_ok hwrite
  exact
    { size := by simpa using hr.size
      content := fun slot' => by
        rw [content_stored, ← hr.content, Array.getElem?_setIfInBounds]
        split
        · simp
        · rfl
      sorted := hr.sorted
      listed := hr.listed
      opened := fun slot' id hopen => by
        rw [Array.size_setIfInBounds]
        exact hr.opened slot' id hopen
      shared := fun slot' id hopen => by
        change openAt? id h = some slot' at hopen
        rw [content_stored, assignedValue_stored, hr.shared slot' id hopen, hopen]
        simp only [Option.some.injEq, eq_comm]
      closed := fun id hid hopen => by
        change openAt? id h = none at hopen
        rw [assignedValue_stored, hopen, if_neg nofun]
        exact hr.closed id (hid.of_cons (by simp)) hopen }

/-- An assignment through an open cell goes to the slot. -/
theorem assign_opened (hr : Reflects m₀ h m) (hopenAt : openAt? id h = some slot) :
    Reflects m₀ (.assigned id v :: h) { m with stack := m.stack.setIfInBounds slot v } where
  size := by simpa using hr.size
  content := fun slot' => by
    simp only [content_assigned, ← hr.content, Array.getElem?_setIfInBounds, hopenAt,
      Option.some.injEq]
    split
    · have hslot := (hr.opened slot id hopenAt).2
      simp [hslot]
    · rfl
  sorted := hr.sorted
  listed := hr.listed
  opened := fun slot' id' hopen => by
    rw [Array.size_setIfInBounds]
    exact hr.opened slot' id' hopen
  shared := fun slot' id' hopen => by
    change openAt? id' h = some slot' at hopen
    rw [content_assigned, assignedValue_assigned, hr.shared slot' id' hopen]
    refine ite_congr (propext ⟨fun heq => heq ▸ hopen, fun hopen' => ?_⟩) (fun _ => rfl)
      fun _ => rfl
    exact hr.unique hopen' hopen
  closed := fun id' hid' hopen => by
    change openAt? id' h = none at hopen
    have hne : id ≠ id' := fun heq => by simp [← heq, hopenAt] at hopen
    rw [assignedValue_assigned, if_neg hne]
    exact hr.closed id' (hid'.of_cons (by simp)) hopen

/-- An assignment through a closed cell goes to the cell. -/
theorem assign_closed (hr : Reflects m₀ h m) (hid : Obtained id h) (hopenAt : openAt? id h = none) :
    Reflects m₀ (.assigned id v :: h) { m with heap := m.heap.setCell id (.closed v) } := by
  have hother : ∀ id', id ≠ id' →
      (m.heap.setCell id (.closed v)).cells[id'.index]? = m.heap.cells[id'.index]? :=
    fun id' hne => by
      refine Array.getElem?_setIfInBounds_ne fun heq => hne ?_
      cases id
      cases id'
      exact congrArg CellId.mk heq
  have hne : ∀ slot id', openAt? id' h = some slot → id ≠ id' := fun slot id' hopen heq => by
    simp [← heq, hopenAt] at hopen
  exact
    { size := hr.size
      content := fun slot => by
        rw [content_assigned, hopenAt, if_neg nofun]
        exact hr.content slot
      sorted := hr.sorted
      listed := hr.listed
      opened := fun slot id' hopen => by
        change openAt? id' h = some slot at hopen
        rw [hother id' (hne slot id' hopen)]
        exact hr.opened slot id' hopen
      shared := fun slot id' hopen => by
        change openAt? id' h = some slot at hopen
        rw [content_assigned, assignedValue_assigned, hopenAt, if_neg (hne slot id' hopen),
          if_neg nofun]
        exact hr.shared slot id' hopen
      closed := fun id' hid' hopen => by
        change openAt? id' h = none at hopen
        rw [assignedValue_assigned]
        by_cases heq : id = id'
        · subst heq
          rw [if_pos rfl]
          exact Array.getElem?_setIfInBounds_self_of_lt (hr.lt_size hid)
        · rw [if_neg heq, hother id' heq]
          exact hr.closed id' (hid'.of_cons (by simp)) hopen }

/-- **Assignments.** -/
theorem assign (hr : Reflects m₀ h m) (hid : Obtained id h) (hwrite : write id v m = .ok () m') :
    Reflects m₀ (.assigned id v :: h) m' := by
  rw [write, Routine.modify_eq] at hwrite
  cases hopenAt : openAt? id h with
  | some slot =>
    simp only [Heap.cell, (hr.opened slot id hopenAt).1, Option.getD_some] at hwrite
    cases hwrite
    exact hr.assign_opened hopenAt
  | none =>
    simp only [Heap.cell, hr.closed id hid hopenAt, Option.getD_some] at hwrite
    cases hwrite
    exact hr.assign_closed hid hopenAt

/-- **Closing.** The cells that are closed take the values of their slots along. -/
theorem close (hr : Reflects m₀ h m) (hclose : closeFrom level m = .ok () m') :
    Reflects m₀ (.closed level :: h) m' := by
  obtain ⟨cells, heq, hcells⟩ := closeFrom_eq level m
  rw [heq] at hclose
  cases hclose
  have hmem : ∀ slot id, openAt? id h = some slot →
      (id.index ∈ (m.openCells.takeWhile fun e => level ≤ e.1).map (·.2.index) ↔
        level ≤ slot) := fun slot id hopen => by
    rw [List.mem_map]
    constructor
    · rintro ⟨⟨slot', id'⟩, he, heq⟩
      obtain ⟨hmem, hle⟩ := (mem_takeWhile hr.sorted).1 he
      have hcell := (hr.opened slot' id' ((hr.listed slot' id').1 hmem)).1
      rw [show id'.index = id.index from heq, (hr.opened slot id hopen).1] at hcell
      obtain rfl : slot = slot' := by simpa using hcell
      exact hle
    · exact fun hle => ⟨(slot, id),
        (mem_takeWhile hr.sorted).2 ⟨(hr.listed slot id).2 hopen, hle⟩, rfl⟩
  exact
    { size := hr.size
      content := hr.content
      sorted := hr.sorted.sublist (List.dropWhile_sublist _)
      listed := fun slot id => by
        rw [mem_dropWhile hr.sorted, hr.listed, openAt?_closed]
      opened := fun slot id hopen => by
        obtain ⟨hopen, hlt⟩ := openAt?_closed.1 hopen
        obtain ⟨hcell, hslot⟩ := hr.opened slot id hopen
        refine ⟨?_, hslot⟩
        rw [hcells, hcell, Option.map_some, if_neg fun h =>
          Nat.not_lt.2 ((hmem slot id hopen).1 h) hlt]
      shared := fun slot id hopen => hr.shared slot id (openAt?_closed.1 hopen).1
      closed := fun id hid hopen => by
        have hid : Obtained id h := hid.of_cons (by simp)
        change _ = some (Cell.closed (assignedValue m₀ id h))
        rw [hcells]
        cases hopenAt : openAt? id h with
        | none =>
          rw [hr.closed id hid hopenAt, Option.map_some]
          split <;> rfl
        | some slot =>
          have hle : level ≤ slot := Nat.le_of_not_lt fun hlt => by
            simp [openAt?, hopenAt, Option.filter, hlt] at hopen
          rw [(hr.opened slot id hopenAt).1, Option.map_some,
            if_pos ((hmem slot id hopenAt).2 hle), detach, hr.content, hr.shared slot id hopenAt] }

end Reflects

/-! ### Runs -/

namespace Records

theorem reflects (hnone : m₀.openCells = []) (hrecords : Records m₀ h m) : Reflects m₀ h m := by
  induction hrecords with
  | nil => exact .refl hnone
  | capture _ hslot hcapture ih => exact ih.capture hslot hcapture
  | store _ hwrite ih => exact ih.store hwrite
  | assign _ hid hwrite ih => exact ih.assign hid hwrite
  | fetch _ _ hread ih =>
    cases hread
    exact ih.congr (fun _ => rfl) (fun _ => rfl) (fun _ => rfl) fun _ hid => hid.of_cons (by simp)
  | close _ hclose ih => exact ih.close hclose

/-- The earlier operations have led to a state, too. -/
theorem of_append {later : List Event} (hrecords : Records m₀ (later ++ h) m) :
    ∃ m', Records m₀ h m' := by
  induction later generalizing m with
  | nil => exact ⟨m, hrecords⟩
  | cons e later ih => cases hrecords <;> exact ih ‹_›

/-- A cell that has been captured again was still open at the same slot, or it would be another
one. -/
theorem openAt?_of_captured (hnone : m₀.openCells = [])
    (hrecords : Records m₀ (.captured slot id :: h) m) (hid : Obtained id h) :
    openAt? id h = some slot := by
  cases hrecords with
  | capture hbefore _ hcapture =>
    rcases (hbefore.reflects hnone).capture_cases hcapture with ⟨hopen, -⟩ | ⟨hfresh, -⟩
    · exact hopen
    · exact absurd hid hfresh

/-- **Open cells.** A cell is open at the slot that was captured until cells are closed from there
or from a lower slot on. -/
theorem openAt?_iff (hnone : m₀.openCells = []) {between before : List Event}
    (hrecords : Records m₀ (between ++ .captured slot id :: before) m) (slot' : Nat) :
    openAt? id (between ++ .captured slot id :: before) = some slot' ↔
      slot' = slot ∧ ∀ level, .closed level ∈ between → slot' < level := by
  induction between generalizing m with
  | nil => simp [openAt?, eq_comm]
  | cons e between ih =>
    obtain ⟨m', hbefore⟩ := of_append (show Records m₀ ([e] ++ _) m from hrecords)
    have hid : Obtained id (between ++ .captured slot id :: before) := ⟨slot, by simp⟩
    rw [List.cons_append] at hrecords ⊢
    cases e with
    | captured slot₁ id₁ =>
      by_cases heq : id₁ = id
      · subst heq
        rw [openAt?_captured (hrecords.openAt?_of_captured hnone hid), ih hbefore]
        simp
      · rw [openAt?, if_neg heq, ih hbefore]
        simp
    | closed level =>
      rw [openAt?_closed, ih hbefore]
      simp only [List.mem_cons, Event.closed.injEq, forall_eq_or_imp, and_left_comm, and_comm]
    | _ => simpa [openAt?] using ih hbefore

end Records

/-- In the state `m`, to which the history `h` has led from `m₀`, cells act as shared variables. -/
structure ActAsVariables (m₀ : Machine) (h : List Event) (m : Machine) : Prop where
  /-- Every operation has an answer. -/
  total : (∀ slot, slot < m.stack.size → (∃ id m', capture slot m = .ok id m') ∧
      ∀ v, ∃ m', Stack.write slot v m = .ok () m') ∧
    ∀ id, (∃ v m', read id m = .ok v m') ∧ (∀ v, ∃ m', write id v m = .ok () m') ∧
      ∀ level, ∃ m', closeFrom level m = .ok () m'
  /-- The stack has kept its size. -/
  size : m.stack.size = m₀.stack.size
  /-- Two captures yield the same cell exactly if they capture the same slot and no cells have been
  closed from there or from a lower slot on in between. -/
  captured : ∀ later between before slot slot' id id',
    h = later ++ .captured slot id :: (between ++ .captured slot' id' :: before) →
      (id = id' ↔ slot = slot' ∧ ∀ level, .closed level ∈ between → slot < level)
  /-- Until then a cell is open, so that writes to its slot are assignments. -/
  opened : ∀ between before slot id, h = between ++ .captured slot id :: before →
    (openAt? id h = some slot ↔ ∀ level, .closed level ∈ between → slot < level)
  /-- A read yields the value that was assigned last. -/
  fetched : ∀ later before id v, h = later ++ .fetched id v :: before →
    v = assignedValue m₀ id before
  /-- A slot contains the value that was brought there last. -/
  content : ∀ slot, slot < m.stack.size → Stack.read slot m = .ok (content m₀ slot h) m
  /-- Closing cells does not change what can be read. -/
  closing : ∀ level m', closeFrom level m = .ok () m' → ∀ id, Obtained id h →
    value m' id = value m id
  /-- A cell that has been closed and the stack do not affect each other. -/
  closed : ∀ between before slot id level, h = between ++ .captured slot id :: before →
    .closed level ∈ between → level ≤ slot →
      (∀ slot' v m', Stack.write slot' v m = .ok () m' → value m' id = value m id) ∧
        ∀ v m', write id v m = .ok () m' → m'.stack = m.stack

namespace Reflects

theorem closing (hr : Reflects m₀ h m) (hclose : closeFrom level m = .ok () m')
    (hid : Obtained id h) : value m' id = value m id := by
  rw [(hr.close hclose).value_eq hid.cons, hr.value_eq hid]
  rfl

theorem closed_store (hr : Reflects m₀ h m) (hid : Obtained id h) (hopen : openAt? id h = none)
    (hwrite : Stack.write slot v m = .ok () m') : value m' id = value m id := by
  rw [(hr.store hwrite).value_eq hid.cons, hr.value_eq hid]
  change (assigned? id h (.stored slot v)).getD _ = _
  rw [assigned?, hopen, if_neg nofun, Option.getD_none]

theorem closed_assign (hr : Reflects m₀ h m) (hid : Obtained id h) (hopen : openAt? id h = none)
    (hwrite : write id v m = .ok () m') : m'.stack = m.stack := by
  have hcell : m.heap.cell id = .closed (assignedValue m₀ id h) := by
    rw [Heap.cell, hr.closed id hid hopen, Option.getD_some]
  rw [write, Routine.modify_eq, hcell] at hwrite
  cases hwrite
  rfl

end Reflects

/-- **Shared variables.** Cells implement them: whatever slots are captured and written, and
whatever cells are read, assigned and closed in between, on a stack that has the slots, they act as
variables. -/
theorem Records.implements (hnone : m₀.openCells = []) (hrecords : Records m₀ h m) :
    ActAsVariables m₀ h m := by
  have hr := hrecords.reflects hnone
  exact
    { total := by
        refine ⟨fun slot hslot => ⟨?_, fun v => ?_⟩, fun id => ⟨⟨_, _, rfl⟩, fun v => ⟨_, rfl⟩,
          fun level => ?_⟩⟩
        · rw [capture_eq]
          cases find? slot m.openCells with
          | none => exact ⟨_, _, rfl⟩
          | some id => exact ⟨_, _, rfl⟩
        · simp only [Stack.write, if_pos hslot]
          exact ⟨_, rfl⟩
        · obtain ⟨cells, heq, -⟩ := closeFrom_eq level m
          exact ⟨_, heq⟩
      size := hr.size
      captured := fun later between before slot slot' id id' hh => by
        subst hh
        obtain ⟨m', hcaptured⟩ := hrecords.of_append
        obtain ⟨m'', hbefore⟩ := of_append (show Records m₀ ([_] ++ _) m' from hcaptured)
        have hiff := hbefore.openAt?_iff hnone slot
        rw [← hiff]
        constructor
        · rintro rfl
          exact hcaptured.openAt?_of_captured hnone ⟨slot', by simp⟩
        · intro hopen
          cases hcaptured with
          | capture hbefore' _ hcapture =>
            have hr' := hbefore'.reflects hnone
            rcases hr'.capture_cases hcapture with ⟨hopen', -⟩ | ⟨-, hfree, -⟩
            · exact hr'.unique hopen' hopen
            · exact absurd rfl (hfree _ ((hr'.listed slot id').2 hopen))
      opened := fun between before slot id hh => by
        subst hh
        rw [hrecords.openAt?_iff hnone, and_iff_right rfl]
      fetched := fun later before id v hh => by
        subst hh
        obtain ⟨m', hfetched⟩ := hrecords.of_append
        cases hfetched with
        | fetch hbefore hid hread =>
          cases hread
          exact (hbefore.reflects hnone).value_eq hid
      content := fun slot hslot => by
        rw [← hr.content, Stack.read, Array.getElem?_eq_getElem hslot]
        rfl
      closing := fun level m' hclose id hid => hr.closing hclose hid
      closed := fun between before slot id level hh hlevel hle => by
        have hid : Obtained id h := ⟨slot, by simp [hh]⟩
        have hopen : openAt? id h = none := Option.eq_none_iff_forall_ne_some.2 fun slot' => by
          subst hh
          rw [ne_eq, hrecords.openAt?_iff hnone]
          rintro ⟨rfl, hlt⟩
          exact Nat.not_lt.2 hle (hlt level hlevel)
        exact ⟨fun _ _ _ hwrite => hr.closed_store hid hopen hwrite,
          fun _ _ hwrite => hr.closed_assign hid hopen hwrite⟩ }

/-! ### A slot that is used again -/

/-- A slot is captured, written and closed, and then it is written and captured for another variable
before the first one is read. -/
def reuse : List Event := [.fetched ⟨0⟩ (.boolean true), .captured 0 ⟨1⟩,
  .stored 0 (.boolean false),
  .closed 0, .stored 0 (.boolean true), .captured 0 ⟨0⟩]

theorem records_reuse : ∃ m, Records (.new {}) reuse m :=
  ⟨_, .fetch (.capture (.store (.close (.store (.capture .nil (by decide) rfl) rfl) rfl) rfl)
    (by decide) rfl) ⟨0, by simp⟩ rfl⟩

/-- The captures yield two cells, and the first variable has kept its value. -/
theorem implements_reuse : ∃ m, (Machine.new {}).openCells = [] ∧ Records (.new {}) reuse m ∧
    ActAsVariables (.new {}) reuse m := by
  obtain ⟨m, hrecords⟩ := records_reuse
  exact ⟨m, rfl, hrecords, Records.implements rfl hrecords⟩

end LuaMachine.Cell
