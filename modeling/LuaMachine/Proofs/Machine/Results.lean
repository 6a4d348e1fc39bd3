import LuaMachine.Proofs.Machine.StackRoom

/-!
# Results

A call ends with results in the slots from that of the called function on.  A closure leaves its
results among its registers, from where they are copied down, so that the slots in which they lie
may overlap with those to which they go; a native function yields a list, which is written.  What
the caller finds is the same: as many values as it wants, with nil where the call has no further
result.

## Main definitions

* `Machine.Answered` : the state after results have been handed over.

## Main statements

* `Call.leave_ok`, `Call.deliver_ok` : the results of closures and of native functions.
* `Call.leave_deliver_agree` : both are the same.
-/

namespace LuaMachine

/-- In the state `m'`, results of a call that was made in the slot `function` have been handed over:
there are `count` of them, and they lie below the first free slot.  The slots below them are as they
were in the state `m`. -/
structure Machine.Answered (m : Machine) (function count : Nat) (results : List Value)
    (m' : Machine) : Prop where
  filled : m'.Filled function count results
  top : m'.top = function + count
  below : ∀ i v, i < function → m.stack[i]? = some v → m'.stack[i]? = some v

/-- The results determine what lies in their slots. -/
theorem Machine.Answered.slots_eq {m m' m₁ m₁' : Machine} {function count : Nat}
    {results : List Value} (h : m.Answered function count results m')
    (h₁ : m₁.Answered function count results m₁') :
    m'.slots function m'.top = m₁'.slots function m₁'.top := by
  refine List.ext_getElem? fun j => ?_
  rw [getElem?_slots, getElem?_slots, h.top, h₁.top]
  split
  · rw [h.filled j (by omega), h₁.filled j (by omega)]
  · rfl

namespace Call

variable {m m' : Machine} {f g : Frame} {function first : Nat} {results : List Value}
  {wanted : Option Nat}

/-! ### Closures -/

/-- **Results of a closure.** They are copied down to the slot of the function. -/
theorem leave_ok (hframe : m.frame? = some f) (hfirst : f.function ≤ first)
    (hresults : m.Filled first results.length results)
    (h : leave first results.length m = .ok g m') :
    g = f ∧ m.Answered f.function (f.wanted.getD results.length) results m' := by
  rw [leave, Routine.bind_get, hframe] at h
  obtain ⟨_, m₁, hpop, h⟩ := Routine.exists_of_bind h
  cases hpop
  obtain ⟨_, m₁, hreserve, h⟩ := Routine.exists_of_bind h
  obtain ⟨stack₁, rfl, -, hstack₁⟩ := Stack.reserve_ok hreserve
  obtain ⟨_, m₂, hcopy, h⟩ := Routine.exists_of_bind h
  obtain ⟨stack, rfl, -, hcopied, hothers⟩ := Stack.copy_ok (.inl hfirst) hcopy
  obtain ⟨_, m₃, hset, h⟩ := Routine.exists_of_bind h
  cases hset
  cases h
  refine ⟨rfl, fun j hj => ?_, rfl, fun i v hi hv => ?_⟩
  · rw [hcopied j hj]
    split
    · next hlt =>
      exact Stack.getElem?_of_extends hstack₁ (hresults j hlt)
    · next hge => rw [List.getElem?_eq_none (Nat.not_lt.1 hge), Option.getD_none]
  · rw [hothers i (.inl hi)]
    exact Stack.getElem?_of_extends hstack₁ hv

/-- There is a stack overflow unless there is room for them. -/
theorem succeeds_leave_iff (hframe : m.frame? = some f)
    (hresults : m.Filled first results.length results) :
    (leave first results.length).Succeeds m ↔
      f.function + f.wanted.getD results.length ≤ max m.stack.size m.limits.stackSize := by
  have hleave : (leave first results.length).Succeeds m ↔ Routine.Succeeds (do
      Stack.reserve (f.function + f.wanted.getD results.length)
      Stack.copy first f.function results.length (f.wanted.getD results.length)
      Stack.setTop (f.function + f.wanted.getD results.length)
      pure f) { m with frames := m.frames.pop } := by
    rw [Routine.Succeeds, leave, Routine.bind_get, hframe]
    rfl
  have hreserve : (Stack.reserve (f.function + f.wanted.getD results.length)).Succeeds
      { m with frames := m.frames.pop } ↔
        f.function + f.wanted.getD results.length ≤ max m.stack.size m.limits.stackSize :=
    Stack.succeeds_reserve_iff
  refine hleave.trans ⟨fun h => hreserve.1 h.of_bind, fun hroom => ?_⟩
  refine (hreserve.2 hroom).bind fun _ m₁ hreserve => ?_
  obtain ⟨stack, rfl, hsize, -⟩ := Stack.reserve_ok hreserve
  refine (Stack.succeeds_copy (fun hpos => ?_) ?_).bind fun _ m₂ _ =>
    (Routine.succeeds_modify _).bind fun _ m₃ _ => Routine.succeeds_pure f
  · have hlast := hresults (results.length - 1) (by omega)
    have hlt := (Array.getElem?_eq_some_iff.1 hlast).1
    simp only [hsize]
    omega
  · simp only [hsize]
    omega

/-! ### Native functions -/

theorem getElem?_adjust {values : List Value} {j : Nat} (hj : j < wanted.getD values.length) :
    (adjust wanted values)[j]? = some (values[j]?.getD .nil) := by
  cases wanted with
  | none =>
    rw [adjust, List.getElem?_eq_getElem hj, Option.getD_some]
  | some n =>
    replace hj : j < n := hj
    rw [adjust, List.getElem?_append, List.length_take, List.getElem?_take, if_pos hj]
    rcases Nat.lt_or_ge j values.length with hlt | hge
    · rw [if_pos (by omega), List.getElem?_eq_getElem hlt, Option.getD_some]
    · rw [if_neg (by omega), List.getElem?_replicate, if_pos (by omega),
        List.getElem?_eq_none hge, Option.getD_none]

/-- **Results of a native function.** They are written from the slot of the function on. -/
theorem deliver_ok (h : deliver function results wanted m = .ok () m') :
    m.Answered function (wanted.getD results.length) results m' := by
  obtain ⟨_, m₁, hreserve, h⟩ := Routine.exists_of_bind h
  obtain ⟨stack₁, rfl, -, hstack₁⟩ := Stack.reserve_ok hreserve
  obtain ⟨_, m₂, hwrite, hset⟩ := Routine.exists_of_bind h
  obtain ⟨stack, rfl, -, hvalues, hbelow⟩ := Stack.writeAll_ok hwrite
  cases hset
  refine ⟨fun j hj => ?_, rfl, fun i v hi hv => ?_⟩
  · exact (hvalues j (by rwa [length_adjust])).trans (getElem?_adjust hj)
  · exact (hbelow i hi).trans (Stack.getElem?_of_extends hstack₁ hv)

/-- There is a stack overflow unless there is room for them. -/
theorem succeeds_deliver_iff : (deliver function results wanted).Succeeds m ↔
    function + wanted.getD results.length ≤ max m.stack.size m.limits.stackSize := by
  refine ⟨fun h => Stack.succeeds_reserve_iff.1 h.of_bind, fun hroom => ?_⟩
  refine (Stack.succeeds_reserve hroom).bind fun _ m₁ hreserve => ?_
  obtain ⟨stack, rfl, hsize, -⟩ := Stack.reserve_ok hreserve
  refine (Stack.succeeds_writeAll ?_).bind fun _ _ _ => Routine.succeeds_modify _
  rw [length_adjust]
  simp only [hsize]
  omega

/-! ### The two ways to end a call -/

/-- **Results are handed over in one way.** A closure whose results lie in slots from that of the
function on, or above, and a native function that yields the same values leave the same: as many
values as are wanted, or all of them, with nil behind the last one.  The first free slot lies behind
these values, and no slot below the function has changed.  Both succeed if there is room for the
values, and otherwise neither does. -/
theorem leave_deliver_agree (hframe : m.frame? = some f) (hfirst : f.function ≤ first)
    (hresults : m.Filled first results.length results) :
    (∀ g m', leave first results.length m = .ok g m' →
      m.Answered f.function (f.wanted.getD results.length) results m') ∧
    (∀ m₁ m₁', deliver f.function results f.wanted m₁ = .ok () m₁' →
      m₁.Answered f.function (f.wanted.getD results.length) results m₁') ∧
    (∀ g m' m₁ m₁', leave first results.length m = .ok g m' →
      deliver f.function results f.wanted m₁ = .ok () m₁' →
        m'.top = m₁'.top ∧ m'.slots f.function m'.top = m₁'.slots f.function m₁'.top) ∧
    ((leave first results.length).Succeeds m ↔
      f.function + f.wanted.getD results.length ≤ max m.stack.size m.limits.stackSize) ∧
    ∀ m₁ : Machine, (deliver f.function results f.wanted).Succeeds m₁ ↔
      f.function + f.wanted.getD results.length ≤ max m₁.stack.size m₁.limits.stackSize := by
  refine ⟨fun g m' h => (leave_ok hframe hfirst hresults h).2, fun m₁ m₁' h₁ => deliver_ok h₁,
    fun g m' m₁ m₁' h h₁ => ?_, succeeds_leave_iff hframe hresults,
    fun m₁ => succeeds_deliver_iff⟩
  obtain ⟨-, hclosure⟩ := leave_ok hframe hfirst hresults h
  have hnative := deliver_ok h₁
  exact ⟨hclosure.top.trans hnative.top.symm, hclosure.slots_eq hnative⟩

/-- A frame with three results, which lie right behind its function; four are wanted. -/
def threeResults : Machine :=
  { Machine.new {} with
    stack := #[.nil, .closure ⟨0⟩, .integer 1, .integer 2, .integer 3]
    top := 5
    frames := #[Frame.ofClosure ⟨0⟩ 1 2 5 (some 4)] }

/-- They move down by one slot, and nil follows them, as if a native function had yielded them. -/
theorem leave_deliver_agree_threeResults : ∃ g m' m₁',
    leave 2 3 threeResults = .ok g m' ∧
    deliver 1 [.integer 1, .integer 2, .integer 3] (some 4) threeResults = .ok () m₁' ∧
    m'.Filled 1 4 [.integer 1, .integer 2, .integer 3] ∧ m'.top = 5 ∧
    m'.stack[0]? = some .nil ∧ m'.slots 1 m'.top = m₁'.slots 1 m₁'.top := by
  have hresults : threeResults.Filled 2 3 [.integer 1, .integer 2, .integer 3] := fun j hj => by
    match j, hj with
    | 0, _ => rfl
    | 1, _ => rfl
    | 2, _ => rfl
  obtain ⟨hclosure, -, hsame, hleave, hdeliver⟩ :=
    @leave_deliver_agree threeResults (.ofClosure ⟨0⟩ 1 2 5 (some 4)) 2
      [.integer 1, .integer 2, .integer 3] rfl (by decide) hresults
  obtain ⟨g, m', h⟩ := hleave.2 (by decide)
  obtain ⟨⟨⟩, m₁', h₁⟩ := (hdeliver threeResults).2 (by decide)
  have hanswered := hclosure g m' h
  exact ⟨g, m', m₁', h, h₁, hanswered.filled, hanswered.top,
    hanswered.below 0 .nil Nat.zero_lt_one rfl, (hsame g m' threeResults m₁' h h₁).2⟩

end Call

end LuaMachine
