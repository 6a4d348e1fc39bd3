import LuaMachine.Proofs.Machine.Shortage
import LuaMachine.Proofs.Machine.StackContents

/-!
# Room on the stack

The operations on the stack succeed between slots that exist, and so does a call of a closure if it
finds the slots that it asks for below the limit.

## Main definitions

* `Routine.Succeeds` : a routine does not fail in a state.

## Main statements

* `Call.succeeds_resolve` : the search for handlers takes one slot for each.
* `Call.succeeds_pushClosure` : a call of a closure takes slots for its parameters and its
  registers.
-/

namespace LuaMachine

/-- The routine neither fails nor faults in the state `m`. -/
def Routine.Succeeds {α : Type} (x : Routine α) (m : Machine) : Prop := ∃ a m', x m = .ok a m'

namespace Routine

variable {α β : Type} {x : Routine α} {f : α → Routine β} {m : Machine}

theorem Succeeds.bind (hx : x.Succeeds m) (hf : ∀ a m', x m = .ok a m' → (f a).Succeeds m') :
    (x >>= f).Succeeds m := by
  obtain ⟨a, m₁, hx⟩ := hx
  obtain ⟨b, m', hb⟩ := hf a m₁ hx
  exact ⟨b, m', (bind_of_ok hx).trans hb⟩

theorem Succeeds.of_bind (h : (x >>= f).Succeeds m) : x.Succeeds m := by
  obtain ⟨b, m', h⟩ := h
  obtain ⟨a, m₁, hx, -⟩ := exists_of_bind h
  exact ⟨a, m₁, hx⟩

theorem succeeds_pure (a : α) : (pure a : Routine α).Succeeds m := ⟨a, m, rfl⟩

theorem succeeds_modify (g : Machine → Machine) : (modify g : Routine Unit).Succeeds m :=
  ⟨(), g m, rfl⟩

end Routine

open Routine (Succeeds succeeds_pure succeeds_modify)

variable {m : Machine}

namespace Stack

variable {first last i : Nat} {v : Value}

theorem succeeds_read (hi : i < m.stack.size) : (read i).Succeeds m :=
  ⟨_, m, Call.read_eq (Array.getElem?_eq_getElem hi)⟩

theorem succeeds_write (hi : i < m.stack.size) : (write i v).Succeeds m := ⟨(), _, if_pos hi⟩

theorem succeeds_countFrom (h : first ≤ m.top) : (countFrom first).Succeeds m :=
  ⟨_, m, if_neg (Nat.not_lt.2 h)⟩

theorem succeeds_readRange (hfirst : first ≤ last) (hlast : last ≤ m.stack.size) :
    (readRange first last).Succeeds m :=
  ⟨_, m, (if_neg (Nat.not_lt.2 hfirst)).trans (if_neg (Nat.not_lt.2 hlast))⟩

/-- **Room.** Slots that exist or lie below the limit can be reserved. -/
theorem succeeds_reserve {needed : Nat} (h : needed ≤ max m.stack.size m.limits.stackSize) :
    (reserve needed).Succeeds m := by
  by_cases hsize : needed ≤ m.stack.size
  · exact ⟨(), m, if_pos hsize⟩
  · exact ⟨(), _, (if_neg hsize).trans (if_neg (by omega))⟩

/-- Otherwise there is a stack overflow. -/
theorem reserve_of_full {needed : Nat} (h : max m.stack.size m.limits.stackSize < needed) :
    reserve needed m = .error (.failure (.of .stackOverflow)) m :=
  (if_neg (by omega)).trans (if_pos (by omega))

theorem succeeds_reserve_iff {needed : Nat} :
    (reserve needed).Succeeds m ↔ needed ≤ max m.stack.size m.limits.stackSize := by
  refine ⟨fun ⟨_, _, h⟩ => Nat.not_lt.1 fun hfull => ?_, succeeds_reserve⟩
  cases h.symm.trans (reserve_of_full hfull)

theorem succeeds_writeAll {vs : List Value} (h : first + vs.length ≤ m.stack.size) :
    (writeAll first vs).Succeeds m := by
  induction vs generalizing first m with
  | nil => exact succeeds_pure ()
  | cons v rest ih =>
    rw [List.length_cons] at h
    refine (succeeds_write (by omega)).bind fun _ m₁ hwrite => ?_
    obtain ⟨-, rfl⟩ := write_ok hwrite
    exact ih (by simpa [Nat.add_right_comm, Nat.add_assoc] using h)

theorem succeeds_clear {count : Nat} (h : first + count ≤ m.stack.size) :
    (clear first count).Succeeds m := by
  induction count generalizing first m with
  | zero => exact succeeds_pure ()
  | succ count ih =>
    refine (succeeds_write (by omega)).bind fun _ m₁ hwrite => ?_
    obtain ⟨-, rfl⟩ := write_ok hwrite
    exact ih (by simpa [Nat.add_right_comm, Nat.add_assoc] using h)

theorem succeeds_copy {source target available count : Nat}
    (hsource : 0 < available → source + min available count ≤ m.stack.size)
    (htarget : target + count ≤ m.stack.size) :
    (copy source target available count).Succeeds m := by
  induction count generalizing source target available m with
  | zero => exact succeeds_pure ()
  | succ count ih =>
    have hwrite : ∀ v, Succeeds (do
        write target v
        copy (source + 1) (target + 1) (available - 1) count) m := fun v => by
      refine (succeeds_write (by omega)).bind fun _ m₁ hwrite => ?_
      obtain ⟨-, rfl⟩ := write_ok hwrite
      exact ih (fun _ => by simp only [Array.size_setIfInBounds]; omega)
        (by simp only [Array.size_setIfInBounds]; omega)
    rw [copy]
    split
    · next hpos =>
      replace hsource := hsource hpos
      refine (succeeds_read (by omega)).bind fun v m₁ hread => ?_
      obtain ⟨-, rfl⟩ := read_ok hread
      exact hwrite v
    · exact hwrite .nil

theorem succeeds_take {source target available count : Nat}
    (hsource : 0 < available → source + min available count ≤ m.stack.size)
    (htarget : target + count ≤ m.stack.size) :
    (take source target available count).Succeeds m := by
  induction count generalizing source target available m with
  | zero => exact succeeds_pure ()
  | succ count ih =>
    rw [take]
    split
    · next hpos =>
      replace hsource := hsource hpos
      refine (succeeds_read (by omega)).bind fun v m₁ hread => ?_
      obtain ⟨-, rfl⟩ := read_ok hread
      refine (succeeds_write (by omega)).bind fun _ m₂ hleave => ?_
      obtain ⟨-, rfl⟩ := write_ok hleave
      refine (succeeds_write (by rw [Array.size_setIfInBounds]; omega)).bind fun _ m₃ harrive => ?_
      obtain ⟨-, rfl⟩ := write_ok harrive
      exact ih (fun _ => by simp only [Array.size_setIfInBounds]; omega)
        (by simp only [Array.size_setIfInBounds]; omega)
    · refine (succeeds_write (by omega)).bind fun _ m₁ hwrite => ?_
      obtain ⟨-, rfl⟩ := write_ok hwrite
      exact ih (fun _ => by omega) (by simp only [Array.size_setIfInBounds]; omega)

theorem succeeds_insert (hfirst : first ≤ last) (hlast : last < m.stack.size) :
    (insert first last v).Succeeds m := by
  refine (succeeds_readRange hfirst (Nat.le_of_lt hlast)).bind fun vs m₁ hread => ?_
  obtain ⟨-, -, rfl, rfl⟩ := readRange_ok hread
  refine succeeds_writeAll ?_
  rw [List.length_cons, Machine.length_slots (Nat.le_of_lt hlast)]
  omega

end Stack

namespace Call

variable {function : Nat} {v : Value} {id : ClosureId} {wanted : Option Nat}
  {isTailCall isFresh : Bool}

theorem succeeds_insertHandler {handler : Value} (hv : m.stack[function]? = some v)
    (hhandler : m.handler? v .call = some handler) (hle : function ≤ m.top)
    (hroom : m.top + 1 ≤ max m.stack.size m.limits.stackSize) :
    (insertHandler function).Succeeds m := by
  refine (Stack.succeeds_read (Array.getElem?_eq_some_iff.1 hv).1).bind fun w m₁ hread => ?_
  obtain ⟨hw, rfl⟩ := Stack.read_ok hread
  obtain rfl : v = w := Option.some.inj (hv.symm.trans hw)
  refine Succeeds.bind ⟨m, m, rfl⟩ fun m₁ _ hget => ?_
  cases hget
  rw [hhandler]
  refine (Stack.succeeds_reserve hroom).bind fun _ m₁ hreserve => ?_
  obtain ⟨stack, rfl, hsize, -⟩ := Stack.reserve_ok hreserve
  exact (Stack.succeeds_insert hle (by simp only [hsize]; omega)).bind fun _ _ _ =>
    succeeds_modify _

/-- **Handlers.** They are found if there is room for each. -/
theorem succeeds_resolveWithin {handlers : List Value} {n : Nat} (hv : m.stack[function]? = some v)
    (hleads : m.Leads v handlers) (hn : handlers.length ≤ n) (hle : function ≤ m.top)
    (htop : m.top ≤ m.stack.size)
    (hroom : m.top + handlers.length ≤ max m.stack.size m.limits.stackSize) :
    (resolveWithin function n).Succeeds m := by
  induction handlers generalizing n v m with
  | nil => exact ⟨(), m, resolveWithin_of_isFunction hv hleads n⟩
  | cons handler rest ih =>
    obtain ⟨hfunction, hhandler, hleads⟩ := hleads
    rw [List.length_cons] at hn hroom
    obtain ⟨n, rfl⟩ := Nat.exists_eq_add_of_lt (Nat.lt_of_lt_of_le (Nat.zero_lt_succ _) hn)
    rw [Nat.zero_add] at hn ⊢
    refine (Stack.succeeds_read (Array.getElem?_eq_some_iff.1 hv).1).bind fun w m₁ hread => ?_
    obtain ⟨hw, rfl⟩ := Stack.read_ok hread
    obtain rfl : v = w := Option.some.inj (hv.symm.trans hw)
    rw [if_pos (by simp [hfunction])]
    refine (succeeds_insertHandler hv hhandler hle (by omega)).bind fun _ m₁ hinsert => ?_
    obtain ⟨w, handler', stack, hw, hhandler', rfl, hsize, hfirst, -, -⟩ :=
      insertHandler_ok htop hinsert
    obtain rfl : v = w := Option.some.inj (hv.symm.trans hw)
    obtain rfl : handler = handler' := Option.some.inj (hhandler.symm.trans hhandler')
    exact ih hfirst (Machine.leads_congr hleads fun _ => rfl) (by omega) (Nat.le_succ_of_le hle)
      (by simp only [hsize]; omega) (by simp only [hsize]; omega)

theorem succeeds_resolve {handlers : List Value} (hv : m.stack[function]? = some v)
    (hleads : m.Leads v handlers) (hchain : handlers.length ≤ m.limits.handlerChain)
    (hle : function ≤ m.top) (htop : m.top ≤ m.stack.size)
    (hroom : m.top + handlers.length ≤ max m.stack.size m.limits.stackSize) :
    (resolve function).Succeeds m :=
  succeeds_resolveWithin hv hleads hchain hle htop hroom

/-- Without room a handler is not put before the called value. -/
theorem insertHandler_of_full {handler : Value} (hv : m.stack[function]? = some v)
    (hhandler : m.handler? v .call = some handler)
    (hfull : max m.stack.size m.limits.stackSize < m.top + 1) :
    insertHandler function m = .error (.failure (.of .stackOverflow)) m := by
  rw [insertHandler, Routine.bind_of_ok (read_eq hv), Routine.bind_get, hhandler]
  exact Routine.bind_of_error (Stack.reserve_of_full hfull)

/-- Not even the first one is found without room for it. -/
theorem resolve_of_full {handler : Value} (hv : m.stack[function]? = some v)
    (hfunction : v.isFunction = false) (hhandler : m.handler? v .call = some handler)
    (hchain : 0 < m.limits.handlerChain) (hfull : max m.stack.size m.limits.stackSize < m.top + 1) :
    resolve function m = .error (.failure (.of .stackOverflow)) m := by
  obtain ⟨n, hn⟩ := Nat.exists_eq_add_of_lt hchain
  rw [resolve, Routine.bind_get, hn, resolveWithin_succ hv hfunction]
  exact Routine.bind_of_error (insertHandler_of_full hv hhandler hfull)

/-- **The frame of a closure.** It is added if there is room for the arguments, the parameters and
the registers, and if another frame is allowed. -/
theorem succeeds_pushClosure (hdepth : m.frames.size < m.limits.callDepth) (hlt : function < m.top)
    (hroom : m.top + (m.heap.closure id).proto.parameters + (m.heap.closure id).proto.registers ≤
      max m.stack.size m.limits.stackSize) :
    (pushClosure id function wanted isTailCall isFresh).Succeeds m := by
  have hcheck : checkDepth m = .ok () m := by
    rw [checkDepth, Routine.bind_get, if_neg (Nat.not_le.2 hdepth)]
    rfl
  refine Succeeds.bind ⟨(), m, hcheck⟩ fun _ m₁ h => ?_
  obtain rfl := checkDepth_ok h
  refine Succeeds.bind ⟨m, m, rfl⟩ fun m₁ _ hget => ?_
  cases hget
  generalize (m.heap.closure id).proto = p at hroom ⊢
  refine (Stack.succeeds_countFrom hlt).bind fun n m₁ hcount => ?_
  obtain ⟨hn, rfl⟩ := Stack.countFrom_ok hcount
  refine Succeeds.bind ⟨m.top, m, rfl⟩ fun free m₁ hfree => ?_
  cases hfree
  refine (Stack.succeeds_reserve hroom).bind fun _ m₁ hreserve => ?_
  obtain ⟨stack, rfl, hsize, -⟩ := Stack.reserve_ok hreserve
  have hsize' : m.top + p.parameters ≤ stack.size := by omega
  cases p.isVararg with
  | false =>
    refine (Stack.succeeds_clear ?_).bind fun _ _ _ =>
      (succeeds_modify _).bind fun _ _ _ => succeeds_modify _
    simp only [Bool.false_eq_true, if_false]
    omega
  | true =>
    have htake : (Stack.take (function + 1) m.top n p.parameters).Succeeds { m with stack } :=
      Stack.succeeds_take (fun _ => by simp only; omega) hsize'
    refine htake.bind fun _ m₁ hm₁ => ?_
    obtain ⟨stack₁, rfl, hsize₁, -⟩ := Stack.take_ok (by omega) hm₁
    replace hsize₁ : stack₁.size = stack.size := hsize₁
    refine (Stack.succeeds_clear ?_).bind fun _ _ _ =>
      (succeeds_modify _).bind fun _ _ _ => succeeds_modify _
    simp only [if_true]
    omega

end Call

end LuaMachine
