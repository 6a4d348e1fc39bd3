import LuaMachine.Machine.Calls
import LuaMachine.Proofs.Machine.Triple

/-!
# Contents of the stack

What the operations on the stack leave in its slots when they succeed, and from that what a call
that has begun finds there: the called function and its arguments, moved and completed.

## Main definitions

* `Machine.slots` : the values in a range of slots.
* `Machine.Filled` : slots that hold a number of values.
* `Machine.Leads` : handlers for calls that lead from a value to a function.
* `Prototype.base`, `Prototype.parameter` : where the registers of a call begin and what they
  contain.

## Main statements

* `Stack.copy_ok`, `Stack.take_ok` : values that are copied and moved, also onto slots that they come
  from.
* `Call.resolve_ok` : handlers are put before the called value.
* `Call.pushClosure_ok` : the registers of a call that begins.
-/

namespace LuaMachine

theorem Routine.exists_of_bind {α β : Type} {x : Routine α} {f : α → Routine β} {b : β}
    {m m' : Machine} (h : (x >>= f) m = .ok b m') : ∃ a m₁, x m = .ok a m₁ ∧ f a m₁ = .ok b m' := by
  cases hx : x m with
  | ok a m₁ => exact ⟨a, m₁, rfl, (bind_of_ok hx).symm.trans h⟩
  | error s m₁ =>
    rw [bind_of_error hx] at h
    cases h

/-- The values in the slots from `first` up to `last`, exclusive. -/
def Machine.slots (m : Machine) (first last : Nat) : List Value :=
  (m.stack.extract first last).toList

/-- The slots from `first` on hold `count` values: those listed, as far as they go, and then nil. -/
def Machine.Filled (m : Machine) (first count : Nat) (vs : List Value) : Prop :=
  ∀ j < count, m.stack[first + j]? = some (vs[j]?.getD .nil)

variable {m m' : Machine} {first last i : Nat} {v : Value}

theorem Machine.getElem?_slots (m : Machine) (first last j : Nat) :
    (m.slots first last)[j]? = if first + j < last then m.stack[first + j]? else none := by
  rw [slots, Array.getElem?_toList, Array.getElem?_extract]
  rcases Nat.lt_or_ge (first + j) m.stack.size with h | h
  · by_cases hlast : first + j < last
    · rw [if_pos hlast, if_pos (by omega)]
    · rw [if_neg hlast, if_neg (by omega)]
  · rw [if_neg (by omega), Array.getElem?_eq_none h, ite_self]

theorem Machine.length_slots (h : last ≤ m.stack.size) :
    (m.slots first last).length = last - first := by
  rw [slots, Array.length_toList, Array.size_extract, Nat.min_eq_left h]

theorem Machine.slots_eq_cons (hfirst : m.stack[first]? = some v) (hlt : first < last) :
    m.slots first last = v :: m.slots (first + 1) last := by
  refine List.ext_getElem? fun j => ?_
  rw [getElem?_slots]
  cases j with
  | zero => rw [Nat.add_zero, if_pos hlt, hfirst, List.getElem?_cons_zero]
  | succ j => rw [List.getElem?_cons_succ, getElem?_slots, ← Nat.add_assoc, Nat.add_right_comm]

namespace Stack

theorem read_ok (h : read i m = .ok v m') : m.stack[i]? = some v ∧ m = m' := by
  rw [read] at h
  split at h
  · next hv =>
    cases h
    exact ⟨hv, rfl⟩
  · cases h

theorem write_ok (h : write i v m = .ok () m') :
    i < m.stack.size ∧ m' = { m with stack := m.stack.setIfInBounds i v } := by
  rw [write] at h
  split at h
  · next hi =>
    cases h
    exact ⟨hi, rfl⟩
  · cases h

theorem countFrom_ok {n : Nat} (h : countFrom first m = .ok n m') :
    m.top = first + n ∧ m = m' := by
  rw [countFrom] at h
  split at h
  · cases h
  · next hle =>
    cases h
    exact ⟨by omega, rfl⟩

theorem readRange_ok {vs : List Value} (h : readRange first last m = .ok vs m') :
    first ≤ last ∧ last ≤ m.stack.size ∧ vs = m.slots first last ∧ m = m' := by
  rw [readRange] at h
  split at h
  · cases h
  · next hfirst =>
    split at h
    · cases h
    · next hlast =>
      cases h
      exact ⟨Nat.not_lt.1 hfirst, Nat.not_lt.1 hlast, rfl, rfl⟩

/-- A stack that has grown has its old contents. -/
theorem getElem?_of_extends {old new : Array Value}
    (h : ∀ i < old.size, new[i]? = old[i]?) (hv : old[i]? = some v) : new[i]? = some v :=
  (h i (Array.getElem?_eq_some_iff.1 hv).1).trans hv

/-- New slots may have been added. -/
theorem reserve_ok {needed : Nat} (h : reserve needed m = .ok () m') :
    ∃ stack, m' = { m with stack } ∧ stack.size = max m.stack.size needed ∧
      ∀ i < m.stack.size, stack[i]? = m.stack[i]? := by
  rw [reserve] at h
  split at h
  · next hle =>
    cases h
    exact ⟨_, rfl, by omega, fun _ _ => rfl⟩
  · next hle =>
    split at h
    · cases h
    · cases h
      refine ⟨_, rfl, ?_, fun i hi => Array.getElem?_append_left hi⟩
      simp only [Array.size_append, Array.size_replicate]
      omega

theorem writeAll_ok {vs : List Value} (h : writeAll first vs m = .ok () m') :
    ∃ stack, m' = { m with stack } ∧ stack.size = m.stack.size ∧
      (∀ j < vs.length, stack[first + j]? = vs[j]?) ∧ ∀ i < first, stack[i]? = m.stack[i]? := by
  induction vs generalizing first m with
  | nil =>
    cases h
    exact ⟨_, rfl, rfl, nofun, fun _ _ => rfl⟩
  | cons v rest ih =>
    obtain ⟨_, m₁, hwrite, hrest⟩ := Routine.exists_of_bind h
    obtain ⟨hfirst, rfl⟩ := write_ok hwrite
    obtain ⟨stack, rfl, hsize, hvalues, hbelow⟩ := ih hrest
    refine ⟨stack, rfl, by simpa using hsize, fun j hj => ?_, fun i hi => ?_⟩
    · cases j with
      | zero => simp [hbelow first (Nat.lt_succ_self first), hfirst]
      | succ j =>
        have hj' := hvalues j (by simpa using hj)
        rwa [Nat.add_right_comm] at hj'
    · rw [hbelow i (Nat.lt_succ_of_lt hi)]
      exact Array.getElem?_setIfInBounds_ne (Nat.ne_of_gt hi)

theorem clear_ok {count : Nat} (h : clear first count m = .ok () m') :
    ∃ stack, m' = { m with stack } ∧ stack.size = m.stack.size ∧
      (∀ j < count, stack[first + j]? = some .nil) ∧
      ∀ i, i < first ∨ first + count ≤ i → stack[i]? = m.stack[i]? := by
  induction count generalizing first m with
  | zero =>
    cases h
    exact ⟨_, rfl, rfl, nofun, fun _ _ => rfl⟩
  | succ count ih =>
    obtain ⟨_, m₁, hwrite, hrest⟩ := Routine.exists_of_bind h
    obtain ⟨hfirst, rfl⟩ := write_ok hwrite
    obtain ⟨stack, rfl, hsize, hcleared, hothers⟩ := ih hrest
    refine ⟨stack, rfl, by simpa using hsize, fun j hj => ?_, fun i hi => ?_⟩
    · cases j with
      | zero => simp [hothers first (.inl (Nat.lt_succ_self first)), hfirst]
      | succ j =>
        have hj' := hcleared j (by omega)
        rwa [Nat.add_right_comm] at hj'
    · rw [hothers i (by omega)]
      exact Array.getElem?_setIfInBounds_ne (by omega)

/-- **Copying values.** They arrive in order if they are copied down, or to slots beyond those that
they come from. -/
theorem copy_ok {source target available count : Nat}
    (hapart : target ≤ source ∨ source + min available count ≤ target)
    (h : copy source target available count m = .ok () m') :
    ∃ stack, m' = { m with stack } ∧ stack.size = m.stack.size ∧
      (∀ j < count,
        stack[target + j]? = if j < available then m.stack[source + j]? else some .nil) ∧
      ∀ i, i < target ∨ target + count ≤ i → stack[i]? = m.stack[i]? := by
  induction count generalizing source target available m with
  | zero =>
    cases h
    exact ⟨_, rfl, rfl, nofun, fun _ _ => rfl⟩
  | succ count ih =>
    have hvalue : ∃ v, some v = (if 0 < available then m.stack[source]? else some .nil) ∧
        (do write target v; copy (source + 1) (target + 1) (available - 1) count) m =
          .ok () m' := by
      rw [copy] at h
      split at h
      · next hpos =>
        obtain ⟨v, _, hread, h⟩ := Routine.exists_of_bind h
        obtain ⟨hv, rfl⟩ := read_ok hread
        exact ⟨v, by rw [if_pos hpos, hv], h⟩
      · next hpos => exact ⟨.nil, (if_neg hpos).symm, h⟩
    obtain ⟨v, hv, h⟩ := hvalue
    obtain ⟨_, m₁, hwrite, h⟩ := Routine.exists_of_bind h
    obtain ⟨htarget, rfl⟩ := write_ok hwrite
    obtain ⟨stack, rfl, hsize, hcopied, hothers⟩ := ih (by omega) h
    refine ⟨stack, rfl, by simpa using hsize, fun j hj => ?_, fun i hi => ?_⟩
    · cases j with
      | zero =>
        rw [Nat.add_zero, Nat.add_zero, ← hv, hothers target (by omega)]
        exact Array.getElem?_setIfInBounds_self_of_lt htarget
      | succ j =>
        have hj' := hcopied j (by omega)
        rw [show target + (j + 1) = target + 1 + j by omega, hj',
          show source + (j + 1) = source + 1 + j by omega]
        by_cases havailable : j < available - 1
        · rw [if_pos havailable, if_pos (by omega)]
          exact Array.getElem?_setIfInBounds_ne (by omega)
        · rw [if_neg havailable, if_neg (by omega)]
    · rw [hothers i (by omega)]
      exact Array.getElem?_setIfInBounds_ne (by omega)

/-- **Moving values.** They arrive in order if they are moved down, or to slots beyond those that
they leave. -/
theorem take_ok {source target available count : Nat}
    (hapart : target < source ∨ source + min available count ≤ target)
    (h : take source target available count m = .ok () m') :
    ∃ stack, m' = { m with stack } ∧ stack.size = m.stack.size ∧
      (∀ j < count,
        stack[target + j]? = if j < available then m.stack[source + j]? else some .nil) ∧
      ∀ i, i < target ∨ target + count ≤ i → i < source ∨ source + min available count ≤ i →
        stack[i]? = m.stack[i]? := by
  induction count generalizing source target available m with
  | zero =>
    cases h
    exact ⟨_, rfl, rfl, nofun, fun _ _ _ => rfl⟩
  | succ count ih =>
    rw [take] at h
    split at h
    · next hpos =>
      obtain ⟨v, m₁, hread, h⟩ := Routine.exists_of_bind h
      obtain ⟨hv, rfl⟩ := read_ok hread
      obtain ⟨_, m₂, hleave, h⟩ := Routine.exists_of_bind h
      obtain ⟨hsource, rfl⟩ := write_ok hleave
      obtain ⟨_, m₃, harrive, h⟩ := Routine.exists_of_bind h
      obtain ⟨htarget, rfl⟩ := write_ok harrive
      obtain ⟨stack, rfl, hsize, hmoved, hothers⟩ := ih (by omega) h
      have hstay : ∀ i, i ≠ source → i ≠ target →
          ((m.stack.setIfInBounds source .nil).setIfInBounds target v)[i]? = m.stack[i]? :=
        fun i hsource htarget => by
          rw [Array.getElem?_setIfInBounds_ne (Ne.symm htarget),
            Array.getElem?_setIfInBounds_ne (Ne.symm hsource)]
      refine ⟨stack, rfl, by simpa using hsize, fun j hj => ?_, fun i hi hi' => ?_⟩
      · cases j with
        | zero =>
          rw [if_pos hpos, Nat.add_zero, Nat.add_zero, hv, hothers target (by omega) (by omega)]
          exact Array.getElem?_setIfInBounds_self_of_lt htarget
        | succ j =>
          have hj' := hmoved j (by omega)
          rw [show target + (j + 1) = target + 1 + j by omega, hj',
            show source + (j + 1) = source + 1 + j by omega]
          by_cases havailable : j < available - 1
          · rw [if_pos havailable, if_pos (by omega)]
            exact hstay _ (by omega) (by omega)
          · rw [if_neg havailable, if_neg (by omega)]
      · rw [hothers i (by omega) (by omega)]
        exact hstay i (by omega) (by omega)
    · next hpos =>
      obtain ⟨_, m₁, hwrite, h⟩ := Routine.exists_of_bind h
      obtain ⟨htarget, rfl⟩ := write_ok hwrite
      obtain ⟨stack, rfl, hsize, hmoved, hothers⟩ := ih (by omega) h
      refine ⟨stack, rfl, by simpa using hsize, fun j hj => ?_, fun i hi hi' => ?_⟩
      · rw [if_neg (by omega)]
        cases j with
        | zero =>
          rw [Nat.add_zero, hothers target (by omega) (by omega)]
          exact Array.getElem?_setIfInBounds_self_of_lt htarget
        | succ j =>
          have hj' := hmoved j (by omega)
          rwa [if_neg (by omega), Nat.add_right_comm] at hj'
      · rw [hothers i (by omega) (by omega)]
        exact Array.getElem?_setIfInBounds_ne (by omega)

/-- A value is put before others, which are moved up. -/
theorem insert_ok (h : insert first last v m = .ok () m') :
    ∃ stack, m' = { m with stack } ∧ stack.size = m.stack.size ∧ first ≤ last ∧
      stack[first]? = some v ∧ m'.slots first (last + 1) = v :: m.slots first last ∧
      ∀ i < first, stack[i]? = m.stack[i]? := by
  obtain ⟨vs, m₁, hread, hwrite⟩ := Routine.exists_of_bind h
  obtain ⟨hfirst, hlast, rfl, rfl⟩ := readRange_ok hread
  obtain ⟨stack, rfl, hsize, hvalues, hbelow⟩ := writeAll_ok hwrite
  have hlength : (v :: m.slots first last).length = last + 1 - first := by
    rw [List.length_cons, Machine.length_slots hlast]
    omega
  refine ⟨stack, rfl, hsize, hfirst, by simpa using hvalues 0 (by simp), ?_, hbelow⟩
  refine List.ext_getElem? fun j => ?_
  rw [Machine.getElem?_slots]
  split
  · exact hvalues j (by omega)
  · rw [List.getElem?_eq_none (by omega)]

end Stack

/-! ### Handlers -/

/-- Each of the values handles calls of the one before, and the last one is a function. -/
def Machine.Leads (m : Machine) : Value → List Value → Prop
  | v, [] => v.isFunction = true
  | v, handler :: rest =>
    v.isFunction = false ∧ m.handler? v .call = some handler ∧ m.Leads handler rest

/-- Handlers do not depend on the stack. -/
theorem Machine.leads_congr {handlers : List Value} (h : m'.Leads v handlers)
    (hm : ∀ v, m'.handler? v .call = m.handler? v .call) : m.Leads v handlers := by
  induction handlers generalizing v with
  | nil => exact h
  | cons handler rest ih => exact ⟨h.1, hm v ▸ h.2.1, ih h.2.2⟩

namespace Call

variable {function : Nat}

/-- A handler is put before the called value. -/
theorem insertHandler_ok (htop : m.top ≤ m.stack.size)
    (h : insertHandler function m = .ok () m') :
    ∃ v handler stack, m.stack[function]? = some v ∧ m.handler? v .call = some handler ∧
      m' = { m with stack, top := m.top + 1 } ∧ stack.size = max m.stack.size (m.top + 1) ∧
      stack[function]? = some handler ∧
      m'.slots function m'.top = handler :: m.slots function m.top ∧
      ∀ i < function, stack[i]? = m.stack[i]? := by
  obtain ⟨v, _, hread, h⟩ := Routine.exists_of_bind h
  obtain ⟨hv, rfl⟩ := Stack.read_ok hread
  rw [Routine.bind_get] at h
  cases hhandler : m.handler? v .call with
  | none =>
    rw [hhandler] at h
    cases h
  | some handler =>
    rw [hhandler] at h
    obtain ⟨_, m₁, hreserve, h⟩ := Routine.exists_of_bind h
    obtain ⟨stack₁, rfl, hsize₁, hstack₁⟩ := Stack.reserve_ok hreserve
    obtain ⟨_, m₂, hinsert, hset⟩ := Routine.exists_of_bind h
    obtain ⟨stack₂, rfl, hsize₂, hle, hfirst, hslots, hbelow⟩ := Stack.insert_ok hinsert
    cases hset
    have hlt := (Array.getElem?_eq_some_iff.1 hv).1
    refine ⟨v, handler, stack₂, hv, hhandler, rfl, hsize₂.trans hsize₁, hfirst, ?_, fun i hi => ?_⟩
    · refine hslots.trans (congrArg (handler :: ·) (List.ext_getElem? fun j => ?_))
      simp only [Machine.getElem?_slots]
      split
      · exact hstack₁ _ (by omega)
      · rfl
    · rw [hbelow i hi]
      exact hstack₁ i (Nat.lt_trans hi hlt)

/-- The state `m'` after handlers have been put before the called value `v` until there is a
function. -/
structure Prepared (m : Machine) (function : Nat) (v : Value) (handlers : List Value)
    (m' : Machine) : Prop where
  called : m.stack[function]? = some v
  leads : m.Leads v handlers
  eq : m' = { m with stack := m'.stack, top := m.top + handlers.length }
  size_stack : m'.stack.size = max m.stack.size (m.top + handlers.length)
  slots : m'.slots function m'.top = handlers.reverse ++ m.slots function m.top
  below : ∀ i < function, m'.stack[i]? = m.stack[i]?

/-- A function needs no handlers. -/
theorem Prepared.refl (htop : m.top ≤ m.stack.size) (hv : m.stack[function]? = some v)
    (hfunction : v.isFunction = true) : Prepared m function v [] m where
  called := hv
  leads := hfunction
  eq := rfl
  size_stack := (Nat.max_eq_left htop).symm
  slots := rfl
  below := fun _ _ => rfl

theorem resolveWithin_ok {n : Nat} (htop : m.top ≤ m.stack.size)
    (h : resolveWithin function n m = .ok () m') :
    ∃ v handlers, handlers.length ≤ n ∧ Prepared m function v handlers m' := by
  induction n generalizing m with
  | zero =>
    obtain ⟨v, _, hread, h⟩ := Routine.exists_of_bind h
    obtain ⟨hv, rfl⟩ := Stack.read_ok hread
    split at h
    · cases h
    · next hfunction =>
      cases h
      exact ⟨v, [], Nat.le_refl 0, .refl htop hv (by simpa using hfunction)⟩
  | succ n ih =>
    obtain ⟨v, _, hread, h⟩ := Routine.exists_of_bind h
    obtain ⟨hv, rfl⟩ := Stack.read_ok hread
    split at h
    · next hfunction =>
      obtain ⟨_, m₁, hinsert, h⟩ := Routine.exists_of_bind h
      obtain ⟨_, handler, stack, hv', hhandler, rfl, hsize, hfirst, hslots, hbelow⟩ :=
        insertHandler_ok htop hinsert
      obtain rfl := Option.some.inj (hv.symm.trans hv')
      have htop₁ : m.top + 1 ≤ stack.size := by omega
      obtain ⟨w, handlers, hlength, hresolved⟩ := ih htop₁ h
      obtain rfl : handler = w := Option.some.inj (hfirst.symm.trans hresolved.called)
      exact ⟨v, handler :: handlers, Nat.succ_le_succ hlength,
        { called := hv
          leads :=
            ⟨by simpa using hfunction, hhandler, Machine.leads_congr hresolved.leads fun _ => rfl⟩
          eq := by
            rw [hresolved.eq, List.length_cons, Nat.add_comm handlers.length, ← Nat.add_assoc]
          size_stack := by
            simp only [hresolved.size_stack, hsize, List.length_cons]
            omega
          slots := by
            rw [hresolved.slots, hslots, List.reverse_cons, List.append_assoc,
              List.singleton_append]
          below := fun i hi => (hresolved.below i hi).trans (hbelow i hi) }⟩
    · next hfunction =>
      cases h
      exact ⟨v, [], Nat.zero_le _, .refl htop hv (by simpa using hfunction)⟩

/-- **Handlers.** They are put before the called value until it is a function. -/
theorem resolve_ok (htop : m.top ≤ m.stack.size) (h : resolve function m = .ok () m') :
    ∃ v handlers, handlers.length ≤ m.limits.handlerChain ∧ Prepared m function v handlers m' :=
  resolveWithin_ok htop h

end Call

/-! ### Arguments -/

namespace Prototype

/-- The slot of the first register in a call with `n` arguments; all of them stay below the
registers if their number is variable. -/
def base (p : Prototype) (function n : Nat) : Nat :=
  if p.isVararg then function + 1 + n else function + 1

/-- What a register contains when a call begins: an argument, or nil. -/
def parameter (p : Prototype) (args : List Value) (r : Nat) : Value :=
  (args.take p.parameters)[r]?.getD .nil

theorem parameter_eq_nil {p : Prototype} {args : List Value} {r : Nat}
    (h : min args.length p.parameters ≤ r) : p.parameter args r = .nil := by
  rw [parameter, List.getElem?_eq_none (by simpa [Nat.min_comm] using h), Option.getD_none]

end Prototype

namespace Call

variable {function : Nat} {id : ClosureId} {wanted : Option Nat} {isTailCall isFresh : Bool}

/-- The state `m'` after the call of a closure has begun in `m` with the arguments `args`. -/
structure Passed (m : Machine) (p : Prototype) (function : Nat) (args : List Value) (m' : Machine) :
    Prop where
  top : m'.top = p.base function args.length + p.registers
  size_stack : m'.stack.size = max m.stack.size (m.top + p.parameters + p.registers)
  below : ∀ i ≤ function, m'.stack[i]? = m.stack[i]?
  registers : ∀ r < p.registers,
    m'.stack[p.base function args.length + r]? = some (p.parameter args r)
  /-- Additional arguments stay where they are if their number is variable. -/
  extras : p.isVararg = true → ∀ j, p.parameters ≤ j → j < args.length →
    m'.stack[function + 1 + j]? = args[j]?

theorem checkDepth_ok (h : checkDepth m = .ok () m') : m = m' := by
  rw [checkDepth, Routine.bind_get] at h
  split at h
  · cases h
  · cases h
    rfl

section Parameters

variable {p : Prototype} {args : List Value} {stack₁ stack : Array Value}

/-- Arguments of parameters lie behind the function. -/
theorem getElem?_parameter (hargs : ∀ j < args.length, args[j]? = m.stack[function + 1 + j]?)
    {r : Nat} (hr : r < args.length) (hp : r < p.parameters) :
    m.stack[function + 1 + r]? = some (p.parameter args r) := by
  rw [← hargs r hr, Prototype.parameter, List.getElem?_take_of_lt hp, List.getElem?_eq_getElem hr,
    Option.getD_some]

variable (hn : m.top = function + 1 + args.length) (htop : m.top ≤ m.stack.size)
  (hargs : ∀ j < args.length, args[j]? = m.stack[function + 1 + j]?)
  (hsize₁ : stack₁.size = max m.stack.size (m.top + p.parameters + p.registers))
  (hstack₁ : ∀ i < m.stack.size, stack₁[i]? = m.stack[i]?)

include hn htop hargs hsize₁ hstack₁

/-- The arguments are in place already, and everything behind those of parameters is cleared. -/
theorem passed_of_fixed (hvararg : p.isVararg = false)
    (hclear : Stack.clear (function + 1 + min args.length p.parameters)
      (p.registers - min args.length p.parameters) { m with stack := stack₁ } = .ok () m') :
    ∃ stack, m' = { m with stack } ∧ ∀ frames, Passed m p function args
      { m with stack, frames, top := function + 1 + p.registers } := by
  have hbase : p.base function args.length = function + 1 := by simp [Prototype.base, hvararg]
  obtain ⟨stack, rfl, hsize, hcleared, hothers⟩ := Stack.clear_ok hclear
  refine ⟨stack, rfl, fun frames => ⟨by rw [hbase], hsize.trans hsize₁, fun i hi => ?_,
    fun r hr => ?_, fun h => absurd h (by simp [hvararg])⟩⟩
  · rw [hothers i (by omega)]
    exact hstack₁ i (by omega)
  · rw [hbase]
    by_cases hpassed : r < min args.length p.parameters
    · rw [hothers _ (by omega), hstack₁ _ (by omega)]
      exact getElem?_parameter hargs (by omega) (by omega)
    · have hr' := hcleared (r - min args.length p.parameters) (by omega)
      rw [Prototype.parameter_eq_nil (Nat.not_lt.1 hpassed), ← hr']
      congr 1
      omega

/-- The arguments of parameters are moved behind the others. -/
theorem passed_of_variable (hvararg : p.isVararg = true) {m₁ : Machine}
    (htake : Stack.take (function + 1) m.top args.length p.parameters { m with stack := stack₁ } =
      .ok () m₁)
    (hclear : Stack.clear (m.top + p.parameters) (p.registers - p.parameters) m₁ = .ok () m') :
    ∃ stack, m' = { m with stack } ∧ ∀ frames, Passed m p function args
      { m with stack, frames, top := m.top + p.registers } := by
  have hbase : p.base function args.length = m.top := by simp [Prototype.base, hvararg, hn]
  obtain ⟨stack₂, rfl, hsize₂, hmoved, hstay⟩ := Stack.take_ok (by omega) htake
  obtain ⟨stack, rfl, hsize, hcleared, hothers⟩ := Stack.clear_ok hclear
  refine ⟨stack, rfl, fun frames => ⟨by rw [hbase], hsize.trans (hsize₂.trans hsize₁),
    fun i hi => ?_, fun r hr => ?_, fun _ j hj hj' => ?_⟩⟩
  · rw [hothers i (by omega), hstay i (by omega) (by omega)]
    exact hstack₁ i (by omega)
  · rw [hbase]
    by_cases hpassed : r < p.parameters
    · rw [hothers _ (by omega), hmoved r hpassed]
      split
      · next hr' =>
        rw [hstack₁ _ (by omega)]
        exact getElem?_parameter hargs hr' hpassed
      · next hr' => rw [Prototype.parameter_eq_nil (by omega)]
    · have hr' := hcleared (r - p.parameters) (by omega)
      rw [Prototype.parameter_eq_nil (by omega), ← hr']
      congr 1
      omega
  · rw [hothers _ (by omega), hstay _ (by omega) (by omega), hstack₁ _ (by omega)]
    exact (hargs j hj').symm

end Parameters

/-- **Arguments.** They are passed in the first registers, and all other registers hold nil. -/
theorem pushClosure_ok (htop : m.top ≤ m.stack.size)
    (h : pushClosure id function wanted isTailCall isFresh m = .ok () m') :
    m.top = function + 1 + (m.slots (function + 1) m.top).length ∧
      Passed m (m.heap.closure id).proto function (m.slots (function + 1) m.top) m' ∧
      m' = { m with
        stack := m'.stack
        top := m'.top
        frames := m.frames.push { Frame.ofClosure id function
            ((m.heap.closure id).proto.base function (m.slots (function + 1) m.top).length) m'.top
            wanted with caller? := Frame.innermost? m.frames, isTailCall, isFresh } } := by
  obtain ⟨_, m₁, hdepth, h⟩ := Routine.exists_of_bind h
  obtain rfl := checkDepth_ok hdepth
  rw [Routine.bind_get] at h
  generalize (m.heap.closure id).proto = p at h ⊢
  obtain ⟨n, _, hcount, h⟩ := Routine.exists_of_bind h
  obtain ⟨hn, rfl⟩ := Stack.countFrom_ok hcount
  have hlength : (m.slots (function + 1) m.top).length = n := by
    rw [Machine.length_slots htop]
    omega
  have hargs : ∀ j < n, (m.slots (function + 1) m.top)[j]? = m.stack[function + 1 + j]? :=
    fun j hj => by rw [Machine.getElem?_slots, if_pos (by omega)]
  generalize m.slots (function + 1) m.top = args at hlength hargs ⊢
  subst hlength
  obtain ⟨_, _, hfree, h⟩ := Routine.exists_of_bind h
  cases hfree
  obtain ⟨_, m₁, hreserve, h⟩ := Routine.exists_of_bind h
  obtain ⟨stack₁, rfl, hsize₁, hstack₁⟩ := Stack.reserve_ok hreserve
  cases hvararg : p.isVararg with
  | false =>
    have hbase : p.base function args.length = function + 1 := by simp [Prototype.base, hvararg]
    simp only [hvararg, Bool.false_eq_true, if_false] at h
    obtain ⟨_, m₂, hclear, h⟩ := Routine.exists_of_bind h
    obtain ⟨stack, rfl, hpassed⟩ := passed_of_fixed hn htop hargs hsize₁ hstack₁ hvararg hclear
    obtain ⟨_, m₃, hpush, hset⟩ := Routine.exists_of_bind h
    cases hpush
    cases hset
    exact ⟨hn, hpassed _, by rw [hbase]⟩
  | true =>
    have hbase : p.base function args.length = m.top := by simp [Prototype.base, hvararg, hn]
    simp only [hvararg, if_true] at h
    obtain ⟨_, m₂, htake, h⟩ := Routine.exists_of_bind h
    obtain ⟨_, m₃, hclear, h⟩ := Routine.exists_of_bind h
    obtain ⟨stack, rfl, hpassed⟩ :=
      passed_of_variable hn htop hargs hsize₁ hstack₁ hvararg htake hclear
    obtain ⟨_, m₄, hpush, hset⟩ := Routine.exists_of_bind h
    cases hpush
    cases hset
    exact ⟨hn, hpassed _, by rw [hbase]⟩

end Call

end LuaMachine
