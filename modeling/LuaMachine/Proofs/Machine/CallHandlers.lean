import LuaMachine.Proofs.Machine.StackRoom
import LuaMachine.Proofs.Table.FiniteMap

/-!
# Handlers of calls

A value that is no function can be called if it has a handler for calls: the handler takes its
place, and the value becomes the first argument.  The handler may be no function either and have a
handler in turn, and so on, perhaps in a circle.  A limit bounds the number of handlers, and each of
them needs a stack slot.

Handlers depend on metatables alone, which the search for a function does not change.  So the values
that are called in turn are a function of the state before the search (`Machine.calledAfter?`), and
what becomes of the search is read off the first of them that ends it.

## Main definitions

* `Machine.calledAfter?` : the values that are called in turn, by number.
* `Machine.HasRoom` : stack slots that exist or may be made.
* `Call.Shifted` : the state after a number of handlers has been put before the called value.
* `Call.Resolves` : what the search for a function may come to.

## Main statements

* `Machine.isSome_calledAfter?_of_circle` : in a circle there is always a next value.
* `Call.exists_shifted` : the search along the values that are called in turn.
* `Call.resolve_resolves` : the search comes to a function, or it fails in one of three ways.
-/

namespace LuaMachine

namespace Machine

variable {m : Machine} {v w : Value} {i j k n : Nat}

/-! ### The values that are called in turn -/

/-- The value that takes the place of a called one.  A function keeps its place. -/
def substitute? (m : Machine) (v : Value) : Option Value :=
  if v.isFunction then none else m.handler? v .call

/-- The value that is called after `n` handlers have taken the place of `v` and of each other. -/
def calledAfter? (m : Machine) (v : Value) : Nat → Option Value
  | 0 => some v
  | n + 1 => (m.calledAfter? v n).bind m.substitute?

theorem substitute?_of_isFunction_eq_false (h : v.isFunction = false) :
    m.substitute? v = m.handler? v .call := if_neg (by simp [h])

theorem substitute?_eq_some_iff :
    m.substitute? v = some w ↔ v.isFunction = false ∧ m.handler? v .call = some w := by
  cases h : v.isFunction with
  | true => simp [substitute?, h]
  | false => simp [substitute?_of_isFunction_eq_false h]

theorem calledAfter?_succ (h : m.calledAfter? v i = some w) :
    m.calledAfter? v (i + 1) = m.substitute? w := by
  rw [calledAfter?, h, Option.bind_some]

theorem calledAfter?_add (h : m.calledAfter? v i = some w) (j : Nat) :
    m.calledAfter? v (i + j) = m.calledAfter? w j := by
  induction j with
  | zero => exact h
  | succ j ih => rw [← Nat.add_assoc, calledAfter?, calledAfter?, ih]

/-- Behind the last value there is none. -/
theorem isSome_calledAfter?_of_le (hle : i ≤ j) (h : (m.calledAfter? v j).isSome = true) :
    (m.calledAfter? v i).isSome = true := by
  induction hle with
  | refl => exact h
  | step _ ih => exact ih (Option.isSome_of_isSome_bind h)

/-- **Circles.** There is always a next value if the called values come to a circle. -/
theorem isSome_calledAfter?_of_circle (hreached : m.calledAfter? v k = some w)
    (hcircle : m.calledAfter? w (n + 1) = some w) (i : Nat) :
    (m.calledAfter? v i).isSome = true := by
  have hrounds : ∀ j, m.calledAfter? w (j * (n + 1)) = some w := fun j => by
    induction j with
    | zero => rw [Nat.zero_mul]; rfl
    | succ j ih => rw [Nat.succ_mul, calledAfter?_add ih, hcircle]
  -- `i` rounds lead beyond the value in question
  have hfar : m.calledAfter? v (k + i * (n + 1)) = some w :=
    (calledAfter?_add hreached _).trans (hrounds i)
  refine isSome_calledAfter?_of_le ?_ (Option.isSome_iff_exists.2 ⟨w, hfar⟩)
  calc i
    _ ≤ i * (n + 1) := Nat.le_mul_of_pos_right i n.succ_pos
    _ ≤ k + i * (n + 1) := Nat.le_add_left ..

/-- There are `n` slots behind those in use, or the limit allows to make them. -/
def HasRoom (m : Machine) (n : Nat) : Prop := m.top + n ≤ max m.stack.size m.limits.stackSize

instance (m : Machine) (n : Nat) : Decidable (m.HasRoom n) := inferInstanceAs (Decidable (_ ≤ _))

/-- **Every search ends or goes on.** Among the first `n` values there is a function, or one without
a handler, or one for whose handler there is no room; or else another value is called after them. -/
theorem exists_end_or_calledAfter (m : Machine) (v : Value) (h : m.HasRoom 0) (n : Nat) :
    (∃ i < n, ∃ w, m.calledAfter? v i = some w ∧ m.HasRoom i ∧
      (w.isFunction = true ∨ (w.isFunction = false ∧ m.handler? w .call = none) ∨
        (m.calledAfter? v (i + 1)).isSome = true ∧ ¬m.HasRoom (i + 1))) ∨
      ∃ w, m.calledAfter? v n = some w ∧ m.HasRoom n := by
  induction n with
  | zero => exact .inr ⟨v, rfl, h⟩
  | succ n ih =>
    obtain ⟨i, hi, hend⟩ | ⟨w, hw, hroom⟩ := ih
    · exact .inl ⟨i, Nat.lt_succ_of_lt hi, hend⟩
    · cases hfunction : w.isFunction with
      | true => exact .inl ⟨n, Nat.lt_succ_self n, w, hw, hroom, .inl hfunction⟩
      | false =>
        cases hhandler : m.handler? w .call with
        | none =>
          exact .inl ⟨n, Nat.lt_succ_self n, w, hw, hroom, .inr (.inl ⟨hfunction, hhandler⟩)⟩
        | some handler =>
          have hnext : m.calledAfter? v (n + 1) = some handler :=
            (calledAfter?_succ hw).trans (substitute?_eq_some_iff.2 ⟨hfunction, hhandler⟩)
          by_cases hroom' : m.HasRoom (n + 1)
          · exact .inr ⟨handler, hnext, hroom'⟩
          · exact .inl ⟨n, Nat.lt_succ_self n, w, hw, hroom,
              .inr (.inr ⟨by rw [hnext]; rfl, hroom'⟩)⟩

end Machine

namespace Call

variable {m m' : Machine} {function i n : Nat} {v w handler : Value}

/-! ### The stack during the search -/

/-- The state `m'` after `i` handlers have been put before the called value `v` and its arguments.
Only the stack and its first free slot differ from `m`. -/
structure Shifted (m : Machine) (function : Nat) (v : Value) (i : Nat) (m' : Machine) : Prop where
  eq : m' = { m with stack := m'.stack, top := m.top + i }
  size_stack : m'.stack.size = max m.stack.size (m.top + i)
  /-- The values that were called in turn, the last one first. -/
  called : ∀ j ≤ i, m'.stack[function + j]? = m.calledAfter? v (i - j)
  /-- The arguments in their order. -/
  arguments : ∀ j, function < j → j < m.top → m'.stack[j + i]? = m.stack[j]?
  below : ∀ j < function, m'.stack[j]? = m.stack[j]?

theorem Shifted.refl (hv : m.stack[function]? = some v) (htop : m.top ≤ m.stack.size) :
    Shifted m function v 0 m where
  eq := rfl
  size_stack := (Nat.max_eq_left htop).symm
  called j hj := by
    obtain rfl := Nat.le_zero.1 hj
    exact hv
  arguments _ _ _ := rfl
  below _ _ := rfl

theorem Shifted.top_eq (h : Shifted m function v i m') : m'.top = m.top + i := by rw [h.eq]

theorem Shifted.limits_eq (h : Shifted m function v i m') : m'.limits = m.limits := by rw [h.eq]

/-- Handlers do not depend on the stack. -/
theorem Shifted.handler?_eq (h : Shifted m function v i m') (w : Value) :
    m'.handler? w .call = m.handler? w .call := by
  rw [h.eq]
  rfl

/-- Neither does the complaint about the value in a slot. -/
theorem Shifted.operandFault_eq (h : Shifted m function v i m') (w : Value) :
    m'.operandFault "call" w (m'.slotOrigin function) =
      m.operandFault "call" w (m.slotOrigin function) := by
  rw [h.eq]
  rfl

theorem Shifted.hasRoom_iff (h : Shifted m function v i m') (hroom : m.HasRoom i) :
    m'.HasRoom 1 ↔ m.HasRoom (i + 1) := by
  rw [Machine.HasRoom] at *
  rw [Machine.HasRoom, h.top_eq, h.limits_eq, h.size_stack]
  omega

/-- Putting in one more handler moves everything up by one slot. -/
theorem exists_insertHandler (hw : m.stack[function]? = some w)
    (hhandler : m.handler? w .call = some handler) (hlt : function < m.top)
    (htop : m.top ≤ m.stack.size) (hroom : m.HasRoom 1) :
    ∃ m', insertHandler function m = .ok () m' ∧
      m' = { m with stack := m'.stack, top := m.top + 1 } ∧
      m'.stack.size = max m.stack.size (m.top + 1) ∧ m'.stack[function]? = some handler ∧
      (∀ j, function ≤ j → j < m.top → m'.stack[j + 1]? = m.stack[j]?) ∧
      ∀ j < function, m'.stack[j]? = m.stack[j]? := by
  obtain ⟨_, m', hinsert⟩ := succeeds_insertHandler hw hhandler (Nat.le_of_lt hlt) hroom
  obtain ⟨w', handler', stack, hw', hhandler', rfl, hsize, hfirst, hslots, hbelow⟩ :=
    insertHandler_ok htop hinsert
  obtain rfl : w = w' := Option.some.inj (hw.symm.trans hw')
  obtain rfl : handler = handler' := Option.some.inj (hhandler.symm.trans hhandler')
  refine ⟨_, hinsert, rfl, hsize, hfirst, fun j hle hj => ?_, hbelow⟩
  have hslot := congrArg (·[j + 1 - function]?) hslots
  simp only [Machine.getElem?_slots] at hslot
  rw [if_pos (by omega), show j + 1 - function = (j - function) + 1 by omega,
    List.getElem?_cons_succ, Machine.getElem?_slots, if_pos (by omega)] at hslot
  rwa [show function + (j - function + 1) = j + 1 by omega,
    show function + (j - function) = j by omega] at hslot

/-- One more turn of the search. -/
theorem Shifted.succ (h : Shifted m function v i m') (hlt : function < m.top)
    (hnext : m.calledAfter? v (i + 1) = some handler) (hroom : m.HasRoom i)
    (hroom' : m.HasRoom (i + 1)) :
    ∃ m'', Shifted m function v (i + 1) m'' ∧
      ∀ n, resolveWithin function (n + 1) m' = resolveWithin function n m'' := by
  obtain ⟨w, hw, hsubstitute⟩ := Option.bind_eq_some_iff.1 hnext
  obtain ⟨hfunction, hhandler⟩ := Machine.substitute?_eq_some_iff.1 hsubstitute
  have hread : m'.stack[function]? = some w := (h.called 0 (Nat.zero_le i)).trans hw
  have hsize := h.size_stack
  obtain ⟨m'', hinsert, heq, hsize', hfirst, hmoved, hbelow⟩ :=
    exists_insertHandler hread ((h.handler?_eq w).trans hhandler) (by rw [h.top_eq]; omega)
      (by rw [h.top_eq]; omega) ((h.hasRoom_iff hroom).2 hroom')
  rw [h.top_eq] at heq hsize' hmoved
  have hcalled : ∀ j ≤ i + 1, m''.stack[function + j]? = m.calledAfter? v (i + 1 - j) :=
    fun j hj => by
      cases j with
      | zero => exact hfirst.trans hnext.symm
      | succ j =>
        calc m''.stack[function + (j + 1)]?
          _ = m'.stack[function + j]? := hmoved (function + j) (by omega) (by omega)
          _ = m.calledAfter? v (i - j) := h.called j (by omega)
          _ = m.calledAfter? v (i + 1 - (j + 1)) := by rw [Nat.add_sub_add_right]
  have harguments : ∀ j, function < j → j < m.top → m''.stack[j + (i + 1)]? = m.stack[j]? :=
    fun j hj hj' =>
      calc m''.stack[j + (i + 1)]?
        _ = m'.stack[j + i]? := hmoved (j + i) (by omega) (by omega)
        _ = m.stack[j]? := h.arguments j hj hj'
  refine ⟨m'', ⟨?_, ?_, hcalled, harguments, fun j hj => (hbelow j hj).trans (h.below j hj)⟩,
    fun n => (resolveWithin_succ hread hfunction n).trans (Routine.bind_of_ok hinsert)⟩
  · rw [heq, h.eq]
    rfl
  · rw [hsize', hsize]
    omega

/-- **The search.** After `i` turns it stands at the value that is called after `i` handlers. -/
theorem exists_shifted (hv : m.stack[function]? = some v) (hlt : function < m.top)
    (htop : m.top ≤ m.stack.size) (h : m.calledAfter? v i = some w) (hroom : m.HasRoom i) :
    ∃ m', Shifted m function v i m' ∧ m'.stack[function]? = some w ∧
      ∀ n, resolveWithin function (i + n) m = resolveWithin function n m' := by
  induction i generalizing w with
  | zero =>
    obtain rfl : v = w := Option.some.inj h
    exact ⟨m, .refl hv htop, hv, fun n => by rw [Nat.zero_add]⟩
  | succ i ih =>
    obtain ⟨u, hu, -⟩ := Option.bind_eq_some_iff.1 h
    have hroom' : m.HasRoom i := Nat.le_trans (Nat.add_le_add_left i.le_succ _) hroom
    obtain ⟨m₁, hshifted, -, hturns⟩ := ih hu hroom'
    obtain ⟨m', hshifted', hturn⟩ := hshifted.succ hlt h hroom' hroom
    refine ⟨m', hshifted', (hshifted'.called 0 (Nat.zero_le _)).trans h, fun n => ?_⟩
    rw [Nat.add_assoc, Nat.add_comm 1 n, hturns, hturn]

/-! ### What becomes of the search -/

/-- What the search for a function from `v` on may come to.  The values that are called in turn tell
which of the cases it is. -/
structure Resolves (m : Machine) (function : Nat) (v : Value)
    (r : EStateM.Result Stop Machine Unit) : Prop where
  /-- A function is found if there are not too many handlers before it and there is room for
  them. -/
  found : ∀ k ≤ m.limits.handlerChain, ∀ f, m.calledAfter? v k = some f → f.isFunction = true →
    m.HasRoom k → ∃ m', r = .ok () m' ∧ Shifted m function v k m'
  /-- A value without a handler cannot be called.  The complaint names its type and the origin of
  the slot. -/
  uncallable : ∀ i < m.limits.handlerChain, ∀ w, m.calledAfter? v i = some w →
    w.isFunction = false → m.handler? w .call = none → m.HasRoom i →
    ∃ m', r = .error (.failure (.of (.operand "call" (m.blamedTypeName w)
      (m.originText (m.slotOrigin function))))) m' ∧ Shifted m function v i m'
  /-- A handler for which there is no room overflows the stack. -/
  overflow : ∀ i < m.limits.handlerChain, (m.calledAfter? v (i + 1)).isSome = true →
    m.HasRoom i → ¬m.HasRoom (i + 1) →
    ∃ m', r = .error (.failure (.of .stackOverflow)) m' ∧ Shifted m function v i m'
  /-- The search fails if more handlers would be needed than the limit allows. -/
  endless : ∀ w, m.calledAfter? v m.limits.handlerChain = some w → w.isFunction = false →
    m.HasRoom m.limits.handlerChain →
    ∃ m', r = .error (.failure (.of (.chain .call))) m' ∧
      Shifted m function v m.limits.handlerChain m'
  /-- So it does in a circle. -/
  circle : ∀ k n w, m.calledAfter? v k = some w → m.calledAfter? w (n + 1) = some w →
    m.HasRoom m.limits.handlerChain →
    ∃ m', r = .error (.failure (.of (.chain .call))) m' ∧
      Shifted m function v m.limits.handlerChain m'
  /-- These are all cases. -/
  decided : (∃ i ≤ m.limits.handlerChain, ∃ w, m.calledAfter? v i = some w ∧ m.HasRoom i ∧
      w.isFunction = true) ∨
    (∃ i < m.limits.handlerChain, ∃ w, m.calledAfter? v i = some w ∧ m.HasRoom i ∧
      w.isFunction = false ∧ m.handler? w .call = none) ∨
    (∃ i < m.limits.handlerChain, (m.calledAfter? v (i + 1)).isSome = true ∧ m.HasRoom i ∧
      ¬m.HasRoom (i + 1)) ∨
    ∃ w, m.calledAfter? v m.limits.handlerChain = some w ∧
      m.HasRoom m.limits.handlerChain ∧ w.isFunction = false

/-- The search comes to what becomes of it at any of the values that are called within the limit. -/
theorem exists_resolve_eq (hv : m.stack[function]? = some v) (hlt : function < m.top)
    (htop : m.top ≤ m.stack.size) (hi : i ≤ m.limits.handlerChain)
    (h : m.calledAfter? v i = some w) (hroom : m.HasRoom i) :
    ∃ m', Shifted m function v i m' ∧ m'.stack[function]? = some w ∧
      resolve function m = resolveWithin function (m.limits.handlerChain - i) m' := by
  obtain ⟨m', hshifted, hw, hturns⟩ := exists_shifted hv hlt htop h hroom
  refine ⟨m', hshifted, hw, ?_⟩
  rw [resolve, Routine.bind_get, ← hturns, Nat.add_sub_cancel' hi]

/-- More handlers than the limit allows would be needed. -/
theorem resolve_of_endless (hv : m.stack[function]? = some v) (hlt : function < m.top)
    (htop : m.top ≤ m.stack.size) (h : m.calledAfter? v m.limits.handlerChain = some w)
    (hfunction : w.isFunction = false) (hroom : m.HasRoom m.limits.handlerChain) :
    ∃ m', resolve function m = .error (.failure (.of (.chain .call))) m' ∧
      Shifted m function v m.limits.handlerChain m' := by
  obtain ⟨m', hshifted, hw, heq⟩ := exists_resolve_eq hv hlt htop (Nat.le_refl _) h hroom
  rw [Nat.sub_self, resolveWithin_zero hw hfunction] at heq
  exact ⟨m', heq, hshifted⟩

/-- **Calls of values that are no functions.** The search for a function follows the handlers for
calls.  It comes to a function that takes not more handlers than the limit allows and for which the
stack has room; then the function stands in the slot of the called value, and the other handlers,
the last one first, the called value and the arguments follow.  Otherwise it fails: at a value
without a handler, at a handler without room, or when the limit is reached, as in a circle.  In no
case does it change a slot below. -/
theorem resolve_resolves (m : Machine) (function : Nat) (v : Value)
    (hv : m.stack[function]? = some v) (hlt : function < m.top) (htop : m.top ≤ m.stack.size) :
    Resolves m function v (resolve function m) where
  found k hk f hf hfunction hroom := by
    obtain ⟨m', hshifted, hread, heq⟩ := exists_resolve_eq hv hlt htop hk hf hroom
    exact ⟨m', heq.trans (resolveWithin_of_isFunction hread hfunction _), hshifted⟩
  uncallable i hi w hw hfunction hhandler hroom := by
    obtain ⟨m', hshifted, hread, heq⟩ := exists_resolve_eq hv hlt htop (Nat.le_of_lt hi) hw hroom
    obtain ⟨n, hn⟩ : ∃ n, m.limits.handlerChain - i = n + 1 :=
      Nat.exists_eq_succ_of_ne_zero (by omega)
    have hinsert := insertHandler_of_no_handler hread ((hshifted.handler?_eq w).trans hhandler)
    rw [hn, resolveWithin_succ hread hfunction, Routine.bind_of_error hinsert,
      hshifted.operandFault_eq] at heq
    exact ⟨m', heq, hshifted⟩
  overflow i hi hnext hroom hfull := by
    obtain ⟨handler, hnext⟩ := Option.isSome_iff_exists.1 hnext
    obtain ⟨w, hw, hsubstitute⟩ := Option.bind_eq_some_iff.1 hnext
    obtain ⟨hfunction, hhandler⟩ := Machine.substitute?_eq_some_iff.1 hsubstitute
    obtain ⟨m', hshifted, hread, heq⟩ := exists_resolve_eq hv hlt htop (Nat.le_of_lt hi) hw hroom
    obtain ⟨n, hn⟩ : ∃ n, m.limits.handlerChain - i = n + 1 :=
      Nat.exists_eq_succ_of_ne_zero (by omega)
    have hinsert := insertHandler_of_full hread ((hshifted.handler?_eq w).trans hhandler)
      (Nat.not_le.1 (mt (hshifted.hasRoom_iff hroom).1 hfull))
    rw [hn, resolveWithin_succ hread hfunction, Routine.bind_of_error hinsert] at heq
    exact ⟨m', heq, hshifted⟩
  endless w hw hfunction hroom := resolve_of_endless hv hlt htop hw hfunction hroom
  circle k n w hreached hcircle hroom := by
    have hnext := Machine.isSome_calledAfter?_of_circle hreached hcircle (m.limits.handlerChain + 1)
    obtain ⟨handler, hhandler⟩ := Option.isSome_iff_exists.1 hnext
    obtain ⟨w, hw, hsubstitute⟩ := Option.bind_eq_some_iff.1 hhandler
    exact resolve_of_endless hv hlt htop hw (Machine.substitute?_eq_some_iff.1 hsubstitute).1 hroom
  decided := by
    have hroom : m.HasRoom 0 := Nat.le_trans htop (Nat.le_max_left ..)
    obtain ⟨i, hi, w, hw, hroom, hend⟩ | ⟨w, hw, hroom⟩ :=
      m.exists_end_or_calledAfter v hroom m.limits.handlerChain
    · obtain hfunction | ⟨hfunction, hhandler⟩ | ⟨hnext, hfull⟩ := hend
      · exact .inl ⟨i, Nat.le_of_lt hi, w, hw, hroom, hfunction⟩
      · exact .inr (.inl ⟨i, hi, w, hw, hroom, hfunction, hhandler⟩)
      · exact .inr (.inr (.inl ⟨i, hi, hnext, hroom, hfull⟩))
    · cases hfunction : w.isFunction with
      | true => exact .inl ⟨_, Nat.le_refl _, w, hw, hroom, hfunction⟩
      | false => exact .inr (.inr (.inr ⟨w, hw, hroom, hfunction⟩))

/-! ### A call of a boolean -/

/-- A machine in which an integer handles calls of booleans and a native function calls of numbers,
with a boolean and an argument on its stack. -/
def relaying : Machine :=
  let m : Machine := .new {}
  { m with
    heap.tables := m.heap.tables ++
      #[Table.empty.setText "__call" (.integer 7), Table.empty.setText "__call" (.native ⟨0⟩)]
    kindMetatables := [(.boolean, ⟨3⟩), (.number, ⟨4⟩)]
    stack := #[.nil, .boolean true, .integer 5]
    top := 3 }

theorem getText_call (v : Value) : (Table.empty.setText "__call" v).getText "__call" = v := by
  show (Table.setEntry .empty (.string "__call".toUTF8) v).getEntry (.string "__call".toUTF8) = v
  rw [Table.getEntry_setEntry, if_pos rfl]

theorem handler?_relaying : relaying.handler? (.boolean true) .call = some (.integer 7) ∧
    relaying.handler? (.integer 7) .call = some (.native ⟨0⟩) := by
  constructor
  · have hfield : relaying.metafield (.boolean true) .call = .integer 7 := getText_call (.integer 7)
    rw [Machine.handler?, hfield]
    rfl
  · have hfield : relaying.metafield (.integer 7) .call = .native ⟨0⟩ := getText_call (.native ⟨0⟩)
    rw [Machine.handler?, hfield]
    rfl

/-- The native function is called with the integer, the boolean and the argument. -/
theorem resolve_resolves_relaying : ∃ m', resolve 1 relaying = .ok () m' ∧
    m'.stack = #[.nil, .native ⟨0⟩, .integer 7, .boolean true, .integer 5] ∧ m'.top = 5 := by
  obtain ⟨hboolean, hinteger⟩ := handler?_relaying
  have hone : relaying.calledAfter? (.boolean true) 1 = some (.integer 7) :=
    Machine.substitute?_eq_some_iff.2 ⟨rfl, hboolean⟩
  have htwo : relaying.calledAfter? (.boolean true) 2 = some (.native ⟨0⟩) :=
    (Machine.calledAfter?_succ hone).trans (Machine.substitute?_eq_some_iff.2 ⟨rfl, hinteger⟩)
  obtain ⟨m', hresolve, hshifted⟩ := (resolve_resolves relaying 1 (.boolean true) rfl (by decide)
    (by decide)).found 2 (by decide) (.native ⟨0⟩) htwo rfl (by decide)
  refine ⟨m', hresolve, Array.ext_getElem? fun j => ?_, hshifted.top_eq⟩
  match j with
  | 0 => exact hshifted.below 0 Nat.one_pos
  | 1 => exact (hshifted.called 0 (by decide)).trans htwo
  | 2 => exact (hshifted.called 1 (by decide)).trans hone
  | 3 => exact hshifted.called 2 (by decide)
  | 4 => exact hshifted.arguments 2 (by decide) (by decide)
  | j + 5 =>
    rw [Array.getElem?_eq_none, Array.getElem?_eq_none]
    · exact Nat.le_add_left 5 j
    · rw [hshifted.size_stack]
      exact Nat.le_add_left 5 j

end Call

end LuaMachine
