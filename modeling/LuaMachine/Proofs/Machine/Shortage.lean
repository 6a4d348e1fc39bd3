import LuaMachine.Machine.Dispatch
import LuaMachine.Proofs.Machine.CallEffects

/-!
# Variable numbers of values that run short

An instruction whose count is zero takes the values up to the first free slot, which an earlier
instruction must have set.  Nothing relates the two: if the first free slot lies before the values
begin, there is a range that ends before it begins.

## Main definitions

* `Machine.ShortCall`, `Machine.ShortTailCall` : a call has no room for the called value.
* `Activation.Short`, `Machine.Starved` : an instruction takes values that end before they begin.

## Main statements

* `Call.enter_of_shortCall` : a call that runs short faults.
* `Call.triple_enter_of_not_shortCall` : any other call is entered or fails.
* `Machine.Starved.step` : an instruction whose values run short faults.
-/

namespace LuaMachine

theorem Value.eq_of_closure? {v : Value} {id : ClosureId} (h : v.closure? = some id) :
    v = .closure id := by
  cases v with
  | object r =>
    cases r with
    | closure id' =>
      have hid : id' = id := Option.some.inj h
      rw [hid]
    | _ => cases h
  | _ => cases h

theorem Value.closure?_eq_none_of_ne {v : Value} (h : ∀ id, v ≠ .closure id) :
    v.closure? = none :=
  Option.eq_none_iff_forall_ne_some.2 fun id hid => h id (Value.eq_of_closure? hid)

theorem Value.closure?_eq_none {v : Value} (h : v.isFunction = false) : v.closure? = none :=
  Value.closure?_eq_none_of_ne fun id hv => by
    subst hv
    cases h

namespace Machine

/-- The called value does not lie below the first free slot, and the call gets as far as to take its
arguments, or to make room for a handler. -/
def ShortCall (m : Machine) (function : Nat) : Prop :=
  ∃ v, m.stack[function]? = some v ∧
    if v.isFunction then m.top ≤ function ∧ m.frames.size < m.limits.callDepth
    else m.top < function ∧ 0 < m.limits.handlerChain ∧ (m.handler? v .call).isSome

/-- The same for a call in place of the running one, which moves a closure with its arguments. -/
def ShortTailCall (m : Machine) (function : Nat) : Prop :=
  ∃ v, m.stack[function]? = some v ∧
    if v.closure?.isSome then
      m.top < function ∨ m.top = function ∧ m.frames.size ≤ m.limits.callDepth
    else m.ShortCall function

variable {m : Machine} {function : Nat} {v : Value}

theorem not_shortCall_of_lt (h : function < m.top) : ¬m.ShortCall function := by
  rintro ⟨v, -, hv⟩
  split at hv
  · have := hv.1
    omega
  · have := hv.1
    omega

theorem not_shortTailCall_of_lt (h : function < m.top) : ¬m.ShortTailCall function := by
  rintro ⟨v, -, hv⟩
  split at hv
  · omega
  · exact not_shortCall_of_lt h hv

theorem not_shortCall_of_not_shortTailCall (hread : m.stack[function]? = some v)
    (hv : v.closure? = none) (h : ¬m.ShortTailCall function) : ¬m.ShortCall function :=
  fun hshort => h ⟨v, hread, by simpa [hv] using hshort⟩

/-- A call of a value that is no function does not run short if the value has no handler. -/
theorem no_handler_of_not_shortCall (hread : m.stack[function]? = some v)
    (hv : v.isFunction = false) (htop : m.top < function) (h : ¬m.ShortCall function) :
    m.limits.handlerChain = 0 ∨ m.handler? v .call = none := by
  rcases Nat.eq_zero_or_pos m.limits.handlerChain with hchain | hchain
  · exact .inl hchain
  · refine .inr (Option.not_isSome_iff_eq_none.1 fun hhandler => h ⟨v, hread, ?_⟩)
    rw [if_neg (by simp [hv])]
    exact ⟨htop, hchain, hhandler⟩

end Machine

namespace Call

variable {m : Machine} {function : Nat} {v : Value} {wanted : Option Nat}
  {isTailCall isFresh : Bool}

theorem read_eq (hread : m.stack[function]? = some v) : Stack.read function m = .ok v m := by
  simp only [Stack.read, hread]

/-- A function ends the search for one. -/
theorem resolveWithin_of_isFunction (hread : m.stack[function]? = some v) (hv : v.isFunction)
    (n : Nat) : resolveWithin function n m = .ok () m := by
  cases n with
  | zero => rw [resolveWithin, Routine.bind_of_ok (read_eq hread), hv]; rfl
  | succ n => rw [resolveWithin, Routine.bind_of_ok (read_eq hread), hv]; rfl

/-- The search fails at any other value if no turn is left. -/
theorem resolveWithin_zero (hread : m.stack[function]? = some v) (hv : v.isFunction = false) :
    resolveWithin function 0 m = .error (.failure (.of (.chain .call))) m := by
  rw [resolveWithin, Routine.bind_of_ok (read_eq hread), hv]
  rfl

/-- Otherwise a turn begins with the handler of the value. -/
theorem resolveWithin_succ (hread : m.stack[function]? = some v) (hv : v.isFunction = false)
    (n : Nat) :
    resolveWithin function (n + 1) m = (do insertHandler function; resolveWithin function n) m := by
  rw [resolveWithin, Routine.bind_of_ok (read_eq hread), hv]
  rfl

theorem insertHandler_of_no_handler (hread : m.stack[function]? = some v)
    (hhandler : m.handler? v .call = none) : insertHandler function m =
      .error (.failure (.of (m.operandFault "call" v (m.slotOrigin function)))) m := by
  rw [insertHandler, Routine.bind_of_ok (read_eq hread), Routine.bind_get, hhandler]
  rfl

theorem resolve_of_isFunction (hread : m.stack[function]? = some v) (hv : v.isFunction) :
    resolve function m = .ok () m :=
  resolveWithin_of_isFunction hread hv _

/-- Without a handler the value cannot be called. -/
theorem resolve_of_no_handler (hread : m.stack[function]? = some v) (hv : v.isFunction = false)
    (h : m.limits.handlerChain = 0 ∨ m.handler? v .call = none) :
    ∃ e, resolve function m = .error (.failure e) m := by
  rw [resolve, Routine.bind_get]
  cases hn : m.limits.handlerChain with
  | zero => exact ⟨_, resolveWithin_zero hread hv⟩
  | succ n =>
    have hinsert := insertHandler_of_no_handler hread (h.resolve_left (by omega))
    exact ⟨_, (resolveWithin_succ hread hv n).trans (Routine.bind_of_error hinsert)⟩

/-- A handler cannot be inserted before a value that lies above the first free slot. -/
theorem resolve_of_top_lt (hread : m.stack[function]? = some v) (hv : v.isFunction = false)
    (htop : m.top < function) (hchain : 0 < m.limits.handlerChain)
    (hhandler : (m.handler? v .call).isSome) :
    resolve function m = .error (.fault (.negativeRange function m.top)) m := by
  obtain ⟨handler, hhandler⟩ := Option.isSome_iff_exists.1 hhandler
  have hsize : m.top + 1 ≤ m.stack.size := by
    have := (Array.getElem?_eq_some_iff.1 hread).1
    omega
  have hreserve : Stack.reserve (m.top + 1) m = .ok () m := by
    simp only [Stack.reserve, if_pos hsize]
  have hrange : Stack.readRange function m.top m =
      .error (.fault (.negativeRange function m.top)) m := by
    simp only [Stack.readRange, if_pos htop]
  have hinsert : insertHandler function m =
      .error (.fault (.negativeRange function m.top)) m := by
    rw [insertHandler, Routine.bind_of_ok (read_eq hread), Routine.bind_get, hhandler]
    refine (Routine.bind_of_ok hreserve).trans (Routine.bind_of_error ?_)
    exact Routine.bind_of_error hrange
  rw [resolve, Routine.bind_get]
  obtain ⟨n, hn⟩ := Nat.exists_eq_succ_of_ne_zero (Nat.ne_of_gt hchain)
  rw [hn, resolveWithin_succ hread hv]
  exact Routine.bind_of_error hinsert

theorem checkDepth_eq : checkDepth m = if m.limits.callDepth ≤ m.frames.size then
    .error (.failure (.of .stackOverflow)) m else .ok () m := by
  rw [checkDepth, Routine.bind_get]
  split <;> rfl

/-- Arguments cannot be counted if the first free slot is not behind the called closure. -/
theorem pushClosure_of_top_le (id : ClosureId) (htop : m.top ≤ function) :
    pushClosure id function wanted isTailCall isFresh m =
      .error (if m.limits.callDepth ≤ m.frames.size then .failure (.of .stackOverflow)
        else .fault (.negativeRange (function + 1) m.top)) m := by
  unfold pushClosure
  have hdepth := checkDepth_eq (m := m)
  split at hdepth
  · next h =>
    rw [if_pos h]
    exact Routine.bind_of_error hdepth
  · next h =>
    have hcount : Stack.countFrom (function + 1) m =
        .error (.fault (.negativeRange (function + 1) m.top)) m := by
      simp only [Stack.countFrom, if_pos (Nat.lt_succ_of_le htop)]
    rw [if_neg h, Routine.bind_of_ok hdepth]
    exact Routine.bind_of_error (x := Stack.countFrom (function + 1)) hcount

/-- Nor can they be taken if it is not behind the called native function. -/
theorem runNative_of_top_le (id : NativeId) (htop : m.top ≤ function) :
    runNative id function wanted isFresh m =
      .stopped m (if m.limits.callDepth ≤ m.frames.size then .failure (.of .stackOverflow)
        else .fault (.negativeRange (function + 1) m.top)) := by
  unfold runNative
  have hdepth := checkDepth_eq (m := m)
  split at hdepth
  · next h =>
    rw [if_pos h]
    exact Exec.bind_of_error hdepth
  · next h =>
    have hrange : Stack.readRange (function + 1) m.top m =
        .error (.fault (.negativeRange (function + 1) m.top)) m := by
      simp only [Stack.readRange, if_pos (Nat.lt_succ_of_le htop)]
    rw [if_neg h]
    exact (Exec.bind_of_ok hdepth).trans ((Exec.bind_of_ok (x := Stack.top) rfl).trans
      (Exec.bind_of_error hrange))

/-- A function that does not lie below the first free slot cannot be called. -/
theorem enter_of_top_le (hread : m.stack[function]? = some v) (hv : v.isFunction)
    (htop : m.top ≤ function) :
    enter function wanted isFresh m =
      .stopped m (if m.limits.callDepth ≤ m.frames.size then .failure (.of .stackOverflow)
        else .fault (.negativeRange (function + 1) m.top)) := by
  unfold enter
  refine (Exec.bind_of_ok (resolve_of_isFunction hread hv)).trans
    ((Exec.bind_of_ok (read_eq hread)).trans ?_)
  split
  · next id => exact Exec.bind_of_error (pushClosure_of_top_le id htop)
  · next id => exact runNative_of_top_le id htop
  · next hclosure hnative =>
    cases v with
    | object r =>
      cases r with
      | closure id => exact absurd rfl (hclosure id)
      | native id => exact absurd rfl (hnative id)
      | _ => cases hv
    | _ => cases hv

/-- **Calls that run short.** There is no room for the called value or its handler. -/
theorem enter_of_shortCall (h : m.ShortCall function) :
    ∃ first last, last < first ∧
      enter function wanted isFresh m = .stopped m (.fault (.negativeRange first last)) := by
  obtain ⟨v, hread, hv⟩ := h
  split at hv
  · next hfunction =>
    obtain ⟨htop, hdepth⟩ := hv
    rw [enter_of_top_le hread hfunction htop, if_neg (Nat.not_le.2 hdepth)]
    exact ⟨_, _, Nat.lt_succ_of_le htop, rfl⟩
  · next hfunction =>
    obtain ⟨htop, hchain, hhandler⟩ := hv
    rw [Bool.not_eq_true] at hfunction
    exact ⟨_, _, htop,
      Exec.bind_of_error (resolve_of_top_lt hread hfunction htop hchain hhandler)⟩

variable {level : Nat} {m₀ : Machine} {fs : Array Frame} {free : Nat}

/-- **Calls that do not run short.** A call is entered or fails if it does not run short. -/
theorem triple_enter_of_not_shortCall (hlevel : level ≤ function) (hsite : Site m₀ fs function) :
    Exec.Triple (balancedFrom m₀)
      (fun m => Held level m₀ fs free m ∧ function < m.stack.size ∧ ¬m.ShortCall function)
      (enter function wanted isFresh) (Entered level m₀ fs function wanted isFresh)
      (Stop.Spares (Refused level m₀ fs)) := by
  rintro m ⟨hm, hlt, hshort⟩
  have hrefused : Refused level m₀ fs m := .of_frames_eq ⟨hm.evolves, hm.frames⟩
  have hread : m.stack[function]? = some m.stack[function] := Array.getElem?_eq_getElem hlt
  cases hv : m.stack[function].isFunction with
  | true =>
    by_cases htop : m.top ≤ function
    · rw [enter_of_top_le hread hv htop, if_pos]
      · exact hrefused
      · refine Nat.le_of_not_lt fun hdepth => hshort ⟨_, hread, ?_⟩
        rw [if_pos hv]
        exact ⟨htop, hdepth⟩
    · refine triple_enter hlevel hsite (Nat.le_of_not_le htop) m ?_
      exact { evolves := hm.evolves, frames := hm.frames, top := rfl, function_lt := hlt
              not_isFunction := fun h => absurd (Nat.le_of_eq h) htop }
  | false =>
    by_cases htop : m.top < function
    · obtain ⟨e, he⟩ := resolve_of_no_handler hread hv
        (Machine.no_handler_of_not_shortCall hread hv htop hshort)
      have henter : enter function wanted isFresh m = .stopped m (.failure e) :=
        Exec.bind_of_error he
      rw [henter]
      exact hrefused
    · refine triple_enter hlevel hsite (Nat.le_of_not_lt htop) m ?_
      exact { evolves := hm.evolves, frames := hm.frames, top := rfl, function_lt := hlt
              not_isFunction := fun _ v h => by
                rw [← Option.some.inj (hread.symm.trans h)]
                exact hv }

/-- After the search for handlers, a call in place of the running one still does not run short. -/
theorem triple_resolve_of_not_shortTailCall {s : Machine} (hs : s.Sound)
    (hlt : function < s.stack.size) (hshort : ¬s.ShortTailCall function) :
    Routine.Triple (fun m => m = s) (resolve function)
      (fun _ m => (s.Evolves level m ∧ m.frames = s.frames) ∧ function < m.stack.size ∧
        ¬m.ShortTailCall function)
      (Stop.Spares fun m => s.Evolves level m ∧ m.frames = s.frames) := by
  rintro m rfl
  have hsame : m.Evolves level m ∧ m.frames = m.frames := ⟨.refl hs, rfl⟩
  have hread : m.stack[function]? = some m.stack[function] := Array.getElem?_eq_getElem hlt
  cases hv : m.stack[function].isFunction with
  | true =>
    rw [resolve_of_isFunction hread hv]
    exact ⟨hsame, hlt, hshort⟩
  | false =>
    by_cases htop : m.top < function
    · obtain ⟨e, he⟩ := resolve_of_no_handler hread hv (Machine.no_handler_of_not_shortCall hread hv
        htop (Machine.not_shortCall_of_not_shortTailCall hread (Value.closure?_eq_none hv) hshort))
      rw [he]
      exact hsame
    · have hcallable : Callable level m m.frames function m.top m :=
        { evolves := .refl hs, frames := rfl, top := rfl, function_lt := hlt
          not_isFunction := fun _ v h => by
            rw [← Option.some.inj (hread.symm.trans h)]
            exact hv }
      refine (triple_resolve (Nat.le_of_not_lt htop)).post
        (fun _ m' h => ⟨⟨h.evolves, h.frames⟩, ?_, Machine.not_shortTailCall_of_lt h.function_lt⟩)
        m hcallable
      exact Nat.lt_of_lt_of_le h.function_lt h.evolves.sound.top_le

/-- A closure that is called in place of the running one must lie below the first free slot. -/
theorem replace_of_top_le {g : Frame} (id : ClosureId)
    (h : m.top < function ∨ m.top = function ∧ m.frames.size - 1 < m.limits.callDepth) :
    ∃ m' first last, last < first ∧
      replace g id function m = .error (.fault (.negativeRange first last)) m' := by
  obtain ⟨cells, hclose, -⟩ := Cell.closeFrom_eq g.base m
  unfold replace
  rw [Routine.bind_of_ok hclose]
  generalize hm' : ({ m with
    heap := { m.heap with cells }
    openCells := m.openCells.dropWhile fun e => g.base ≤ e.1 } : Machine) = m'
  have htop : m'.top = m.top := hm' ▸ rfl
  rcases h with h | ⟨h, hdepth⟩
  · have hcount : Stack.countFrom function m' =
        .error (.fault (.negativeRange function m'.top)) m' := by
      simp only [Stack.countFrom, if_pos (htop ▸ h)]
    exact ⟨_, _, _, htop ▸ h, Routine.bind_of_error hcount⟩
  · have hcount : Stack.countFrom function m' = .ok 0 m' := by
      simp only [Stack.countFrom, htop, h, Nat.lt_irrefl, if_false, Nat.sub_self]
    let m'' : Machine := { m' with top := g.function + 0, frames := m'.frames.pop }
    have hframes : m''.frames.size = m.frames.size - 1 := by simp [m'', ← hm']
    have hlimits : m''.limits = m.limits := by simp [m'', ← hm']
    have hpush : pushClosure id g.function g.wanted true g.isFresh m'' =
        .error (if m''.limits.callDepth ≤ m''.frames.size then .failure (.of .stackOverflow)
          else .fault (.negativeRange (g.function + 1) m''.top)) m'' :=
      pushClosure_of_top_le id (Nat.le_refl g.function)
    rw [hframes, hlimits, if_neg (Nat.not_le.2 hdepth)] at hpush
    exact ⟨m'', _, _, Nat.lt_succ_self _, (Routine.bind_of_ok hcount).trans hpush⟩

end Call

/-! ### The step of an instruction -/

namespace Dispatch

variable {m : Machine} {f : Frame} {c : Closure} {i : Instruction} {op : Opcode}

theorem innermost_eq (hf : m.frame? = some f) (hc : m.closureOf? f = some c) :
    innermost m = .ok ⟨f, c⟩ m := by
  simp only [innermost, hf, hc]

theorem fetch_eq (hi : c.proto.code[f.pc]? = some i) : fetch ⟨f, c⟩ m = .ok i { m with
    frames := m.frames.modify (m.frames.size - 1) fun f => { f with pc := f.pc + 1 } } := by
  simp only [fetch, hi]
  rfl

theorem pay_eq (hbudget : m.budget ≠ some 0) :
    pay m = .ok () { m with budget := m.budget.map (· - 1) } := by
  simp only [pay]
  split
  · next h => rw [h, Option.map_none, ← h]
  · next h => exact absurd h hbudget
  · next h => rw [h, Option.map_some, Nat.succ_sub_one]

/-- Behind the last instruction there is nothing to execute. -/
theorem step_of_endOfCode (hf : m.frame? = some f) (hc : m.closureOf? f = some c)
    (hi : c.proto.code[f.pc]? = none) :
    step m = .stopped m (.failure (.of (.endOfCode f.pc))) := by
  have hfetch : fetch ⟨f, c⟩ m = .error (.failure (.of (.endOfCode f.pc))) m := by
    simp only [fetch, hi]
    rfl
  exact (Exec.bind_of_ok (innermost_eq hf hc)).trans (Exec.bind_of_error hfetch)

/-- An instruction that cannot be paid for is not executed. -/
theorem step_of_exhausted (hf : m.frame? = some f) (hc : m.closureOf? f = some c)
    (hi : c.proto.code[f.pc]? = some i) (hbudget : m.budget = some 0) :
    step m = .stopped { m with
        frames := m.frames.modify (m.frames.size - 1) fun f => { f with pc := f.pc + 1 } }
      (.failure (.of .budgetExhausted)) := by
  have hpay : ∀ frames, pay { m with frames } =
      .error (.failure (.of .budgetExhausted)) { m with frames } := fun frames => by
    simp only [pay, hbudget]
  exact (Exec.bind_of_ok (innermost_eq hf hc)).trans ((Exec.bind_of_ok (fetch_eq hi)).trans
    (Exec.bind_of_error (hpay _)))

/-- The next instruction is executed in a state in which the one behind it is selected and it has
been paid for. -/
theorem step_eq (hf : m.frame? = some f) (hc : m.closureOf? f = some c)
    (hi : c.proto.code[f.pc]? = some i) (hbudget : m.budget ≠ some 0)
    (hop : i.opcode? = some op) :
    step m = (Activation.mk { f with pc := f.pc + 1 } c).execute op i { m with
      frames := m.frames.modify (m.frames.size - 1) fun f => { f with pc := f.pc + 1 }
      budget := m.budget.map (· - 1) } := by
  have hfetch := fetch_eq (m := m) hi
  generalize hm' : ({ m with
    frames := m.frames.modify (m.frames.size - 1) fun f => { f with pc := f.pc + 1 } } : Machine) = m'
    at hfetch
  have hbudget' : m'.budget ≠ some 0 := hm' ▸ hbudget
  unfold step
  refine (Exec.bind_of_ok (innermost_eq hf hc)).trans ((Exec.bind_of_ok hfetch).trans
    ((Exec.bind_of_ok (pay_eq hbudget')).trans ?_))
  rw [hop, ← hm']

end Dispatch

namespace Machine

variable {m m' : Machine} {function : Nat}

/-- Whether a call runs short depends neither on the selection nor on the budget. -/
theorem ShortCall.congr (h : m.ShortCall function) {frames : Array Frame} {budget : Option Nat}
    (hframes : frames.size = m.frames.size) :
    ShortCall { m with frames, budget } function := by
  obtain ⟨v, hread, hv⟩ := h
  rw [← hframes] at hv
  exact ⟨v, hread, hv⟩

theorem ShortTailCall.congr (h : m.ShortTailCall function) {frames : Array Frame}
    {budget : Option Nat} (hframes : frames.size = m.frames.size) :
    ShortTailCall { m with frames, budget } function := by
  obtain ⟨v, hread, hv⟩ := h
  refine ⟨v, hread, ?_⟩
  split at hv
  · next hclosure =>
    rw [← hframes] at hv
    rw [if_pos hclosure]
    exact hv
  · next hclosure =>
    rw [if_neg hclosure]
    exact hv.congr hframes

end Machine

namespace Activation

variable {a : Activation} {m : Machine} {i : Instruction}

theorem setArguments_of_zero (hb : i.b = 0) : a.setArguments i m = .ok () m := by
  simp only [setArguments, hb]
  rfl

/-- A tail call that runs short faults. -/
theorem tailCall_of_short (hb : i.b = 0) (hsize : 0 < m.frames.size)
    (h : m.ShortTailCall (a.slot i.a)) :
    ∃ m' first last, last < first ∧
      a.tailCall i m = .stopped m' (.fault (.negativeRange first last)) := by
  obtain ⟨v, hread, hv⟩ := h
  unfold tailCall
  rw [Exec.bind_of_ok (setArguments_of_zero hb)]
  cases hfunction : v.isFunction with
  | true =>
    rw [Exec.bind_of_ok (Call.resolve_of_isFunction hread hfunction),
      Exec.bind_of_ok (Call.read_eq hread)]
    split at hv
    · next hclosure =>
      obtain ⟨id, hid⟩ := Option.isSome_iff_exists.1 hclosure
      obtain ⟨m', first, last, hlt, hreplace⟩ := Call.replace_of_top_le (g := a.frame) id
        (hv.imp_right fun h => ⟨h.1, by omega⟩)
      rw [Value.eq_of_closure? hid]
      exact ⟨m', first, last, hlt, Exec.bind_of_error hreplace⟩
    · next hclosure =>
      have henter : ∃ first last, last < first ∧ Call.enter (a.slot i.a) none false m =
          .stopped m (.fault (.negativeRange first last)) := Call.enter_of_shortCall hv
      obtain ⟨first, last, hlt, henter⟩ := henter
      refine ⟨m, first, last, hlt, ?_⟩
      split
      · exact absurd rfl hclosure
      · exact henter
  | false =>
    rw [if_neg (by simp [Value.closure?_eq_none hfunction])] at hv
    obtain ⟨v', hread', hv⟩ := hv
    obtain rfl : v = v' := Option.some.inj (hread.symm.trans hread')
    rw [if_neg (by simp [hfunction])] at hv
    exact ⟨_, _, _, hv.1, Exec.bind_of_error
      (Call.resolve_of_top_lt hread hfunction hv.1 hv.2.1 hv.2.2)⟩

/-- A return that runs short faults. -/
theorem ret_of_short (hb : i.b = 0) (h : m.top < a.slot i.a) :
    (Exec.ofRoutine (a.ret i)) m = .stopped m (.fault (.negativeRange (a.slot i.a) m.top)) := by
  have hcount : a.resultCount i m = .error (.fault (.negativeRange (a.slot i.a) m.top)) m := by
    simp [resultCount, hb, Stack.countFrom, h]
  have hret : a.ret i m = .error (.fault (.negativeRange (a.slot i.a) m.top)) m :=
    Routine.bind_of_error hcount
  rw [Exec.ofRoutine, hret]

/-- So does the storing of items. -/
theorem setList_of_short (hb : i.b = 0) (h : m.top ≤ a.slot i.a) :
    simply (a.setList i) m = .stopped m (.fault (.negativeRange (a.slot i.a + 1) m.top)) := by
  have hcount : a.itemCount i m =
      .error (.fault (.negativeRange (a.slot i.a + 1) m.top)) m := by
    simp only [itemCount, if_pos hb, Stack.countFrom, if_pos (Nat.lt_succ_of_le h)]
  exact Exec.bind_of_error (Routine.bind_of_error hcount)

end Activation

/-! ### Starved states -/

/-- An instruction takes the values up to the first free slot, and they end before they begin. -/
def Activation.Short (a : Activation) (i : Instruction) (op : Opcode) (m : Machine) : Prop :=
  i.b = 0 ∧ match op with
    | .call => m.ShortCall (a.slot i.a)
    | .tailCall => m.ShortTailCall (a.slot i.a)
    | .ret => m.top < a.slot i.a
    | .setList => m.top ≤ a.slot i.a
    | _ => False

/-- The next instruction can be paid for and runs short. -/
def Machine.Starved (m : Machine) : Prop :=
  ∃ f c i op, m.frame? = some f ∧ m.closureOf? f = some c ∧ c.proto.code[f.pc]? = some i ∧
    i.opcode? = some op ∧ m.budget ≠ some 0 ∧ (Activation.mk f c).Short i op m

/-- An instruction that runs short faults. -/
theorem Activation.Short.execute {a : Activation} {i : Instruction} {op : Opcode} {m : Machine}
    (hsize : 0 < m.frames.size) (h : a.Short i op m) :
    ∃ m' first last, last < first ∧
      a.execute op i m = .stopped m' (.fault (.negativeRange first last)) := by
  obtain ⟨hb, h⟩ := h
  cases op with
  | call =>
    obtain ⟨first, last, hlt, henter⟩ := Call.enter_of_shortCall h
    exact ⟨m, first, last, hlt, (Exec.bind_of_ok (setArguments_of_zero hb)).trans henter⟩
  | tailCall => exact tailCall_of_short hb hsize h
  | ret => exact ⟨_, _, _, h, ret_of_short hb h⟩
  | setList => exact ⟨_, _, _, Nat.lt_succ_of_le h, setList_of_short hb h⟩
  | _ => exact h.elim

/-- Whether an instruction runs short depends neither on the selection nor on the budget. -/
theorem Activation.Short.congr {a : Activation} {i : Instruction} {op : Opcode} {m : Machine}
    (h : a.Short i op m) {frames : Array Frame} {budget : Option Nat} {pc : Nat}
    (hframes : frames.size = m.frames.size) :
    (Activation.mk { a.frame with pc } a.closure).Short i op { m with frames, budget } := by
  obtain ⟨hb, h⟩ := h
  refine ⟨hb, ?_⟩
  cases op with
  | call => exact Machine.ShortCall.congr h hframes
  | tailCall => exact Machine.ShortTailCall.congr h hframes
  | _ => exact h

/-- **Values that run short.** An instruction that takes a variable number of values faults if they
end before they begin. -/
theorem Machine.Starved.step {m : Machine} (h : m.Starved) :
    ∃ m' first last, last < first ∧
      Dispatch.step m = .stopped m' (.fault (.negativeRange first last)) := by
  obtain ⟨f, c, i, op, hf, hc, hi, hop, hbudget, h⟩ := h
  have hstep := Dispatch.step_eq hf hc hi hbudget hop
  rw [hstep]
  refine Activation.Short.execute ?_ (h.congr Array.size_modify)
  obtain ⟨fs, hfs⟩ := Array.back?_eq_some_iff.1 hf
  simp [hfs]

end LuaMachine
