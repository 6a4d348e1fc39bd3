import LuaMachine.Machine.Requests
import LuaMachine.Proofs.Machine.Alike
import LuaMachine.Proofs.Machine.HandlerChains
import LuaMachine.Proofs.Machine.StackEffects

/-!
# Operations in step

Stack slots are read where the states agree, and written where no slot is watched, so that
operations on slots and cells keep states alike.  So do operations with metamethods, the requests of
native functions and native functions as a whole.

## Main statements

* `Stack.inStep_copy`, `Stack.inStep_take`, `Stack.inStep_insert` and others : values that have been
  moved are the same in both states.
* `Cell.parallel_read`, `Cell.parallel_write`, `Cell.parallel_closeFrom` : shared variables.
* `Operation.parallel_index`, `Operation.parallel_arithmetic` and others : operations with
  metamethods.
* `Request.parallel_perform`, `Behaviour.parallel_run` : native functions, by induction on their
  requests.
-/

namespace LuaMachine

open Machine (Alike Akin)

variable {V : Vantage} {n k : Nat}

/-! ### The stack -/

namespace Stack

open Routine

theorem parallel_reserve (needed : Nat) : Parallel V n k (reserve needed) := by
  intro m m' h
  have hsize := h.size_stack
  obtain ⟨stack, rfl⟩ := h.exists_stack
  by_cases hle : needed ≤ m.stack.size
  · simp only [reserve, hsize, if_pos hle]
    exact ⟨_, rfl, h⟩
  · by_cases hlimit : m.limits.stackSize < needed
    · simp only [reserve, hsize, if_neg hle, if_pos hlimit]
      exact ⟨_, rfl, h⟩
    · simp only [reserve, hsize, if_neg hle, if_neg hlimit]
      exact ⟨_, rfl, h.grow _⟩

/-- Reading does not change the states. -/
theorem inStep_read {P : Machine → Machine → Prop} (hP : ∀ m m', P m m' → Alike V n k m m')
    {i : Nat} (hi : i < n) : InStep P (read i) (fun _ => P) P := by
  intro m m' h
  have hagree := (hP m m' h).agree_of_lt hi
  cases hv : m.stack[i]? with
  | none =>
    simp only [read, hagree, hv]
    exact ⟨m', rfl, h⟩
  | some v =>
    simp only [read, hagree, hv]
    exact ⟨m', rfl, h⟩

theorem parallel_read {i : Nat} (hi : i < n) : Parallel V n k (read i) :=
  inStep_read (fun _ _ h => h) hi

/-- The states agree on a slot that has been written. -/
theorem inStep_write {i : Nat} (hlevel : V.level ≤ i) (hi : i ≤ n) (v : Value) :
    InStep (Alike V n k) (write i v) (fun _ => Alike V (max n (i + 1)) k) (Alike V n k) := by
  intro m m' h
  have hsize := h.size_stack
  by_cases hlt : i < m.stack.size
  · simp only [write, hsize, if_pos hlt]
    refine ⟨_, rfl, (h.write (Vantage.kept_eq_none hlevel) v).extend fun j hj hj' => ?_⟩
    exact h.agree_write i v (.inl (by omega))
  · simp only [write, hsize, if_neg hlt]
    exact ⟨m', rfl, h⟩

theorem parallel_write {i : Nat} (hlevel : V.level ≤ i) (v : Value) :
    Parallel V n k (write i v) := by
  intro m m' h
  have hsize := h.size_stack
  by_cases hlt : i < m.stack.size
  · simp only [write, hsize, if_pos hlt]
    exact ⟨_, rfl, h.write (Vantage.kept_eq_none hlevel) v⟩
  · simp only [write, hsize, if_neg hlt]
    exact ⟨m', rfl, h⟩

/-- Writing goes on behind a slot that has been written. -/
private theorem inStep_write_then {α : Type} {i count : Nat} {v : Value} {x : Routine α}
    (hlevel : V.level ≤ i) (hi : i ≤ n)
    (hx : InStep (Alike V (max n (i + 1)) k) x
      (fun _ => Alike V (max (max n (i + 1)) (i + 1 + count)) k) (Alike V (max n (i + 1)) k)) :
    InStep (Alike V n k) (do write i v; x) (fun _ => Alike V (max n (i + (count + 1))) k)
      (Alike V n k) :=
  InStep.bind (inStep_write hlevel hi v) fun _ =>
    hx.mono (fun _ _ h => h) (fun _ _ _ h => h.mono (by omega)) fun _ _ h => h.mono (by omega)

theorem inStep_writeAll {first : Nat} (hlevel : V.level ≤ first) (hfirst : first ≤ n)
    (vs : List Value) :
    InStep (Alike V n k) (writeAll first vs) (fun _ => Alike V (max n (first + vs.length)) k)
      (Alike V n k) := by
  induction vs generalizing first n with
  | nil => exact InStep.pure fun _ _ h => h.mono (by simp [hfirst])
  | cons v rest ih => exact inStep_write_then hlevel hfirst (ih (by omega) (by omega))

theorem inStep_clear {first : Nat} (hlevel : V.level ≤ first) (hfirst : first ≤ n) (count : Nat) :
    InStep (Alike V n k) (clear first count) (fun _ => Alike V (max n (first + count)) k)
      (Alike V n k) := by
  induction count generalizing first n with
  | zero => exact InStep.pure fun _ _ h => h.mono (by simp [hfirst])
  | succ count ih => exact inStep_write_then hlevel hfirst (ih (by omega) (by omega))

theorem inStep_copy {source target available count : Nat} (hlevel : V.level ≤ target)
    (htarget : target ≤ n) (hsource : 0 < available → source + min available count ≤ n) :
    InStep (Alike V n k) (copy source target available count)
      (fun _ => Alike V (max n (target + count)) k) (Alike V n k) := by
  induction count generalizing source target available n with
  | zero => exact InStep.pure fun _ _ h => h.mono (by simp [htarget])
  | succ count ih =>
    have hrest := @ih (max n (target + 1)) (source + 1) (target + 1) (available - 1) (by omega)
      (by omega)
      (by omega)
    rw [copy]
    split
    · next h =>
      exact InStep.bind (parallel_read (by have := hsource h; omega)) fun v =>
        inStep_write_then hlevel htarget hrest
    · exact InStep.bind Parallel.pure fun v => inStep_write_then hlevel htarget hrest

theorem inStep_take {source target available count : Nat} (hlevel : V.level ≤ target)
    (htarget : target ≤ n)
    (hsource : 0 < available → V.level ≤ source ∧ source + min available count ≤ n) :
    InStep (Alike V n k) (take source target available count)
      (fun _ => Alike V (max n (target + count)) k) (Alike V n k) := by
  induction count generalizing source target available n with
  | zero => exact InStep.pure fun _ _ h => h.mono (by simp [htarget])
  | succ count ih =>
    have hrest := @ih (max n (target + 1)) (source + 1) (target + 1) (available - 1) (by omega)
      (by omega)
      (by omega)
    rw [take]
    split
    · next h =>
      have := hsource h
      exact InStep.bind (parallel_read (by omega)) fun v =>
        InStep.bind (parallel_write (by omega) .nil) fun _ => inStep_write_then hlevel htarget hrest
    · exact inStep_write_then hlevel htarget hrest

theorem parallel_readRange {first last : Nat} (hlast : last ≤ n) :
    Parallel V n k (readRange first last) := by
  intro m m' h
  have hsize := h.size_stack
  by_cases hlt : last < first
  · simp only [readRange, if_pos hlt]
    exact ⟨m', rfl, h⟩
  · by_cases hshort : m.stack.size < last
    · simp only [readRange, hsize, if_neg hlt, if_pos hshort]
      exact ⟨m', rfl, h⟩
    · have hvalues : m'.stack.extract first last = m.stack.extract first last :=
        Array.ext_getElem? fun i => by
          simp only [Array.getElem?_extract, hsize]
          split
          · exact h.agree_of_lt (by omega)
          · rfl
      simp only [readRange, hsize, if_neg hlt, if_neg hshort, hvalues]
      exact ⟨m', rfl, h⟩

/-- The values that are moved up are the same in both states. -/
theorem inStep_insert {first last : Nat} (hlevel : V.level ≤ first) (hfirst : first ≤ n)
    (hlast : last ≤ n) (v : Value) :
    InStep (Alike V n k) (insert first last v) (fun _ => Alike V (max n (last + 1)) k)
      (Alike V n k) := by
  intro m m' h
  have hread : Parallel V n k (readRange first last) := parallel_readRange hlast
  have hread := hread m m' h
  rw [insert]
  cases hvs : readRange first last m with
  | error s m₁ =>
    rw [hvs] at hread
    obtain ⟨m₁', hvs', h₁⟩ := hread
    rw [bind_of_error hvs, bind_of_error hvs']
    exact ⟨m₁', rfl, h₁⟩
  | ok vs m₁ =>
    have hlength : last ≤ first + vs.length := by
      simp only [readRange] at hvs
      split at hvs
      · cases hvs
      · split at hvs
        · cases hvs
        · cases hvs
          simp only [Array.length_toList, Array.size_extract]
          omega
    rw [hvs] at hread
    obtain ⟨m₁', hvs', h₁⟩ := hread
    rw [bind_of_ok hvs, bind_of_ok hvs']
    refine (inStep_writeAll hlevel hfirst (v :: vs)).post (fun _ _ _ h => h.mono ?_) m₁ m₁' h₁
    simp only [List.length_cons]
    omega

theorem parallel_setTop {top : Nat} (htop : top ≤ n) : Parallel V n k (setTop top) :=
  Parallel.modify fun _ _ h => h.setTop fun _ hi => h.agree_of_lt (Nat.lt_of_lt_of_le hi htop)

/-- The slots of the innermost frame are shown if there is one. -/
theorem parallel_resetTop (hk : 0 < k → V.shown < k) : Parallel V n k resetTop := by
  refine Parallel.modify fun m m' h => ?_
  have hframe : m'.frame? = m.frame? := h.apply_eq fun _ _ => rfl
  rw [hframe]
  cases hf : m.frame? with
  | none => exact h
  | some f =>
    have hlast : m.frames[k - 1]? = some f := by
      rw [← h.size_frames, ← Array.back?_eq_getElem?]
      exact hf
    have hpos : 0 < k := by
      have := (Array.getElem?_eq_some_iff.1 hlast).1
      rw [h.size_frames] at this
      omega
    have := hk hpos
    exact h.setTop fun i hi => h.agree_register (by omega) hlast hi

end Stack

/-! ### Shared variables -/

namespace Cell

open Routine

/-- The variable of a cell has one value in both states.  A name that has not been given stands for
a cell that is open at the first slot. -/
theorem value_eq_of_alike {m m' : Machine} (h : Alike V n k m m') {id : CellId}
    (hid : id.index < m.heap.cells.size ∨ 0 < n) : value m' id = value m id := by
  simp only [value, show m'.heap = m.heap from h.apply_eq fun _ _ => rfl]
  cases hcell : m.heap.cell id with
  | closed v => rfl
  | opened slot =>
    rw [Heap.cell] at hcell
    cases hc : m.heap.cells[id.index]? with
    | none =>
      rw [hc] at hcell
      obtain rfl : 0 = slot := Cell.opened.inj hcell
      simp only [h.agree_of_lt (hid.resolve_left (Nat.not_lt.2 (Array.getElem?_eq_none_iff.1 hc)))]
    | some c =>
      rw [hc, Option.getD_some] at hcell
      simp only [h.agree_cell (hcell ▸ hc)]

theorem parallel_read (hn : 0 < n) (id : CellId) : Parallel V n k (read id) :=
  fun _ m' h => ⟨m', congrArg (EStateM.Result.ok · m') (value_eq_of_alike h (.inr hn)), h⟩

/-- The variable of a cell that is not open at a watched slot is assigned. -/
theorem inStep_write (id : CellId) (v : Value) :
    InStep (fun m m' => Alike V n k m m' ∧ ∀ slot, m.heap.cell id = .opened slot →
      V.kept slot = none) (write id v) (fun _ => Alike V n k) (Alike V n k) := by
  rintro m m' ⟨h, hfree⟩
  obtain ⟨stack, rfl⟩ := h.exists_stack
  refine ⟨_, rfl, ?_⟩
  cases hcell : m.heap.cell id with
  | opened slot =>
    simp only [hcell]
    exact h.write (hfree slot hcell) v
  | closed old =>
    simp only [hcell]
    refine h.setHeap fun j slot hj => .inl ?_
    simp only [Heap.setCell, Array.getElem?_setIfInBounds] at hj
    split at hj
    · split at hj <;> cases hj
    · exact hj

theorem parallel_create (v : Value) : Parallel V n k (create (.closed v)) := by
  intro m m' h
  obtain ⟨stack, rfl⟩ := h.exists_stack
  refine ⟨_, rfl, h.setHeap fun j slot hj => .inl ?_⟩
  simp only [Array.getElem?_push] at hj
  split at hj
  · cases hj
  · exact hj

theorem parallel_capture {slot : Nat} (hslot : slot < n) : Parallel V n k (capture slot) := by
  intro m m' h
  have hagree := h.agree_of_lt hslot
  obtain ⟨stack, rfl⟩ := h.exists_stack
  rw [capture_eq, capture_eq]
  cases hfind : find? slot m.openCells with
  | some id => exact ⟨_, rfl, h⟩
  | none =>
    have hpush : Alike V n k { m with heap.cells := m.heap.cells.push (.opened slot) }
        { m with heap.cells := m.heap.cells.push (.opened slot), stack } :=
      h.setHeap fun j slot' hj => by
        rw [Array.getElem?_push] at hj
        split at hj
        · cases hj
          exact .inr hagree
        · exact .inl hj
    exact ⟨_, rfl, hpush.setOpenCells _⟩

/-- Cells that are closed keep the same values in both states. -/
theorem parallel_closeFrom (l : Nat) : Parallel V n k (closeFrom l) := by
  intro m m' h
  obtain ⟨cells, heq, hcells⟩ := closeFrom_eq l m
  obtain ⟨cells', heq', hcells'⟩ := closeFrom_eq l m'
  have hdetach : ∀ (i : Nat) (c : Cell), m.heap.cells[i]? = some c →
      c.detach m'.stack = c.detach m.stack := fun i c hc => by
    cases c with
    | closed v => rfl
    | opened slot => simp only [detach, h.agree_cell hc]
  obtain ⟨stack, rfl⟩ := h.exists_stack
  obtain rfl : cells' = cells := Array.ext_getElem? fun i => by
    rw [hcells, hcells']
    exact Option.map_congr fun c hc => by simp only [hdetach i c hc]
  rw [heq, heq']
  have hclosed : Alike V n k { m with heap.cells := cells' }
      { m with heap.cells := cells', stack } :=
    h.setHeap fun j slot hj => .inl ((opened_iff_of_closeAll hcells j slot).1 hj).1
  exact ⟨_, rfl, hclosed.setOpenCells _⟩

end Cell

/-! ### Closures -/

namespace Closure

open Routine

theorem parallel_create (proto : Prototype) (cells : List CellId) :
    Parallel V n k (create proto cells) := by
  intro m m' h
  obtain ⟨stack, rfl⟩ := h.exists_stack
  exact ⟨_, rfl, h.setObjects rfl⟩

theorem parallel_createCells (first : Value) (us : List UpvalueInfo) :
    Parallel V n k (createCells first us) := by
  induction us generalizing first with
  | nil => exact Parallel.pure
  | cons u rest ih =>
    exact (Cell.parallel_create first).bind fun _ => (ih .nil).bind fun _ => Parallel.pure

theorem parallel_load (proto : Prototype) : Parallel V n k (load proto) := by
  rw [load]
  split
  · exact Parallel.fail
  · exact Parallel.get (fun _ _ => rfl) fun _ => (parallel_createCells _ _).bind fun _ =>
      parallel_create _ _

end Closure

/-! ### Operations with metamethods -/

open Exec

namespace Operation

theorem parallel_rawGet (t : TableId) (key : Value) : Parallel V n k (rawGet t key) :=
  Parallel.gets fun _ _ => rfl

theorem parallel_rawSet (t : TableId) (key value : Value) :
    Parallel V n k (rawSet t key value) := by
  intro m m' h
  obtain ⟨stack, rfl⟩ := h.exists_stack
  simp only [rawSet]
  split
  · exact ⟨_, rfl, h.setObjects rfl⟩
  · exact ⟨_, rfl, h⟩

theorem parallel_indexChain (hk : V.depth < k) (key : Value) (c : Nat) (v : Value)
    (origin : Origin) : Parallel V n k (indexChain key c v origin) := by
  induction c generalizing v origin with
  | zero => exact Parallel.fail
  | succ c ih =>
    rw [indexChain_succ]
    refine (Parallel.gets fun _ _ => rfl).bind fun own =>
      (Parallel.gets fun _ _ => rfl).bind fun handler => ?_
    unfold indexBy
    split
    · split
      · exact Parallel.callForValue hk _ _
      · exact ih _ _
    · split
      · exact Parallel.pure
      · exact Parallel.failWith fun _ _ => rfl

theorem parallel_index (hk : V.depth < k) (v key : Value) (origin : Origin) :
    Parallel V n k (index v key origin) :=
  Parallel.state (fun _ _ => rfl) fun _ => parallel_indexChain hk _ _ _ _

theorem parallel_setIndexChain (hk : V.depth < k) (key value : Value) (c : Nat) (v : Value)
    (origin : Origin) : Parallel V n k (setIndexChain key value c v origin) := by
  induction c generalizing v origin with
  | zero => exact Parallel.fail
  | succ c ih =>
    rw [setIndexChain_succ]
    refine (Parallel.gets fun _ _ => rfl).bind fun handler => ?_
    unfold assignBy
    split
    · split
      · exact (Parallel.call hk _ _ _).bind fun _ => Parallel.pure
      · exact ih _ _
    · exact parallel_rawSet _ _ _
    · exact Parallel.failWith fun _ _ => rfl

theorem parallel_setIndex (hk : V.depth < k) (v key value : Value) (origin : Origin) :
    Parallel V n k (setIndex v key value origin) :=
  Parallel.state (fun _ _ => rfl) fun _ => parallel_setIndexChain hk _ _ _ _ _

theorem parallel_arithmetic (hk : V.depth < k) (op : Operator) (a b : Value) (oa ob : Origin) :
    Parallel V n k (arithmetic op a b oa ob) := by
  rw [arithmetic]
  split
  · exact Parallel.pure
  · exact Parallel.fail
  · exact Parallel.fail
  · refine Parallel.state (fun _ _ => rfl) fun m₀ => ?_
    split
    · exact Parallel.callForValue hk _ _
    · exact Parallel.failWith fun _ _ => rfl

theorem parallel_equal (hk : V.depth < k) (a b : Value) : Parallel V n k (equal a b) := by
  rw [equal]
  split
  · exact Parallel.pure
  · split
    · exact Parallel.pure
    · refine Parallel.state (fun _ _ => rfl) fun m₀ => ?_
      split
      · exact (Parallel.callForValue hk _ _).bind fun _ => Parallel.pure
      · exact Parallel.pure

theorem parallel_ordered? (hk : V.depth < k) (a b : Value) (e : Event) :
    Parallel V n k (ordered? a b e) := by
  refine Parallel.state (fun _ _ => rfl) fun m₀ => ?_
  split
  · exact (Parallel.callForValue hk _ _).bind fun _ => Parallel.pure
  · exact Parallel.pure

theorem parallel_less (hk : V.depth < k) (a b : Value) : Parallel V n k (less a b) := by
  rw [less]
  split
  · exact Parallel.pure
  · refine (parallel_ordered? hk a b .less).bind fun r => ?_
    split
    · exact Parallel.pure
    · exact Parallel.failWith fun _ _ => rfl

theorem parallel_lessEqual (hk : V.depth < k) (a b : Value) :
    Parallel V n k (lessEqual a b) := by
  rw [lessEqual]
  split
  · exact Parallel.pure
  · refine (parallel_ordered? hk a b .lessEqual).bind fun r => ?_
    split
    · exact Parallel.pure
    · refine (parallel_ordered? hk b a .less).bind fun r' => ?_
      split
      · exact Parallel.pure
      · exact Parallel.failWith fun _ _ => rfl

theorem parallel_length (hk : V.depth < k) (v : Value) (origin : Origin) :
    Parallel V n k (length v origin) := by
  cases v with
  | string s => exact Parallel.pure
  | _ =>
    refine Parallel.state (fun _ _ => rfl) fun m₀ => ?_
    split
    · exact Parallel.callForValue hk _ _
    · split
      · exact Parallel.gets fun _ _ => rfl
      · exact Parallel.failWith fun _ _ => rfl

theorem parallel_concatPair (hk : V.depth < k) (a b : Value) (oa ob : Origin) :
    Parallel V n k (concatPair a b oa ob) := by
  refine Parallel.state (fun _ _ => rfl) fun m₀ => ?_
  split
  · exact Parallel.callForValue hk _ _
  · exact Parallel.failWith fun _ _ => rfl

theorem parallel_concatLeft (hk : V.depth < k) (origin : Nat → Origin) (right : Value)
    (left : List Value) : Parallel V n k (concatLeft origin right left) := by
  fun_induction concatLeft origin right left with
  | case1 right => exact Parallel.pure
  | case2 right a rest h hright ih => exact ih
  | case3 right a rest h hright hleft ih => exact ih
  | case4 right a rest h hright hleft run ih => exact ih
  | case5 right a rest h ih => exact (parallel_concatPair hk _ _ _ _).bind fun v => ih v

theorem parallel_concat (hk : V.depth < k) (values : List Value) (origin : Nat → Origin) :
    Parallel V n k (concat values origin) := by
  rw [concat]
  split
  · exact Parallel.pure
  · exact parallel_concatLeft hk _ _ _

theorem parallel_render (hk : V.depth < k) (v : Value) : Parallel V n k (render v) := by
  refine Parallel.state (fun _ _ => rfl) fun m₀ => ?_
  split
  · refine (Parallel.callForValue hk _ _).bind fun s => ?_
    split
    · exact Parallel.pure
    · exact Parallel.stopped fun _ _ h => by rw [h.position_eq]
  · split
    · exact Parallel.pure
    · exact Parallel.gets fun _ _ => rfl
    · exact Parallel.pure

end Operation

/-! ### Native functions -/

theorem Metatable.parallel_assign (v : Value) (metatable : Option TableId) :
    Routine.Parallel V n k (assign v metatable) := by
  refine Routine.Parallel.modify fun m m' h => ?_
  obtain ⟨stack, rfl⟩ := h.exists_stack
  cases v with
  | object r =>
    cases r with
    | table id => exact h.setObjects rfl
    | userdata id => exact h.setObjects rfl
    | _ => exact h.setKindMetatables _
  | _ => exact h.setKindMetatables _

namespace Request

theorem parallel_add {entry : Machine → JournalEntry}
    (hentry : ∀ m m', Alike V n k m m' → entry m' = entry m) :
    Parallel V n k (Journal.add entry) := by
  intro m m' h
  have he := hentry m m' h
  obtain ⟨stack, rfl⟩ := h.exists_stack
  simp only [Journal.add, he]
  exact ⟨_, rfl, h.setNotebook _⟩

theorem complainedName?_eq {m m' : Machine} (h : Alike V n k m m') :
    complainedName? m' = complainedName? m := by
  rw [complainedName?, complainedName?, h.frameInfoAt?_eq, h.calleeName?_eq]

theorem parallel_complainAtCaller {α : Type} {cause : Machine → Cause}
    (hcause : ∀ m m', Alike V n k m m' → cause m' = cause m) :
    Parallel V n k (complainAtCaller cause : Exec α) :=
  Parallel.stopped fun m m' h => by rw [hcause m m' h, h.position_eq]

theorem parallel_silently {x : Exec Unit} (h : Parallel V n k x) : Parallel V n k (silently x) :=
  h.bind fun _ => Parallel.pure

theorem parallel_single {x : Exec Value} (h : Parallel V n k x) : Parallel V n k (single x) :=
  h.bind fun _ => Parallel.pure

/-- **Requests.** A request has the same answer in states that are alike. -/
theorem parallel_perform (hk : V.depth < k) (r : Request) : Parallel V n k r.perform := by
  cases r with
  | call f args => exact Parallel.call hk _ _ _
  | index o key => exact parallel_single (Operation.parallel_index hk _ _ _)
  | setIndex o key v => exact parallel_silently (Operation.parallel_setIndex hk _ _ _ _)
  | render v => exact parallel_single ((Operation.parallel_render hk v).bind fun _ => Parallel.pure)
  | setMetatable v mt => exact parallel_silently (Parallel.lift (Metatable.parallel_assign v mt))
  | metatable _ | typeName _ | globals | rawLength _ | unpack _ | remembered _ =>
    exact Parallel.gets fun _ _ => rfl
  | position level => exact Parallel.gets_of_eq fun _ _ h => by rw [h.position_eq]
  | traceback message level => exact Parallel.gets_of_eq fun _ _ h => by rw [h.activeTraceback_eq]
  | argumentError c text =>
    exact parallel_complainAtCaller fun _ _ h => by rw [complainedName?_eq h]
  | typeError c expected got =>
    refine parallel_complainAtCaller fun _ _ h => ?_
    rw [complainedName?_eq h, h.eq]
    rfl
  | complain text => exact parallel_complainAtCaller fun _ _ _ => rfl
  | newTable | newUserdata _ | newThread _ =>
    intro m m' h
    obtain ⟨stack, rfl⟩ := h.exists_stack
    exact ⟨_, rfl, h.setObjects rfl⟩
  | load p =>
    exact parallel_single ((Parallel.lift (Closure.parallel_load p)).bind fun _ => Parallel.pure)
  | rawGet t key => exact parallel_single (Operation.parallel_rawGet _ _)
  | rawSet t key v => exact parallel_silently (Operation.parallel_rawSet _ _ _)
  | next t key =>
    intro m m' h
    obtain ⟨stack, rfl⟩ := h.exists_stack
    simp only [perform]
    split <;> exact ⟨_, rfl, h⟩
  | remember name v =>
    intro m m' h
    obtain ⟨stack, rfl⟩ := h.exists_stack
    exact ⟨_, rfl, h.setNotebook _⟩
  | note values =>
    exact parallel_silently (parallel_add fun _ _ h => h.apply_eq fun _ _ => rfl)
  | noteCaller level =>
    exact parallel_silently (parallel_add fun _ _ h => by rw [h.frameInfoAt?_eq])
  | noteCallee => exact parallel_silently (parallel_add fun _ _ h => by rw [h.calleeName?_eq])

end Request

/-- **Native functions.** A native function takes the same course from states that are alike,
whatever it requests. -/
theorem Behaviour.parallel_run (hk : V.depth < k) (b : Behaviour) : Parallel V n k b.run := by
  induction b with
  | finish results => exact Parallel.pure
  | fail e => exact Parallel.throw
  | request r next ih =>
    exact (Request.parallel_perform hk r).attempt.bind fun answer => ih answer
  | newNative name body next _ ih =>
    intro m m' h
    obtain ⟨stack, rfl⟩ := h.exists_stack
    exact ih _ _ _ (h.setObjects rfl)

end LuaMachine
