import LuaMachine.Proofs.Machine.HandlerChains
import LuaMachine.Proofs.Table.FiniteMap

/-!
# Chains of handlers

A value that has nothing of its own at a key leaves an access to its handler.  If that is a function
it is called, and otherwise the access starts afresh at the handler.  Metatables may refer to each
other at will, so that an access may run in circles; a limit bounds the number of values that it
visits.

All of this reads the state alone.  So the values that an access visits are a function of the state
before it (`Machine.visited?`), the loop that follows the handlers stands at the `i`-th of them
after `i` turns, and what an access does is read off the first value that does not pass it on.

## Main definitions

* `Machine.visited?` : the values that an access visits, by number.
* `Machine.Decides` : a value does not pass an access on.
* `Machine.Written` : the state after a write to one key of one table.
* `Operation.Assigns` : what an assignment may come to, by where the visit ends.
* `Operation.Reads` : what the reading of an index may come to.

## Main statements

* `Machine.exists_decides_or_visited` : an access ends at a value that decides it or visits more
  values than any bound.
* `Operation.turns_of_visited` : the loop of an access along the values that it visits.
* `Operation.setIndex_assigns` : an assignment writes to one key of one table, or calls one
  function, or fails and leaves everything as it was.
* `Operation.index_reads` : reading an index gives what the first table that has something at the
  key has there, or nil, or what one function gives, or it fails.
* `Operation.setIndex_circle`, `Operation.index_circle` : an access that comes to a circle of
  handlers fails.
-/

namespace LuaMachine

theorem Value.table?_eq_some_iff {v : Value} {t : TableId} : v.table? = some t ↔ v = .table t := by
  unfold table?
  split
  · simp
  · next h => simpa using h t

theorem Heap.table_modifyTable (h : Heap) (t u : TableId) (f : Table → Table) :
    (h.modifyTable t f).table u =
      if t = u ∧ u.index < h.tables.size then f (h.table u) else h.table u := by
  have hindex : t.index = u.index ↔ t = u := by
    cases t
    cases u
    simp
  simp only [table, modifyTable, Array.getElem?_modify, hindex]
  split
  · next ht =>
    by_cases hu : u.index < h.tables.size <;> simp [ht, hu]
  · next ht => simp [ht]

namespace Machine

variable {m : Machine} {e : Event} {key v w : Value}

/-! ### The values that an access visits -/

/-- The value that an access to `v` visits after `n` others: handlers take over from one another as
long as they are no functions. -/
def visited? (m : Machine) (e : Event) (key v : Value) : Nat → Option Value
  | 0 => some v
  | n + 1 =>
    match m.successor? e key v with
    | some handler => if handler.isFunction then none else m.visited? e key handler n
    | none => none

/-- A value decides an access if it asks no handler or one that is a function. -/
def Decides (m : Machine) (e : Event) (key w : Value) : Prop :=
  ∀ handler, m.successor? e key w = some handler → handler.isFunction = true

/-- A value that is no table has nothing of its own, so that it always asks its handler. -/
theorem successor?_of_table?_eq_none (h : w.table? = none) :
    m.successor? e key w = m.handler? w e := by
  refine if_pos (Value.isNil_iff.2 ?_)
  unfold ownValue
  split
  · next t => nomatch h
  · rfl

theorem visited?_succ {handler : Value} (h : m.successor? e key v = some handler)
    (hfunction : handler.isFunction = false) (n : Nat) :
    m.visited? e key v (n + 1) = m.visited? e key handler n := by
  rw [visited?, h]
  exact if_neg (by simp [hfunction])

/-- The first value has handed the access over to the next if any other is visited. -/
theorem exists_successor_of_visited {n : Nat} (h : m.visited? e key v (n + 1) = some w) :
    ∃ handler, m.successor? e key v = some handler ∧ handler.isFunction = false ∧
      m.visited? e key handler n = some w := by
  cases hs : m.successor? e key v with
  | none => simp [visited?, hs] at h
  | some handler =>
    cases hf : handler.isFunction with
    | true => simp [visited?, hs, hf] at h
    | false => exact ⟨handler, rfl, hf, (visited?_succ hs hf n).symm.trans h⟩

/-- **Every access ends or goes on.** An access is decided among the first `n` values that it
visits, or it visits another one after them, as it does in a circle. -/
theorem exists_decides_or_visited (m : Machine) (e : Event) (key v : Value) (n : Nat) :
    (∃ i < n, ∃ w, m.visited? e key v i = some w ∧ m.Decides e key w) ∨
      ∃ w, m.visited? e key v n = some w := by
  induction n generalizing v with
  | zero => exact .inr ⟨v, rfl⟩
  | succ n ih =>
    by_cases hdecides : m.Decides e key v
    · exact .inl ⟨0, Nat.succ_pos n, v, rfl, hdecides⟩
    · obtain ⟨handler, hs, hf⟩ : ∃ handler, m.successor? e key v = some handler ∧
          handler.isFunction = false := by simpa [Decides] using hdecides
      obtain ⟨i, hi, w, hw, hd⟩ | ⟨w, hw⟩ := ih handler
      · exact .inl ⟨i + 1, Nat.succ_lt_succ hi, w, (visited?_succ hs hf i).trans hw, hd⟩
      · exact .inr ⟨w, (visited?_succ hs hf n).trans hw⟩

/-- An access that comes to a circle of handlers never ends. -/
theorem exists_visited_of_circle {k n : Nat} (hreached : m.visited? e key v k = some w)
    (hcircle : m.visited? e key w (n + 1) = some w) (i : Nat) :
    ∃ u, m.visited? e key v i = some u := by
  induction i generalizing v k with
  | zero => exact ⟨v, rfl⟩
  | succ i ih =>
    -- the circle leads from its own value back to it, so that there is always a next value
    obtain ⟨j, hj⟩ : ∃ j, m.visited? e key v (j + 1) = some w := by
      cases k with
      | zero =>
        obtain rfl := Option.some.inj hreached
        exact ⟨n, hcircle⟩
      | succ k => exact ⟨k, hreached⟩
    obtain ⟨handler, hs, hf, hrest⟩ := exists_successor_of_visited hj
    rw [visited?_succ hs hf]
    exact ih hrest

/-! ### Writing to one table -/

/-- `m'` is the state after a write to one key of one table. -/
structure Written (m : Machine) (t : TableId) (k : Key) (value : Value) (m' : Machine) : Prop where
  /-- Nothing but tables has changed, and there are as many as before. -/
  tables : ∃ tables : Array Table, tables.size = m.heap.tables.size ∧
    m' = { m with heap := { m.heap with tables } }
  /-- Other tables are as before. -/
  others : ∀ u ≠ t, m'.heap.table u = m.heap.table u
  /-- The table has the metatable that it had. -/
  metatable : (m'.heap.table t).metatable = (m.heap.table t).metatable
  /-- The key has the value and the other keys have theirs.  A name for which the heap has no table
  is never handed out; there is nothing to write to. -/
  keys : t.index < m.heap.tables.size → ∀ k',
    (m'.heap.table t).getKey k' = if k = k' then value else (m.heap.table t).getKey k'

theorem written_setKey (m : Machine) (t : TableId) (k : Key) (value : Value) :
    m.Written t k value { m with heap := m.heap.modifyTable t (·.setKey k value) } where
  tables := ⟨_, Array.size_modify, rfl⟩
  others u hu := (m.heap.table_modifyTable ..).trans (if_neg fun h => hu h.1.symm)
  metatable := by
    simp only [Heap.table_modifyTable]
    split
    · exact Table.metatable_setKey ..
    · rfl
  keys ht k' := by
    simp only [Heap.table_modifyTable, ht, and_self, if_true]
    exact Table.getKey_setKey ..

end Machine

namespace Operation

open Machine

variable {m : Machine} {key value v w : Value} {origin : Origin}

/-! ### The loop of an access -/

/-- After `i` turns a loop along the handlers stands at the value visited after `i` others. -/
theorem turns_of_visited {α : Type} {e : Event} {loop : Nat → Value → Origin → Exec α}
    (hpass : ∀ n v origin handler, m.successor? e key v = some handler →
      handler.isFunction = false → loop (n + 1) v origin m = loop n handler .unknown m)
    {i : Nat} (h : m.visited? e key v i = some w) (n : Nat) :
    loop (i + n) v origin m = loop n w (if i = 0 then origin else .unknown) m := by
  induction i generalizing v origin with
  | zero =>
    obtain rfl : v = w := Option.some.inj h
    rw [Nat.zero_add, if_pos rfl]
  | succ i ih =>
    obtain ⟨handler, hs, hf, hrest⟩ := exists_successor_of_visited h
    rw [Nat.add_right_comm i 1 n, if_neg (Nat.succ_ne_zero i)]
    calc loop (i + n + 1) v origin m
      _ = loop (i + n) handler .unknown m := hpass (i + n) v origin handler hs hf
      _ = loop n w .unknown m := by rw [ih hrest, ite_self]

/-- The limit allows for a turn at every value that is visited within it. -/
theorem exists_turn {i limit : Nat} (h : i < limit) : ∃ n, limit = i + (n + 1) :=
  ⟨limit - i - 1, by omega⟩

/-! ### Assignment -/

/-- A value that is no table has nothing to write to. -/
theorem assignBy_none (h : v.table? = none) (n : Nat) :
    assignBy key value n v origin none = .failWith fun m => m.operandFault "index" v origin := by
  unfold assignBy
  split
  · next hhandler _ => nomatch hhandler
  · next t _ _ => nomatch h
  · rfl

/-- After `i` turns the loop stands at the value that is visited after `i` others. -/
theorem setIndexChain_visited {i : Nat} (h : m.visited? .newIndex key v i = some w) (n : Nat) :
    setIndexChain key value (i + n) v origin m =
      setIndexChain key value n w (if i = 0 then origin else .unknown) m := by
  refine turns_of_visited (fun n v origin handler hs hf => ?_) h n
  calc setIndexChain key value (n + 1) v origin m
    _ = assignBy key value n v origin (m.successor? .newIndex key v) m :=
      congrFun (setIndexChain_succ ..) m
    _ = setIndexChain key value n handler .unknown m := by simp [hs, assignBy, hf]

/-- An assignment comes to what becomes of it at any of the values that it visits within the
limit. -/
theorem setIndex_eq_assignBy (value : Value) (origin : Origin) {i : Nat}
    (hi : i < m.limits.handlerChain) (h : m.visited? .newIndex key v i = some w) :
    ∃ n, setIndex v key value origin m =
      assignBy key value n w (if i = 0 then origin else .unknown) (m.successor? .newIndex key w)
        m := by
  obtain ⟨n, hn⟩ := exists_turn hi
  refine ⟨n, ?_⟩
  calc setIndex v key value origin m
    _ = setIndexChain key value (i + (n + 1)) v origin m := by rw [← hn]; rfl
    _ = setIndexChain key value (n + 1) w (if i = 0 then origin else .unknown) m :=
      setIndexChain_visited h (n + 1)
    _ = _ := congrFun (setIndexChain_succ ..) m

/-- A value that decides an assignment lets it fail only before anything is written. -/
theorem eq_of_assignBy_stopped {n : Nat} {m' : Machine} {s : Stop}
    (hdecides : m.Decides .newIndex key w)
    (h : assignBy key value n w origin (m.successor? .newIndex key w) m = .stopped m' s) :
    m' = m := by
  cases hs : m.successor? .newIndex key w with
  | some f =>
    simp only [hs, assignBy, hdecides f hs, if_true] at h
    nomatch h
  | none =>
    rw [hs] at h
    cases ht : w.table? with
    | none =>
      rw [assignBy_none ht] at h
      cases h
      rfl
    | some t =>
      obtain rfl := Value.table?_eq_some_iff.1 ht
      cases hk : Key.ofValue key with
      | ok k => simp [assignBy, rawSet, hk] at h
      | error fault =>
        simp only [assignBy, rawSet, hk, Resumption.stopped.injEq] at h
        exact h.1.symm

/-- What an assignment may come to.  The values that it visits tell which of the cases it is; in
each of them `m` is the state that the assignment starts from. -/
structure Assigns (m : Machine) (v key value : Value) (origin : Origin) (r : Resumption Unit) :
    Prop where
  /-- A table that holds the key or has no handler is written to at the key. -/
  written : ∀ i < m.limits.handlerChain, ∀ t k, m.visited? .newIndex key v i = some (.table t) →
    m.successor? .newIndex key (.table t) = none → Key.ofValue key = .ok k →
    ∃ m', r = .done m' () ∧ m.Written t k value m'
  /-- It rejects nil and NaN. -/
  rejected : ∀ i < m.limits.handlerChain, ∀ t fault,
    m.visited? .newIndex key v i = some (.table t) →
    m.successor? .newIndex key (.table t) = none → Key.ofValue key = .error fault →
    (fault = .nil ∧ key = .nil ∨
      fault = .nan ∧ ∃ bits negative, key = .float bits ∧ Binary64.ofBits bits = .nan negative) ∧
    r = .stopped m (.failure (.of (.key fault)))
  /-- Any other value without a handler cannot be indexed; the first value has an origin. -/
  unindexable : ∀ i < m.limits.handlerChain, ∀ w, m.visited? .newIndex key v i = some w →
    w.table? = none → m.successor? .newIndex key w = none →
    r = .stopped m (.failure (.of
      (m.operandFault "index" w (if i = 0 then origin else .unknown))))
  /-- A function is called once, its results are dropped, and its failure is that of the
  assignment. -/
  called : ∀ i < m.limits.handlerChain, ∀ w f, m.visited? .newIndex key v i = some w →
    m.successor? .newIndex key w = some f → f.isFunction = true →
    ∃ next, r = .waiting m f [w, key, value] (some 0) next ∧
      (∀ m' results, next m' (.ok results) = .done m' ()) ∧
      ∀ m' e, next m' (.error e) = .stopped m' (.failure e)
  /-- An assignment that visits more values than the limit allows fails. -/
  endless : (m.visited? .newIndex key v m.limits.handlerChain).isSome = true →
    r = .stopped m (.failure (.of (.chain .newIndex)))
  /-- These are all cases. -/
  decided : (∃ i < m.limits.handlerChain, ∃ w, m.visited? .newIndex key v i = some w ∧
      m.Decides .newIndex key w) ∨
    (m.visited? .newIndex key v m.limits.handlerChain).isSome = true
  /-- A failure leaves the state as it was. -/
  unchanged : ∀ m' s, r = .stopped m' s → m' = m

/-- **Assignment.** An assignment goes along the handlers to the first value that decides it,
however metatables refer to each other.  There it writes to one key of one table, or it calls one
function and writes nothing itself, or it fails and nothing has changed.  It fails in the same way
when no value within the limit decides. -/
theorem setIndex_assigns (m : Machine) (v key value : Value) (origin : Origin) :
    Assigns m v key value origin (setIndex v key value origin m) where
  written i hi t k hvisited hs hk := by
    obtain ⟨n, h⟩ := setIndex_eq_assignBy value origin hi hvisited
    rw [h, hs]
    refine ⟨_, ?_, written_setKey m t k value⟩
    simp only [assignBy, rawSet, hk]
  rejected i hi t fault hvisited hs hk := by
    obtain ⟨n, h⟩ := setIndex_eq_assignBy value origin hi hvisited
    refine ⟨Key.ofValue_eq_error_iff.1 hk, ?_⟩
    rw [h, hs]
    simp only [assignBy, rawSet, hk]
  unindexable i hi w hvisited htable hs := by
    obtain ⟨n, h⟩ := setIndex_eq_assignBy value origin hi hvisited
    rw [h, hs, assignBy_none htable]
    rfl
  called i hi w f hvisited hs hf := by
    obtain ⟨n, h⟩ := setIndex_eq_assignBy value origin hi hvisited
    rw [h, hs]
    simp only [assignBy, hf, if_true]
    exact ⟨_, rfl, fun m' results => rfl, fun m' e => rfl⟩
  endless h := by
    obtain ⟨w, hw⟩ := Option.isSome_iff_exists.1 h
    exact setIndexChain_visited hw 0
  decided := (exists_decides_or_visited m .newIndex key v _).imp_right Option.isSome_iff_exists.2
  unchanged m' s h := by
    obtain ⟨i, hi, w, hvisited, hdecides⟩ | ⟨w, hvisited⟩ :=
      exists_decides_or_visited m .newIndex key v m.limits.handlerChain
    · obtain ⟨n, heq⟩ := setIndex_eq_assignBy value origin hi hvisited
      exact eq_of_assignBy_stopped hdecides (heq.symm.trans h)
    · cases h.symm.trans (setIndexChain_visited hvisited 0)
      rfl

/-- An assignment that comes to a circle of handlers fails, whatever the limit is. -/
theorem setIndex_circle {k n : Nat} (hreached : m.visited? .newIndex key v k = some w)
    (hcircle : m.visited? .newIndex key w (n + 1) = some w) :
    setIndex v key value origin m = .stopped m (.failure (.of (.chain .newIndex))) := by
  obtain ⟨u, hu⟩ := exists_visited_of_circle hreached hcircle m.limits.handlerChain
  exact setIndexChain_visited hu 0

/-! ### Reading -/

/-- A value that is no table and has no handler has nothing to give. -/
theorem indexBy_none (h : v.table? = none) (n : Nat) (own : Value) :
    indexBy key n v origin own none = .failWith fun m => m.operandFault "index" v origin := by
  unfold indexBy
  split
  · next hhandler => nomatch hhandler
  · split
    · next t => nomatch h
    · rfl

/-- After `i` turns the loop stands at the value that is visited after `i` others. -/
theorem indexChain_visited {i : Nat} (h : m.visited? .index key v i = some w) (n : Nat) :
    indexChain key (i + n) v origin m =
      indexChain key n w (if i = 0 then origin else .unknown) m := by
  refine turns_of_visited (fun n v origin handler hs hf => ?_) h n
  calc indexChain key (n + 1) v origin m
    _ = indexBy key n v origin (m.ownValue key v) (m.successor? .index key v) m :=
      congrFun (indexChain_succ ..) m
    _ = indexChain key n handler .unknown m := by simp [hs, indexBy, hf]

/-- Reading an index comes to what becomes of it at any of the values that it visits within the
limit. -/
theorem index_eq_indexBy (origin : Origin) {i : Nat} (hi : i < m.limits.handlerChain)
    (h : m.visited? .index key v i = some w) :
    ∃ n, index v key origin m =
      indexBy key n w (if i = 0 then origin else .unknown) (m.ownValue key w)
        (m.successor? .index key w) m := by
  obtain ⟨n, hn⟩ := exists_turn hi
  refine ⟨n, ?_⟩
  calc index v key origin m
    _ = indexChain key (i + (n + 1)) v origin m := by rw [← hn]; rfl
    _ = indexChain key (n + 1) w (if i = 0 then origin else .unknown) m :=
      indexChain_visited h (n + 1)
    _ = _ := congrFun (indexChain_succ ..) m

/-- A value that decides the reading of an index changes nothing itself. -/
theorem eq_of_indexBy_over {n : Nat} {own : Value} {m' : Machine}
    (hdecides : m.Decides .index key w)
    (h : (∃ a, indexBy key n w origin own (m.successor? .index key w) m = .done m' a) ∨
      ∃ s, indexBy key n w origin own (m.successor? .index key w) m = .stopped m' s) :
    m' = m := by
  cases hs : m.successor? .index key w with
  | some f =>
    simp only [hs, indexBy, hdecides f hs, if_true] at h
    obtain ⟨a, h⟩ | ⟨s, h⟩ := h
    · nomatch h
    · nomatch h
  | none =>
    rw [hs] at h
    cases ht : w.table? with
    | none =>
      rw [indexBy_none ht] at h
      obtain ⟨a, h⟩ | ⟨s, h⟩ := h
      · nomatch h
      · cases h
        rfl
    | some t =>
      obtain rfl := Value.table?_eq_some_iff.1 ht
      obtain ⟨a, h⟩ | ⟨s, h⟩ := h
      · cases h
        rfl
      · nomatch h

/-- What the reading of an index may come to.  The values that it visits tell which of the cases it
is; in each of them `m` is the state that the reading starts from. -/
structure Reads (m : Machine) (v key : Value) (origin : Origin) (r : Resumption Value) :
    Prop where
  /-- A table that has a value at the key gives it, whether it has a handler or not. -/
  found : ∀ i < m.limits.handlerChain, ∀ t, m.visited? .index key v i = some (.table t) →
    (m.heap.table t).get key ≠ .nil → r = .done m ((m.heap.table t).get key)
  /-- A table that has none and has no handler gives nil. -/
  absent : ∀ i < m.limits.handlerChain, ∀ t, m.visited? .index key v i = some (.table t) →
    (m.heap.table t).get key = .nil → m.handler? (.table t) .index = none → r = .done m .nil
  /-- Any other value without a handler cannot be indexed.  The complaint names its type, and the
  first value has an origin. -/
  unindexable : ∀ i < m.limits.handlerChain, ∀ w, m.visited? .index key v i = some w →
    w.table? = none → m.handler? w .index = none →
    r = .stopped m (.failure (.of (.operand "index" (m.blamedTypeName w)
      (m.originText (if i = 0 then origin else .unknown)))))
  /-- A function is called once, its first result is the value, nil if it has none, and its failure
  is that of the reading. -/
  called : ∀ i < m.limits.handlerChain, ∀ w f, m.visited? .index key v i = some w →
    m.ownValue key w = .nil → m.handler? w .index = some f → f.isFunction = true →
    ∃ next, r = .waiting m f [w, key] (some 1) next ∧
      (∀ m' results, next m' (.ok results) = .done m' (results.headD .nil)) ∧
      ∀ m' e, next m' (.error e) = .stopped m' (.failure e)
  /-- A reading that visits more values than the limit allows fails. -/
  endless : (m.visited? .index key v m.limits.handlerChain).isSome = true →
    r = .stopped m (.failure (.of (.chain .index)))
  /-- These are all cases. -/
  decided : (∃ i < m.limits.handlerChain, ∃ w, m.visited? .index key v i = some w ∧
      m.Decides .index key w) ∨
    (m.visited? .index key v m.limits.handlerChain).isSome = true
  /-- A reading that calls nothing leaves the state as it was. -/
  unchanged : ∀ m', (∃ a, r = .done m' a) ∨ (∃ s, r = .stopped m' s) → m' = m

/-- **Reading.** Reading an index goes along the handlers to the first value that decides it,
however metatables refer to each other.  A table with a value at the key decides it with that value
before its handler is asked.  Otherwise a table without a handler gives nil, any other value without
a handler cannot be indexed, and a function that is a handler is called once for its first result.
When no value within the limit decides, the reading fails. -/
theorem index_reads (m : Machine) (v key : Value) (origin : Origin) :
    Reads m v key origin (index v key origin m) where
  found i hi t hvisited hown := by
    obtain ⟨n, h⟩ := index_eq_indexBy origin hi hvisited
    have hs : m.successor? .index key (.table t) = none :=
      if_neg fun hnil => hown (Value.isNil_iff.1 hnil)
    rw [h, hs]
    rfl
  absent i hi t hvisited hown hhandler := by
    obtain ⟨n, h⟩ := index_eq_indexBy origin hi hvisited
    have hs : m.successor? .index key (.table t) = none :=
      (if_pos (Value.isNil_iff.2 hown)).trans hhandler
    rw [h, hs]
    exact congrArg _ hown
  unindexable i hi w hvisited htable hhandler := by
    obtain ⟨n, h⟩ := index_eq_indexBy origin hi hvisited
    rw [h, successor?_of_table?_eq_none htable, hhandler, indexBy_none htable]
    rfl
  called i hi w f hvisited hown hhandler hf := by
    obtain ⟨n, h⟩ := index_eq_indexBy origin hi hvisited
    have hs : m.successor? .index key w = some f :=
      (if_pos (Value.isNil_iff.2 hown)).trans hhandler
    rw [h, hs]
    simp only [indexBy, hf, if_true]
    exact ⟨_, rfl, fun m' results => rfl, fun m' e => rfl⟩
  endless h := by
    obtain ⟨w, hw⟩ := Option.isSome_iff_exists.1 h
    exact indexChain_visited hw 0
  decided := (exists_decides_or_visited m .index key v _).imp_right Option.isSome_iff_exists.2
  unchanged m' h := by
    obtain ⟨i, hi, w, hvisited, hdecides⟩ | ⟨w, hvisited⟩ :=
      exists_decides_or_visited m .index key v m.limits.handlerChain
    · obtain ⟨n, heq⟩ := index_eq_indexBy origin hi hvisited
      exact eq_of_indexBy_over hdecides (heq ▸ h)
    · have heq : index v key origin m = .stopped m (.failure (.of (.chain .index))) :=
        indexChain_visited hvisited 0
      rw [heq] at h
      obtain ⟨a, h⟩ | ⟨s, h⟩ := h
      · nomatch h
      · cases h
        rfl

/-- Reading an index that comes to a circle of handlers fails, whatever the limit is. -/
theorem index_circle {k n : Nat} (hreached : m.visited? .index key v k = some w)
    (hcircle : m.visited? .index key w (n + 1) = some w) :
    index v key origin m = .stopped m (.failure (.of (.chain .index))) := by
  obtain ⟨u, hu⟩ := exists_visited_of_circle hreached hcircle m.limits.handlerChain
  exact indexChain_visited hu 0

end Operation

end LuaMachine
