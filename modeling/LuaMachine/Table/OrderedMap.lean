import Std.Data.HashMap

/-!
# Maps that keep the order of insertion

Entries are kept in slots in the order in which their keys were first inserted, and an index finds
the slot of a key.  An erased entry leaves its slot empty, so that the other entries keep their
positions; only `filter` closes the gaps.

## Main definitions

* `OrderedMap` : slots and index, which agree with each other.
* `OrderedMap.empty`, `OrderedMap.get?`, `OrderedMap.set`, `OrderedMap.erase`,
  `OrderedMap.filter` : the operations.
* `OrderedMap.firstFrom?` : the first entry at or after a position that satisfies a condition.
* `OrderedMap.toList` : the entries in order.

## Main results

* `OrderedMap.get?_set`, `OrderedMap.get?_erase` : the operations on the view `get?`.
-/

namespace LuaMachine

universe u v

/-- The empty index agrees with no slots at all. -/
theorem coherent_empty {α : Type u} {β : Type v} [BEq α] [Hashable α] (k : α) (i : Nat) :
    (∅ : Std.HashMap α Nat)[k]? = some i ↔
      ∃ v : β, (#[] : Array (Option (α × β)))[i]? = some (some (k, v)) := by
  simp

/-- A map from `α` to `β` that keeps the order of insertion. -/
structure OrderedMap (α : Type u) (β : Type v) [BEq α] [Hashable α] where
  /-- The entries in order, with gaps. -/
  slots : Array (Option (α × β)) := #[]
  /-- The slot of each key. -/
  index : Std.HashMap α Nat := ∅
  /-- The index leads to a slot exactly if the slot holds an entry with that key. -/
  coherent : ∀ (k : α) (i : Nat), index[k]? = some i ↔ ∃ v, slots[i]? = some (some (k, v)) := by
    exact coherent_empty

namespace OrderedMap

variable {α : Type u} {β : Type v} [BEq α] [Hashable α]

/-- The map without entries. -/
def empty : OrderedMap α β := {}

instance : Inhabited (OrderedMap α β) := ⟨empty⟩

/-- The number of entries. -/
def size (m : OrderedMap α β) : Nat := m.index.size

/-- The slot of a key. -/
def position? (m : OrderedMap α β) (k : α) : Option Nat := m.index[k]?

/-- The value of a key. -/
def get? (m : OrderedMap α β) (k : α) : Option β :=
  match m.index[k]? with
  | none => none
  | some i =>
    match m.slots[i]? with
    | some (some (_, v)) => some v
    | _ => none

/-- The entries in order. -/
def toList (m : OrderedMap α β) : List (α × β) := m.slots.toList.filterMap id

/-- The first entry in slot `i` or a later one that satisfies `p`. -/
def firstFrom? (m : OrderedMap α β) (p : α × β → Bool) (i : Nat) : Option (α × β) :=
  if h : i < m.slots.size then
    match m.slots[i] with
    | some entry => if p entry then some entry else firstFrom? m p (i + 1)
    | none => firstFrom? m p (i + 1)
  else none
termination_by m.slots.size - i

@[simp] theorem get?_empty (k : α) : (empty : OrderedMap α β).get? k = none := by
  simp [empty, get?]

variable [LawfulBEq α]

/-- Gives a key a value.  A key that is present keeps its place, a new one comes last. -/
def set (m : OrderedMap α β) (k : α) (v : β) : OrderedMap α β :=
  match m with
  | ⟨slots, index, coherent⟩ =>
    match h : index[k]? with
    | some i =>
      { slots := slots.setIfInBounds i (some (k, v))
        index
        coherent := by
          intro k' j
          have hi := (coherent k i).1 h
          obtain ⟨w, hw⟩ := hi
          have hlt : i < slots.size := by
            rcases Nat.lt_or_ge i slots.size with hlt | hge
            · exact hlt
            · simp [Array.getElem?_eq_none hge] at hw
          rw [coherent k' j, Array.getElem?_setIfInBounds]
          by_cases hij : i = j
          · subst hij
            rw [hw, if_pos rfl, if_pos hlt]
            simp
          · simp [hij] }
    | none =>
      { slots := slots.push (some (k, v))
        index := index.insert k slots.size
        coherent := by
          intro k' j
          rw [Std.HashMap.getElem?_insert, Array.getElem?_push]
          by_cases hk : k = k'
          · subst hk
            by_cases hj : j = slots.size
            · simp [hj]
            · simp only [BEq.rfl, if_true, Option.some.injEq, hj, if_false]
              have hn := fun w => (coherent k j).2 w
              simp only [h, reduceCtorEq, imp_false] at hn
              simp only [hn, iff_false]
              exact fun e => hj e.symm
          · by_cases hj : j = slots.size
            · subst hj
              have hc := coherent k' slots.size
              simp only [Array.getElem?_eq_none (Nat.le_refl _), reduceCtorEq, exists_false,
                iff_false] at hc
              simp [hk, hc]
            · simp [hk, hj, coherent k' j] }

/-- Removes a key; its slot stays empty. -/
def erase (m : OrderedMap α β) (k : α) : OrderedMap α β :=
  match m with
  | ⟨slots, index, coherent⟩ =>
    match h : index[k]? with
    | none => ⟨slots, index, coherent⟩
    | some i =>
      { slots := slots.setIfInBounds i none
        index := index.erase k
        coherent := by
          intro k' j
          obtain ⟨w, hw⟩ := (coherent k i).1 h
          rw [Std.HashMap.getElem?_erase, Array.getElem?_setIfInBounds]
          have hlt : i < slots.size := by
            rcases Nat.lt_or_ge i slots.size with hlt | hge
            · exact hlt
            · simp [Array.getElem?_eq_none hge] at hw
          by_cases hk : k = k'
          · subst hk
            by_cases hij : i = j
            · simp [hij]
            · have hne := fun w => (coherent k j).2 w
              simp only [h, Option.some.injEq, hij, imp_false] at hne
              simp [hij, hne]
          · by_cases hij : i = j
            · subst hij
              have hc := coherent k' i
              simp only [hw, Option.some.injEq, Prod.mk.injEq, hk, false_and, exists_false,
                iff_false] at hc
              simp [hk, hc, hlt]
            · simp [hk, hij, coherent k' j] }

/-- The entries that satisfy `p`, without gaps. -/
def filter (m : OrderedMap α β) (p : α × β → Bool) : OrderedMap α β :=
  m.slots.foldl (fun r slot =>
    match slot with
    | some entry => if p entry then r.set entry.1 entry.2 else r
    | none => r) empty

omit [LawfulBEq α] in
/-- The value of a key is what its slot holds. -/
theorem get?_eq_some_iff (m : OrderedMap α β) {k : α} {v : β} :
    m.get? k = some v ↔ ∃ i : Nat, m.slots[i]? = some (some (k, v)) := by
  constructor
  · intro h
    unfold get? at h
    split at h
    · simp at h
    · next i hi =>
      obtain ⟨w, hw⟩ := (m.coherent k i).1 hi
      simp only [hw, Option.some.injEq] at h
      exact ⟨i, h ▸ hw⟩
  · rintro ⟨i, hi⟩
    have hx := (m.coherent k i).2 ⟨v, hi⟩
    simp [get?, hx, hi]

omit [LawfulBEq α] in
/-- Different keys have different slots. -/
theorem position_ne (m : OrderedMap α β) {k k' : α} {i j : Nat} (hi : m.index[k]? = some i)
    (hj : m.index[k']? = some j) (hne : k ≠ k') : i ≠ j := by
  rintro rfl
  obtain ⟨v, hv⟩ := (m.coherent k i).1 hi
  obtain ⟨w, hw⟩ := (m.coherent k' i).1 hj
  rw [hv] at hw
  simp only [Option.some.injEq, Prod.mk.injEq] at hw
  exact hne hw.1

omit [LawfulBEq α] in
/-- The slot of a key exists. -/
theorem position_lt (m : OrderedMap α β) {k : α} {i : Nat} (h : m.index[k]? = some i) :
    i < m.slots.size := by
  obtain ⟨v, hv⟩ := (m.coherent k i).1 h
  exact (Array.getElem?_eq_some_iff.1 hv).1

/-- The value of a key after a write: the new one for the key that was written. -/
theorem get?_set [DecidableEq α] (m : OrderedMap α β) (k k' : α) (v : β) :
    (m.set k v).get? k' = if k = k' then some v else m.get? k' := by
  obtain ⟨slots, index, coherent⟩ := m
  simp only [set]
  split
  · next i h =>
    have hlt := position_lt ⟨slots, index, coherent⟩ h
    simp only [get?]
    by_cases hk : k = k'
    · subst hk
      simp only at hlt
      simp [h, hlt]
    · cases hj : index[k']? with
      | none => simp [hk]
      | some j =>
        have hij := position_ne ⟨slots, index, coherent⟩ h hj hk
        simp [hk, hij]
  · next h =>
    simp only [get?, Std.HashMap.getElem?_insert]
    by_cases hk : k = k'
    · subst hk
      simp
    · cases hj : index[k']? with
      | none => simp [hk]
      | some j =>
        have hlt := position_lt ⟨slots, index, coherent⟩ hj
        simp only at hlt
        simp [hk, Array.getElem?_push, Nat.ne_of_lt hlt]

/-- The value of a key after a removal. -/
theorem get?_erase [DecidableEq α] (m : OrderedMap α β) (k k' : α) :
    (m.erase k).get? k' = if k = k' then none else m.get? k' := by
  obtain ⟨slots, index, coherent⟩ := m
  simp only [erase]
  split
  · next h =>
    by_cases hk : k = k'
    · subst hk
      simp [get?, h]
    · simp [hk]
  · next i h =>
    simp only [get?, Std.HashMap.getElem?_erase]
    by_cases hk : k = k'
    · simp [hk]
    · cases hj : index[k']? with
      | none => simp [hk]
      | some j =>
        have hij := position_ne ⟨slots, index, coherent⟩ h hj hk
        simp [hk, hij]

/-- Removing a key that is present makes the map smaller. -/
theorem size_erase_lt {m : OrderedMap α β} {k : α} {v : β} (h : m.get? k = some v) :
    (m.erase k).size < m.size := by
  obtain ⟨slots, index, coherent⟩ := m
  simp only [erase]
  split
  · next hk => simp [get?, hk] at h
  · next i hk =>
    have hmem : k ∈ index := by
      rw [Std.HashMap.mem_iff_isSome_getElem?, hk]
      rfl
    have hpos : index.size ≠ 0 := by
      intro h0
      have he : index.isEmpty := by simpa [Std.HashMap.isEmpty_eq_size_eq_zero] using h0
      have := Std.HashMap.getElem?_of_isEmpty (a := k) he
      simp [hk] at this
    simp only [size, Std.HashMap.size_erase, hmem, if_true]
    omega

end OrderedMap

end LuaMachine
