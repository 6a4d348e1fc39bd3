import LuaMachine.Table.OrderedMap

/-!
# Slots of ordered maps

An ordered map keeps its entries in slots, and an index leads from a key to its slot.  A key has one
slot only, so that the entries in order are as many as the keys of the index, and no key occurs
twice among them.  A write changes one slot or adds one at the end; a removal empties one.

## Main statements

* `OrderedMap.mem_toList_iff`, `OrderedMap.nodup_keys`, `OrderedMap.length_toList` : the entries in
  order.
* `OrderedMap.firstFrom?_eq` : the first entry from a slot on that satisfies a condition.
* `OrderedMap.slots_set_of_position?`, `OrderedMap.slots_set_of_absent`, `OrderedMap.slots_erase` :
  the slots after a write and after a removal.
* `OrderedMap.countP_set_of_get?`, `OrderedMap.countP_set_of_absent`, `OrderedMap.countP_erase` :
  the number of entries with a property.
-/

namespace LuaMachine.OrderedMap

variable {α β : Type} [BEq α] [Hashable α] {m : OrderedMap α β} {k : α} {v w : β}

/-! ### Keys and their slots -/

theorem exists_position?_of_get? (h : m.get? k = some v) :
    ∃ i, m.position? k = some i ∧ m.slots[i]? = some (some (k, v)) := by
  obtain ⟨i, hi⟩ := m.get?_eq_some_iff.1 h
  exact ⟨i, (m.coherent k i).2 ⟨v, hi⟩, hi⟩

theorem position?_eq_none_iff : m.position? k = none ↔ m.get? k = none := by
  rw [Option.eq_none_iff_forall_ne_some, Option.eq_none_iff_forall_ne_some]
  constructor
  · intro h v hv
    obtain ⟨i, hi, -⟩ := exists_position?_of_get? hv
    exact h i hi
  · intro h i hi
    obtain ⟨v, hv⟩ := (m.coherent k i).1 hi
    exact h v (m.get?_eq_some_iff.2 ⟨i, hv⟩)

/-! ### The entries in order -/

theorem mem_toList_iff : (k, v) ∈ m.toList ↔ m.get? k = some v := by
  rw [get?_eq_some_iff, toList, List.mem_filterMap]
  simp [List.mem_iff_getElem?]

/-- No key occurs twice. -/
theorem nodup_keys (m : OrderedMap α β) : (m.toList.map Prod.fst).Nodup := by
  have hslot : ∀ (i : Nat) (hi : i < m.slots.toList.length) (k : α),
      m.slots.toList[i].map Prod.fst = some k → m.position? k = some i := by
    intro i hi k h
    obtain ⟨⟨k, v⟩, hv, rfl⟩ := Option.map_eq_some_iff.1 h
    refine (m.coherent k i).2 ⟨v, ?_⟩
    rw [← Array.getElem?_toList, List.getElem?_eq_getElem hi, hv]
  rw [toList, List.map_filterMap, List.Nodup, List.pairwise_filterMap, List.pairwise_iff_getElem]
  rintro i j hi hj hlt k hk _ hk' rfl
  have hij := Option.some.inj ((hslot i hi k hk).symm.trans (hslot j hj k hk'))
  omega

/-- The first entry from a slot on that satisfies a condition. -/
theorem firstFrom?_eq (m : OrderedMap α β) (p : α × β → Bool) (i : Nat) :
    m.firstFrom? p i = (m.slots.toList.drop i).findSome? (Option.filter p) := by
  have hcons : ∀ i (hi : i < m.slots.size),
      m.slots.toList.drop i = m.slots[i] :: m.slots.toList.drop (i + 1) := fun i hi =>
    List.drop_eq_getElem_cons (l := m.slots.toList) hi
  fun_induction firstFrom? m p i with
  | case1 i hi entry he hp =>
    rw [hcons i hi, List.findSome?_cons, he, Option.filter_some_pos hp]
  | case2 i hi entry he hp ih =>
    rw [ih, hcons i hi, List.findSome?_cons, he, Option.filter_some_neg (by simpa using hp)]
  | case3 i hi he ih => rw [ih, hcons i hi, List.findSome?_cons, he, Option.filter_none]
  | case4 i hi => rw [List.drop_eq_nil_of_le (by simpa using hi), List.findSome?_nil]

variable [LawfulBEq α]

theorem length_toList (m : OrderedMap α β) : m.toList.length = m.size := by
  have hperm : (m.toList.map Prod.fst).Perm m.index.keys :=
    (List.perm_ext_iff_of_nodup m.nodup_keys Std.HashMap.nodup_keys).2 fun k => by
      rw [Std.HashMap.mem_keys, Std.HashMap.mem_iff_isSome_getElem?, Option.isSome_iff_exists]
      simp only [List.mem_map, Prod.exists, exists_and_right, exists_eq_right, mem_toList_iff,
        get?_eq_some_iff, m.coherent]
      exact exists_comm
  rw [size, ← Std.HashMap.length_keys, ← hperm.length_eq, List.length_map]

/-! ### Writes and removals -/

/-- A write under a key that is present leaves all keys at their slots. -/
theorem position?_set_of_position? {i : Nat} (h : m.position? k = some i) (v : β) (k' : α) :
    (m.set k v).position? k' = m.position? k' := by
  obtain ⟨slots, index, coherent⟩ := m
  simp only [position?] at h
  simp only [set]
  split
  · rfl
  · next hn =>
    rw [hn] at h
    cases h

/-- A key that is present keeps its slot. -/
theorem slots_set_of_position? {i : Nat} (h : m.position? k = some i) (v : β) :
    (m.set k v).slots = m.slots.setIfInBounds i (some (k, v)) := by
  obtain ⟨slots, index, coherent⟩ := m
  simp only [position?] at h
  simp only [set]
  split
  · next j hj =>
    obtain rfl := Option.some.inj (hj.symm.trans h)
    rfl
  · next hn =>
    rw [hn] at h
    cases h

/-- A new key comes last. -/
theorem slots_set_of_absent (h : m.get? k = none) (v : β) :
    (m.set k v).slots = m.slots.push (some (k, v)) := by
  have h := position?_eq_none_iff.2 h
  obtain ⟨slots, index, coherent⟩ := m
  simp only [position?] at h
  simp only [set]
  split
  · next j hj =>
    rw [hj] at h
    cases h
  · rfl

/-- The slot of a removed key stays, without an entry. -/
theorem slots_erase {i : Nat} (h : m.position? k = some i) :
    (m.erase k).slots = m.slots.setIfInBounds i none := by
  obtain ⟨slots, index, coherent⟩ := m
  simp only [position?] at h
  simp only [erase]
  split
  · next hn =>
    rw [hn] at h
    cases h
  · next j hj =>
    obtain rfl := Option.some.inj (hj.symm.trans h)
    rfl

/-! ### Numbers of entries -/

omit [LawfulBEq α] in
theorem countP_toList (m : OrderedMap α β) (p : α × β → Bool) :
    m.toList.countP p = m.slots.toList.countP (Option.any p) := by
  rw [toList, List.countP_filterMap]
  exact List.countP_congr fun slot _ => by cases slot <;> simp

/-- A list in which one element is exchanged for another. -/
private theorem countP_exchange {γ : Type} {xs : List γ} {i : Nat} {old : γ}
    (h : xs[i]? = some old) (q : γ → Bool) (new : γ) :
    (xs.set i new).countP q + (q old).toNat = xs.countP q + (q new).toNat := by
  obtain ⟨hi, rfl⟩ := List.getElem?_eq_some_iff.1 h
  have hpos : q xs[i] = true → 0 < xs.countP q := fun hq =>
    List.countP_pos_iff.2 ⟨_, List.getElem_mem hi, hq⟩
  rw [List.countP_set hi]
  cases hold : q xs[i] with
  | false => cases q new <;> simp
  | true =>
    have := hpos hold
    cases q new <;> simp <;> omega

variable (p : α × β → Bool)

theorem countP_set_of_get? (h : m.get? k = some w) (v : β) :
    (m.set k v).toList.countP p + (p (k, w)).toNat = m.toList.countP p + (p (k, v)).toNat := by
  obtain ⟨i, hi, hslot⟩ := exists_position?_of_get? h
  rw [countP_toList, countP_toList, slots_set_of_position? hi, Array.toList_setIfInBounds]
  exact countP_exchange (by rw [Array.getElem?_toList, hslot]) (Option.any p) (some (k, v))

theorem countP_set_of_absent (h : m.get? k = none) (v : β) :
    (m.set k v).toList.countP p = m.toList.countP p + (p (k, v)).toNat := by
  rw [countP_toList, countP_toList, slots_set_of_absent h, Array.toList_push, List.countP_append,
    List.countP_singleton]
  cases hp : p (k, v) <;> simp [hp]

theorem countP_erase (h : m.get? k = some w) :
    (m.erase k).toList.countP p + (p (k, w)).toNat = m.toList.countP p := by
  obtain ⟨i, hi, hslot⟩ := exists_position?_of_get? h
  rw [countP_toList, countP_toList, slots_erase hi, Array.toList_setIfInBounds]
  exact countP_exchange (by rw [Array.getElem?_toList, hslot]) (Option.any p) none

end LuaMachine.OrderedMap
