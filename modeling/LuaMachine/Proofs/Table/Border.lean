import LuaMachine.Proofs.Table.Representation

/-!
# Borders

The length of a table is one of its borders: a number `n` such that the table has a value at `n`, or
`n` is zero, and has none at `n + 1`.  A table may have several.  Where the array part ends with nil,
a binary search finds a border within it: whatever holes there are, there is a value before the
range that is searched and nil at its end.  Otherwise the array part is followed by a border, since
the hash part never holds the next key.

## Main definitions

* `Table.IsBorder` : the borders of a table.

## Main statements

* `Table.searchBorder_spec` : what the binary search finds.
* `Table.border_after_history` : the length of a table is a border.
-/

namespace LuaMachine.Table

/-- The table has a value at `n`, unless `n` is zero, and none at the integer after it. -/
structure IsBorder (t : Table) (n : Nat) : Prop where
  present : n = 0 ∨ ∃ i : Int64, i.toInt = n ∧ t.getKey (.integer i) ≠ .nil
  absent : ∀ i : Int64, i.toInt = n + 1 → t.getKey (.integer i) = .nil

/-- **Binary search.** Between a value and nil there is a place where a value is followed by nil. -/
theorem searchBorder_spec {array : Array Value} {lo hi : Nat} (hle : lo ≤ hi)
    (hlo : lo = 0 ∨ array[lo - 1]?.getD .nil ≠ .nil) (hhi : array[hi]?.getD .nil = .nil) :
    searchBorder array lo hi ≤ hi ∧
      (searchBorder array lo hi = 0 ∨ array[searchBorder array lo hi - 1]?.getD .nil ≠ .nil) ∧
      array[searchBorder array lo hi]?.getD .nil = .nil := by
  fun_induction searchBorder array lo hi with
  | case1 lo hi hlt mid hnil ih =>
    obtain ⟨hbound, hfound⟩ := ih (by omega) hlo (Value.isNil_iff.1 hnil)
    exact ⟨by omega, hfound⟩
  | case2 lo hi hlt mid hnil ih =>
    have hvalue : array[mid + 1 - 1]?.getD .nil ≠ .nil := fun h => hnil (Value.isNil_iff.2 h)
    exact ih (by omega) (.inr hvalue) hhi
  | case3 lo hi hge =>
    obtain rfl : lo = hi := by omega
    exact ⟨hle, hlo, hhi⟩

variable {t : Table}

/-- The value of a key in the array part. -/
theorem getKey_of_toInt {i : Int64} {j : Nat} (hi : i.toInt = j + 1) (hj : j < t.array.size) :
    t.getKey (.integer i) = t.array[j]?.getD .nil :=
  getKey_of_place (k := .integer i) (arrayIndex?_eq_some_iff.2 ⟨hi, hj⟩)

/-- A value in the array part belongs to a key. -/
theorem Partitioned.present_of_array (h : t.Partitioned) {n : Nat} (hn : n ≤ t.array.size)
    (hvalue : n = 0 ∨ t.array[n - 1]?.getD .nil ≠ .nil) :
    n = 0 ∨ ∃ i : Int64, i.toInt = n ∧ t.getKey (.integer i) ≠ .nil := by
  cases n with
  | zero => exact .inl rfl
  | succ j =>
    have hplace := arrayIndex?_eq_some_iff.1 (place?_ofNat h hn)
    refine .inr ⟨_, hplace.1, ?_⟩
    rw [getKey_of_toInt hplace.1 hn]
    exact hvalue.resolve_left (Nat.succ_ne_zero j)

/-- The key that follows the array part has no value. -/
theorem WellFormed.getKey_next (h : t.WellFormed) {i : Int64} (hi : i.toInt = t.array.size + 1) :
    t.getKey (.integer i) = .nil := by
  have hnext := nextIndex?_eq_some_iff.2 hi
  rw [getKey_of_no_place (place?_next hnext), getEntry, h.next_absent i hnext, Option.getD_none]

/-- The search for a border behind the array part ends where it begins. -/
theorem WellFormed.extendBorder_size (h : t.WellFormed) :
    t.extendBorder t.array.size = t.array.size := by
  rw [extendBorder, if_neg]
  rintro ⟨hlt, hvalue⟩
  have hnext : t.nextIndex? = some (Int64.ofNat (t.array.size + 1)) := if_pos hlt
  have hnil : t.getInteger (Int64.ofNat (t.array.size + 1)) = .nil :=
    h.getKey_next (nextIndex?_eq_some_iff.1 hnext)
  rw [hnil] at hvalue
  cases hvalue

/-- Within an array part that ends with nil there is a border. -/
theorem WellFormed.isBorder_searchBorder (h : t.WellFormed) (hlast : t.array.back? = some .nil) :
    t.IsBorder (searchBorder t.array 0 t.array.size) ∧
      searchBorder t.array 0 t.array.size ≤ t.array.size := by
  have hend : t.array[t.array.size]?.getD .nil = .nil := by
    rw [Array.getElem?_eq_none (Nat.le_refl _), Option.getD_none]
  obtain ⟨hle, hpresent, habsent⟩ := searchBorder_spec (Nat.zero_le _) (.inl rfl) hend
  generalize searchBorder t.array 0 t.array.size = n at hle hpresent habsent ⊢
  rw [Array.back?_eq_getElem?] at hlast
  have hpos := (Array.getElem?_eq_some_iff.1 hlast).1
  have hlt : n < t.array.size := by
    refine Nat.lt_of_le_of_ne hle ?_
    rintro rfl
    have hvalue := hpresent.resolve_left (by omega)
    rw [hlast] at hvalue
    exact hvalue rfl
  exact ⟨⟨h.present_of_array hle hpresent, fun i hi => (getKey_of_toInt hi hlt).trans habsent⟩, hle⟩

/-- An array part that does not end with nil is followed by a border. -/
theorem WellFormed.isBorder_size (h : t.WellFormed) (hlast : t.array.back? ≠ some .nil) :
    t.IsBorder t.array.size := by
  refine ⟨h.present_of_array (Nat.le_refl _) ?_, fun i hi => h.getKey_next hi⟩
  rcases Nat.eq_zero_or_pos t.array.size with hzero | hpos
  · exact .inl hzero
  · rw [Array.back?_eq_getElem?] at hlast
    have hlt : t.array.size - 1 < t.array.size := by omega
    rw [Array.getElem?_eq_getElem hlt] at hlast ⊢
    exact .inr fun hnil => hlast (congrArg some hnil)

theorem WellFormed.isBorder_border (h : t.WellFormed) :
    t.IsBorder t.border ∧ t.border ≤ t.array.size := by
  rw [border]
  split
  · next hlast => exact h.isBorder_searchBorder hlast
  · next hlast =>
    rw [h.extendBorder_size]
    exact ⟨h.isBorder_size hlast, Nat.le_refl _⟩

/-- **The length of a table.** After any history of writes and compactions of a new table, its length
is one of its borders, and it lies within the array part. -/
theorem border_after_history (writes : List Write) :
    (empty.after writes).IsBorder (empty.after writes).border ∧
      (empty.after writes).border ≤ (empty.after writes).array.size :=
  (wellFormed_after writes).isBorder_border

/-- The length of a table with holes is the border that the search comes to. -/
example : border { array := #[.nil, .boolean true, .boolean true, .nil, .boolean true, .nil] } = 3 := by
  cbv

end LuaMachine.Table
