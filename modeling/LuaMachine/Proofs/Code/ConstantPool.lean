import LuaMachine.Code.Prototype
import Mathlib.Data.Finset.Card
import Mathlib.Data.List.Nodup

/-!
# The constant pool

Instructions name constants by their indices in the pool.  A constant that is added a second time
gets the index of its first entry, and a new one is appended, so that entries neither move nor
change while the pool grows.  Constants are the same only if they are identical: a float is not an
integer of the same value, `0.0` is not `-0.0`, and NaNs with different bits differ.

## Main definitions

* `Prototype.internAll` : a prototype after a sequence of additions.
* `Prototype.returnedIndex` : the index that one of the additions returned.

## Main statements

* `Prototype.internConstant_cases` : what one addition does.
* `Prototype.getElem?_returnedIndex` : a returned index goes on referring to the constant.
* `Prototype.constants_interned` : the indices and the pool of every sequence of additions.
-/

namespace LuaMachine

namespace Prototype

variable {p : Prototype} {k c : Constant} {ks : List Constant} {i n : Nat}

/-! ### One addition -/

/-- An addition finds the constant in the pool, or it appends it. -/
theorem internConstant_cases (p : Prototype) (k : Constant) :
    (∃ i, p.constants[i]? = some k ∧ p.internConstant k = (p, i)) ∨
      (k ∉ p.constants ∧ p.internConstant k =
        ({ p with constants := p.constants.push k }, p.constants.size)) := by
  rw [internConstant]
  cases h : p.constants.findIdx? (· == k) with
  | some i =>
    obtain ⟨hi, heq, -⟩ := Array.findIdx?_eq_some_iff_getElem.1 h
    exact .inl ⟨i, by rw [Array.getElem?_eq_getElem hi, eq_of_beq heq], rfl⟩
  | none =>
    refine .inr ⟨fun hmem => ?_, rfl⟩
    exact ne_of_beq_false (Array.findIdx?_eq_none_iff.1 h k hmem) rfl

/-- The returned index refers to the constant. -/
theorem getElem?_internConstant (p : Prototype) (k : Constant) :
    (p.internConstant k).1.constants[(p.internConstant k).2]? = some k := by
  obtain ⟨i, hi, heq⟩ | ⟨-, heq⟩ := p.internConstant_cases k
  · rwa [heq]
  · rw [heq]
    exact Array.getElem?_push_size

/-- Entries neither move nor change. -/
theorem getElem?_internConstant_of_some (hi : p.constants[i]? = some c) (k : Constant) :
    (p.internConstant k).1.constants[i]? = some c := by
  obtain ⟨j, -, heq⟩ | ⟨-, heq⟩ := p.internConstant_cases k
  · rwa [heq]
  · have hlt : i < p.constants.size := (Array.getElem?_eq_some_iff.1 hi).1
    rw [heq]
    change (p.constants.push k)[i]? = some c
    rw [Array.getElem?_push_lt hlt, ← hi, Array.getElem?_eq_getElem hlt]

theorem mem_internConstant :
    c ∈ (p.internConstant k).1.constants ↔ c ∈ p.constants ∨ c = k := by
  obtain ⟨i, hi, heq⟩ | ⟨-, heq⟩ := p.internConstant_cases k
  · have hk : k ∈ p.constants := Array.mem_of_getElem? hi
    rw [heq]
    exact ⟨.inl, fun h => h.elim id (· ▸ hk)⟩
  · rw [heq]
    exact Array.mem_push

/-- A pool without duplicates stays one. -/
theorem nodup_internConstant (h : p.constants.toList.Nodup) (k : Constant) :
    (p.internConstant k).1.constants.toList.Nodup := by
  obtain ⟨i, -, heq⟩ | ⟨hk, heq⟩ := p.internConstant_cases k
  · rwa [heq]
  · rw [heq]
    change (p.constants.push k).toList.Nodup
    rw [Array.toList_push, ← List.concat_eq_append]
    exact h.concat fun hmem => hk (Array.mem_toList_iff.1 hmem)

/-! ### Sequences of additions -/

/-- The prototype after adding the constants of a list one after the other. -/
def internAll (p : Prototype) (ks : List Constant) : Prototype :=
  ks.foldl (fun q k => (q.internConstant k).1) p

/-- The index that the addition at place `i` of the list returns. -/
def returnedIndex (p : Prototype) (ks : List Constant) (i : Fin ks.length) : Nat :=
  ((p.internAll (ks.take i)).internConstant ks[i]).2

theorem internAll_append (p : Prototype) (ks ks' : List Constant) :
    p.internAll (ks ++ ks') = (p.internAll ks).internAll ks' :=
  List.foldl_append

theorem getElem?_internAll_of_some (hi : p.constants[i]? = some c) (ks : List Constant) :
    (p.internAll ks).constants[i]? = some c := by
  induction ks generalizing p with
  | nil => exact hi
  | cons k ks ih => exact ih (getElem?_internConstant_of_some hi k)

theorem mem_internAll : c ∈ (p.internAll ks).constants ↔ c ∈ p.constants ∨ c ∈ ks := by
  induction ks generalizing p with
  | nil => exact (or_iff_left List.not_mem_nil).symm
  | cons k ks ih =>
    rw [List.mem_cons, ← or_assoc, ← mem_internConstant]
    exact ih

theorem nodup_internAll (h : p.constants.toList.Nodup) (ks : List Constant) :
    (p.internAll ks).constants.toList.Nodup := by
  induction ks generalizing p with
  | nil => exact h
  | cons k ks ih => exact ih (nodup_internConstant h k)

/-- The size of a pool that was empty is the number of distinct constants. -/
theorem size_internAll (h : p.constants = #[]) (ks : List Constant) :
    (p.internAll ks).constants.size = ks.toFinset.card := by
  have hnodup : (p.internAll ks).constants.toList.Nodup :=
    nodup_internAll (by rw [h]; exact List.nodup_nil) ks
  have hmem : (p.internAll ks).constants.toList.toFinset = ks.toFinset := by
    ext c
    rw [List.mem_toFinset, List.mem_toFinset, Array.mem_toList_iff, mem_internAll, h]
    exact or_iff_right (Array.not_mem_empty c)
  rw [← Array.length_toList, ← List.toFinset_card_of_nodup hnodup, hmem]

/-- **Indices are stable.** After the addition that returned it, and after all later ones, an index
refers to the constant that was added. -/
theorem getElem?_returnedIndex (p : Prototype) (ks : List Constant) (i : Fin ks.length)
    (hn : i < n) : (p.internAll (ks.take n)).constants[p.returnedIndex ks i]? = some ks[i] := by
  obtain ⟨j, rfl⟩ : ∃ j, n = i + 1 + j := ⟨n - (i + 1), by omega⟩
  rw [List.take_add, List.take_succ_eq_append_getElem i.isLt, internAll_append, internAll_append]
  exact getElem?_internAll_of_some (getElem?_internConstant _ ks[i]) _

/-- Equal indices are those of identical constants, as the pool has no duplicates. -/
theorem returnedIndex_eq_iff (h : p.constants.toList.Nodup) (i j : Fin ks.length) :
    p.returnedIndex ks i = p.returnedIndex ks j ↔ ks[i] = ks[j] := by
  have hi := getElem?_returnedIndex p ks i i.isLt
  have hj := getElem?_returnedIndex p ks j j.isLt
  rw [List.take_length, ← Array.getElem?_toList] at hi hj
  refine ⟨fun heq => ?_, fun heq => ?_⟩
  · rw [heq, hj] at hi
    exact (Option.some.inj hi).symm
  · have hlt : p.returnedIndex ks i < (p.internAll ks).constants.toList.length :=
      (List.getElem?_eq_some_iff.1 hi).1
    exact (List.getElem?_inj hlt (nodup_internAll h ks)).1 (by rw [hi, hj, heq])

/-- **Interning.** However constants are added to an empty pool, the index that is returned for one
refers to it from then on; two indices are equal exactly if the constants are identical; and the
pool never holds a constant twice, so that its size is the number of distinct constants added.  If
these are fewer than `2 ^ 32`, no index loses a bit in a word of 32 bits. -/
theorem constants_interned (source : String) (ks : List Constant) :
    (∀ (i : Fin ks.length) (n : Nat), i < n →
      (internAll { source } (ks.take n)).constants[returnedIndex { source } ks i]? = some ks[i]) ∧
    (∀ i j : Fin ks.length,
      returnedIndex { source } ks i = returnedIndex { source } ks j ↔ ks[i] = ks[j]) ∧
    (∀ n, (internAll { source } (ks.take n)).constants.toList.Nodup ∧
      (internAll { source } (ks.take n)).constants.size = (ks.take n).toFinset.card) ∧
    (ks.toFinset.card < UInt32.size → ∀ i : Fin ks.length,
      (UInt32.ofNat (returnedIndex { source } ks i)).toNat = returnedIndex { source } ks i) := by
  have hnodup : ({ source } : Prototype).constants.toList.Nodup := List.nodup_nil
  refine ⟨fun i n hn => getElem?_returnedIndex _ ks i hn, returnedIndex_eq_iff hnodup,
    fun n => ⟨nodup_internAll hnodup _, size_internAll rfl _⟩, fun hcard i => ?_⟩
  have hget := getElem?_returnedIndex { source } ks i i.isLt
  rw [List.take_length] at hget
  have hlt := (Array.getElem?_eq_some_iff.1 hget).1
  rw [size_internAll rfl] at hlt
  exact UInt32.toNat_ofNat_of_lt' (hlt.trans hcard)

/-- The integer 1, the float 1.0, the two zeros and two NaNs are six constants, and the integer 1 is
found again. -/
theorem constants_interned_numbers :
    let ks : List Constant := [.integer 1, .float 0x3FF0000000000000, .float 0,
      .float 0x8000000000000000, .float 0x7FF8000000000000, .float 0x7FF8000000000001, .integer 1]
    ((internAll { source := "=numbers" } (ks.take 7)).constants[
        returnedIndex { source := "=numbers" } ks 0]? = some (.integer 1)) ∧
      ks.toFinset.card < UInt32.size ∧
      (UInt32.ofNat (returnedIndex { source := "=numbers" } ks 5)).toNat = 5 := by
  intro ks
  obtain ⟨hstable, -, -, hfits⟩ := constants_interned "=numbers" ks
  have hcard : ks.toFinset.card < UInt32.size := by decide
  have hfive : returnedIndex { source := "=numbers" } ks 5 = 5 := by decide +kernel
  exact ⟨hstable 0 7 (by decide), hcard, (hfits hcard 5).trans hfive⟩

end Prototype

end LuaMachine
