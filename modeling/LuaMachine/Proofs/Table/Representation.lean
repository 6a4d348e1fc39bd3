import LuaMachine.Proofs.Table.FiniteMap
import LuaMachine.Proofs.Table.Slots
import Mathlib.Data.Set.Card

/-!
# The representation of tables

The array part of a table holds the keys from `1` to `n`, and the hash part never holds one of them
nor the key `n + 1`: a value that is written there extends the array part, which then takes over the
entries that continue it.  Keys of the hash part are in normal form, and the cleared entries among
them are counted, so that the counter never has to go below zero and the number of keys that have
values can be computed from it.

While entries move into the array part, the key that follows it may still be in the hash part.  What
holds at such a time is kept by each movement; together with the absence of that key it is the
invariant of tables.

## Main definitions

* `Key.IsNormal` : the keys that values have.
* `Table.Partitioned`, `Table.WellFormed` : the invariant while entries move, and at all other times.
* `Table.Absorbs` : the tables that are met while entries move into the array part.

## Main statements

* `Table.wellFormed_after` : histories of writes keep the invariant.
* `Table.Partitioned.length_toList`, `Table.Partitioned.encard_live` : the number of keys that have
  values.
* `Table.representation_after_history` : what holds after every history of writes to a new table.
-/

namespace LuaMachine

namespace Key

/-- The key of a value is a normal form: a float is not NaN and not equal to an integer. -/
def IsNormal : Key → Prop
  | .float bits => (∀ negative, Binary64.ofBits bits ≠ .nan negative) ∧
    (Binary64.ofBits bits).toInt64? = none
  | _ => True

theorem isNormal_of_ofValue {v : Value} {k : Key} (h : ofValue v = .ok k) : k.IsNormal := by
  cases v with
  | float bits =>
    simp only [ofValue, ofBits] at h
    split at h
    · cases h
    · next hnan =>
      split at h
      · cases h
        trivial
      · next hint =>
        cases h
        exact ⟨hnan, hint⟩
  | nil => cases h
  | _ =>
    cases h
    trivial

/-- The value of a key in normal form has that key. -/
theorem IsNormal.ofValue_toValue {k : Key} (h : k.IsNormal) : ofValue k.toValue = .ok k := by
  cases k with
  | float bits =>
    obtain ⟨hnan, hint⟩ := h
    simp only [toValue, ofValue, ofBits]
    split
    · next i hi =>
      rw [hint] at hi
      cases hi
    · rfl
  | _ => rfl

end Key

namespace Table

/-! ### The invariant -/

/-- The hash part holds no key of the array part, its keys are in normal form, and the cleared
entries are counted. -/
structure Partitioned (t : Table) : Prop where
  place?_eq_none : ∀ k, (t.entries.get? k).isSome → t.place? k = none
  isNormal : ∀ k, (t.entries.get? k).isSome → k.IsNormal
  cleared_eq : t.cleared = t.entries.toList.countP fun e => e.2.isNil
  size_le : t.array.size ≤ 0x7FFFFFFFFFFFFFFF

/-- Moreover the hash part does not hold the key that follows the array part. -/
structure WellFormed (t : Table) : Prop extends Partitioned t where
  next_absent : ∀ i, t.nextIndex? = some i → t.entries.get? (.integer i) = none

theorem size_lt_of_nextIndex? {t : Table} {i : Int64} (h : t.nextIndex? = some i) :
    t.array.size < 0x7FFFFFFFFFFFFFFF := by
  have hi := nextIndex?_eq_some_iff.1 h
  have hlt := i.toInt_lt
  omega

/-- A value that is added to the array part gives a place to the key that follows it. -/
theorem place?_push {t : Table} {i : Int64} (h : t.nextIndex? = some i) (v : Value) {k : Key}
    (hk : k ≠ .integer i) : Table.place? { t with array := t.array.push v } k = t.place? k := by
  have hi := nextIndex?_eq_some_iff.1 h
  cases k with
  | integer i' =>
    have hne : i'.toInt ≠ i.toInt := fun he => hk (by rw [Int64.toInt_inj.1 he])
    apply Option.ext
    intro j
    simp only [place?, arrayIndex?_eq_some_iff, Array.size_push]
    omega
  | _ => rfl

theorem wellFormed_empty : empty.WellFormed where
  place?_eq_none := fun k h => by simp [empty] at h
  isNormal := fun k h => by simp [empty] at h
  cleared_eq := rfl
  size_le := Nat.zero_le _
  next_absent := fun i _ => OrderedMap.get?_empty _

/-- The entries that are left when the cleared ones have been dropped are not cleared. -/
theorem countP_compact (t : Table) :
    t.compact.entries.toList.countP (fun e => e.2.isNil) = 0 := by
  rw [List.countP_eq_zero]
  rintro ⟨k, v⟩ he
  rw [OrderedMap.mem_toList_iff] at he
  simp only [compact, OrderedMap.get?_filter, Option.filter_eq_some_iff] at he
  simpa using he.2

theorem isSome_of_isSome_compact {t : Table} {k : Key}
    (h : (t.compact.entries.get? k).isSome) : (t.entries.get? k).isSome := by
  obtain ⟨v, hv⟩ := Option.isSome_iff_exists.1 h
  simp only [compact, OrderedMap.get?_filter, Option.filter_eq_some_iff] at hv
  rw [hv.1]
  rfl

theorem WellFormed.compact {t : Table} (h : t.WellFormed) : t.compact.WellFormed where
  place?_eq_none := fun k hk => h.place?_eq_none k (isSome_of_isSome_compact hk)
  isNormal := fun k hk => h.isNormal k (isSome_of_isSome_compact hk)
  cleared_eq := t.countP_compact.symm
  size_le := h.size_le
  next_absent := fun i hi => by
    simp only [Table.compact, OrderedMap.get?_filter, h.next_absent i hi, Option.filter_none]

/-! ### Entries of the hash part -/

/-- An entry is overwritten, and counted or not counted any more if it is cleared or revived. -/
theorem WellFormed.overwrite {t : Table} (h : t.WellFormed) {k : Key} {old : Value}
    (hold : t.entries.get? k = some old) (v : Value) : (t.setEntry k v).WellFormed := by
  have hsome : ∀ k', ((t.entries.set k v).get? k').isSome → (t.entries.get? k').isSome := by
    intro k' hk'
    rw [OrderedMap.get?_set] at hk'
    split at hk'
    · next hk => rw [← hk, hold]; rfl
    · exact hk'
  have hcount := OrderedMap.countP_set_of_get? (fun e => e.2.isNil) hold v
  have hcleared := h.cleared_eq
  have hentries : (t.setEntry k v).entries = t.entries.set k v := by
    simp only [Table.setEntry, hold]
  have hsize : (t.setEntry k v).array.size = t.array.size := by rw [t.array_setEntry]
  exact
    { place?_eq_none := fun k' hk' => by
        rw [hentries] at hk'
        exact (place?_congr hsize k').trans (h.place?_eq_none k' (hsome k' hk'))
      isNormal := fun k' hk' => by
        rw [hentries] at hk'
        exact h.isNormal k' (hsome k' hk')
      cleared_eq := by
        rw [hentries]
        simp only [Table.setEntry, hold]
        cases hnil : old.isNil <;> cases hnil' : v.isNil <;>
          simp only [hnil, hnil', Bool.toNat_true, Bool.toNat_false] at hcount ⊢ <;> omega
      size_le := hsize ▸ h.size_le
      next_absent := fun i hi => by
        rw [nextIndex?, hsize] at hi
        have hnext := h.next_absent i hi
        rw [hentries, OrderedMap.get?_set, if_neg, hnext]
        rintro rfl
        rw [hnext] at hold
        cases hold }

/-- A new entry does not belong to the array part. -/
theorem WellFormed.insert {t : Table} (h : t.WellFormed) {k : Key}
    (habsent : t.entries.get? k = none) (hplace : t.place? k = none) (hnormal : k.IsNormal)
    (hnext : ∀ i, t.nextIndex? = some i → k ≠ .integer i) {v : Value} (hv : v.isNil = false) :
    WellFormed { t with entries := t.entries.set k v } := by
  have hsome : ∀ k', ((t.entries.set k v).get? k').isSome → k = k' ∨ (t.entries.get? k').isSome := by
    intro k' hk'
    rw [OrderedMap.get?_set] at hk'
    split at hk'
    · next hk => exact .inl hk
    · exact .inr hk'
  exact
    { place?_eq_none := fun k' hk' => by
        rcases hsome k' hk' with rfl | hk'
        · exact hplace
        · exact h.place?_eq_none k' hk'
      isNormal := fun k' hk' => by
        rcases hsome k' hk' with rfl | hk'
        · exact hnormal
        · exact h.isNormal k' hk'
      cleared_eq := by
        have hcleared := h.cleared_eq
        rw [OrderedMap.countP_set_of_absent _ habsent, hv, hcleared, Bool.toNat_false,
          Nat.add_zero]
      size_le := h.size_le
      next_absent := fun i hi => by
        rw [OrderedMap.get?_set, if_neg (hnext i hi), h.next_absent i hi] }

theorem WellFormed.setEntry {t : Table} (h : t.WellFormed) {k : Key} {v : Value}
    (hplace : t.place? k = none) (hnormal : k.IsNormal)
    (hnext : v.isNil = false → ∀ i, t.nextIndex? = some i → k ≠ .integer i) :
    (t.setEntry k v).WellFormed := by
  cases hget : t.entries.get? k with
  | some old => exact h.overwrite hget v
  | none =>
    simp only [Table.setEntry, hget]
    split
    · exact h
    · next hv =>
      rw [Bool.not_eq_true] at hv
      split
      · refine h.compact.insert ?_ hplace hnormal (hnext hv) hv
        simp only [Table.compact, OrderedMap.get?_filter, hget, Option.filter_none]
      · exact h.insert hget hplace hnormal (hnext hv) hv

/-! ### Movement into the array part -/

/-- One entry has moved into the array part. -/
theorem Partitioned.move {t : Table} (h : t.Partitioned) {i : Int64}
    (hnext : t.nextIndex? = some i) {v : Value} (hget : t.entries.get? (.integer i) = some v)
    (hv : v.isNil = false) :
    Partitioned { t with
      array := t.array.push v
      entries := t.entries.erase (.integer i) } := by
  have hsome : ∀ k, ((t.entries.erase (.integer i)).get? k).isSome →
      k ≠ .integer i ∧ (t.entries.get? k).isSome := by
    intro k hk
    rw [OrderedMap.get?_erase] at hk
    split at hk
    · cases hk
    · next hne => exact ⟨Ne.symm hne, hk⟩
  exact
    { place?_eq_none := fun k hk => by
        obtain ⟨hne, hk⟩ := hsome k hk
        exact (place?_push hnext v hne).trans (h.place?_eq_none k hk)
      isNormal := fun k hk => h.isNormal k (hsome k hk).2
      cleared_eq := by
        have hcount := OrderedMap.countP_erase (fun e => e.2.isNil) hget
        have hcleared := h.cleared_eq
        simp only [hv, Bool.toNat_false, Nat.add_zero] at hcount
        rw [hcount, ← hcleared]
      size_le := by
        rw [Array.size_push]
        exact size_lt_of_nextIndex? hnext }

/-- One step of the movement. -/
theorem absorb_of_get? {t : Table} {i : Int64} {v : Value} (hnext : t.nextIndex? = some i)
    (hget : t.entries.get? (.integer i) = some v) :
    t.absorb =
      if v.isNil then
        { t with entries := t.entries.erase (.integer i), cleared := t.cleared - 1 }
      else absorb { t with array := t.array.push v, entries := t.entries.erase (.integer i) } := by
  rw [absorb, hnext]
  simp only
  split
  · next hnone =>
    rw [hget] at hnone
    cases hnone
  · next w hsome => rw [Option.some.inj (hget.symm.trans hsome)]

/-- The tables that are met while entries of `t` move into its array part. -/
inductive Absorbs (t : Table) : Table → Prop
  | start : Absorbs t t
  | move {u : Table} {i : Int64} {v : Value} (h : Absorbs t u) (hnext : u.nextIndex? = some i)
      (hget : u.entries.get? (.integer i) = some v) (hv : v.isNil = false) :
      Absorbs t { u with
        array := u.array.push v
        entries := u.entries.erase (.integer i) }

/-- The movement comes to each of these tables. -/
theorem Absorbs.absorb_eq {t u : Table} (h : Absorbs t u) : t.absorb = u.absorb := by
  induction h with
  | start => rfl
  | move _ hnext hget hv ih =>
    rw [ih, absorb_of_get? hnext hget, hv, if_neg Bool.false_ne_true]

theorem Partitioned.absorbs {t u : Table} (h : t.Partitioned) (hu : Absorbs t u) :
    u.Partitioned := by
  induction hu with
  | start => exact h
  | move _ hnext hget hv ih => exact ih.move hnext hget hv

/-- A cleared entry that would continue the array part is dropped; it has been counted. -/
theorem Partitioned.drop {t : Table} (h : t.Partitioned) {i : Int64}
    (hnext : t.nextIndex? = some i) {v : Value} (hget : t.entries.get? (.integer i) = some v)
    (hv : v.isNil = true) :
    WellFormed { t with
      entries := t.entries.erase (.integer i)
      cleared := t.cleared - 1 } := by
  have hsome : ∀ k, ((t.entries.erase (.integer i)).get? k).isSome → (t.entries.get? k).isSome := by
    intro k hk
    rw [OrderedMap.get?_erase] at hk
    split at hk
    · cases hk
    · exact hk
  exact
    { place?_eq_none := fun k hk => h.place?_eq_none k (hsome k hk)
      isNormal := fun k hk => h.isNormal k (hsome k hk)
      cleared_eq := by
        have hcount := OrderedMap.countP_erase (fun e => e.2.isNil) hget
        have hcleared := h.cleared_eq
        simp only [hv, Bool.toNat_true] at hcount
        simp only
        omega
      size_le := h.size_le
      next_absent := fun j hj => by
        obtain rfl := Option.some.inj (hnext.symm.trans hj)
        rw [OrderedMap.get?_erase, if_pos rfl] }

theorem Partitioned.absorb {t : Table} (h : t.Partitioned) : t.absorb.WellFormed := by
  fun_induction Table.absorb t with
  | case1 t hnext =>
    exact { h with next_absent := fun i hi => by rw [hnext] at hi; cases hi }
  | case2 t i hnext hget =>
    refine { h with next_absent := fun j hj => ?_ }
    obtain rfl := Option.some.inj (hnext.symm.trans hj)
    exact hget
  | case3 t i hnext v hget hv => exact h.drop hnext hget hv
  | case4 t i hnext v hget hv ih => exact ih (h.move hnext hget (by simpa using hv))

/-- The key that follows the array part has no entry to clear. -/
theorem WellFormed.clearEntry_next {t : Table} (h : t.WellFormed) {i : Int64}
    (hnext : t.nextIndex? = some i) : t.clearEntry (.integer i) = t := by
  simp only [clearEntry, h.next_absent i hnext]

theorem WellFormed.push {t : Table} (h : t.WellFormed) {i : Int64} (hnext : t.nextIndex? = some i)
    (v : Value) : Partitioned { t with array := t.array.push v } where
  place?_eq_none := fun k hk => by
    refine (place?_push hnext v ?_).trans (h.place?_eq_none k hk)
    rintro rfl
    simp [h.next_absent i hnext] at hk
  isNormal := h.isNormal
  cleared_eq := h.cleared_eq
  size_le := by
    rw [Array.size_push]
    exact size_lt_of_nextIndex? hnext

/-- A value has been added to the array part, and no entry has moved yet. -/
def extend (t : Table) (i : Int64) (v : Value) : Table :=
  { t.clearEntry (.integer i) with array := (t.clearEntry (.integer i)).array.push v }

theorem append_eq (t : Table) (i : Int64) (v : Value) : t.append i v = (t.extend i v).absorb :=
  rfl

theorem WellFormed.extend {t : Table} (h : t.WellFormed) {i : Int64}
    (hnext : t.nextIndex? = some i) (v : Value) : (t.extend i v).Partitioned := by
  rw [Table.extend, h.clearEntry_next hnext]
  exact h.push hnext v

theorem WellFormed.append {t : Table} (h : t.WellFormed) {i : Int64}
    (hnext : t.nextIndex? = some i) (v : Value) : (t.append i v).WellFormed := by
  rw [append_eq]
  exact (h.extend hnext v).absorb

/-- The hash part holds neither a key of the array part nor the one that follows it. -/
theorem WellFormed.get?_integer {t : Table} (h : t.WellFormed) {i : Int64} (hi : 1 ≤ i.toInt)
    (hle : i.toInt ≤ t.array.size + 1) : t.entries.get? (.integer i) = none := by
  rcases Int.lt_or_eq_of_le hle with hlt | heq
  · have hplace : t.place? (.integer i) = some (i.toInt - 1).toNat :=
      arrayIndex?_eq_some_iff.2 ⟨by omega, by omega⟩
    rw [← Option.not_isSome_iff_eq_none]
    intro hk
    rw [h.place?_eq_none _ hk] at hplace
    cases hplace
  · exact h.next_absent i (nextIndex?_eq_some_iff.2 heq)

/-! ### Histories -/

theorem WellFormed.setInteger {t : Table} (h : t.WellFormed) (i : Int64) (v : Value) :
    (t.setInteger i v).WellFormed := by
  cases hplace : t.arrayIndex? i with
  | some j =>
    simp only [Table.setInteger, hplace]
    have hsize : (t.array.setIfInBounds j v).size = t.array.size := Array.size_setIfInBounds
    exact
      { place?_eq_none := fun k hk => (place?_congr hsize k).trans (h.place?_eq_none k hk)
        isNormal := h.isNormal
        cleared_eq := h.cleared_eq
        size_le := hsize ▸ h.size_le
        next_absent := fun i hi => h.next_absent i (by
          simpa only [nextIndex?, hsize] using hi) }
  | none =>
    simp only [Table.setInteger, hplace]
    split
    · next hc =>
      simp only [Bool.and_eq_true, beq_iff_eq] at hc
      exact h.append hc.1 v
    · next hc =>
      refine h.setEntry (k := .integer i) hplace trivial fun hv j hj hk => hc ?_
      cases hk
      simp [hj, hv]

/-- **One write.** A write of a value under a key in normal form keeps the invariant. -/
theorem WellFormed.setKey {t : Table} (h : t.WellFormed) {k : Key} (hk : k.IsNormal) (v : Value) :
    (t.setKey k v).WellFormed := by
  cases k with
  | integer i => exact h.setInteger i v
  | _ => exact h.setEntry rfl hk fun _ _ _ => nofun

theorem WellFormed.perform {t : Table} (h : t.WellFormed) (w : Write) : (t.perform w).WellFormed := by
  cases w with
  | set key v =>
    cases hkey : Key.ofValue key with
    | error _ =>
      simp only [Table.perform, Table.set, hkey]
      exact h
    | ok k =>
      simp only [Table.perform, Table.set, hkey]
      exact h.setKey (Key.isNormal_of_ofValue hkey) v
  | setInteger i v => exact h.setInteger i v
  | setString s v => exact h.setKey (k := .string s) trivial v
  | compact => exact h.compact

theorem WellFormed.after {t : Table} (h : t.WellFormed) (writes : List Write) :
    (t.after writes).WellFormed := by
  induction writes generalizing t with
  | nil => exact h
  | cons w rest ih => exact ih (h.perform w)

theorem wellFormed_after (writes : List Write) : (empty.after writes).WellFormed :=
  wellFormed_empty.after writes

/-! ### The keys that have values -/

/-- The entries of the array part. -/
def arrayEntries (t : Table) : List (Key × Value) :=
  t.array.toList.zipIdx.map fun (v, j) => (.integer (Int64.ofNat (j + 1)), v)

theorem toList_eq (t : Table) :
    t.toList = (t.arrayEntries ++ t.entries.toList).filter fun e => !e.2.isNil :=
  rfl

theorem getElem?_arrayEntries (t : Table) (j : Nat) :
    t.arrayEntries[j]? = t.array[j]?.map fun v => (.integer (Int64.ofNat (j + 1)), v) := by
  simp [arrayEntries]
  rfl

/-- The key of a place in the array part. -/
theorem place?_ofNat {t : Table} (h : t.Partitioned) {j : Nat} (hj : j < t.array.size) :
    t.place? (.integer (Int64.ofNat (j + 1))) = some j := by
  have hsize := h.size_le
  refine arrayIndex?_eq_some_iff.2 ⟨?_, hj⟩
  rw [Int64.toInt_ofNat_of_lt (by omega)]
  rfl

theorem mem_arrayEntries_iff {t : Table} (h : t.Partitioned) {k : Key} {v : Value} :
    (k, v) ∈ t.arrayEntries ↔ ∃ j, t.place? k = some j ∧ t.array[j]? = some v := by
  simp only [List.mem_iff_getElem?, getElem?_arrayEntries, Option.map_eq_some_iff, Prod.mk.injEq]
  constructor
  · rintro ⟨j, _, hj, rfl, rfl⟩
    exact ⟨j, place?_ofNat h (Array.getElem?_eq_some_iff.1 hj).1, hj⟩
  · rintro ⟨j, hplace, hj⟩
    refine ⟨j, v, hj, ?_, rfl⟩
    exact place?_injective (place?_ofNat h (place?_lt hplace)) hplace

/-- The entries that are listed are the keys that have values. -/
theorem Partitioned.mem_toList_iff {t : Table} (h : t.Partitioned) {k : Key} {v : Value} :
    (k, v) ∈ t.toList ↔ t.getKey k = v ∧ v.isNil = false := by
  rw [toList_eq, List.mem_filter, List.mem_append, mem_arrayEntries_iff h,
    OrderedMap.mem_toList_iff, Bool.not_eq_true']
  refine and_congr_left fun hv => ?_
  cases hplace : t.place? k with
  | some j =>
    have hnone : t.entries.get? k = none := by
      rw [← Option.not_isSome_iff_eq_none]
      intro hk
      rw [h.place?_eq_none k hk] at hplace
      cases hplace
    rw [getKey_of_place hplace, Array.getElem?_eq_getElem (place?_lt hplace)]
    simp [hnone, Array.getElem?_eq_getElem (place?_lt hplace)]
  | none =>
    rw [getKey_of_no_place hplace, getEntry]
    cases hk : t.entries.get? k with
    | some v' => simp
    | none =>
      simp only [reduceCtorEq, false_and, exists_false, or_self, Option.getD_none, false_iff]
      rintro rfl
      cases hv

theorem Partitioned.nodup_arrayEntries {t : Table} (h : t.Partitioned) :
    (t.arrayEntries.map Prod.fst).Nodup := by
  rw [List.Nodup, List.pairwise_iff_getElem]
  intro i j hi hj hlt he
  simp only [arrayEntries, List.length_map, List.length_zipIdx, Array.length_toList] at hi hj
  have hi' := place?_ofNat h hi
  simp only [arrayEntries, List.getElem_map, List.getElem_zipIdx, Nat.zero_add] at he
  rw [he, place?_ofNat h hj] at hi'
  injection hi'
  omega

/-- No key is listed twice. -/
theorem Partitioned.nodup_toList {t : Table} (h : t.Partitioned) :
    (t.toList.map Prod.fst).Nodup := by
  have hall : ((t.arrayEntries ++ t.entries.toList).map Prod.fst).Nodup := by
    rw [List.map_append, List.nodup_append]
    refine ⟨h.nodup_arrayEntries, t.entries.nodup_keys, ?_⟩
    rintro k hk _ hk' rfl
    obtain ⟨⟨_, v⟩, hv, rfl⟩ := List.mem_map.1 hk
    obtain ⟨⟨_, v'⟩, hv', rfl⟩ := List.mem_map.1 hk'
    obtain ⟨j, hplace, -⟩ := (mem_arrayEntries_iff h).1 hv
    have hnone := h.place?_eq_none _ (Option.isSome_iff_exists.2
      ⟨v', OrderedMap.mem_toList_iff.1 hv'⟩)
    simp only at hplace hnone
    rw [hnone] at hplace
    cases hplace
  exact hall.sublist (List.filter_sublist.map _)

/-- There are no more cleared entries than entries. -/
theorem Partitioned.cleared_le {t : Table} (h : t.Partitioned) : t.cleared ≤ t.entries.size := by
  rw [h.cleared_eq, ← OrderedMap.length_toList]
  exact List.countP_le_length

/-- An entry that is cleared has been counted. -/
theorem Partitioned.cleared_pos {t : Table} (h : t.Partitioned) {k : Key}
    (hk : t.entries.get? k = some .nil) : 0 < t.cleared := by
  rw [h.cleared_eq, List.countP_pos_iff]
  exact ⟨(k, .nil), OrderedMap.mem_toList_iff.2 hk, rfl⟩

/-- A cleared entry that is written again is not counted any more. -/
theorem Partitioned.setEntry_revived {t : Table} (h : t.Partitioned) {k : Key} {v : Value}
    (hk : t.entries.get? k = some .nil) (hv : v.isNil = false) :
    (t.setEntry k v).cleared + 1 = t.cleared := by
  have hpos := h.cleared_pos hk
  simp only [Table.setEntry, hk, hv, Value.isNil_nil]
  omega

/-- A cleared entry that is dropped is not counted any more. -/
theorem Partitioned.absorb_dropped {t : Table} (h : t.Partitioned) {i : Int64}
    (hnext : t.nextIndex? = some i) (hget : t.entries.get? (.integer i) = some .nil) :
    t.absorb.cleared + 1 = t.cleared := by
  have hpos := h.cleared_pos hget
  rw [absorb_of_get? hnext hget, Value.isNil_nil, if_pos rfl]
  simp only
  omega

theorem Partitioned.length_toList {t : Table} (h : t.Partitioned) :
    t.toList.length = t.liveCount := by
  have harray : (t.arrayEntries.filter fun e => !e.2.isNil).length =
      t.array.countP fun v => !v.isNil := by
    rw [← List.countP_eq_length_filter, arrayEntries, List.countP_map, ← Array.countP_toList,
      ← List.zipIdx_map_fst 0 t.array.toList, List.countP_map]
    simp
    rfl
  have hentries : (t.entries.toList.filter fun e => !e.2.isNil).length = t.liveEntries := by
    have hsplit := List.length_eq_countP_add_countP (fun e : Key × Value => e.2.isNil)
      (l := t.entries.toList)
    rw [← List.countP_eq_length_filter, liveEntries, h.cleared_eq, ← OrderedMap.length_toList]
    have : (t.entries.toList.countP fun e => !e.2.isNil) =
        t.entries.toList.countP fun e => decide ¬(e.2.isNil = true) :=
      List.countP_congr fun e _ => by simp
    omega
  rw [toList_eq, List.filter_append, List.length_append, harray, hentries, liveCount]

/-- **Live keys.** The number of keys that have values is the one that is computed from the sizes of
the parts and the number of cleared entries. -/
theorem Partitioned.encard_live {t : Table} (h : t.Partitioned) :
    {k | (t.getKey k).isNil = false}.encard = t.liveCount := by
  have hset : {k | (t.getKey k).isNil = false} = ((t.toList.map Prod.fst).toFinset : Set Key) := by
    ext k
    simp [h.mem_toList_iff]
  rw [hset, Set.encard_coe_eq_coe_finsetCard, List.toFinset_card_of_nodup h.nodup_toList,
    List.length_map, h.length_toList]

/-- **The representation of tables.** After any history of writes and compactions of a new table,
the hash part holds no key from `1` to `n + 1`, where the array part has `n` values; its keys are in
normal form, and each occurs once; and the counter is the number of cleared entries.  It therefore
counts down by one when a cleared entry is written again, and when one is dropped while a value is
added to the array part; it is at most the number of entries, and the difference is part of the
number of keys that have values. -/
theorem representation_after_history (writes : List Write) :
    let t := empty.after writes
    (∀ i : Int64, 1 ≤ i.toInt → i.toInt ≤ t.array.size + 1 → t.entries.get? (.integer i) = none) ∧
    (∀ e ∈ t.entries.toList, e.1.IsNormal) ∧
    (t.entries.toList.map Prod.fst).Nodup ∧
    t.cleared = t.entries.toList.countP (fun e => e.2.isNil) ∧
    (∀ k v, t.entries.get? k = some .nil → v.isNil = false →
      (t.setEntry k v).cleared + 1 = t.cleared) ∧
    (∀ i v u j, t.nextIndex? = some i → Absorbs (t.extend i v) u → u.nextIndex? = some j →
      u.entries.get? (.integer j) = some .nil → (t.append i v).cleared + 1 = u.cleared) ∧
    t.liveEntries + t.cleared = t.entries.size ∧
    {k | (t.getKey k).isNil = false}.encard = t.liveCount := by
  intro t
  have h : t.WellFormed := wellFormed_after writes
  refine ⟨fun i hi hle => h.get?_integer hi hle, ?_, t.entries.nodup_keys, h.cleared_eq,
    fun k v hk hv => h.setEntry_revived hk hv, ?_, Nat.sub_add_cancel h.cleared_le, h.encard_live⟩
  · rintro ⟨k, v⟩ he
    exact h.isNormal k (Option.isSome_iff_exists.2 ⟨v, OrderedMap.mem_toList_iff.1 he⟩)
  · intro i v u j hnext hu hnext' hget
    rw [append_eq, hu.absorb_eq]
    exact ((h.extend hnext v).absorbs hu).absorb_dropped hnext' hget

end Table

end LuaMachine
