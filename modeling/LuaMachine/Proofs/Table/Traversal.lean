import LuaMachine.Proofs.Table.Representation

/-!
# Traversals

A traversal asks for the entry after the key that was answered last.  The entries of a table lie at
places, those of the array part before those of the hash part, and a key that is present keeps its
place: a write under such a key neither compacts the hash part nor moves entries into the array part,
even if the key has been cleared.  All that a traversal has to remember is therefore one place, and
what it has passed it has answered.

Between two calls a table may be written under keys that have values.  Such writes can take keys away
from what is still to come, but they cannot add any.

## Main definitions

* `Table.places`, `Table.position?` : the places of a table, and those of its keys.
* `Table.Updates` : the writes under keys that have values.
* `Traversal`, `Traversal.Of` : a traversal with writes between its calls.

## Main statements

* `Table.next?_toValue` : the entry after a key is the first one behind its place.
* `Table.WellFormed.position?_setKey` : a write under a key that is present moves nothing.
* `Traversal.Progress.write`, `Traversal.Progress.call` : what each step of a traversal keeps.
* `Traversal.Of.complete_under_writes` : a traversal answers each key that keeps a value exactly
  once, and ends.
-/

namespace LuaMachine

namespace Table

/-! ### Places -/

/-- The places of a table in the order of traversal. -/
def places (t : Table) : List (Option (Key × Value)) :=
  t.arrayEntries.map some ++ t.entries.slots.toList

/-- The place of a key that is present, possibly without a value. -/
def position? (t : Table) (k : Key) : Option Nat :=
  match t.place? k with
  | some j => some j
  | none => (t.entries.position? k).map (t.array.size + ·)

theorem length_arrayEntries (t : Table) : t.arrayEntries.length = t.array.size := by
  simp [arrayEntries]

theorem getElem?_places_of_lt {t : Table} {p : Nat} (hp : p < t.array.size) :
    t.places[p]? = some (some (.integer (Int64.ofNat (p + 1)), t.array[p])) := by
  rw [places, List.getElem?_append_left (by simpa [length_arrayEntries] using hp),
    List.getElem?_map, getElem?_arrayEntries, Array.getElem?_eq_getElem hp]
  rfl

theorem getElem?_places_of_le {t : Table} {p : Nat} (hp : t.array.size ≤ p) :
    t.places[p]? = t.entries.slots[p - t.array.size]? := by
  rw [places, List.getElem?_append_right (by simpa [length_arrayEntries] using hp),
    List.length_map, length_arrayEntries, Array.getElem?_toList]

/-- **Layout.** The places hold the keys that are present with their values. -/
theorem getElem?_places_iff {t : Table} (h : t.Partitioned) {p : Nat} {k : Key} {v : Value} :
    t.places[p]? = some (some (k, v)) ↔ t.position? k = some p ∧ t.getKey k = v := by
  rcases Nat.lt_or_ge p t.array.size with hp | hp
  · rw [getElem?_places_of_lt hp]
    have hplace := place?_ofNat h hp
    constructor
    · intro he
      obtain ⟨rfl, rfl⟩ := Prod.mk.inj (Option.some.inj (Option.some.inj he))
      refine ⟨by simp only [position?, hplace], ?_⟩
      rw [getKey_of_place hplace, Array.getElem?_eq_getElem hp, Option.getD_some]
    · rintro ⟨hpos, rfl⟩
      simp only [position?] at hpos
      split at hpos
      · next j hj =>
        obtain rfl := Option.some.inj hpos
        obtain rfl := place?_injective hj hplace
        rw [getKey_of_place hplace, Array.getElem?_eq_getElem hp, Option.getD_some]
      · obtain ⟨q, -, hq⟩ := Option.map_eq_some_iff.1 hpos
        omega
  · rw [getElem?_places_of_le hp]
    constructor
    · intro he
      have hget : t.entries.get? k = some v := (t.entries.get?_eq_some_iff).2 ⟨_, he⟩
      have hplace := h.place?_eq_none k (Option.isSome_iff_exists.2 ⟨v, hget⟩)
      have hindex : t.entries.position? k = some (p - t.array.size) :=
        (t.entries.coherent k _).2 ⟨v, he⟩
      refine ⟨?_, ?_⟩
      · simp only [position?, hplace, hindex, Option.map_some, Option.some.injEq]
        omega
      · rw [getKey_of_no_place hplace, getEntry, hget, Option.getD_some]
    · rintro ⟨hpos, rfl⟩
      simp only [position?] at hpos
      split at hpos
      · next j hj =>
        have hlt := place?_lt hj
        obtain rfl := Option.some.inj hpos
        omega
      · next hplace =>
        obtain ⟨q, hq, rfl⟩ := Option.map_eq_some_iff.1 hpos
        obtain ⟨v, hv⟩ := (t.entries.coherent k q).1 hq
        rw [Nat.add_sub_cancel_left, hv, getKey_of_no_place hplace, getEntry,
          t.entries.get?_eq_some_iff.2 ⟨q, hv⟩, Option.getD_some]

theorem position?_injective {t : Table} (h : t.Partitioned) {k k' : Key} {p : Nat}
    (hp : t.position? k = some p) (hp' : t.position? k' = some p) : k = k' := by
  have he := ((getElem?_places_iff h).2 ⟨hp, rfl⟩).symm.trans
    ((getElem?_places_iff h).2 ⟨hp', rfl⟩)
  exact (Prod.mk.inj (Option.some.inj (Option.some.inj he))).1

/-- A key that has a value has a place. -/
theorem exists_position? {t : Table} {k : Key} (hk : (t.getKey k).isNil = false) :
    ∃ p, t.position? k = some p := by
  simp only [position?]
  split
  · next j hj => exact ⟨j, rfl⟩
  · next hplace =>
    rw [getKey_of_no_place hplace, getEntry] at hk
    cases hget : t.entries.get? k with
    | none =>
      rw [hget] at hk
      cases hk
    | some v =>
      obtain ⟨q, hq, -⟩ := OrderedMap.exists_position?_of_get? hget
      exact ⟨t.array.size + q, by rw [hq, Option.map_some]⟩

/-- A key that is present is in normal form. -/
theorem Partitioned.isNormal_of_position? {t : Table} (h : t.Partitioned) {k : Key} {p : Nat}
    (hp : t.position? k = some p) : k.IsNormal := by
  simp only [position?] at hp
  split at hp
  · next j hj =>
    cases k with
    | integer i => trivial
    | _ => cases hj
  · obtain ⟨q, hq, -⟩ := Option.map_eq_some_iff.1 hp
    obtain ⟨v, hv⟩ := (t.entries.coherent k q).1 hq
    exact h.isNormal k (Option.isSome_iff_exists.2 ⟨v, t.entries.get?_eq_some_iff.2 ⟨q, hv⟩⟩)

/-! ### The entry after a key -/

/-- What a traversal finds at a place: an entry that is not nil. -/
def found (slot : Option (Key × Value)) : Option (Key × Value) := slot.filter fun e => !e.2.isNil

theorem found_of_nil {e : Key × Value} (h : e.2.isNil = true) : found (some e) = none :=
  Option.filter_some_neg (by simp [h])

theorem found_of_live {e : Key × Value} (h : e.2.isNil = false) : found (some e) = some e :=
  Option.filter_some_pos (by simp [h])

/-- The first entry from a place on that is not nil. -/
def first? (t : Table) (c : Nat) : Option (Key × Value) := (t.places.drop c).findSome? found

theorem nextEntry?_eq (t : Table) (i : Nat) : t.nextEntry? i = t.first? (t.array.size + i) := by
  have hdrop : t.places.drop (t.array.size + i) = t.entries.slots.toList.drop i := by
    rw [places, List.drop_append, List.length_map, length_arrayEntries, Nat.add_sub_cancel_left,
      List.drop_eq_nil_of_le (by rw [List.length_map, length_arrayEntries]; omega),
      List.nil_append]
  rw [first?, hdrop, nextEntry?, OrderedMap.firstFrom?_eq]
  rfl

theorem nextFrom?_eq {t : Table} {j : Nat} (hj : j ≤ t.array.size) :
    t.nextFrom? j = t.first? j := by
  have hcons : ∀ j (h : j < t.array.size), t.places.drop j =
      some (.integer (Int64.ofNat (j + 1)), t.array[j]) :: t.places.drop (j + 1) := by
    intro j h
    obtain ⟨hlt, he⟩ := List.getElem?_eq_some_iff.1 (getElem?_places_of_lt h)
    rw [List.drop_eq_getElem_cons hlt, he]
  fun_induction nextFrom? t j with
  | case1 j h hnil ih => rw [ih h, first?, first?, hcons j h, List.findSome?_cons, found_of_nil hnil]
  | case2 j h hnil =>
    rw [first?, hcons j h, List.findSome?_cons, found_of_live (by simpa using hnil)]
  | case3 j h =>
    obtain rfl : j = t.array.size := by omega
    exact t.nextEntry?_eq 0

theorem next?_nil (t : Table) : t.next? .nil = some (t.first? 0) := by
  rw [next?, nextFrom?_eq (Nat.zero_le _)]

/-- The entry after a key is the first one behind its place. -/
theorem next?_toValue {t : Table} (h : t.Partitioned) {k : Key} {p : Nat}
    (hp : t.position? k = some p) : t.next? k.toValue = some (t.first? (p + 1)) := by
  have hkey := (h.isNormal_of_position? hp).ofValue_toValue
  have hnext : t.next? k.toValue =
      match t.place? k with
      | some j => some (t.nextFrom? (j + 1))
      | none => (t.entries.position? k).map fun i => t.nextEntry? (i + 1) := by
    simp only [next?, hkey]
    cases k <;> rfl
  rw [hnext]
  simp only [position?] at hp
  split at hp
  · next j hj =>
    obtain rfl := Option.some.inj hp
    rw [nextFrom?_eq (place?_lt hj)]
  · obtain ⟨q, hq, rfl⟩ := Option.map_eq_some_iff.1 hp
    simp only [hq, Option.map_some, nextEntry?_eq, Nat.add_assoc]

/-- An entry that is found has a value, and the keys that are skipped have none. -/
theorem Partitioned.of_first?_eq_some {t : Table} (h : t.Partitioned) {c : Nat} {k : Key}
    {v : Value} (hfirst : t.first? c = some (k, v)) :
    ∃ p, c ≤ p ∧ t.position? k = some p ∧ t.getKey k = v ∧ v.isNil = false ∧
      ∀ k' q, t.position? k' = some q → c ≤ q → q < p → (t.getKey k').isNil = true := by
  obtain ⟨before, slot, rest, hdrop, hslot, hbefore⟩ := List.findSome?_eq_some_iff.1 hfirst
  obtain ⟨rfl, hv⟩ := Option.filter_eq_some_iff.1 hslot
  have hat : ∀ q, c ≤ q → t.places[q]? = (before ++ some (k, v) :: rest)[q - c]? := by
    intro q hq
    rw [← hdrop, List.getElem?_drop, Nat.add_sub_cancel' hq]
  have hp : t.places[c + before.length]? = some (some (k, v)) := by
    rw [hat _ (Nat.le_add_right _ _), Nat.add_sub_cancel_left,
      List.getElem?_append_right (Nat.le_refl _), Nat.sub_self, List.getElem?_cons_zero]
  obtain ⟨hpos, hget⟩ := (getElem?_places_iff h).1 hp
  refine ⟨c + before.length, Nat.le_add_right _ _, hpos, hget, by simpa using hv, ?_⟩
  intro k' q hq hle hlt
  have hslot' := (getElem?_places_iff h).2 ⟨hq, rfl⟩
  rw [hat q hle, List.getElem?_append_left (by omega)] at hslot'
  have hnone := hbefore _ (List.mem_of_getElem? hslot')
  simpa [found] using hnone

/-- If no entry is found, no key that is still to come has a value. -/
theorem Partitioned.of_first?_eq_none {t : Table} (h : t.Partitioned) {c : Nat}
    (hfirst : t.first? c = none) {k : Key} {p : Nat} (hp : t.position? k = some p) (hc : c ≤ p) :
    (t.getKey k).isNil = true := by
  have hslot := (getElem?_places_iff h).2 ⟨hp, rfl⟩
  have hmem : some (k, t.getKey k) ∈ t.places.drop c :=
    List.mem_of_getElem? (i := p - c) (by rw [List.getElem?_drop, Nat.add_sub_cancel' hc, hslot])
  have hnone := List.findSome?_eq_none_iff.1 hfirst _ hmem
  simpa [found] using hnone

/-! ### Writes under keys that are present -/

/-- **Stable places.** A write under a key that is present moves nothing. -/
theorem WellFormed.position?_setKey {t : Table} (h : t.WellFormed) {k : Key} {p : Nat}
    (hp : t.position? k = some p) (v : Value) (k' : Key) :
    (t.setKey k v).position? k' = t.position? k' := by
  have hentry : t.place? k = none → (t.setEntry k v).position? k' = t.position? k' := by
    intro hplace
    simp only [position?, hplace] at hp
    obtain ⟨q, hq, -⟩ := Option.map_eq_some_iff.1 hp
    obtain ⟨old, hold⟩ := (t.entries.coherent k q).1 hq
    have hget := t.entries.get?_eq_some_iff.2 ⟨q, hold⟩
    simp only [Table.setEntry, hget, position?, OrderedMap.position?_set_of_position? hq]
    rfl
  cases k with
  | integer i =>
    cases hplace : t.arrayIndex? i with
    | some j =>
      have hsize : (t.array.setIfInBounds j v).size = t.array.size := Array.size_setIfInBounds
      have hplaces : Table.place? { t with array := t.array.setIfInBounds j v } k' = t.place? k' :=
        place?_congr hsize k'
      simp only [Table.setKey, Table.setInteger, hplace, position?, hplaces, hsize]
    | none =>
      have hnext : ¬t.nextIndex? = some i := by
        intro hi
        have habsent := OrderedMap.position?_eq_none_iff.2 (h.next_absent i hi)
        simp only [position?, place?, hplace, habsent, Option.map_none] at hp
        cases hp
      simp only [Table.setKey, Table.setInteger, hplace]
      rw [if_neg (by simp [hnext])]
      exact hentry hplace
  | _ => exact hentry rfl

/-- A write of a value, possibly nil, under a key that has one. -/
def Updates (t : Table) (w : Write) : Prop :=
  ∃ k v, w.entry? = some (k, v) ∧ (t.getKey k).isNil = false

theorem perform_eq_setKey {t : Table} {w : Write} {k : Key} {v : Value}
    (h : w.entry? = some (k, v)) : t.perform w = t.setKey k v := by
  cases w with
  | set key v' =>
    simp only [Write.entry?, Option.map_eq_some_iff, Prod.mk.injEq] at h
    obtain ⟨k', hkey, rfl, rfl⟩ := h
    cases hk : Key.ofValue key with
    | error _ =>
      rw [hk] at hkey
      cases hkey
    | ok k'' =>
      rw [hk] at hkey
      obtain rfl := Option.some.inj hkey
      simp only [perform, set, hk]
      rfl
  | setInteger i v' =>
    cases h
    rfl
  | setString s v' =>
    cases h
    rfl
  | compact => cases h

theorem WellFormed.position?_perform {t : Table} (h : t.WellFormed) {w : Write} (hw : t.Updates w)
    (k : Key) : (t.perform w).position? k = t.position? k := by
  obtain ⟨k', v, hentry, hlive⟩ := hw
  obtain ⟨p, hp⟩ := exists_position? hlive
  rw [perform_eq_setKey hentry]
  exact h.position?_setKey hp v k

/-- Such a write gives no key a value that had none. -/
theorem Updates.of_live {t : Table} {w : Write} (hw : t.Updates w) {k : Key}
    (hk : ((t.perform w).getKey k).isNil = false) : (t.getKey k).isNil = false := by
  obtain ⟨k', v, hentry, hlive⟩ := hw
  rw [getKey_perform, hentry] at hk
  simp only at hk
  split at hk
  · next he => rwa [← he]
  · exact hk

end Table

/-! ### Traversals -/

/-- A traversal: the table as it is now, the key that was answered last, and all answers. -/
structure Traversal where
  table : Table
  /-- The key after which the next call asks; nil before the first call. -/
  last : Value
  /-- The answers, the latest last. -/
  returned : List (Key × Value)

namespace Traversal

/-- The traversals of a table: calls for the entry after the last one, and between them writes under
keys that have values. -/
inductive Of (t : Table) : Traversal → Prop
  | start : Of t ⟨t, .nil, []⟩
  | write {x : Traversal} {w : Table.Write} (h : Of t x) (hw : x.table.Updates w) :
      Of t { x with table := x.table.perform w }
  | call {x : Traversal} {k : Key} {v : Value} (h : Of t x)
      (hnext : x.table.next? x.last = some (some (k, v))) :
      Of t { x with
        last := k.toValue
        returned := x.returned ++ [(k, v)] }

/-- A traversal of `t` has passed the places before `c`. -/
structure Progress (t : Table) (x : Traversal) (c : Nat) : Prop where
  wellFormed : x.table.WellFormed
  position?_eq : ∀ k, x.table.position? k = t.position? k
  live : ∀ k, (x.table.getKey k).isNil = false → (t.getKey k).isNil = false
  stands : x.last = .nil ∧ c = 0 ∨ ∃ k p, x.last = k.toValue ∧ t.position? k = some p ∧ c = p + 1
  nodup : (x.returned.map Prod.fst).Nodup
  returned : ∀ k ∈ x.returned.map Prod.fst,
    (t.getKey k).isNil = false ∧ ∃ p < c, t.position? k = some p
  passed : ∀ k p, t.position? k = some p → p < c → (x.table.getKey k).isNil = false →
    k ∈ x.returned.map Prod.fst

variable {t : Table} {x : Traversal} {c : Nat}

theorem Progress.start (h : t.WellFormed) : Progress t ⟨t, .nil, []⟩ 0 where
  wellFormed := h
  position?_eq := fun _ => rfl
  live := fun _ hk => hk
  stands := .inl ⟨rfl, rfl⟩
  nodup := List.nodup_nil
  returned := fun _ hk => by cases hk
  passed := fun _ p _ hp => absurd hp (Nat.not_lt_zero p)

/-- The next call asks for the first entry from the place on to which the traversal has come. -/
theorem Progress.next? (h : Progress t x c) : x.table.next? x.last = some (x.table.first? c) := by
  obtain ⟨hlast, rfl⟩ | ⟨k, p, hlast, hp, rfl⟩ := h.stands
  · rw [hlast, Table.next?_nil]
  · rw [hlast, Table.next?_toValue h.wellFormed.toPartitioned ((h.position?_eq k).trans hp)]

theorem Progress.write (h : Progress t x c) {w : Table.Write} (hw : x.table.Updates w) :
    Progress t { x with table := x.table.perform w } c where
  wellFormed := h.wellFormed.perform w
  position?_eq := fun k => (h.wellFormed.position?_perform hw k).trans (h.position?_eq k)
  live := fun k hk => h.live k (hw.of_live hk)
  stands := h.stands
  nodup := h.nodup
  returned := h.returned
  passed := fun k p hp hc hk => h.passed k p hp hc (hw.of_live hk)

/-- What is answered next is an entry of the table that has not been answered before. -/
theorem Progress.fresh (h : Progress t x c) {k : Key} {v : Value}
    (hnext : x.table.next? x.last = some (some (k, v))) :
    x.table.getKey k = v ∧ v.isNil = false ∧ k ∉ x.returned.map Prod.fst := by
  rw [h.next?] at hnext
  obtain ⟨p, hc, hp, hget, hv, -⟩ :=
    h.wellFormed.of_first?_eq_some (Option.some.inj hnext)
  refine ⟨hget, hv, fun hmem => ?_⟩
  obtain ⟨-, q, hq, hpos⟩ := h.returned k hmem
  rw [h.position?_eq, hpos] at hp
  have hqp := Option.some.inj hp
  omega

theorem Progress.call (h : Progress t x c) {k : Key} {v : Value}
    (hnext : x.table.next? x.last = some (some (k, v))) :
    ∃ c', Progress t { x with
      last := k.toValue
      returned := x.returned ++ [(k, v)] } c' := by
  obtain ⟨hget, hv, hfresh⟩ := h.fresh hnext
  rw [h.next?] at hnext
  obtain ⟨p, hc, hp, -, -, hskipped⟩ := h.wellFormed.of_first?_eq_some (Option.some.inj hnext)
  have hlive : (t.getKey k).isNil = false := h.live k (by rw [hget, hv])
  have hpos : t.position? k = some p := (h.position?_eq k).symm.trans hp
  refine ⟨p + 1, ?_⟩
  exact
    { wellFormed := h.wellFormed
      position?_eq := h.position?_eq
      live := h.live
      stands := .inr ⟨k, p, rfl, hpos, rfl⟩
      nodup := by
        rw [List.map_append, List.nodup_append]
        refine ⟨h.nodup, List.nodup_singleton k, ?_⟩
        rintro k' hk' _ hk rfl
        obtain rfl := List.mem_singleton.1 hk
        exact hfresh hk'
      returned := by
        intro k' hk'
        rw [List.map_append, List.mem_append] at hk'
        rcases hk' with hk' | hk'
        · obtain ⟨hlive', q, hq, hpos'⟩ := h.returned k' hk'
          exact ⟨hlive', q, by omega, hpos'⟩
        · obtain rfl := List.mem_singleton.1 hk'
          exact ⟨hlive, p, Nat.lt_succ_self p, hpos⟩
      passed := by
        intro k' q hq hlt hlive'
        rw [List.map_append, List.mem_append]
        rcases Nat.lt_or_ge q c with hqc | hqc
        · exact .inl (h.passed k' q hq hqc hlive')
        · rcases Nat.lt_or_ge q p with hqp | hqp
          · have hnil := hskipped k' q ((h.position?_eq k').trans hq) hqc hqp
            rw [hlive'] at hnil
            cases hnil
          · obtain rfl : q = p := by omega
            exact .inr (List.mem_singleton.2 (Table.position?_injective
              h.wellFormed.toPartitioned ((h.position?_eq k').trans hq) hp)) }

theorem Of.progress (ht : t.WellFormed) (h : Of t x) : ∃ c, Progress t x c := by
  induction h with
  | start => exact ⟨0, .start ht⟩
  | write _ hw ih =>
    obtain ⟨c, h⟩ := ih
    exact ⟨c, h.write hw⟩
  | call _ hnext ih =>
    obtain ⟨c, h⟩ := ih
    exact h.call hnext

/-- No more entries are answered than keys had values at the start. -/
theorem Progress.length_le (ht : t.WellFormed) (h : Progress t x c) :
    x.returned.length ≤ t.liveCount := by
  have hsub : x.returned.map Prod.fst ⊆ t.toList.map Prod.fst := by
    intro k hk
    rw [List.mem_map]
    exact ⟨(k, t.getKey k), ht.mem_toList_iff.2 ⟨rfl, (h.returned k hk).1⟩, rfl⟩
  have hle := (h.nodup.subperm hsub).length_le
  rwa [List.length_map, List.length_map, ht.length_toList] at hle

/-- At the end every key that has a value has been answered. -/
theorem Progress.mem_returned (h : Progress t x c) (hend : x.table.next? x.last = some none)
    {k : Key} (hk : (x.table.getKey k).isNil = false) : k ∈ x.returned.map Prod.fst := by
  rw [h.next?] at hend
  obtain ⟨p, hp⟩ := Table.exists_position? hk
  rcases Nat.lt_or_ge p c with hlt | hge
  · exact h.passed k p ((h.position?_eq k).symm.trans hp) hlt hk
  · have hnil := h.wellFormed.of_first?_eq_none (Option.some.inj hend) hp hge
    rw [hk] at hnil
    cases hnil

/-- **Complete traversal under mutation.** A traversal of a table that any history of writes has
left, with writes under keys that have values between its calls: no call fails; each answer is a key
with the value it has now, and a key that has not been answered; there are at most as many answers as
keys with values at the start, and after so many the traversal is at its end.  At the end each key
that has kept a value, as it still has one, has been answered exactly once; and if the table is then
as it was, in particular if nothing was written, there are as many answers as keys with values. -/
theorem Of.complete_under_writes {writes : List Table.Write} {x : Traversal}
    (h : Of (Table.empty.after writes) x) :
    x.table.next? x.last ≠ none ∧
    (∀ k v, x.table.next? x.last = some (some (k, v)) →
      x.table.getKey k = v ∧ v.isNil = false ∧ k ∉ x.returned.map Prod.fst) ∧
    (x.returned.map Prod.fst).Nodup ∧
    x.returned.length ≤ (Table.empty.after writes).liveCount ∧
    (x.returned.length = (Table.empty.after writes).liveCount → x.table.next? x.last = some none) ∧
    (x.table.next? x.last = some none →
      (∀ k, (x.table.getKey k).isNil = false → (x.returned.map Prod.fst).count k = 1) ∧
      (x.table = Table.empty.after writes →
        x.returned.length = (Table.empty.after writes).liveCount)) := by
  have ht := Table.wellFormed_after writes
  obtain ⟨c, hc⟩ := h.progress ht
  have hanswer : x.table.next? x.last ≠ none := by
    rw [hc.next?]
    exact Option.some_ne_none _
  refine ⟨hanswer, fun k v hnext => hc.fresh hnext, hc.nodup, hc.length_le ht, ?_, ?_⟩
  · intro hlen
    -- One more answer would be one too many.
    match hnext : x.table.next? x.last with
    | none => exact absurd hnext hanswer
    | some none => rfl
    | some (some (k, v)) =>
      obtain ⟨c', hc'⟩ := hc.call hnext
      have hle := hc'.length_le ht
      simp only [List.length_append, List.length_singleton, hlen] at hle
      omega
  · intro hend
    refine ⟨fun k hk => List.count_eq_one_of_mem hc.nodup (hc.mem_returned hend hk), ?_⟩
    intro hsame
    refine le_antisymm (hc.length_le ht) ?_
    have hsub : x.table.toList.map Prod.fst ⊆ x.returned.map Prod.fst := by
      intro k hk
      obtain ⟨⟨_, v⟩, hv, rfl⟩ := List.mem_map.1 hk
      obtain ⟨hget, hv⟩ := hc.wellFormed.mem_toList_iff.1 hv
      exact hc.mem_returned hend (by rw [hget, hv])
    have hle := (hc.wellFormed.nodup_toList.subperm hsub).length_le
    rwa [List.length_map, List.length_map, hc.wellFormed.length_toList, hsame] at hle

/-- A table with two keys, `x` and `y`. -/
def pairWrites : List Table.Write :=
  [.setString ⟨#[120]⟩ (.integer 7), .setString ⟨#[121]⟩ (.integer 8)]

/-- The first key of the pair is cleared. -/
def clearFirst : Table.Write := .setString ⟨#[120]⟩ .nil

private theorem places_pair : (Table.empty.after pairWrites).places =
    [some (.string ⟨#[120]⟩, .integer 7), some (.string ⟨#[121]⟩, .integer 8)] := by
  have hx := OrderedMap.get?_empty (β := Value) (Key.string ⟨#[120]⟩)
  have hy : (OrderedMap.empty.set (Key.string ⟨#[120]⟩) (Value.integer 7)).get?
      (.string ⟨#[121]⟩) = none := by
    rw [OrderedMap.get?_set, if_neg (by decide), OrderedMap.get?_empty]
  have hone : Table.empty.perform (.setString ⟨#[120]⟩ (.integer 7)) =
      { entries := OrderedMap.empty.set (.string ⟨#[120]⟩) (.integer 7) } := by
    simp only [Table.perform, Table.setString, Table.setEntry, Table.empty, hx]
    rfl
  rw [pairWrites, Table.after, List.foldl_cons, List.foldl_cons, List.foldl_nil, hone]
  simp only [Table.perform, Table.setString, Table.setEntry, hy, Table.places]
  rw [if_neg (by decide), if_neg (by decide)]
  simp only [OrderedMap.slots_set_of_absent hy, OrderedMap.slots_set_of_absent hx]
  rfl

private theorem getKey_pair (k : Key) :
    ((Table.empty.after pairWrites).perform clearFirst).getKey k =
      if .string ⟨#[120]⟩ = k then .nil else if .string ⟨#[121]⟩ = k then .integer 8 else .nil := by
  rw [Table.getKey_perform, Table.getKey_after, Table.getKey_empty]
  by_cases hx : .string ⟨#[120]⟩ = k
  · simp [clearFirst, Table.Write.entry?, hx]
  · by_cases hy : .string ⟨#[121]⟩ = k <;> simp [clearFirst, pairWrites, Table.Write.entry?, hx, hy]

/-- The second key is answered after the first one, although that has been cleared. -/
theorem complete_under_writes_pair :
    Of (Table.empty.after pairWrites) ⟨(Table.empty.after pairWrites).perform clearFirst,
      .string ⟨#[120]⟩, [(.string ⟨#[120]⟩, .integer 7)]⟩ ∧
    ((Table.empty.after pairWrites).perform clearFirst).next? (.string ⟨#[120]⟩) =
      some (some (.string ⟨#[121]⟩, .integer 8)) := by
  have hfirst : (Table.empty.after pairWrites).next? .nil =
      some (some (.string ⟨#[120]⟩, .integer 7)) := by
    rw [Table.next?_nil, Table.first?, places_pair]
    rfl
  have hlive : ((Table.empty.after pairWrites).getKey (.string ⟨#[120]⟩)).isNil = false := by
    have hslot : (Table.empty.after pairWrites).places[0]? =
        some (some (.string ⟨#[120]⟩, .integer 7)) := by
      rw [places_pair]
      rfl
    rw [((Table.getElem?_places_iff (Table.wellFormed_after _).toPartitioned).1 hslot).2]
    rfl
  have htraversal : Of (Table.empty.after pairWrites)
      ⟨(Table.empty.after pairWrites).perform clearFirst, .string ⟨#[120]⟩,
        [(.string ⟨#[120]⟩, .integer 7)]⟩ :=
    .write (.call .start hfirst) ⟨.string ⟨#[120]⟩, .nil, rfl, hlive⟩
  obtain ⟨hsome, hcurrent, -, -, -, hend⟩ := htraversal.complete_under_writes
  refine ⟨htraversal, ?_⟩
  match hnext : ((Table.empty.after pairWrites).perform clearFirst).next? (.string ⟨#[120]⟩) with
  | none => exact absurd hnext hsome
  | some none =>
    have hcount := (hend hnext).1 (.string ⟨#[121]⟩) (by rw [getKey_pair]; decide)
    simp at hcount
  | some (some (k, v)) =>
    obtain ⟨hget, hv, -⟩ := hcurrent k v hnext
    simp only [getKey_pair] at hget
    split at hget
    · simp [← hget] at hv
    · split at hget
      · next hk => rw [← hk, ← hget]
      · simp [← hget] at hv
end Traversal

end LuaMachine
