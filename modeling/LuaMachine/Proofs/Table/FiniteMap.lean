import LuaMachine.Table.Basic

/-!
# Tables as finite maps

A table is written and read by value, by integer and by byte string, and its entries move between
the two parts as they are written and compacted.  What a reader sees is a finite map from keys to
values: reading a key yields what was last written to it.

Every writing operation changes the reading function `Table.getKey` at one key only, and neither
the movement of entries into the array part nor compaction changes it at all.  Histories of writes
are then read off the list of writes alone.

## Main definitions

* `Table.Write` : the operations that change a table, with `Table.perform` and `Table.after`.
* `Table.lastWritten` : what a history of writes has left under a key.

## Main statements

* `OrderedMap.get?_filter` : a filtered map holds the entries that satisfy the condition.
* `Table.getKey_absorb`, `Table.getKey_compact` : reading is not affected by where entries lie.
* `Table.getKey_setKey` : a write changes the value of one key.
* `Table.get_after_history` : a table refines the finite map of its history.
-/

namespace LuaMachine

namespace OrderedMap

variable {α β : Type} [BEq α] [Hashable α] [LawfulBEq α] [DecidableEq α]

/-- One step of `filter`. -/
private def keepSlot (p : α × β → Bool) (r : OrderedMap α β) (slot : Option (α × β)) :
    OrderedMap α β :=
  match slot with
  | some entry => if p entry then r.set entry.1 entry.2 else r
  | none => r

omit [DecidableEq α] in
private theorem filter_eq_foldl (m : OrderedMap α β) (p : α × β → Bool) :
    m.filter p = m.slots.toList.foldl (keepSlot p) empty := by
  rw [Array.foldl_toList]
  rfl

private theorem get?_keepSlot_of_unkept {p : α × β → Bool} {k : α} {slot : Option (α × β)}
    (h : ∀ w, slot = some (k, w) → p (k, w) = false) (r : OrderedMap α β) :
    (keepSlot p r slot).get? k = r.get? k := by
  cases slot with
  | none => rfl
  | some entry =>
    obtain ⟨k', w⟩ := entry
    by_cases hk : k' = k
    · subst hk
      simp [keepSlot, h w rfl]
    · by_cases hp : p (k', w) <;> simp [keepSlot, hp, get?_set, hk]

private theorem get?_foldl_of_unkept {p : α × β → Bool} {k : α} {slots : List (Option (α × β))}
    (h : ∀ w, some (k, w) ∈ slots → p (k, w) = false) (r : OrderedMap α β) :
    (slots.foldl (keepSlot p) r).get? k = r.get? k := by
  induction slots generalizing r with
  | nil => rfl
  | cons slot rest ih =>
    rw [List.foldl_cons, ih fun w hw => h w (List.mem_cons_of_mem _ hw)]
    exact get?_keepSlot_of_unkept (fun w hw => h w (hw ▸ List.mem_cons_self)) r

/-- An entry is kept if the slots hold no other value for its key. -/
private theorem get?_foldl_of_kept {p : α × β → Bool} {k : α} {v : β} (hp : p (k, v))
    {slots : List (Option (α × β))} (hmem : some (k, v) ∈ slots)
    (huniq : ∀ w, some (k, w) ∈ slots → w = v) (r : OrderedMap α β) :
    (slots.foldl (keepSlot p) r).get? k = some v := by
  induction slots generalizing r with
  | nil => cases hmem
  | cons slot rest ih =>
    have hrest : ∀ w, some (k, w) ∈ rest → w = v := fun w hw =>
      huniq w (List.mem_cons_of_mem _ hw)
    rw [List.foldl_cons]
    by_cases hlater : some (k, v) ∈ rest
    · exact ih hlater hrest _
    · have hslot : some (k, v) = slot := (List.mem_cons.mp hmem).resolve_right hlater
      rw [get?_foldl_of_unkept fun w hw => absurd (hrest w hw ▸ hw) hlater, ← hslot]
      simp [keepSlot, hp, get?_set]

/-- **Filtering.** A filtered map holds the entries that satisfy the condition, and no others. -/
theorem get?_filter (m : OrderedMap α β) (p : α × β → Bool) (k : α) :
    (m.filter p).get? k = (m.get? k).filter fun v => p (k, v) := by
  have hslot : ∀ w, some (k, w) ∈ m.slots.toList ↔ m.get? k = some w := by
    intro w
    rw [m.get?_eq_some_iff, List.mem_iff_getElem?]
    simp
  rw [filter_eq_foldl]
  cases h : m.get? k with
  | none =>
    rw [get?_foldl_of_unkept fun w hw => by simp [(hslot w).1 hw] at h]
    simp
  | some v =>
    have huniq : ∀ w, some (k, w) ∈ m.slots.toList → w = v := fun w hw =>
      (Option.some.inj (h.symm.trans ((hslot w).1 hw))).symm
    cases hp : p (k, v) with
    | true =>
      rw [get?_foldl_of_kept hp ((hslot v).2 h) huniq]
      simp [Option.filter, hp]
    | false =>
      rw [get?_foldl_of_unkept fun w hw => huniq w hw ▸ hp]
      simp [Option.filter, hp]

end OrderedMap

namespace Key

/-- A float with the value of an integer has the integer as its key. -/
theorem ofValue_float {bits : UInt64} {i : Int64}
    (h : (Binary64.ofBits bits).toInt64? = some i) :
    ofValue (.float bits) = .ok (.integer i) := by
  simp only [ofValue, ofBits]
  cases hx : Binary64.ofBits bits with
  | nan negative => simp [hx, Binary64.toInt64?, Binary64.toInt?, Binary64.floor?] at h
  | infinity _ | finite _ _ _ => simp [← hx, h]

/-- Nil and NaN are the values that are no keys. -/
theorem ofValue_eq_error_iff {v : Value} {fault : Fault} :
    ofValue v = .error fault ↔ fault = .nil ∧ v = .nil ∨
      fault = .nan ∧ ∃ bits negative, v = .float bits ∧ Binary64.ofBits bits = .nan negative := by
  cases v with
  | nil => simp [ofValue, eq_comm]
  | boolean _ | integer _ | string _ | object _ => simp [ofValue]
  | float bits =>
    simp only [ofValue, ofBits, Value.float.injEq, reduceCtorEq, and_false, false_or]
    split
    · next negative h => simp [h, eq_comm]
    · next hnan =>
      have hkey : ¬∃ bits' negative, bits = bits' ∧ Binary64.ofBits bits' = .nan negative := by
        rintro ⟨_, negative, rfl, h⟩
        exact hnan negative h
      simp only [hkey, and_false, iff_false]
      split <;> simp

end Key

namespace Table

/-! ### The place of a key -/

theorem arrayIndex?_eq_some_iff {t : Table} {i : Int64} {j : Nat} :
    t.arrayIndex? i = some j ↔ i.toInt = j + 1 ∧ j < t.array.size := by
  simp only [arrayIndex?]
  split
  · next h =>
    rw [Option.some.injEq]
    omega
  · next h =>
    simp only [reduceCtorEq, false_iff]
    omega

theorem nextIndex?_eq_some_iff {t : Table} {i : Int64} :
    t.nextIndex? = some i ↔ i.toInt = t.array.size + 1 := by
  have hlt := i.toInt_lt
  simp only [nextIndex?]
  split
  · next h =>
    have hnext : (Int64.ofNat (t.array.size + 1)).toInt = t.array.size + 1 := by
      rw [Int64.toInt_ofNat_of_lt (by omega)]
      rfl
    rw [Option.some.injEq, ← Int64.toInt_inj, hnext]
    exact eq_comm
  · next h =>
    simp only [reduceCtorEq, false_iff]
    omega

/-- The place of a key in the array part. -/
def place? (t : Table) : Key → Option Nat
  | .integer i => t.arrayIndex? i
  | _ => none

theorem getKey_of_place {t : Table} {k : Key} {j : Nat} (h : t.place? k = some j) :
    t.getKey k = t.array[j]?.getD .nil := by
  cases k with
  | integer i =>
    simp only [place?] at h
    simp only [getKey, getInteger, h]
  | _ => cases h

theorem getKey_of_no_place {t : Table} {k : Key} (h : t.place? k = none) :
    t.getKey k = t.getEntry k := by
  cases k with
  | integer i =>
    simp only [place?] at h
    simp only [getKey, getInteger, h]
  | _ => rfl

/-- Two keys do not share a place. -/
theorem place?_injective {t : Table} {k k' : Key} {j : Nat} (h : t.place? k = some j)
    (h' : t.place? k' = some j) : k = k' := by
  cases k with
  | integer i =>
    cases k' with
    | integer i' =>
      have hi := (arrayIndex?_eq_some_iff.1 h).1
      have hi' := (arrayIndex?_eq_some_iff.1 h').1
      rw [Int64.toInt_inj.1 (hi.trans hi'.symm)]
    | _ => cases h'
  | _ => cases h

theorem place?_lt {t : Table} {k : Key} {j : Nat} (h : t.place? k = some j) :
    j < t.array.size := by
  cases k with
  | integer i => exact (arrayIndex?_eq_some_iff.1 h).2
  | _ => cases h

theorem place?_congr {t t' : Table} (h : t'.array.size = t.array.size) (k : Key) :
    t'.place? k = t.place? k := by
  cases k with
  | integer i => simp only [place?, arrayIndex?, h]
  | _ => rfl

/-- The key that follows the array part lies in the hash part. -/
theorem place?_next {t : Table} {i : Int64} (h : t.nextIndex? = some i) :
    t.place? (.integer i) = none := by
  have hi := nextIndex?_eq_some_iff.1 h
  cases hp : t.place? (.integer i) with
  | none => rfl
  | some j =>
    have hj := arrayIndex?_eq_some_iff.1 hp
    omega

/-- Reading a key depends on the array part and on the entry of the key alone. -/
theorem getKey_congr {t t' : Table} {k : Key} (harray : t'.array = t.array)
    (hentry : t'.getEntry k = t.getEntry k) : t'.getKey k = t.getKey k := by
  have hplace := place?_congr (congrArg Array.size harray) k
  cases hp : t.place? k with
  | none => rw [getKey_of_no_place hp, getKey_of_no_place (hplace.trans hp), hentry]
  | some j => rw [getKey_of_place hp, getKey_of_place (hplace.trans hp), harray]

/-! ### The hash part -/

/-- Entries that have been cleared read as nil, so that nothing is lost with them. -/
theorem getEntry_compact (t : Table) (k : Key) : t.compact.getEntry k = t.getEntry k := by
  simp only [compact, getEntry, OrderedMap.get?_filter]
  cases t.entries.get? k with
  | none => rfl
  | some v => cases v <;> rfl

theorem getEntry_setEntry (t : Table) (k k' : Key) (v : Value) :
    (t.setEntry k v).getEntry k' = if k = k' then v else t.getEntry k' := by
  cases h : t.entries.get? k with
  | some old =>
    simp only [setEntry, h, getEntry, OrderedMap.get?_set]
    split <;> rfl
  | none =>
    simp only [setEntry, h]
    by_cases hv : v.isNil
    · rw [if_pos hv]
      split
      · next hk => rw [← hk, Value.isNil_iff.1 hv, getEntry, h, Option.getD_none]
      · rfl
    · rw [if_neg hv]
      have hcompact : ∀ t' : Table, t'.getEntry k' = t.getEntry k' →
          Table.getEntry { t' with entries := t'.entries.set k v } k' =
            if k = k' then v else t.getEntry k' := by
        intro t' h'
        simp only [getEntry, OrderedMap.get?_set] at h' ⊢
        split
        · rfl
        · exact h'
      split
      · exact hcompact _ (t.getEntry_compact k')
      · exact hcompact _ rfl

theorem array_setEntry (t : Table) (k : Key) (v : Value) : (t.setEntry k v).array = t.array := by
  simp only [setEntry]
  split
  · rfl
  · split
    · rfl
    · split <;> rfl

theorem getEntry_clearEntry (t : Table) (k k' : Key) :
    (t.clearEntry k).getEntry k' = if k = k' then .nil else t.getEntry k' := by
  cases h : t.entries.get? k with
  | some old =>
    simp only [clearEntry, h, getEntry, OrderedMap.get?_set]
    split <;> rfl
  | none =>
    simp only [clearEntry, h]
    split
    · next hk => rw [← hk, getEntry, h, Option.getD_none]
    · rfl

theorem array_clearEntry (t : Table) (k : Key) : (t.clearEntry k).array = t.array := by
  simp only [clearEntry]
  split <;> rfl

/-! ### Reading after one operation -/

theorem getKey_compact (t : Table) (k : Key) : t.compact.getKey k = t.getKey k :=
  getKey_congr rfl (t.getEntry_compact k)

/-- A value that is added to the array part belongs to the key that follows it. -/
theorem getKey_push {t : Table} {i : Int64} (h : t.nextIndex? = some i) (v : Value) (k : Key) :
    Table.getKey { t with array := t.array.push v } k =
      if .integer i = k then v else t.getKey k := by
  have hi := nextIndex?_eq_some_iff.1 h
  by_cases hk : .integer i = k
  · have hplace : Table.place? { t with array := t.array.push v } k = some t.array.size := by
      subst hk
      exact arrayIndex?_eq_some_iff.2 ⟨hi, by simp⟩
    rw [getKey_of_place hplace, if_pos hk]
    simp
  · rw [if_neg hk]
    have hplace : Table.place? { t with array := t.array.push v } k = t.place? k := by
      cases k with
      | integer i' =>
        have hne : i'.toInt ≠ i.toInt := fun he => hk (by rw [Int64.toInt_inj.1 he])
        apply Option.ext
        intro j
        simp only [place?, arrayIndex?_eq_some_iff, Array.size_push]
        omega
      | _ => rfl
    cases hp : t.place? k with
    | none =>
      rw [getKey_of_no_place hp, getKey_of_no_place (hplace.trans hp)]
      rfl
    | some j =>
      rw [getKey_of_place hp, getKey_of_place (hplace.trans hp)]
      simp [Array.getElem?_push, Nat.ne_of_lt (place?_lt hp)]

/-- **Movement between the parts.** Entries that move into the array part keep their values. -/
theorem getKey_absorb (t : Table) (k : Key) : t.absorb.getKey k = t.getKey k := by
  fun_induction absorb t with
  | case1 t hnext => rfl
  | case2 t i hnext hget => rfl
  | case3 t i hnext v hget hv =>
    refine getKey_congr rfl ?_
    simp only [getEntry, OrderedMap.get?_erase]
    split
    · next hk => rw [← hk, hget, Value.isNil_iff.1 hv, Option.getD_none, Option.getD_some]
    · rfl
  | case4 t i hnext v hget hv ih =>
    let u : Table := { t with entries := t.entries.erase (.integer i) }
    have hu : u.nextIndex? = some i := hnext
    rw [ih]
    refine (getKey_push hu v k).trans ?_
    split
    · next hk =>
      subst hk
      rw [getKey_of_no_place (place?_next hnext), getEntry, hget, Option.getD_some]
    · next hk =>
      refine getKey_congr rfl ?_
      simp only [u, getEntry, OrderedMap.get?_erase, if_neg hk]

theorem getKey_append {t : Table} {i : Int64} (h : t.nextIndex? = some i) (v : Value) (k : Key) :
    (t.append i v).getKey k = if .integer i = k then v else t.getKey k := by
  have hnext : (t.clearEntry (.integer i)).nextIndex? = some i := by
    simpa only [nextIndex?, array_clearEntry] using h
  rw [append, getKey_absorb, getKey_push hnext]
  split
  · rfl
  · next hk =>
    refine getKey_congr (t.array_clearEntry _) ?_
    rw [getEntry_clearEntry, if_neg hk]

theorem getKey_setEntry {t : Table} {k : Key} (h : t.place? k = none) (v : Value) (k' : Key) :
    (t.setEntry k v).getKey k' = if k = k' then v else t.getKey k' := by
  by_cases hk : k = k'
  · subst hk
    have hplace := place?_congr (congrArg Array.size (t.array_setEntry k v)) k
    rw [getKey_of_no_place (hplace.trans h), getEntry_setEntry, if_pos rfl, if_pos rfl]
  · rw [if_neg hk]
    refine getKey_congr (t.array_setEntry k v) ?_
    rw [getEntry_setEntry, if_neg hk]

theorem getKey_setInteger (t : Table) (i : Int64) (v : Value) (k : Key) :
    (t.setInteger i v).getKey k = if .integer i = k then v else t.getKey k := by
  cases h : t.arrayIndex? i with
  | some j =>
    have hplace : ∀ k', Table.place? { t with array := t.array.setIfInBounds j v } k' =
        t.place? k' := place?_congr (by simp)
    simp only [setInteger, h]
    cases hp : t.place? k with
    | none =>
      have hk : .integer i ≠ k := by
        rintro rfl
        exact absurd (h.symm.trans hp) (by simp)
      rw [if_neg hk, getKey_of_no_place hp, getKey_of_no_place ((hplace k).trans hp)]
      rfl
    | some j' =>
      rw [getKey_of_place hp, getKey_of_place ((hplace k).trans hp)]
      by_cases hj : j = j'
      · subst hj
        rw [if_pos (place?_injective (k := .integer i) h hp)]
        simp [place?_lt hp]
      · have hk : .integer i ≠ k := by
          rintro rfl
          exact hj (Option.some.inj (h.symm.trans hp))
        rw [if_neg hk]
        simp [hj]
  | none =>
    simp only [setInteger, h]
    split
    · next hc =>
      simp only [Bool.and_eq_true, beq_iff_eq] at hc
      exact getKey_append hc.1 v k
    · exact getKey_setEntry (k := .integer i) h v k

/-- **One write.** A write changes the value of its key and of no other. -/
theorem getKey_setKey (t : Table) (k : Key) (v : Value) (k' : Key) :
    (t.setKey k v).getKey k' = if k = k' then v else t.getKey k' := by
  cases k with
  | integer i => exact t.getKey_setInteger i v k'
  | _ => exact getKey_setEntry rfl v k'

/-! ### The metatable -/

@[simp] theorem metatable_setEntry (t : Table) (k : Key) (v : Value) :
    (t.setEntry k v).metatable = t.metatable := by
  simp only [setEntry]
  split
  · rfl
  · split
    · rfl
    · split <;> rfl

@[simp] theorem metatable_absorb (t : Table) : t.absorb.metatable = t.metatable := by
  fun_induction absorb t with
  | case1 t hnext => rfl
  | case2 t i hnext hget => rfl
  | case3 t i hnext v hget hv => rfl
  | case4 t i hnext v hget hv ih => exact ih

theorem metatable_append (t : Table) (i : Int64) (v : Value) :
    (t.append i v).metatable = t.metatable := by
  simp only [append, metatable_absorb, clearEntry]
  split <;> rfl

/-- Writing a value leaves the metatable alone. -/
@[simp] theorem metatable_setKey (t : Table) (k : Key) (v : Value) :
    (t.setKey k v).metatable = t.metatable := by
  cases k with
  | integer i =>
    simp only [setKey, setInteger]
    split
    · rfl
    · split
      · exact t.metatable_append i v
      · exact t.metatable_setEntry _ v
  | _ => exact t.metatable_setEntry _ v

/-! ### Histories -/

/-- One write to a table. -/
inductive Write where
  /-- A value is written at a value, which may be no key. -/
  | set (k v : Value)
  | setInteger (i : Int64) (v : Value)
  | setString (s : ByteArray) (v : Value)
  | compact

/-- The table after one write.  A write that fails leaves the table as it was. -/
def perform (t : Table) : Write → Table
  | .set k v => (t.set k v).toOption.getD t
  | .setInteger i v => t.setInteger i v
  | .setString s v => t.setString s v
  | .compact => t.compact

/-- The table after a history of writes, the earliest first. -/
def after (t : Table) (writes : List Write) : Table := writes.foldl perform t

/-- The key that a write writes to, with the value that it leaves there. -/
def Write.entry? : Write → Option (Key × Value)
  | .set k v => (Key.ofValue k).toOption.map (·, v)
  | .setInteger i v => some (.integer i, v)
  | .setString s v => some (.string s, v)
  | .compact => none

/-- What the last write to a key has left there, or nil if there was none. -/
def lastWritten (writes : List Write) (k : Key) : Value :=
  ((writes.filterMap Write.entry?).findRev? fun e => e.1 = k).elim .nil Prod.snd

theorem after_append_singleton (t : Table) (writes : List Write) (w : Write) :
    t.after (writes ++ [w]) = (t.after writes).perform w := by
  simp only [after, List.foldl_append, List.foldl_cons, List.foldl_nil]

theorem getKey_empty (k : Key) : empty.getKey k = .nil := by
  have hplace : empty.place? k = none := by
    cases hp : empty.place? k with
    | none => rfl
    | some j => exact absurd (place?_lt hp) (Nat.not_lt_zero j)
  rw [getKey_of_no_place hplace]
  simp [getEntry, empty]

/-- A write leaves its value under its key and changes no other. -/
theorem getKey_perform (t : Table) (w : Write) (k : Key) :
    (t.perform w).getKey k =
      match w.entry? with
      | some (k', v) => if k' = k then v else t.getKey k
      | none => t.getKey k := by
  cases w with
  | set key v =>
    cases h : Key.ofValue key with
    | error _ => simp only [perform, set, Write.entry?, h]; rfl
    | ok k' => simp only [perform, set, Write.entry?, h]; exact t.getKey_setKey k' v k
  | setInteger i v => exact t.getKey_setInteger i v k
  | setString s v => exact t.getKey_setKey (.string s) v k
  | compact => exact t.getKey_compact k

/-- After a history of writes a key has the value that was written to it last, or else the value it
had before. -/
theorem getKey_after (t : Table) (writes : List Write) (k : Key) :
    (t.after writes).getKey k =
      ((writes.filterMap Write.entry?).findRev? fun e => e.1 = k).elim (t.getKey k) Prod.snd := by
  induction writes generalizing t with
  | nil => rfl
  | cons w rest ih =>
    rw [after, List.foldl_cons, ← after, ih, getKey_perform]
    cases h : w.entry? with
    | none => rw [List.filterMap_cons_none h]
    | some e =>
      rw [List.filterMap_cons_some h, List.findRev?]
      cases hrest : (rest.filterMap Write.entry?).findRev? fun e => e.1 = k with
      | some _ => rfl
      | none => by_cases hk : e.1 = k <;> simp [hk]

/-! ### The three ways to read and to write -/

theorem get_eq (t : Table) (v : Value) :
    t.get v = (Key.ofValue v).toOption.elim .nil t.getKey := by
  cases v with
  | nil | boolean _ | integer _ | string _ | object _ => rfl
  | float bits =>
    simp only [get]
    cases Key.ofValue (.float bits) <;> rfl

/-- Nil and NaN are the values that cannot be written at. -/
theorem set_eq_error_iff {t : Table} {k v : Value} :
    (∃ e, t.set k v = .error e) ↔
      k = .nil ∨ ∃ bits negative, k = .float bits ∧ Binary64.ofBits bits = .nan negative := by
  have hset : (∃ e, t.set k v = .error e) ↔ ∃ e, Key.ofValue k = .error e := by
    cases h : Key.ofValue k <;> simp [set, h, Except.map]
  simp [hset, Key.ofValue_eq_error_iff, exists_or]

/-- **Tables refine finite maps.** After any history of writes to a new table, the three ways to
read yield what was last written to the key, and nil where nothing was written.  A float with the
value of an integer is read and written as that integer, by value or directly, and a byte string
likewise.  Only a write at nil or NaN fails, and it changes no key. -/
theorem get_after_history (writes : List Write) :
    (∀ key, (empty.after writes).get key =
      (Key.ofValue key).toOption.elim .nil (lastWritten writes)) ∧
    (∀ i, (empty.after writes).getInteger i = lastWritten writes (.integer i)) ∧
    (∀ s, (empty.after writes).getString s = lastWritten writes (.string s)) ∧
    (∀ i, (empty.after writes).get (.integer i) = (empty.after writes).getInteger i ∧
      ∀ v, (empty.after writes).set (.integer i) v = .ok ((empty.after writes).setInteger i v)) ∧
    (∀ bits i, (Binary64.ofBits bits).toInt64? = some i →
      (empty.after writes).get (.float bits) = (empty.after writes).getInteger i ∧
      ∀ v, (empty.after writes).set (.float bits) v = .ok ((empty.after writes).setInteger i v)) ∧
    (∀ s, (empty.after writes).get (.string s) = (empty.after writes).getString s ∧
      ∀ v, (empty.after writes).set (.string s) v = .ok ((empty.after writes).setString s v)) ∧
    (∀ key v, (∃ e, (empty.after writes).set key v = .error e) ↔
      key = .nil ∨ ∃ bits negative, key = .float bits ∧ Binary64.ofBits bits = .nan negative) ∧
    ∀ key v e, (empty.after writes).set key v = .error e →
      ∀ k, (empty.after (writes ++ [.set key v])).getKey k = (empty.after writes).getKey k := by
  have hkey : ∀ k, (empty.after writes).getKey k = lastWritten writes k := fun k => by
    rw [getKey_after, getKey_empty, lastWritten]
  refine ⟨fun key => ?_, fun i => hkey (.integer i), fun s => hkey (.string s),
    fun i => ⟨rfl, fun v => rfl⟩, fun bits i h => ⟨?_, fun v => ?_⟩, fun s => ⟨rfl, fun v => rfl⟩,
    fun key v => set_eq_error_iff, fun key v e h k => ?_⟩
  · rw [get_eq, funext hkey]
  · rw [get_eq, Key.ofValue_float h]
    rfl
  · rw [set, Key.ofValue_float h]
    rfl
  · rw [after_append_singleton, perform, h]
    rfl

end Table

end LuaMachine
