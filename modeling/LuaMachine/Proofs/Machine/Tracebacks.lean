import LuaMachine.Machine.Naming
import Mathlib.Data.List.Nodup

/-!
# The levels of a traceback

A traceback is written level by level, and when the level of the gap is reached, it goes on with the
first level behind the gap.  Since this one is higher, the walk ends.  It consists of runs of
successive levels: one run if there is no gap, and two otherwise.

## Main definitions

* `Machine.shownLevels` : the levels that are shown of a number of frames.
* `Machine.entryText` : what is shown for a level.

## Main statements

* `Machine.listingFrom_run` : a run of levels without a gap.
* `Machine.listing_shows` : which levels a traceback shows, and how the frame of each is named.
-/

namespace LuaMachine

namespace Machine

variable {m : Machine} {frames : List FrameSnapshot} {level n : Nat}

/-- The levels of `n` frames that are shown; `none` stands for the gap. -/
def shownLevels (n : Nat) : List (Option Nat) :=
  if n ≤ levelsBeforeGap + levelsAfterGap + 1 then (List.range n).map some
  else (List.range levelsBeforeGap).map some ++
    none :: (List.range' (n - levelsAfterGap) levelsAfterGap).map some

/-- What is shown for a level: the frame, named by the one that called it, or the gap. -/
def entryText (m : Machine) (frames : List FrameSnapshot) : Option Nat → String
  | none => "\n\t..."
  | some level => frames[level]?.elim "" fun s => m.frameLine s frames[level + 1]?

theorem entryText_of_lt (m : Machine) (h : level < frames.length) :
    m.entryText frames (some level) = m.frameLine frames[level] frames[level + 1]? := by
  rw [entryText, List.getElem?_eq_getElem h, Option.elim_some]

/-! ### Runs of levels -/

/-- One level that is not that of the gap. -/
theorem listingFrom_of_lt (h : level < frames.length)
    (hgap : frames.length ≤ 22 ∨ level ≠ 10) :
    m.listingFrom frames.toArray level =
      m.entryText frames (some level) ++ m.listingFrom frames.toArray (level + 1) := by
  have hlevel : level < frames.toArray.size := by rwa [List.size_toArray]
  have hgap' : ¬(levelsBeforeGap + levelsAfterGap + 1 < frames.toArray.size ∧
      level = levelsBeforeGap) := by
    rw [List.size_toArray]
    change ¬(22 < frames.length ∧ level = 10)
    omega
  rw [listingFrom, dif_pos hlevel, if_neg hgap', entryText_of_lt m h, List.getElem_toArray,
    List.getElem?_toArray]

theorem listingFrom_gap (h : 22 < frames.length) : m.listingFrom frames.toArray 10 =
    m.entryText frames none ++ m.listingFrom frames.toArray (frames.length - 11) := by
  have hlevel : 10 < frames.toArray.size := by
    rw [List.size_toArray]
    omega
  rw [listingFrom, dif_pos hlevel, if_pos ⟨h, rfl⟩]
  rfl

theorem listingFrom_length : m.listingFrom frames.toArray frames.length = "" := by
  rw [listingFrom, dif_neg]
  rw [List.size_toArray]
  exact Nat.lt_irrefl _

/-- **A run of levels.** Successive levels among which the gap is not are shown one after the
other. -/
theorem listingFrom_run (k : Nat) (hk : level + k ≤ frames.length)
    (hgap : frames.length ≤ 22 ∨ level + k ≤ 10 ∨ 10 < level) :
    m.listingFrom frames.toArray level =
      String.join (((List.range' level k).map some).map (m.entryText frames)) ++
        m.listingFrom frames.toArray (level + k) := by
  induction k generalizing level with
  | zero =>
    rw [List.range'_zero, List.map_nil, List.map_nil, String.join_nil, String.empty_append,
      Nat.add_zero]
  | succ k ih =>
    rw [listingFrom_of_lt (by omega) (by omega), ih (by omega) (by omega), List.range'_succ,
      List.map_cons, List.map_cons, String.join_cons, String.append_assoc, Nat.add_right_comm,
      Nat.add_assoc]

/-- The runs of which a traceback consists. -/
theorem listing_eq (m : Machine) (frames : List FrameSnapshot) : m.listing frames =
    "stack traceback:" ++ String.join ((shownLevels frames.length).map (m.entryText frames)) := by
  have hlevels : shownLevels frames.length = if frames.length ≤ 22 then
      (List.range' 0 frames.length).map some
      else (List.range' 0 10).map some ++
        none :: (List.range' (frames.length - 11) 11).map some := by
    rw [← List.range_eq_range', ← List.range_eq_range']
    rfl
  rw [listing, hlevels]
  congr 1
  split
  · next hle =>
    rw [listingFrom_run frames.length (by omega) (.inl hle), Nat.zero_add, listingFrom_length,
      String.append_empty]
  · next hgt =>
    have hbehind : m.listingFrom frames.toArray (frames.length - 11) = String.join
        (((List.range' (frames.length - 11) 11).map some).map (m.entryText frames)) := by
      rw [listingFrom_run 11 (by omega) (by omega), Nat.sub_add_cancel (by omega),
        listingFrom_length, String.append_empty]
    rw [listingFrom_run 10 (by omega) (by omega), Nat.zero_add, listingFrom_gap (by omega), hbehind,
      List.map_append, List.map_cons, String.join_append, String.join_cons]

/-! ### The levels -/

/-- Levels behind the gap are not below it. -/
theorem nodup_shownLevels (n : Nat) : (shownLevels n).Nodup := by
  have hsome {l : List Nat} (h : l.Nodup) : (l.map some).Nodup :=
    h.map fun _ _ => Option.some.inj
  rw [shownLevels]
  split
  · exact hsome List.nodup_range
  · next hgt =>
    change ¬n ≤ 22 at hgt
    have hnone (l : List Nat) : none ∉ l.map some := by
      rintro h
      obtain ⟨_, -, h⟩ := List.mem_map.1 h
      cases h
    have hbehind : (none :: (List.range' (n - 11) 11).map some).Nodup :=
      List.nodup_cons.2 ⟨hnone _, hsome List.nodup_range'⟩
    refine (hsome List.nodup_range).append hbehind ?_
    rintro _ hbefore hmem
    obtain ⟨i, hi, rfl⟩ := List.mem_map.1 hbefore
    rcases List.mem_cons.1 hmem with h | h
    · cases h
    · obtain ⟨j, hj, h⟩ := List.mem_map.1 h
      cases h
      have hlow : n - 11 ≤ i := (List.mem_range'_1.1 hj).1
      have hhigh : i < 10 := List.mem_range.1 hi
      omega

/-- The levels that are shown: all, or those before and after the gap. -/
theorem some_mem_shownLevels : some level ∈ shownLevels n ↔
    level < n ∧ (n ≤ 22 ∨ level < 10 ∨ n - 11 ≤ level) := by
  have hsome (l : List Nat) : some level ∈ l.map some ↔ level ∈ l :=
    List.mem_map_of_injective fun _ _ => Option.some.inj
  rw [shownLevels]
  change some level ∈ (if n ≤ 22 then _ else _) ↔ _
  split
  · next hle =>
    rw [hsome, List.mem_range]
    omega
  · next hgt =>
    have hgap : some level ≠ none := Option.some_ne_none level
    rw [List.mem_append, List.mem_cons, hsome, hsome, List.mem_range, List.mem_range'_1,
      or_iff_right hgap]
    change level < 10 ∨ n - 11 ≤ level ∧ level < n - 11 + 11 ↔ _
    omega

/-- **Tracebacks.** A traceback of up to 22 frames shows all of them in order.  One of more frames
shows the first 10, a gap, and the last 11.  No frame is shown twice, and each is named by the frame
that called it, be it shown or not; the last one has no caller. -/
theorem listing_shows (m : Machine) (frames : List FrameSnapshot) :
    m.listing frames =
        "stack traceback:" ++ String.join ((shownLevels frames.length).map (m.entryText frames)) ∧
      (shownLevels frames.length =
        if frames.length ≤ 22 then (List.range frames.length).map some
        else (List.range 10).map some ++ none :: (List.range' (frames.length - 11) 11).map some) ∧
      (shownLevels frames.length).Nodup ∧
      (∀ level, some level ∈ shownLevels frames.length → ∃ h : level < frames.length,
        m.entryText frames (some level) = m.frameLine frames[level] frames[level + 1]? ∧
          (m.frameInfo frames[level] frames[level + 1]?).designation? =
            m.designation? frames[level] frames[level + 1]?) ∧
      m.entryText frames none = "\n\t..." ∧ frames[frames.length]? = none := by
  refine ⟨listing_eq m frames, rfl, nodup_shownLevels _, ?_, rfl,
    List.getElem?_eq_none (Nat.le_refl _)⟩
  intro level hlevel
  have hlt := (some_mem_shownLevels.1 hlevel).1
  refine ⟨hlt, entryText_of_lt m hlt, ?_⟩
  rw [frameInfo]
  split <;> rfl

/-- Of 23 frames those at the levels 10 and 11 are left out.  The frame at level 9 is still named by
the one at level 10, which called it. -/
theorem listing_shows_of_many :
    shownLevels 23 = (List.range 10).map some ++ none :: (List.range' 12 11).map some ∧
      some 9 ∈ shownLevels 23 ∧
      (Machine.new {}).entryText (List.ofFn fun i : Fin 23 => ⟨.nil, i, false, false⟩) (some 9) =
        (Machine.new {}).frameLine ⟨.nil, 9, false, false⟩ (some ⟨.nil, 10, false, false⟩) := by
  obtain ⟨-, hlevels, -, hline, -⟩ := listing_shows (Machine.new {})
    (List.ofFn fun i : Fin 23 => ⟨.nil, i, false, false⟩)
  have hshown : some 9 ∈ shownLevels 23 := some_mem_shownLevels.2 ⟨by decide, by decide⟩
  obtain ⟨_, hentry, -⟩ := hline 9 hshown
  exact ⟨hlevels, hshown, hentry⟩

end Machine

end LuaMachine
