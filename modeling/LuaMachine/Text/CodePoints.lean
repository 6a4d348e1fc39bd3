/-!
# Sets of code points

A property of characters is a set of code points, kept as closed ranges in ascending order, so that
membership is decided by halving.

## Main definitions

* `Text.CodePoints` : ascending ranges of code points.
* `Text.CodePoints.contains` : membership of a code point.

## Main statements

* `Text.CodePoints.contains_iff` : a code point is a member if and only if one of the ranges holds
  it.
-/

namespace LuaMachine.Text

/-- Every range is nonempty and ends before the next one begins. -/
def ascending : List (Nat × Nat) → Bool
  | [] => true
  | [r] => r.1 ≤ r.2
  | r :: s :: rest => r.1 ≤ r.2 && r.2 < s.1 && ascending (s :: rest)

/-- A set of code points as closed ranges in ascending order. -/
structure CodePoints where
  /-- The first and the last code point of each range. -/
  ranges : Array (Nat × Nat)
  /-- The ranges ascend and do not meet. -/
  ascends : ascending ranges.toList = true

/-- Whether a range at a place from `lo` up to `hi` holds `n`: the middle one does, or it tells in
which half to look. -/
def search (ranges : Array (Nat × Nat)) (n lo hi : Nat) : Bool :=
  if lo < hi then
    match ranges[(lo + hi) / 2]? with
    | some (first, last) =>
      if n < first then search ranges n lo ((lo + hi) / 2)
      else if last < n then search ranges n ((lo + hi) / 2 + 1) hi
      else true
    | none => false
  else false
termination_by hi - lo

/-- Whether `n` is a member. -/
def CodePoints.contains (s : CodePoints) (n : Nat) : Bool :=
  search s.ranges n 0 s.ranges.size

/-- In ascending ranges every range ends before any later one begins. -/
theorem pairwise_of_ascending {rs : List (Nat × Nat)} (h : ascending rs = true) :
    (∀ r ∈ rs, r.1 ≤ r.2) ∧ rs.Pairwise (fun r s => r.2 < s.1) := by
  induction rs with
  | nil => simp
  | cons r rest ih =>
    cases rest with
    | nil => simpa [ascending] using h
    | cons s rest =>
      simp only [ascending, Bool.and_eq_true, decide_eq_true_eq] at h
      obtain ⟨⟨hr, hrs⟩, hrest⟩ := h
      obtain ⟨hall, hpair⟩ := ih hrest
      refine ⟨fun t ht => ?_, List.pairwise_cons.2 ⟨fun t ht => ?_, hpair⟩⟩
      · rcases List.mem_cons.1 ht with rfl | ht
        · exact hr
        · exact hall t ht
      · rcases List.mem_cons.1 ht with rfl | ht
        · exact hrs
        · have hs := hall s (List.mem_cons_self ..)
          have hst := (List.pairwise_cons.1 hpair).1 t ht
          omega

/-- No range is empty. -/
theorem le_of_ascending {ranges : Array (Nat × Nat)} (h : ascending ranges.toList = true)
    {i : Nat} (hi : i < ranges.size) : ranges[i].1 ≤ ranges[i].2 :=
  (pairwise_of_ascending h).1 _ (by simp)

/-- A range ends before a later one begins. -/
theorem lt_of_ascending {ranges : Array (Nat × Nat)} (h : ascending ranges.toList = true)
    {i j : Nat} (hij : i < j) (hj : j < ranges.size) : ranges[i].2 < ranges[j].1 := by
  exact List.pairwise_iff_getElem.1 (pairwise_of_ascending h).2 i j
    (by simpa using Nat.lt_trans hij hj) (by simpa using hj) hij

/-- The search finds `n` if and only if a range between its two places holds it. -/
theorem search_iff {ranges : Array (Nat × Nat)} (h : ascending ranges.toList = true)
    (n lo hi : Nat) (hhi : hi ≤ ranges.size) :
    search ranges n lo hi = true ↔
      ∃ i, ∃ hi' : i < ranges.size, lo ≤ i ∧ i < hi ∧
        ranges[i].1 ≤ n ∧ n ≤ ranges[i].2 := by
  fun_induction search ranges n lo hi with
  | case1 lo hi hlt first last hmid hn ih =>
    obtain ⟨hm, heq⟩ := Array.getElem?_eq_some_iff.1 hmid
    rw [ih (by omega)]
    refine ⟨fun ⟨i, hi', h₁, h₂, h₃⟩ => ⟨i, hi', h₁, by omega, h₃⟩,
      fun ⟨i, hi', h₁, h₂, h₃, h₄⟩ => ⟨i, hi', h₁, Nat.lt_of_not_le fun hle => ?_, h₃, h₄⟩⟩
    rcases Nat.lt_or_eq_of_le hle with hlt' | rfl
    · have := lt_of_ascending h hlt' hi'
      have := le_of_ascending h hm
      simp only [heq] at *
      omega
    · simp only [heq] at h₃
      omega
  | case2 lo hi hlt first last hmid hn hn' ih =>
    obtain ⟨hm, heq⟩ := Array.getElem?_eq_some_iff.1 hmid
    rw [ih (by omega)]
    refine ⟨fun ⟨i, hi', h₁, h₂, h₃⟩ => ⟨i, hi', by omega, h₂, h₃⟩,
      fun ⟨i, hi', h₁, h₂, h₃, h₄⟩ => ⟨i, hi', Nat.lt_of_not_le fun hle => ?_, h₂, h₃, h₄⟩⟩
    rcases Nat.lt_or_eq_of_le hle with hlt' | rfl
    · have := lt_of_ascending h hlt' hm
      have := le_of_ascending h hi'
      simp only [heq] at *
      omega
    · simp only [heq] at h₄
      omega
  | case3 lo hi hlt first last hmid hn hn' =>
    obtain ⟨hm, heq⟩ := Array.getElem?_eq_some_iff.1 hmid
    refine ⟨fun _ => ⟨_, hm, by omega, by omega, ?_, ?_⟩, fun _ => rfl⟩
    · simp only [heq]
      omega
    · simp only [heq]
      omega
  | case4 lo hi hlt hmid =>
    rw [Array.getElem?_eq_none_iff] at hmid
    omega
  | case5 lo hi hlt =>
    simp only [Bool.false_eq_true, false_iff]
    rintro ⟨i, -, h₁, h₂, -⟩
    omega

/-- A code point is a member if and only if one of the ranges holds it. -/
theorem CodePoints.contains_iff (s : CodePoints) (n : Nat) :
    s.contains n = true ↔ ∃ r ∈ s.ranges, r.1 ≤ n ∧ n ≤ r.2 := by
  rw [contains, search_iff s.ascends n 0 s.ranges.size (Nat.le_refl _)]
  constructor
  · rintro ⟨i, hi, -, -, h⟩
    exact ⟨_, Array.getElem_mem hi, h⟩
  · rintro ⟨r, hr, h⟩
    obtain ⟨i, hi, rfl⟩ := Array.mem_iff_getElem.1 hr
    exact ⟨i, hi, Nat.zero_le i, hi, h⟩

end LuaMachine.Text
