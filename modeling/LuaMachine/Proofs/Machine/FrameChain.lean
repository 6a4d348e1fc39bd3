import LuaMachine.Machine.Naming

/-!
# Chains of frames

The active frames lie one on top of the other.  Each one is linked to the frame below it, and its
called function lies above that of the frame below.  A closure that has been entered by a call
instruction was called in a register of the frame below, which goes on when the call ends.

## Main definitions

* `Frame.Owns` : the slots of a closure's registers.
* `Frame.Follows` : a frame that can be put on top of others.
* `Frame.Chained` : frames that have been put on top of each other.
* `Frame.Linked` : each frame is linked to the one below it.
* `Frame.Covers` : each cell is open at a register of some frame.

## Main statements

* `Frame.Chained.follows` : each frame follows those below it.
* `Frame.Linked.callers_eq`, `Frame.Linked.callerAt?_eq` : the links lead to all frames, one after
  the other.
-/

namespace LuaMachine.Frame

/-- A slot belongs to the registers of a closure's frame. -/
def Owns (f : Frame) (slot : Nat) : Prop := f.isClosure = true ∧ f.base ≤ slot ∧ slot < f.top

/-- A frame can be put on top of others. -/
structure Follows (f : Frame) (fs : Array Frame) : Prop where
  caller : f.caller? = innermost? fs
  function_lt : ∀ g, fs.back? = some g → g.function < f.function
  /-- The frame below goes on when the call of the closure has ended. -/
  owned : f.isClosure = true → f.isFresh = false → ∃ g, fs.back? = some g ∧ g.Owns f.function

/-- The frames have been put on top of each other. -/
inductive Chained : Array Frame → Prop where
  | empty : Chained #[]
  | push {fs : Array Frame} {f : Frame} : Chained fs → f.Follows fs → Chained (fs.push f)

variable {fs gs : Array Frame} {f g : Frame}

/-- A frame may be replaced by another one for the same call. -/
theorem Follows.replace (h : f.Follows fs) (hclosure : g.isClosure = f.isClosure)
    (hfunction : g.function = f.function) (hcaller : g.caller? = f.caller?)
    (hfresh : g.isFresh = f.isFresh) : g.Follows fs where
  caller := hcaller.trans h.caller
  function_lt := hfunction ▸ h.function_lt
  owned := fun hc hf => hfunction ▸ h.owned (hclosure ▸ hc) (hfresh ▸ hf)

namespace Chained

/-- Each frame follows those below it. -/
theorem follows (h : Chained fs) {i : Nat} (hi : fs[i]? = some f) :
    f.Follows (fs.extract 0 i) := by
  induction h with
  | empty => simp at hi
  | @push fs g hchained hfollows ih =>
    rw [Array.getElem?_push] at hi
    split at hi
    · next heq =>
      obtain rfl := Option.some.inj hi
      have hfs : (fs.push g).extract 0 i = fs := by simp [heq]
      rwa [hfs]
    · have hlt : i < fs.size := (Array.getElem?_eq_some_iff.1 hi).1
      have hfs : (fs.push g).extract 0 i = fs.extract 0 i := by
        rw [← Array.append_singleton, Array.extract_append]
        simp
        omega
      rw [hfs]
      exact ih hi

/-- Each frame is linked to the one below it. -/
theorem caller_eq (h : Chained fs) {i : Nat} (hi : fs[i]? = some f) :
    f.caller? = if i = 0 then none else some (i - 1) := by
  have hlt : i < fs.size := (Array.getElem?_eq_some_iff.1 hi).1
  rw [(h.follows hi).caller, innermost?, Array.size_extract, Nat.min_eq_left (Nat.le_of_lt hlt),
    Nat.sub_zero]

/-- A closure that has been entered by a call instruction was called in a register of the frame
below. -/
theorem exists_owns (h : Chained fs) {i : Nat} (hi : fs[i]? = some f)
    (hclosure : f.isClosure = true) (hfresh : f.isFresh = false) :
    ∃ j g, i = j + 1 ∧ fs[j]? = some g ∧ g.Owns f.function := by
  obtain ⟨g, hg, howns⟩ := (h.follows hi).owned hclosure hfresh
  have hlt : i < fs.size := (Array.getElem?_eq_some_iff.1 hi).1
  have hpos : i ≠ 0 := by
    rintro rfl
    simp at hg
  refine ⟨i - 1, g, by omega, ?_, howns⟩
  rw [Array.back?_eq_getElem?, Array.size_extract, Array.getElem?_extract] at hg
  simpa [Nat.min_eq_left (Nat.le_of_lt hlt), show i - 1 < i by omega] using hg

/-- A frame is called above all frames below it. -/
theorem function_lt_of_follows (h : Chained fs) (hf : f ∈ fs) (hg : g.Follows fs) :
    f.function < g.function := by
  induction h generalizing g with
  | empty => simp at hf
  | push _ hfollows ih =>
    have hlt := hg.function_lt _ Array.back?_push
    rcases Array.mem_push.1 hf with hf | rfl
    · exact Nat.lt_trans (ih hf hfollows) hlt
    · exact hlt

/-- The slots of the called functions ascend. -/
theorem pairwise_function (h : Chained fs) :
    fs.toList.Pairwise fun f g => f.function < g.function := by
  induction h with
  | empty => exact List.Pairwise.nil
  | @push fs g hchained hfollows ih =>
    rw [Array.toList_push, List.pairwise_append]
    refine ⟨ih, List.pairwise_singleton _ _, fun f hf g' hg' => ?_⟩
    obtain rfl := List.mem_singleton.1 hg'
    exact hchained.function_lt_of_follows (Array.mem_toList_iff.1 hf) hfollows

end Chained

/-! ### Links -/

/-- Each frame is linked to the one below it. -/
def Linked (fs : Array Frame) : Prop :=
  ∀ i f, fs[i]? = some f → f.caller? = if i = 0 then none else some (i - 1)

theorem Chained.linked (h : Chained fs) : Linked fs := fun _ _ hi => h.caller_eq hi

namespace Linked

theorem empty : Linked #[] := fun i f hi => by simp at hi

theorem push (h : Linked fs) (hf : f.caller? = innermost? fs) : Linked (fs.push f) := by
  intro i g hi
  rw [Array.getElem?_push] at hi
  split at hi
  · next heq =>
    obtain rfl := Option.some.inj hi
    rw [hf, innermost?, heq]
  · exact h i g hi

theorem shrink (h : Linked fs) (n : Nat) : Linked (fs.shrink n) := by
  intro i f hi
  rw [Array.shrink_eq_take, Array.take_eq_extract, Array.getElem?_extract] at hi
  split at hi
  · exact h i f (Nat.zero_add i ▸ hi)
  · cases hi

/-- The link to a frame and those below it. -/
private theorem getElem?_link (fs : Array Frame) {k : Nat} (hk : k < fs.size) :
    ((if k + 1 = 0 then none else some (k + 1 - 1)).bind (fs[·]?)) = some fs[k] ∧
      (fs.toList.take (k + 1)).reverse = fs[k] :: (fs.toList.take k).reverse := by
  rw [if_neg (Nat.succ_ne_zero k), Option.bind_some, Nat.add_sub_cancel,
    List.take_succ_eq_append_getElem (by simpa using hk), List.reverse_append]
  exact ⟨Array.getElem?_eq_getElem hk, rfl⟩

/-- The links lead from a frame to those below it, one after the other. -/
theorem callers_take (h : Linked fs) {k n : Nat} (hk : k ≤ fs.size) (hn : k ≤ n) :
    Machine.callers fs n (if k = 0 then none else some (k - 1)) = (fs.toList.take k).reverse := by
  induction k generalizing n with
  | zero => cases n <;> rfl
  | succ k ih =>
    obtain ⟨n, rfl⟩ := Nat.exists_eq_add_one_of_ne_zero (Nat.ne_zero_of_lt hn)
    obtain ⟨hlink, htake⟩ := getElem?_link fs hk
    rw [Machine.callers, hlink, htake]
    simp only
    rw [h k fs[k] (Array.getElem?_eq_getElem hk),
      ih (Nat.le_of_succ_le hk) (Nat.le_of_succ_le_succ hn)]

/-- The links lead from the innermost frame to all frames, one after the other. -/
theorem callers_eq (h : Linked fs) :
    Machine.callers fs fs.size (innermost? fs) = fs.toList.reverse := by
  rw [innermost?, h.callers_take (Nat.le_refl _) (Nat.le_refl _), ← Array.length_toList,
    List.take_length]

theorem callerAt?_take (h : Linked fs) {k : Nat} (hk : k ≤ fs.size) (level : Nat) :
    Machine.callerAt? fs level (if k = 0 then none else some (k - 1)) =
      (fs.toList.take k).reverse[level]? := by
  induction k generalizing level with
  | zero => cases level <;> rfl
  | succ k ih =>
    obtain ⟨hlink, htake⟩ := getElem?_link fs hk
    rw [htake]
    cases level with
    | zero => rw [Machine.callerAt?, hlink, List.getElem?_cons_zero]
    | succ level =>
      rw [Machine.callerAt?, hlink, Option.bind_some, h k fs[k] (Array.getElem?_eq_getElem hk),
        ih (Nat.le_of_succ_le hk), List.getElem?_cons_succ]

/-- As many links as the level lead to the frame at that level. -/
theorem callerAt?_eq (h : Linked fs) (level : Nat) :
    Machine.callerAt? fs level (innermost? fs) = fs.toList.reverse[level]? := by
  rw [innermost?, h.callerAt?_take (Nat.le_refl _), ← Array.length_toList, List.take_length]

end Linked

/-! ### Registers with open cells -/

/-- Each cell is open at a register of some frame. -/
def Covers (fs : Array Frame) (cells : List (Nat × CellId)) : Prop :=
  ∀ e ∈ cells, ∃ f ∈ fs, f.Owns e.1

namespace Covers

variable {cells cells' : List (Nat × CellId)}

theorem mono (h : Covers fs cells) (hcells : ∀ e ∈ cells', e ∈ cells) : Covers fs cells' :=
  fun e he => h e (hcells e he)

theorem push (h : Covers fs cells) (f : Frame) : Covers (fs.push f) cells := fun e he =>
  let ⟨g, hg, howns⟩ := h e he
  ⟨g, Array.mem_push_of_mem _ hg, howns⟩

/-- A frame without open cells is not needed. -/
theorem pop (h : Covers (fs.push f) cells) (hf : ∀ e ∈ cells, ¬f.Owns e.1) : Covers fs cells := by
  intro e he
  obtain ⟨g, hg, howns⟩ := h e he
  rcases Array.mem_push.1 hg with hg | rfl
  · exact ⟨g, hg, howns⟩
  · exact absurd howns (hf e he)

/-- The innermost frame may be replaced by another one with the same registers. -/
theorem replace (h : Covers (fs.push f) cells) (hg : ∀ slot, f.Owns slot → g.Owns slot) :
    Covers (fs.push g) cells := by
  intro e he
  obtain ⟨f', hf', howns⟩ := h e he
  rcases Array.mem_push.1 hf' with hf' | rfl
  · exact ⟨f', Array.mem_push_of_mem _ hf', howns⟩
  · exact ⟨g, Array.mem_push_self, hg _ howns⟩

end Covers

end LuaMachine.Frame
