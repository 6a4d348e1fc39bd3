import LuaMachine.Proofs.Machine.AlikeInstructions
import LuaMachine.Proofs.Machine.Runs

/-!
# Runs in step

Two runs that begin alike go on in step: in both the same calls are in progress at any time, and
what waits for them takes the same course as long as states are alike.  When a call ends, its
results or its failure are the same in both runs, and the frames that were there before are there
again, so that the states are alike also for what goes on.

## Main definitions

* `Paired` : the calls in progress in two runs.
* `Config.Abreast` : configurations of two runs that are in step.
* `Config.GoesOn` : the call that is watched is neither over nor about to end.

## Main statements

* `Config.alike_complete`, `Config.alike_abort` : calls that end or fail in both runs.
* `Config.Abreast.step` : runs stay in step as long as the call that is watched goes on.
-/

namespace LuaMachine

open Machine (Alike Akin)

variable {V : Vantage} {n k : Nat}

namespace Config

/-! ### The end of a call -/

section Ends

variable {s m m' : Machine} {wanted : Option Nat}

theorem alike_countDown (h : Alike V.up n k m m') : Alike V n k (countDown m) (countDown m') :=
  h.countDown

/-- What is left of a call that has failed is removed in both states. -/
theorem akin_unwind {depth top function : Nat} (h : Alike V n k m m') (hdepth : V.depth ≤ depth)
    (htop : top ≤ n) :
    Akin V n (unwind depth top function m) (unwind depth top function m') := by
  have hclose := Cell.parallel_closeFrom function m m' h
  obtain ⟨cells, hm, -⟩ := Cell.closeFrom_eq function m
  rw [unwind, unwind]
  rw [hm] at hclose ⊢
  obtain ⟨m₁', hm', h₁⟩ := hclose
  generalize ({ m with heap := _, openCells := _ } : Machine) = m₁ at h₁
  rw [hm']
  have hsize := h₁.size_frames
  have hdepth' := h₁.depth_le
  obtain ⟨stack, rfl⟩ := h₁.exists_stack
  have htake : Alike V n (m₁.frames.shrink depth).size
      { m₁ with frames := m₁.frames.shrink depth }
      { m₁ with frames := m₁.frames.shrink depth, stack } := by
    refine h₁.take (fun j f hf => ?_) ?_
    · rw [Array.shrink_eq_take, Array.take_eq_extract, Array.getElem?_extract] at hf
      split at hf
      · simpa using hf
      · cases hf
    · simp only [Array.size_shrink]
      omega
  exact (htake.setTop fun i hi => htake.agree_of_lt (Nat.lt_of_lt_of_le hi htop)).akin

/-- A call that has ended has the same results in both states. -/
theorem alike_complete (hs : s.Steady) (htop : s.top ≤ n) (h : Alike V.up n k m m')
    (hleft : Call.Left s.freeSlot s.countUp s.frames s.freeSlot wanted m)
    (next next' : Option (Machine → Except Failure (List Value) → Resumption Control))
    (rest rest' : List Pending) :
    ∃ results m₁ m₁', complete m (.boundary s.frames.size s.top s.freeSlot next :: rest) =
        resume m₁ (.ok results) rest next ∧
      complete m' (.boundary s.frames.size s.top s.freeSlot next' :: rest') =
        resume m₁' (.ok results) rest' next' ∧
      s.Returned wanted m₁ (.ok results) ∧ Alike V n s.frames.size m₁ m₁' := by
  obtain ⟨results, hread, heq, hreturned⟩ := complete_boundary hs hleft
  have hextend : Alike V.up (max n m.top) k m m' := h.extend fun i _ hi =>
    h.agree_of_lt_top (by omega)
  have hboth : Routine.Parallel V.up (max n m.top) k (Stack.readRange s.freeSlot m.top) :=
    Stack.parallel_readRange (Nat.le_max_right n m.top)
  have hread' := hboth m m' hextend
  rw [hread] at hread'
  obtain ⟨m₁', hread', h₁⟩ := hread'
  have htop' : m'.top = m.top := h.apply_eq fun _ _ => rfl
  have hover := (alike_countDown h₁).setTop fun i (hi : i < s.top) =>
    (alike_countDown h₁).agree_of_lt (by omega)
  have hk : k = s.frames.size := by rw [← h.size_frames, hleft.frames]
  refine ⟨results, _, { countDown m₁' with top := s.top }, heq, ?_, hreturned,
    hk ▸ hover.mono (Nat.le_max_left _ _)⟩
  simp only [complete, htop', hread']

/-- A call that has failed has the same failure in both states. -/
theorem alike_abort (hs : s.Steady) (htop : s.top ≤ n) (hdepth : V.depth ≤ s.frames.size)
    (h : Alike V.up n k m m') (hfailed : Failed s s.freeSlot m) (e : Failure) (wanted : Option Nat)
    (next next' : Option (Machine → Except Failure (List Value) → Resumption Control))
    (rest rest' : List Pending) :
    ∃ e' m₁ m₁', abort m e (.boundary s.frames.size s.top s.freeSlot next :: rest) =
        resume m₁ (.error e') rest next ∧
      abort m' e (.boundary s.frames.size s.top s.freeSlot next' :: rest') =
        resume m₁' (.error e') rest' next' ∧
      s.Returned wanted m₁ (.error e') ∧ Alike V n s.frames.size m₁ m₁' := by
  have hdown := alike_countDown h
  have htrace : trace (countDown m') e = trace (countDown m) e := by
    simp only [trace, hdown.snapshots_eq]
  have hreturned : s.Returned wanted _ _ := returned_unwind hs hfailed (trace (countDown m) e)
  obtain ⟨k', hover⟩ := akin_unwind hdown hdepth htop
  obtain rfl : s.frames.size = k' := by rw [← hover.size_frames, hreturned.frames]
  exact ⟨trace (countDown m) e, _, _, rfl, by simp only [abort, htrace], hreturned, hover⟩

end Ends

end Config

/-! ### Calls in progress -/

/-- The calls in progress in two runs, each with what waits for it.  The calls `outer` were in
progress when the one began that is watched. -/
inductive Paired (s₀ : Machine) (wanted₀ : Option Nat) (V₀ : Vantage) (n₀ : Nat)
    (outer : List Pending) :
    Vantage → Nat → List Pending → List Pending → Machine → Nat → Option Nat → Prop where
  | outer {s : Machine} {function : Nat} {wanted : Option Nat} :
    Awaits s₀ wanted₀ outer s function wanted →
    Paired s₀ wanted₀ V₀ n₀ outer V₀ n₀ outer outer s function wanted
  | call {V : Vantage} {n n' n'' : Nat} {pending pending' : List Pending} {s m : Machine}
    {function : Nat} {wanted wanted' : Option Nat}
    {next next' : Machine → Except Failure (List Value) → Resumption Control} :
    Paired s₀ wanted₀ V₀ n₀ outer V n pending pending' s function wanted →
    m.Steady ∧ (s.Covered → m.Covered) → V.depth ≤ m.frames.size →
    (∀ m₁ outcome, m.Returned wanted' m₁ outcome →
      (next m₁ outcome).Meets (balancedFrom s) (Continues s function wanted)
        (Stop.Spares (Failed s function))) →
    (∀ m₁ m₁' outcome, Alike V n' m.frames.size m₁ m₁' →
      (next m₁ outcome).InStep V (fun _ => Akin V n) (Akin V n) (next' m₁' outcome)) →
    n' ≤ n'' → m.freeSlot ≤ n'' →
    Paired s₀ wanted₀ V₀ n₀ outer V.up n''
      (.boundary m.frames.size m.top m.freeSlot (some next) :: pending)
      (.boundary m.frames.size m.top m.freeSlot (some next') :: pending') m m.freeSlot wanted'
  | iterator {V : Vantage} {n : Nat} {pending pending' : List Pending} {s m : Machine}
    {function slot : Nat} {wanted : Option Nat} {count : Nat} :
    Paired s₀ wanted₀ V₀ n₀ outer V n pending pending' s function wanted →
    Iterating s function wanted slot m → V.depth ≤ m.frames.size → V.shown < m.frames.size →
    Paired s₀ wanted₀ V₀ n₀ outer V.up n (.iterator :: pending) (.iterator :: pending') m slot
      (some count)

namespace Paired

variable {s₀ s : Machine} {wanted₀ wanted : Option Nat} {V₀ : Vantage} {n₀ function : Nat}
  {outer pending pending' : List Pending}

theorem awaits (h : Paired s₀ wanted₀ V₀ n₀ outer V n pending pending' s function wanted) :
    Awaits s₀ wanted₀ pending s function wanted := by
  induction h with
  | outer h => exact h
  | call _ hm _ hnext _ _ _ ih => exact .call ih hm hnext
  | iterator _ hm _ _ ih => exact .iterator ih hm

/-- Only the number of calls in progress distinguishes the places from which inner calls are
watched. -/
theorem vantage_eq (h : Paired s₀ wanted₀ V₀ n₀ outer V n pending pending' s function wanted) :
    V = { V₀ with reentries := V.reentries } := by
  induction h with
  | outer _ => rfl
  | call _ _ _ _ _ _ _ ih => rw [Vantage.up, ih]
  | iterator _ _ _ _ ih => rw [Vantage.up, ih]

theorem depth_le (h : Paired s₀ wanted₀ V₀ n₀ outer V n pending pending' s function wanted)
    (hne : pending ≠ outer) : V.depth ≤ s.frames.size := by
  cases h with
  | outer _ => exact absurd rfl hne
  | call _ _ hdepth _ _ _ _ => exact hdepth
  | iterator _ _ hdepth _ => exact hdepth

theorem length_le (h : Paired s₀ wanted₀ V₀ n₀ outer V n pending pending' s function wanted) :
    outer.length ≤ pending.length := by
  induction h with
  | outer _ => exact Nat.le_refl _
  | call _ _ _ _ _ _ _ ih => exact Nat.le_succ_of_le ih
  | iterator _ _ _ _ ih => exact Nat.le_succ_of_le ih

/-- No other calls are in progress. -/
theorem eq_outer (h : Paired s₀ wanted₀ V₀ n₀ outer V n outer pending' s function wanted) :
    V = V₀ ∧ n = n₀ ∧ pending' = outer := by
  generalize hpending : outer = pending at h
  cases h with
  | outer _ => exact ⟨rfl, rfl, rfl⟩
  | call h _ _ _ _ _ _ => exact absurd h.length_le (Nat.not_succ_le_self _)
  | iterator h _ _ _ => exact absurd h.length_le (Nat.not_succ_le_self _)

end Paired

/-- The frames of a call in progress lie above those that were there when it began. -/
theorem Running.size_lt {s m : Machine} {function : Nat} {wanted : Option Nat}
    (h : Running s function wanted m) : s.frames.size < m.frames.size := by
  obtain ⟨fs, f, hnested, hframes, hstable, -⟩ := h
  obtain ⟨entered, hfs, -⟩ := hnested.exists_append fun g hg => (hstable g hg).function_lt
  simp only [hframes, hfs, Array.size_push, Array.size_append]
  omega

namespace Config

/-- The call that is watched goes on: it is neither over nor about to end. -/
def GoesOn (depth : Nat) (c : Config) : Prop :=
  match c.current with
  | .done m .next | .done m (.iterate _ _) => depth < m.frames.size
  | .done _ .finished | .stopped _ (.failure _) => False
  | .stopped _ (.fault _) | .waiting _ _ _ _ _ => True

/-- Two configurations are in step: the same calls are in progress, and the computations within them
take the same course. -/
def Abreast (s₀ : Machine) (wanted₀ : Option Nat) (V₀ : Vantage) (n₀ : Nat) (outer : List Pending)
    (c c' : Config) : Prop :=
  ∃ V n s function wanted,
    Paired s₀ wanted₀ V₀ n₀ outer V n c.pending c'.pending s function wanted ∧
    (c.current.Meets (balancedFrom s) (Continues s function wanted)
        (Stop.Spares (Failed s function)) ∨
      ∃ m f, c.current = .stopped m (.fault f)) ∧
    c.current.InStep V (fun _ => Akin V n) (Akin V n) c'.current

/-- The next instruction assigns to the shared variable that lies in a slot. -/
def Assigns (c : Config) (slot : Nat) : Prop :=
  ∃ m pending, c = ⟨.done m .next, pending⟩ ∧ m.Assigns slot

variable {s₀ : Machine} {wanted₀ : Option Nat} {V₀ : Vantage} {n₀ : Nat} {outer : List Pending}
  {pending pending' : List Pending} {s m m' : Machine} {function : Nat} {wanted : Option Nat}

/-- Both runs make a step, and they are still in step. -/
def StepsAbreast (s₀ : Machine) (wanted₀ : Option Nat) (V₀ : Vantage) (n₀ : Nat)
    (outer : List Pending) (c c' : Config) : Prop :=
  ∃ c₁ c₁', c.step = .more c₁ ∧ c'.step = .more c₁' ∧ Abreast s₀ wanted₀ V₀ n₀ outer c₁ c₁'

/-- The innermost frame belongs to the call that is watched. -/
theorem depth_lt
    (hpaired : Paired s₀ wanted₀ V₀ n₀ outer V n pending pending' s function wanted)
    (hrunning : Running s function wanted m) (h : Alike V n k m m')
    (hdeep : pending = outer → V₀.depth < m.frames.size) : V.depth < k := by
  by_cases hpending : pending = outer
  · rw [hpaired.vantage_eq, ← h.size_frames]
    exact hdeep hpending
  · rw [← h.size_frames]
    exact Nat.lt_of_le_of_lt (hpaired.depth_le hpending) hrunning.size_lt

/-- The next instruction. -/
theorem stepsAbreast_next
    (hpaired : Paired s₀ wanted₀ V₀ n₀ outer V n pending pending' s function wanted)
    (hrunning : Running s function wanted m) (h : Alike V n k m m')
    (hdeep : pending = outer → V₀.depth < m.frames.size)
    (hfree : ∀ slot, m.Assigns slot → V₀.kept slot = none) :
    StepsAbreast s₀ wanted₀ V₀ n₀ outer ⟨.done m .next, pending⟩ ⟨.done m' .next, pending'⟩ := by
  have hk := depth_lt hpaired hrunning h hdeep
  have hkept : V.kept = V₀.kept := by rw [hpaired.vantage_eq]
  refine ⟨_, _, rfl, rfl, V, n, s, function, wanted, hpaired, ?_,
    (Dispatch.inStep_step h hrunning hk (hkept ▸ hfree)).annotated⟩
  by_cases hstarved : m.Starved
  · obtain ⟨m₁, first, last, -, hstep⟩ := hstarved.step
    refine .inr ⟨m₁, .negativeRange first last, ?_⟩
    change (Dispatch.step m).mapFailure _ = _
    rw [hstep]
    rfl
  · exact .inl ((Dispatch.triple_step.annotated fun _ _ _ h => h) m ⟨hrunning, hstarved⟩)

/-- The states agree on the slots in use. -/
theorem alike_freeSlot (h : Alike V n k m m') (hk : V.shown < k ∨ k = 0) :
    Alike V (max n m.freeSlot) k m m' := by
  refine h.extend fun i hi hi' => ?_
  have hfree : i < m.freeSlot := by omega
  rw [Machine.freeSlot] at hfree
  split at hfree
  · next f hf =>
    have hlast : m.frames[k - 1]? = some f := by
      rw [← h.size_frames, ← Array.back?_eq_getElem?]
      exact hf
    have hlt := (Array.getElem?_eq_some_iff.1 hlast).1
    rw [h.size_frames] at hlt
    rcases Nat.lt_or_ge i m.top with htop | htop
    · exact h.agree_of_lt_top htop
    · exact h.agree_register (by omega) hlast (by omega)
  · exact h.agree_of_lt_top hfree

/-- A call from within an instruction or a native function begins. -/
theorem stepsAbreast_waiting {f : Value} {args : List Value} {wanted' : Option Nat}
    {next : Machine → Except Failure (List Value) → Resumption Control} {r' : Resumption Control}
    (hpaired : Paired s₀ wanted₀ V₀ n₀ outer V n pending pending' s function wanted)
    (hmeets : (Resumption.waiting m f args wanted' next).Meets (balancedFrom s)
      (Continues s function wanted) (Stop.Spares (Failed s function)))
    (h : (Resumption.waiting m f args wanted' next).InStep V (fun _ => Akin V n) (Akin V n) r') :
    StepsAbreast s₀ wanted₀ V₀ n₀ outer ⟨.waiting m f args wanted' next, pending⟩
      ⟨r', pending'⟩ := by
  obtain ⟨m', next', rfl, n', k, hk, hm, hnext⟩ := h
  obtain ⟨hready, hreturned⟩ := hmeets
  have hsize := hm.size_frames
  have hm' : Alike V (max n' m.freeSlot) k m m' := alike_freeSlot hm (.inl (by
    have := V.shown_le
    omega))
  have hlevel : V.level ≤ m.freeSlot := by
    obtain ⟨f, hf⟩ : ∃ f, m.frames.back? = some f := by
      rw [Array.back?_eq_getElem?, hsize]
      exact ⟨_, Array.getElem?_eq_getElem (by omega)⟩
    have hlt := hready.1.function_lt_freeSlot hf
    rw [Array.back?_eq_getElem?, hsize] at hf
    have hle := (hm.admits _ f hf).level_le (by omega)
    omega
  have hstart := Call.inStep_start f args hlevel (Nat.le_max_right n' m.freeSlot)
    (Nat.le_of_lt hk) (Vantage.admits_of_lt hk hlevel : V.Admits k _ wanted' true) m m' hm'
  obtain ⟨stack, rfl⟩ := hm.exists_stack
  exact ⟨_, _, rfl, rfl, _, _, _, _, _,
    .call hpaired hready (by omega) hreturned (hsize ▸ hnext) (Nat.le_max_left _ _)
      (Nat.le_max_right _ _), .inl (meets_start hready.1 f args), hstart⟩

/-- A call of an iterator begins. -/
theorem stepsAbreast_iterate {slot count : Nat}
    (hpaired : Paired s₀ wanted₀ V₀ n₀ outer V n pending pending' s function wanted)
    (hiterating : Iterating s function wanted slot m) (h : Alike V n k m m')
    (hdeep : pending = outer → V₀.depth < m.frames.size) :
    StepsAbreast s₀ wanted₀ V₀ n₀ outer ⟨.done m (.iterate slot count), pending⟩
      ⟨.done m' (.iterate slot count), pending'⟩ := by
  have hk := depth_lt hpaired hiterating.running h hdeep
  have hsize := h.size_frames
  have hlevel : V.level ≤ slot := by
    obtain ⟨fs, f, -, hframes, -⟩ := hiterating.running
    have hf : m.frames.back? = some f := by rw [hframes, Array.back?_push]
    have hlt := hiterating.above f hf
    rw [Array.back?_eq_getElem?, hsize] at hf
    have hle := (h.admits _ f hf).level_le (by omega)
    omega
  have hextend : Alike V (max n m.top) k m m' := h.extend fun i _ hi =>
    h.agree_of_lt_top (by omega)
  have hslot : slot < max n m.top := by
    have := hiterating.iterator_lt
    omega
  have hstart := Call.inStep_startIterator hlevel hslot (Nat.le_of_lt hk)
    (Vantage.admits_of_lt hk hlevel : V.Admits k slot (some count) true) m m' hextend
  have hshown := V.shown_le
  exact ⟨_, _, rfl, rfl, _, _, _, _, _,
    .iterator hpaired hiterating (by omega) (by omega), .inl (meets_startIterator hiterating),
    hstart.mono (fun _ _ _ h => h.mono (Nat.le_max_left _ _))
      fun _ _ h => h.mono (Nat.le_max_left _ _)⟩

/-- The innermost call has ended. -/
theorem stepsAbreast_complete
    (hpaired : Paired s₀ wanted₀ V₀ n₀ outer V n pending pending' s function wanted)
    (hne : pending ≠ outer) (h : Alike V n k m m')
    (hleft : Call.Left function s.countUp s.frames function wanted m) :
    StepsAbreast s₀ wanted₀ V₀ n₀ outer ⟨.done m .finished, pending⟩
      ⟨.done m' .finished, pending'⟩ := by
  cases hpaired with
  | outer _ => exact absurd rfl hne
  | @call W n₁ n₂ _ pending pending' _ _ _ _ _ next next' hpaired hs _ hmeets hnext hn hfree =>
    have htop : s.top ≤ n := Nat.le_trans s.top_le_freeSlot hfree
    obtain ⟨results, m₁, m₁', heq, heq', hreturned, h₁⟩ :=
      alike_complete hs.1 htop h hleft (some next) (some next') pending pending'
    exact ⟨_, _, heq, heq', W, n₁, _, _, _, hpaired, .inl (hmeets m₁ _ hreturned),
      hnext m₁ m₁' _ (h₁.mono hn)⟩
  | @iterator W _ pending pending' _ _ _ _ _ _ hpaired hiterating hdepth hshown =>
    obtain ⟨m₁, heq, hrunning⟩ := running_of_left hiterating hleft
    have hsize : k = s.frames.size := by rw [← h.size_frames, hleft.frames]
    have hreset : Routine.Parallel W n k Stack.resetTop :=
      Stack.parallel_resetTop fun _ => hsize ▸ hshown
    have hreset' := hreset _ _ (alike_countDown h)
    rw [heq] at hreset'
    obtain ⟨m₁', heq', h₁⟩ := hreset'
    refine ⟨⟨.done m₁ .next, pending⟩, ⟨.done m₁' .next, pending'⟩, ?_, ?_, W, n, _, _, _, hpaired,
      .inl hrunning, m₁', rfl, h₁.akin⟩
    · simp only [Config.step, complete, heq]
    · simp only [Config.step, complete, heq']

/-- The innermost call has failed. -/
theorem stepsAbreast_abort {e : Failure}
    (hpaired : Paired s₀ wanted₀ V₀ n₀ outer V n pending pending' s function wanted)
    (hne : pending ≠ outer) (h : Alike V n k m m') (hfailed : Failed s function m) :
    StepsAbreast s₀ wanted₀ V₀ n₀ outer ⟨.stopped m (.failure e), pending⟩
      ⟨.stopped m' (.failure e), pending'⟩ := by
  cases hpaired with
  | outer _ => exact absurd rfl hne
  | @call W n₁ n₂ _ pending pending' _ _ _ _ _ next next' hpaired hs hdepth hmeets hnext hn hfree =>
    have htop : s.top ≤ n := Nat.le_trans s.top_le_freeSlot hfree
    obtain ⟨e', m₁, m₁', heq, heq', hreturned, h₁⟩ :=
      alike_abort hs.1 htop hdepth h hfailed e wanted (some next) (some next') pending pending'
    exact ⟨_, _, heq, heq', W, n₁, _, _, _, hpaired, .inl (hmeets m₁ _ hreturned),
      hnext m₁ m₁' _ (h₁.mono hn)⟩
  | @iterator W _ _ _ _ _ _ _ _ _ hpaired hiterating _ _ =>
    have hdown := alike_countDown h
    have hposition : (countDown m').ownPosition = (countDown m).ownPosition :=
      hdown.apply_eq fun _ _ => rfl
    refine ⟨_, _, rfl, rfl, W, n, _, _, _, hpaired,
      .inl (failed_of_failed hiterating hfailed), countDown m', ?_, hdown.akin⟩
    rw [hposition]

/-- **Steps.** As long as the call that is watched goes on, two runs stay in step, unless an
instruction assigns to a variable in a watched slot. -/
theorem Abreast.step {c c' : Config} (h : Abreast s₀ wanted₀ V₀ n₀ outer c c')
    (hgoes : c.pending = outer → c.GoesOn V₀.depth)
    (hfree : ∀ slot, c.Assigns slot → V₀.kept slot = none)
    (hfault : ∀ m f, c.current ≠ .stopped m (.fault f)) :
    StepsAbreast s₀ wanted₀ V₀ n₀ outer c c' := by
  obtain ⟨current, pending⟩ := c
  obtain ⟨current', pending'⟩ := c'
  obtain ⟨V, n, s, function, wanted, hpaired, hmeets, hcurrent⟩ := h
  have hmeets := hmeets.resolve_right fun ⟨m, f, hf⟩ => hfault m f hf
  cases current with
  | done m control =>
    obtain ⟨m', rfl, k, hm⟩ := hcurrent
    cases control with
    | next =>
      exact stepsAbreast_next hpaired hmeets hm hgoes fun slot hslot =>
        hfree slot ⟨m, pending, rfl, hslot⟩
    | finished => exact stepsAbreast_complete hpaired hgoes hm hmeets
    | iterate slot count => exact stepsAbreast_iterate hpaired hmeets hm hgoes
  | stopped m stop =>
    obtain ⟨m', rfl, k, hm⟩ := hcurrent
    cases stop with
    | failure e => exact stepsAbreast_abort hpaired hgoes hm hmeets
    | fault f => exact absurd rfl (hfault m f)
  | waiting m f args wanted' next => exact stepsAbreast_waiting hpaired hmeets hcurrent

/-! ### Calls from the host -/

section Host

variable {c c' : Config}

/-- What is in progress when the host has made a call. -/
def hostCall (s : Machine) : List Pending := [.boundary s.frames.size s.top s.freeSlot none]

/-- A call from the host begins in two states that are alike. -/
theorem abreast_begin {s' : Machine} (hs : s.Steady) (h : Alike V s.freeSlot s.frames.size s s')
    (hlevel : V.level ≤ s.freeSlot) (hadmits : V.Admits s.frames.size s.freeSlot wanted true)
    (f : Value) (args : List Value) :
    Abreast s wanted V.up s.freeSlot (hostCall s) (begin s f args wanted none [])
      (begin s' f args wanted none []) := by
  have hstart := Call.inStep_start f args hlevel (Nat.le_refl _) h.depth_le hadmits s s' h
  obtain ⟨stack, rfl⟩ := h.exists_stack
  exact ⟨V.up, s.freeSlot, s, s.freeSlot, wanted, .outer .host, .inl (meets_start hs f args),
    hstart⟩

theorem eq_of_awaits_hostCall {s₁ : Machine} {wanted₁ : Option Nat}
    (h : Awaits s wanted pending s₁ function wanted₁) (hpending : pending = hostCall s) :
    s = s₁ ∧ s.freeSlot = function ∧ wanted = wanted₁ := by
  cases h with
  | host => exact ⟨rfl, rfl, rfl⟩
  | call _ _ _ =>
    injection hpending with hboundary
    injection hboundary with _ _ _ hnext
    cases hnext
  | iterator _ _ => cases hpending

/-- A call from the host ends in the same way in both runs. -/
theorem Abreast.final (hs : s.Steady) (hdepth : V.depth ≤ s.frames.size)
    (h : Abreast s wanted V.up s.freeSlot (hostCall s) c c') (hpending : c.pending = hostCall s)
    (hgoes : ¬c.GoesOn s.frames.size) :
    ∃ m₁ m₁', ∃ outcome : Except Failure (List Value),
      c.step = .final m₁ (outcome.mapError .failure) ∧
      c'.step = .final m₁' (outcome.mapError .failure) ∧
      Alike V s.freeSlot s.frames.size m₁ m₁' := by
  obtain ⟨current, pending⟩ := c
  obtain ⟨current', pending'⟩ := c'
  obtain rfl : pending = hostCall s := hpending
  obtain ⟨W, n, s₁, function, wanted₁, hpaired, hmeets, hcurrent⟩ := h
  obtain ⟨rfl, rfl, rfl⟩ := hpaired.eq_outer
  obtain ⟨rfl, rfl, rfl⟩ := eq_of_awaits_hostCall hpaired.awaits rfl
  cases current with
  | waiting => exact absurd trivial hgoes
  | stopped m stop =>
    cases stop with
    | fault => exact absurd trivial hgoes
    | failure e =>
      obtain ⟨m', rfl, k, hm⟩ := hcurrent
      have hfailed : Failed s s.freeSlot m := hmeets.resolve_right nofun
      obtain ⟨e', m₁, m₁', heq, heq', -, h₁⟩ :=
        alike_abort hs s.top_le_freeSlot hdepth hm hfailed e wanted none none [] []
      exact ⟨m₁, m₁', .error e', heq, heq', h₁⟩
  | done m control =>
    obtain ⟨m', rfl, k, hm⟩ := hcurrent
    have hcontinues : Continues s s.freeSlot wanted control m := hmeets.resolve_right nofun
    cases control with
    | next => exact absurd hcontinues.size_lt hgoes
    | iterate => exact absurd hcontinues.running.size_lt hgoes
    | finished =>
      obtain ⟨results, m₁, m₁', heq, heq', -, h₁⟩ :=
        alike_complete hs s.top_le_freeSlot hm hcontinues none none [] []
      exact ⟨m₁, m₁', .ok results, heq, heq', h₁⟩

/-- **Runs.** Two runs of a call from the host that are in step end after the same number of steps,
with the same outcome and in states that are alike, if no slots are watched. -/
theorem Abreast.run {Q : Machine → Machine → Prop} (hs : s.Steady)
    (hdepth : V.depth = s.frames.size)
    (hkept : ∀ slot, V.kept slot = none)
    (hQ : ∀ W n m m', W.level = V.level → Akin W n m m' → Q m m')
    (h : Abreast s wanted V.up s.freeSlot (hostCall s) c c') (steps : Nat) :
    Option.Rel (fun r r' => Q r.1 r'.1 ∧ r'.2 = r.2) (c.run steps) (c'.run steps) := by
  induction steps generalizing c c' with
  | zero => exact .none
  | succ steps ih =>
    by_cases hfault : ∃ m f, c.current = .stopped m (.fault f)
    · obtain ⟨m, f, hf⟩ := hfault
      obtain ⟨current, pending⟩ := c
      obtain ⟨current', pending'⟩ := c'
      obtain rfl : current = .stopped m (.fault f) := hf
      obtain ⟨W, n, _, _, _, hpaired, -, m', rfl, hm⟩ := h
      refine .some ⟨hQ W n m m' ?_ hm, rfl⟩
      rw [hpaired.vantage_eq]
      rfl
    by_cases hover : c.pending = hostCall s ∧ ¬c.GoesOn s.frames.size
    · obtain ⟨m₁, m₁', outcome, heq, heq', h₁⟩ :=
        h.final hs (Nat.le_of_eq hdepth) hover.1 hover.2
      rw [run_of_final heq, run_of_final heq']
      exact .some ⟨hQ V s.freeSlot m₁ m₁' rfl h₁.akin, rfl⟩
    · obtain ⟨c₁, c₁', heq, heq', h₁⟩ := h.step
        (fun hpending => Classical.byContradiction fun hgoes => hover ⟨hpending, hdepth ▸ hgoes⟩)
        (fun slot _ => hkept slot) fun m f hf => hfault ⟨m, f, hf⟩
      rw [run_of_more heq, run_of_more heq']
      exact ih h₁

end Host

end Config

end LuaMachine
