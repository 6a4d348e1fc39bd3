import LuaMachine.Proofs.Machine.Enduring

/-!
# Where failures come from

Code that does not belong to a native function passes on the failures of the calls that it makes.
Of its own accord it fails with complaints only: nothing is raised but by native functions, and the
budget is found to be exhausted only when the next instruction is to be paid for.  A native function
may do as it likes, but when its code runs, its frame is the innermost one.

## Main definitions

* `Machine.RunsNative` : the innermost frame belongs to a native function.
* `Resumption.Candid` : a computation that behaves in this way.
* `Config.Exhausted` : the next instruction has been fetched and cannot be paid for.
* `Config.Candid` : a configuration in the course of a call, all of whose computations are candid.

## Main statements

* `Dispatch.candid_step`, `Call.candid_start` : instructions and calls.
* `Config.Candid.step`, `Config.Candid.of_reaches` : steps and runs.
* `Config.Candid.cause_of_raises` : the failures that arise.
-/

namespace LuaMachine

variable {α β : Type}

/-! ### Positions and tracebacks -/

namespace Failure

variable {e : Failure} {position : String}

@[simp] theorem cause_locate : (e.locate position).cause = e.cause := by
  unfold locate
  split <;> rfl

@[simp] theorem traceback_locate : (e.locate position).traceback = e.traceback := by
  unfold locate
  split <;> rfl

/-- A failure that has left a call is given no position any more. -/
theorem locate_of_traced (h : e.traceback.isSome) : e.locate position = e :=
  if_neg fun ⟨_, hnone⟩ => by simp [Option.isNone_iff_eq_none.1 hnone] at h

end Failure

/-! ### Native functions -/

/-- The innermost frame belongs to a native function. -/
def Machine.RunsNative (m : Machine) : Prop := ∃ f, m.frame? = some f ∧ f.closure? = none

theorem Machine.runsNative_congr {m m' : Machine}
    (h : m'.frames.map Frame.unselected = m.frames.map Frame.unselected) :
    m'.RunsNative ↔ m.RunsNative := by
  have hiff : ∀ m : Machine, m.RunsNative ↔
      ∃ f, (m.frames.map Frame.unselected).back? = some f ∧ f.closure? = none := fun m => by
    rw [Array.back?_map]
    constructor
    · rintro ⟨f, hf, hnative⟩
      exact ⟨f.unselected, congrArg (Option.map Frame.unselected) hf, hnative⟩
    · rintro ⟨_, hunselected, hnative⟩
      obtain ⟨f, hf, rfl⟩ := Option.map_eq_some_iff.1 hunselected
      exact ⟨f, hf, hnative⟩
  rw [hiff, hiff, h]

theorem Machine.tolerant_runsNative : Tolerant RunsNative :=
  fun _ _ hm h => (runsNative_congr h.frames).2 hm

/-! ### Candid computations -/

/-- What a computation stops with: a native function may do as it likes, a failure that has left a
call is passed on, and apart from that there are complaints only. -/
def Stop.Candid : Stop → Machine → Prop
  | .failure e, m => m.RunsNative ∨ e.traceback.isSome ∨ e.cause.IsOwn
  | .fault _, _ => True

/-- An outcome of a call: a failure has left the call. -/
def Traced (outcome : Except Failure (List Value)) : Prop :=
  ∀ e, outcome = .error e → e.traceback.isSome

/-- The computation passes on the failures of its calls and raises nothing of its own accord, except
where a native function runs. -/
def Resumption.Candid : Resumption α → Prop
  | done _ _ => True
  | stopped m s => s.Candid m
  | waiting m _ _ wanted next =>
    (m.RunsNative ∨ ∀ m' e, e.traceback.isSome → next m' (.error e) = .stopped m' (.failure e)) ∧
      ∀ m' outcome, m.Returned wanted m' outcome → Traced outcome → (next m' outcome).Candid

namespace Resumption

theorem Dutiful.candid {r : Resumption α} (h : r.Dutiful) : r.Candid := by
  induction r with
  | done m a => trivial
  | stopped m s =>
    cases s with
    | failure e => exact .inr (.inr h.2)
    | fault f => trivial
  | waiting m f args wanted next ih =>
    refine ⟨.inr fun m' e _ => h.1 m' e, fun m' outcome _ htraced => ?_⟩
    cases outcome with
    | ok results => exact ih _ _ (h.2 m' results)
    | error e =>
      rw [h.1]
      exact .inr (.inl (htraced e rfl))

theorem Candid.bind {r : Resumption α} {f : α → Machine → Resumption β} (h : r.Candid)
    (hf : ∀ a m, (f a m).Candid) : (r.bind f).Candid := by
  induction r with
  | done m a => exact hf a m
  | stopped m s => exact h
  | waiting m g args wanted next ih =>
    refine ⟨h.1.imp_right fun hpass m' e he => ?_, fun m' outcome hreturned htraced =>
      ih _ _ (h.2 m' outcome hreturned htraced)⟩
    change (next m' (.error e)).bind f = _
    rw [hpass m' e he]
    rfl

/-- Positions that are added do not matter. -/
theorem Candid.annotate {r : Resumption α} (h : r.Candid) :
    (r.mapFailure fun m e => e.locate m.ownPosition).Candid := by
  induction r with
  | done m a => trivial
  | stopped m s =>
    cases s with
    | failure e =>
      change m.RunsNative ∨ (e.locate _).traceback.isSome ∨ (e.locate _).cause.IsOwn
      rw [Failure.traceback_locate, Failure.cause_locate]
      exact h
    | fault f => trivial
  | waiting m f args wanted next ih =>
    refine ⟨h.1.imp_right fun hpass m' e he => ?_, fun m' outcome hreturned htraced =>
      ih _ _ (h.2 m' outcome hreturned htraced)⟩
    change (next m' (.error e)).mapFailure _ = _
    rw [hpass m' e he, mapFailure, Failure.locate_of_traced he]

end Resumption

/-- Where native code runs, its frame is the innermost one. -/
def nativeOnly : Contract where
  ready := Machine.RunsNative
  returned _ _ m' _ := m'.RunsNative

theorem Resumption.Meets.candid {r : Resumption α} (h : r.Meets nativeOnly
    (fun _ => Machine.RunsNative) fun _ => Machine.RunsNative) : r.Candid := by
  induction r with
  | done m a => trivial
  | stopped m s =>
    cases s with
    | failure e => exact .inl h
    | fault f => trivial
  | waiting m f args wanted next ih =>
    exact ⟨.inl h.1, fun m' outcome hreturned _ =>
      ih m' outcome (h.2 m' outcome ((Machine.runsNative_congr (by rw [hreturned.frames])).2 h.1))⟩

/-! ### Instructions -/

namespace Call

theorem triple_install_native (function : Nat) (wanted : Option Nat) (isFresh : Bool) :
    Routine.Triple (fun _ => True) (install (layoutNative function wanted isFresh))
      (fun _ => Machine.RunsNative) fun s _ => s.IsOwn := by
  have hstops : ∀ {α : Type} {x : Routine α}, x.Ordinary →
      Routine.Triple (fun _ => True) x (fun _ _ => True) fun s _ => s.IsOwn :=
    fun hx m _ => by
      have h := hx.touched m m rfl
      revert h
      split
      · exact fun _ => trivial
      · exact fun h => h.2
  have hlayout : Routine.Triple (fun _ => True) (layoutNative function wanted isFresh)
      (fun p _ => p.1.closure? = none) fun s _ => s.IsOwn :=
    Routine.Triple.bind (hstops Stack.ordinary_top) fun _ =>
      Routine.Triple.bind (hstops (Stack.ordinary_readRange _ _)) fun _ =>
        Routine.Triple.pure fun _ _ => rfl
  refine Routine.Triple.bind (hstops ordinary_checkDepth) fun _ =>
    Routine.Triple.bind hlayout fun p => ?_
  refine Routine.Triple.bind (Routine.Triple.modify fun m hp => ?_) fun _ =>
    Routine.Triple.pure fun _ hm => hm
  exact ⟨_, Array.back?_push, hp⟩

theorem candid_runNative (id : NativeId) (function : Nat) (wanted : Option Nat) (isFresh : Bool)
    (m : Machine) : (runNative id function wanted isFresh m).Candid := by
  rw [runNative_eq]
  change ((Exec.ofRoutine (install (layoutNative function wanted isFresh)) m).bind _).Candid
  have hinstall := triple_install_native function wanted isFresh m trivial
  cases h : install (layoutNative function wanted isFresh) m with
  | error s m' =>
    rw [h] at hinstall
    simp only [Exec.ofRoutine, h]
    exact Resumption.Dutiful.candid (r := .stopped m' s) hinstall
  | ok p m' =>
    rw [h] at hinstall
    simp only [Exec.ofRoutine, h]
    have hrun : (((m'.heap.native id).body p.2).run m').Candid :=
      (Behaviour.mild_run _ ⟨fun _ h => h, fun _ _ _ _ _ h => h⟩ Machine.tolerant_runsNative m'
        hinstall).candid
    refine hrun.bind fun results m'' => Resumption.Dutiful.candid ?_
    exact Resumption.Dutiful.bind (r := Exec.ofRoutine pop m'') trivial fun _ m =>
      (Exec.Ordinary.bind (.lift (ordinary_deliver _ _ _)) fun _ =>
        .lift (ordinary_afterReturn _)).dutiful m

end Call

theorem compositional_candid : Exec.Compositional fun x => ∀ m, (x m).Candid where
  ordinary hx m := (hx.dutiful m).candid
  bind hx hf m := (hx m).bind hf
  inspect hf _ m := hf m m
  install {_ x} hx m := by
    rw [Call.install, Exec.ofRoutine_bind]
    refine ((Exec.Ordinary.lift Call.ordinary_checkDepth).dutiful m).candid.bind fun _ m => ?_
    rw [Exec.ofRoutine_bind]
    exact ((Exec.Ordinary.lift hx).dutiful m).candid.bind fun _ _ => trivial
  pop m := trivial
  runNative := Call.candid_runNative

namespace Call

/-- Calls from within instructions, native functions or from the host. -/
theorem candid_start (f : Value) (args : List Value) (wanted : Option Nat) (function : Nat)
    (m : Machine) : (start f args wanted function m).Candid :=
  compositional_candid.start (fun _ => trivial) f args wanted function m

theorem candid_startIterator (function wanted : Nat) (m : Machine) :
    (startIterator function wanted m).Candid :=
  compositional_candid.startIterator (fun _ => trivial) function wanted m

end Call

namespace Dispatch

variable {m : Machine}

/-- **Steps.** An instruction is candid unless it cannot be paid for. -/
theorem candid_step (h : ¬m.Exhausted) : (step.annotated m).Candid := by
  refine Resumption.Candid.annotate ?_
  rcases step_cases m with ⟨cause, hcause, hstep⟩ | ⟨hexhausted, -⟩ | ⟨-, f, c, i, hstep⟩
  · rw [hstep]
    exact .inr (.inr hcause)
  · exact absurd hexhausted h
  · rw [hstep]
    exact compositional_candid.dispatch f c i _

/-- One that cannot be paid for is one of a closure. -/
theorem annotated_of_unpaid (h : m.Exhausted) : ∃ m' : Machine, ¬m'.RunsNative ∧
    m'.budget = some 0 ∧ step.annotated m =
      .stopped m' (.failure ((Failure.of .budgetExhausted).locate m'.ownPosition)) := by
  obtain ⟨m', htouched, hbudget, hstep⟩ := step_of_unpaid h
  obtain ⟨i, hselected⟩ := Option.isSome_iff_exists.1 h.selected
  obtain ⟨f, c, hf, hc, -⟩ := exists_of_selected? hselected
  refine ⟨m', fun hnative => ?_, hbudget, by rw [Exec.annotated, hstep]; rfl⟩
  obtain ⟨g, hg, hclosure⟩ := (Machine.runsNative_congr htouched.frames).1 hnative
  obtain rfl : f = g := Option.some.inj (hf.symm.trans hg)
  rw [Machine.closureOf?, hclosure] at hc
  cases hc

end Dispatch

/-! ### Calls in progress -/

/-- The calls in progress, as in `Awaits`, all of them made by candid computations. -/
inductive AwaitsCandidly (s₀ : Machine) (wanted₀ : Option Nat) :
    List Pending → Machine → Nat → Option Nat → Prop where
  | host : AwaitsCandidly s₀ wanted₀ [.boundary s₀.frames.size s₀.top s₀.freeSlot none] s₀
    s₀.freeSlot wanted₀
  | call {pending : List Pending} {s m : Machine} {function : Nat} {wanted wanted' : Option Nat}
    {f : Value} {args : List Value}
    {next : Machine → Except Failure (List Value) → Resumption Control} :
    AwaitsCandidly s₀ wanted₀ pending s function wanted →
    (Resumption.waiting m f args wanted' next).Meets (balancedFrom s)
      (Continues s function wanted) (Stop.Spares (Failed s function)) →
    (Resumption.waiting m f args wanted' next).Candid →
    AwaitsCandidly s₀ wanted₀ (.boundary m.frames.size m.top m.freeSlot (some next) :: pending) m
      m.freeSlot wanted'
  | iterator {pending : List Pending} {s m : Machine} {function slot : Nat}
    {wanted : Option Nat} {count : Nat} :
    AwaitsCandidly s₀ wanted₀ pending s function wanted →
    Iterating s function wanted slot m →
    AwaitsCandidly s₀ wanted₀ (.iterator :: pending) m slot (some count)

namespace Config

/-- The computation has failed since an instruction could not be paid for. -/
def Unpaid (r : Resumption Control) : Prop :=
  ∃ m e, r = .stopped m (.failure e) ∧ e.cause = .budgetExhausted

/-- The configuration is in the course of a call by the host, and all its computations are candid,
unless an instruction could not be paid for. -/
def Candid (s₀ : Machine) (wanted₀ : Option Nat) (c : Config) : Prop :=
  ∃ s function wanted, AwaitsCandidly s₀ wanted₀ c.pending s function wanted ∧
    c.current.Meets (balancedFrom s) (Continues s function wanted)
      (Stop.Spares (Failed s function)) ∧
    (c.current.Candid ∨ Unpaid c.current)

/-- The next instruction cannot be paid for. -/
def Exhausted (c : Config) : Prop := ∃ m pending, c = ⟨.done m .next, pending⟩ ∧ m.Exhausted

/-- A failure arises; it does not merely go on to the frame that called an iterator. -/
structure Raises (c : Config) (m : Machine) (e : Failure) (pending : List Pending) : Prop where
  step : c.step = .more ⟨.stopped m (.failure e), pending⟩
  traceback : e.traceback = none
  arises : c.current.isStopped = true → c.pending ≠ .iterator :: pending

variable {s₀ s m : Machine} {wanted₀ wanted : Option Nat} {function : Nat}
  {pending rest : List Pending} {c c' : Config} {e : Failure}

/-- What a step leads to is candid, and so is the computation in progress, unless a failure goes on
to the frame that called an iterator. -/
def CandidStep (s₀ : Machine) (wanted₀ : Option Nat) (c : Config) : Step → Prop
  | .more c' => c'.Candid s₀ wanted₀ ∧
    (c'.current.Candid ∨ c.Exhausted ∨
      c.current.isStopped = true ∧ c.pending = .iterator :: c'.pending)
  | .final _ _ => True

theorem candidStep_of_candid {r : Resumption Control}
    (hawaits : AwaitsCandidly s₀ wanted₀ pending s function wanted)
    (hmeets : r.Meets (balancedFrom s) (Continues s function wanted)
      (Stop.Spares (Failed s function))) (hcandid : r.Candid) :
    CandidStep s₀ wanted₀ c (.more ⟨r, pending⟩) :=
  ⟨⟨s, function, wanted, hawaits, hmeets, .inl hcandid⟩, .inl hcandid⟩

theorem candidStep_complete (hs₀ : s₀.Steady)
    (h : AwaitsCandidly s₀ wanted₀ pending s function wanted)
    (hleft : Call.Left function s.countUp s.frames function wanted m) :
    CandidStep s₀ wanted₀ c (complete m pending) := by
  cases h with
  | host =>
    obtain ⟨results, -, heq, -⟩ := complete_boundary hs₀ hleft
    rw [heq]
    trivial
  | call hawaits hmeets hcandid =>
    obtain ⟨results, -, heq, hreturned⟩ := complete_boundary hmeets.1.1 hleft
    rw [heq]
    exact candidStep_of_candid hawaits (hmeets.2 _ _ hreturned) (hcandid.2 _ _ hreturned
      (by rintro _ ⟨⟩))
  | iterator hawaits hiterating =>
    obtain ⟨m', heq, hrunning⟩ := running_of_left hiterating hleft
    simp only [complete, heq]
    exact candidStep_of_candid hawaits hrunning trivial

theorem isSome_traceback_trace (m : Machine) (e : Failure) : (trace m e).traceback.isSome := by
  rw [trace]
  split
  · rfl
  · next h => exact Option.isSome_iff_ne_none.2 fun hnone => h (hnone ▸ rfl)

theorem candidStep_abort (h : AwaitsCandidly s₀ wanted₀ pending s function wanted)
    (hfailed : Failed s function m)
    (hcandid : Resumption.Candid (.stopped m (.failure e) : Resumption Control) ∨
      Unpaid (.stopped m (.failure e))) (hc : c = ⟨.stopped m (.failure e), pending⟩) :
    CandidStep s₀ wanted₀ c (abort m e pending) := by
  cases h with
  | host => trivial
  | call hawaits hmeets hcandid =>
    have hreturned : s.Returned wanted _ _ :=
      returned_unwind hmeets.1.1 hfailed (trace (countDown m) e)
    refine candidStep_of_candid hawaits (hmeets.2 _ _ hreturned) (hcandid.2 _ _ hreturned ?_)
    rintro _ ⟨⟩
    exact isSome_traceback_trace _ _
  | iterator hawaits hiterating =>
    subst hc
    refine ⟨⟨_, _, _, hawaits, failed_of_failed hiterating hfailed, ?_⟩, .inr (.inr ⟨rfl, rfl⟩)⟩
    rcases hcandid with hcandid | ⟨_, _, heq, hcause⟩
    · exact .inl (Resumption.Candid.annotate (r := .stopped (countDown m) (.failure e)) hcandid)
    · cases heq
      exact .inr ⟨_, _, rfl, Failure.cause_locate.trans hcause⟩

/-- **Steps.** Whatever is in progress is candid, and where it stops with a failure that arises
there, so is the failure. -/
theorem Candid.step (hs₀ : s₀.Steady) (h : c.Candid s₀ wanted₀) (hstarved : ¬c.Starved) :
    CandidStep s₀ wanted₀ c c.step := by
  obtain ⟨current, pending⟩ := c
  obtain ⟨s, function, wanted, hawaits, hcurrent, hcandid⟩ := h
  cases current with
  | done m control =>
    cases control with
    | next =>
      have hstep := (Dispatch.triple_step.annotated fun _ _ _ h => h) m
        ⟨hcurrent, fun h => hstarved ⟨m, pending, rfl, h⟩⟩
      by_cases hexhausted : m.Exhausted
      · obtain ⟨m', -, -, heq⟩ := Dispatch.annotated_of_unpaid hexhausted
        refine ⟨⟨s, function, wanted, hawaits, hstep, ?_⟩,
          .inr (.inl ⟨m, pending, rfl, hexhausted⟩)⟩
        exact .inr ⟨_, _, heq, Failure.cause_locate⟩
      · exact candidStep_of_candid hawaits hstep (Dispatch.candid_step hexhausted)
    | finished => exact candidStep_complete hs₀ hawaits hcurrent
    | iterate slot count =>
      exact candidStep_of_candid (.iterator hawaits hcurrent) (meets_startIterator hcurrent)
        (Call.candid_startIterator _ _ _)
  | stopped m stop =>
    cases stop with
    | failure e => exact candidStep_abort hawaits hcurrent hcandid rfl
    | fault _ => exact hcurrent.elim
  | waiting m f args wanted' next =>
    have hcandid := hcandid.resolve_right (by rintro ⟨_, _, heq, _⟩; cases heq)
    exact candidStep_of_candid (.call hawaits hcurrent hcandid)
      (meets_start hcurrent.1.1 f args) (Call.candid_start ..)

theorem candid_begin (hs : s.Steady) (f : Value) (args : List Value) (wanted : Option Nat) :
    (begin s f args wanted none []).Candid s wanted :=
  ⟨_, _, _, .host, meets_start hs f args, .inl (Call.candid_start ..)⟩

/-- **Runs.** All configurations with a state are candid. -/
theorem Candid.of_reaches (hs₀ : s₀.Steady) (h : c.Candid s₀ wanted₀) (hreaches : c.Reaches c') :
    c'.Candid s₀ wanted₀ ∨ ∃ m f, c'.current = .stopped m (.fault f) := by
  induction hreaches with
  | refl => exact .inl h
  | @step c' c'' _ hstep ih =>
    rcases ih with hc' | ⟨m, f, hfault⟩
    · by_cases hstarved : c'.Starved
      · obtain ⟨m, first, last, pending, -, hstep'⟩ := hstarved.step
        cases hstep.symm.trans hstep'
        exact .inr ⟨m, _, rfl⟩
      · have hcandid := hc'.step hs₀ hstarved
        rw [hstep] at hcandid
        exact .inl hcandid.1
    · exact absurd hfault (not_fault_of_step hstep f)

/-- An instruction that cannot be paid for fails. -/
theorem Exhausted.raises (h : c.Exhausted) : ∃ m e pending, c.Raises m e pending ∧
    ¬m.RunsNative ∧ e.cause = .budgetExhausted := by
  obtain ⟨m, pending, rfl, hexhausted⟩ := h
  obtain ⟨m', hnative, -, heq⟩ := Dispatch.annotated_of_unpaid hexhausted
  have hstep := congrArg (fun r => Step.more ⟨r, pending⟩) heq
  exact ⟨m', _, pending, ⟨hstep, Failure.traceback_locate, by simp⟩, hnative, Failure.cause_locate⟩

/-- **Failures that arise.** The next instruction could not be paid for, or a native function has
failed, or the machine complains. -/
theorem Candid.cause_of_raises (hs₀ : s₀.Steady) (h : c.Candid s₀ wanted₀)
    (hraises : c.Raises m e pending) :
    c.Exhausted ∧ e.cause = .budgetExhausted ∧ ¬m.RunsNative ∨
      ¬c.Exhausted ∧ (m.RunsNative ∨ e.cause.IsOwn) := by
  by_cases hexhausted : c.Exhausted
  · obtain ⟨_, _, _, hraises', hnative, hcause⟩ := hexhausted.raises
    cases hraises.step.symm.trans hraises'.step
    exact .inl ⟨hexhausted, hcause, hnative⟩
  · refine .inr ⟨hexhausted, ?_⟩
    have hstarved : ¬c.Starved := fun hstarved => by
      obtain ⟨_, _, _, _, -, hstep⟩ := hstarved.step
      cases hraises.step.symm.trans hstep
    have hstep := h.step hs₀ hstarved
    rw [hraises.step] at hstep
    rcases hstep.2 with hcandid | hexhausted' | ⟨hstopped, hpending⟩
    · rcases hcandid with hnative | htraced | hown
      · exact .inl hnative
      · rw [hraises.traceback] at htraced
        cases htraced
      · exact .inr hown
    · exact absurd hexhausted' hexhausted
    · exact absurd hpending (hraises.arises hstopped)

/-- Only native functions raise values. -/
theorem Candid.runsNative_of_raised (h : c.Candid s₀ wanted₀)
    (hc : c.current = .stopped m (.failure e)) (htraceback : e.traceback = none) {v : Value}
    (hcause : e.cause = .raised v) : m.RunsNative := by
  obtain ⟨_, _, _, -, -, hcandid⟩ := h
  rw [hc] at hcandid
  rcases hcandid with (hnative | htraced | hown) | ⟨_, _, heq, hunpaid⟩
  · exact hnative
  · rw [htraceback] at htraced
    cases htraced
  · exact absurd hcause (hown.ne_raised v)
  · cases heq
    cases hcause.symm.trans hunpaid

/-- The failure of a call reaches a native function, or it is passed on. -/
theorem Candid.next_eq {depth top function' : Nat}
    {next : Machine → Except Failure (List Value) → Resumption Control}
    (h : c.Candid s₀ wanted₀)
    (hc : c = ⟨.stopped m (.failure e), .boundary depth top function' (some next) :: rest⟩) :
    (unwind depth top function' (countDown m)).RunsNative ∨
      ∀ m' e', e'.traceback.isSome → next m' (.error e') = .stopped m' (.failure e') := by
  subst hc
  obtain ⟨s, function, wanted, hawaits, hfailed, -⟩ := h
  cases hawaits with
  | call hawaits hmeets hcandid =>
    have hreturned : s.Returned wanted _ _ := returned_unwind hmeets.1.1 hfailed e
    exact hcandid.1.imp_left fun hnative =>
      (Machine.runsNative_congr (by rw [hreturned.frames])).2 hnative

end Config

end LuaMachine
