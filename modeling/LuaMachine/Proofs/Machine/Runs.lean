import LuaMachine.Proofs.Machine.DispatchEffects

/-!
# Runs

A configuration of the machine holds the computation in progress and a list of calls within which it
takes place.  Each of these calls began in a state with frames on the stack, and what waits for it
relies on what calls leave behind.  Every step keeps this, unless the machine is starved, so that a
call from the host ends as every other call does.

## Main definitions

* `Awaits` : the calls in progress, each with the state in which it began.
* `Config.InProgress` : a configuration in the course of a call from the host.
* `Config.Starved` : the next instruction takes values that end before they begin.
* `Config.Reaches`, `Config.after` : some steps lead from one configuration to another.

## Main statements

* `Config.complete_boundary`, `Config.returned_unwind` : what a call leaves behind that ends or fails.
* `Config.InProgress.step` : a step goes on with the call or ends it.
* `Machine.Steady.returned_of_run` : a call from the host is balanced.
* `Machine.Steady.run_fault_iff` : only starved machines fault.
-/

namespace LuaMachine

/-! ### The end of a call -/

namespace Machine

variable {s m : Machine} {level function : Nat} {wanted : Option Nat}

/-- A call that is over is not counted any more. -/
theorem Evolves.countDown (h : s.countUp.Evolves level m) : s.Evolves level (Config.countDown m) where
  limits := h.limits
  reentries := by
    change m.reentries - 1 = s.reentries
    rw [h.reentries]
    rfl
  stack := h.stack
  closures := h.closures
  cells := h.cells
  covered := h.covered
  sound := { h.sound with }

end Machine

namespace Config

variable {s m : Machine} {wanted : Option Nat} {rest : List Pending}
  {next : Option (Machine → Except Failure (List Value) → Resumption Control)}

/-- A call that has ended with results leaves behind what calls leave behind. -/
theorem complete_boundary (hs : s.Steady)
    (h : Call.Left s.freeSlot s.countUp s.frames s.freeSlot wanted m) :
    ∃ results, Stack.readRange s.freeSlot m.top m = .ok results m ∧
      complete m (.boundary s.frames.size s.top s.freeSlot next :: rest) =
        resume { countDown m with top := s.top } (.ok results) rest next ∧
      s.Returned wanted { countDown m with top := s.top } (.ok results) := by
  have hread : Stack.readRange s.freeSlot m.top m =
      .ok (m.stack.extract s.freeSlot m.top).toList m := by
    simp only [Stack.readRange, if_neg (Nat.not_lt.2 h.function_le),
      if_neg (Nat.not_lt.2 h.evolves.sound.top_le)]
  refine ⟨(m.stack.extract s.freeSlot m.top).toList, hread, ?_, ?_⟩
  · simp only [complete, hread]
  · refine
      { toEvolves := h.evolves.countDown.setTop (Nat.le_trans hs.sound.top_le h.evolves.stack)
        frames := h.frames
        top := rfl
        length_results := fun results n hresults hn => ?_
        closed := fun e he => by cases he }
    have htop := h.evolves.sound.top_le
    have hcount := h.count n hn
    rw [← Except.ok.inj hresults, Array.length_toList, Array.size_extract]
    omega

/-- So does a call that has failed, when its cells have been closed and its frames dropped. -/
theorem returned_unwind (hs : s.Steady) (h : Failed s s.freeSlot m) (e : Failure) :
    s.Returned wanted (unwind s.frames.size s.top s.freeSlot (countDown m)) (.error e) := by
  obtain ⟨hevolves, entered, hframes, -⟩ := h
  have hheld : Held s.freeSlot s (s.frames ++ entered) m.top (countDown m) :=
    ⟨hevolves.countDown, hframes, rfl⟩
  have hclose := Cell.triple_closeFrom robust_held (Nat.le_refl s.freeSlot) (countDown m) hheld
  rw [unwind]
  cases hm' : Cell.closeFrom s.freeSlot (countDown m) with
  | error _ _ =>
    rw [hm'] at hclose
    exact hclose.elim
  | ok _ m' =>
    rw [hm'] at hclose
    obtain ⟨hheld', hclosed⟩ := hclose
    have hshrink : m'.frames.shrink s.frames.size = s.frames := by
      rw [hheld'.frames]
      simp
    simp only [hshrink]
    exact
      { toEvolves := (hheld'.evolves.restoreFrames hclosed).setTop
          (Nat.le_trans hs.sound.top_le hheld'.evolves.stack)
        frames := rfl
        top := rfl
        length_results := nofun
        closed := fun _ _ => hclosed }

end Config

/-! ### Calls in progress -/

/-- The calls in progress since the host called in the state `s₀`; the innermost one began in the
state `s` with the called value in the slot `function`.  What waits for a call goes on as specified
whatever the call leaves behind. -/
inductive Awaits (s₀ : Machine) (wanted₀ : Option Nat) :
    List Pending → Machine → Nat → Option Nat → Prop where
  | host : Awaits s₀ wanted₀ [.boundary s₀.frames.size s₀.top s₀.freeSlot none] s₀ s₀.freeSlot
    wanted₀
  | call {pending : List Pending} {s m : Machine} {function : Nat} {wanted wanted' : Option Nat}
    {next : Machine → Except Failure (List Value) → Resumption Control} :
    Awaits s₀ wanted₀ pending s function wanted → m.Steady ∧ (s.Covered → m.Covered) →
    (∀ m' outcome, m.Returned wanted' m' outcome →
      (next m' outcome).Meets (balancedFrom s) (Continues s function wanted)
        (Stop.Spares (Failed s function))) →
    Awaits s₀ wanted₀ (.boundary m.frames.size m.top m.freeSlot (some next) :: pending) m
      m.freeSlot wanted'
  | iterator {pending : List Pending} {s m : Machine} {function slot : Nat}
    {wanted : Option Nat} {count : Nat} :
    Awaits s₀ wanted₀ pending s function wanted → Iterating s function wanted slot m →
    Awaits s₀ wanted₀ (.iterator :: pending) m slot (some count)

namespace Config

/-- The configuration is in the course of a call by the host in the state `s₀`. -/
def InProgress (s₀ : Machine) (wanted₀ : Option Nat) (c : Config) : Prop :=
  ∃ s function wanted, Awaits s₀ wanted₀ c.pending s function wanted ∧
    c.current.Meets (balancedFrom s) (Continues s function wanted) (Stop.Spares (Failed s function))

/-- The next instruction takes values that end before they begin. -/
def Starved (c : Config) : Prop :=
  ∃ m pending, c = ⟨.done m .next, pending⟩ ∧ m.Starved

/-- A step goes on with the call, or the call has ended and is balanced. -/
def Advances (s₀ : Machine) (wanted₀ : Option Nat) : Step → Prop
  | .more c => InProgress s₀ wanted₀ c
  | .final m outcome => ∃ o, outcome = Except.mapError .failure o ∧ s₀.Returned wanted₀ m o

variable {s₀ s m : Machine} {wanted₀ wanted : Option Nat} {function slot : Nat}
  {pending : List Pending}

/-! ### Steps -/

theorem meets_start (hs : s.Steady) (f : Value) (args : List Value) :
    (Call.start f args wanted s.freeSlot s).Meets (balancedFrom s) (Continues s s.freeSlot wanted)
      (Stop.Spares (Failed s s.freeSlot)) := by
  have hsite := Call.Site.countUp hs fun _ hf => hs.function_lt_freeSlot hf
  exact (Call.triple_start hs.sound hsite f args s rfl).mono (fun _ _ h => h.begins hsite)
    fun _ _ h => h

theorem meets_startIterator {count : Nat} (h : Iterating s function wanted slot m) :
    (Call.startIterator slot count m).Meets (balancedFrom m) (Continues m slot (some count))
      (Stop.Spares (Failed m slot)) := by
  have hsite := Call.Site.countUp h.steady h.above
  exact (Call.triple_startIterator h.steady.sound hsite h.iterator_lt m rfl).mono
    (fun _ _ h' => h'.begins hsite) fun _ _ h' => h'

/-- When the call of an iterator has ended, its results are in place and the loop goes on. -/
theorem running_of_left {count : Nat} {m' : Machine} (h : Iterating s function wanted slot m)
    (hleft : Call.Left slot m.countUp m.frames slot (some count) m') :
    ∃ m'', Stack.resetTop (countDown m') = .ok () m'' ∧ Running s function wanted m'' := by
  obtain ⟨fs, f, hnested, hframes, -, -, hevolves⟩ := h.running
  have hevolves' : m.Evolves slot (countDown m') := hleft.evolves.countDown
  have hframes' : (countDown m').frames = fs.push f := hleft.frames.trans hframes
  have hstable : ∀ g ∈ fs.push f, g.Stable (countDown m') := hframes ▸
    hevolves'.stable h.steady.stable
  have hf := hstable f Array.mem_push_self
  refine ⟨{ countDown m' with top := f.top }, ?_, fs, f, hnested, hframes', fun g hg => ?_, ?_, ?_⟩
  · have hframe : (countDown m').frame? = some f := by
      rw [Machine.frame?, hframes', Array.back?_push]
    rw [Stack.resetTop, Routine.modify_eq, hframe]
  · exact { hstable g (Array.mem_push_of_mem _ hg) with }
  · exact { hf.toFits with }
  · exact (hevolves.trans (hevolves'.mono h.function_le)).setTop hf.top_le

/-- When it has failed, so has the call in whose course it was made. -/
theorem failed_of_failed {m' : Machine} (h : Iterating s function wanted slot m)
    (hfailed : Failed m slot m') : Failed s function (countDown m') := by
  obtain ⟨hevolves, entered, hframes, hentered⟩ := h.running.failed
  have hover : Call.Refused slot m m.frames (countDown m') :=
    ⟨hfailed.evolves.countDown, hfailed.frames⟩
  exact hover.within h.function_le hevolves hframes hentered

/-- The innermost call has ended. -/
theorem advances_complete (hs₀ : s₀.Steady) (h : Awaits s₀ wanted₀ pending s function wanted)
    (hleft : Call.Left function s.countUp s.frames function wanted m) :
    Advances s₀ wanted₀ (complete m pending) := by
  cases h with
  | host =>
    obtain ⟨results, -, heq, hreturned⟩ := complete_boundary hs₀ hleft
    rw [heq]
    exact ⟨.ok results, rfl, hreturned⟩
  | call hawaits hs hnext =>
    obtain ⟨results, -, heq, hreturned⟩ := complete_boundary hs.1 hleft
    rw [heq]
    exact ⟨_, _, _, hawaits, hnext _ _ hreturned⟩
  | iterator hawaits hiterating =>
    obtain ⟨m', heq, hrunning⟩ := running_of_left hiterating hleft
    simp only [complete, heq]
    exact ⟨_, _, _, hawaits, hrunning⟩

/-- The innermost call has failed. -/
theorem advances_abort (hs₀ : s₀.Steady) (h : Awaits s₀ wanted₀ pending s function wanted)
    (hfailed : Failed s function m) (e : Failure) :
    Advances s₀ wanted₀ (abort m e pending) := by
  cases h with
  | host =>
    exact ⟨.error (trace (countDown m) e), rfl, returned_unwind hs₀ hfailed _⟩
  | call hawaits hs hnext =>
    exact ⟨_, _, _, hawaits, hnext _ _ (returned_unwind hs.1 hfailed _)⟩
  | iterator hawaits hiterating =>
    exact ⟨_, _, _, hawaits, failed_of_failed hiterating hfailed⟩

/-- **Steps.** A step goes on with the call in progress or ends it, unless the machine is
starved. -/
theorem InProgress.step {c : Config} (hs₀ : s₀.Steady) (h : InProgress s₀ wanted₀ c)
    (hstarved : ¬c.Starved) : Advances s₀ wanted₀ c.step := by
  obtain ⟨current, pending⟩ := c
  obtain ⟨s, function, wanted, hawaits, hcurrent⟩ := h
  cases current with
  | done m control =>
    cases control with
    | next =>
      have hstep := (Dispatch.triple_step.annotated fun _ _ _ h => h) m
        ⟨hcurrent, fun h => hstarved ⟨m, pending, rfl, h⟩⟩
      exact ⟨s, function, wanted, hawaits, hstep⟩
    | finished => exact advances_complete hs₀ hawaits hcurrent
    | iterate slot count =>
      exact ⟨_, _, _, .iterator hawaits hcurrent, meets_startIterator hcurrent⟩
  | stopped m stop =>
    cases stop with
    | failure e => exact advances_abort hs₀ hawaits hcurrent e
    | fault _ => exact hcurrent.elim
  | waiting m f args wanted' next =>
    exact ⟨_, _, _, .call hawaits hcurrent.1 hcurrent.2, meets_start hcurrent.1.1 f args⟩

/-- The instruction of a starved machine faults. -/
theorem Starved.step {c : Config} (h : c.Starved) :
    ∃ m first last pending, last < first ∧
      c.step = .more ⟨.stopped m (.fault (.negativeRange first last)), pending⟩ := by
  obtain ⟨m, pending, rfl, hm⟩ := h
  obtain ⟨m', first, last, hlt, hstep⟩ := hm.step
  refine ⟨m', first, last, pending, hlt, ?_⟩
  change Step.more ⟨(Dispatch.step m).mapFailure _, pending⟩ = _
  rw [hstep]
  rfl

/-! ### Runs -/

/-- Some steps lead from one configuration to another. -/
inductive Reaches (c : Config) : Config → Prop where
  | refl : Reaches c c
  | step {c' c'' : Config} : Reaches c c' → c'.step = .more c'' → Reaches c c''

variable {c c' c'' : Config} {n : Nat} {m' : Machine}

theorem Reaches.trans (h : c.Reaches c') (h' : c'.Reaches c'') : c.Reaches c'' := by
  induction h' with
  | refl => exact h
  | step _ hstep ih => exact ih.step hstep

/-- A configuration that makes a step has not faulted. -/
theorem not_fault_of_step (h : c.step = .more c') (f : Fault) :
    c.current ≠ .stopped m (.fault f) := by
  obtain ⟨current, pending⟩ := c
  rintro rfl
  cases h

theorem run_of_more (h : c.step = .more c') : c.run (n + 1) = c'.run n := by
  rw [run, h]

theorem run_of_final {outcome : Except Stop (List Value)} (h : c.step = .final m outcome) :
    c.run (n + 1) = some (m, outcome) := by
  rw [run, h]

/-- The configuration after `n` steps. -/
def after (c : Config) : Nat → Option Config
  | 0 => some c
  | n + 1 =>
    match c.step with
    | .more c' => c'.after n
    | .final _ _ => none

theorem reaches_of_after (h : c.after n = some c') : c.Reaches c' := by
  induction n generalizing c with
  | zero => exact Option.some.inj h ▸ .refl
  | succ n ih =>
    rw [after] at h
    split at h
    · next hstep => exact .trans (.step .refl hstep) (ih h)
    · cases h

/-- A run goes on from every configuration that is reached. -/
theorem Reaches.run (h : c.Reaches c') : ∃ k, ∀ n, c.run (n + k) = c'.run n := by
  induction h with
  | refl => exact ⟨0, fun _ => rfl⟩
  | step _ hstep ih =>
    obtain ⟨k, hk⟩ := ih
    refine ⟨k + 1, fun n => ?_⟩
    rw [← run_of_more hstep, ← hk, Nat.add_right_comm, Nat.add_assoc]

/-- The run of a starved machine faults. -/
theorem Starved.run (h : c.Starved) : ∃ m first last, last < first ∧
    ∀ n, c.run (n + 2) = some (m, .error (.fault (.negativeRange first last))) := by
  obtain ⟨m, first, last, pending, hlt, hstep⟩ := h.step
  exact ⟨m, first, last, hlt, fun n => (run_of_more hstep).trans (run_of_final rfl)⟩

theorem Starved.outcome (h : c.Starved) {outcome : Except Stop (List Value)}
    (hrun : c.run n = some (m', outcome)) :
    ∃ first last, last < first ∧ outcome = .error (.fault (.negativeRange first last)) := by
  obtain ⟨m, first, last, hlt, hn⟩ := h.run
  obtain ⟨_, _, _, _, _, hstep⟩ := h.step
  match n with
  | 0 => cases hrun
  | 1 =>
    rw [run_of_more hstep] at hrun
    cases hrun
  | n + 2 =>
    rw [hn] at hrun
    exact ⟨first, last, hlt, ((Prod.mk.inj (Option.some.inj hrun)).2).symm⟩

theorem not_starved_of_run {outcome : Except Failure (List Value)}
    (hrun : c.run n = some (m', outcome.mapError .failure)) : ¬c.Starved := fun h => by
  obtain ⟨_, _, _, heq⟩ := h.outcome hrun
  cases outcome <;> cases heq

/-- **Runs.** A call in progress that ends without a fault is balanced. -/
theorem InProgress.returned_of_run (hs₀ : s₀.Steady) (h : InProgress s₀ wanted₀ c)
    {outcome : Except Failure (List Value)}
    (hrun : c.run n = some (m', outcome.mapError .failure)) : s₀.Returned wanted₀ m' outcome := by
  induction n generalizing c with
  | zero => cases hrun
  | succ n ih =>
    have hstep := h.step hs₀ (not_starved_of_run hrun)
    cases hc : c.step with
    | more c' =>
      rw [hc] at hstep
      exact ih hstep (run_of_more hc ▸ hrun)
    | final m o =>
      rw [hc] at hstep
      rw [run_of_final hc] at hrun
      obtain ⟨outcome', rfl, hreturned⟩ := hstep
      obtain ⟨rfl, heq⟩ := Prod.mk.inj (Option.some.inj hrun)
      cases outcome <;> cases outcome' <;> cases heq <;> exact hreturned

/-- A call in progress that ends with a fault has come to a starved configuration. -/
theorem InProgress.exists_starved_of_run (hs₀ : s₀.Steady) (h : InProgress s₀ wanted₀ c) {f : Fault}
    (hrun : c.run n = some (m', .error (.fault f))) :
    (∃ c', c.Reaches c' ∧ c'.Starved) ∧ ∃ first last, last < first ∧ f = .negativeRange first last := by
  induction n generalizing c with
  | zero => cases hrun
  | succ n ih =>
    by_cases hstarved : c.Starved
    · obtain ⟨first, last, hlt, heq⟩ := hstarved.outcome hrun
      exact ⟨⟨c, .refl, hstarved⟩, first, last, hlt, Stop.fault.inj (Except.error.inj heq)⟩
    have hstep := h.step hs₀ hstarved
    cases hc : c.step with
    | more c' =>
      rw [hc] at hstep
      obtain ⟨⟨c'', hreaches, hstarved⟩, hf⟩ := ih hstep (run_of_more hc ▸ hrun)
      exact ⟨⟨c'', Reaches.trans (.step .refl hc) hreaches, hstarved⟩, hf⟩
    | final m o =>
      rw [hc] at hstep
      rw [run_of_final hc] at hrun
      obtain ⟨outcome, rfl, -⟩ := hstep
      cases outcome <;> cases hrun

/-- A configuration from which a starved one is reached ends with a fault. -/
theorem Reaches.run_fault (h : c.Reaches c') (hstarved : c'.Starved) :
    ∃ n m' f, c.run n = some (m', .error (.fault f)) := by
  obtain ⟨k, hk⟩ := h.run
  obtain ⟨m, first, last, -, hn⟩ := hstarved.run
  exact ⟨0 + 2 + k, m, _, (hk _).trans (hn 0)⟩

theorem inProgress_begin (hs : s.Steady) (f : Value) (args : List Value) (wanted : Option Nat) :
    InProgress s wanted (begin s f args wanted none []) :=
  ⟨_, _, _, .host, meets_start hs f args⟩

end Config

namespace Machine

variable {s m : Machine} {n : Nat} {wanted : Option Nat} {args : List Value}

/-- A call from the host that ends without a fault is balanced. -/
theorem Steady.returned_of_run (hs : s.Steady) {f : Value} {outcome : Except Failure (List Value)}
    (hrun : s.run n f args wanted = some (m, outcome.mapError .failure)) :
    s.Returned wanted m outcome :=
  (Config.inProgress_begin hs f args wanted).returned_of_run hs hrun

/-- **Faults.** It ends with a fault exactly if the machine starves on the way, and then with one for
values that end before they begin. -/
theorem Steady.run_fault_iff (hs : s.Steady) (f : Value) (args : List Value)
    (wanted : Option Nat) :
    ((∃ n m fault, s.run n f args wanted = some (m, .error (.fault fault))) ↔
      ∃ c, (Config.begin s f args wanted none []).Reaches c ∧ c.Starved) ∧
    ∀ n m fault, s.run n f args wanted = some (m, .error (.fault fault)) →
      ∃ first last, last < first ∧ fault = .negativeRange first last := by
  have hbegin := Config.inProgress_begin hs f args wanted
  refine ⟨⟨?_, fun ⟨c, hreaches, hstarved⟩ => hreaches.run_fault hstarved⟩, ?_⟩
  · rintro ⟨n, m, fault, hrun⟩
    exact (hbegin.exists_starved_of_run hs hrun).1
  · exact fun n m fault hrun => (hbegin.exists_starved_of_run hs hrun).2

end Machine

end LuaMachine
