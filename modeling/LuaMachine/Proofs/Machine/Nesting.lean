import LuaMachine.Proofs.Machine.Runs

/-!
# Nested calls

A call that is made in the course of another one takes the same steps as a call that the host makes
in the same state.  The only difference is what waits for it: where the call from the host ends, the
nested one hands its outcome to the computation that has made it.

## Main definitions

* `Config.within` : a call from the host as one that a computation has made.

## Main statements

* `Config.step_within` : both take the same steps.
* `Machine.Steady.reaches_of_run` : the outcome of a nested call is that of the call from the host.
-/

namespace LuaMachine

variable {next : Machine → Except Failure (List Value) → Resumption Control} {outer : List Pending}

/-- A computation waits for the call from the host. -/
def Pending.attach (next : Machine → Except Failure (List Value) → Resumption Control) :
    Pending → Pending
  | .boundary depth top function none => .boundary depth top function (some next)
  | p => p

/-- A call from the host as one that a computation has made, within the calls `outer`. -/
def Config.within (next : Machine → Except Failure (List Value) → Resumption Control)
    (outer : List Pending) (c : Config) : Config :=
  ⟨c.current, c.pending.map (Pending.attach next) ++ outer⟩

/-- Where the call from the host ends, the computation goes on with the outcome. -/
def Step.within (next : Machine → Except Failure (List Value) → Resumption Control)
    (outer : List Pending) : Step → Step
  | .more c => .more (c.within next outer)
  | .final m (.ok results) => .more ⟨next m (.ok results), outer⟩
  | .final m (.error (.failure e)) => .more ⟨next m (.error e), outer⟩
  | .final m (.error (.fault f)) => .final m (.error (.fault f))

theorem Stack.exists_fault_of_readRange {first last : Nat} {m m' : Machine} {s : Stop}
    (h : readRange first last m = .error s m') : ∃ f, s = .fault f := by
  simp only [readRange] at h
  split at h
  · cases h
    exact ⟨_, rfl⟩
  · split at h
    · cases h
      exact ⟨_, rfl⟩
    · cases h

namespace Config

variable {s₀ s m m' : Machine} {wanted₀ wanted : Option Nat} {function n : Nat}
  {pending : List Pending} {c : Config}

theorem complete_within (h : Awaits s₀ wanted₀ pending s function wanted) :
    complete m (pending.map (Pending.attach next) ++ outer) =
      (complete m pending).within next outer := by
  have hboundary : ∀ (p : List Pending) (depth top function : Nat)
      (waiting : Option (Machine → Except Failure (List Value) → Resumption Control)),
      (∀ m results, resume m (.ok results) (p.map (Pending.attach next) ++ outer)
          (some (waiting.getD next)) = (resume m (.ok results) p waiting).within next outer) →
      complete m (.boundary depth top function (some (waiting.getD next)) ::
          (p.map (Pending.attach next) ++ outer)) =
        (complete m (.boundary depth top function waiting :: p)).within next outer := by
    intro p depth top function waiting hresume
    simp only [complete]
    cases hread : Stack.readRange function m.top m with
    | ok results m' => exact hresume _ results
    | error stop m' =>
      obtain ⟨f, rfl⟩ := Stack.exists_fault_of_readRange hread
      rfl
  cases h with
  | host => exact hboundary [] _ _ _ none fun _ _ => rfl
  | @call p _ _ _ _ _ waiting => exact hboundary p _ _ _ (some waiting) fun _ _ => rfl
  | iterator => rfl

theorem abort_within (h : Awaits s₀ wanted₀ pending s function wanted) (e : Failure) :
    abort m e (pending.map (Pending.attach next) ++ outer) =
      (abort m e pending).within next outer := by
  cases h <;> rfl

/-- **Steps of nested calls.** They are those of the call from the host. -/
theorem step_within (h : Awaits s₀ wanted₀ c.pending s function wanted) :
    (c.within next outer).step = c.step.within next outer := by
  obtain ⟨current, pending⟩ := c
  cases current with
  | done m control =>
    cases control with
    | next => rfl
    | finished => exact complete_within h
    | iterate => rfl
  | stopped m stop =>
    cases stop with
    | failure e => exact abort_within h e
    | fault => rfl
  | waiting => rfl

/-- **Runs of nested calls.** Where the call from the host ends without a fault, the computation that
has made the nested one goes on with the outcome. -/
theorem InProgress.reaches_of_run (hs₀ : s₀.Steady) (h : InProgress s₀ wanted₀ c)
    {outcome : Except Failure (List Value)}
    (hrun : c.run n = some (m', outcome.mapError .failure)) :
    (c.within next outer).Reaches ⟨next m' outcome, outer⟩ := by
  induction n generalizing c with
  | zero => cases hrun
  | succ n ih =>
    obtain ⟨s, function, wanted, hawaits, -⟩ := id h
    have hwithin : (c.within next outer).step = c.step.within next outer := step_within hawaits
    have hstep := h.step hs₀ (not_starved_of_run hrun)
    cases hc : c.step with
    | more c' =>
      rw [hc] at hstep hwithin
      exact .trans (.step .refl hwithin) (ih hstep (run_of_more hc ▸ hrun))
    | final m o =>
      rw [hc] at hwithin
      rw [run_of_final hc] at hrun
      obtain ⟨rfl, rfl⟩ := Prod.mk.inj (Option.some.inj hrun)
      cases outcome <;> exact .step .refl hwithin

end Config

/-- A nested call has the outcome that a call from the host would have in the same state. -/
theorem Machine.Steady.reaches_of_run {s m : Machine} (hs : s.Steady) {n : Nat} {f : Value}
    {args : List Value} {wanted : Option Nat} {outcome : Except Failure (List Value)}
    (hrun : s.run n f args wanted = some (m, outcome.mapError .failure)) :
    (⟨.waiting s f args wanted next, outer⟩ : Config).Reaches ⟨next m outcome, outer⟩ :=
  .trans (.step .refl rfl) ((Config.inProgress_begin hs f args wanted).reaches_of_run hs hrun)

end LuaMachine
