import LuaMachine.Proofs.Machine.CallStack
import LuaMachine.Proofs.Machine.Candor

/-!
# Failures on their way to the host

A failure that arises in the course of a call travels outward through the calls in progress.  On its
way to the first boundary it may be given a position, and there it is given the frames that were
active when it arose.  From then on it stays as it is, unless a native function answers it or fails
in another way.

## Main definitions

* `Config.PassedOn` : native functions that wait for calls pass on the failure that they receive.
* `Config.arriving` : the failure as it leaves the call in which it arose.

## Main statements

* `Config.Candid.run_of_passedOn` : the failure that reaches the host.
* `Machine.Reachable.failure_arrives` : it has the cause of the one that arose and all frames.
-/

namespace LuaMachine

/-! ### Links between frames -/

namespace Machine

theorem enduring_linked : Enduring fun m => Frame.Linked m.frames where
  tolerant := fun m m' hm h i f' hf' => by
    obtain ⟨f, hf, heq⟩ := h.exists_frame hf'
    exact (congrArg Frame.caller? heq).trans (hm i f hf)
  push := fun _ _ hm _ => hm.push rfl
  shrink := fun _ depth hm => hm.shrink depth
  count := fun _ _ hm => hm

/-- An invariant that endures holds in the course of all calls from reachable states. -/
theorem Reachable.enduring_of_reaches {I : Machine → Prop} (hI : Enduring I)
    (hnew : ∀ L, I (.new L)) {s : Machine} (hs : s.Reachable) {f : Value} {args : List Value}
    {wanted : Option Nat} {c : Config} (h : (Config.begin s f args wanted none []).Reaches c) :
    I c.current.machine := by
  obtain ⟨hinvariant, hle⟩ := hs.enduring hI hnew
  have hbegin := Config.endures_begin hI ⟨hinvariant, rfl, rfl⟩ hle f args wanted
  exact (hbegin.of_reaches hI h).stays.counted.1.invariant

end Machine

/-! ### Positions and frames -/

namespace Failure

theorem locate_locate (e : Failure) (position : String) :
    (e.locate position).locate position = e.locate position := by
  unfold locate
  split
  · split <;> rfl
  · rfl

theorem position_locate (e : Failure) (position : String) :
    (e.locate position).position = e.position ∨
      e.position = "" ∧ (e.locate position).position = position := by
  unfold locate
  split
  · next h => exact .inr ⟨h.1, rfl⟩
  · exact .inl rfl

/-- Where no closure runs no position is added. -/
@[simp] theorem locate_empty (e : Failure) : e.locate "" = e := by
  unfold locate
  split
  · next h => rw [← h.1]
  · rfl

end Failure

theorem Machine.RunsNative.ownPosition {m : Machine} (h : m.RunsNative) : m.ownPosition = "" := by
  obtain ⟨f, hf, hnative⟩ := h
  simp only [Machine.ownPosition, hf, closureOf?, hnative, Option.map_none]

namespace Config

variable {s₀ m : Machine} {wanted₀ : Option Nat} {pending rest : List Pending} {c c' : Config}
  {e : Failure}

@[simp] theorem cause_trace (m : Machine) (e : Failure) : (trace m e).cause = e.cause := by
  unfold trace
  split <;> rfl

@[simp] theorem position_trace (m : Machine) (e : Failure) :
    (trace m e).position = e.position := by
  unfold trace
  split <;> rfl

theorem traceback_trace (h : e.traceback = none) : (trace m e).traceback = some m.snapshots := by
  simp only [trace, h, Option.isNone_none, if_true, Failure.trace, Option.getD_none]

theorem trace_of_traced (h : e.traceback.isSome) : trace m e = e :=
  if_neg fun hnone => by simp [Option.isNone_iff_eq_none.1 hnone] at h

/-- The failure as it leaves the call in which it arose.  That of an iterator is one of the frame
that called it. -/
def arriving (m : Machine) (e : Failure) : List Pending → Failure
  | .iterator :: _ => trace m (e.locate m.ownPosition)
  | _ => trace m e

/-- Native functions that wait for calls fail with the failure that they receive, whatever they do
before.  The position of the running code may then be added to it. -/
def PassedOn (m : Machine) (e : Failure) : List Pending → Prop
  | [] => True
  | .iterator :: rest => PassedOn (countDown m) (e.locate (countDown m).ownPosition) rest
  | .boundary _ _ _ none :: _ => True
  | .boundary depth top function (some next) :: rest =>
    let m' := unwind depth top function (countDown m)
    let e' := trace (countDown m) e
    (m'.RunsNative → ∃ m'', (Config.mk (next m' (.error e')) rest).Reaches
      ⟨.stopped m'' (.failure (e'.locate m''.ownPosition)), rest⟩ ∧
        PassedOn m'' (e'.locate m''.ownPosition) rest) ∧
    (¬m'.RunsNative → PassedOn m' e' rest)

theorem arriving_of_traced (h : e.traceback.isSome) : arriving m e pending = e := by
  unfold arriving
  split
  · rw [Failure.locate_of_traced h, trace_of_traced h]
  · exact trace_of_traced h

/-- It makes no difference how many iterators the failure leaves. -/
theorem arriving_iterator :
    arriving (countDown m) (e.locate m.ownPosition) rest = arriving m e (.iterator :: rest) := by
  match rest with
  | .iterator :: _ => exact congrArg (trace m) (e.locate_locate m.ownPosition)
  | [] | .boundary _ _ _ _ :: _ => rfl

/-- The failure of a call becomes that of the computation that waits for it. -/
theorem Candid.reaches_of_passedOn {depth top function : Nat}
    {next : Machine → Except Failure (List Value) → Resumption Control}
    (hc : c.Candid s₀ wanted₀)
    (heq : c = ⟨.stopped m (.failure e), .boundary depth top function (some next) :: rest⟩)
    (h : PassedOn m e c.pending) :
    ∃ m', c.Reaches ⟨.stopped m' (.failure (trace (countDown m) e)), rest⟩ ∧
      PassedOn m' (trace (countDown m) e) rest := by
  subst heq
  have htraced := isSome_traceback_trace (countDown m) e
  by_cases hnative : (unwind depth top function (countDown m)).RunsNative
  · obtain ⟨m', hreaches, hpassed⟩ := h.1 hnative
    rw [Failure.locate_of_traced htraced] at hreaches hpassed
    exact ⟨m', .trans (.step .refl rfl) hreaches, hpassed⟩
  · have hnext := (hc.next_eq rfl).resolve_left hnative
      (unwind depth top function (countDown m)) _ htraced
    exact ⟨_, .step .refl (congrArg (fun r => Step.more ⟨r, rest⟩) hnext), h.2 hnative⟩

/-- **Failures.** The failure that reaches the host is the one that has left the call in which it
arose. -/
theorem Candid.run_of_passedOn (hs₀ : s₀.Steady)
    (hc : Candid s₀ wanted₀ ⟨.stopped m (.failure e), pending⟩) (h : PassedOn m e pending) :
    ∃ n m', run n ⟨.stopped m (.failure e), pending⟩ =
      some (m', .error (.failure (arriving m e pending))) := by
  induction pending generalizing m e with
  | nil =>
    obtain ⟨_, _, _, hawaits, -⟩ := hc
    cases hawaits
  | cons p rest ih =>
    cases p with
    | iterator =>
      have hstep := hc.step hs₀ (by rintro ⟨_, _, heq, _⟩; cases heq)
      obtain ⟨n, m', hrun⟩ := ih hstep.1 h
      exact ⟨n + 1, m', (run_of_more rfl).trans (arriving_iterator ▸ hrun)⟩
    | boundary depth top function next =>
      cases next with
      | none => exact ⟨1, _, rfl⟩
      | some next =>
        obtain ⟨m'', hreaches, hpassed⟩ := hc.reaches_of_passedOn rfl h
        have hcandid := (hc.of_reaches hs₀ hreaches).resolve_right
          (by rintro ⟨_, _, heq⟩; cases heq)
        obtain ⟨n, m', hrun⟩ := ih hcandid hpassed
        obtain ⟨k, hk⟩ := hreaches.run
        refine ⟨n + k, m', ?_⟩
        rw [hk, hrun, arriving_of_traced (isSome_traceback_trace (countDown m) e)]
        rfl

theorem cause_arriving : (arriving m e pending).cause = e.cause := by
  unfold arriving
  split <;> simp

theorem traceback_arriving (h : e.traceback = none) :
    (arriving m e pending).traceback = some m.snapshots := by
  unfold arriving
  split
  · exact traceback_trace ((e.traceback_locate).trans h)
  · exact traceback_trace h

theorem position_arriving : (arriving m e pending).position = e.position ∨
    e.position = "" ∧ (arriving m e pending).position = m.ownPosition := by
  unfold arriving
  split
  · rw [position_trace]
    exact e.position_locate m.ownPosition
  · exact .inl (position_trace m e)

/-- What a native function has raised is seen by the host. -/
theorem toValue_arriving {v : Value} (hcause : e.cause = .raised v) (hposition : e.position = "")
    (hnative : m.RunsNative) :
    (arriving m e pending).position = "" ∧ (arriving m e pending).toValue = v := by
  have hempty : (arriving m e pending).position = "" := by
    rcases position_arriving with h | ⟨-, h⟩
    · exact h.trans hposition
    · exact h.trans hnative.ownPosition
  refine ⟨hempty, ?_⟩
  rw [Failure.toValue, cause_arriving, hcause]
  exact if_pos hempty

end Config

/-- A function that calls its first argument with the second one. -/
def handing : Prototype where
  parameters := 2
  registers := 2
  code := #[.abc .call 0 2 1]

/-- The machine that has loaded the function, with a native function that calls its argument and one
that raises a value. -/
def loadedHanding : Machine :=
  { Machine.new { initialStackSize := 8 } with
    heap.closures := #[⟨handing, #[]⟩]
    heap.natives := #[⟨"pass", fun args => .ask (.call (args.headD .nil) []) .finish⟩,
      ⟨"raise", fun _ => .fail (.of (.raised (.integer 7)))⟩] }

theorem reachable_loadedHanding : loadedHanding.Reachable :=
  .operation (.behave (.newNative "pass" (fun args => .ask (.call (args.headD .nil) []) .finish)
    fun _ => .newNative "raise" (fun _ => .fail (.of (.raised (.integer 7))))
      fun _ => .request (.load handing) fun _ => .finish []))
    (.new { initialStackSize := 8 }) .refl rfl

/-- The function has been entered. -/
def enteredHanding : Machine :=
  { loadedHanding with
    stack := #[.closure ⟨0⟩, .native ⟨0⟩, .native ⟨1⟩, .nil, .nil, .nil, .nil, .nil]
    top := 3
    frames := #[{ Frame.ofClosure ⟨0⟩ 0 1 3 none with isFresh := true }]
    reentries := 1 }

/-- It has called the native function that calls the other one. -/
def passing : Machine :=
  { enteredHanding with
    frames := #[{ Frame.ofClosure ⟨0⟩ 0 1 3 none with pc := 1, isFresh := true },
      { Frame.ofNative 1 3 (some 0) with caller? := some 0 }] }

/-- The call of the function with the two native functions. -/
def beginHanding : Config :=
  .begin loadedHanding (.closure ⟨0⟩) [.native ⟨0⟩, .native ⟨1⟩] none none []

theorem step_beginHanding : ∃ next,
    beginHanding.step =
      .more ⟨.waiting passing (.native ⟨1⟩) [] none next, [.boundary 0 0 0 none]⟩ ∧
    ∀ m e, next m (.error e) = .stopped m (.failure (e.locate m.ownPosition)) := by
  have hentered : beginHanding = ⟨.done enteredHanding .next, [.boundary 0 0 0 none]⟩ := rfl
  obtain ⟨next, hnext, hpasses⟩ : ∃ next,
      Dispatch.step.annotated enteredHanding = .waiting passing (.native ⟨1⟩) [] none next ∧
        ∀ m e, next m (.error e) = .stopped m (.failure (e.locate m.ownPosition)) :=
    ⟨_, rfl, fun _ _ => rfl⟩
  refine ⟨next, ?_, hpasses⟩
  rw [hentered, ← hnext]
  rfl

theorem step_passing (next : Machine → Except Failure (List Value) → Resumption Control) : ∃ m,
    (Config.mk (.waiting passing (.native ⟨1⟩) [] none next) [.boundary 0 0 0 none]).step =
      .more ⟨.stopped m (.failure (.of (.raised (.integer 7)))),
        [.boundary 2 3 3 (some next), .boundary 0 0 0 none]⟩ ∧
    m.frames.size = 3 ∧ (Config.unwind 2 3 3 (Config.countDown m)).RunsNative :=
  ⟨_, rfl, rfl, _, rfl, rfl⟩

end LuaMachine
