import LuaMachine.Proofs.Machine.Compositional
import LuaMachine.Proofs.Machine.Reachable

/-!
# Invariants that endure

An invariant that primitives keep, that holds when a frame is added below the depth limit or frames
are removed, and that does not depend on the count of calls, holds in the course of all calls and
after them, even of those that fault.  Along with it goes the count of calls: it is that of the
calls in progress, and code runs only while it is within its limit.

## Main definitions

* `Machine.Enduring` : invariants that endure.
* `Machine.Counted` : a state with the invariant, with given limits and with a given count of calls.
* `Config.Endures` : a configuration in which the invariant holds and goes on to hold.
* `Resumption.machine`, `Resumption.isStopped` : the state of a computation.

## Main statements

* `Config.Endures.step`, `Config.Endures.of_reaches` : steps and runs.
* `Machine.Reachable.enduring` : it holds in all reachable states.
-/

namespace LuaMachine

open Exec (Triple)

/-- The state in which a computation is over, has stopped or waits for a call. -/
def Resumption.machine {α : Type} : Resumption α → Machine
  | done m _ => m
  | stopped m _ => m
  | waiting m _ _ _ _ => m

/-- A computation has stopped. -/
def Resumption.isStopped {α : Type} : Resumption α → Bool
  | stopped _ _ => true
  | _ => false

/-- An invariant that holds in the course of calls. -/
structure Machine.Enduring (I : Machine → Prop) : Prop where
  tolerant : Tolerant I
  push : ∀ (m : Machine) (f : Frame), I m → m.frames.size < m.limits.callDepth →
    I { m with frames := m.frames.push { f with caller? := Frame.innermost? m.frames } }
  shrink : ∀ (m : Machine) (depth : Nat), I m → I { m with frames := m.frames.shrink depth }
  count : ∀ (m : Machine) (n : Nat), I m → I { m with reentries := n }

/-- The invariant holds, the limits are the given ones, and so many calls are counted. -/
structure Machine.Counted (I : Machine → Prop) (limits : Limits) (n : Nat) (m : Machine) :
    Prop where
  invariant : I m
  limits : m.limits = limits
  reentries : m.reentries = n

open Machine (Enduring Counted)

/-- Calls are made while the count of calls is within its limit, and they leave it as it was. -/
def counted (I : Machine → Prop) (L : Limits) (n : Nat) : Contract where
  ready m := Counted I L n m ∧ n ≤ L.nativeDepth
  returned _ _ m' _ := Counted I L n m'

variable {I : Machine → Prop} {L : Limits} {n : Nat} {m : Machine}

theorem admits_counted (hn : n ≤ L.nativeDepth) : (counted I L n).Admits (Counted I L n) where
  ready := fun _ hm => ⟨hm, hn⟩
  returned := fun _ _ _ _ _ hm' => hm'

namespace Machine

namespace Counted

theorem touched (hI : Enduring I) (hm : Counted I L n m) {m' : Machine} (h : m.Touched m') :
    Counted I L n m' :=
  ⟨hI.tolerant _ _ hm.invariant h, h.limits.trans hm.limits, h.reentries.trans hm.reentries⟩

theorem count (hI : Enduring I) (hm : Counted I L n m) (n' : Nat) :
    Counted I L n' { m with reentries := n' } :=
  ⟨hI.count _ _ hm.invariant, hm.limits, rfl⟩

theorem countDown (hI : Enduring I) (hm : Counted I L (n + 1) m) :
    Counted I L n (Config.countDown m) := by
  have h := hm.count hI n
  rwa [show n = m.reentries - 1 by rw [hm.reentries]; rfl] at h ⊢

/-- The first free slot does not matter. -/
theorem setTop (hI : Enduring I) (hm : Counted I L n m) (top : Nat) :
    Counted I L n { m with top } :=
  hm.touched hI ⟨rfl, rfl, Nat.le_max_left _ _, rfl⟩

end Counted

theorem Enduring.tolerant_counted (hI : Enduring I) : Tolerant (Counted I L n) :=
  fun _ _ hm h => hm.touched hI h

end Machine

/-- What such a computation leaves: it goes on only while the count of calls is within its limit,
and when it stops there is at most one call beyond. -/
def Config.Stays (I : Machine → Prop) (L : Limits) (n : Nat) (r : Resumption Control) : Prop :=
  r.Meets (counted I L n) (fun _ m => Counted I L n m ∧ n ≤ L.nativeDepth)
    fun _ m => Counted I L n m ∧ n ≤ L.nativeDepth + 1

theorem Config.stays_of_triple {x : Exec Control} (hn : n ≤ L.nativeDepth)
    (h : Triple (counted I L n) (Counted I L n) x (fun _ => Counted I L n) fun _ => Counted I L n)
    (hm : Counted I L n m) : Config.Stays I L n (x m) :=
  (h m hm).mono (fun _ _ hm' => ⟨hm', hn⟩) fun _ _ hm' => ⟨hm', Nat.le_succ_of_le hn⟩

/-! ### Instructions -/

section Instructions

variable (hI : Enduring I) (hn : n ≤ L.nativeDepth)

include hI

theorem Call.triple_install_counted {α : Type} {x : Routine (Frame × α)} (hx : x.Ordinary) :
    Routine.Triple (Counted I L n) (install x) (fun _ => Counted I L n)
      fun _ => Counted I L n := by
  let J : Machine → Prop := fun m => Counted I L n m ∧ m.frames.size < m.limits.callDepth
  have hJ : Tolerant J := fun m m' hm h =>
    ⟨hm.1.touched hI h, by rw [h.size_frames, h.limits]; exact hm.2⟩
  have hcheck : Routine.Triple (Counted I L n) checkDepth (fun _ => J) fun _ => Counted I L n := by
    intro m hm
    rw [checkDepth_eq]
    by_cases h : m.limits.callDepth ≤ m.frames.size
    · simp only [if_pos h]
      exact hm
    · simp only [if_neg h]
      exact ⟨hm, Nat.lt_of_not_le h⟩
  refine hcheck.bind fun _ => Routine.Triple.bind
    ((hx.keeps hJ).mono (fun _ h => h) (fun _ _ h => h) fun _ _ h => h.1) fun p => ?_
  refine Routine.Triple.bind (Routine.Triple.modify fun m hm => ?_) fun _ =>
    Routine.Triple.pure fun _ hm => hm
  exact ⟨hI.push m p.1 hm.1.invariant hm.2, hm.1.limits, hm.1.reentries⟩

theorem Call.triple_pop_counted :
    Routine.Triple (Counted I L n) pop (fun _ => Counted I L n) fun _ => Counted I L n := by
  refine Routine.Triple.modify fun m hm => ⟨?_, hm.limits, hm.reentries⟩
  rw [← Array.extract_eq_pop rfl]
  simpa using hI.shrink m (m.frames.size - 1) hm.invariant

include hn

theorem compositional_counted :
    Exec.Compositional fun x =>
      Triple (counted I L n) (Counted I L n) x (fun _ => Counted I L n) fun _ => Counted I L n where
  ordinary hx := hx.mild (admits_counted hn) hI.tolerant_counted
  bind hx hf := hx.bind hf
  inspect hf _ := fun m hm => hf m m hm
  install hx := Triple.lift (Call.triple_install_counted hI hx)
  pop := Triple.lift (Call.triple_pop_counted hI)
  runNative id function wanted isFresh := by
    rw [Call.runNative_eq]
    refine Triple.bind (Triple.lift (Call.triple_install_counted hI Call.ordinary_layoutNative))
      fun p => ?_
    refine Triple.bind (Triple.state fun _ hm => hm) fun m => ?_
    refine Triple.bind (Behaviour.mild_run _ (admits_counted hn) hI.tolerant_counted)
      fun results => Triple.bind (Triple.lift (Call.triple_pop_counted hI)) fun _ => ?_
    exact Triple.bind (Triple.lift ((Call.ordinary_deliver _ _ _).keeps hI.tolerant_counted))
      fun _ => Triple.lift ((Call.ordinary_afterReturn _).keeps hI.tolerant_counted)

theorem Dispatch.triple_step_counted :
    Triple (counted I L n) (Counted I L n) step (fun _ => Counted I L n)
      fun _ => Counted I L n := by
  intro m hm
  rcases step_cases m with ⟨_, -, hstep⟩ | ⟨-, m', htouched, -, hstep⟩ | ⟨-, f, c, i, hstep⟩
  · rw [hstep]
    exact hm
  · rw [hstep]
    exact hm.touched hI htouched
  · rw [hstep]
    have hadvance := Machine.Touched.select m fun f => f.pc + 1
    exact (compositional_counted hI hn).dispatch f c i _
      (hm.touched hI ⟨rfl, hadvance.frames, hadvance.size_stack, rfl⟩)

/-- A call is entered unless there are too many already. -/
theorem Call.stays_enterCounted (function : Nat) (wanted : Option Nat)
    (hm : Counted I L (n + 1) m) :
    Config.Stays I L (n + 1) (enterCounted function wanted m) := by
  rw [enterCounted_eq, hm.limits, hm.reentries]
  split
  · exact ⟨hm, Nat.succ_le_succ hn⟩
  · next hle =>
    have hle : n + 1 ≤ L.nativeDepth := Nat.le_of_not_lt hle
    exact Config.stays_of_triple hle ((compositional_counted hI hle).enter _ _ _) hm

theorem Call.stays_start (f : Value) (args : List Value) (wanted : Option Nat) (function : Nat)
    (hm : Counted I L n m) : Config.Stays I L (n + 1) (start f args wanted function m) := by
  have hm' : Counted I L (n + 1) m.countUp := hm.reentries ▸ hm.count hI (m.reentries + 1)
  have hkeeps : ∀ {x : Routine Unit}, x.Ordinary →
      Triple (counted I L (n + 1)) (Counted I L (n + 1)) (Exec.ofRoutine x)
        (fun _ => Counted I L (n + 1))
        fun _ m => Counted I L (n + 1) m ∧ n + 1 ≤ L.nativeDepth + 1 :=
    fun hx => Triple.lift ((hx.keeps hI.tolerant_counted).mono (fun _ h => h) (fun _ _ h => h)
      fun _ _ h => ⟨h, Nat.succ_le_succ hn⟩)
  have hstart : Triple (counted I L (n + 1)) (Counted I L (n + 1)) (do
      Stack.reserve (function + 1 + args.length)
      Stack.writeAll function (f :: args)
      Stack.setTop (function + 1 + args.length)
      enterCounted function wanted)
      (fun _ m => Counted I L (n + 1) m ∧ n + 1 ≤ L.nativeDepth)
      fun _ m => Counted I L (n + 1) m ∧ n + 1 ≤ L.nativeDepth + 1 :=
    Triple.bind (hkeeps (.reserve _)) fun _ => Triple.bind (hkeeps (Stack.ordinary_writeAll _ _))
      fun _ => Triple.bind (hkeeps (Stack.ordinary_setTop _)) fun _ => fun _ hm =>
        Call.stays_enterCounted hI hn function wanted hm
  exact hstart _ hm'

theorem Call.stays_startIterator (function wanted : Nat) (hm : Counted I L n m) :
    Config.Stays I L (n + 1) (startIterator function wanted m) := by
  have hm' : Counted I L (n + 1) m.countUp := hm.reentries ▸ hm.count hI (m.reentries + 1)
  exact Call.stays_enterCounted hI hn function (some wanted) hm'

end Instructions

/-! ### Configurations -/

namespace Config

/-- Calls in progress since the host called when `r` calls were counted.  Each was made while the
count was within its limit, and what waits for it goes on as it should. -/
inductive Suspended (I : Machine → Prop) (L : Limits) (r : Nat) : List Pending → Prop where
  | host {depth top function : Nat} : Suspended I L r [.boundary depth top function none]
  | call {depth top function : Nat} {rest : List Pending}
    {next : Machine → Except Failure (List Value) → Resumption Control} :
    Suspended I L r rest → r + rest.length ≤ L.nativeDepth →
    (∀ m outcome, Counted I L (r + rest.length) m →
      Stays I L (r + rest.length) (next m outcome)) →
    Suspended I L r (.boundary depth top function (some next) :: rest)
  | iterator {rest : List Pending} : Suspended I L r rest → r + rest.length ≤ L.nativeDepth →
    Suspended I L r (.iterator :: rest)

/-- The invariant holds and goes on to hold, and the count of calls is that of the calls in
progress. -/
structure Endures (I : Machine → Prop) (L : Limits) (r : Nat) (c : Config) : Prop where
  suspended : Suspended I L r c.pending
  stays : Stays I L (r + c.pending.length) c.current

/-- The state of such a configuration. -/
theorem Stays.counted {r : Resumption Control} (h : Stays I L n r) :
    Counted I L n r.machine ∧ n ≤ L.nativeDepth + 1 ∧
      (r.isStopped = false → n ≤ L.nativeDepth) := by
  cases r with
  | done m control => exact ⟨h.1, Nat.le_succ_of_le h.2, fun _ => h.2⟩
  | stopped m s => exact ⟨h.1, h.2, fun hgoes => Bool.noConfusion hgoes⟩
  | waiting m f args wanted next => exact ⟨h.1.1, Nat.le_succ_of_le h.1.2, fun _ => h.1.2⟩

/-- A step goes on in this way, or the call has ended and the count of calls is as before, unless
there has been a fault. -/
def EnduresStep (I : Machine → Prop) (L : Limits) (r : Nat) : Step → Prop
  | .more c => Endures I L r c
  | .final m outcome => I m ∧ m.limits = L ∧
    ∀ o : Except Failure (List Value), outcome = o.mapError .failure → m.reentries = r

variable {r : Nat} {pending : List Pending} {c c' : Config}

theorem counted_unwind (hI : Enduring I) (hm : Counted I L n m) (depth top function : Nat) :
    Counted I L n (unwind depth top function m) := by
  have hclose := (Cell.ordinary_closeFrom function).keeps
    (hI.tolerant_counted (L := L) (n := n)) m hm
  have hdrop : ∀ m' : Machine, Counted I L n m' →
      Counted I L n { m' with frames := m'.frames.shrink depth, top } := fun m' hm' =>
    Counted.setTop hI ⟨hI.shrink m' depth hm'.invariant, hm'.limits, hm'.reentries⟩ top
  rw [unwind]
  cases h : Cell.closeFrom function m with
  | ok _ m' =>
    rw [h] at hclose
    exact hdrop m' hclose
  | error _ m' =>
    rw [h] at hclose
    exact hdrop m' hclose

/-- The outcome of a call is handed on. -/
theorem endures_resume {depth top function : Nat} {rest : List Pending}
    {next : Option (Machine → Except Failure (List Value) → Resumption Control)}
    (h : Suspended I L r (.boundary depth top function next :: rest))
    (hm : Counted I L (r + rest.length) m) (outcome : Except Failure (List Value)) :
    EnduresStep I L r (resume m outcome rest next) := by
  cases h with
  | host =>
    cases outcome with
    | ok results => exact ⟨hm.invariant, hm.limits, fun _ _ => hm.reentries⟩
    | error e => exact ⟨hm.invariant, hm.limits, fun _ _ => hm.reentries⟩
  | call hrest hle hnext => exact ⟨hrest, hnext m outcome hm⟩

theorem endures_complete (hI : Enduring I) (h : Suspended I L r pending)
    (hm : Counted I L (r + pending.length) m) : EnduresStep I L r (complete m pending) := by
  cases pending with
  | nil => cases h
  | cons p rest =>
    cases p with
    | boundary depth top function next =>
      have hread := (Stack.ordinary_readRange function m.top).keeps hI.tolerant_counted m hm
      rw [complete]
      cases hm' : Stack.readRange function m.top m with
      | ok results m' =>
        rw [hm'] at hread
        exact endures_resume h ((hread.countDown hI).setTop hI top) (.ok results)
      | error s m' =>
        rw [hm'] at hread
        obtain ⟨f, rfl⟩ := Stack.exists_fault_of_readRange hm'
        refine ⟨hread.invariant, hread.limits, fun o ho => ?_⟩
        cases o <;> cases ho
    | iterator =>
      cases h with
      | iterator hrest hle =>
        have hreset := Stack.ordinary_resetTop.keeps hI.tolerant_counted (countDown m)
          (hm.countDown hI)
        rw [complete]
        cases hm' : Stack.resetTop (countDown m) with
        | ok _ m' =>
          rw [hm'] at hreset
          exact ⟨hrest, hreset, hle⟩
        | error s m' =>
          rw [hm'] at hreset
          exact ⟨hrest, hreset, Nat.le_succ_of_le hle⟩

theorem endures_abort (hI : Enduring I) (h : Suspended I L r pending)
    (hm : Counted I L (r + pending.length) m) (e : Failure) :
    EnduresStep I L r (abort m e pending) := by
  cases pending with
  | nil => cases h
  | cons p rest =>
    have hdown : Counted I L (r + rest.length) (countDown m) := hm.countDown hI
    cases p with
    | boundary depth top function next =>
      exact endures_resume h (counted_unwind hI hdown depth top function) _
    | iterator =>
      cases h with
      | iterator hrest hle => exact ⟨hrest, hdown, Nat.le_succ_of_le hle⟩

/-- **Steps.** A step keeps the invariant and counts the calls in progress. -/
theorem Endures.step (hI : Enduring I) (h : Endures I L r c) : EnduresStep I L r c.step := by
  obtain ⟨current, pending⟩ := c
  obtain ⟨hsuspended, hstays⟩ := h
  cases current with
  | done m control =>
    obtain ⟨hm, hle⟩ := hstays
    cases control with
    | next =>
      exact ⟨hsuspended, stays_of_triple hle
        ((Dispatch.triple_step_counted hI hle).annotated fun _ _ _ h => h) hm⟩
    | finished => exact endures_complete hI hsuspended hm
    | iterate function wanted =>
      exact ⟨.iterator hsuspended hle, Call.stays_startIterator hI hle function wanted hm⟩
  | stopped m stop =>
    obtain ⟨hm, -⟩ := hstays
    cases stop with
    | failure e => exact endures_abort hI hsuspended hm e
    | fault f =>
      refine ⟨hm.invariant, hm.limits, fun o ho => ?_⟩
      cases o <;> cases ho
  | waiting m f args wanted next =>
    obtain ⟨⟨hm, hle⟩, hnext⟩ := hstays
    exact ⟨.call hsuspended hle hnext, Call.stays_start hI hle f args wanted m.freeSlot hm⟩

theorem endures_begin (hI : Enduring I) (hm : Counted I L r m) (hr : r ≤ L.nativeDepth) (f : Value)
    (args : List Value) (wanted : Option Nat) :
    Endures I L r (begin m f args wanted none []) :=
  ⟨.host, Call.stays_start hI hr f args wanted m.freeSlot hm⟩

/-- **Runs.** The invariant holds in all configurations. -/
theorem Endures.of_reaches (hI : Enduring I) (h : Endures I L r c) (hreaches : c.Reaches c') :
    Endures I L r c' := by
  induction hreaches with
  | refl => exact h
  | step _ hstep ih =>
    have hc := ih.step hI
    rwa [hstep] at hc

/-- It holds when the call has ended. -/
theorem Endures.of_run (hI : Enduring I) (h : Endures I L r c) {k : Nat} {m' : Machine}
    {outcome : Except Stop (List Value)} (hrun : c.run k = some (m', outcome)) :
    EnduresStep I L r (.final m' outcome) := by
  induction k generalizing c with
  | zero => cases hrun
  | succ k ih =>
    have hstep := h.step hI
    cases hc : c.step with
    | more c' =>
      rw [hc] at hstep
      exact ih hstep (run_of_more hc ▸ hrun)
    | final m'' o =>
      rw [hc] at hstep
      rw [run_of_final hc] at hrun
      obtain ⟨rfl, rfl⟩ := Prod.mk.inj (Option.some.inj hrun)
      exact hstep

end Config

/-! ### Reachable states -/

namespace Host

open Exec (Mild)

theorem mild_setGlobal (name : String) (v : Value) : Mild (setGlobal name v) :=
  fun _ _ _ hI _ hm => hI _ _ hm ⟨rfl, rfl, Nat.le_max_left _ _, rfl⟩

theorem mild_errorMessage (e : Failure) : Mild (errorMessage e) := by
  have hpure : ∀ s : String, Mild (pure s) := fun s => (Exec.Ordinary.pure s).mild
  rw [errorMessage]
  split
  · refine Mild.bind (fun _ _ _ _ _ hm => hm) fun m => ?_
    split
    · refine (LuaMachine.Operation.ordinary_render _).mild.attempt.bind fun answer => ?_
      split
      · exact hpure _
      · exact hpure _
    · exact hpure _
  · exact hpure _

/-- **Operations of a host.** Between their calls they only touch the state. -/
theorem Operation.mild {α : Type} {x : Exec α} (hx : Operation x) : Mild x := by
  cases hx with
  | call f args wanted =>
    rw [Host.call]
    split
    · exact Exec.Ordinary.mild (.fail ⟨by simp, by simp⟩)
    · exact (Exec.Ordinary.call _ _ _).mild
  | behave b => exact Behaviour.mild_run b
  | setGlobal name v => exact mild_setGlobal name v
  | setLoaded name v =>
    exact fun _ _ _ hI _ hm => hI _ _ hm ⟨rfl, rfl, Nat.le_max_left _ _, rfl⟩
  | register name body => exact (Behaviour.mild_run _).bind fun _ => mild_setGlobal _ _
  | arithmetic op a b => exact (LuaMachine.Operation.ordinary_arithmetic _ _ _ _ _).mild
  | equal a b => exact (LuaMachine.Operation.ordinary_equal _ _).mild
  | less a b => exact (LuaMachine.Operation.ordinary_less _ _).mild
  | lessEqual a b => exact (LuaMachine.Operation.ordinary_lessEqual _ _).mild
  | length v => exact (LuaMachine.Operation.ordinary_length _ _).mild
  | concat values => exact (LuaMachine.Operation.ordinary_concat _ _).mild
  | errorMessage e => exact mild_errorMessage e
  | reserve needed => exact (Exec.Ordinary.lift (.reserve needed)).mild
  | write slot v => exact (Exec.Ordinary.lift (Stack.ordinary_write slot v)).mild
  | capture slot => exact (Exec.Ordinary.lift (Cell.ordinary_capture slot)).mild
  | assign id v => exact (Exec.Ordinary.lift (Cell.ordinary_write id v)).mild
  | closeFrom level => exact (Exec.Ordinary.lift (Cell.ordinary_closeFrom level)).mild
  | setBudget budget =>
    exact fun _ _ _ hI _ hm => hI _ _ hm ⟨rfl, rfl, Nat.le_max_left _ _, rfl⟩

end Host

/-- What an operation keeps holds wherever it goes on after a call. -/
theorem Resumption.Meets.counted_of_reaches {α : Type} {r r' : Resumption α}
    (hI : Enduring I) (hn : n ≤ L.nativeDepth)
    (h : r.Meets (counted I L n) (fun _ => Counted I L n) fun _ => Counted I L n)
    (hreaches : r.Reaches r') :
    r'.Meets (counted I L n) (fun _ => Counted I L n) fun _ => Counted I L n := by
  induction hreaches with
  | refl => exact h
  | call _ hrun ih =>
    obtain ⟨hinvariant, hlimits, hreentries⟩ :=
      (Config.endures_begin hI ih.1.1 hn _ _ _).of_run hI hrun
    exact ih.2 _ _ ⟨hinvariant, hlimits, hreentries _ rfl⟩

/-- **Reachable states.** An invariant that endures holds in all of them if it holds at the
beginning, and the count of calls is within its limit. -/
theorem Machine.Reachable.enduring (hI : Enduring I) (hnew : ∀ L, I (.new L)) (h : m.Reachable) :
    I m ∧ m.reentries ≤ m.limits.nativeDepth := by
  induction h with
  | new limits => exact ⟨hnew limits, Nat.zero_le _⟩
  | @operation _ x m m' r hx _ hreaches hstate ih =>
    have hmeets := (hx.mild (admits_counted ih.2) hI.tolerant_counted m
      ⟨ih.1, rfl, rfl⟩).counted_of_reaches hI ih.2 hreaches
    have hm' : Counted I m.limits m.reentries m' := by
      refine (hmeets.mono (fun _ _ h => h) fun _ _ h _ _ => h).of_state? (fun _ h => h.1) hstate
    rw [hm'.limits, hm'.reentries]
    exact ⟨hm'.invariant, ih.2⟩
  | @nested m m' _ _ _ _ _ _ _ _ _ hreaches ih =>
    obtain ⟨⟨hm', hle⟩, -⟩ :=
      ((Config.endures_begin hI ⟨ih.1, rfl, rfl⟩ ih.2 _ _ _).of_reaches hI hreaches).stays
    rw [hm'.limits, hm'.reentries]
    exact ⟨hm'.invariant, hle⟩

end LuaMachine
