import LuaMachine.Machine.Run

/-!
# Reasoning about computations of the machine

A routine runs to its end at once, so that it is described by a precondition, a postcondition and a
condition for its stops.  A computation that calls is described in the same way, but relative to a
contract: it must be ready whenever it calls, and it may rely on what a call leaves.

Most of what the machine does keeps an invariant of the state.  For an invariant that does not
depend on the contents of the stack, of tables and of other objects, this is a property of the
invariant rather than of the operation.

## Main definitions

* `Contract` : what a computation promises when it calls, and what it may rely on afterwards.
* `Resumption.Meets` : a computation up to its next call, and all that follows, is as specified.
* `Routine.Triple`, `Exec.Triple` : specifications of routines and of computations.
* `Routine.Keeps`, `Exec.Keeps` : a computation keeps an invariant and does not fault.

## Main statements

* `Routine.Triple.bind`, `Exec.Triple.bind` : one computation after the other.
* `Resumption.Meets.attempt` : a computation whose failures are answers.
* `Exec.Keeps.call` : a call keeps what its contract keeps.
-/

namespace LuaMachine

variable {α β : Type}

/-- What a computation promises when it calls, and what it may rely on when the call has ended. -/
structure Contract where
  /-- The states from which calls are made. -/
  ready : Machine → Prop
  /-- A call for a number of results leads from one state to another with an outcome. -/
  returned : Machine → Option Nat → Machine → Except Failure (List Value) → Prop

/-- An invariant holds when a computation is ready to call, and calls keep it. -/
structure Contract.Admits (K : Contract) (I : Machine → Prop) : Prop where
  ready : ∀ m, I m → K.ready m
  returned : ∀ m wanted m' outcome, I m → K.returned m wanted m' outcome → I m'

/-- Stops are failures, and an invariant holds when they occur. -/
def Stop.Spares (I : Machine → Prop) : Stop → Machine → Prop
  | .failure _, m => I m
  | .fault _, _ => False

theorem Stop.Spares.mono {I J : Machine → Prop} (h : ∀ m, I m → J m) {s : Stop} {m : Machine}
    (hs : s.Spares I m) : s.Spares J m := by
  cases s with
  | failure _ => exact h m hs
  | fault _ => exact hs

theorem Stop.Spares.of_eq_failure {I : Machine → Prop} {s : Stop} {m : Machine} {e : Failure}
    (hs : s.Spares I m) (he : s = .failure e) : I m := by
  subst he
  exact hs

/-! ### One computation after the other -/

theorem Resumption.bind_assoc {γ : Type} (r : Resumption α) (f : α → Machine → Resumption β)
    (g : β → Machine → Resumption γ) :
    (r.bind f).bind g = r.bind fun a m => (f a m).bind g := by
  induction r with
  | done m a => rfl
  | stopped m s => rfl
  | waiting m h args wanted next ih => simp only [bind, ih]

theorem Resumption.bind_done (r : Resumption α) : (r.bind fun a m => .done m a) = r := by
  induction r with
  | done m a => rfl
  | stopped m s => rfl
  | waiting m h args wanted next ih => simp only [bind, ih]

instance : LawfulMonad Exec :=
  LawfulMonad.mk' Exec (fun x => funext fun m => (x m).bind_done) (fun _ _ => rfl)
    fun x f g => funext fun m => (x m).bind_assoc f g

/-! ### Computations up to their next call -/

namespace Resumption

variable {K : Contract} {Q Q' : α → Machine → Prop} {R : β → Machine → Prop}
  {E E' : Stop → Machine → Prop}

/-- The computation ends as specified, provided that its calls end as the contract says, and it is
ready for each of them. -/
def Meets (K : Contract) (Q : α → Machine → Prop) (E : Stop → Machine → Prop) :
    Resumption α → Prop
  | done m a => Q a m
  | stopped m s => E s m
  | waiting m _ _ wanted next => K.ready m ∧
    ∀ m' outcome, K.returned m wanted m' outcome → (next m' outcome).Meets K Q E

theorem Meets.mono {r : Resumption α} (hQ : ∀ a m, Q a m → Q' a m) (hE : ∀ s m, E s m → E' s m)
    (h : r.Meets K Q E) : r.Meets K Q' E' := by
  induction r with
  | done m a => exact hQ a m h
  | stopped m s => exact hE s m h
  | waiting m f args wanted next ih =>
    exact ⟨h.1, fun m' o ho => ih m' o (h.2 m' o ho)⟩

theorem Meets.bind {r : Resumption α} {f : α → Machine → Resumption β} (h : r.Meets K Q E)
    (hf : ∀ a m, Q a m → (f a m).Meets K R E) : (r.bind f).Meets K R E := by
  induction r with
  | done m a => exact hf a m h
  | stopped m s => exact h
  | waiting m g args wanted next ih =>
    exact ⟨h.1, fun m' o ho => ih m' o (h.2 m' o ho)⟩

theorem Meets.mapFailure {r : Resumption α} {change : Machine → Failure → Failure}
    (h : r.Meets K Q E) (hfailure : ∀ m e, E (.failure e) m → E (.failure (change m e)) m) :
    (r.mapFailure change).Meets K Q E := by
  induction r with
  | done m a => exact h
  | stopped m s =>
    cases s with
    | failure e => exact hfailure m e h
    | fault f => exact h
  | waiting m f args wanted next ih =>
    exact ⟨h.1, fun m' o ho => ih m' o (h.2 m' o ho)⟩

/-- A contract may be exchanged for one that asks for less and promises no less. -/
theorem Meets.exchange {K' : Contract} {r : Resumption α} (h : r.Meets K Q E)
    (hready : ∀ m, K.ready m → K'.ready m)
    (hreturned : ∀ m wanted m' outcome, K'.returned m wanted m' outcome →
      K.returned m wanted m' outcome) : r.Meets K' Q E := by
  induction r with
  | done m a => exact h
  | stopped m s => exact h
  | waiting m f args wanted next ih =>
    exact ⟨hready m h.1, fun m' o ho => ih m' o (h.2 m' o (hreturned m wanted m' o ho))⟩

/-- **Answers instead of failures.** A computation whose failures are answers stops only with a
fault. -/
theorem Meets.attempt {r : Resumption α} {Q' : Except Failure α → Machine → Prop}
    (h : r.Meets K Q E) (hQ : ∀ a m, Q a m → Q' (.ok a) m)
    (hE : ∀ e m, E (.failure e) m → Q' (.error e) m) : r.attempt.Meets K Q' E := by
  induction r with
  | done m a => exact hQ a m h
  | stopped m s =>
    cases s with
    | failure e => exact hE e m h
    | fault f => exact h
  | waiting m f args wanted next ih =>
    exact ⟨h.1, fun m' o ho => ih m' o (h.2 m' o ho)⟩

end Resumption

/-! ### Routines -/

namespace Routine

variable {P P' I : Machine → Prop} {Q Q' : α → Machine → Prop} {R : β → Machine → Prop}
  {E E' : Stop → Machine → Prop}

/-- From a state with the precondition the routine leads to a result and a state with the
postcondition, or it stops as specified. -/
def Triple (P : Machine → Prop) (x : Routine α) (Q : α → Machine → Prop)
    (E : Stop → Machine → Prop) : Prop :=
  ∀ m, P m → match x m with
    | .ok a m' => Q a m'
    | .error s m' => E s m'

/-- The routine keeps an invariant and does not fault. -/
def Keeps (I : Machine → Prop) (x : Routine α) : Prop :=
  Triple I x (fun _ => I) (Stop.Spares I)

theorem Triple.mono {x : Routine α} (h : Triple P x Q E) (hP : ∀ m, P' m → P m)
    (hQ : ∀ a m, Q a m → Q' a m) (hE : ∀ s m, E s m → E' s m) : Triple P' x Q' E' := by
  intro m hm
  have hx := h m (hP m hm)
  cases hxm : x m with
  | ok a m' =>
    rw [hxm] at hx
    exact hQ a m' hx
  | error s m' =>
    rw [hxm] at hx
    exact hE s m' hx

/-- The precondition can be strengthened. -/
theorem Triple.pre {x : Routine α} (h : Triple P x Q E) (hP : ∀ m, P' m → P m) : Triple P' x Q E :=
  h.mono hP (fun _ _ hm => hm) fun _ _ hm => hm

/-- The postcondition can be weakened. -/
theorem Triple.post {x : Routine α} (h : Triple P x Q E) (hQ : ∀ a m, Q a m → Q' a m) :
    Triple P x Q' E :=
  h.mono (fun _ hm => hm) hQ fun _ _ hm => hm

/-- What is spared when the routine stops can be weakened. -/
theorem Triple.spares {J : Machine → Prop} {x : Routine α} (h : Triple P x Q (Stop.Spares I))
    (hIJ : ∀ m, I m → J m) : Triple P x Q (Stop.Spares J) :=
  h.mono (fun _ hm => hm) (fun _ _ hm => hm) fun _ _ hs => hs.mono hIJ

/-- What is specified separately holds together. -/
theorem Triple.and {x : Routine α} (h : Triple P x Q E) (h' : Triple P' x Q' E') :
    Triple (fun m => P m ∧ P' m) x (fun a m => Q a m ∧ Q' a m) fun s m => E s m ∧ E' s m := by
  intro m hm
  have hx := h m hm.1
  have hx' := h' m hm.2
  cases hxm : x m with
  | ok a m' =>
    rw [hxm] at hx hx'
    exact ⟨hx, hx'⟩
  | error s m' =>
    rw [hxm] at hx hx'
    exact ⟨hx, hx'⟩

theorem Triple.pure {a : α} (h : ∀ m, P m → Q a m) : Triple P (pure a : Routine α) Q E :=
  fun m hm => h m hm

theorem Triple.bind {x : Routine α} {f : α → Routine β} (hx : Triple P x Q E)
    (hf : ∀ a, Triple (Q a) (f a) R E) : Triple P (x >>= f) R E := by
  intro m hm
  have hm' := hx m hm
  change match (EStateM.bind x f) m with | .ok a m' => R a m' | .error s m' => E s m'
  rw [EStateM.bind]
  cases hxm : x m with
  | ok a m' =>
    rw [hxm] at hm'
    exact hf a m' hm'
  | error s m' =>
    rw [hxm] at hm'
    exact hm'

/-- The state is read. -/
theorem Triple.get {Q : Machine → Machine → Prop} (h : ∀ m, P m → Q m m) :
    Triple P (get : Routine Machine) Q E :=
  fun m hm => h m hm

theorem Triple.modify {f : Machine → Machine} {Q : Unit → Machine → Prop}
    (h : ∀ m, P m → Q () (f m)) : Triple P (modify f : Routine Unit) Q E :=
  fun m hm => h m hm

theorem Triple.fail {cause : Cause} (h : ∀ m, P m → E (.failure (.of cause)) m) :
    Triple P (Routine.fail cause : Routine α) Q E :=
  fun m hm => h m hm

/-- A condition that does not depend on the state can be assumed. -/
theorem Triple.assume {p : Prop} {x : Routine α} (h : p → Triple P x Q E) :
    Triple (fun m => P m ∧ p) x Q E :=
  fun m hm => h hm.2 m hm.1

theorem bind_of_ok {x : Routine α} {f : α → Routine β} {a : α} {m m' : Machine}
    (h : x m = .ok a m') : (x >>= f) m = f a m' := by
  change (EStateM.bind x f) m = f a m'
  rw [EStateM.bind, h]

theorem bind_of_error {x : Routine α} {f : α → Routine β} {s : Stop} {m m' : Machine}
    (h : x m = .error s m') : (x >>= f) m = .error s m' := by
  change (EStateM.bind x f) m = .error s m'
  rw [EStateM.bind, h]

theorem bind_get {f : Machine → Routine β} {m : Machine} : (get >>= f) m = f m m :=
  rfl

theorem modify_eq {f : Machine → Machine} {m : Machine} :
    (modify f : Routine Unit) m = .ok () (f m) :=
  rfl

theorem Keeps.pure {a : α} : Keeps I (pure a : Routine α) :=
  Triple.pure fun _ hm => hm

theorem Keeps.bind {x : Routine α} {f : α → Routine β} (hx : Keeps I x)
    (hf : ∀ a, Keeps I (f a)) : Keeps I (x >>= f) :=
  Triple.bind hx hf

theorem Keeps.modify {f : Machine → Machine} (h : ∀ m, I m → I (f m)) :
    Keeps I (modify f : Routine Unit) :=
  Triple.modify h

theorem Keeps.fail {cause : Cause} : Keeps I (Routine.fail cause : Routine α) :=
  Triple.fail fun _ hm => hm

end Routine

/-! ### Computations that call -/

namespace Exec

variable {K : Contract} {P P' I : Machine → Prop} {Q Q' : α → Machine → Prop}
  {R : β → Machine → Prop} {E E' : Stop → Machine → Prop}

/-- From a state with the precondition the computation, with calls as in the contract, leads to a
result and a state with the postcondition, or it stops as specified. -/
def Triple (K : Contract) (P : Machine → Prop) (x : Exec α) (Q : α → Machine → Prop)
    (E : Stop → Machine → Prop) : Prop :=
  ∀ m, P m → (x m).Meets K Q E

/-- The computation keeps an invariant and does not fault. -/
def Keeps (K : Contract) (I : Machine → Prop) (x : Exec α) : Prop :=
  Triple K I x (fun _ => I) (Stop.Spares I)

theorem Triple.mono {x : Exec α} (h : Triple K P x Q E) (hP : ∀ m, P' m → P m)
    (hQ : ∀ a m, Q a m → Q' a m) (hE : ∀ s m, E s m → E' s m) : Triple K P' x Q' E' :=
  fun m hm => (h m (hP m hm)).mono hQ hE

/-- The precondition can be strengthened. -/
theorem Triple.pre {x : Exec α} (h : Triple K P x Q E) (hP : ∀ m, P' m → P m) :
    Triple K P' x Q E :=
  h.mono hP (fun _ _ hm => hm) fun _ _ hm => hm

/-- What is spared when the computation stops can be weakened. -/
theorem Triple.spares {J : Machine → Prop} {x : Exec α} (h : Triple K P x Q (Stop.Spares I))
    (hIJ : ∀ m, I m → J m) : Triple K P x Q (Stop.Spares J) :=
  h.mono (fun _ hm => hm) (fun _ _ hm => hm) fun _ _ hs => hs.mono hIJ

theorem Triple.pure {a : α} (h : ∀ m, P m → Q a m) : Triple K P (pure a : Exec α) Q E :=
  fun m hm => h m hm

theorem Triple.bind {x : Exec α} {f : α → Exec β} (hx : Triple K P x Q E)
    (hf : ∀ a, Triple K (Q a) (f a) R E) : Triple K P (x >>= f) R E :=
  fun m hm => (hx m hm).bind hf

/-- An operation that calls nothing is a routine. -/
theorem Triple.lift {x : Routine α} (h : Routine.Triple P x Q E) :
    Triple K P (ofRoutine x) Q E := by
  intro m hm
  have hx := h m hm
  cases hxm : x m with
  | ok a m' =>
    rw [hxm] at hx
    simpa only [ofRoutine, hxm, Resumption.Meets] using hx
  | error s m' =>
    rw [hxm] at hx
    simpa only [ofRoutine, hxm, Resumption.Meets] using hx

/-- The state is read. -/
theorem Triple.state {Q : Machine → Machine → Prop} (h : ∀ m, P m → Q m m) :
    Triple K P state Q E :=
  fun m hm => h m hm

theorem Triple.fail {cause : Cause} (h : ∀ m, P m → E (.failure (.of cause)) m) :
    Triple K P (Exec.fail cause : Exec α) Q E :=
  fun m hm => h m hm

theorem Triple.assume {p : Prop} {x : Exec α} (h : p → Triple K P x Q E) :
    Triple K (fun m => P m ∧ p) x Q E :=
  fun m hm => h hm.2 m hm.1

/-- Adding a position to failures does not change what is promised about the state. -/
theorem Triple.annotated {x : Exec α} (h : Triple K P x Q E)
    (hE : ∀ m e e', E (.failure e) m → E (.failure e') m) : Triple K P x.annotated Q E :=
  fun m hm => (h m hm).mapFailure fun m' e he => hE m' e _ he

theorem bind_of_ok {x : Routine α} {f : α → Exec β} {a : α} {m m' : Machine}
    (h : x m = .ok a m') : (liftM x >>= f) m = f a m' := by
  change (ofRoutine x m).bind f = f a m'
  rw [ofRoutine, h]
  rfl

theorem bind_of_error {x : Routine α} {f : α → Exec β} {s : Stop} {m m' : Machine}
    (h : x m = .error s m') : (liftM x >>= f) m = .stopped m' s := by
  change (ofRoutine x m).bind f = .stopped m' s
  rw [ofRoutine, h]
  rfl

/-- Operations that call nothing may be taken together. -/
theorem ofRoutine_bind (x : Routine α) (f : α → Routine β) :
    ofRoutine (x >>= f) = ofRoutine x >>= fun a => ofRoutine (f a) := by
  funext m
  change ofRoutine (x >>= f) m = (ofRoutine x m).bind fun a => ofRoutine (f a)
  cases h : x m with
  | ok a m' => simp only [ofRoutine, Routine.bind_of_ok h, h, Resumption.bind]
  | error s m' => simp only [ofRoutine, Routine.bind_of_error h, h, Resumption.bind]

theorem ofRoutine_pure (a : α) : ofRoutine (pure a) = pure a := rfl

theorem ofRoutine_get : ofRoutine get = state := rfl

theorem Keeps.pure {a : α} : Keeps K I (pure a : Exec α) :=
  Triple.pure fun _ hm => hm

theorem Keeps.bind {x : Exec α} {f : α → Exec β} (hx : Keeps K I x)
    (hf : ∀ a, Keeps K I (f a)) : Keeps K I (x >>= f) :=
  Triple.bind hx hf

theorem Keeps.lift {x : Routine α} (h : Routine.Keeps I x) : Keeps K I (ofRoutine x) :=
  Triple.lift h

theorem Keeps.state : Keeps K I state := fun _ hm => hm

theorem Keeps.gets {f : Machine → α} : Keeps K I (gets f) := fun _ hm => hm

theorem Keeps.throw {e : Failure} : Keeps K I (throw e : Exec α) := fun _ hm => hm

theorem Keeps.fail {cause : Cause} : Keeps K I (Exec.fail cause : Exec α) := fun _ hm => hm

theorem Keeps.failWith {cause : Machine → Cause} : Keeps K I (failWith cause : Exec α) :=
  fun _ hm => hm

/-- **Calls.** A call keeps an invariant that the contract keeps. -/
theorem Keeps.call (hI : K.Admits I) (f : Value) (args : List Value) (wanted : Option Nat) :
    Keeps K I (call f args wanted) := by
  refine fun m hm => ⟨hI.ready m hm, fun m' outcome ho => ?_⟩
  have hm' := hI.returned m wanted m' outcome hm ho
  cases outcome with
  | ok results => exact hm'
  | error e => exact hm'

theorem Keeps.callForValue (hI : K.Admits I) (f : Value) (args : List Value) :
    Keeps K I (callForValue f args) :=
  (Keeps.call hI f args (some 1)).bind fun _ => Keeps.pure

theorem Keeps.attempt {x : Exec α} (h : Keeps K I x) : Keeps K I x.attempt :=
  fun m hm => (h m hm).attempt (fun _ _ hm' => hm') fun _ _ hm' => hm'

end Exec

end LuaMachine
