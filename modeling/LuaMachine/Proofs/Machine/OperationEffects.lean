import LuaMachine.Machine.Requests
import LuaMachine.Proofs.Machine.HandlerChains
import LuaMachine.Proofs.Machine.StackEffects

/-!
# Effects of operations and native functions

Operations with metamethods, the requests of native functions and native functions as a whole
change contents only, apart from the calls that they make.  So they keep every robust invariant
that calls keep, and they do not fault.

## Main statements

* `Operation.keeps_index`, `Operation.keeps_setIndex`, `Operation.keeps_arithmetic` and others :
  operations with metamethods.
* `Request.keeps_perform` : the requests.
* `Behaviour.keeps_run` : native functions, by induction on their requests.
-/

namespace LuaMachine

open Exec

variable {K : Contract} {level : Nat} {I : Machine → Prop}

/-! ### Operations with metamethods -/

namespace Operation

theorem keeps_rawSet (hI : Robust level I) (t : TableId) (key value : Value) :
    Keeps K I (rawSet t key value) := by
  intro m hm
  rw [rawSet]
  cases Key.ofValue key with
  | ok k => exact hI.undisturbed hm (Machine.undisturbed_heap rfl rfl)
  | error fault => exact hm

theorem keeps_indexChain (hK : K.Admits I) (key : Value) (n : Nat) (v : Value) (origin : Origin) :
    Keeps K I (indexChain key n v origin) := by
  induction n generalizing v origin with
  | zero => exact Keeps.fail
  | succ n ih =>
    rw [indexChain_succ]
    refine Keeps.gets.bind fun own => Keeps.gets.bind fun handler => ?_
    unfold indexBy
    split
    · split
      · exact Keeps.callForValue hK _ _
      · exact ih _ _
    · split
      · exact Keeps.pure
      · exact Keeps.failWith

theorem keeps_index (hK : K.Admits I) (v key : Value) (origin : Origin) :
    Keeps K I (index v key origin) :=
  Keeps.state.bind fun _ => keeps_indexChain hK _ _ _ _

theorem keeps_setIndexChain (hK : K.Admits I) (hI : Robust level I) (key value : Value) (n : Nat)
    (v : Value) (origin : Origin) : Keeps K I (setIndexChain key value n v origin) := by
  induction n generalizing v origin with
  | zero => exact Keeps.fail
  | succ n ih =>
    rw [setIndexChain_succ]
    refine Keeps.gets.bind fun handler => ?_
    unfold assignBy
    split
    · split
      · exact (Keeps.call hK _ _ _).bind fun _ => Keeps.pure
      · exact ih _ _
    · exact keeps_rawSet hI _ _ _
    · exact Keeps.failWith

theorem keeps_setIndex (hK : K.Admits I) (hI : Robust level I) (v key value : Value)
    (origin : Origin) : Keeps K I (setIndex v key value origin) :=
  Keeps.state.bind fun _ => keeps_setIndexChain hK hI _ _ _ _ _

theorem keeps_arithmetic (hK : K.Admits I) (op : Operator) (a b : Value) (oa ob : Origin) :
    Keeps K I (arithmetic op a b oa ob) := by
  rw [arithmetic]
  split
  · exact Keeps.pure
  · exact Keeps.fail
  · exact Keeps.fail
  · refine Keeps.state.bind fun m => ?_
    split
    · exact Keeps.callForValue hK _ _
    · exact Keeps.failWith

theorem keeps_equal (hK : K.Admits I) (a b : Value) : Keeps K I (equal a b) := by
  rw [equal]
  split
  · exact Keeps.pure
  · split
    · exact Keeps.pure
    · refine Keeps.state.bind fun m => ?_
      split
      · exact (Keeps.callForValue hK _ _).bind fun _ => Keeps.pure
      · exact Keeps.pure

theorem keeps_ordered? (hK : K.Admits I) (a b : Value) (e : Event) :
    Keeps K I (ordered? a b e) := by
  refine Keeps.state.bind fun m => ?_
  split
  · exact (Keeps.callForValue hK _ _).bind fun _ => Keeps.pure
  · exact Keeps.pure

theorem keeps_less (hK : K.Admits I) (a b : Value) : Keeps K I (less a b) := by
  rw [less]
  split
  · exact Keeps.pure
  · refine (keeps_ordered? hK a b .less).bind fun r => ?_
    split
    · exact Keeps.pure
    · exact Keeps.failWith

theorem keeps_lessEqual (hK : K.Admits I) (a b : Value) : Keeps K I (lessEqual a b) := by
  rw [lessEqual]
  split
  · exact Keeps.pure
  · refine (keeps_ordered? hK a b .lessEqual).bind fun r => ?_
    split
    · exact Keeps.pure
    · refine (keeps_ordered? hK b a .less).bind fun r' => ?_
      split
      · exact Keeps.pure
      · exact Keeps.failWith

theorem keeps_length (hK : K.Admits I) (v : Value) (origin : Origin) :
    Keeps K I (length v origin) := by
  cases v with
  | string s => exact Keeps.pure
  | _ =>
    refine Keeps.state.bind fun m => ?_
    split
    · exact Keeps.callForValue hK _ _
    · split
      · exact Keeps.gets
      · exact Keeps.failWith

theorem keeps_concatPair (hK : K.Admits I) (a b : Value) (oa ob : Origin) :
    Keeps K I (concatPair a b oa ob) := by
  refine Keeps.state.bind fun m => ?_
  split
  · exact Keeps.callForValue hK _ _
  · exact Keeps.failWith

theorem keeps_concatLeft (hK : K.Admits I) (origin : Nat → Origin) (right : Value)
    (left : List Value) : Keeps K I (concatLeft origin right left) := by
  fun_induction concatLeft origin right left with
  | case1 right => exact Keeps.pure
  | case2 right a rest h hright ih => exact ih
  | case3 right a rest h hright hleft ih => exact ih
  | case4 right a rest h hright hleft run ih => exact ih
  | case5 right a rest h ih => exact (keeps_concatPair hK _ _ _ _).bind fun v => ih v

theorem keeps_concat (hK : K.Admits I) (values : List Value) (origin : Nat → Origin) :
    Keeps K I (concat values origin) := by
  rw [concat]
  split
  · exact Keeps.pure
  · exact keeps_concatLeft hK _ _ _

theorem keeps_render (hK : K.Admits I) (v : Value) : Keeps K I (render v) := by
  refine Keeps.state.bind fun m => ?_
  split
  · refine (Keeps.callForValue hK _ _).bind fun s => ?_
    split
    · exact Keeps.pure
    · exact fun _ hm => hm
  · split
    · exact Keeps.pure
    · exact Keeps.gets
    · exact Keeps.pure

end Operation

/-! ### Native functions -/

namespace Machine

/-- Only what native functions keep for the host has changed. -/
theorem undisturbed_notebook {m : Machine} (notebook : Notebook) :
    m.Undisturbed { m with notebook } :=
  ⟨rfl, rfl, rfl, rfl, rfl, Nat.le_refl _, fun _ _ hc => hc, fun _ hc => .inl hc,
    fun _ _ => Iff.rfl⟩

/-- Only the metatables of basic types have changed. -/
theorem undisturbed_kindMetatables {m : Machine} (kindMetatables : List (Kind × TableId)) :
    m.Undisturbed { m with kindMetatables } :=
  ⟨rfl, rfl, rfl, rfl, rfl, Nat.le_refl _, fun _ _ hc => hc, fun _ hc => .inl hc,
    fun _ _ => Iff.rfl⟩

end Machine

theorem Metatable.keeps_assign (hI : Robust level I) (v : Value) (metatable : Option TableId) :
    Routine.Keeps I (assign v metatable) := by
  refine Routine.Keeps.modify fun m hm => ?_
  split
  · exact hI.undisturbed hm (Machine.undisturbed_heap rfl rfl)
  · exact hI.undisturbed hm (Machine.undisturbed_heap rfl rfl)
  · exact hI.undisturbed hm (Machine.undisturbed_kindMetatables _)

namespace Request

theorem keeps_add (hI : Robust level I) (entry : Machine → JournalEntry) :
    Keeps K I (Journal.add entry) :=
  fun _ hm => hI.undisturbed hm (Machine.undisturbed_notebook _)

theorem keeps_complainAtCaller {α : Type} (cause : Machine → Cause) :
    Keeps K I (complainAtCaller cause : Exec α) :=
  fun _ hm => hm

theorem keeps_silently {x : Exec Unit} (h : Keeps K I x) : Keeps K I (silently x) :=
  h.bind fun _ => Keeps.pure

theorem keeps_single {x : Exec Value} (h : Keeps K I x) : Keeps K I (single x) :=
  h.bind fun _ => Keeps.pure

/-- **Requests.** A request keeps every robust invariant that calls keep. -/
theorem keeps_perform (hK : K.Admits I) (hI : Robust level I) (r : Request) :
    Keeps K I r.perform := by
  cases r with
  | call f args => exact Keeps.call hK _ _ _
  | index o k => exact keeps_single (Operation.keeps_index hK _ _ _)
  | setIndex o k v => exact keeps_silently (Operation.keeps_setIndex hK hI _ _ _ _)
  | render v => exact keeps_single ((Operation.keeps_render hK v).bind fun _ => Keeps.pure)
  | setMetatable v mt => exact keeps_silently (Keeps.lift (Metatable.keeps_assign hI v mt))
  | metatable _ | typeName _ | position _ | traceback _ _ | globals | rawLength _ | unpack _
  | remembered _ => exact Keeps.gets
  | argumentError _ _ | typeError _ _ _ | complain _ => exact keeps_complainAtCaller _
  | newTable | newUserdata _ | newThread _ =>
    exact fun _ hm => hI.undisturbed hm (Machine.undisturbed_heap rfl rfl)
  | load p => exact keeps_single ((Keeps.lift (Closure.keeps_load hI p)).bind fun _ => Keeps.pure)
  | rawGet t k => exact keeps_single Keeps.gets
  | rawSet t k v => exact keeps_silently (Operation.keeps_rawSet hI _ _ _)
  | next t k =>
    intro m hm
    simp only [perform]
    split <;> exact hm
  | remember name v => exact fun _ hm => hI.undisturbed hm (Machine.undisturbed_notebook _)
  | note _ | noteCaller _ | noteCallee => exact keeps_silently (keeps_add hI _)

end Request

/-- **Native functions.** A native function keeps every robust invariant that calls keep, whatever
it requests. -/
theorem Behaviour.keeps_run (hK : K.Admits I) (hI : Robust level I) (b : Behaviour) :
    Keeps K I b.run := by
  induction b with
  | finish results => exact Keeps.pure
  | fail e => exact Keeps.throw
  | request r next ih =>
    exact (Request.keeps_perform hK hI r).attempt.bind fun answer => ih answer
  | newNative name body next _ ih =>
    exact fun m hm => ih _ _ (hI.undisturbed hm (Machine.undisturbed_heap rfl rfl))

end LuaMachine
