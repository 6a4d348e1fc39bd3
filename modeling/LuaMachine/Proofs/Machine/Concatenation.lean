import LuaMachine.Machine.Operations
import LuaMachine.Proofs.Machine.Triple
import Mathlib.Data.List.Induction
import Mathlib.Data.List.TakeWhile

/-!
# Concatenation

Concatenation is an operation on two values.  A list of values is concatenated from the right: the
last two values give one, which is then concatenated with the value before them, and so on.  What
happens on the way, in particular which handlers are called, with what and when, follows from this
rule alone.

The machine does not go pair by pair.  A run of strings and numbers is joined in one go, and a pair
of which one is an empty string is not joined at all.  No call is made meanwhile, so that the two
ways are equal as computations: they make the same calls in the same order, each from the same
state, and end with the same value or the same failure.

## Main definitions

* `Operation.concatTwo` : the concatenation of two values.
* `Operation.concatRight` : the concatenation of a list, pair by pair from the right.

## Main statements

* `Operation.concatLeft_eq_concatPairs` : joining runs is the same as going pair by pair.
* `Operation.concat_eq_concatRight` : concatenation is the fold from the right.
-/

namespace LuaMachine

/-- Strings and numbers are the values that have bytes. -/
theorem Value.isSome_concatBytes? (v : Value) : v.concatBytes?.isSome = v.isConcatenable := by
  cases v <;> rfl

namespace Operation

variable {a b right : Value} {origin : Nat → Origin} {oa ob : Origin}

/-! ### The rule -/

/-- The concatenation of two values.  Two strings or numbers give the string of their texts.
Otherwise the handler of the left value, or else that of the right one, is called with both and
yields its first result.  Without a handler the left value is to blame, unless it is a string or a
number. -/
def concatTwo (a b : Value) (oa ob : Origin) : Exec Value := fun m =>
  match a.concatBytes?, b.concatBytes? with
  | some s, some t => .done m (.string (s ++ t))
  | left, _ =>
    match m.handler? a .concat, m.handler? b .concat with
    | some handler, _ => Exec.callForValue handler [a, b] m
    | none, some handler => Exec.callForValue handler [a, b] m
    | none, none =>
      .stopped m (.failure (.of (if left.isSome then m.operandFault "concatenate" b ob
        else m.operandFault "concatenate" a oa)))

/-- The concatenation of the values of a list, of which the first has the number `n`: the first
value with the concatenation of all others. -/
def concatRight (origin : Nat → Origin) : Nat → List Value → Exec Value
  | _, [] => pure (.string .empty)
  | _, [v] => pure v
  | n, a :: b :: rest => do
    let right ← concatRight origin (n + 1) (b :: rest)
    concatTwo a right (origin n) (origin (n + 1))

/-- The rule applied to `right` and the values to the left of it, nearest first, one after the
other. -/
def concatPairs (origin : Nat → Origin) (right : Value) : List Value → Exec Value
  | [] => pure right
  | a :: rest => do
    let v ← concatTwo a right (origin rest.length) (origin (rest.length + 1))
    concatPairs origin v rest

/-! ### Joined bytes -/

theorem joined_append (vs ws : List Value) : joined (vs ++ ws) = joined vs ++ joined ws := by
  induction ws using List.reverseRecOn with
  | nil => rw [List.append_nil]; exact ByteArray.append_empty.symm
  | append_singleton ws w ih =>
    have hlast (us : List Value) :
        joined (us ++ [w]) = joined us ++ w.concatBytes?.getD .empty := by
      simp only [joined, List.foldl_append, List.foldl_cons, List.foldl_nil]
    rw [← List.append_assoc, hlast, hlast, ih, ByteArray.append_assoc]

theorem joined_singleton (v : Value) : joined [v] = v.concatBytes?.getD .empty :=
  ByteArray.empty_append

theorem joined_pair (a b : Value) : joined [a, b] = joined [a] ++ joined [b] :=
  joined_append [a] [b]

/-- A string stands for the values that it has been joined from. -/
theorem joined_string_joined (vs : List Value) : joined [.string (joined vs)] = joined vs :=
  joined_singleton _

theorem joined_of_isEmptyString (h : isEmptyString a = true) : joined [a] = .empty := by
  rw [joined_singleton]
  cases a with
  | string s =>
    have hsize : s.size = 0 := beq_iff_eq.1 h
    exact ByteArray.size_eq_zero_iff.1 hsize
  | _ => nomatch h

/-! ### Pair by pair -/

theorem concatTwo_of_isConcatenable (h : (a.isConcatenable && b.isConcatenable) = true) :
    concatTwo a b oa ob = pure (.string (joined [a, b])) := by
  simp only [Bool.and_eq_true, ← Value.isSome_concatBytes?, Option.isSome_iff_exists] at h
  obtain ⟨⟨s, hs⟩, t, ht⟩ := h
  funext m
  have hjoined : joined [a, b] = s ++ t := by
    rw [joined_pair, joined_singleton, joined_singleton, hs, ht]
    rfl
  simp only [concatTwo, hs, ht, hjoined]
  rfl

theorem concatPair_of_handler {m : Machine} {handler : Value}
    (h : m.binaryHandler? a b .concat = some handler) :
    concatPair a b oa ob m = Exec.callForValue handler [a, b] m := by
  simp only [concatPair, bind, Exec.bind, Exec.state, Resumption.bind, h]

theorem concatPair_of_no_handler {m : Machine} (h : m.binaryHandler? a b .concat = none) :
    concatPair a b oa ob m = .stopped m (.failure (.of (if a.concatBytes?.isSome
      then m.operandFault "concatenate" b ob else m.operandFault "concatenate" a oa))) := by
  simp only [concatPair, bind, Exec.bind, Exec.state, Resumption.bind, h, Exec.failWith,
    a.isSome_concatBytes?]

/-- Two values of which one is neither string nor number are left to handlers. -/
theorem concatTwo_eq_concatPair (h : ¬(a.isConcatenable && b.isConcatenable) = true) :
    concatTwo a b oa ob = concatPair a b oa ob := by
  funext m
  unfold concatTwo
  split
  · next hs ht =>
    rw [← a.isSome_concatBytes?, ← b.isSome_concatBytes?, hs, ht] at h
    exact absurd rfl h
  · cases ha : m.handler? a .concat with
    | some handler => exact (concatPair_of_handler (by rw [Machine.binaryHandler?, ha]; rfl)).symm
    | none =>
      cases hb : m.handler? b .concat with
      | some handler =>
        exact (concatPair_of_handler (by rw [Machine.binaryHandler?, ha, hb]; rfl)).symm
      | none => exact (concatPair_of_no_handler (by rw [Machine.binaryHandler?, ha, hb]; rfl)).symm

/-- A string or a number is joined to the one on its right. -/
theorem concatPairs_cons (h : (a.isConcatenable && right.isConcatenable) = true)
    (rest : List Value) : concatPairs origin right (a :: rest) =
      concatPairs origin (.string (joined [a, right])) rest := by
  rw [concatPairs, concatTwo_of_isConcatenable h, pure_bind]

/-- A run of strings and numbers is joined, one after the other. -/
theorem concatPairs_run {run : List Value} (hright : right.isConcatenable = true)
    (ha : a.isConcatenable = true) (hrun : ∀ v ∈ run, v.isConcatenable = true)
    (rest : List Value) : concatPairs origin right (a :: run ++ rest) =
      concatPairs origin (.string (joined ((a :: run).reverse ++ [right]))) rest := by
  induction run generalizing a right with
  | nil => exact concatPairs_cons (Bool.and_eq_true_iff.2 ⟨ha, hright⟩) rest
  | cons b run ih =>
    have hjoined : joined ((b :: run).reverse ++ [.string (joined [a, right])]) =
        joined ((a :: b :: run).reverse ++ [right]) := by
      rw [joined_append, joined_string_joined, ← joined_append, List.reverse_cons (a := a),
        List.append_assoc, List.singleton_append]
    calc concatPairs origin right (a :: (b :: run) ++ rest)
      _ = concatPairs origin (.string (joined [a, right])) (b :: run ++ rest) :=
        concatPairs_cons (Bool.and_eq_true_iff.2 ⟨ha, hright⟩) _
      _ = concatPairs origin
          (.string (joined ((b :: run).reverse ++ [.string (joined [a, right])]))) rest :=
        ih rfl (hrun b List.mem_cons_self) fun v hv => hrun v (List.mem_cons_of_mem b hv)
      _ = _ := by rw [hjoined]

/-- **Runs.** To join runs of strings and numbers, and to leave out empty strings, is the same as to
go pair by pair. -/
theorem concatLeft_eq_concatPairs (origin : Nat → Origin) (right : Value) (left : List Value) :
    concatLeft origin right left = concatPairs origin right left := by
  fun_induction concatLeft origin right left with
  | case1 right => rfl
  | case2 right a rest h hright ih =>
    rw [ih, concatPairs_cons h, joined_pair, joined_of_isEmptyString hright,
      ByteArray.append_empty]
  | case3 right a rest h hright hleft ih =>
    rw [ih, concatPairs_cons h, joined_pair, joined_of_isEmptyString hleft,
      ByteArray.empty_append]
  | case4 right a rest h hright hleft run ih =>
    obtain ⟨ha, hb⟩ := Bool.and_eq_true_iff.1 h
    have hcons : run = a :: rest.takeWhile (·.isConcatenable) := by
      simp only [run, List.takeWhile_cons, ha, if_true]
    have hsplit : run ++ (a :: rest).dropWhile (·.isConcatenable) = a :: rest :=
      List.takeWhile_append_dropWhile
    rw [ih, ← congrArg (concatPairs origin right) hsplit, hcons]
    exact (concatPairs_run hb ha (fun v hv => List.mem_takeWhile_imp hv) _).symm
  | case5 right a rest h ih =>
    rw [concatPairs, concatTwo_eq_concatPair h]
    exact bind_congr ih

/-! ### The fold -/

theorem concatRight_cons {vs : List Value} (h : vs ≠ []) (n : Nat) (a : Value) :
    concatRight origin n (a :: vs) = (do
      let right ← concatRight origin (n + 1) vs
      concatTwo a right (origin n) (origin (n + 1))) := by
  cases vs with
  | nil => exact absurd rfl h
  | cons b rest => rfl

/-- The values to the right can be concatenated first. -/
theorem concatRight_reverse_append (left : List Value) {vs : List Value} (h : vs ≠ []) :
    concatRight origin 0 (left.reverse ++ vs) = (do
      let right ← concatRight origin left.length vs
      concatPairs origin right left) := by
  induction left generalizing vs with
  | nil => exact (bind_pure _).symm
  | cons a rest ih =>
    calc concatRight origin 0 ((a :: rest).reverse ++ vs)
      _ = concatRight origin 0 (rest.reverse ++ (a :: vs)) := by
        rw [List.reverse_cons, List.append_assoc, List.singleton_append]
      _ = (do
          let right ← concatRight origin rest.length (a :: vs)
          concatPairs origin right rest) := ih (List.cons_ne_nil a vs)
      _ = _ := by
        rw [concatRight_cons h, bind_assoc]
        rfl

/-- **Concatenation.** A list of values is concatenated as the rule for two values says, from the
right: with the same calls of handlers, each with the same values and from the same state, and with
the same value or failure in the end. -/
theorem concat_eq_concatRight (values : List Value) (origin : Nat → Origin) :
    concat values origin = concatRight origin 0 values := by
  cases values using List.reverseRecOn with
  | nil => rfl
  | append_singleton values right =>
    calc concat (values ++ [right]) origin
      _ = concatLeft origin right values.reverse := by
        rw [concat, List.reverse_append, List.reverse_singleton, List.singleton_append]
      _ = concatPairs origin right values.reverse := concatLeft_eq_concatPairs ..
      _ = concatRight origin 0 (values.reverse.reverse ++ [right]) :=
        ((concatRight_reverse_append _ (List.cons_ne_nil _ _)).trans (pure_bind ..)).symm
      _ = concatRight origin 0 (values ++ [right]) := by rw [List.reverse_reverse]

end Operation

end LuaMachine
