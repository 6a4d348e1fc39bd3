import LuaMachine.Proofs.Machine.Triple
import Mathlib.Logic.ExistsUnique
import Mathlib.Tactic.ByContra

/-!
# Failures of arithmetic

An operator is first tried on the operands as they are; only where that is impossible, and no
handler decides, the operands are looked at again to find the one to blame.  The two looks agree:
whoever is blamed is in fact the reason, and where both operands convert as the operator needs it
nobody is.

## Main definitions

* `Operator.Suitable` : operands that convert as an operator needs it.
* `Operation.Ending` : how an arithmetic operation ends without handlers.

## Main statements

* `Operator.apply_of_suitable`, `Operator.apply_of_not_suitable` : when an operator can be applied.
* `Operation.arithmeticCause_eq` : who is blamed.
* `Operation.arithmetic_ends` : the cases of an arithmetic operation, of which exactly one occurs.
-/

namespace LuaMachine

namespace Operator

variable {op : Operator} {a b : Value}

/-- The operands convert to integers for a bitwise operator and to floats for any other. -/
def Suitable (op : Operator) (a b : Value) : Prop :=
  if op.isBitwise then a.toInteger?.isSome ∧ b.toInteger?.isSome
  else a.toFloat?.isSome ∧ b.toFloat?.isSome

theorem suitable_iff_of_bitwise (h : op.isBitwise = true) :
    op.Suitable a b ↔ a.toInteger?.isSome ∧ b.toInteger?.isSome := by
  rw [Suitable, if_pos h]

/-- What converts to a number converts to a float. -/
theorem suitable_iff_of_not_bitwise (h : op.isBitwise = false) :
    op.Suitable a b ↔ a.toNumber?.isSome ∧ b.toNumber?.isSome := by
  rw [Suitable, if_neg (by simp [h]), Value.toFloat?, Value.toFloat?, Option.isSome_map,
    Option.isSome_map]

/-- On two integers an operator fails only by dividing by zero. -/
theorem onIntegers_cases (op : Operator) (x y : Int64) :
    (∃ v, op.onIntegers x y = .value v) ∨
      y = 0 ∧ (op = floorDiv ∧ op.onIntegers x y = .divisionByZero ∨
        op = mod ∧ op.onIntegers x y = .moduloByZero) := by
  by_cases hy : y = 0
  · subst hy
    cases op with
    | floorDiv => exact .inr ⟨rfl, .inl ⟨rfl, rfl⟩⟩
    | mod => exact .inr ⟨rfl, .inr ⟨rfl, rfl⟩⟩
    | _ => exact .inl ⟨_, rfl⟩
  · have hzero : (y == 0) = false := beq_eq_false_iff_ne.2 hy
    cases op with
    | floorDiv | mod => exact .inl ⟨_, by simp only [onIntegers, hzero]; rfl⟩
    | _ => exact .inl ⟨_, rfl⟩

/-- A bitwise operator has a value for any two integers. -/
theorem exists_onIntegers_of_bitwise (h : op.isBitwise = true) (x y : Int64) :
    ∃ v, op.onIntegers x y = .value v := by
  obtain hv | ⟨-, ⟨rfl, -⟩ | ⟨rfl, -⟩⟩ := onIntegers_cases op x y
  · exact hv
  · cases h
  · cases h

/-- **Suitable operands.** An operator has a value for them, or it divides an integer by the integer
zero. -/
theorem apply_of_suitable (h : op.Suitable a b) :
    (∃ v, op.apply a b = .value v) ∨
      ((∃ x, a = .integer x) ∧ b = .integer 0) ∧
        (op = floorDiv ∧ op.apply a b = .divisionByZero ∨
          op = mod ∧ op.apply a b = .moduloByZero) := by
  cases hop : op.isBitwise with
  | true =>
    obtain ⟨ha, hb⟩ := (suitable_iff_of_bitwise hop).1 h
    obtain ⟨x, hx⟩ := Option.isSome_iff_exists.1 ha
    obtain ⟨y, hy⟩ := Option.isSome_iff_exists.1 hb
    left
    simpa only [apply, hop, if_true, applyIntegers, hx, hy] using
      exists_onIntegers_of_bitwise hop x y
  | false =>
    rw [Suitable, if_neg (by simp [hop])] at h
    obtain ⟨x, hx⟩ := Option.isSome_iff_exists.1 h.1
    obtain ⟨y, hy⟩ := Option.isSome_iff_exists.1 h.2
    have hfloats : ∃ v, op.applyFloats a b = .value v := ⟨_, by rw [applyFloats, hx, hy]⟩
    rw [apply.eq_def, hop, if_neg Bool.false_ne_true]
    split
    · next x y =>
      split
      · exact .inl hfloats
      · obtain hv | ⟨rfl, hzero⟩ := onIntegers_cases op x y
        · exact .inl hv
        · exact .inr ⟨⟨⟨x, rfl⟩, rfl⟩, hzero⟩
    · exact .inl hfloats

/-- **Unsuitable operands.** The operator is not applied to them. -/
theorem apply_of_not_suitable (h : ¬op.Suitable a b) : op.apply a b = .unsuitable := by
  cases hop : op.isBitwise with
  | true =>
    rw [suitable_iff_of_bitwise hop] at h
    rw [apply.eq_def, hop, if_pos rfl, applyIntegers]
    split
    · next ha hb => exact absurd ⟨by rw [ha]; rfl, by rw [hb]; rfl⟩ h
    · rfl
  | false =>
    have hfloats : op.applyFloats a b = .unsuitable := by
      rw [Suitable, if_neg (by simp [hop])] at h
      rw [applyFloats]
      split
      · next ha hb => exact absurd ⟨by rw [ha]; rfl, by rw [hb]; rfl⟩ h
      · rfl
    rw [apply.eq_def, hop, if_neg Bool.false_ne_true]
    split
    · exact absurd ((suitable_iff_of_not_bitwise hop).2 ⟨rfl, rfl⟩) h
    · exact hfloats

end Operator

namespace Operation

variable {m : Machine} {op : Operator} {a b : Value} {oa ob : Origin} {r : Resumption Value}

/-- What an operator tries to do, as complaints about operands put it. -/
def verb (op : Operator) : String :=
  if op.isBitwise then "perform bitwise operation on" else "perform arithmetic on"

/-- **Blame.** The first operand that converts to no number is to blame.  If both are numbers, it is
the first one that is no integer, and the operator is a bitwise one. -/
theorem arithmeticCause_eq (h : ¬op.Suitable a b) : arithmeticCause m op a b oa ob =
    if a.toNumber? = none then m.operandFault (verb op) a oa
    else if b.toNumber? = none then m.operandFault (verb op) b ob
    else .noInteger (m.originText (if a.toInteger? = none then oa else ob)) := by
  cases ha : a.toNumber? with
  | none => simp only [arithmeticCause, ha, verb, if_true]
  | some x =>
    cases hb : b.toNumber? with
    | none => simp only [arithmeticCause, ha, hb, verb, reduceCtorEq, if_true, if_false]
    | some y =>
      have hop : op.isBitwise = true := by
        rw [← Bool.not_eq_false]
        intro hop
        exact h ((Operator.suitable_iff_of_not_bitwise hop).2 ⟨by rw [ha]; rfl, by rw [hb]; rfl⟩)
      simp only [arithmeticCause, ha, hb, hop, reduceCtorEq, if_true, if_false,
        Option.isNone_iff_eq_none]

/-! ### Endings -/

/-- How an arithmetic operation ends if no handler is asked. -/
inductive Ending where
  /-- It has a value. -/
  | value
  /-- It divides by zero. -/
  | zeroDivisor
  /-- An operand is a number, but not one that the operator works on. -/
  | noInteger
  /-- An operand converts to no number. -/
  | noNumber

/-- What is the case when an operation ends in one of these ways with the outcome `r`. -/
def Ending.Describes (m : Machine) (op : Operator) (a b : Value) (oa ob : Origin)
    (r : Resumption Value) : Ending → Prop
  | value => ∃ v, r = .done m v
  | zeroDivisor => ((∃ x, a = .integer x) ∧ b = .integer 0) ∧
      (op = .floorDiv ∧ r = .stopped m (.failure (.of .divisionByZero)) ∨
        op = .mod ∧ r = .stopped m (.failure (.of .moduloByZero)))
  | noInteger => op.isBitwise = true ∧ (a.toNumber?.isSome ∧ b.toNumber?.isSome) ∧
      (a.toInteger? = none ∨ b.toInteger? = none) ∧
      r = .stopped m (.failure (.of
        (.noInteger (m.originText (if a.toInteger? = none then oa else ob)))))
  | noNumber =>
    if a.toNumber? = none then r = .stopped m (.failure (.of (m.operandFault (verb op) a oa)))
    else b.toNumber? = none ∧ r = .stopped m (.failure (.of (m.operandFault (verb op) b ob)))

/-- The outcome tells how an operation has ended. -/
def Ending.ofOutcome? : Resumption Value → Option Ending
  | .done .. => some value
  | .stopped _ (.failure e) =>
    match e.cause with
    | .divisionByZero | .moduloByZero => some zeroDivisor
    | .noInteger _ => some noInteger
    | .operand .. => some noNumber
    | _ => none
  | .stopped _ (.fault _) | .waiting .. => none

theorem Ending.Describes.ofOutcome? {e : Ending} (h : e.Describes m op a b oa ob r) :
    ofOutcome? r = some e := by
  cases e with
  | value =>
    obtain ⟨v, rfl⟩ := h
    rfl
  | zeroDivisor =>
    obtain ⟨-, ⟨-, rfl⟩ | ⟨-, rfl⟩⟩ := h
    · rfl
    · rfl
  | noInteger =>
    obtain ⟨-, -, -, rfl⟩ := h
    rfl
  | noNumber =>
    rw [Describes] at h
    split at h
    · subst h
      rfl
    · obtain ⟨-, rfl⟩ := h
      rfl

/-- Suitable operands give a value or a division by zero. -/
theorem describes_of_suitable (h : op.Suitable a b) :
    Ending.value.Describes m op a b oa ob (arithmetic op a b oa ob m) ∨
      Ending.zeroDivisor.Describes m op a b oa ob (arithmetic op a b oa ob m) := by
  obtain ⟨v, hv⟩ | ⟨hoperands, ⟨hop, hzero⟩ | ⟨hop, hzero⟩⟩ := Operator.apply_of_suitable h
  · exact .inl ⟨v, by rw [arithmetic, hv]; rfl⟩
  · exact .inr ⟨hoperands, .inl ⟨hop, by rw [arithmetic, hzero]; rfl⟩⟩
  · exact .inr ⟨hoperands, .inr ⟨hop, by rw [arithmetic, hzero]; rfl⟩⟩

/-- Without handlers unsuitable operands give a complaint. -/
theorem arithmetic_of_not_suitable (ha : m.handler? a (.arithmetic op) = none)
    (hb : m.handler? b (.arithmetic op) = none) (h : ¬op.Suitable a b) :
    arithmetic op a b oa ob m =
      .stopped m (.failure (.of (arithmeticCause m op a b oa ob))) := by
  have hhandler : m.binaryHandler? a b (.arithmetic op) = none := by
    rw [Machine.binaryHandler?, ha, hb, Option.or_none]
  rw [arithmetic, Operator.apply_of_not_suitable h]
  refine (Exec.bind_of_ok (x := get) rfl).trans ?_
  rw [hhandler]
  rfl

/-- The complaint is one of two kinds. -/
theorem describes_of_not_suitable (oa ob : Origin) (ha : m.handler? a (.arithmetic op) = none)
    (hb : m.handler? b (.arithmetic op) = none) (h : ¬op.Suitable a b) :
    Ending.noInteger.Describes m op a b oa ob (arithmetic op a b oa ob m) ∨
      Ending.noNumber.Describes m op a b oa ob (arithmetic op a b oa ob m) := by
  rw [arithmetic_of_not_suitable ha hb h, arithmeticCause_eq h]
  by_cases hna : a.toNumber? = none
  · right
    rw [Ending.Describes, if_pos hna, if_pos hna]
  · by_cases hnb : b.toNumber? = none
    · right
      rw [Ending.Describes, if_neg hna, if_neg hna, if_pos hnb]
      exact ⟨hnb, rfl⟩
    · left
      rw [if_neg hna, if_neg hnb]
      rw [← ne_eq, ← Option.isSome_iff_ne_none] at hna hnb
      have hop : op.isBitwise = true := by
        rw [← Bool.not_eq_false]
        exact fun hop => h ((Operator.suitable_iff_of_not_bitwise hop).2 ⟨hna, hnb⟩)
      rw [Operator.suitable_iff_of_bitwise hop] at h
      refine ⟨hop, ⟨hna, hnb⟩, ?_, rfl⟩
      by_contra hsome
      rw [not_or] at hsome
      exact h ⟨Option.isSome_iff_ne_none.2 hsome.1, Option.isSome_iff_ne_none.2 hsome.2⟩

/-- **Arithmetic without handlers.** Exactly one of four things happens: the operation has a value;
it divides an integer by the integer zero; it is a bitwise one on two numbers of which one is equal
to no integer, and the complaint is about the first of these; or it has an operand that converts to
no number, and the complaint is about the first of these.  One of the first two happens exactly if
both operands convert as the operator needs it. -/
theorem arithmetic_ends (m : Machine) (op : Operator) (a b : Value) (oa ob : Origin)
    (ha : m.handler? a (.arithmetic op) = none) (hb : m.handler? b (.arithmetic op) = none) :
    (∃! e : Ending, e.Describes m op a b oa ob (arithmetic op a b oa ob m)) ∧
      (op.Suitable a b ↔
        Ending.value.Describes m op a b oa ob (arithmetic op a b oa ob m) ∨
          Ending.zeroDivisor.Describes m op a b oa ob (arithmetic op a b oa ob m)) := by
  have hunique : ∀ e e' : Ending, e.Describes m op a b oa ob (arithmetic op a b oa ob m) →
      e'.Describes m op a b oa ob (arithmetic op a b oa ob m) → e = e' :=
    fun e e' he he' => Option.some.inj (he.ofOutcome?.symm.trans he'.ofOutcome?)
  constructor
  · suffices h : ∃ e : Ending, e.Describes m op a b oa ob (arithmetic op a b oa ob m) by
      obtain ⟨e, he⟩ := h
      exact ⟨e, he, fun e' he' => hunique e' e he' he⟩
    by_cases h : op.Suitable a b
    · exact (describes_of_suitable h).elim (⟨_, ·⟩) (⟨_, ·⟩)
    · exact (describes_of_not_suitable oa ob ha hb h).elim (⟨_, ·⟩) (⟨_, ·⟩)
  · refine ⟨describes_of_suitable, fun hgood => by_contra fun h => ?_⟩
    -- A complaint would be a second ending.
    have hbad := describes_of_not_suitable oa ob ha hb h
    rcases hgood with hgood | hgood <;> rcases hbad with hbad | hbad <;>
      cases hunique _ _ hgood hbad

/-- The bitwise union of 1.5 and a boolean. -/
theorem arithmetic_ends_union :
    (Machine.new {}).handler? (.float 0x3FF8000000000000) (.arithmetic .bitOr) = none ∧
      (Machine.new {}).handler? (.boolean true) (.arithmetic .bitOr) = none ∧
      (∃! e : Ending, e.Describes (Machine.new {}) .bitOr (.float 0x3FF8000000000000)
        (.boolean true) (.register 0) (.register 1)
        (arithmetic .bitOr (.float 0x3FF8000000000000) (.boolean true) (.register 0) (.register 1)
          (Machine.new {}))) :=
  ⟨rfl, rfl, (arithmetic_ends (Machine.new {}) .bitOr (.float 0x3FF8000000000000) (.boolean true)
    (.register 0) (.register 1) rfl rfl).1⟩

end Operation

end LuaMachine
