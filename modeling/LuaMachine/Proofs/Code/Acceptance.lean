import LuaMachine.Code.Verification

/-!
# What verification accepts

Verification of a prototype is a check of each instruction of each prototype in the tree of nested
prototypes.  This file reads the outcome off the tree, without the order of the checks, and
compares it with the registers, constants, upvalues and jump targets that the instructions use.

An instruction that stays inside what its prototype declares is accepted, with one exception: a
return or an expansion of extra arguments with a fixed count is accepted only if a register is left
over behind the last one that it uses.

## Main definitions

* `Prototype.IsPart` : the prototypes of a tree.
* `Instruction.usedRegisters`, `Instruction.usedUpvalues` : what an instruction uses of its frame and
  of its closure.
* `Prototype.Contains` : an instruction stays inside what its prototype declares.
* `Prototype.IsTight` : a return or expansion ends at the last register.

## Main statements

* `Prototype.verify_eq_ok_iff` : acceptance of a tree is acceptance of its parts.
* `Prototype.operandsFit_iff_of_contains` : which of the contained instructions are accepted.
* `Prototype.verify_eq_ok_iff_of_contained` : which of the contained trees are accepted.
-/

namespace LuaMachine

/-! ### Parts of a tree -/

namespace Prototype

/-- A prototype is part of another: it is the same or nested in it at some depth. -/
inductive IsPart : Prototype → Prototype → Prop where
  | self (p : Prototype) : IsPart p p
  | nested {q child p : Prototype} : child ∈ p.children → IsPart q child → IsPart q p

theorem verify_eq (p : Prototype) :
    p.verify = p.verifyOwn.bind fun _ => verifyAll p.children := by
  cases p
  rw [verify]
  rfl

private theorem bind_eq_ok_iff {x y : Except Defect Unit} :
    (x.bind fun _ => y) = .ok () ↔ x = .ok () ∧ y = .ok () := by
  cases x <;> simp [Except.bind]

theorem verifyAll_eq_ok_iff {ps : List Prototype} :
    verifyAll ps = .ok () ↔ ∀ p ∈ ps, p.verify = .ok () := by
  induction ps with
  | nil => simp [verifyAll]
  | cons p rest ih =>
    rw [verifyAll]
    exact bind_eq_ok_iff.trans (by rw [ih, List.forall_mem_cons])

theorem verifyOwn_of_isPart {q p : Prototype} (h : p.verify = .ok ()) (hpart : q.IsPart p) :
    q.verifyOwn = .ok () := by
  induction hpart with
  | self =>
    rw [verify_eq] at h
    exact (bind_eq_ok_iff.1 h).1
  | nested hchild _ ih =>
    rw [verify_eq] at h
    exact ih (verifyAll_eq_ok_iff.1 (bind_eq_ok_iff.1 h).2 _ hchild)

/-- **Acceptance of a tree.** A prototype is accepted if each prototype of its tree passes the
check of its own instructions. -/
theorem verify_eq_ok_iff {p : Prototype} :
    p.verify = .ok () ↔ ∀ q : Prototype, q.IsPart p → q.verifyOwn = .ok () := by
  refine ⟨fun h q hpart => verifyOwn_of_isPart h hpart, fun h => ?_⟩
  induction hsize : sizeOf p using Nat.strongRecOn generalizing p with
  | ind n ih =>
    rw [verify_eq, bind_eq_ok_iff, verifyAll_eq_ok_iff]
    refine ⟨h p (.self p), fun child hchild => ih (sizeOf child) ?_ (fun q hq =>
      h q (.nested hchild hq)) rfl⟩
    have hlist := List.sizeOf_lt_of_mem hchild
    have hfield : sizeOf p.children < sizeOf p := by
      cases p
      simp only [mk.sizeOf_spec]
      omega
    omega

/-- The prototypes nested in one that is accepted are accepted. -/
theorem verify_of_mem_children {p child : Prototype} (h : p.verify = .ok ())
    (hchild : child ∈ p.children) : child.verify = .ok () := by
  rw [verify_eq, bind_eq_ok_iff, verifyAll_eq_ok_iff] at h
  exact h.2 child hchild

/-! ### Acceptance of one prototype -/

theorem verifyInstruction_eq_ok_iff {p : Prototype} {pc : Nat} {i : Instruction} :
    p.verifyInstruction pc i = .ok () ↔
      ∃ op, i.opcode? = some op ∧ p.operandsFit pc op i = true ∧
        (op.format = .asbx → p.jumpFits pc i = true) := by
  simp only [verifyInstruction]
  cases i.opcode? with
  | none => simp
  | some op =>
    cases hfit : p.operandsFit pc op i <;> cases hjump : p.jumpFits pc i <;>
      cases hformat : op.format <;> simp [hfit, hformat]

private theorem forM_eq_ok_iff {α : Type} {f : α → Except Defect Unit} {xs : List α} :
    xs.forM f = .ok () ↔ ∀ x ∈ xs, f x = .ok () := by
  induction xs with
  | nil => simp [pure, Except.pure]
  | cons x rest ih =>
    rw [List.forall_mem_cons, ← ih]
    exact bind_eq_ok_iff

/-- A prototype is accepted without its tree if its parameters have registers and each of its
instructions is accepted. -/
theorem verifyOwn_eq_ok_iff {p : Prototype} :
    p.verifyOwn = .ok () ↔ p.parameters ≤ p.registers ∧
      ∀ (pc : Nat) (i : Instruction), p.code[pc]? = some i →
        p.verifyInstruction pc i = .ok () := by
  simp only [verifyOwn]
  split
  · next h => simp [Nat.not_le.2 h]
  · next h =>
    simp only [forM_eq_ok_iff, Nat.not_lt.1 h, true_and, Prod.forall,
      List.mk_mem_zipIdx_iff_getElem?, Array.getElem?_toList]
    exact forall_comm

end Prototype

/-! ### What an instruction uses -/

/-- The registers among nine-bit operands. -/
def Operand.registers (fields : List Nat) : List Nat :=
  fields.filterMap fun field =>
    match ofField field with
    | .register r => some r
    | .constant _ => none

/-- The constants among nine-bit operands. -/
def Operand.constants (fields : List Nat) : List Nat :=
  fields.filterMap fun field =>
    match ofField field with
    | .register _ => none
    | .constant k => some k

namespace Opcode

/-- Whether the operand `A` is a register. -/
def namesRegister : Opcode → Bool
  | setTableUpvalue | equal | lessThan | lessEqual | jump | extraArgument => false
  | _ => true

/-- Whether the operation may continue at a target that is given by `sBx`. -/
def jumps : Opcode → Bool
  | jump | forLoop | forPrepare | iteratorLoop => true
  | _ => false

end Opcode

namespace Instruction

/-- The operands that may name a register or a constant. -/
def namedOperands (i : Instruction) : Opcode → List Nat
  | .getTableUpvalue | .getTable | .self => [i.c]
  | .setTableUpvalue | .setTable
  | .add | .sub | .mul | .mod | .pow | .div | .floorDiv
  | .bitAnd | .bitOr | .bitXor | .shiftLeft | .shiftRight
  | .equal | .lessThan | .lessEqual => [i.b, i.c]
  | _ => []

/-- The registers that an instruction uses besides `A` and its named operands.  A count of zero
stands for a number of values that is only known when the code runs. -/
def usedRegisters (i : Instruction) : Opcode → List Nat
  | .move | .getTable | .negate | .bitNot | .not | .length | .testSet => [i.b]
  | .loadNil => List.range' i.a (i.b + 1)
  | .self => [i.a, i.a + 1, i.b]
  | .concat => List.range' i.b (i.c + 1 - i.b)
  | .call | .tailCall => List.range' i.a i.b
  | .ret | .vararg => List.range' i.a (i.b - 1)
  | .forLoop | .forPrepare => List.range' i.a 4
  | .iteratorCall => List.range' i.a (3 + max i.c 1)
  | .iteratorLoop => [i.a, i.a + 1]
  | .setList => if i.b = 0 then [] else List.range' i.a (i.b + 1)
  | _ => []

/-- The upvalues that an instruction uses. -/
def usedUpvalues (i : Instruction) : Opcode → List Nat
  | .getUpvalue | .setUpvalue | .getTableUpvalue => [i.b]
  | .setTableUpvalue => [i.a]
  | _ => []

end Instruction

namespace Prototype

/-- The instruction after `pc` carries an extra operand with the given property. -/
def HasExtra (p : Prototype) (pc : Nat) (P : Nat → Prop) : Prop :=
  ∃ extra : Instruction, p.code[pc + 1]? = some extra ∧ extra.opcode? = some .extraArgument ∧
    P extra.ax

/-- The instruction `i` at `pc`, with operation `op`, stays inside what the prototype declares. -/
structure Contains (p : Prototype) (pc : Nat) (op : Opcode) (i : Instruction) : Prop where
  a : op.namesRegister → i.a < p.registers
  registers : ∀ r ∈ i.usedRegisters op ++ Operand.registers (i.namedOperands op), r < p.registers
  ordered : op = .concat → i.b ≤ i.c
  constants : ∀ k ∈ Operand.constants (i.namedOperands op), k < p.constants.size
  constant : op = .loadConstant → i.bx < p.constants.size
  extraConstant : op = .loadConstantExtra → p.HasExtra pc (· < p.constants.size)
  extra : op = .setList → i.c = 0 → p.HasExtra pc fun _ => True
  upvalues : ∀ u ∈ i.usedUpvalues op, u < p.upvalues.length
  child : op = .closure → ∃ child, p.children[i.bx]? = some child ∧
    ∀ u ∈ child.upvalues, u.index < if u.inStack then p.registers else p.upvalues.length
  target : op.jumps → 0 ≤ (pc : Int) + 1 + i.sbx ∧ (pc : Int) + 1 + i.sbx ≤ p.code.size

/-- Each instruction of the prototype stays inside what the prototype declares. -/
def Contained (p : Prototype) : Prop :=
  p.parameters ≤ p.registers ∧ ∀ (pc : Nat) (i : Instruction), p.code[pc]? = some i →
    ∃ op, i.opcode? = some op ∧ p.Contains pc op i

/-- A return or an expansion of extra arguments, with a fixed count of at least one value, uses the
last register of the frame. -/
def IsTight (p : Prototype) (op : Opcode) (i : Instruction) : Prop :=
  (op = .ret ∨ op = .vararg) ∧ 2 ≤ i.b ∧ i.a + i.b = p.registers + 1

/-! ### Contained instructions -/

theorem hasOperand_iff {p : Prototype} {field : Nat} :
    p.hasOperand field = true ↔ (∀ r, Operand.ofField field = .register r → r < p.registers) ∧
      ∀ k, Operand.ofField field = .constant k → k < p.constants.size := by
  simp only [hasOperand, hasRegister, hasConstant]
  cases Operand.ofField field <;> simp

theorem extraAfter?_eq_some_iff {p : Prototype} {pc : Nat} {extra : Instruction} :
    p.extraAfter? pc = some extra ↔
      p.code[pc + 1]? = some extra ∧ extra.opcode? = some .extraArgument := by
  simp [extraAfter?, Option.filter_eq_some_iff]

namespace Contains

variable {p : Prototype} {pc : Nat} {op : Opcode} {i : Instruction}

theorem hasOperand (h : p.Contains pc op i) {field : Nat} (hfield : field ∈ i.namedOperands op) :
    p.hasOperand field = true := by
  refine hasOperand_iff.2 ⟨fun r hr => h.registers r (List.mem_append_right _ ?_), fun k hk =>
    h.constants k ?_⟩
  · exact List.mem_filterMap.2 ⟨field, hfield, by rw [hr]⟩
  · exact List.mem_filterMap.2 ⟨field, hfield, by rw [hk]⟩

theorem usedRegister (h : p.Contains pc op i) {r : Nat} (hr : r ∈ i.usedRegisters op) :
    r < p.registers :=
  h.registers r (List.mem_append_left _ hr)

/-- A run of registers that is used reaches at most to the end of the frame. -/
theorem run_le (h : p.Contains pc op i) {first count : Nat} (hcount : 0 < count)
    (hrun : i.usedRegisters op = List.range' first count) : first + count ≤ p.registers := by
  have hlast : first + count - 1 ∈ i.usedRegisters op := by
    rw [hrun, List.mem_range'_1]
    omega
  have := h.usedRegister hlast
  omega

end Contains

/-- **Contained instructions.** The operands of a contained instruction are accepted, unless it is
a return or an expansion that ends at the last register. -/
theorem operandsFit_iff_of_contains {p : Prototype} {pc : Nat} {op : Opcode} {i : Instruction}
    (h : p.Contains pc op i) : p.operandsFit pc op i = true ↔ ¬p.IsTight op i := by
  have ha := h.a
  have hoperand := @h.hasOperand
  have hregister := @h.usedRegister
  have hupvalue := h.upvalues
  have hconstant := h.constant
  cases op with
  | ret | vararg =>
    have ha := ha rfl
    have hrun : 2 ≤ i.b → i.a + (i.b - 1) ≤ p.registers := fun hb => h.run_le (by omega) rfl
    simp only [operandsFit, IsTight, Prototype.hasRegister, Bool.and_eq_true, Bool.or_eq_true,
      decide_eq_true_eq, beq_iff_eq, reduceCtorEq, or_true, or_false, true_and]
    omega
  | call | tailCall =>
    have ha := ha rfl
    have hrun : 0 < i.b → i.a + i.b ≤ p.registers := fun hb => h.run_le hb rfl
    simp only [operandsFit, IsTight, Prototype.hasRegister, Bool.and_eq_true, Bool.or_eq_true,
      decide_eq_true_eq, beq_iff_eq, reduceCtorEq, or_self, false_and, not_false_eq_true, iff_true]
    omega
  | loadNil =>
    have hrun : i.a + i.b < p.registers := h.run_le (Nat.succ_pos _) rfl
    simpa [operandsFit, IsTight, Prototype.hasRegister] using hrun
  | forLoop | forPrepare =>
    have hrun : i.a + 3 < p.registers := h.run_le (by decide) rfl
    simpa [operandsFit, IsTight, Prototype.hasRegister] using hrun
  | iteratorCall =>
    have hrun : i.a + (3 + max i.c 1) ≤ p.registers := h.run_le (by omega) rfl
    simpa [operandsFit, IsTight, Nat.add_assoc] using hrun
  | concat =>
    have hordered := h.ordered rfl
    have hrun : i.b + (i.c + 1 - i.b) ≤ p.registers := h.run_le (by omega) rfl
    have hc : i.c < p.registers := by omega
    simp [operandsFit, IsTight, Prototype.hasRegister, ha rfl, hordered, hc]
  | setList =>
    have hrun : i.b = 0 ∨ i.a + i.b < p.registers :=
      (Decidable.em (i.b = 0)).imp_right fun hb => h.run_le (Nat.succ_pos _) (if_neg hb)
    have hextra : i.c ≠ 0 ∨ (p.extraAfter? pc).isSome = true := by
      refine (Decidable.em (i.c = 0)).symm.imp_right fun hc => ?_
      obtain ⟨extra, hcode, hop, -⟩ := h.extra rfl hc
      rw [extraAfter?_eq_some_iff.2 ⟨hcode, hop⟩]
      rfl
    simp [operandsFit, IsTight, Prototype.hasRegister, hrun, hextra]
  | loadConstantExtra =>
    obtain ⟨extra, hcode, hop, hk⟩ := h.extraConstant rfl
    have hextra := extraAfter?_eq_some_iff.2 ⟨hcode, hop⟩
    simp [operandsFit, IsTight, Prototype.hasRegister, hasConstant, ha rfl, hextra, hk]
  | closure =>
    obtain ⟨child, hget, hcapture⟩ := h.child rfl
    have hcapture : p.canCapture child = true := by
      simp only [canCapture, List.all_eq_true]
      intro u hu
      have := hcapture u hu
      split at this <;> simp_all [Prototype.hasRegister, hasUpvalue]
    simp [operandsFit, IsTight, Prototype.hasRegister, ha rfl, hget, hcapture]
  | _ =>
    simp only [Opcode.namesRegister, Instruction.usedRegisters, Instruction.namedOperands,
      Instruction.usedUpvalues, List.forall_mem_cons] at ha hoperand hregister hupvalue
    simp [operandsFit, IsTight, Prototype.hasRegister, hasConstant, hasUpvalue, *]

theorem jumps_iff {op : Opcode} : op.jumps = true ↔ op.format = .asbx := by
  cases op <;> decide

theorem verifyInstruction_eq_ok_iff_of_contains {p : Prototype} {pc : Nat} {op : Opcode}
    {i : Instruction} (hop : i.opcode? = some op) (h : p.Contains pc op i) :
    p.verifyInstruction pc i = .ok () ↔ ¬p.IsTight op i := by
  rw [verifyInstruction_eq_ok_iff, ← operandsFit_iff_of_contains h]
  refine ⟨fun ⟨op', hop', hfit, _⟩ => ?_, fun hfit => ⟨op, hop, hfit, fun hformat => ?_⟩⟩
  · rw [Option.some.inj (hop.symm.trans hop')]
    exact hfit
  · simpa [jumpFits] using h.target (jumps_iff.2 hformat)

/-- **Contained trees.** A tree of prototypes in which each instruction stays inside what its
prototype declares is accepted exactly if none of its returns and expansions with a fixed count
ends at the last register of its frame. -/
theorem verify_eq_ok_iff_of_contained {p : Prototype}
    (h : ∀ q : Prototype, q.IsPart p → q.Contained) :
    p.verify = .ok () ↔ ∀ q : Prototype, q.IsPart p → ∀ (pc : Nat) (i : Instruction) (op : Opcode),
      q.code[pc]? = some i → i.opcode? = some op → ¬q.IsTight op i := by
  rw [verify_eq_ok_iff]
  refine forall₂_congr fun q hpart => ?_
  obtain ⟨hparameters, hcode⟩ := h q hpart
  rw [verifyOwn_eq_ok_iff, and_iff_right hparameters]
  refine forall₂_congr fun pc i => ⟨fun hverify op hi hop => ?_, fun htight hi => ?_⟩
  · obtain ⟨op', hop', hcontains⟩ := hcode pc i hi
    obtain rfl : op' = op := Option.some.inj (hop'.symm.trans hop)
    exact (verifyInstruction_eq_ok_iff_of_contains hop hcontains).1 (hverify hi)
  · obtain ⟨op, hop, hcontains⟩ := hcode pc i hi
    exact (verifyInstruction_eq_ok_iff_of_contains hop hcontains).2 (htight op hi hop)

/-- A function that stores a value in its first register and returns it. -/
def returnFirst (registers : Nat) : Prototype where
  code := #[.abc .loadBoolean 0 1 0, .abc .ret 0 2 0]
  registers := registers

theorem contained_of_isPart_returnFirst {n : Nat} (hn : 0 < n) {q : Prototype}
    (hq : q.IsPart (returnFirst n)) : q.Contained := by
  cases hq with
  | nested hchild _ => cases hchild
  | self =>
    refine ⟨Nat.zero_le n, fun pc i hi => ?_⟩
    match pc, hi with
    | 0, hi =>
      obtain rfl : .abc .loadBoolean 0 1 0 = i := Option.some.inj hi
      refine ⟨.loadBoolean, by decide, ?_⟩
      constructor
      case a => exact fun _ => hn
      all_goals simp [Instruction.usedRegisters, Instruction.namedOperands, Operand.registers,
        Operand.constants, Instruction.usedUpvalues, Opcode.jumps]
    | 1, hi =>
      obtain rfl : .abc .ret 0 2 0 = i := Option.some.inj hi
      refine ⟨.ret, by decide, ?_⟩
      constructor
      case a => exact fun _ => hn
      case registers =>
        intro r hr
        obtain rfl : r = 0 := by simpa using (show r ∈ [0] from hr)
        exact hn
      all_goals simp [Instruction.namedOperands, Operand.constants, Instruction.usedUpvalues,
        Opcode.jumps]

/-- With a second register the function is accepted. -/
theorem verify_returnFirst_two :
    (∀ q : Prototype, q.IsPart (returnFirst 2) → q.Contained) ∧ (returnFirst 2).verify = .ok () := by
  have hcontained : ∀ q : Prototype, q.IsPart (returnFirst 2) → q.Contained := fun q hq =>
    contained_of_isPart_returnFirst (by decide) hq
  refine ⟨hcontained, (verify_eq_ok_iff_of_contained hcontained).2 fun q hq pc i op hi hop => ?_⟩
  rintro ⟨-, -, htight⟩
  cases hq with
  | nested hchild _ => cases hchild
  | self =>
    match pc, hi with
    | 0, hi =>
      obtain rfl : .abc .loadBoolean 0 1 0 = i := Option.some.inj hi
      exact absurd htight (by decide)
    | 1, hi =>
      obtain rfl : .abc .ret 0 2 0 = i := Option.some.inj hi
      exact absurd htight (by decide)

/-- With one register it is rejected, although it uses that register alone. -/
theorem verify_returnFirst_one :
    (∀ q : Prototype, q.IsPart (returnFirst 1) → q.Contained) ∧
      (returnFirst 1).verify = .error (.operand "=?" .ret 1) :=
  ⟨fun _ hq => contained_of_isPart_returnFirst (by decide) hq, rfl⟩

end Prototype

end LuaMachine
