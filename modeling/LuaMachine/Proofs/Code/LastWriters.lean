import LuaMachine.Code.Provenance
import Mathlib.Logic.Function.Iterate
import Mathlib.Order.MinMax

/-!
# The last writer of a register

What a register holds was written by the last instruction before that writes it, provided that this
instruction was not jumped over.  One walk through the code finds it: it keeps the last writer and
the furthest target of the forward jumps so far.  An instruction that stands before that target may
have been skipped on the way to the place in question, and if it writes the register, nothing is
known of the register until the next writer.

The search for a name goes from a register to the one from which, or by whose value, its last writer
loaded it, and looks for that one's name at the writer.  So it asks at earlier places only, and ends
for every prototype, whatever its code is.

## Main definitions

* `Instruction.Overwrites` : an instruction writes a register.
* `Prototype.LastWrite` : the last of the first instructions that writes a register.
* `Prototype.JumpsOver` : a jump leads over a place, but not past another one.
* `Prototype.Search.Covers` : what the walk knows after a number of instructions.
* `Prototype.nameBy` : one step of the search for a name.

## Main statements

* `Prototype.Search.Covers.advance` : one instruction of the walk.
* `Prototype.lastWriter?_eq_some_iff` : what the walk finds.
* `Prototype.iterate_nameBy` : the search for a name ends.
* `Prototype.lastWriter?_certain` : the last writer, and the search for a name.
-/

namespace LuaMachine

/-! ### Writing instructions -/

/-- The instruction writes register `r`: it fills a run of registers with nil, it stores results or
items from a register on, or it stores one result in register `A`. -/
inductive Instruction.Overwrites (i : Instruction) (r : Nat) : Prop
  | nils (hop : i.opcode? = some .loadNil) (hlow : i.a ≤ r) (hhigh : r ≤ i.a + i.b)
  | results (hop : i.opcode? = some .call ∨ i.opcode? = some .tailCall) (hlow : i.a ≤ r)
  | items (hop : i.opcode? = some .iteratorCall) (hlow : i.a + 2 ≤ r)
  | result {op : Opcode} (hop : i.opcode? = some op)
      (hother : op ≠ .loadNil ∧ op ≠ .call ∧ op ≠ .tailCall ∧ op ≠ .iteratorCall)
      (hsets : op.setsA = true) (ha : i.a = r)

theorem Instruction.writes_eq_true_iff {i : Instruction} {r : Nat} :
    i.writes r = true ↔ i.Overwrites r := by
  constructor
  · intro h
    unfold Instruction.writes at h
    split at h
    · cases h
    · next hop =>
      rw [Bool.and_eq_true, decide_eq_true_iff, decide_eq_true_iff] at h
      exact .nils hop h.1 h.2
    · next hop => exact .items hop (of_decide_eq_true h)
    · next hop => exact .results (.inl hop) (of_decide_eq_true h)
    · next hop => exact .results (.inr hop) (of_decide_eq_true h)
    · next op hnil hitems hcall htail hop =>
      rw [Bool.and_eq_true, beq_iff_eq] at h
      exact .result hop ⟨hnil, hcall, htail, hitems⟩ h.1 h.2
  · rintro (⟨hop, hlow, hhigh⟩ | ⟨hop | hop, hlow⟩ | ⟨hop, hlow⟩ | ⟨hop, hother, hsets, ha⟩)
    · rw [Instruction.writes, hop]
      exact Bool.and_eq_true_iff.2 ⟨decide_eq_true hlow, decide_eq_true hhigh⟩
    · rw [Instruction.writes, hop]
      exact decide_eq_true hlow
    · rw [Instruction.writes, hop]
      exact decide_eq_true hlow
    · rw [Instruction.writes, hop]
      exact decide_eq_true hlow
    · have heq {op' : Opcode} (h : i.opcode? = some op') : _ = op' :=
        Option.some.inj (hop.symm.trans h)
      unfold Instruction.writes
      split
      · next h => exact absurd (hop.symm.trans h) (Option.some_ne_none _)
      · next h => exact absurd (heq h) hother.1
      · next h => exact absurd (heq h) hother.2.2.2
      · next h => exact absurd (heq h) hother.2.1
      · next h => exact absurd (heq h) hother.2.2.1
      · next h =>
        rw [← heq h, hsets, ha, Bool.true_and, beq_self_eq_true]

namespace Prototype

variable {p : Prototype} {last r n pc q : Nat} {s : Search} {i : Instruction}

/-- The instruction at `pc` writes register `r`. -/
def WritesAt (p : Prototype) (r pc : Nat) : Prop :=
  ∃ i, p.code[pc]? = some i ∧ i.Overwrites r

/-- Of the first `n` instructions, the one at `pc` is the last that writes register `r`. -/
structure LastWrite (p : Prototype) (r n pc : Nat) : Prop where
  lt : pc < n
  writes : p.WritesAt r pc
  latest : ∀ q, pc < q → q < n → ¬p.WritesAt r q

/-- The jump at `q` leads behind `pc`, but not past `last`. -/
def JumpsOver (p : Prototype) (last q pc : Nat) : Prop :=
  ∃ i, p.code[q]? = some i ∧ i.opcode? = some .jump ∧
    (pc : Int) < q + 1 + i.sbx ∧ q + 1 + i.sbx ≤ last

theorem writesAt_iff (hi : p.code[pc]? = some i) : p.WritesAt r pc ↔ i.writes r = true := by
  rw [Instruction.writes_eq_true_iff]
  refine ⟨?_, fun h => ⟨i, hi, h⟩⟩
  rintro ⟨i', hi', h⟩
  rw [hi] at hi'
  exact Option.some.inj hi' ▸ h

theorem WritesAt.lt_size (h : p.WritesAt r pc) : pc < p.code.size := by
  obtain ⟨i, hi, -⟩ := h
  exact (Array.getElem?_eq_some_iff.1 hi).1

/-- An instruction that does not write changes nothing. -/
theorem lastWrite_succ_of_not_writesAt (h : ¬p.WritesAt r n) :
    p.LastWrite r (n + 1) pc ↔ p.LastWrite r n pc := by
  constructor
  · rintro ⟨hlt, hwrites, hlatest⟩
    have hne : pc ≠ n := fun heq => h (heq ▸ hwrites)
    exact ⟨by omega, hwrites, fun q hq hqn => hlatest q hq (by omega)⟩
  · rintro ⟨hlt, hwrites, hlatest⟩
    refine ⟨by omega, hwrites, fun q hq hqn => ?_⟩
    obtain rfl | hlt' : q = n ∨ q < n := by omega
    · exact h
    · exact hlatest q hq hlt'

/-- An instruction that writes is the last one. -/
theorem lastWrite_succ_of_writesAt (h : p.WritesAt r n) : p.LastWrite r (n + 1) pc ↔ pc = n := by
  refine ⟨fun hlast => ?_, ?_⟩
  · by_contra hne
    have hlt := hlast.lt
    exact hlast.latest n (by omega) (Nat.lt_succ_self n) h
  · rintro rfl
    exact ⟨Nat.lt_succ_self pc, h, fun q hq hqn => absurd hq (by omega)⟩

/-- Only the instructions that exist count. -/
theorem lastWrite_min_size : p.LastWrite r (min n p.code.size) pc ↔ p.LastWrite r n pc := by
  constructor
  · rintro ⟨hlt, hwrites, hlatest⟩
    exact ⟨by omega, hwrites, fun q hq hqn hw =>
      hlatest q hq (Nat.lt_min.2 ⟨hqn, hw.lt_size⟩) hw⟩
  · rintro ⟨hlt, hwrites, hlatest⟩
    exact ⟨Nat.lt_min.2 ⟨hlt, hwrites.lt_size⟩, hwrites, fun q hq hqn =>
      hlatest q hq (by omega)⟩

/-! ### The walk -/

/-- What the walk knows after `n` instructions: the last writer, unless a jump leads over it, and
whether a jump so far leads over a place that is still to come. -/
structure Search.Covers (p : Prototype) (last r n : Nat) (s : Search) : Prop where
  writer_iff : ∀ pc, s.writer = some pc ↔
    p.LastWrite r n pc ∧ ∀ q < pc, ¬p.JumpsOver last q pc
  frontier_iff : ∀ pc, n ≤ pc → (pc < s.frontier ↔ ∃ q < n, p.JumpsOver last q pc)

theorem Search.covers_zero (p : Prototype) (last r : Nat) : Search.Covers p last r 0 {} where
  writer_iff pc := by
    refine iff_of_false (by rintro ⟨⟩) ?_
    rintro ⟨h, -⟩
    exact absurd h.lt (Nat.not_lt_zero pc)
  frontier_iff pc _ := by
    refine iff_of_false (Nat.not_lt_zero pc) ?_
    rintro ⟨q, hq, -⟩
    exact absurd hq (Nat.not_lt_zero q)

/-- The jump at `n` moves the frontier over a later place exactly if it leads over that place. -/
theorem lt_forwardTarget_iff (hi : p.code[n]? = some i) (hpc : n < pc) :
    pc < (forwardTarget? i n last).getD 0 ↔ p.JumpsOver last n pc := by
  have hjumps : p.JumpsOver last n pc ↔
      i.opcode? = some .jump ∧ (pc : Int) < n + 1 + i.sbx ∧ n + 1 + i.sbx ≤ last := by
    refine ⟨?_, fun h => ⟨i, hi, h⟩⟩
    rintro ⟨i', hi', h⟩
    rw [hi] at hi'
    exact Option.some.inj hi' ▸ h
  rw [hjumps, forwardTarget?]
  split
  · next h =>
    rw [Option.getD_some]
    have hforward := h.2.1
    exact ⟨fun hlt => ⟨h.1, by omega, h.2.2⟩, fun hj => by have := hj.2.1; omega⟩
  · next h =>
    refine iff_of_false (Nat.not_lt_zero pc) fun hj => h ⟨hj.1, ?_, hj.2.2⟩
    have hover := hj.2.1
    omega

/-- **One instruction of the walk.** -/
theorem Search.Covers.advance (h : Search.Covers p last r n s) :
    Search.Covers p last r (n + 1) (s.advance p last r n) := by
  rw [Search.advance]
  split
  · next hnone =>
    have hw : ¬p.WritesAt r n := by
      rintro ⟨i, hi, -⟩
      rw [hnone] at hi
      cases hi
    refine ⟨fun pc => ?_, fun pc hpc => ?_⟩
    · rw [h.writer_iff, lastWrite_succ_of_not_writesAt hw]
    · rw [h.frontier_iff pc (by omega)]
      refine exists_congr fun q => and_congr_left ?_
      rintro ⟨i, hi, -⟩
      have hne : q ≠ n := by
        rintro rfl
        rw [hnone] at hi
        cases hi
      omega
  · next i hi =>
    refine ⟨fun pc => ?_, fun pc hpc => ?_⟩
    · dsimp only
      by_cases hw : i.writes r = true
      · rw [if_pos hw, lastWrite_succ_of_writesAt ((writesAt_iff hi).2 hw)]
        have hskipped := h.frontier_iff n (Nat.le_refl n)
        split
        · next hle =>
          have hreached : ∀ q < n, ¬p.JumpsOver last q n := fun q hq hj =>
            Nat.not_lt.2 hle (hskipped.2 ⟨q, hq, hj⟩)
          refine ⟨fun heq => ?_, fun heq => by rw [heq.1]⟩
          obtain rfl := Option.some.inj heq
          exact ⟨rfl, hreached⟩
        · next hlt =>
          obtain ⟨q, hq, hj⟩ := hskipped.1 (Nat.not_le.1 hlt)
          refine iff_of_false (by rintro ⟨⟩) ?_
          rintro ⟨rfl, hreached⟩
          exact hreached q hq hj
      · rw [if_neg hw, h.writer_iff,
          lastWrite_succ_of_not_writesAt (mt (writesAt_iff hi).1 hw)]
    · dsimp only
      rw [lt_max_iff, h.frontier_iff pc (by omega), lt_forwardTarget_iff hi (by omega)]
      constructor
      · rintro (⟨q, hq, hj⟩ | hj)
        · exact ⟨q, by omega, hj⟩
        · exact ⟨n, Nat.lt_succ_self n, hj⟩
      · rintro ⟨q, hq, hj⟩
        obtain rfl | hlt : q = n ∨ q < n := by omega
        · exact .inr hj
        · exact .inl ⟨q, hlt, hj⟩

/-- What the walk knows after any number of instructions. -/
theorem Search.covers_range (p : Prototype) (last r n : Nat) :
    Search.Covers p last r n ((List.range n).foldl (Search.advance p last r) {}) := by
  induction n with
  | zero => exact Search.covers_zero p last r
  | succ n ih =>
    rw [List.range_succ, List.foldl_append]
    exact ih.advance

/-- **The last writer.** It is the last instruction before `last` that writes the register, unless a
jump before it leads over it. -/
theorem lastWriter?_eq_some_iff : p.lastWriter? last r = some pc ↔
    p.LastWrite r last pc ∧ ∀ q < pc, ¬p.JumpsOver last q pc := by
  rw [lastWriter?, (Search.covers_range p last r _).writer_iff, lastWrite_min_size]

theorem lastWriter?_eq_none_iff : p.lastWriter? last r = none ↔
    ∀ pc, p.LastWrite r last pc → ∃ q < pc, p.JumpsOver last q pc := by
  rw [Option.eq_none_iff_forall_ne_some]
  refine forall_congr' fun pc => ?_
  rw [ne_eq, lastWriter?_eq_some_iff]
  simp only [not_and, not_forall, not_not, exists_prop]

/-! ### The search for a name -/

/-- The name of the value in register `r` just before the instruction at `last`, where `name` gives
the names at other places. -/
def nameBy (p : Prototype) (name : Nat → Nat → Option Designation) (last r : Nat) :
    Option Designation :=
  match p.localName? (r + 1) last with
  | some found => some ⟨.localVariable, found⟩
  | none =>
    match p.lastWriter? last r with
    | none => none
    | some pc =>
      match p.code[pc]? with
      | none => none
      | some i =>
        match i.opcode? with
        | some .move => if i.b < i.a then name pc i.b else none
        | some .getTableUpvalue =>
          some ⟨fieldRole (some (p.upvalueName i.b)), p.keyName i.c (name pc)⟩
        | some .getTable =>
          some ⟨fieldRole (p.localName? (i.b + 1) pc), p.keyName i.c (name pc)⟩
        | some .getUpvalue => some ⟨.upvalue, p.upvalueName i.b⟩
        | some .loadConstant => (p.stringConstant? i.bx).map (⟨.constant, ·⟩)
        | some .loadConstantExtra =>
          p.code[pc + 1]?.bind fun extra => (p.stringConstant? extra.ax).map (⟨.constant, ·⟩)
        | some .self => some ⟨.method, p.keyName i.c (name pc)⟩
        | _ => none

variable {name name' : Nat → Nat → Option Designation}

/-- The search consists of such steps. -/
theorem objectName?_eq_nameBy (p : Prototype) (last r : Nat) :
    p.objectName? last r = p.nameBy p.objectName? last r := by
  rw [objectName?, nameBy]
  cases p.localName? (r + 1) last with
  | some _ => rfl
  | none =>
    dsimp only
    split
    · next hnone => rw [hnone]
    · next pc hpc =>
      rewrite [hpc]
      rfl

/-- A step asks for names at the last writer only. -/
theorem nameBy_congr (h : ∀ pc, p.lastWriter? last r = some pc → name pc = name' pc) :
    p.nameBy name last r = p.nameBy name' last r := by
  rw [nameBy, nameBy]
  cases p.localName? (r + 1) last with
  | some _ => rfl
  | none =>
    cases hw : p.lastWriter? last r with
    | none => rfl
    | some pc => simp only [h pc hw]

/-- **The search ends.** After more steps than there are places before `last`, no name that another
search would have to give is left to be asked for. -/
theorem iterate_nameBy (p : Prototype) (name : Nat → Nat → Option Designation) (h : last < n) :
    (p.nameBy^[n] name) last r = p.objectName? last r := by
  induction n generalizing last r with
  | zero => exact absurd h (Nat.not_lt_zero last)
  | succ n ih =>
    rw [Function.iterate_succ_apply', objectName?_eq_nameBy]
    refine nameBy_congr fun pc hpc => funext fun r' => ih ?_
    have hlt := lastWriter?_lt hpc
    omega

/-- **Where a value came from.** The walk finds the last instruction before `last` that writes the
register if no jump before that instruction leads over it, and nothing otherwise.  A step of the
search for a name asks for names at earlier places only, and so the search ends: after more than
`last` steps it makes no difference what another one would give. -/
theorem lastWriter?_certain (p : Prototype) (last r : Nat) :
    (∀ pc, p.lastWriter? last r = some pc ↔
        p.LastWrite r last pc ∧ ∀ q < pc, ¬p.JumpsOver last q pc) ∧
      (p.lastWriter? last r = none ↔
        ∀ pc, p.LastWrite r last pc → ∃ q < pc, p.JumpsOver last q pc) ∧
      p.objectName? last r = p.nameBy p.objectName? last r ∧
      (∀ name name', (∀ pc < last, name pc = name' pc) →
        p.nameBy name last r = p.nameBy name' last r) ∧
      (∀ name n, last < n → (p.nameBy^[n] name) last r = p.objectName? last r) :=
  ⟨fun _ => lastWriter?_eq_some_iff, lastWriter?_eq_none_iff, objectName?_eq_nameBy p last r,
    fun _ _ h => nameBy_congr fun pc hpc => h pc (lastWriter?_lt hpc),
    fun name _ h => iterate_nameBy p name h⟩

/-- A key is loaded, and a table is read by it.  The jump at the start leads over both, but past the
first place in question.  The name is a field, and four steps are enough to find it. -/
theorem lastWriter?_certain_key :
    let p : Prototype :=
      { code := #[.asbx .jump 0 3, .abx .loadConstant 1 0, .abc .getTable 2 0 1]
        constants := #[.string "x".toUTF8] }
    p.lastWriter? 3 2 = some 2 ∧ p.lastWriter? 4 2 = none ∧
      p.nameBy (fun pc => if pc < 3 then p.objectName? pc else fun _ => none) 3 2 =
        p.nameBy p.objectName? 3 2 ∧
      p.objectName? 3 2 = some ⟨.field, "x"⟩ := by
  intro p
  have hwrite (n : Nat) (h : 2 < n) : p.LastWrite 2 n 2 := by
    refine ⟨h, ⟨.abc .getTable 2 0 1, rfl, ?_⟩, fun q hq _ hw => ?_⟩
    · exact Instruction.writes_eq_true_iff.1 (by decide)
    · have hsize : q < 3 := hw.lt_size
      omega
  have hjump (i : Instruction) (q : Nat) (hq : q < 2) (hi : p.code[q]? = some i)
      (hop : i.opcode? = some .jump) : q = 0 ∧ i.sbx = 3 := by
    obtain rfl | rfl : q = 0 ∨ q = 1 := by omega
    · obtain rfl := Option.some.inj hi
      exact ⟨rfl, by decide⟩
    · obtain rfl := Option.some.inj hi
      exact absurd hop (by decide)
  obtain ⟨hsome, -, -, hearlier, hends⟩ := lastWriter?_certain p 3 2
  obtain ⟨-, hnone, -⟩ := lastWriter?_certain p 4 2
  have hfield : (p.nameBy^[4] fun _ _ => none) 3 2 = some ⟨.field, "x"⟩ := by decide +kernel
  refine ⟨(hsome 2).2 ⟨hwrite 3 (by decide), ?_⟩, hnone.2 ?_, ?_,
    (hends _ 4 (by decide)).symm.trans hfield⟩
  · rintro q hq ⟨i, hi, hop, -, hlast⟩
    obtain ⟨rfl, hsbx⟩ := hjump i q hq hi hop
    omega
  · intro pc hpc
    have hpc' : pc = 2 := by
      by_contra hne
      have hlt : pc < 3 := hpc.writes.lt_size
      exact hpc.latest 2 (by omega) (by decide) (hwrite 4 (by decide)).writes
    subst hpc'
    exact ⟨0, by decide, _, rfl, by decide, by decide, by decide⟩
  · exact hearlier _ _ fun pc hpc => if_pos hpc

end Prototype

end LuaMachine
