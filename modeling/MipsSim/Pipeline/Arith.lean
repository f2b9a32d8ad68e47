import MipsSim.Pipeline.Overflow
import MipsSim.Pipeline.Retire

/-!
# Trapping arithmetic

`ADD`, `ADDI` and `SUB` from decode to write back, against the sum or difference of the operands as
integers. Of the three only `ADDI` looks for an overflow, and `SUB` adds.
-/

namespace MipsSim

open Run

/-! ### The overflow predicate -/

/-- The integer is an `int32_t`. -/
def FitsInt32 (n : ℤ) : Prop := -2147483648 ≤ n ∧ n ≤ 2147483647

instance (n : ℤ) : Decidable (FitsInt32 n) := inferInstanceAs (Decidable (_ ∧ _))

lemma fitsInt32_toInt (a : Word) : FitsInt32 a.toInt := by
  have hlo := @BitVec.le_toInt 32 a
  have hhi := @BitVec.toInt_lt 32 a
  exact ⟨by omega, by omega⟩

/-- `check_soverflow` is exact, and the subtraction that it makes for the sign of `b` stays in
range. -/
lemma checkSoverflow_exact (a b : Word) :
    (checkSoverflow a b ↔ ¬ FitsInt32 (a.toInt + b.toInt)) ∧
      (0 < b.toInt → FitsInt32 (2147483647 - b.toInt)) ∧
      (b.toInt < 0 → FitsInt32 (-2147483648 - b.toInt)) := by
  obtain ⟨hlo, hhi⟩ := fitsInt32_toInt a
  obtain ⟨hlo', hhi'⟩ := fitsInt32_toInt b
  unfold checkSoverflow FitsInt32
  omega

lemma addException_of_fits {a b : Word} (h : FitsInt32 (a.toInt + b.toInt)) :
    addException a b = .none := if_neg fun hover => (checkSoverflow_exact a b).1.mp hover h

lemma addException_of_not_fits {a b : Word} (h : ¬ FitsInt32 (a.toInt + b.toInt)) :
    addException a b = .arithmeticOverflow := if_pos ((checkSoverflow_exact a b).1.mpr h)

/-! ### Results -/

/-- The integer that the instruction should leave: the difference for `SUB`, the sum otherwise. -/
def exactResult (inst a b : Word) : ℤ :=
  if getOpcode inst = .r ∧ getFunct inst = .sub then a.toInt - b.toInt else a.toInt + b.toInt

lemma ofInt_toInt_add (a b : Word) : BitVec.ofInt 32 (a.toInt + b.toInt) = a + b := by
  rw [BitVec.ofInt_add, BitVec.ofInt_toInt, BitVec.ofInt_toInt]

lemma ofInt_toInt_sub (a b : Word) : BitVec.ofInt 32 (a.toInt - b.toInt) = a - b := by
  rw [Int.sub_eq_add_neg, BitVec.ofInt_add, BitVec.ofInt_neg, BitVec.ofInt_toInt,
    BitVec.ofInt_toInt, BitVec.sub_eq_add_neg]

/-- Adding is as good as subtracting for the two words that are their own negatives. -/
lemma add_eq_sub_iff (a b : Word) : a + b = a - b ↔ b = 0 ∨ b = 0x80000000#32 := by
  constructor
  · intro h
    bv_omega
  · rintro (rfl | rfl) <;> bv_omega

/-- What trapping arithmetic promises, from EX in the tick to `t₁` to WB of `t₂`: a result in range
is in the destination register, with the zero in register 0 as it is, and one out of range raises an
overflow and leaves the register. -/
structure TrapsExactly (t₀ t₁ t₂ : Tracked) (inst a b : Word) : Prop where
  result : FitsInt32 (exactResult inst a b) →
    t₁.core.exMem.exception = .none ∧ t₂.core.memWb.exception = .none ∧
      (interpretWb t₂.core).1.regs (dstOf inst) =
        if dstOf inst = 0 then 0 else BitVec.ofInt 32 (exactResult inst a b)
  overflow : ¬ FitsInt32 (exactResult inst a b) →
    t₁.core.exMem.exception = .arithmeticOverflow ∧
      t₂.core.memWb.exception = .arithmeticOverflow ∧
      (interpretWb t₂.core).1.regs (dstOf inst) = t₂.core.regs (dstOf inst)
  check : ∀ a b, (checkSoverflow a b ↔ ¬ FitsInt32 (a.toInt + b.toInt)) ∧
    (0 < b.toInt → FitsInt32 (2147483647 - b.toInt)) ∧
    (b.toInt < 0 → FitsInt32 (-2147483648 - b.toInt))

/-- The register form is free of its slips: the result is in range, and for `SUB` it makes no
difference that the operands are added. -/
def ArithSafe (inst a b : Word) : Prop :=
  getOpcode inst = .r → FitsInt32 (exactResult inst a b) ∧
    (getFunct inst = .sub → getRd inst = 0 ∨ b = 0 ∨ b = 0x80000000#32)

/-! ### The three instructions -/

/-- The three instructions write a register from the ALU, access no memory and are ordinary. -/
lemma isTrappingArith.control {inst : Word} (h : isTrappingArith inst) :
    ((controlOf inst).memRead = false ∧ (controlOf inst).memWrite = false ∧
      (controlOf inst).memToReg = false ∧ (controlOf inst).regWrite = true) ∧
    ¬ isMtc0 inst ∧ inst ≠ 0 ∧ inst ≠ instructionEret := by
  have hctl : (controlOf inst).memRead = false ∧ (controlOf inst).memWrite = false ∧
      (controlOf inst).memToReg = false ∧ (controlOf inst).regWrite = true := by
    rcases h with ⟨hop, hf | hf⟩ | hop <;> simp [controlOf, *]
  have hmtc0 : ¬ isMtc0 inst := by
    rcases h with ⟨hop, -⟩ | hop <;> simp [isMtc0, hop]
  refine ⟨hctl, hmtc0, ?_, ?_⟩
  · rintro rfl
    revert h
    unfold isTrappingArith
    decide
  · rintro rfl
    revert h
    unfold isTrappingArith
    decide

section Arith

variable {idEx : IdEx} (hdec : idEx.Decoded)

include hdec

lemma IdEx.Decoded.aluB_eq : idEx.aluB = operandB idEx.inst idEx.rtValue := by
  unfold IdEx.aluB operandB
  rw [hdec.c_eq, hdec.imm_eq]

/-- What the decoder makes of the three. -/
lemma IdEx.Decoded.arith_cases (h : isTrappingArith idEx.inst) :
    (getOpcode idEx.inst = .r ∧ idEx.c.aluOp = .rType ∧ (idEx.funct = .add ∨ idEx.funct = .sub)) ∨
      (getOpcode idEx.inst = .addi ∧ idEx.c.aluOp = .iType) := by
  rcases h with ⟨hop, hf⟩ | hop
  · left
    have hfunct : idEx.funct = getFunct idEx.inst := by
      rw [hdec.funct_eq, functOf, if_neg]
      simp [isCp0Move, isMfc0, isMtc0, hop]
    refine ⟨hop, ?_, hfunct ▸ hf⟩
    rw [hdec.c_eq, controlOf, hop]
    rcases hf with hf | hf <;> simp [hf]
  · right
    refine ⟨hop, ?_⟩
    rw [hdec.c_eq, controlOf, hop]

/-- All three add. -/
lemma IdEx.Decoded.aluResult_arith (h : isTrappingArith idEx.inst) (old : Word) :
    aluResult idEx old = idEx.rsValue + operandB idEx.inst idEx.rtValue := by
  rw [← hdec.aluB_eq]
  unfold aluResult
  rcases hdec.arith_cases h with ⟨-, hctl, hf | hf⟩ | ⟨hop, hctl⟩
  · simp only [hctl, hf]
  · simp only [hctl, hf]
  · simp only [hctl, hop]

/-- Only the immediate form is checked. -/
lemma IdEx.Decoded.aluException_arith (h : isTrappingArith idEx.inst) :
    aluException idEx = if getOpcode idEx.inst = .r then .none
      else addException idEx.rsValue (operandB idEx.inst idEx.rtValue) := by
  rw [← hdec.aluB_eq]
  unfold aluException
  rcases hdec.arith_cases h with ⟨hop, hctl, hf | hf⟩ | ⟨hop, hctl⟩
  · simp only [hctl, hf, hop, if_true]
  · simp only [hctl, hf, hop, if_true]
  · simp [hctl, hop]

end Arith

section Exact

variable {t₀ t₁ t₂ : Tracked} {mem : Mmu} (hr : Retires t₀ t₁ t₂ mem)
  (h : isTrappingArith t₀.core.idEx.inst)

include hr h

/-- Where the ALU raises nothing, the sum is in the destination register. -/
lemma Retires.arith_of_none (hexc : aluException t₀.core.idEx = .none) :
    t₁.core.exMem.exception = .none ∧ t₂.core.memWb.exception = .none ∧
      (interpretWb t₂.core).1.regs (dstOf t₀.core.idEx.inst) =
        if dstOf t₀.core.idEx.inst = 0 then 0
        else t₀.core.idEx.rsValue + operandB t₀.core.idEx.inst t₀.core.idEx.rtValue := by
  obtain ⟨⟨hread, hwrite, hload, hreg⟩, hmtc0, hzero, heret⟩ := h.control
  have hdec := hr.reachable.decoded hzero
  obtain ⟨hexc₂, -⟩ := hr.exception_eq hdec hread hwrite
  obtain ⟨-, hregs⟩ := hr.regs_of_none hdec hread hwrite hexc heret hreg hmtc0 hload
  refine ⟨hr.exMem_exception.trans hexc, hexc₂.trans hexc, ?_⟩
  rw [hregs, setReg_self, hdec.aluResult_arith h]

/-- Where the ALU raises an overflow, nothing is written. -/
lemma Retires.arith_of_overflow (hexc : aluException t₀.core.idEx = .arithmeticOverflow) :
    t₁.core.exMem.exception = .arithmeticOverflow ∧
      t₂.core.memWb.exception = .arithmeticOverflow ∧
      (interpretWb t₂.core).1.regs = t₂.core.regs := by
  obtain ⟨⟨hread, hwrite, -, -⟩, -, hzero, -⟩ := h.control
  obtain ⟨hexc₂, -⟩ := hr.exception_eq (hr.reachable.decoded hzero) hread hwrite
  have hne : t₂.core.memWb.exception ≠ .none := by
    rw [hexc₂, hexc]
    decide
  exact ⟨hr.exMem_exception.trans hexc, hexc₂.trans hexc, interpretWb_regs_of_exception hne⟩

/-- The immediate form keeps the promise for all operands. -/
lemma Retires.trapsExactly_addi (hop : getOpcode t₀.core.idEx.inst = .addi) :
    TrapsExactly t₀ t₁ t₂ t₀.core.idEx.inst t₀.core.idEx.rsValue
      (operandB t₀.core.idEx.inst t₀.core.idEx.rtValue) := by
  have hexc := (hr.reachable.decoded h.control.2.2.1).aluException_arith h
  rw [if_neg (by rw [hop]; decide)] at hexc
  have hexact : ∀ a b, exactResult t₀.core.idEx.inst a b = a.toInt + b.toInt := by
    intro a b
    rw [exactResult, if_neg (by rw [hop]; simp)]
  refine ⟨fun hfits => ?_, fun hfits => ?_, checkSoverflow_exact⟩
  · rw [hexact] at hfits ⊢
    rw [ofInt_toInt_add]
    exact hr.arith_of_none h (hexc.trans (addException_of_fits hfits))
  · rw [hexact] at hfits
    obtain ⟨hex, hwb, hregs⟩ := hr.arith_of_overflow h (hexc.trans (addException_of_not_fits hfits))
    exact ⟨hex, hwb, congrFun hregs _⟩

/-- The register forms keep it where their slips do not show. -/
lemma Retires.trapsExactly_register_iff (hop : getOpcode t₀.core.idEx.inst = .r) :
    TrapsExactly t₀ t₁ t₂ t₀.core.idEx.inst t₀.core.idEx.rsValue
      (operandB t₀.core.idEx.inst t₀.core.idEx.rtValue) ↔
      ArithSafe t₀.core.idEx.inst t₀.core.idEx.rsValue
        (operandB t₀.core.idEx.inst t₀.core.idEx.rtValue) := by
  have hexc := (hr.reachable.decoded h.control.2.2.1).aluException_arith h
  rw [if_pos hop] at hexc
  obtain ⟨hex, hwb, hregs⟩ := hr.arith_of_none h hexc
  have hdst : dstOf t₀.core.idEx.inst = getRd t₀.core.idEx.inst := by
    rcases h with ⟨-, hf | hf⟩ | hop'
    · simp [dstOf, controlOf, rdOf, isMfc0, isMtc0, hop, hf]
    · simp [dstOf, controlOf, rdOf, isMfc0, isMtc0, hop, hf]
    · rw [hop] at hop'
      cases hop'
  have hexact_sub : getFunct t₀.core.idEx.inst = .sub → ∀ a b,
      exactResult t₀.core.idEx.inst a b = a.toInt - b.toInt :=
    fun hsub a b => if_pos ⟨hop, hsub⟩
  have hexact_add : getFunct t₀.core.idEx.inst ≠ .sub → ∀ a b,
      exactResult t₀.core.idEx.inst a b = a.toInt + b.toInt :=
    fun hadd a b => if_neg fun hc => hadd hc.2
  constructor
  · intro htraps _
    have hfits : FitsInt32 (exactResult t₀.core.idEx.inst t₀.core.idEx.rsValue
        (operandB t₀.core.idEx.inst t₀.core.idEx.rtValue)) := by
      by_contra hover
      have hraised := (htraps.overflow hover).1
      rw [hex] at hraised
      cases hraised
    refine ⟨hfits, fun hsub => ?_⟩
    obtain ⟨-, -, hvalue⟩ := htraps.result hfits
    rw [hregs, hdst, hexact_sub hsub, ofInt_toInt_sub] at hvalue
    by_cases hrd : getRd t₀.core.idEx.inst = 0
    · exact .inl hrd
    · rw [if_neg hrd, if_neg hrd, add_eq_sub_iff] at hvalue
      exact .inr hvalue
  · intro hsafe
    obtain ⟨hfits, hsub⟩ := hsafe hop
    refine ⟨fun _ => ⟨hex, hwb, ?_⟩, fun hover => absurd hfits hover, checkSoverflow_exact⟩
    rw [hregs, hdst]
    by_cases hf : getFunct t₀.core.idEx.inst = .sub
    · rw [hexact_sub hf, ofInt_toInt_sub]
      rcases hsub hf with hrd | hb
      · rw [if_pos hrd, if_pos hrd]
      · rw [(add_eq_sub_iff _ _).mpr hb]
    · rw [hexact_add hf, ofInt_toInt_add]

/-- `ADDI` keeps the promise for all operands. `ADD` keeps it exactly when the sum is in range, and
`SUB` when the difference is in range and either goes nowhere or is that of an operand that is its own
negative. -/
theorem trapsExactly_iff :
    TrapsExactly t₀ t₁ t₂ t₀.core.idEx.inst t₀.core.idEx.rsValue
      (operandB t₀.core.idEx.inst t₀.core.idEx.rtValue) ↔
      ArithSafe t₀.core.idEx.inst t₀.core.idEx.rsValue
        (operandB t₀.core.idEx.inst t₀.core.idEx.rtValue) := by
  have hcases := h
  rcases hcases with ⟨hop, -⟩ | hop
  · exact hr.trapsExactly_register_iff h hop
  · have hsafe : ArithSafe t₀.core.idEx.inst t₀.core.idEx.rsValue
        (operandB t₀.core.idEx.inst t₀.core.idEx.rtValue) := by
      intro hr'
      rw [hop] at hr'
      cases hr'
    exact ⟨fun _ => hsafe, fun _ => hr.trapsExactly_addi h hop⟩

end Exact

/-- `LUI $1, high` and an operation on `$1` and `$1` with the result in `$2`, at the start of kseg0. -/
def arithMem (high : BitVec 16) (funct : Byte) : Mmu := imageMem 1024
  [0x3C, 0x01, (high >>> 8).setWidth 8, high.setWidth 8, 0x00, 0x21, 0x10, funct]

/-- `ADD` of 65536 and 65536. -/
theorem trapsExactly_iff_add : ∃ t₀ t₁ t₂ mem, Retires t₀ t₁ t₂ mem ∧
    isTrappingArith t₀.core.idEx.inst ∧
    TrapsExactly t₀ t₁ t₂ t₀.core.idEx.inst t₀.core.idEx.rsValue
      (operandB t₀.core.idEx.inst t₀.core.idEx.rtValue) := by
  obtain ⟨t₀, t₁, t₂, hrun, hinst, ha, hb⟩ : ∃ t₀ t₁ t₂,
      RetiresFromBoot 3 (arithMem 0x0001 0x20) t₀ t₁ t₂ ∧ t₀.core.idEx.inst = 0x00211020#32 ∧
      t₀.core.idEx.rsValue = 0x10000#32 ∧ t₀.core.idEx.rtValue = 0x10000#32 :=
    ⟨_, _, _, ⟨rfl, rfl, rfl, ⟨rfl, rfl⟩, by decide, by decide⟩, rfl, rfl, rfl⟩
  have hr := hrun.retires
  have harith : isTrappingArith t₀.core.idEx.inst := by
    rw [hinst]
    unfold isTrappingArith
    decide
  refine ⟨t₀, t₁, t₂, t₁.mem, hr, harith, (trapsExactly_iff hr harith).mpr ?_⟩
  rw [hinst, ha, hb]
  unfold ArithSafe
  decide

/-- `ADD` of 0x7FFF0000 to itself wraps around without an exception, and `SUB` of 65536 from itself
is 131072. -/
theorem not_trapsExactly :
    (∃ t₀ t₁ t₂ mem, Retires t₀ t₁ t₂ mem ∧ t₀.core.idEx.inst = 0x00211020#32 ∧
      t₀.core.idEx.rsValue = 0x7FFF0000#32 ∧ t₀.core.idEx.rtValue = 0x7FFF0000#32 ∧
      t₂.core.memWb.exception = .none ∧ (interpretWb t₂.core).1.regs 2 = 0xFFFE0000#32 ∧
      ¬ TrapsExactly t₀ t₁ t₂ t₀.core.idEx.inst t₀.core.idEx.rsValue
        (operandB t₀.core.idEx.inst t₀.core.idEx.rtValue)) ∧
    ∃ t₀ t₁ t₂ mem, Retires t₀ t₁ t₂ mem ∧ t₀.core.idEx.inst = 0x00211022#32 ∧
      t₀.core.idEx.rsValue = 0x10000#32 ∧ t₀.core.idEx.rtValue = 0x10000#32 ∧
      (interpretWb t₂.core).1.regs 2 = 0x20000#32 ∧
      ¬ TrapsExactly t₀ t₁ t₂ t₀.core.idEx.inst t₀.core.idEx.rsValue
        (operandB t₀.core.idEx.inst t₀.core.idEx.rtValue) := by
  constructor
  · obtain ⟨t₀, t₁, t₂, hrun, hinst, ha, hb, hexc, hreg⟩ : ∃ t₀ t₁ t₂,
        RetiresFromBoot 3 (arithMem 0x7FFF 0x20) t₀ t₁ t₂ ∧ t₀.core.idEx.inst = 0x00211020#32 ∧
        t₀.core.idEx.rsValue = 0x7FFF0000#32 ∧ t₀.core.idEx.rtValue = 0x7FFF0000#32 ∧
        t₂.core.memWb.exception = .none ∧ (interpretWb t₂.core).1.regs 2 = 0xFFFE0000#32 :=
      ⟨_, _, _, ⟨rfl, rfl, rfl, ⟨rfl, rfl⟩, by decide, by decide⟩, rfl, rfl, rfl, by decide, by decide⟩
    refine ⟨t₀, t₁, t₂, _, hrun.retires, hinst, ha, hb, hexc, hreg, ?_⟩
    rw [hinst, ha, hb]
    intro htraps
    have hraised := (htraps.overflow (by decide)).2.1
    rw [hexc] at hraised
    cases hraised
  · obtain ⟨t₀, t₁, t₂, hrun, hinst, ha, hb, hreg⟩ : ∃ t₀ t₁ t₂,
        RetiresFromBoot 3 (arithMem 0x0001 0x22) t₀ t₁ t₂ ∧ t₀.core.idEx.inst = 0x00211022#32 ∧
        t₀.core.idEx.rsValue = 0x10000#32 ∧ t₀.core.idEx.rtValue = 0x10000#32 ∧
        (interpretWb t₂.core).1.regs 2 = 0x20000#32 :=
      ⟨_, _, _, ⟨rfl, rfl, rfl, ⟨rfl, rfl⟩, by decide, by decide⟩, rfl, rfl, rfl, by decide⟩
    refine ⟨t₀, t₁, t₂, _, hrun.retires, hinst, ha, hb, hreg, ?_⟩
    rw [hinst, ha, hb]
    intro htraps
    have hvalue := (htraps.result (by decide)).2.2
    have hdst : dstOf 0x00211022#32 = 2 := by decide
    rw [hdst, hreg] at hvalue
    exact absurd hvalue (by decide)

end MipsSim
