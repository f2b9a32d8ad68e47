import MipsSim.Pipeline.Track

/-!
# Overflow traps

Which instructions can raise `EXC_ArithmeticOverflow` in EX. The control code that makes the ALU
check an addition is the one that the decoder leaves in place when it sets no other, so that
branches, jumps and accesses to memory are checked along with `ADDI`.
-/

namespace MipsSim

open Run

/-! ### Who is checked -/

/-- The instruction is `ADD`, `SUB` or `ADDI`. -/
def isTrappingArith (inst : Word) : Prop :=
  (getOpcode inst = .r ∧ (getFunct inst = .add ∨ getFunct inst = .sub)) ∨ getOpcode inst = .addi

/-- The decoder leaves `c_alu_op` at zero: accesses to memory, branches, jumps, and the words it does
not know. -/
def keepsAluOp (inst : Word) : Prop :=
  match getOpcode inst with
  | .r => getFunct inst = .jr
  | .cp0 => ¬ isCp0Move inst
  | .lwl | .lwr | .lbu | .lhu | .lw => True
  | .sc | .swr | .swl | .sb | .sh | .sw => True
  | .beq | .bne | .j | .jal | .unknown _ => True
  | .ll | .lui | .slti | .sltiu | .ori | .andi | .addi | .addiu => False

/-- The instruction loads from or stores to memory. -/
def isAccess (inst : Word) : Prop :=
  match getOpcode inst with
  | .lwl | .lwr | .lbu | .lhu | .lw | .sc | .swr | .swl | .sb | .sh | .sw => True
  | _ => False

/-- The second operand of the ALU for the instruction, given the value of `rt`. -/
def operandB (inst rtValue : Word) : Word :=
  if (controlOf inst).aluSrc then signExtend (getImm inst) else rtValue

lemma controlOf_aluOp_eq_add_iff (inst : Word) :
    (controlOf inst).aluOp = .add ↔ keepsAluOp inst := by
  unfold controlOf keepsAluOp
  cases hop : getOpcode inst with
  | r => by_cases hjr : getFunct inst = .jr <;> simp [hjr]
  | cp0 =>
    cases hc : getCp0Funct inst with
    | mfc0 => simp [isCp0Move, isMfc0, hop, hc]
    | mtc0 => simp [isCp0Move, isMtc0, hop, hc]
    | unknown code => simp [isCp0Move, isMfc0, isMtc0, hc]
  | _ => simp

/-- Accesses add the offset to the base register. -/
lemma controlOf_of_isAccess {inst : Word} (h : isAccess inst) :
    (controlOf inst).aluOp = .add ∧ (controlOf inst).aluSrc = true := by
  unfold isAccess at h
  unfold controlOf
  cases hop : getOpcode inst <;> simp [hop] at h ⊢

lemma addException_eq_iff (a b : Word) :
    addException a b = .arithmeticOverflow ↔ checkSoverflow a b := by
  unfold addException
  by_cases h : checkSoverflow a b <;> simp [h]

/-- The exceptions of the ALU in terms of the instruction word. -/
lemma IdEx.Decoded.aluException_iff {idEx : IdEx} (h : idEx.Decoded)
    (ht : ¬ isTrappingArith idEx.inst) :
    aluException idEx = .arithmeticOverflow ↔
      keepsAluOp idEx.inst ∧ checkSoverflow idEx.rsValue (operandB idEx.inst idEx.rtValue) := by
  have hb : idEx.aluB = operandB idEx.inst idEx.rtValue := by
    unfold IdEx.aluB operandB
    rw [h.c_eq, h.imm_eq]
  rw [← controlOf_aluOp_eq_add_iff, ← h.c_eq, ← hb]
  unfold aluException
  cases hop : idEx.c.aluOp with
  | add => simpa using addException_eq_iff _ _
  | beq => simp
  | rType => cases hf : idEx.funct <;> simp
  | iType =>
    -- of the immediate instructions only `ADDI` is checked, and it is excluded
    cases hc : getOpcode idEx.inst with
    | addi => exact absurd (.inr hc) ht
    | _ => simp

/-- A cleared `ID_EX` adds two zeros. -/
lemma aluException_cleared : aluException {} = .none := by decide

lemma not_keepsAluOp_zero : ¬ keepsAluOp 0 := by
  rw [← controlOf_aluOp_eq_add_iff]
  decide

lemma not_isAccess_zero : ¬ isAccess 0 := by
  intro h
  have hsrc := (controlOf_of_isAccess h).2
  revert hsrc
  decide

/-! ### Only arithmetic that can trap traps -/

/-- EX raises no overflow, and the address of an access is the base plus the offset modulo 2^32. -/
structure TrapFree (core : Core) : Prop where
  no_overflow : (interpretEx core).exMem.exception ≠ .arithmeticOverflow
  address_wraps : isAccess core.idEx.inst →
    (interpretEx core).exMem.aluRes =
      core.idEx.rsValue + signExtend (getImm core.idEx.inst)

lemma PipeOk.interpretEx_exception {core : Core} (h : PipeOk core) :
    (interpretEx core).exMem.exception = aluException core.idEx := by
  rw [interpretEx_eq h.idEx_exception]
  rfl

/-- The address of an access is computed modulo 2^32 even where the addition is reported as an
overflow. -/
lemma PipeOk.interpretEx_address {core : Core} (h : PipeOk core) (ha : isAccess core.idEx.inst) :
    (interpretEx core).exMem.aluRes =
      core.idEx.rsValue + signExtend (getImm core.idEx.inst) := by
  rcases h.idEx_ok with hz | hd
  · rw [hz] at ha
    exact absurd ha not_isAccess_zero
  · obtain ⟨hop, hsrc⟩ := controlOf_of_isAccess ha
    rw [← hd.c_eq] at hop hsrc
    rw [interpretEx_eq h.idEx_exception]
    simp only [executeStage, aluResult, hop, IdEx.aluB, hsrc, if_true, hd.imm_eq]

/-- In every reachable state an instruction other than `ADD`, `SUB` and `ADDI` is free of overflow
traps exactly when it is not one of those that share the checked addition, or its two operands do
not overflow as signed numbers. -/
theorem trapFree_iff {t : Tracked} (h : Reachable t) (ht : ¬ isTrappingArith t.core.idEx.inst) :
    TrapFree t.core ↔
      ¬ (keepsAluOp t.core.idEx.inst ∧
        checkSoverflow t.core.idEx.rsValue
          (operandB t.core.idEx.inst t.core.idEx.rtValue)) := by
  have hexc := h.pipeOk.interpretEx_exception
  have hiff : (interpretEx t.core).exMem.exception = .arithmeticOverflow ↔
      keepsAluOp t.core.idEx.inst ∧
        checkSoverflow t.core.idEx.rsValue
          (operandB t.core.idEx.inst t.core.idEx.rtValue) := by
    rw [hexc]
    rcases h.pipeOk.idEx_ok with hz | hd
    · rw [hz, aluException_cleared]
      simp only [reduceCtorEq, false_iff, not_and]
      exact fun hk => absurd hk not_keepsAluOp_zero
    · exact hd.aluException_iff ht
  constructor
  · intro hfree hbad
    exact hfree.no_overflow (hiff.mpr hbad)
  · intro hgood
    exact ⟨fun hbad => hgood (hiff.mp hbad), h.pipeOk.interpretEx_address⟩

/-- `LUI $1, 0x7FFF; ORI $1, $1, 0xFFFF; ADDIU $2, $0, 1; BEQ $1, $2, 0` at the start of kseg0. -/
def branchMem : Mmu := imageMem 1024
  [0x3C, 0x01, 0x7F, 0xFF, 0x34, 0x21, 0xFF, 0xFF, 0x24, 0x02, 0x00, 0x01, 0x10, 0x22, 0x00, 0x00]

/-- After five ticks the branch is decoded, with both operands forwarded. -/
lemma iterate_branchMem :
    ∃ t, iterate Tracked.tick 5 (.boot branchMem) = .ok t ∧ t.finished = false ∧
      t.core.idEx.inst = 0x10220000#32 ∧ t.core.idEx.rsValue = 0x7FFFFFFF#32 ∧
      t.core.idEx.rtValue = 1#32 := by
  exact ⟨_, rfl, rfl, rfl, rfl, rfl⟩

theorem trapFree_iff_branch :
    ∃ t, Reachable t ∧ ¬ isTrappingArith t.core.idEx.inst ∧
      (TrapFree t.core ↔
        ¬ (keepsAluOp t.core.idEx.inst ∧
          checkSoverflow t.core.idEx.rsValue
            (operandB t.core.idEx.inst t.core.idEx.rtValue))) := by
  obtain ⟨t, hrun, hfin, hinst, -, -⟩ := iterate_branchMem
  have hreach := (reachable_boot _).iterate hrun hfin
  have ht : ¬ isTrappingArith t.core.idEx.inst := by
    rw [hinst]
    unfold isTrappingArith
    decide
  exact ⟨t, hreach, ht, trapFree_iff hreach ht⟩

/-- A `BEQ` of 0x7FFFFFFF and 1 raises an overflow. -/
theorem overflow_of_branch :
    ∃ t, Reachable t ∧ getOpcode t.core.idEx.inst = .beq ∧ ¬ isTrappingArith t.core.idEx.inst ∧
      (interpretEx t.core).exMem.exception = .arithmeticOverflow ∧ ¬ TrapFree t.core := by
  obtain ⟨t, hrun, hfin, hinst, hrs, hrt⟩ := iterate_branchMem
  have hreach := (reachable_boot _).iterate hrun hfin
  have hop : getOpcode t.core.idEx.inst = .beq := by
    rw [hinst]
    decide
  have hexc : (interpretEx t.core).exMem.exception = .arithmeticOverflow := by
    rw [hreach.pipeOk.interpretEx_exception]
    rcases hreach.pipeOk.idEx_ok with hz | hd
    · rw [hz] at hop
      exact absurd hop (by decide)
    · have hctl : controlOf t.core.idEx.inst = { beq := true } := by
        simp only [controlOf, hop]
      simp only [aluException, IdEx.aluB, hd.c_eq, hctl, hrs, hrt, Bool.false_eq_true, if_false]
      exact (addException_eq_iff _ _).mpr (.inl (by decide))
  refine ⟨t, hreach, hop, ?_, hexc, fun hfree => hfree.no_overflow hexc⟩
  rw [hinst]
  unfold isTrappingArith
  decide

end MipsSim
