import MipsSim.Pipeline.Flow

/-!
# From EX to WB

One instruction on its way through the last three stages, and what it leaves behind when it accesses
no memory. The instructions ahead of it may do whatever they like short of emptying the pipeline.
-/

namespace MipsSim

open Run

/-- The instruction in `ID_EX` of `t₀` on its way: EX in the tick to `t₁`, MEM on the memory `mem` in
the tick to `t₂`, WB next. -/
structure Retires (t₀ t₁ t₂ : Tracked) (mem : Mmu) : Prop where
  reachable : Reachable t₀
  ex : Passes t₀ t₁
  finished : t₁.finished = false
  not_flushes : ¬ t₁.core.flushes
  mem : ({ t₁ with mem := mem } : Tracked).tick = .ok t₂

/-- A word other than zero in `ID_EX` was put there by the decoder. -/
lemma Reachable.decoded {t : Tracked} (h : Reachable t) (hinst : t.core.idEx.inst ≠ 0) :
    t.core.idEx.Decoded := by
  rcases h.pipeOk.idEx_ok with hz | hd
  · rw [hz] at hinst
    exact absurd rfl hinst
  · exact hd

/-- Neither a bubble nor `ERET`, by the opcode. -/
lemma ne_of_opcode {inst : Word} (hr : getOpcode inst ≠ .r) (hc : getOpcode inst ≠ .cp0) :
    inst ≠ 0 ∧ inst ≠ instructionEret := by
  constructor
  · rintro rfl
    exact hr rfl
  · rintro rfl
    exact hc rfl

section Retires

variable {t₀ t₁ t₂ : Tracked} {mem : Mmu} (hr : Retires t₀ t₁ t₂ mem)

include hr

lemma Retires.reachable₁ : Reachable t₁ := hr.ex.reachable hr.reachable

lemma Retires.reachable₂ : Reachable t₂ :=
  (hr.reachable₁.other mem).tick hr.finished hr.mem

lemma Retires.exMem_eq : t₁.core.exMem = executeStage t₀.core := by
  obtain ⟨regs, cp0, mem, e, readData, badVAddr, mem₁, inst, mem', -, rfl⟩ :=
    hr.ex.record hr.reachable
  exact Core.next_exMem _ _ _

lemma Retires.exMem_exception : t₁.core.exMem.exception = aluException t₀.core.idEx := by
  rw [hr.exMem_eq]
  rfl

/-- MEM of the instruction, with the registers as WB of the instruction ahead has left them. -/
lemma Retires.memStep : ∃ e readData badVAddr mem₁ trace,
    MemStep (interpretWb t₁.core).1 mem e readData badVAddr mem₁ ∧
      (interpretWb t₁.core).1 = t₁.core.withRegs t₂.core.regs t₂.core.cp0 ∧
      t₂.core.memWb = moveStage t₁.core e readData badVAddr ∧ t₂.mem = mem₁.withTrace trace := by
  obtain ⟨regs, cp0, e, readData, badVAddr, mem₁, inst, mem', hwb, hstep, hread, rfl⟩ :=
    Tracked.tick_of_not_flushes (hr.reachable₁.other mem).pipeOk hr.not_flushes hr.mem
  obtain ⟨-, trace, rfl, -⟩ := mmuRead_withTrace hread
  refine ⟨e, readData, badVAddr, mem₁, trace, ?_, ?_, ?_, rfl⟩
  · exact hwb ▸ hstep
  · simp only [Tracked.record, Core.next_regs, Core.next_cp0]
    exact hwb
  · simp [Tracked.record]

/-- The word that reaches WB is the one that was in `ID_EX`. -/
lemma Retires.memWb_inst : t₂.core.memWb.inst = t₀.core.idEx.inst := by
  obtain ⟨e, readData, badVAddr, mem₁, trace, -, -, hmemWb, -⟩ := hr.memStep
  rw [hmemWb, moveStage, hr.exMem_eq]
  rfl

end Retires

/-- The instruction in `ID_EX` after `n` ticks of a program that runs from the start of kseg0, with no
exception on its way. -/
structure RetiresFromBoot (n : ℕ) (mem : Mmu) (t₀ t₁ t₂ : Tracked) : Prop where
  start : iterate Tracked.tick n (.boot mem) = .ok t₀
  ex : t₀.tick = .ok t₁
  mem : t₁.tick = .ok t₂
  finished : t₀.finished = false ∧ t₁.finished = false
  not_flushes : ¬ t₀.core.flushes ∧ ¬ t₁.core.flushes

lemma RetiresFromBoot.retires {n : ℕ} {mem : Mmu} {t₀ t₁ t₂ : Tracked}
    (h : RetiresFromBoot n mem t₀ t₁ t₂) : Retires t₀ t₁ t₂ t₁.mem where
  reachable := (reachable_boot mem).iterate h.start h.finished.1
  ex := ⟨h.finished.1, h.not_flushes.1, t₀.mem, h.ex⟩
  finished := h.finished.2
  not_flushes := h.not_flushes.2
  mem := h.mem

/-! ### Instructions that access no memory -/

section Plain

variable {t₀ t₁ t₂ : Tracked} {mem : Mmu} (hr : Retires t₀ t₁ t₂ mem)
  (hdec : t₀.core.idEx.Decoded) (hread : (controlOf t₀.core.idEx.inst).memRead = false)
  (hwrite : (controlOf t₀.core.idEx.inst).memWrite = false)

include hr hdec hread hwrite

lemma Retires.no_access : t₁.core.exMem.cMemRead = false ∧ t₁.core.exMem.cMemWrite = false := by
  rw [hr.exMem_eq]
  simp only [executeStage, hdec.c_eq, hread, hwrite, and_self]

/-- MEM carries the exception of the ALU on, and leaves the memory as it is. -/
lemma Retires.exception_eq : t₂.core.memWb.exception = aluException t₀.core.idEx ∧
    ∃ trace, t₂.mem = mem.withTrace trace := by
  obtain ⟨hr', hw'⟩ := hr.no_access hdec hread hwrite
  obtain ⟨e, readData, badVAddr, mem₁, trace, hstep, hwb, hmemWb, hmem⟩ := hr.memStep
  rw [hwb] at hstep
  obtain ⟨rfl, rfl⟩ := hstep.of_no_access hr' hw'
  refine ⟨?_, trace, hmem⟩
  rw [hmemWb]
  show t₁.core.exMem.exception = _
  rw [hr.exMem_eq]
  rfl

/-- MEM leaves every memory as it is. -/
lemma Retires.interpretMem_eq (mem' : Mmu) :
    ∃ core', interpretMem (interpretWb t₁.core).1 mem' = .ok (core', mem') := by
  obtain ⟨hr', hw'⟩ := hr.no_access hdec hread hwrite
  obtain ⟨e, readData, badVAddr, mem₁, trace, -, hwb, -, -⟩ := hr.memStep
  rw [hwb]
  by_cases hexc : t₁.core.exMem.exception = .none
  · exact ⟨_, interpretMem_eq_ok (.plain hexc hr' hw')⟩
  · exact ⟨_, interpretMem_eq_ok (.carried hexc)⟩

/-- Without an exception WB stores what the ALU has left in `alu_res`. -/
lemma Retires.regs_of_none (hexc : aluException t₀.core.idEx = .none)
    (heret : t₀.core.idEx.inst ≠ instructionEret)
    (hreg : (controlOf t₀.core.idEx.inst).regWrite = true)
    (hmtc0 : ¬ isMtc0 t₀.core.idEx.inst)
    (hload : (controlOf t₀.core.idEx.inst).memToReg = false) :
    (interpretWb t₂.core).1.cp0 = t₂.core.cp0 ∧
      (interpretWb t₂.core).1.regs = setReg t₂.core.regs (dstOf t₀.core.idEx.inst)
        (if dstOf t₀.core.idEx.inst = 0 then 0
          else aluResult t₀.core.idEx t₀.core.exMem.aluRes) := by
  obtain ⟨hexc₂, -⟩ := hr.exception_eq hdec hread hwrite
  have hcommits : t₂.core.memWb.commits := ⟨hr.memWb_inst ▸ heret, hexc₂.trans hexc⟩
  obtain ⟨e, readData, badVAddr, mem₁, trace, -, -, hmemWb, -⟩ := hr.memStep
  have hfields : t₂.core.memWb.cRegWrite = true ∧ t₂.core.memWb.cMemToReg = false ∧
      t₂.core.memWb.regDst = dstOf t₀.core.idEx.inst ∧
      t₂.core.memWb.aluRes = aluResult t₀.core.idEx t₀.core.exMem.aluRes := by
    rw [hmemWb, moveStage, hr.exMem_eq]
    refine ⟨?_, ?_, ?_, rfl⟩
    · simp only [executeStage, hdec.c_eq, hreg]
    · simp only [executeStage, hdec.c_eq, hload]
    · simp only [executeStage, IdEx.dst, hdec.c_eq, hdec.rd_eq, hdec.rt_eq, dstOf]
  obtain ⟨hw, hm, hd, ha⟩ := hfields
  rw [interpretWb_of_commits hcommits]
  constructor
  · simp only [commitCp0, hr.memWb_inst, hmtc0, and_false, if_false]
  · simp only [commitRegs, hr.memWb_inst, hw, hmtc0, not_false_eq_true, and_self, if_true, hd,
      MemWb.data, hm, Bool.false_eq_true, if_false, ha]

/-- An instruction that writes no register leaves them when it raises nothing. -/
lemma Retires.regs_of_not_regWrite (hexc : aluException t₀.core.idEx = .none)
    (heret : t₀.core.idEx.inst ≠ instructionEret)
    (hreg : (controlOf t₀.core.idEx.inst).regWrite = false) :
    (interpretWb t₂.core).1.cp0 = t₂.core.cp0 ∧
      (interpretWb t₂.core).1.regs = t₂.core.regs := by
  obtain ⟨hexc₂, -⟩ := hr.exception_eq hdec hread hwrite
  have hcommits : t₂.core.memWb.commits := ⟨hr.memWb_inst ▸ heret, hexc₂.trans hexc⟩
  obtain ⟨e, readData, badVAddr, mem₁, trace, -, -, hmemWb, -⟩ := hr.memStep
  have hw : t₂.core.memWb.cRegWrite = false := by
    rw [hmemWb, moveStage, hr.exMem_eq]
    simp only [executeStage, hdec.c_eq, hreg]
  rw [interpretWb_of_commits hcommits]
  constructor
  · simp only [commitCp0, hw, Bool.false_eq_true, false_and, if_false]
  · simp only [commitRegs, hw, Bool.false_eq_true, false_and, if_false]

end Plain

/-- An exception keeps the general registers. -/
lemma interpretWb_regs_of_exception {core : Core} (h : core.memWb.exception ≠ .none) :
    (interpretWb core).1.regs = core.regs := by
  rcases flushes_or_exits_or_commits core with hf | hx | hc
  · rw [interpretWb_of_flushes hf]
    rfl
  · rw [interpretWb_of_exits hx]
  · exact absurd hc.2 h

/-! ### Loads -/

/-- What the decoder makes of a load. -/
lemma control_load {w : Word} (h : (controlOf w).memRead = true) :
    (controlOf w).regWrite = true ∧ (controlOf w).memToReg = true ∧ dstOf w = getRt w ∧
      ¬ isMtc0 w ∧ w ≠ instructionEret ∧ w ≠ 0 := by
  have hop := opcode_of_memRead h
  have hne : w ≠ 0 ∧ w ≠ instructionEret := by
    apply ne_of_opcode
    · rcases hop with hop | hop | hop | hop | hop <;> simp [hop]
    · rcases hop with hop | hop | hop | hop | hop <;> simp [hop]
  refine ⟨?_, ?_, ?_, ?_, hne.2, hne.1⟩
  · rcases hop with hop | hop | hop | hop | hop <;> simp [controlOf, hop]
  · rcases hop with hop | hop | hop | hop | hop <;> simp [controlOf, hop]
  · rcases hop with hop | hop | hop | hop | hop <;>
      simp [dstOf, controlOf, rtOf, isCp0Move, isMfc0, isMtc0, hop]
  · rcases hop with hop | hop | hop | hop | hop <;> simp [isMtc0, hop]

/-- A load in `EX_MEM` that carries no exception is made, and WB commits what it leaves in
`read_data`. -/
lemma Reachable.load_commits {t t' : Tracked} (h : Reachable t) (hf : ¬ t.core.flushes)
    (ht : t.tick = .ok t') (hld : (controlOf t.core.exMem.inst).memRead = true)
    (hexc : t.core.exMem.exception = .none) :
    ∃ x mem₁ trace,
      memLoad (interpretWb t.core).1 t.mem t.core.memWb.readData = .ok (.none, x, mem₁) ∧
      t'.mem = mem₁.withTrace trace ∧
      (interpretWb t'.core).1.regs = setReg t'.core.regs (getRt t.core.exMem.inst)
        (if getRt t.core.exMem.inst = 0 then 0 else x) := by
  obtain ⟨hreg, hmemToReg, hdst, hmtc0, heret, hzero⟩ := control_load hld
  have hex : t.core.exMem.Executed := by
    rcases h.pipeOk.exMem_ok with he | he
    · exact absurd he.inst_eq hzero
    · exact he
  obtain ⟨regs, cp0, e, readData, badVAddr, mem₁, inst, mem', hwb, hstep, hread, rfl⟩ :=
    Tracked.tick_of_not_flushes h.pipeOk hf ht
  obtain ⟨-, trace, rfl, -⟩ := mmuRead_withTrace hread
  have hload := hstep.of_load hexc (hex.memRead_eq.trans hld)
  obtain ⟨rfl, -⟩ := memLoad_spec hload
  refine ⟨readData, mem₁, trace, hwb ▸ hload, rfl, ?_⟩
  rw [interpretWb_of_commits]
  · simp only [Tracked.record_core, Core.next_memWb, Core.next_regs, commitRegs, moveStage,
      MemWb.data, hex.regWrite_eq, hex.memToReg_eq, hex.regDst_eq, hreg, hmemToReg, hdst, hmtc0,
      not_false_eq_true, and_self, if_true]
  · rw [Tracked.record_core, Core.next_memWb]
    exact ⟨heret, rfl⟩

end MipsSim
