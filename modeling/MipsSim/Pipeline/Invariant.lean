import MipsSim.Pipeline.Stages

/-!
# Clock ticks in closed form

One equation for a clock tick, and the invariant of the pipeline registers: each of them holds what
the decoder made of the instruction word that travels with it.
-/

namespace MipsSim

open Run

/-! ### The forwarding unit -/

/-- The first operand after forwarding. -/
def Core.forwardRs (core : Core) : Word :=
  if core.idEx.inst = instructionEret then core.idEx.rsValue
  else
    (forwardMux core.exMem.source core.memWb.source core.idEx.inst core.idEx.rs
      core.idEx.rsValue).getD core.idEx.rsValue

/-- The second operand after forwarding: it stays when the first multiplexer returns. -/
def Core.forwardRt (core : Core) : Word :=
  if core.idEx.inst = instructionEret then core.idEx.rtValue
  else
    match forwardMux core.exMem.source core.memWb.source core.idEx.inst core.idEx.rs
        core.idEx.rsValue with
    | none => core.idEx.rtValue
    | some _ =>
      (forwardMux core.exMem.source core.memWb.source core.idEx.inst core.idEx.rt
        core.idEx.rtValue).getD core.idEx.rtValue

/-- The forwarding unit only changes the two operands. -/
lemma forwardingUnit_eq (core : Core) :
    forwardingUnit core =
      { core with idEx := { core.idEx with rsValue := core.forwardRs, rtValue := core.forwardRt } } := by
  unfold forwardingUnit Core.forwardRs Core.forwardRt
  by_cases heret : core.idEx.inst = instructionEret
  · simp only [if_pos heret]
  · simp only [if_neg heret]
    cases hA : forwardMux core.exMem.source core.memWb.source core.idEx.inst core.idEx.rs
        core.idEx.rsValue with
    | none => rfl
    | some a =>
      cases hB : forwardMux core.exMem.source core.memWb.source core.idEx.inst core.idEx.rt
          core.idEx.rtValue with
      | none => simp only; rfl
      | some b => simp only; rfl

/-! ### One tick -/

/-- The core after MEM, EX and ID, with the new contents of `MEM_WB`. -/
def Core.advance (core : Core) (memWb : MemWb) : Core :=
  let core : Core :=
    { core with
      pc := core.idEx.redirect.getD core.pc
      ifId := { core.ifId with
                isBranchDelay := core.idEx.redirect.isSome || core.ifId.isBranchDelay }
      idEx := { core.idEx with
                jumpAddr := if core.idEx.c.jump then core.idEx.jumpTarget else core.idEx.jumpAddr }
      exMem := executeStage core
      memWb := memWb }
  { core with idEx := decodeStage core }

/-- The hazard test of the fetched word `inst`, in terms of the word that ID has just decoded. -/
def Core.holds (core : Core) (inst : Word) : Prop :=
  (controlOf core.ifId.inst).memRead = true ∧
    (rtOf core.ifId.inst = getRs inst ∨ rtOf core.ifId.inst = getRt inst)

instance (core : Core) (inst : Word) : Decidable (core.holds inst) :=
  inferInstanceAs (Decidable (_ ∧ _))

/-- The core after a tick, from the core after WB, the new `MEM_WB` and the word that IF reads. -/
def Core.next (core : Core) (memWb : MemWb) (inst : Word) : Core :=
  forwardingUnit ((core.advance memWb).fetch inst)

section Next

variable (core : Core) (memWb : MemWb) (inst : Word)

lemma Core.next_eq :
    core.next memWb inst =
      { regs := core.regs
        pc := if core.holds inst then core.idEx.redirect.getD core.pc
          else core.idEx.redirect.getD core.pc + 4
        cp0 := core.cp0
        ifId := if core.holds inst then
            { (core.advance memWb).ifId with exception := .none, inst := 0 }
          else fetchStage (core.advance memWb) inst
        idEx := { (core.advance memWb).idEx with
                  rsValue := (core.advance memWb).forwardRs
                  rtValue := (core.advance memWb).forwardRt }
        exMem := executeStage core
        memWb := memWb } := by
  rw [Core.next, forwardingUnit_eq, Core.fetch]
  by_cases h : core.holds inst
  · have hs : (core.advance memWb).stalls inst := h
    simp only [if_pos hs, if_pos h]
    rfl
  · have hs : ¬ (core.advance memWb).stalls inst := h
    simp only [if_neg hs, if_neg h]
    rfl

@[simp] lemma Core.next_regs : (core.next memWb inst).regs = core.regs := by rw [Core.next_eq]

@[simp] lemma Core.next_cp0 : (core.next memWb inst).cp0 = core.cp0 := by rw [Core.next_eq]

@[simp] lemma Core.next_memWb : (core.next memWb inst).memWb = memWb := by rw [Core.next_eq]

@[simp] lemma Core.next_exMem : (core.next memWb inst).exMem = executeStage core := by
  rw [Core.next_eq]

lemma Core.next_idEx : (core.next memWb inst).idEx =
    { (core.advance memWb).idEx with
      rsValue := (core.advance memWb).forwardRs
      rtValue := (core.advance memWb).forwardRt } := by
  rw [Core.next_eq]

@[simp] lemma Core.next_idEx_inst : (core.next memWb inst).idEx.inst = core.ifId.inst := by
  rw [Core.next_idEx]
  rfl

@[simp] lemma Core.next_idEx_nextPc : (core.next memWb inst).idEx.nextPc = core.ifId.nextPc := by
  rw [Core.next_idEx]
  rfl

variable {core memWb inst}

lemma Core.next_pc_of_holds (h : core.holds inst) :
    (core.next memWb inst).pc = core.idEx.redirect.getD core.pc := by
  rw [Core.next_eq]
  exact if_pos h

lemma Core.next_pc_of_not_holds (h : ¬ core.holds inst) :
    (core.next memWb inst).pc = core.idEx.redirect.getD core.pc + 4 := by
  rw [Core.next_eq]
  exact if_neg h

/-- The program counter shows whether IF has fetched. -/
lemma Core.next_pc_eq_iff :
    (core.next memWb inst).pc = core.idEx.redirect.getD core.pc ↔ core.holds inst := by
  by_cases h : core.holds inst
  · simp only [Core.next_pc_of_holds h, h]
  · rw [Core.next_pc_of_not_holds h]
    simp only [h, iff_false]
    bv_omega

lemma Core.next_ifId_of_holds (h : core.holds inst) : (core.next memWb inst).ifId.inst = 0 := by
  rw [Core.next_eq]
  simp only [if_pos h]

lemma Core.next_ifId_of_not_holds (h : ¬ core.holds inst) :
    (core.next memWb inst).ifId =
      { inst := inst, nextPc := core.idEx.redirect.getD core.pc + 4 } := by
  rw [Core.next_eq]
  simp only [if_neg h]
  rfl

end Next

/-- EX and ID on a core whose instructions carry no exception from the fetch. -/
lemma interpretId_interpretEx {core : Core} (hif : core.ifId.exception = .none)
    (hid : core.idEx.exception = .none) (memWb : MemWb) :
    interpretId (interpretEx { core with memWb := memWb }) = core.advance memWb := by
  have hid' : ({ core with memWb := memWb } : Core).idEx.exception = .none := hid
  rw [interpretEx_eq hid', interpretId_eq (by exact hif)]
  rfl

/-- The stages between WB and the forwarding unit in one equation. -/
lemma tickCore_eq_ok {core core₁ core' : Core} {mem mem' : Mmu} {fin fin' : Bool}
    (hwb : interpretWb core = (core₁, fin')) (hif : core₁.ifId.exception = .none)
    (hid : core₁.idEx.exception = .none) :
    tickCore core mem = .ok (core', mem', fin) ↔
      ∃ e readData badVAddr mem₁ inst, MemStep core₁ mem e readData badVAddr mem₁ ∧
        mmuRead mem₁ (core₁.idEx.redirect.getD core₁.pc) 0 .word = .ok (.none, inst, mem') ∧
        core' = core₁.next (moveStage core₁ e readData badVAddr) inst ∧ fin = fin' := by
  have hadv := interpretId_interpretEx hif hid
  simp only [tickCore, hwb, bind_eq_ok, pure_eq_ok, Prod.exists, Prod.mk.injEq]
  constructor
  · rintro ⟨core₂, mem₁, hmem, core₃, mem₂, hfetch, rfl, rfl, rfl⟩
    obtain ⟨e, readData, badVAddr, hstep, rfl⟩ := interpretMem_cases hmem
    rw [hadv, interpretIf_eq_ok] at hfetch
    obtain ⟨inst, hread, rfl⟩ := hfetch
    exact ⟨e, readData, badVAddr, mem₁, inst, hstep, hread, rfl, rfl⟩
  · rintro ⟨e, readData, badVAddr, mem₁, inst, hstep, hread, rfl, rfl⟩
    refine ⟨_, _, interpretMem_eq_ok hstep, _, _, ?_, rfl, rfl, rfl⟩
    rw [hadv, interpretIf_eq_ok]
    exact ⟨inst, hread, rfl⟩

/-! ### The pipeline registers -/

/-- `ID_EX` holds what the decoder makes of the word in it, up to the operands. -/
structure IdEx.Decoded (idEx : IdEx) : Prop where
  c_eq : idEx.c = controlOf idEx.inst
  funct_eq : idEx.funct = functOf idEx.inst
  shamt_eq : idEx.shamt = getShamt idEx.inst
  imm_eq : idEx.signExtImm = signExtend (getImm idEx.inst)
  rs_eq : idEx.rs = rsOf idEx.inst
  rt_eq : idEx.rt = rtOf idEx.inst
  rd_eq : idEx.rd = rdOf idEx.inst

/-- The control bits and the destination in `EX_MEM` are those of the word in it. -/
structure ExMem.Executed (exMem : ExMem) : Prop where
  regWrite_eq : exMem.cRegWrite = (controlOf exMem.inst).regWrite
  memRead_eq : exMem.cMemRead = (controlOf exMem.inst).memRead
  memWrite_eq : exMem.cMemWrite = (controlOf exMem.inst).memWrite
  memToReg_eq : exMem.cMemToReg = (controlOf exMem.inst).memToReg
  regDst_eq : exMem.regDst = dstOf exMem.inst

/-- The control bits and the destination in `MEM_WB` are those of the word in it. -/
structure MemWb.Moved (memWb : MemWb) : Prop where
  regWrite_eq : memWb.cRegWrite = (controlOf memWb.inst).regWrite
  memToReg_eq : memWb.cMemToReg = (controlOf memWb.inst).memToReg
  regDst_eq : memWb.regDst = dstOf memWb.inst

/-- `EX_MEM` as it is after the pipeline was cleared: a word of zeros that does nothing. -/
structure ExMem.Empty (exMem : ExMem) : Prop where
  inst_eq : exMem.inst = 0
  regWrite_eq : exMem.cRegWrite = false
  memRead_eq : exMem.cMemRead = false
  memWrite_eq : exMem.cMemWrite = false

/-- `MEM_WB` as it is after the pipeline was cleared. -/
structure MemWb.Empty (memWb : MemWb) : Prop where
  inst_eq : memWb.inst = 0
  regWrite_eq : memWb.cRegWrite = false

/-- The invariant of the pipeline registers between two clock ticks. -/
structure PipeOk (core : Core) : Prop where
  ifId_exception : core.ifId.exception = .none
  idEx_exception : core.idEx.exception = .none
  idEx_ok : core.idEx = {} ∨ core.idEx.Decoded
  exMem_ok : core.exMem.Empty ∨ core.exMem.Executed
  memWb_ok : core.memWb.Empty ∨ core.memWb.Moved
  exMem_nop : core.exMem.inst = 0 → core.exMem.exception = .none
  memWb_nop : core.memWb.inst = 0 → core.memWb.exception = .none

lemma pipeOk_init (regs : ℕ → Word) (pc : Word) (cp0 : ℕ → Word) : PipeOk (.init regs pc cp0) where
  ifId_exception := rfl
  idEx_exception := rfl
  idEx_ok := .inl rfl
  exMem_ok := .inl ⟨rfl, rfl, rfl, rfl⟩
  memWb_ok := .inl ⟨rfl, rfl⟩
  exMem_nop := fun _ => rfl
  memWb_nop := fun _ => rfl

/-- After WB the pipeline registers are those before it, or they are cleared. -/
lemma PipeOk.wb {core : Core} (h : PipeOk core) : PipeOk (interpretWb core).1 := by
  rcases flushes_or_exits_or_commits core with hf | hx | hc
  · rw [interpretWb_of_flushes hf]
    exact pipeOk_init _ _ _
  · rw [interpretWb_of_exits hx]
    exact h
  · rw [interpretWb_of_commits hc]
    exact ⟨h.1, h.2, h.3, h.4, h.5, h.6, h.7⟩

lemma decoded_decodeStage (core : Core) : (decodeStage core).Decoded := by
  constructor <;> rfl

/-- Forwarding does not touch what was decoded. -/
lemma IdEx.Decoded.operands {idEx : IdEx} (h : idEx.Decoded) (a b : Word) :
    IdEx.Decoded { idEx with rsValue := a, rtValue := b } :=
  ⟨h.1, h.2, h.3, h.4, h.5, h.6, h.7⟩

/-- Words other than branches and jumps redirect nothing. -/
lemma IdEx.Decoded.redirect_eq_none {idEx : IdEx} (h : idEx.Decoded)
    (hctl : (controlOf idEx.inst).beq = false ∧ (controlOf idEx.inst).bne = false ∧
      (controlOf idEx.inst).jump = false) : idEx.redirect = none := by
  simp [IdEx.redirect, h.c_eq, hctl.1, hctl.2.1, hctl.2.2]

lemma decoded_next (core : Core) (memWb : MemWb) (inst : Word) :
    (core.next memWb inst).idEx.Decoded := by
  rw [Core.next_idEx]
  exact (decoded_decodeStage _).operands _ _

/-- A word is held back behind a load, and a load redirects nothing. -/
lemma Core.next_redirect_of_holds {core : Core} {memWb : MemWb} {inst : Word}
    (h : core.holds inst) : (core.next memWb inst).idEx.redirect = none := by
  apply (decoded_next core memWb inst).redirect_eq_none
  rw [Core.next_idEx_inst]
  exact control_of_memRead h.1

lemma executed_executeStage {core : Core} (h : core.idEx = {} ∨ core.idEx.Decoded) :
    (executeStage core).Empty ∨ (executeStage core).Executed := by
  rcases h with h | h
  · left
    constructor <;> simp [executeStage, h]
  · right
    refine ⟨?_, ?_, ?_, ?_, ?_⟩
    · simp only [executeStage, h.c_eq]
    · simp only [executeStage, h.c_eq]
    · simp only [executeStage, h.c_eq]
    · simp only [executeStage, h.c_eq]
    · simp only [executeStage, IdEx.dst, h.c_eq, h.rd_eq, h.rt_eq, dstOf]

/-- A word of zeros raises nothing in the ALU. -/
lemma aluException_nop {idEx : IdEx} (h : idEx = {} ∨ idEx.Decoded) (hnop : idEx.inst = 0) :
    aluException idEx = .none := by
  rcases h with rfl | h
  · decide
  · have hop : idEx.c.aluOp = .rType := by
      rw [h.c_eq, hnop]
      decide
    have hf : idEx.funct = .sll := by
      rw [h.funct_eq, hnop]
      decide
    simp only [aluException, hop, hf]

lemma moved_moveStage {core : Core} {e : Exception} {readData badVAddr : Word}
    (h : core.exMem.Empty ∨ core.exMem.Executed) :
    (moveStage core e readData badVAddr).Empty ∨ (moveStage core e readData badVAddr).Moved := by
  rcases h with h | h
  · exact .inl ⟨h.inst_eq, h.regWrite_eq⟩
  · exact .inr ⟨h.regWrite_eq, h.memToReg_eq, h.regDst_eq⟩

/-- A word of zeros accesses no memory. -/
lemma ExMem.no_access {exMem : ExMem} (h : exMem.Empty ∨ exMem.Executed) (hnop : exMem.inst = 0) :
    exMem.cMemRead = false ∧ exMem.cMemWrite = false := by
  rcases h with h | h
  · exact ⟨h.memRead_eq, h.memWrite_eq⟩
  · rw [h.memRead_eq, h.memWrite_eq, hnop]
    decide

/-- The invariant holds after the remaining stages of a tick. -/
lemma PipeOk.advance {core : Core} {mem mem₁ : Mmu} {e : Exception} {readData badVAddr : Word}
    (h : PipeOk core) (hstep : MemStep core mem e readData badVAddr mem₁) (inst : Word) :
    PipeOk (core.next (moveStage core e readData badVAddr) inst) := by
  have hnop : core.exMem.inst = 0 → e = .none := by
    intro hz
    obtain ⟨hr, hw⟩ := ExMem.no_access h.exMem_ok hz
    exact (hstep.of_no_access hr hw).1.trans (h.exMem_nop hz)
  refine ⟨?_, ?_, ?_, ?_, ?_, ?_, ?_⟩
  · rw [Core.next_eq]
    simp only
    split_ifs <;> rfl
  · rw [Core.next_idEx]
    rfl
  · exact .inr (decoded_next _ _ _)
  · rw [Core.next_exMem]
    exact executed_executeStage h.idEx_ok
  · rw [Core.next_memWb]
    exact moved_moveStage h.exMem_ok
  · rw [Core.next_exMem]
    exact aluException_nop h.idEx_ok
  · rw [Core.next_memWb]
    exact hnop

/-- The invariant holds after every clock tick. -/
lemma PipeOk.tick {core core' : Core} {mem mem' : Mmu} {fin : Bool} (h : PipeOk core)
    (ht : tickCore core mem = .ok (core', mem', fin)) : PipeOk core' := by
  have heq : interpretWb core = ((interpretWb core).1, (interpretWb core).2) := rfl
  obtain ⟨e, readData, badVAddr, mem₁, inst, hstep, -, rfl, -⟩ :=
    (tickCore_eq_ok heq h.wb.ifId_exception h.wb.idEx_exception).mp ht
  exact h.wb.advance hstep inst

end MipsSim
