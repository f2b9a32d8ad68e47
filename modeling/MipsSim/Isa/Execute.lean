import MipsSim.Isa.Basic
import MipsSim.Pipeline.Forwarding

/-!
# One instruction in the stages

What EX, MEM and WB together do with an instruction of the reference interpreter, if it is decoded
with the right operands and raises nothing: they take the registers and the memory from the state
before the instruction to the state after it.
-/

namespace MipsSim

open Run ByteStore Isa

/-! ### Operands and immediates -/

lemma signExtend_getImm (w : Word) : signExtend (getImm w) = (w.setWidth 16).signExtend 32 := by
  have h : (getImm w).setWidth 16 = w.setWidth 16 := by
    apply BitVec.eq_of_toNat_eq
    rw [getImm, BitVec.toNat_setWidth, BitVec.toNat_setWidth, BitVec.toNat_and,
      show (0xFFFF#32).toNat = 2 ^ 16 - 1 from rfl, Nat.and_two_pow_sub_one_eq_mod, Nat.mod_mod]
  rw [signExtend, h]

lemma getAddress_eq (w : Word) : getAddress w = (w.setWidth 26).setWidth 32 := by
  apply BitVec.eq_of_toNat_eq
  rw [getAddress, BitVec.toNat_setWidth_of_le (by decide), BitVec.toNat_setWidth, BitVec.toNat_and]
  exact Nat.and_two_pow_sub_one_eq_mod _ 26

lemma signExtend_and_mask (imm : BitVec 16) :
    imm.signExtend 32 &&& zeroExtendMask = imm.setWidth 32 := by
  apply BitVec.eq_of_getLsbD_eq
  intro i hi
  have hmask : zeroExtendMask = BitVec.ofNat 32 (2 ^ 16 - 1) := rfl
  rw [BitVec.getLsbD_and, BitVec.getLsbD_setWidth, BitVec.getLsbD_signExtend, hmask,
    BitVec.getLsbD_ofNat, Nat.testBit_two_pow_sub_one]
  by_cases h : i < 16
  · simp [h, hi]
  · simp [h, BitVec.getLsbD_of_ge imm i (by omega)]

lemma signExtend_shiftLeft (imm : BitVec 16) :
    imm.signExtend 32 <<< 16 = imm.setWidth 32 <<< 16 := by
  apply BitVec.eq_of_getLsbD_eq
  intro i hi
  rw [BitVec.getLsbD_shiftLeft, BitVec.getLsbD_shiftLeft, BitVec.getLsbD_signExtend,
    BitVec.getLsbD_setWidth]
  have h : i - 16 < 16 := by omega
  have h' : i - 16 < 32 := by omega
  simp [h, h']

/-- The test of `check_soverflow` is the one of the instruction set. -/
lemma checkSoverflow_iff (a b : Word) : checkSoverflow a b ↔ overflows a b := by
  have h₁ := BitVec.toInt_lt (x := a)
  have h₂ := BitVec.le_toInt a
  have h₃ := BitVec.toInt_lt (x := b)
  have h₄ := BitVec.le_toInt b
  unfold checkSoverflow overflows
  omega

lemma addException_eq_none_iff (a b : Word) : addException a b = .none ↔ ¬ overflows a b := by
  rw [← checkSoverflow_iff, addException]
  by_cases h : checkSoverflow a b <;> simp [h]

/-! ### MEM and WB -/

/-- The instruction in `EX_MEM` takes the state `s` to `s'` once it is through MEM and WB. -/
inductive Finishing (mem : Mmu) (x : ExMem) (s s' : State) : Prop
  | plain (hread : x.cMemRead = false) (hwrite : x.cMemWrite = false)
      (hregs : ∀ r, s'.regs r = if writesGpr x.inst r then x.aluRes else s.regs r)
      (hmem : s'.mem = s.mem)
  | load (opSize : MemOpSize) (hop : getOpcode x.inst = loadOpcode opSize)
      (hin : InKseg0 mem x.aluRes opSize.bytes)
      (hregs : ∀ r, s'.regs r = if writesGpr x.inst r then s.read opSize x.aluRes else s.regs r)
      (hmem : s'.mem = s.mem)
  | store (opSize : MemOpSize) (hop : getOpcode x.inst = storeOpcode opSize)
      (hin : InKseg0 mem x.aluRes opSize.bytes) (hregs : s'.regs = s.regs)
      (hmem : s'.mem = s.written opSize x.aluRes x.rtValue)

lemma controlOf_load {inst : Word} {opSize : MemOpSize} (h : getOpcode inst = loadOpcode opSize) :
    controlOf inst = { aluSrc := true, memRead := true, regWrite := true, memToReg := true } := by
  cases opSize <;> simp only [controlOf, h, loadOpcode]

lemma controlOf_store {inst : Word} {opSize : MemOpSize} (h : getOpcode inst = storeOpcode opSize) :
    controlOf inst = { aluSrc := true, memWrite := true } := by
  cases opSize <;> simp only [controlOf, h, storeOpcode]

lemma memLoad_eq {core : Core} {mem : Mmu} {readData : Word} {opSize : MemOpSize}
    (h : getOpcode core.exMem.inst = loadOpcode opSize) :
    memLoad core mem readData = mmuRead mem core.exMem.aluRes readData opSize := by
  cases opSize <;> simp only [memLoad, h, loadOpcode]

lemma memStore_eq {core : Core} {mem : Mmu} {opSize : MemOpSize}
    (h : getOpcode core.exMem.inst = storeOpcode opSize) :
    memStore core mem = mmuWrite mem core.exMem.aluRes core.exMem.rtValue opSize := by
  cases opSize <;> simp only [memStore, h, storeOpcode]

/-- Opcode zero is no access to memory, so a cleared register is none. -/
lemma ExMem.executed_of_ne {x : ExMem} (h : x.Empty ∨ x.Executed) (hne : x.inst ≠ 0) :
    x.Executed := h.resolve_left fun he => hne he.inst_eq

lemma getOpcode_zero : getOpcode 0 = .r := by decide

/-- MEM and WB finish the instruction. -/
lemma Finishing.memStep {mem : Mmu} {core : Core} {s s' : State}
    (h : Finishing mem core.exMem s s') (hok : core.exMem.Empty ∨ core.exMem.Executed)
    (hexc : core.exMem.exception = .none) (hzero : s.regs 0 = 0) :
    ∃ readData badVAddr,
      MemStep core (mem.withPmem s.mem) .none readData badVAddr (mem.withPmem s'.mem) ∧
      commitRegs (moveStage core .none readData badVAddr) s.regs = s'.regs := by
  have hcommit : ∀ readData badVAddr r, commitRegs (moveStage core .none readData badVAddr) s.regs r =
      if writesGpr core.exMem.inst r then (moveStage core .none readData badVAddr).data
      else s.regs r := fun readData badVAddr r => commitRegs_apply (moved_moveStage hok) hzero r
  cases h with
  | plain hread hwrite hregs hmem =>
    rw [hmem]
    refine ⟨_, _, .plain hexc hread hwrite, ?_⟩
    funext r
    rw [hcommit, hregs]
    refine if_ctx_congr Iff.rfl (fun hw => ?_) fun _ => rfl
    refine data_moveStage hok hw.1 ?_
    rcases hok with he | hx
    · rw [he.inst_eq]
      decide
    · rw [← hx.memRead_eq, hread]
  | load opSize hop hin hregs hmem =>
    have hx : core.exMem.Executed := by
      refine ExMem.executed_of_ne hok fun hz => ?_
      rw [hz, getOpcode_zero] at hop
      cases opSize <;> cases hop
    have hctl := controlOf_load hop
    have hr : core.exMem.cMemRead = true := by rw [hx.memRead_eq, hctl]
    have hto : core.exMem.cMemToReg = true := by rw [hx.memToReg_eq, hctl]
    have hread := mmuRead_kseg0 (show InKseg0 (mem.withPmem s.mem) _ _ from hin) core.memWb.readData
    rw [hmem]
    refine ⟨_, _, .load hexc hr ((memLoad_eq hop).trans hread), ?_⟩
    funext r
    rw [hcommit, hregs]
    refine if_ctx_congr Iff.rfl (fun _ => ?_) fun _ => rfl
    simp only [MemWb.data, moveStage, hto, if_true]
    rfl
  | store opSize hop hin hregs hmem =>
    have hx : core.exMem.Executed := by
      refine ExMem.executed_of_ne hok fun hz => ?_
      rw [hz, getOpcode_zero] at hop
      cases opSize <;> cases hop
    have hctl := controlOf_store hop
    have hr : core.exMem.cMemRead = false := by rw [hx.memRead_eq, hctl]
    have hw : core.exMem.cMemWrite = true := by rw [hx.memWrite_eq, hctl]
    have hwrite := mmuWrite_kseg0 (show InKseg0 (mem.withPmem s.mem) _ _ from hin)
      core.exMem.rtValue
    rw [hmem]
    refine ⟨_, _, .store hexc hr hw ((memStore_eq hop).trans hwrite), ?_⟩
    funext r
    have hno : ¬ writesGpr core.exMem.inst r := by
      rintro ⟨⟨hrw, -⟩, -⟩
      rw [hctl] at hrw
      cases hrw
    rw [hcommit, hregs, if_neg hno]

/-! ### EX -/

/-- The address of a load or store lies in populated kseg0. -/
def DataOk (mem : Mmu) (s : State) : Instr → Prop
  | .load opSize rs _ imm | .store opSize rs _ imm =>
    InKseg0 mem (s.regs rs + imm.signExtend 32) opSize.bytes
  | _ => True

/-- The base and the offset of a store do not overflow. -/
def StoreOk (s : State) : Instr → Prop
  | .store _ rs _ imm => ¬ overflows (s.regs rs) (imm.signExtend 32)
  | _ => True

/-- Register writes of the interpreter in terms of the instruction word. -/
lemma writeReg_apply {w : Word} {rd : ℕ} (hop : getOpcode w ≠ .cp0)
    (hw : (controlOf w).regWrite = true) (hd : dstOf w = rd) (regs : ℕ → Word) (v : Word) (r : ℕ) :
    writeReg regs rd v r = if writesGpr w r then v else regs r := by
  have hiff : writesGpr w r ↔ rd ≠ 0 ∧ rd = r := by
    unfold writesGpr writesNum
    rw [hd]
    exact ⟨fun h => h.1.2, fun h => ⟨⟨hw, h⟩, fun hm => hop hm.1⟩⟩
  rw [writeReg, if_congr hiff rfl rfl]
  by_cases hz : rd = 0
  · simp [hz]
  · by_cases hr : rd = r
    · subst hr
      simp [hz]
    · simp [hz, hr, Function.update_of_ne (Ne.symm hr)]

lemma controlOf_special {w : Word} (hop : getOpcode w = .r) (hf : getFunct w ≠ .jr) :
    controlOf w = { regDst := true, aluOp := .rType, regWrite := true } := by
  simp only [controlOf, hop, if_neg hf]

lemma dstOf_special {w : Word} (hop : getOpcode w = .r) (hf : getFunct w ≠ .jr) :
    dstOf w = getRd w := by
  have hm : ¬ isMfc0 w := fun hm => by simp [hm.1] at hop
  have ht : ¬ isMtc0 w := fun ht => by simp [ht.1] at hop
  rw [dstOf, controlOf_special hop hf, if_pos rfl, rdOf, if_neg hm, if_neg ht]

lemma functOf_special {w : Word} (hop : getOpcode w = .r) : functOf w = getFunct w := by
  have hm : ¬ isCp0Move w := fun hm => by
    rcases hm with hm | hm <;> simp [hm.1] at hop
  rw [functOf, if_neg hm]

lemma rtOf_eq {w : Word} (hcp0 : getOpcode w ≠ .cp0) (hjal : getOpcode w ≠ .jal) :
    rtOf w = getRt w := by
  have hm : ¬ isCp0Move w := fun hm => hm.elim (fun h => hcp0 h.1) fun h => hcp0 h.1
  rw [rtOf, if_neg hm, if_neg hjal]

section Execute

variable {mem : Mmu} {core : Core} {s : State} {cp0 : ℕ → Word} (hdec : core.idEx.Decoded)
  (hops : Operands core.idEx.inst core.idEx.rsValue core.idEx.rtValue s.regs cp0)

include hdec

/-- Instructions with opcode zero that write `rd`. -/
lemma finishing_special {v : Word} (hop : getOpcode core.idEx.inst = .r)
    (hf : getFunct core.idEx.inst ≠ .jr)
    (hres : aluResult core.idEx core.exMem.aluRes = v) :
    Finishing mem (executeStage core) s (s.advance (writeReg s.regs (getRd core.idEx.inst) v)) := by
  have hctl := controlOf_special hop hf
  refine .plain ?_ ?_ (fun r => ?_) rfl
  · simp only [executeStage, hdec.c_eq, hctl]
  · simp only [executeStage, hdec.c_eq, hctl]
  · have hcp0 : getOpcode core.idEx.inst ≠ .cp0 := by simp [hop]
    have hw : (controlOf core.idEx.inst).regWrite = true := by rw [hctl]
    simp only [executeStage, hres]
    exact writeReg_apply hcp0 hw (dstOf_special hop hf) _ _ _

/-- Instructions with an immediate operand. -/
lemma finishing_imm {v : Word}
    (hctl : controlOf core.idEx.inst = { aluOp := .iType, aluSrc := true, regWrite := true })
    (hcp0 : getOpcode core.idEx.inst ≠ .cp0) (hjal : getOpcode core.idEx.inst ≠ .jal)
    (hres : aluResult core.idEx core.exMem.aluRes = v) :
    Finishing mem (executeStage core) s (s.advance (writeReg s.regs (getRt core.idEx.inst) v)) := by
  have hdst : dstOf core.idEx.inst = getRt core.idEx.inst := by
    rw [dstOf, hctl, if_neg (by simp), rtOf_eq hcp0 hjal]
  refine .plain ?_ ?_ (fun r => ?_) rfl
  · simp only [executeStage, hdec.c_eq, hctl]
  · simp only [executeStage, hdec.c_eq, hctl]
  · have hw : (controlOf core.idEx.inst).regWrite = true := by rw [hctl]
    simp only [executeStage, hres]
    exact writeReg_apply hcp0 hw hdst _ _ _

/-- Instructions that write nothing. -/
lemma finishing_silent {s' : State}
    (hctl : (controlOf core.idEx.inst).regWrite = false ∧
      (controlOf core.idEx.inst).memRead = false ∧ (controlOf core.idEx.inst).memWrite = false)
    (hregs : s'.regs = s.regs) (hmem : s'.mem = s.mem) :
    Finishing mem (executeStage core) s s' := by
  refine .plain ?_ ?_ (fun r => ?_) hmem
  · simp only [executeStage, hdec.c_eq, hctl.2.1]
  · simp only [executeStage, hdec.c_eq, hctl.2.2]
  · have hno : ¬ writesGpr (executeStage core).inst r := by
      rintro ⟨⟨hw, -⟩, -⟩
      exact absurd (hctl.1.symm.trans hw) (by decide)
    rw [hregs, if_neg hno]

include hops

lemma aluResult_alu {fn : AluFn} (hop : getOpcode core.idEx.inst = .r)
    (hf : getFunct core.idEx.inst = fn.funct) (old : Word) :
    aluResult core.idEx old =
      fn.eval (s.regs (getRs core.idEx.inst)) (s.regs (getRt core.idEx.inst)) := by
  have hjr : getFunct core.idEx.inst ≠ .jr := by cases fn <;> simp [hf, AluFn.funct]
  have hctl := controlOf_special hop hjr
  have ha : core.idEx.rsValue = s.regs (getRs core.idEx.inst) := by
    apply hops.rs
    cases fn <;> simp [usesRs, hop, hf, AluFn.funct]
  have hb : core.idEx.rtValue = s.regs (getRt core.idEx.inst) := by
    apply hops.rt
    cases fn <;> simp [usesRt, hop, hf, AluFn.funct]
  have hfun : core.idEx.funct = fn.funct := by rw [hdec.funct_eq, functOf_special hop, hf]
  simp only [aluResult, IdEx.aluB, hdec.c_eq, hctl, hfun, ← ha, ← hb]
  cases fn <;> simp [AluFn.funct, AluFn.eval, BitVec.slt, BitVec.ult]

lemma aluResult_shift {fn : ShiftFn} (hop : getOpcode core.idEx.inst = .r)
    (hf : getFunct core.idEx.inst = fn.funct) (old : Word) :
    aluResult core.idEx old =
      fn.eval (s.regs (getRt core.idEx.inst)) (getShamt core.idEx.inst) := by
  have hjr : getFunct core.idEx.inst ≠ .jr := by cases fn <;> simp [hf, ShiftFn.funct]
  have hctl := controlOf_special hop hjr
  have hb : core.idEx.rtValue = s.regs (getRt core.idEx.inst) := by
    apply hops.rt
    cases fn <;> simp [usesRt, hop, hf, ShiftFn.funct]
  have hfun : core.idEx.funct = fn.funct := by rw [hdec.funct_eq, functOf_special hop, hf]
  simp only [aluResult, IdEx.aluB, hdec.c_eq, hctl, hfun, ← hb, hdec.shamt_eq]
  cases fn <;> simp [ShiftFn.funct, ShiftFn.eval]

lemma aluResult_imm {fn : ImmFn} (hop : getOpcode core.idEx.inst = fn.opcode) (old : Word) :
    aluResult core.idEx old =
      fn.eval (s.regs (getRs core.idEx.inst)) (core.idEx.inst.setWidth 16) := by
  have hctl : controlOf core.idEx.inst = { aluOp := .iType, aluSrc := true, regWrite := true } := by
    cases fn <;> simp [controlOf, hop, ImmFn.opcode]
  have ha : fn ≠ .lui → core.idEx.rsValue = s.regs (getRs core.idEx.inst) := by
    intro hne
    apply hops.rs
    cases fn <;> simp [usesRs, hop, ImmFn.opcode] at hne ⊢
  simp only [aluResult, IdEx.aluB, hdec.c_eq, hctl, hdec.imm_eq, signExtend_getImm, hop, if_true]
  cases fn <;>
    simp [ImmFn.opcode, ImmFn.eval, BitVec.slt, BitVec.ult, signExtend_and_mask,
      signExtend_shiftLeft] at ha ⊢ <;> simp [ha]

/-- The address of a load or store. -/
lemma aluResult_access (hop : (controlOf core.idEx.inst).aluOp = .add)
    (hsrc : (controlOf core.idEx.inst).aluSrc = true) (hu : usesRs core.idEx.inst = true)
    (old : Word) :
    aluResult core.idEx old =
      s.regs (getRs core.idEx.inst) + (core.idEx.inst.setWidth 16).signExtend 32 := by
  simp only [aluResult, IdEx.aluB, hdec.c_eq, hop, hsrc, hdec.imm_eq, signExtend_getImm,
    hops.rs hu, if_true]

/-- EX, MEM and WB execute the instruction, if EX raises no exception. -/
lemma finishing_execute {i : Instr} (henc : Encodes core.idEx.inst i) (hdata : DataOk mem s i)
    (hexc : aluException core.idEx = .none) :
    Finishing mem (executeStage core) s (exec s i) ∧ (exec s i).stopped = s.stopped := by
  cases i with
  | alu fn rs rt rd =>
    obtain ⟨hop, hf, rfl, rfl, rfl⟩ := henc
    have hjr : getFunct core.idEx.inst ≠ .jr := by cases fn <;> simp [hf, AluFn.funct]
    exact ⟨finishing_special hdec hop hjr (aluResult_alu hdec hops hop hf _), rfl⟩
  | shift fn rt rd shamt =>
    obtain ⟨hop, hf, rfl, rfl, rfl⟩ := henc
    have hjr : getFunct core.idEx.inst ≠ .jr := by cases fn <;> simp [hf, ShiftFn.funct]
    exact ⟨finishing_special hdec hop hjr (aluResult_shift hdec hops hop hf _), rfl⟩
  | imm fn rs rt imm =>
    obtain ⟨hop, rfl, rfl, rfl⟩ := henc
    have hctl : controlOf core.idEx.inst =
        { aluOp := .iType, aluSrc := true, regWrite := true } := by
      cases fn <;> simp [controlOf, hop, ImmFn.opcode]
    have hcp0 : getOpcode core.idEx.inst ≠ .cp0 := by cases fn <;> simp [hop, ImmFn.opcode]
    have hjal : getOpcode core.idEx.inst ≠ .jal := by cases fn <;> simp [hop, ImmFn.opcode]
    exact ⟨finishing_imm hdec hctl hcp0 hjal (aluResult_imm hdec hops hop _), rfl⟩
  | addi rs rt imm =>
    obtain ⟨hop, rfl, rfl, rfl⟩ := henc
    have hctl : controlOf core.idEx.inst =
        { aluOp := .iType, aluSrc := true, regWrite := true } := by simp [controlOf, hop]
    have ha : core.idEx.rsValue = s.regs (getRs core.idEx.inst) :=
      hops.rs (by simp [usesRs, hop])
    have hb : core.idEx.aluB = (core.idEx.inst.setWidth 16).signExtend 32 := by
      simp only [IdEx.aluB, hdec.c_eq, hctl, hdec.imm_eq, signExtend_getImm, if_true]
    have hno : ¬ overflows (s.regs (getRs core.idEx.inst))
        ((core.idEx.inst.setWidth 16).signExtend 32) := by
      simp only [aluException, hdec.c_eq, hctl, hop, ha, hb] at hexc
      exact (addException_eq_none_iff _ _).mp hexc
    have hres : aluResult core.idEx core.exMem.aluRes =
        s.regs (getRs core.idEx.inst) + (core.idEx.inst.setWidth 16).signExtend 32 := by
      simp only [aluResult, hdec.c_eq, hctl, hop, ha, hb]
    rw [exec, if_neg hno]
    exact ⟨finishing_imm hdec hctl (by simp [hop]) (by simp [hop]) hres, rfl⟩
  | load opSize rs rt imm =>
    obtain ⟨hop, rfl, rfl, rfl⟩ := henc
    have hctl := controlOf_load hop
    have hu : usesRs core.idEx.inst = true := by cases opSize <;> simp [usesRs, hop, loadOpcode]
    have haddr := aluResult_access hdec hops (by rw [hctl]) (by rw [hctl]) hu core.exMem.aluRes
    have hcp0 : getOpcode core.idEx.inst ≠ .cp0 := by cases opSize <;> simp [hop, loadOpcode]
    have hjal : getOpcode core.idEx.inst ≠ .jal := by cases opSize <;> simp [hop, loadOpcode]
    have hdst : dstOf core.idEx.inst = getRt core.idEx.inst := by
      rw [dstOf, hctl, if_neg (by simp), rtOf_eq hcp0 hjal]
    refine ⟨.load opSize hop ?_ (fun r => ?_) rfl, rfl⟩
    · simp only [executeStage, haddr]
      exact hdata
    · simp only [executeStage, haddr]
      exact writeReg_apply hcp0 (by rw [hctl]) hdst _ _ _
  | store opSize rs rt imm =>
    obtain ⟨hop, rfl, rfl, rfl⟩ := henc
    have hctl := controlOf_store hop
    have hu : usesRs core.idEx.inst = true := by cases opSize <;> simp [usesRs, hop, storeOpcode]
    have haddr := aluResult_access hdec hops (by rw [hctl]) (by rw [hctl]) hu core.exMem.aluRes
    have hb : core.idEx.rtValue = s.regs (getRt core.idEx.inst) :=
      hops.rt (by cases opSize <;> simp [usesRt, hop, storeOpcode])
    refine ⟨.store opSize hop ?_ rfl ?_, rfl⟩
    · simp only [executeStage, haddr]
      exact hdata
    · simp only [executeStage, haddr, hb]
      rfl
  | branch onEqual rs rt imm =>
    have hctl : (controlOf core.idEx.inst).regWrite = false ∧
        (controlOf core.idEx.inst).memRead = false ∧
        (controlOf core.idEx.inst).memWrite = false := by
      cases onEqual <;> simp [controlOf, henc.1]
    rw [exec]
    split_ifs
    · exact ⟨finishing_silent hdec hctl rfl rfl, rfl⟩
    · exact ⟨finishing_silent hdec hctl rfl rfl, rfl⟩
  | jump target =>
    exact ⟨finishing_silent hdec (by simp [controlOf, henc.1]) rfl rfl, rfl⟩
  | jumpReg rs =>
    exact ⟨finishing_silent hdec (by simp [controlOf, henc.1, henc.2.1]) rfl rfl, rfl⟩
  | syscall =>
    have hjr : getFunct core.idEx.inst ≠ .jr := by simp [henc.2]
    simp only [aluException, hdec.c_eq, controlOf_special henc.1 hjr, hdec.funct_eq,
      functOf_special henc.1, henc.2] at hexc
    cases hexc

/-- An instruction that raises an exception in EX changes no memory, unless it is a store whose base
and offset overflow: the simulator does not store then. -/
lemma exec_mem_of_exception {i : Instr} (henc : Encodes core.idEx.inst i) (hst : StoreOk s i)
    (hexc : aluException core.idEx ≠ .none) : (exec s i).mem = s.mem := by
  apply exec_mem
  rintro opSize rs rt imm rfl
  obtain ⟨hop, rfl, rfl, rfl⟩ := henc
  have hctl := controlOf_store hop
  have ha : core.idEx.rsValue = s.regs (getRs core.idEx.inst) :=
    hops.rs (by cases opSize <;> simp [usesRs, hop, storeOpcode])
  simp only [aluException, IdEx.aluB, hdec.c_eq, hctl, hdec.imm_eq, signExtend_getImm, ha,
    if_true] at hexc
  exact hexc ((addException_eq_none_iff _ _).mpr hst)

/-- After the delay slot, which is fetched before the instruction is executed, the program continues
where the interpreter does. -/
lemma redirect_execute {i : Instr} (henc : Encodes core.idEx.inst i)
    (hnext : core.idEx.nextPc = s.pc + 4)
    (hjump : getOpcode core.idEx.inst = .j → core.idEx.jumpAddr =
      (core.idEx.nextPc &&& 0xF0000000#32) ||| (getAddress core.idEx.inst <<< 2))
    (hstop : (exec s i).stopped = false) :
    core.idEx.redirect.getD (s.npc + 4) = (exec s i).npc := by
  cases i with
  | alu fn rs rt rd =>
    obtain ⟨hop, hf, -⟩ := henc
    have hjr : getFunct core.idEx.inst ≠ .jr := by cases fn <;> simp [hf, AluFn.funct]
    rw [hdec.redirect_eq_none (by simp [controlOf_special hop hjr])]
    rfl
  | shift fn rt rd shamt =>
    obtain ⟨hop, hf, -⟩ := henc
    have hjr : getFunct core.idEx.inst ≠ .jr := by cases fn <;> simp [hf, ShiftFn.funct]
    rw [hdec.redirect_eq_none (by simp [controlOf_special hop hjr])]
    rfl
  | imm fn rs rt imm =>
    rw [hdec.redirect_eq_none (by cases fn <;> simp [controlOf, henc.1, ImmFn.opcode])]
    rfl
  | addi rs rt imm =>
    rw [hdec.redirect_eq_none (by simp [controlOf, henc.1])]
    rw [exec] at hstop ⊢
    split_ifs at hstop ⊢
    rfl
  | load opSize rs rt imm =>
    rw [hdec.redirect_eq_none (by simp [controlOf_load henc.1])]
    rfl
  | store opSize rs rt imm =>
    rw [hdec.redirect_eq_none (by simp [controlOf_store henc.1])]
    rfl
  | branch onEqual rs rt imm =>
    obtain ⟨hop, rfl, rfl, rfl⟩ := henc
    have ha := hops.rs (by cases onEqual <;> simp [usesRs, hop])
    have hb := hops.rt (by cases onEqual <;> simp [usesRt, hop])
    simp only [exec, IdEx.redirect, hdec.c_eq, ha, hb, hdec.imm_eq, signExtend_getImm, hnext]
    cases onEqual with
    | true =>
      have hctl : controlOf core.idEx.inst = { beq := true } := by simp [controlOf, hop]
      by_cases heq : s.regs (getRs core.idEx.inst) = s.regs (getRt core.idEx.inst)
      · simp [hctl, heq, State.branchTo]
      · simp [hctl, heq, State.advance]
    | false =>
      have hctl : controlOf core.idEx.inst = { bne := true } := by simp [controlOf, hop]
      by_cases heq : s.regs (getRs core.idEx.inst) = s.regs (getRt core.idEx.inst)
      · simp [hctl, heq, State.advance]
      · simp [hctl, heq, State.branchTo]
  | jump target =>
    obtain ⟨hop, rfl⟩ := henc
    have hctl : controlOf core.idEx.inst = { jump := true } := by simp [controlOf, hop]
    have heret : core.idEx.inst ≠ instructionEret := by
      intro he
      rw [he] at hop
      exact absurd hop (by decide)
    simp only [exec, IdEx.redirect, IdEx.jumpTarget, hdec.c_eq, hctl, hop, heret, hjump hop, hnext,
      getAddress_eq]
    rfl
  | jumpReg rs =>
    obtain ⟨hop, hf, rfl⟩ := henc
    have hctl : controlOf core.idEx.inst = { jump := true } := by simp [controlOf, hop, hf]
    have ha := hops.rs (by simp [usesRs, hop, hf])
    simp only [exec, IdEx.redirect, IdEx.jumpTarget, hdec.c_eq, hctl, hop, hf, ha]
    rfl
  | syscall => cases hstop

end Execute

end MipsSim
