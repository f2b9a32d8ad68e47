import MipsSim.Pipeline.Basic
import MipsSim.Memory.Properties
import Mathlib.Tactic.SplitIfs

/-!
# The stages in closed form

What each stage leaves in the pipeline register it fills, as a function of the instruction word and
of the register before it. The later files reason about the stages through these lemmas only.
-/

namespace MipsSim

open Run

/-! ### Decode -/

/-- The control bits of an instruction word. -/
def controlOf (inst : Word) : Control :=
  match getOpcode inst with
  | .r =>
    if getFunct inst = .jr then { jump := true }
    else { regDst := true, aluOp := .rType, regWrite := true }
  | .lwl | .lwr | .lbu | .lhu | .lw =>
    { aluSrc := true, memRead := true, regWrite := true, memToReg := true }
  | .ll | .lui | .slti | .sltiu | .ori | .andi | .addi | .addiu =>
    { aluOp := .iType, aluSrc := true, regWrite := true }
  | .sc | .swr | .swl | .sb | .sh | .sw => { aluSrc := true, memWrite := true }
  | .beq => { beq := true }
  | .bne => { bne := true }
  | .j => { jump := true }
  | .jal => { jump := true, regWrite := true }
  | .cp0 =>
    match getCp0Funct inst with
    | .mfc0 | .mtc0 => { regDst := true, aluOp := .rType, regWrite := true }
    | .unknown _ => {}
  | .unknown _ => {}

/-- The loads, as the decoder knows them. -/
lemma opcode_of_memRead {w : Word} (h : (controlOf w).memRead = true) :
    getOpcode w = .lw ∨ getOpcode w = .lbu ∨ getOpcode w = .lhu ∨ getOpcode w = .lwl ∨
      getOpcode w = .lwr := by
  unfold controlOf at h
  cases hop : getOpcode w with
  | r => by_cases hjr : getFunct w = .jr <;> simp [hop, hjr] at h
  | cp0 => cases hc : getCp0Funct w <;> simp [hop, hc] at h
  | _ => simp [hop] at h ⊢

/-- A load is no branch. -/
lemma control_of_memRead {w : Word} (h : (controlOf w).memRead = true) :
    (controlOf w).beq = false ∧ (controlOf w).bne = false ∧ (controlOf w).jump = false := by
  rcases opcode_of_memRead h with hop | hop | hop | hop | hop <;> simp [controlOf, hop]

/-- The instruction moves to or from a CP0 register. -/
def isCp0Move (inst : Word) : Prop := isMfc0 inst ∨ isMtc0 inst

instance (inst : Word) : Decidable (isCp0Move inst) := inferInstanceAs (Decidable (_ ∨ _))

/-- The number in `ID_EX.rs`, with the CP0 registers offset by one. -/
def rsOf (inst : Word) : ℕ :=
  if isMfc0 inst then getRd inst + 1 else if isMtc0 inst then getRt inst else getRs inst

/-- The number in `ID_EX.rt`. -/
def rtOf (inst : Word) : ℕ :=
  if isCp0Move inst then 0 else if getOpcode inst = .jal then regRa else getRt inst

/-- The number in `ID_EX.rd`. -/
def rdOf (inst : Word) : ℕ :=
  if isMfc0 inst then getRt inst else if isMtc0 inst then getRd inst + 1 else getRd inst

/-- The function in `ID_EX.funct`; moves are additions. -/
def functOf (inst : Word) : Funct := if isCp0Move inst then .add else getFunct inst

/-- The register that the instruction writes, if it writes one. -/
def dstOf (inst : Word) : ℕ := if (controlOf inst).regDst then rdOf inst else rtOf inst

/-- The first operand as it is read in ID, before any forwarding. -/
def rsRead (core : Core) (inst : Word) : Word :=
  if isMfc0 inst then core.cp0 (getRd inst + 1)
  else if isMtc0 inst then core.regs (getRt inst)
  else if getOpcode inst = .jal then core.ifId.nextPc + 0x04#32
  else core.regs (getRs inst)

/-- The second operand as it is read in ID. -/
def rtRead (core : Core) (inst : Word) : Word :=
  if isCp0Move inst then 0 else core.regs (getRt inst)

/-- The jump address after ID; only `J` and `JAL` set it. -/
def jumpRead (core : Core) (inst : Word) : Word :=
  if getOpcode inst = .j ∨ getOpcode inst = .jal then
    (core.ifId.nextPc &&& 0xF0000000#32) ||| (getAddress inst <<< 2)
  else core.idEx.jumpAddr

/-- `ID_EX` after decoding the word in `IF_ID`. -/
def decodeStage (core : Core) : IdEx :=
  let inst := core.ifId.inst
  { c := controlOf inst
    shamt := getShamt inst
    funct := functOf inst
    nextPc := core.ifId.nextPc
    rsValue := rsRead core inst
    rtValue := rtRead core inst
    jumpAddr := jumpRead core inst
    signExtImm := signExtend (getImm inst)
    rs := rsOf inst
    rt := rtOf inst
    rd := rdOf inst
    inst := inst
    isBranchDelay := core.ifId.isBranchDelay
    exception := .none
    badVAddr := core.ifId.badVAddr }

/-- `interpret_id` on a word that was fetched without an exception. -/
lemma interpretId_eq {core : Core} (h : core.ifId.exception = .none) :
    interpretId core = { core with idEx := decodeStage core } := by
  unfold interpretId
  rw [if_neg (by simp [h])]
  unfold interpretIdControl decodeStage controlOf functOf rsRead rtRead jumpRead rsOf rtOf rdOf
  by_cases hf : isMfc0 core.ifId.inst
  · have hm : isCp0Move core.ifId.inst := Or.inl hf
    simp only [if_pos hm, if_pos hf, hf.1, hf.2]
    rfl
  · by_cases ht : isMtc0 core.ifId.inst
    · have hm : isCp0Move core.ifId.inst := Or.inr ht
      simp only [if_pos hm, if_neg hf, if_pos ht, ht.1, ht.2]
      rfl
    · have hm : ¬ isCp0Move core.ifId.inst := fun hm => hm.elim hf ht
      simp only [if_neg hm, if_neg hf, if_neg ht]
      cases hop : getOpcode core.ifId.inst with
      | r => by_cases hjr : getFunct core.ifId.inst = .jr <;> simp only [hjr, if_true, if_false] <;> rfl
      | cp0 =>
        cases hc : getCp0Funct core.ifId.inst with
        | mfc0 => exact absurd ⟨hop, hc⟩ hf
        | mtc0 => exact absurd ⟨hop, hc⟩ ht
        | unknown code => rfl
      | _ => rfl

/-! ### Execute -/

/-- What the ALU leaves in `alu_res`, given what was there. -/
def aluResult (idEx : IdEx) (old : Word) : Word :=
  let a := idEx.rsValue
  let b := idEx.aluB
  match idEx.c.aluOp with
  | .add => a + b
  | .beq => old
  | .rType =>
    match idEx.funct with
    | .add | .addu | .sub => a + b
    | .subu => a - b
    | .and => a &&& b
    | .or => a ||| b
    | .nor => ~~~(a ||| b)
    | .slt => if a.slt b then 1 else 0
    | .sltu => if a.ult b then 1 else 0
    | .sll => b <<< idEx.shamt
    | .srl => b >>> idEx.shamt
    | .syscall | .jr | .unknown _ => old
  | .iType =>
    match getOpcode idEx.inst with
    | .addi | .addiu => a + b
    | .slti => if a.slt b then 1 else 0
    | .sltiu => if a.ult b then 1 else 0
    | .andi => a &&& (b &&& zeroExtendMask)
    | .ori => a ||| (b &&& zeroExtendMask)
    | .lui => b <<< 16
    | _ => old

/-- The exception of an addition that is checked for overflow. -/
def addException (a b : Word) : Exception :=
  if checkSoverflow a b then .arithmeticOverflow else .none

/-- The exception that the ALU raises. -/
def aluException (idEx : IdEx) : Exception :=
  match idEx.c.aluOp with
  | .add => addException idEx.rsValue idEx.aluB
  | .beq => .none
  | .rType =>
    match idEx.funct with
    | .syscall => .syscall
    | _ => .none
  | .iType =>
    match getOpcode idEx.inst with
    | .addi => addException idEx.rsValue idEx.aluB
    | _ => .none

lemma interpretExAlu_eq (idEx : IdEx) {exMem : ExMem} (h : exMem.exception = .none) :
    interpretExAlu idEx exMem =
      { exMem with aluRes := aluResult idEx exMem.aluRes, exception := aluException idEx } := by
  obtain ⟨_, _, _, _, _, _, _, _, _, _, e, _⟩ := exMem
  simp only at h
  subst h
  unfold interpretExAlu aluResult aluException
  cases hop : idEx.c.aluOp with
  | add => rfl
  | beq => rfl
  | rType => cases hf : idEx.funct <;> rfl
  | iType => cases hc : getOpcode idEx.inst <;> rfl

/-- The register number that the multiplexer for `reg_dst` selects. -/
def IdEx.dst (idEx : IdEx) : ℕ := if idEx.c.regDst then idEx.rd else idEx.rt

/-- `EX_MEM` after executing the instruction in `ID_EX`. -/
def executeStage (core : Core) : ExMem :=
  let idEx := core.idEx
  { cRegWrite := idEx.c.regWrite
    cMemRead := idEx.c.memRead
    cMemWrite := idEx.c.memWrite
    cMemToReg := idEx.c.memToReg
    aluRes := aluResult idEx core.exMem.aluRes
    rtValue := idEx.rtValue
    regDst := idEx.dst
    nextPc := idEx.nextPc
    isBranchDelay := idEx.isBranchDelay
    inst := idEx.inst
    exception := aluException idEx
    badVAddr := core.exMem.badVAddr }

/-- `interpret_ex` on an instruction that carries no exception. -/
lemma interpretEx_eq {core : Core} (h : core.idEx.exception = .none) :
    interpretEx core =
      { core with
        pc := core.idEx.redirect.getD core.pc
        ifId := { core.ifId with
                  isBranchDelay := core.idEx.redirect.isSome || core.ifId.isBranchDelay }
        idEx := { core.idEx with
                  jumpAddr := if core.idEx.c.jump then core.idEx.jumpTarget
                    else core.idEx.jumpAddr }
        exMem := executeStage core } := by
  unfold interpretEx
  rw [if_neg (by simp [h])]
  simp only [interpretExAlu_eq]
  rfl

/-! ### Memory -/

/-- `MEM_WB` after moving the instruction in `EX_MEM` on, with what the access left. -/
def moveStage (core : Core) (exception : Exception) (readData badVAddr : Word) : MemWb :=
  { cRegWrite := core.exMem.cRegWrite
    cMemToReg := core.exMem.cMemToReg
    aluRes := core.exMem.aluRes
    readData := readData
    regDst := core.exMem.regDst
    nextPc := core.exMem.nextPc
    inst := core.exMem.inst
    isBranchDelay := core.exMem.isBranchDelay
    exception := exception
    badVAddr := badVAddr }

/-- Everything that `interpret_mem` can do: the exception, `read_data`, `BadVAddr` and the memory
that it leaves. -/
inductive MemStep (core : Core) (mem : Mmu) : Exception → Word → Word → Mmu → Prop
  | carried (h : core.exMem.exception ≠ .none) :
      MemStep core mem core.exMem.exception core.memWb.readData core.exMem.badVAddr mem
  | load {e : Exception} {readData : Word} {mem' : Mmu} (h : core.exMem.exception = .none)
      (hread : core.exMem.cMemRead = true)
      (hload : memLoad core mem core.memWb.readData = .ok (e, readData, mem')) :
      MemStep core mem e readData core.memWb.badVAddr mem'
  | store {e : Exception} {mem' : Mmu} (h : core.exMem.exception = .none)
      (hread : core.exMem.cMemRead = false) (hwrite : core.exMem.cMemWrite = true)
      (hstore : memStore core mem = .ok (e, mem')) :
      MemStep core mem e core.memWb.readData core.memWb.badVAddr mem'
  | plain (h : core.exMem.exception = .none) (hread : core.exMem.cMemRead = false)
      (hwrite : core.exMem.cMemWrite = false) :
      MemStep core mem .none core.memWb.readData core.memWb.badVAddr mem

section MemStep

variable {core : Core} {mem mem' : Mmu} {e : Exception} {readData badVAddr : Word}
  (h : MemStep core mem e readData badVAddr mem')

include h

/-- An instruction that accesses no memory keeps its exception and the memory. -/
lemma MemStep.of_no_access (hread : core.exMem.cMemRead = false)
    (hwrite : core.exMem.cMemWrite = false) : e = core.exMem.exception ∧ mem' = mem := by
  cases h with
  | carried h => exact ⟨rfl, rfl⟩
  | load _ hread' _ => exact absurd (hread.symm.trans hread') (by decide)
  | store _ _ hwrite' _ => exact absurd (hwrite.symm.trans hwrite') (by decide)
  | plain h _ _ => exact ⟨h.symm, rfl⟩

/-- A load that carries no exception is made. -/
lemma MemStep.of_load (hexc : core.exMem.exception = .none) (hread : core.exMem.cMemRead = true) :
    memLoad core mem core.memWb.readData = .ok (e, readData, mem') := by
  cases h with
  | carried hne => exact absurd hexc hne
  | load _ _ hload => exact hload
  | store _ hread' _ _ => exact absurd (hread.symm.trans hread') (by decide)
  | plain _ hread' _ => exact absurd (hread.symm.trans hread') (by decide)

/-- A store that carries no exception is made. -/
lemma MemStep.of_store (hexc : core.exMem.exception = .none) (hread : core.exMem.cMemRead = false)
    (hwrite : core.exMem.cMemWrite = true) : memStore core mem = .ok (e, mem') := by
  cases h with
  | carried hne => exact absurd hexc hne
  | load _ hread' _ => exact absurd (hread.symm.trans hread') (by decide)
  | store _ _ _ hstore => exact hstore
  | plain _ _ hwrite' => exact absurd (hwrite.symm.trans hwrite') (by decide)

end MemStep

lemma interpretMem_cases {core core' : Core} {mem mem' : Mmu}
    (h : interpretMem core mem = .ok (core', mem')) :
    ∃ e readData badVAddr, MemStep core mem e readData badVAddr mem' ∧
      core' = { core with memWb := moveStage core e readData badVAddr } := by
  simp only [interpretMem] at h
  split_ifs at h with hexc hread hwrite
  · simp only [Except.ok.injEq, Prod.mk.injEq] at h
    obtain ⟨rfl, rfl⟩ := h
    exact ⟨_, _, _, .carried hexc, rfl⟩
  · simp only [bind_eq_ok, pure_eq_ok, Prod.exists, Prod.mk.injEq] at h
    obtain ⟨e, readData, mem₁, hload, rfl, rfl⟩ := h
    exact ⟨_, _, _, .load (by simpa using hexc) hread hload, rfl⟩
  · simp only [bind_eq_ok, pure_eq_ok, Prod.exists, Prod.mk.injEq] at h
    obtain ⟨e, mem₁, hstore, rfl, rfl⟩ := h
    exact ⟨_, _, _, .store (by simpa using hexc) (by simpa using hread) hwrite hstore, rfl⟩
  · simp only [Except.ok.injEq, Prod.mk.injEq] at h
    obtain ⟨rfl, rfl⟩ := h
    exact ⟨_, _, _, .plain (by simpa using hexc) (by simpa using hread) (by simpa using hwrite), rfl⟩

/-- Conversely, `interpret_mem` succeeds whenever the access does. -/
lemma interpretMem_eq_ok {core : Core} {mem mem' : Mmu} {e : Exception} {readData badVAddr : Word}
    (h : MemStep core mem e readData badVAddr mem') :
    interpretMem core mem =
      .ok ({ core with memWb := moveStage core e readData badVAddr }, mem') := by
  simp only [interpretMem]
  cases h with
  | carried h => rw [if_pos h]; rfl
  | load h hread hload =>
    rw [if_neg (by simp [h]), if_pos hread, hload]
    rfl
  | store h hread hwrite hstore =>
    rw [if_neg (by simp [h]), if_neg (by simp [hread]), if_pos hwrite, hstore]
    rfl
  | plain h hread hwrite =>
    rw [if_neg (by simp [h]), if_neg (by simp [hread]), if_neg (by simp [hwrite])]
    rfl

/-! ### Fetch -/

/-- `IF_ID` after fetching a word. -/
def fetchStage (core : Core) (inst : Word) : IfId :=
  { inst := inst
    nextPc := core.pc + 4
    exception := .none
    badVAddr := 0
    isBranchDelay := false }

/-- The core after IF, given the word at the program counter: on a hazard the program counter is
held, otherwise the word is fetched. -/
def Core.fetch (core : Core) (inst : Word) : Core :=
  if core.stalls inst then { core with ifId := { core.ifId with exception := .none, inst := 0 } }
  else { core with pc := core.pc + 4, ifId := fetchStage core inst }

lemma interpretIf_eq_ok {core core' : Core} {mem mem' : Mmu} :
    interpretIf core mem = .ok (core', mem') ↔
      ∃ inst, mmuRead mem core.pc 0 .word = .ok (.none, inst, mem') ∧ core' = core.fetch inst := by
  have hfetch : ∀ (inst : Word) (mem : Mmu),
      (if ({ core with ifId := { core.ifId with exception := .none } } : Core).stalls inst then
        pure ({ core with ifId := { core.ifId with exception := .none, inst := 0 } }, mem)
      else pure ({ core with
        pc := core.pc + 4
        ifId := { core.ifId with
                  exception := .none
                  inst := inst
                  nextPc := core.pc + 4
                  badVAddr := 0
                  isBranchDelay := false } }, mem) : Except HostFault (Core × Mmu)) =
        .ok (core.fetch inst, mem) := by
    intro inst mem
    unfold Core.fetch
    by_cases hstall : core.stalls inst
    · rw [if_pos hstall]
      exact if_pos hstall
    · rw [if_neg hstall]
      exact if_neg hstall
  simp only [interpretIf, bind_eq_ok, Prod.exists]
  constructor
  · rintro ⟨e, inst, mem₁, hread, h⟩
    obtain ⟨rfl, -⟩ := mmuRead_spec hread
    rw [hfetch, Except.ok.injEq, Prod.mk.injEq] at h
    obtain ⟨rfl, rfl⟩ := h
    exact ⟨inst, hread, rfl⟩
  · rintro ⟨inst, hread, rfl⟩
    exact ⟨.none, inst, mem', hread, hfetch inst mem'⟩

/-! ### Write back -/

/-- The instruction in `MEM_WB` empties the pipeline: `ERET`, or an exception that is taken. -/
def Core.flushes (core : Core) : Prop :=
  core.memWb.inst = instructionEret ∨
    (core.memWb.exception ≠ .none ∧
      ¬ (core.memWb.exception = .syscall ∧ core.regs regV0 = 10))

/-- The instruction in `MEM_WB` ends the run. -/
def Core.exits (core : Core) : Prop :=
  core.memWb.inst ≠ instructionEret ∧ core.memWb.exception = .syscall ∧ core.regs regV0 = 10

/-- The instruction in `MEM_WB` is written back. -/
def MemWb.commits (memWb : MemWb) : Prop :=
  memWb.inst ≠ instructionEret ∧ memWb.exception = .none

instance (core : Core) : Decidable core.flushes := inferInstanceAs (Decidable (_ ∨ _))

instance (core : Core) : Decidable core.exits := inferInstanceAs (Decidable (_ ∧ _))

instance (memWb : MemWb) : Decidable memWb.commits := inferInstanceAs (Decidable (_ ∧ _))

/-- The general registers after write back. -/
def commitRegs (memWb : MemWb) (regs : ℕ → Word) : ℕ → Word :=
  if memWb.cRegWrite ∧ ¬ isMtc0 memWb.inst then
    setReg regs memWb.regDst (if memWb.regDst = 0 then 0 else memWb.data)
  else regs

/-- The CP0 registers after write back. -/
def commitCp0 (memWb : MemWb) (cp0 : ℕ → Word) : ℕ → Word :=
  if memWb.cRegWrite ∧ isMtc0 memWb.inst then setReg cp0 memWb.regDst memWb.data else cp0

/-- Where the program continues after the pipeline was emptied. -/
def Core.flushTarget (core : Core) : Word :=
  if core.memWb.inst = instructionEret then core.cp0 regEpc
  else if core.cp0 regSr &&& srBev ≠ 0 then core.cp0 regEbase
  else 0x80000080#32

lemma interpretWb_of_commits {core : Core} (h : core.memWb.commits) :
    interpretWb core = ({ core with
      regs := commitRegs core.memWb core.regs
      cp0 := commitCp0 core.memWb core.cp0 }, false) := by
  simp only [interpretWb, commitRegs, commitCp0]
  rw [if_neg h.1, if_neg (by simp [h.2])]
  by_cases hw : core.memWb.cRegWrite = true
  · by_cases hm : isMtc0 core.memWb.inst <;> simp [hw, hm]
  · simp [hw]

lemma interpretWb_of_exits {core : Core} (h : core.exits) : interpretWb core = (core, true) := by
  obtain ⟨heret, hsys, hv0⟩ := h
  simp only [interpretWb]
  rw [if_neg heret, if_pos (by simp [hsys]), if_pos ⟨hsys, hv0⟩]

/-- Setting `EXL` does not touch `BEV`. -/
lemma srExl_srBev (sr : Word) : (sr ||| srExl) &&& srBev = sr &&& srBev := by
  have h : srBev &&& srExl = 0#32 := by decide
  rw [BitVec.and_comm, BitVec.and_or_distrib_left, h, BitVec.or_zero, BitVec.and_comm]

/-- The handler is entered through the vector that `BEV` selects. -/
lemma handleException_pc (core : Core) :
    (handleException core).pc =
      if core.cp0 regSr &&& srBev ≠ 0 then core.cp0 regEbase else 0x80000080#32 := by
  have hsr : ∀ cp0 : ℕ → Word, ∀ i v, i ≠ regSr → setReg cp0 i v regSr = cp0 regSr :=
    fun cp0 i v h => setReg_of_ne cp0 v h.symm
  have hebase : ∀ cp0 : ℕ → Word, ∀ i v, i ≠ regEbase → setReg cp0 i v regEbase = cp0 regEbase :=
    fun cp0 i v h => setReg_of_ne cp0 v h.symm
  simp only [handleException, setReg_self, srExl_srBev]
  by_cases hload : core.memWb.exception = .addressErrorLoad
  · simp only [hload, or_self, if_true, hsr _ regBadvaddr _ (by decide),
      hsr _ regCause _ (by decide), hsr _ regEpc _ (by decide), hebase _ regSr _ (by decide),
      hebase _ regBadvaddr _ (by decide), hebase _ regCause _ (by decide),
      hebase _ regEpc _ (by decide)]
  · simp only [hload, or_self, if_false, hsr _ regCause _ (by decide), hsr _ regEpc _ (by decide),
      hebase _ regSr _ (by decide), hebase _ regCause _ (by decide), hebase _ regEpc _ (by decide)]

/-- The CP0 registers after the pipeline was emptied. -/
def Core.flushCp0 (core : Core) : ℕ → Word :=
  if core.memWb.inst = instructionEret then
    setReg core.cp0 regSr (core.cp0 regSr &&& ~~~srExl)
  else (handleException core).cp0

/-- Emptying the pipeline keeps the general registers and clears the pipeline registers. -/
lemma interpretWb_of_flushes {core : Core} (h : core.flushes) :
    interpretWb core = (.init core.regs core.flushTarget core.flushCp0, false) := by
  simp only [interpretWb, Core.flushTarget, Core.flushCp0]
  by_cases heret : core.memWb.inst = instructionEret
  · rw [if_pos heret, if_pos heret, if_pos heret]
    rfl
  · obtain ⟨hexc, hnx⟩ := h.resolve_left heret
    rw [if_neg heret, if_pos hexc, if_neg hnx, if_neg heret, if_neg heret, ← handleException_pc]
    rfl

/-- The three things that can happen to the instruction in `MEM_WB`. -/
lemma flushes_or_exits_or_commits (core : Core) :
    core.flushes ∨ core.exits ∨ core.memWb.commits := by
  unfold Core.flushes Core.exits MemWb.commits
  tauto

lemma Core.exits.not_flushes {core : Core} (h : core.exits) : ¬ core.flushes := by
  unfold Core.flushes
  unfold Core.exits at h
  tauto

lemma MemWb.commits.not_flushes {core : Core} (h : core.memWb.commits) : ¬ core.flushes := by
  unfold Core.flushes
  unfold MemWb.commits at h
  tauto

end MipsSim
