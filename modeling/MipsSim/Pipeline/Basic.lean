import MipsSim.Machine.Cpu
import MipsSim.Memory.Basic

/-!
# The pipeline

The five stages of `sim.c`, the forwarding unit and the clock tick. A stage is a function from the
core before it to the core after it; the stages that access memory may fault.
-/

namespace MipsSim

/-! ### Instruction fetch -/

/-- The hazard test of `interpret_if`: a load in `ID_EX` writes a register of the fetched word. -/
def Core.stalls (core : Core) (inst : Word) : Prop :=
  core.idEx.c.memRead = true ∧ (core.idEx.rt = getRs inst ∨ core.idEx.rt = getRt inst)

instance (core : Core) (inst : Word) : Decidable (core.stalls inst) :=
  inferInstanceAs (Decidable (_ ∧ _))

/-- `interpret_if`. On a hazard the word in `IF_ID` becomes a NOP and the program counter stays. -/
def interpretIf (core : Core) (mem : Mmu) : Except HostFault (Core × Mmu) := do
  let (exception, inst, mem) ← mmuRead mem core.pc 0 .word
  let core := { core with ifId := { core.ifId with exception := exception } }
  if core.stalls inst then
    pure ({ core with ifId := { core.ifId with inst := 0 } }, mem)
  else
    pure ({ core with
            pc := core.pc + 4
            ifId := { core.ifId with
                      inst := inst
                      nextPc := core.pc + 4
                      badVAddr := 0
                      isBranchDelay := false } }, mem)

/-! ### Instruction decode -/

/-- `interpret_id_control`. -/
def interpretIdControl (core : Core) : Core :=
  let inst := core.ifId.inst
  let idEx := { core.idEx with c := {} }
  let jumpAddr := (idEx.nextPc &&& 0xF0000000#32) ||| (getAddress idEx.inst <<< 2)
  let idEx : IdEx :=
    match getOpcode inst with
    | .r =>
      if getFunct idEx.inst = .jr then { idEx with c := { jump := true } }
      else { idEx with c := { regDst := true, aluOp := .rType, regWrite := true } }
    | .lwl | .lwr | .lbu | .lhu | .lw =>
      { idEx with c := { aluSrc := true, memRead := true, regWrite := true, memToReg := true } }
    | .ll | .lui => { idEx with c := { aluOp := .iType, aluSrc := true, regWrite := true } }
    | .sc | .swr | .swl | .sb | .sh | .sw => { idEx with c := { aluSrc := true, memWrite := true } }
    | .beq => { idEx with c := { beq := true } }
    | .bne => { idEx with c := { bne := true } }
    | .slti | .sltiu | .ori | .andi | .addi | .addiu =>
      { idEx with c := { aluOp := .iType, aluSrc := true, regWrite := true } }
    | .j => { idEx with c := { jump := true }, jumpAddr := jumpAddr }
    | .jal =>
      { idEx with
        c := { jump := true, regWrite := true }
        jumpAddr := jumpAddr
        rsValue := idEx.nextPc + 0x04#32
        rt := regRa }
    | .cp0 =>
      match getCp0Funct inst with
      | .mfc0 =>
        { idEx with
          c := { regDst := true, aluOp := .rType, regWrite := true }
          rs := getRd inst + 1
          rsValue := core.cp0 (getRd inst + 1)
          rt := 0
          rtValue := 0
          rd := getRt inst
          funct := .add }
      | .mtc0 =>
        { idEx with
          c := { regDst := true, aluOp := .rType, regWrite := true }
          rs := getRt inst
          rsValue := core.regs (getRt inst)
          rt := 0
          rtValue := 0
          rd := getRd inst + 1
          funct := .add }
      | .unknown _ => idEx
    | .unknown _ => idEx
  { core with idEx := idEx }

/-- `interpret_id`. -/
def interpretId (core : Core) : Core :=
  let inst := core.ifId.inst
  let core :=
    { core with
      idEx := { core.idEx with
                rt := getRt inst
                rd := getRd inst
                rs := getRs inst
                rsValue := core.regs (getRs inst)
                rtValue := core.regs (getRt inst)
                signExtImm := signExtend (getImm inst)
                funct := getFunct inst
                shamt := getShamt inst
                inst := inst
                nextPc := core.ifId.nextPc
                exception := .none
                badVAddr := core.ifId.badVAddr
                isBranchDelay := core.ifId.isBranchDelay } }
  if core.ifId.exception ≠ .none then
    { core with idEx := { core.idEx with exception := core.ifId.exception } }
  else interpretIdControl core

/-! ### Execute -/

/-- `check_soverflow`: the sum of the two as `int32_t` is out of range. -/
def checkSoverflow (a b : Word) : Prop :=
  (b.toInt > 0 ∧ a.toInt > 2147483647 - b.toInt) ∨
    (b.toInt < 0 ∧ a.toInt < -2147483648 - b.toInt)

instance (a b : Word) : Decidable (checkSoverflow a b) := inferInstanceAs (Decidable (_ ∨ _))

/-- The assignment of an addition that is checked for overflow. -/
def checkedAdd (a b : Word) (exMem : ExMem) : ExMem :=
  { exMem with
    exception := if checkSoverflow a b then .arithmeticOverflow else exMem.exception
    aluRes := a + b }

/-- The second operand of the ALU, selected by `c_alu_src`. -/
def IdEx.aluB (idEx : IdEx) : Word := if idEx.c.aluSrc then idEx.signExtImm else idEx.rtValue

/-- `interpret_ex_alu`. Functions and opcodes that it does not know leave `alu_res` as it was. -/
def interpretExAlu (idEx : IdEx) (exMem : ExMem) : ExMem :=
  let a := idEx.rsValue
  let b := idEx.aluB
  match idEx.c.aluOp with
  | .add => checkedAdd a b exMem
  | .beq => exMem
  | .rType =>
    match idEx.funct with
    | .add => { exMem with aluRes := a + b }
    | .addu => { exMem with aluRes := a + b }
    | .sub => { exMem with aluRes := a + b }
    | .subu => { exMem with aluRes := a - b }
    | .and => { exMem with aluRes := a &&& b }
    | .or => { exMem with aluRes := a ||| b }
    | .nor => { exMem with aluRes := ~~~(a ||| b) }
    | .slt => { exMem with aluRes := if a.slt b then 1 else 0 }
    | .sltu => { exMem with aluRes := if a.ult b then 1 else 0 }
    | .sll => { exMem with aluRes := b <<< idEx.shamt }
    | .srl => { exMem with aluRes := b >>> idEx.shamt }
    | .syscall => { exMem with exception := .syscall }
    | .jr | .unknown _ => exMem
  | .iType =>
    match getOpcode idEx.inst with
    | .addi => checkedAdd a b exMem
    | .addiu => { exMem with aluRes := a + b }
    | .slti => { exMem with aluRes := if a.slt b then 1 else 0 }
    | .sltiu => { exMem with aluRes := if a.ult b then 1 else 0 }
    | .andi => { exMem with aluRes := a &&& (b &&& zeroExtendMask) }
    | .ori => { exMem with aluRes := a ||| (b &&& zeroExtendMask) }
    | .lui => { exMem with aluRes := b <<< 16 }
    | _ => exMem

/-- The jump address that `interpret_ex` uses: the register for `JR`. -/
def IdEx.jumpTarget (idEx : IdEx) : Word :=
  if (getOpcode idEx.inst = .r ∧ getFunct idEx.inst = .jr) ∨ idEx.inst = instructionEret then
    idEx.rsValue
  else idEx.jumpAddr

/-- Where the instruction in `ID_EX` redirects the program counter to, if it does. -/
def IdEx.redirect (idEx : IdEx) : Option Word :=
  if idEx.c.bne ∧ idEx.rsValue ≠ idEx.rtValue then some (idEx.nextPc + (idEx.signExtImm <<< 2))
  else if idEx.c.beq ∧ idEx.rsValue = idEx.rtValue then
    some (idEx.nextPc + (idEx.signExtImm <<< 2))
  else if idEx.c.jump then some idEx.jumpTarget
  else none

/-- `interpret_ex`. The jump and branch tests come in the order jump, `BEQ`, `BNE`, each overwriting
the program counter, and each marks the word in `IF_ID` as a delay slot. -/
def interpretEx (core : Core) : Core :=
  let idEx := core.idEx
  let exMem : ExMem :=
    { core.exMem with
      cMemRead := idEx.c.memRead
      cMemWrite := idEx.c.memWrite
      rtValue := idEx.rtValue
      cRegWrite := idEx.c.regWrite
      cMemToReg := idEx.c.memToReg
      inst := idEx.inst
      nextPc := idEx.nextPc
      isBranchDelay := idEx.isBranchDelay
      exception := .none }
  if idEx.exception ≠ .none then
    { core with exMem := { exMem with exception := idEx.exception, badVAddr := idEx.badVAddr } }
  else
    { core with
      pc := idEx.redirect.getD core.pc
      ifId := { core.ifId with
                isBranchDelay := idEx.redirect.isSome || core.ifId.isBranchDelay }
      idEx := { idEx with jumpAddr := if idEx.c.jump then idEx.jumpTarget else idEx.jumpAddr }
      exMem := interpretExAlu idEx
        { exMem with regDst := if idEx.c.regDst then idEx.rd else idEx.rt } }

/-! ### Memory -/

/-- The byte offset of an address in its word, as a shift in bits. -/
def byteShift (addr : Word) : ℕ := (addr &&& 3#32).toNat * 8

/-- The address of the word that contains a byte. -/
def wordAddr (addr : Word) : Word := addr &&& 0xfffffffc#32

/-- What `LWL` leaves in `read_data`: the register `reg` under the part that was read. -/
def mergeLwl (addr reg temp32 : Word) : Word :=
  (reg &&& (0xffffffff#32 >>> (32 - byteShift addr))) ||| (temp32 <<< byteShift addr)

/-- What `LWR` leaves in `read_data`. -/
def mergeLwr (addr reg temp32 : Word) : Word :=
  (reg &&& (0xffffffff#32 <<< (8 + byteShift addr))) ||| (temp32 >>> (24 - byteShift addr))

/-- The word that `SWL` writes back. -/
def mergeSwl (addr reg temp32 : Word) : Word :=
  ((temp32 &&& (0xffffffff#32 <<< (32 - byteShift addr))) ||| (reg >>> byteShift addr)) >>>
    (24 - byteShift addr)

/-- The word that `SWR` writes back. -/
def mergeSwr (addr reg temp32 : Word) : Word :=
  (temp32 &&& (0xffffffff#32 >>> (8 + byteShift addr))) ||| (reg <<< (24 - byteShift addr))

/-- The loads of `interpret_mem`, with the new `MEM_WB.exception` and `MEM_WB.read_data`. -/
def memLoad (core : Core) (mem : Mmu) (readData : Word) :
    Except HostFault (Exception × Word × Mmu) :=
  let addr := core.exMem.aluRes
  match getOpcode core.exMem.inst with
  | .lw => mmuRead mem addr readData .word
  | .lbu => mmuRead mem addr readData .byte
  | .lhu => mmuRead mem addr readData .half
  | .lwl => do
    let (exception, temp32, mem) ← mmuRead mem (wordAddr addr) 0 .word
    pure (exception, mergeLwl addr (core.regs core.exMem.regDst) temp32, mem)
  | .lwr => do
    let (exception, temp32, mem) ← mmuRead mem (wordAddr addr) 0 .word
    pure (exception, mergeLwr addr (core.regs core.exMem.regDst) temp32, mem)
  | _ => pure (.none, readData, mem)

/-- The stores of `interpret_mem`, with the new `MEM_WB.exception`. -/
def memStore (core : Core) (mem : Mmu) : Except HostFault (Exception × Mmu) :=
  let addr := core.exMem.aluRes
  match getOpcode core.exMem.inst with
  | .sw => mmuWrite mem addr core.exMem.rtValue .word
  | .sb => mmuWrite mem addr core.exMem.rtValue .byte
  | .sh => mmuWrite mem addr core.exMem.rtValue .half
  | .swl => do
    let (_, temp32, mem) ← mmuRead mem (wordAddr addr) 0 .word
    mmuWrite mem (wordAddr addr) (mergeSwl addr (core.regs (getRt core.exMem.inst)) temp32) .word
  | .swr => do
    let (_, temp32, mem) ← mmuRead mem (wordAddr addr) 0 .word
    mmuWrite mem (wordAddr addr) (mergeSwr addr (core.regs (getRt core.exMem.inst)) temp32) .word
  | _ => pure (.none, mem)

/-- `interpret_mem`. -/
def interpretMem (core : Core) (mem : Mmu) : Except HostFault (Core × Mmu) :=
  let exMem := core.exMem
  let memWb : MemWb :=
    { core.memWb with
      cRegWrite := exMem.cRegWrite
      regDst := exMem.regDst
      cMemToReg := exMem.cMemToReg
      aluRes := exMem.aluRes
      inst := exMem.inst
      nextPc := exMem.nextPc
      isBranchDelay := exMem.isBranchDelay
      exception := .none }
  if exMem.exception ≠ .none then
    .ok ({ core with
           memWb := { memWb with exception := exMem.exception, badVAddr := exMem.badVAddr } }, mem)
  else if exMem.cMemRead then do
    let (exception, readData, mem) ← memLoad core mem memWb.readData
    pure ({ core with memWb := { memWb with exception := exception, readData := readData } }, mem)
  else if exMem.cMemWrite then do
    let (exception, mem) ← memStore core mem
    pure ({ core with memWb := { memWb with exception := exception } }, mem)
  else .ok ({ core with memWb := memWb }, mem)

/-! ### Write back -/

/-- `handle_exception`. The test for an address error names `EXC_AddressErrorLoad` twice. -/
def handleException (core : Core) : Core :=
  let memWb := core.memWb
  let cp0 := setReg core.cp0 regEpc memWb.nextPc
  let cp0 := setReg cp0 regCause (getCause memWb.exception memWb.isBranchDelay)
  let cp0 :=
    if memWb.exception = .addressErrorLoad ∨ memWb.exception = .addressErrorLoad then
      setReg cp0 regBadvaddr memWb.badVAddr
    else cp0
  let cp0 := setReg cp0 regSr (cp0 regSr ||| srExl)
  let pc := if cp0 regSr &&& srBev ≠ 0 then cp0 regEbase else 0x80000080#32
  { regs := core.regs, pc := pc, cp0 := cp0, ifId := {}, idEx := {}, exMem := {}, memWb := {} }

/-- The value that `interpret_wb` and the forwarding unit take from `MEM_WB`. -/
def MemWb.data (memWb : MemWb) : Word := if memWb.cMemToReg then memWb.readData else memWb.aluRes

/-- `interpret_wb`, and whether it sets `g_finished`. -/
def interpretWb (core : Core) : Core × Bool :=
  let memWb := core.memWb
  if memWb.inst = instructionEret then
    ({ regs := core.regs
       pc := core.cp0 regEpc
       cp0 := setReg core.cp0 regSr (core.cp0 regSr &&& ~~~srExl)
       ifId := {}, idEx := {}, exMem := {}, memWb := {} }, false)
  else if memWb.exception ≠ .none then
    if memWb.exception = .syscall ∧ core.regs regV0 = 10 then (core, true)
    else (handleException core, false)
  else if memWb.cRegWrite then
    if isMtc0 memWb.inst then
      ({ core with cp0 := setReg core.cp0 memWb.regDst memWb.data }, false)
    else
      ({ core with
         regs := setReg core.regs memWb.regDst (if memWb.regDst = 0 then 0 else memWb.data) }, false)
  else (core, false)

/-! ### Forwarding -/

/-- A later pipeline register as the forwarding unit sees it. -/
structure Source where
  cRegWrite : Bool
  regDst : ℕ
  inst : Word
  data : Word

/-- `EX_MEM` as a source. -/
def ExMem.source (exMem : ExMem) : Source :=
  ⟨exMem.cRegWrite, exMem.regDst, exMem.inst, exMem.aluRes⟩

/-- `MEM_WB` as a source. -/
def MemWb.source (memWb : MemWb) : Source :=
  ⟨memWb.cRegWrite, memWb.regDst, memWb.inst, memWb.data⟩

/-- The source writes the register number. -/
def Source.hits (src : Source) (reg : ℕ) : Prop :=
  src.cRegWrite = true ∧ src.regDst ≠ 0 ∧ src.regDst = reg

/-- The pairs the forwarding unit refuses: `MTC0` to an instruction that is not a CP0 one, and an
instruction that is not a CP0 one to `MFC0`. -/
def Source.illegal (src : Source) (inst : Word) : Prop :=
  (isMtc0 src.inst ∧ getOpcode inst ≠ .cp0) ∨ (getOpcode src.inst ≠ .cp0 ∧ isMfc0 inst)

instance (src : Source) (reg : ℕ) : Decidable (src.hits reg) := inferInstanceAs (Decidable (_ ∧ _))

instance (src : Source) (inst : Word) : Decidable (src.illegal inst) :=
  inferInstanceAs (Decidable (_ ∨ _))

/-- One of the two forwarding multiplexers, for the operand in register `reg` of the instruction
`inst`: the new operand, or `none` when the forwarding unit returns here. -/
def forwardMux (exMem memWb : Source) (inst : Word) (reg : ℕ) (value : Word) : Option Word :=
  if exMem.hits reg then
    if exMem.illegal inst then none else some exMem.data
  else if memWb.hits reg then
    if memWb.illegal inst then none else some memWb.data
  else some value

/-- `forwarding_unit`. -/
def forwardingUnit (core : Core) : Core :=
  let idEx := core.idEx
  if idEx.inst = instructionEret then core
  else
    match forwardMux core.exMem.source core.memWb.source idEx.inst idEx.rs idEx.rsValue with
    | none => core
    | some rsValue =>
      let idEx := { idEx with rsValue := rsValue }
      match forwardMux core.exMem.source core.memWb.source idEx.inst idEx.rt idEx.rtValue with
      | none => { core with idEx := idEx }
      | some rtValue => { core with idEx := { idEx with rtValue := rtValue } }

/-! ### The clock -/

/-- The stages of one clock tick on one core, with whether `g_finished` was set. -/
def tickCore (core : Core) (mem : Mmu) : Except HostFault (Core × Mmu × Bool) := do
  let (core, finished) := interpretWb core
  let (core, mem) ← interpretMem core mem
  let core := interpretId (interpretEx core)
  let (core, mem) ← interpretIf core mem
  pure (forwardingUnit core, mem, finished)

/-- `struct hardware`, with the global `g_finished`. -/
structure Hardware where
  cores : List Core
  mmu : Mmu
  finished : Bool

/-- The loop of `tick` over the cores that are left. -/
def tickCores : List Core → Mmu → Except HostFault (List Core × Mmu × Bool)
  | [], mem => .ok ([], mem, false)
  | core :: cores, mem => do
    let (core, mem, fin) ← tickCore core mem
    let (cores, mem, fins) ← tickCores cores mem
    pure (core :: cores, mem, fin || fins)

/-- `tick`. -/
def tick (hw : Hardware) : Except HostFault Hardware := do
  let (cores, mem, fin) ← tickCores hw.cores hw.mmu
  pure ⟨cores, mem, hw.finished || fin⟩

/-- One iteration of the loop of `run`: it reads the word at the program counter of the first core
for the log and the debugger, and then ticks. -/
def runStep (hw : Hardware) : Except HostFault Hardware :=
  match hw.cores with
  | [] => .error .outOfBounds
  | core :: _ => do
    let (_, _, mem) ← mmuRead hw.mmu core.pc 0 .word
    tick { hw with mmu := mem }

end MipsSim
