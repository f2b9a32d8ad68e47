import MipsSim.Machine.Mips32

/-!
# The core

The register numbers and pipeline registers of `cpu.h` and `cp0.h`. Every field of a pipeline
register has the value that `bzero` and `calloc` give it as its default, so `{}` is a cleared
register. Of the pipeline registers only the fields that some stage reads are kept.
-/

namespace MipsSim

/-! ### Register numbers -/

/-- `REG_V0`. -/
def regV0 : ℕ := 2

/-- `REG_RA`. -/
def regRa : ℕ := 31

/-- `REG_BADVADDR`. -/
def regBadvaddr : ℕ := 10

/-- `REG_SR`. -/
def regSr : ℕ := 13

/-- `REG_EPC`. -/
def regEpc : ℕ := 15

/-- `REG_CAUSE`. -/
def regCause : ℕ := 17

/-- `REG_EBASE`. -/
def regEbase : ℕ := 20

/-- `SR_EXL`. -/
def srExl : Word := 1#32 <<< 1

/-- `SR_BEV`. -/
def srBev : Word := 1#32 <<< 22

/-! ### Pipeline registers -/

/-- The values of the two-bit control code `c_alu_op`. -/
inductive AluOp where
  | add    -- `0x00`, loads and stores, and every instruction that sets nothing else
  | beq    -- `0x01`, unused
  | rType  -- `0x02`
  | iType  -- `0x03`
  deriving DecidableEq, Repr

/-- The `c_*` bits of `struct reg_id_ex`. -/
structure Control where
  regDst : Bool := false
  aluOp : AluOp := .add
  aluSrc : Bool := false
  beq : Bool := false
  bne : Bool := false
  memRead : Bool := false
  memWrite : Bool := false
  regWrite : Bool := false
  memToReg : Bool := false
  jump : Bool := false

/-- `struct reg_if_id`. -/
structure IfId where
  inst : Word := 0
  nextPc : Word := 0
  exception : Exception := .none
  badVAddr : Word := 0
  isBranchDelay : Bool := false

/-- `struct reg_id_ex`. -/
structure IdEx where
  c : Control := {}
  shamt : ℕ := 0
  funct : Funct := .sll
  nextPc : Word := 0
  rsValue : Word := 0
  rtValue : Word := 0
  jumpAddr : Word := 0
  signExtImm : Word := 0
  rs : ℕ := 0
  rt : ℕ := 0
  rd : ℕ := 0
  inst : Word := 0
  isBranchDelay : Bool := false
  exception : Exception := .none
  badVAddr : Word := 0

/-- `struct reg_ex_mem`. -/
structure ExMem where
  cRegWrite : Bool := false
  cMemRead : Bool := false
  cMemWrite : Bool := false
  cMemToReg : Bool := false
  aluRes : Word := 0
  rtValue : Word := 0
  regDst : ℕ := 0
  nextPc : Word := 0
  isBranchDelay : Bool := false
  inst : Word := 0
  exception : Exception := .none
  badVAddr : Word := 0

/-- `struct reg_mem_wb`. -/
structure MemWb where
  cRegWrite : Bool := false
  cMemToReg : Bool := false
  aluRes : Word := 0
  readData : Word := 0
  regDst : ℕ := 0
  nextPc : Word := 0
  inst : Word := 0
  isBranchDelay : Bool := false
  exception : Exception := .none
  badVAddr : Word := 0

/-- `struct core`. The program counter, `regs[REG_PC]` in the source, is a field of its own: the
five-bit register fields of an instruction do not reach it. -/
structure Core where
  regs : ℕ → Word
  pc : Word
  cp0 : ℕ → Word
  ifId : IfId
  idEx : IdEx
  exMem : ExMem
  memWb : MemWb

/-- `regs[i] = v`. -/
def setReg (regs : ℕ → Word) (i : ℕ) (v : Word) : ℕ → Word := fun j => if j = i then v else regs j

@[simp] lemma setReg_self (regs : ℕ → Word) (i : ℕ) (v : Word) : setReg regs i v i = v := if_pos rfl

lemma setReg_of_ne (regs : ℕ → Word) {i j : ℕ} (v : Word) (h : j ≠ i) :
    setReg regs i v j = regs j := if_neg h

/-- One core as `cpu_init` leaves it, with the given program counter and registers: nothing is in
the pipeline. -/
def Core.init (regs : ℕ → Word) (pc : Word) (cp0 : ℕ → Word) : Core where
  regs := regs
  pc := pc
  cp0 := cp0
  ifId := {}
  idEx := {}
  exMem := {}
  memWb := {}

/-- The instruction is `MTC0`. -/
def isMtc0 (inst : Word) : Prop := getOpcode inst = .cp0 ∧ getCp0Funct inst = .mtc0

/-- The instruction is `MFC0`. -/
def isMfc0 (inst : Word) : Prop := getOpcode inst = .cp0 ∧ getCp0Funct inst = .mfc0

instance (inst : Word) : Decidable (isMtc0 inst) := inferInstanceAs (Decidable (_ ∧ _))

instance (inst : Word) : Decidable (isMfc0 inst) := inferInstanceAs (Decidable (_ ∧ _))

end MipsSim
