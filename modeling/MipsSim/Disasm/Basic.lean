import MipsSim.Machine.Cpu
import MipsSim.Memory.Basic

/-!
# The disassembler

The tables of names of `mips32.c`, `cpu.c` and `cp0.c`, and `instruction_string` of `disasm.c`,
whose lines go to the log and to the debugger. A line is kept as what was printed into its format,
without the buffer that holds it.
-/

namespace MipsSim

/-! ### Tables of names -/

/-- `op_codes`, without the `NULL` behind the last name. -/
def opCodes : List String :=
  ["SPECIAL", "REGIMM", "J", "JAL", "BEQ", "BNE", "BLEZ", "BGTZ", "ADDI", "ADDIU", "SLTI",
    "SLTIU", "ANDI", "ORI", "XORI", "LUI", "COP0", "COP1", "COP2", "COP3", "BEQL", "BNEL",
    "BLEZL", "BGTZL", "Invalid instruction", "Invalid instruction", "Invalid instruction",
    "Invalid instruction", "SPECIAL2", "Invalid instruction", "Invalid instruction",
    "Invalid instruction", "LB", "LH", "LWL", "LW", "LBU", "LHU", "LWR", "Invalid instruction",
    "SB", "SH", "SWL", "SW", "Invalid instruction", "Invalid instruction", "SWR", "CACHE", "LL",
    "LWC1", "LWC2", "PREF", "Invalid instruction", "LDC1", "LDC2", "Invalid instruction", "SC",
    "SWC1", "SWC2", "Invalid instruction", "Invalid instruction", "SDC1", "SDC2",
    "Invalid instruction"]

/-- `funct_codes`, without the `NULL` behind the last name. -/
def functCodes : List String :=
  ["SLL", "MOVC1", "SRL", "SRA", "SLLV", "Invalid function", "SRLV", "SRAV", "JR", "JALR",
    "MOVZ", "MOVN", "SYSCALL", "BREAK", "Invalid function", "SYNC", "MFHI", "MTHI", "MFLO",
    "MTLO", "Invalid function", "Invalid function", "Invalid function", "Invalid function",
    "MULT", "MULTU", "DIV", "DIVU", "Invalid function", "Invalid function", "Invalid function",
    "Invalid function", "ADD", "ADDU", "SUB", "SUBU", "AND", "OR", "XOR", "NOR",
    "Invalid function", "Invalid function", "SLT", "SLTU", "Invalid function",
    "Invalid function", "Invalid function", "Invalid function", "TGE", "TGEU", "TLT", "TLTU",
    "TEQ", "Invalid function", "TNE", "Invalid function", "Invalid function", "Invalid function",
    "Invalid function", "Invalid function", "Invalid function", "Invalid function",
    "Invalid function", "Invalid function"]

/-- `cp0_codes`. -/
def cp0Codes : List String :=
  ["MFC0", "UNKNOWN", "UNKNOWN", "UNKNOWN", "MTC0"]

/-- `reg_names`. -/
def regNames : List String :=
  ["zero", "at", "v0", "v1", "a0", "a1", "a2", "a3", "t0", "t1", "t2", "t3", "t4", "t5", "t6",
    "t7", "s0", "s1", "s2", "s3", "s4", "s5", "s6", "s7", "t8", "t9", "k0", "k1", "gp", "sp",
    "fp", "ra", "pc"]

/-- `cp0_reg_names`. -/
def cp0RegNames : List String :=
  ["UNUSED", "Context", "Random", "EntryLo0", "EntryLo1", "Context", "PageMask", "Wired",
    "EntryHi", "HWREna", "BadVAddr", "Count", "Compare", "Status", "IntCtl", "EPC", "SRSMap",
    "Cause", "SRSCtl", "PRId", "EBase", "Config", "Config1", "Config2", "Config3", "LLAddr",
    "Debug", "DEPC", "DESAVE", "CacheErr", "ECC", "ErrorEPC", "TagLo", "DataLo", "TagHi",
    "DataHi", "WatchLo", "WatchHi", "PerfCtl", "PerfCnt"]

/-- Reading a name from a table. -/
def nameAt (table : List String) (i : ℕ) : Except HostFault String :=
  match table[i]? with
  | none => .error .outOfBounds
  | some name => .ok name

/-! ### Lines -/

/-- A register as it is printed: its name and its contents. -/
structure Operand where
  name : String
  value : Word
  deriving DecidableEq

/-- The formats of `instruction_string`. -/
inductive Line where
  | rType (mnemonic : String) (rs rt rd : Operand) (shamt : Word)
  | jType (mnemonic : String) (target : Word)
  | iType (mnemonic : String) (rs rt : Operand) (imm : Word)
  | cp0 (coprocessor function : String) (rt rd : Operand)
  | unknown (inst : Word)
  deriving DecidableEq

/-- A digit of `%X`. -/
def hexDigit (n : ℕ) : Char := ("0123456789ABCDEF".toList[n]?).getD '0'

/-- `0x%08X`. -/
def hex (w : Word) : String :=
  "0x" ++ String.ofList ((List.range 8).map fun i => hexDigit ((w >>> (28 - 4 * i)).toNat % 16))

/-- `%s = 0x%08X`. -/
def Operand.text (x : Operand) : String := x.name ++ " = " ++ hex x.value

/-- The text of a line behind the instruction word. -/
def Line.text : Line → String
  | .rType mnemonic rs rt rd shamt =>
    mnemonic ++ "  rs = " ++ rs.text ++ ",  rt = " ++ rt.text ++ ",  rd = " ++ rd.text ++
      ",  shamt = " ++ hex shamt ++ "\n"
  | .jType mnemonic target => mnemonic ++ "   " ++ hex target ++ "\n"
  | .iType mnemonic rs rt imm =>
    mnemonic ++ "  rs = " ++ rs.text ++ ",  rt = " ++ rt.text ++ ",  imm = " ++ hex imm ++ "\n"
  | .cp0 coprocessor function rt rd =>
    coprocessor ++ ", " ++ function ++ "  rt = " ++ rt.text ++ ",  rd = " ++ rd.text ++ "\n"
  | .unknown inst => "Unknown instruction: " ++ hex inst ++ "\n"

/-! ### The disassembler -/

/-- The number that `GET_OPCODE` gives. -/
def opcodeField (inst : Word) : ℕ := (inst >>> 26).toNat

/-- The number that `GET_FUNCT` gives. -/
def functField (inst : Word) : ℕ := (inst &&& 0x3F#32).toNat

/-- A general register as it is printed. -/
def gprOperand (core : Core) (i : ℕ) : Except HostFault Operand := do
  let name ← nameAt regNames i
  pure ⟨name, core.regs i⟩

/-- A CP0 register as it is printed. -/
def cp0Operand (core : Core) (i : ℕ) : Except HostFault Operand := do
  let name ← nameAt cp0RegNames i
  pure ⟨name, core.cp0 i⟩

/-- The switch of `instruction_string`. The CP0 registers are printed by the number in the
instruction word, and there is no case for `LL`. -/
def disassemble (inst : Word) (core : Core) : Except HostFault Line :=
  match getOpcode inst with
  | .r => do
    let mnemonic ← nameAt functCodes (functField inst)
    let rs ← gprOperand core (getRs inst)
    let rt ← gprOperand core (getRt inst)
    let rd ← gprOperand core (getRd inst)
    pure (.rType mnemonic rs rt rd (BitVec.ofNat 32 (getShamt inst)))
  | .j | .jal => do
    let mnemonic ← nameAt opCodes (opcodeField inst)
    pure (.jType mnemonic (getImm inst))
  | .beq | .bne | .addi | .addiu | .slti | .sltiu | .andi | .ori | .lui | .sb | .sc | .sh | .lbu
  | .lhu | .lw | .sw | .swl | .swr | .lwr | .lwl => do
    let mnemonic ← nameAt opCodes (opcodeField inst)
    let rs ← gprOperand core (getRs inst)
    let rt ← gprOperand core (getRt inst)
    pure (.iType mnemonic rs rt (getImm inst))
  | .cp0 => do
    let coprocessor ← nameAt opCodes (opcodeField inst)
    let function ← nameAt cp0Codes (getRs inst)
    let rt ← gprOperand core (getRt inst)
    let rd ← cp0Operand core (getRd inst)
    pure (.cp0 coprocessor function rt rd)
  | .ll | .unknown _ => pure (.unknown inst)

/-- `instruction_string`, with the text that it leaves in the buffer. -/
def instructionString (inst : Word) (core : Core) : Except HostFault String := do
  let line ← disassemble inst core
  pure (hex inst ++ "\t" ++ line.text)

end MipsSim
