import Mathlib.Data.BitVec

/-!
# Instruction words

The field macros and the opcode, function and CP0 constants of `mips32.h`. A switch over one of
these constants in the simulator is a match on the corresponding inductive type; a code that has
no constant is kept as `unknown`, which is what the `default` branches see.
-/

namespace MipsSim

/-- A guest word, `uint32_t` in the simulator. -/
abbrev Word := BitVec 32

/-- A byte of host or guest memory, `uint8_t`. -/
abbrev Byte := BitVec 8

/-! ### Opcodes -/

/-- The `OPCODE_*` constants. -/
inductive Opcode where
  | r | j | jal | beq | bne
  | addi | addiu | slti | sltiu | andi | ori | lui
  | lwl | lw | lbu | lhu | lwr | ll
  | sw | sb | sc | sh | swr | swl
  | cp0
  | unknown (code : ℕ)
  deriving DecidableEq, Repr

/-- The table of `OPCODE_*` values. -/
def Opcode.ofCode : ℕ → Opcode
  | 0x00 => .r
  | 0x02 => .j
  | 0x03 => .jal
  | 0x04 => .beq
  | 0x05 => .bne
  | 0x08 => .addi
  | 0x09 => .addiu
  | 0x0A => .slti
  | 0x0B => .sltiu
  | 0x0C => .andi
  | 0x0D => .ori
  | 0x0F => .lui
  | 0x10 => .cp0
  | 0x22 => .lwl
  | 0x23 => .lw
  | 0x24 => .lbu
  | 0x25 => .lhu
  | 0x26 => .lwr
  | 0x28 => .sb
  | 0x29 => .sh
  | 0x2A => .swr
  | 0x2B => .sw
  | 0x2E => .swl
  | 0x30 => .ll
  | 0x38 => .sc
  | n    => .unknown n

/-- The `FUNCT_*` constants. -/
inductive Funct where
  | jr | syscall | add | addu | sub | subu | and | or | nor | slt | sltu | sll | srl
  | unknown (code : ℕ)
  deriving DecidableEq, Repr

/-- The table of `FUNCT_*` values. -/
def Funct.ofCode : ℕ → Funct
  | 0x00 => .sll
  | 0x02 => .srl
  | 0x08 => .jr
  | 0x0C => .syscall
  | 0x20 => .add
  | 0x21 => .addu
  | 0x22 => .sub
  | 0x23 => .subu
  | 0x24 => .and
  | 0x25 => .or
  | 0x27 => .nor
  | 0x2A => .slt
  | 0x2B => .sltu
  | n    => .unknown n

/-- The CP0 functions, encoded in the `rs` field: `CP0_MFC0` and `CP0_MTC0`. -/
inductive Cp0Funct where
  | mfc0 | mtc0
  | unknown (code : ℕ)
  deriving DecidableEq, Repr

/-- The table of `CP0_*` values. -/
def Cp0Funct.ofCode : ℕ → Cp0Funct
  | 0x00 => .mfc0
  | 0x04 => .mtc0
  | n    => .unknown n

/-- `INSTRUCTION_ERET`. -/
def instructionEret : Word := 0x42000018#32

/-! ### Fields of an instruction word -/

/-- `GET_OPCODE`. -/
def getOpcode (inst : Word) : Opcode := Opcode.ofCode (inst >>> 26).toNat

/-- `GET_RS`. -/
def getRs (inst : Word) : ℕ := ((inst >>> 21) &&& 0x1F#32).toNat

/-- `GET_RT`. -/
def getRt (inst : Word) : ℕ := ((inst >>> 16) &&& 0x1F#32).toNat

/-- `GET_RD`. -/
def getRd (inst : Word) : ℕ := ((inst >>> 11) &&& 0x1F#32).toNat

/-- `GET_SHAMT`. -/
def getShamt (inst : Word) : ℕ := ((inst >>> 6) &&& 0x1F#32).toNat

/-- `GET_FUNCT`. -/
def getFunct (inst : Word) : Funct := Funct.ofCode (inst &&& 0x3F#32).toNat

/-- `GET_IMM`. -/
def getImm (inst : Word) : Word := inst &&& 0xFFFF#32

/-- `GET_ADDRESS`. -/
def getAddress (inst : Word) : Word := inst &&& 0x3FFFFFF#32

/-- The CP0 function of an instruction word, `GET_RS` read against `CP0_MFC0` and `CP0_MTC0`. -/
def getCp0Funct (inst : Word) : Cp0Funct := Cp0Funct.ofCode (getRs inst)

/-- `SIGN_EXTEND`: through `int16_t` to `int32_t`. -/
def signExtend (value : Word) : Word := (value.setWidth 16).signExtend 32

/-- `ZERO_EXTEND_MASK`. -/
def zeroExtendMask : Word := 0x0000FFFF#32

/-- A field of five bits. -/
lemma field5_lt (w : Word) (k : ℕ) : ((w >>> k) &&& 0x1F#32).toNat < 32 := by
  rw [BitVec.toNat_and]
  exact Nat.and_lt_two_pow _ (show 0x1F < 2 ^ 5 by decide)

/-! ### Exceptions -/

/-- The exceptions of `exception_t`. -/
inductive Exception where
  | none
  | interrupt
  | addressErrorLoad
  | addressErrorStore
  | busErrorInstructionFetch
  | busErrorLoadStore
  | syscall
  | breakpoint
  | reserved
  | cpUnavailable
  | arithmeticOverflow
  | trap
  | floatingPoint
  deriving DecidableEq, Repr

/-- `CAUSE_BD`, bit 31 of the Cause register. -/
def causeBd : Word := 0x80000000#32

/-- The `CAUSE_ExcCode_*` value that `get_cause` or-s into the Cause register. -/
def Exception.code : Exception → Word
  | .none                     => 0
  | .interrupt                => 0
  | .addressErrorLoad         => 4
  | .addressErrorStore        => 5
  | .busErrorInstructionFetch => 6
  | .busErrorLoadStore        => 7
  | .syscall                  => 8
  | .breakpoint               => 9
  | .reserved                 => 10
  | .cpUnavailable            => 11
  | .arithmeticOverflow       => 12
  | .trap                     => 13
  | .floatingPoint            => 15

/-- `get_cause`. The code is or-ed in as it stands, at bit 0. -/
def getCause (exception : Exception) (inBranchDelay : Bool) : Word :=
  if exception = .none then 0
  else (if inBranchDelay then causeBd else 0) ||| exception.code

end MipsSim
