import MipsSim.Machine.Cpu
import MipsSim.Memory.Properties
import Mathlib.Tactic.SplitIfs

/-!
# The instruction set

A reference interpreter that executes one MIPS32 instruction at a time, with one branch delay slot
and big-endian memory, for the instructions that the programs of the refinement theorem consist of.
It is written from the instruction set and uses nothing of the pipeline; the second half of the file
says how its instructions are spelled with the constants of `mips32.h`.
-/

namespace MipsSim.Isa

open ByteStore

/-! ### Instructions -/

/-- The three-register instructions. -/
inductive AluFn where
  | addu | subu | and | or | nor | slt | sltu
  deriving DecidableEq, Repr

/-- The shifts by a constant. -/
inductive ShiftFn where
  | sll | srl
  deriving DecidableEq, Repr

/-- The instructions with an immediate operand that do not trap. -/
inductive ImmFn where
  | addiu | slti | sltiu | andi | ori | lui
  deriving DecidableEq, Repr

/-- The instructions, with register numbers. -/
inductive Instr where
  | alu (fn : AluFn) (rs rt rd : ℕ)
  | shift (fn : ShiftFn) (rt rd shamt : ℕ)
  | imm (fn : ImmFn) (rs rt : ℕ) (imm : BitVec 16)
  | addi (rs rt : ℕ) (imm : BitVec 16)
  | load (opSize : MemOpSize) (rs rt : ℕ) (imm : BitVec 16)
  | store (opSize : MemOpSize) (rs rt : ℕ) (imm : BitVec 16)
  | branch (onEqual : Bool) (rs rt : ℕ) (imm : BitVec 16)
  | jump (target : BitVec 26)
  | jumpReg (rs : ℕ)
  | syscall
  deriving DecidableEq, Repr

/-- The `len` bits from bit `lo` on. -/
def field (w : Word) (lo len : ℕ) : ℕ := w.toNat / 2 ^ lo % 2 ^ len

/-- Instructions with opcode zero, by their function code. -/
def decodeSpecial (w : Word) : Option Instr :=
  let rs := field w 21 5
  let rt := field w 16 5
  let rd := field w 11 5
  match field w 0 6 with
  | 0x00 => some (.shift .sll rt rd (field w 6 5))
  | 0x02 => some (.shift .srl rt rd (field w 6 5))
  | 0x08 => some (.jumpReg rs)
  | 0x0C => some .syscall
  | 0x21 => some (.alu .addu rs rt rd)
  | 0x23 => some (.alu .subu rs rt rd)
  | 0x24 => some (.alu .and rs rt rd)
  | 0x25 => some (.alu .or rs rt rd)
  | 0x27 => some (.alu .nor rs rt rd)
  | 0x2A => some (.alu .slt rs rt rd)
  | 0x2B => some (.alu .sltu rs rt rd)
  | _ => none

/-- The instruction that a word encodes. -/
def decode (w : Word) : Option Instr :=
  let rs := field w 21 5
  let rt := field w 16 5
  let imm := w.setWidth 16
  match field w 26 6 with
  | 0x00 => decodeSpecial w
  | 0x02 => some (.jump (w.setWidth 26))
  | 0x04 => some (.branch true rs rt imm)
  | 0x05 => some (.branch false rs rt imm)
  | 0x08 => some (.addi rs rt imm)
  | 0x09 => some (.imm .addiu rs rt imm)
  | 0x0A => some (.imm .slti rs rt imm)
  | 0x0B => some (.imm .sltiu rs rt imm)
  | 0x0C => some (.imm .andi rs rt imm)
  | 0x0D => some (.imm .ori rs rt imm)
  | 0x0F => some (.imm .lui rs rt imm)
  | 0x23 => some (.load .word rs rt imm)
  | 0x24 => some (.load .byte rs rt imm)
  | 0x25 => some (.load .half rs rt imm)
  | 0x28 => some (.store .byte rs rt imm)
  | 0x29 => some (.store .half rs rt imm)
  | 0x2B => some (.store .word rs rt imm)
  | _ => none

/-! ### The interpreter -/

/-- The result of a three-register instruction. -/
def AluFn.eval (fn : AluFn) (a b : Word) : Word :=
  match fn with
  | .addu => a + b
  | .subu => a - b
  | .and => a &&& b
  | .or => a ||| b
  | .nor => ~~~(a ||| b)
  | .slt => if a.toInt < b.toInt then 1 else 0
  | .sltu => if a.toNat < b.toNat then 1 else 0

/-- The result of a shift. -/
def ShiftFn.eval (fn : ShiftFn) (b : Word) (shamt : ℕ) : Word :=
  match fn with
  | .sll => b <<< shamt
  | .srl => b >>> shamt

/-- The result of an instruction with an immediate operand. -/
def ImmFn.eval (fn : ImmFn) (a : Word) (imm : BitVec 16) : Word :=
  match fn with
  | .addiu => a + imm.signExtend 32
  | .slti => if a.toInt < (imm.signExtend 32).toInt then 1 else 0
  | .sltiu => if a.toNat < (imm.signExtend 32).toNat then 1 else 0
  | .andi => a &&& imm.setWidth 32
  | .ori => a ||| imm.setWidth 32
  | .lui => imm.setWidth 32 <<< 16

/-- The signed sum is not a 32-bit number. -/
def overflows (a b : Word) : Prop :=
  ¬ (-(2 ^ 31 : ℤ) ≤ a.toInt + b.toInt ∧ a.toInt + b.toInt < 2 ^ 31)

instance (a b : Word) : Decidable (overflows a b) := inferInstanceAs (Decidable (¬ _))

/-- The state of the interpreter. `mem` is the memory of kseg0 from its first byte on, `npc` the
address of the instruction after the one at `pc`. -/
structure State where
  regs : ℕ → Word
  mem : ℕ → Byte
  pc : Word
  npc : Word
  stopped : Bool := false

/-- A write to a register; register 0 stays zero. -/
def writeReg (regs : ℕ → Word) (r : ℕ) (v : Word) : ℕ → Word :=
  if r = 0 then regs else Function.update regs r v

/-- The big-endian number of the given size at an address. -/
def State.read (s : State) (opSize : MemOpSize) (a : Word) : Word :=
  BitVec.ofNat 32 (ofBigEndian (readBlock s.mem (kseg0Offset a) opSize.bytes))

/-- The memory after storing the low bytes of a number at an address. -/
def State.written (s : State) (opSize : MemOpSize) (a v : Word) : ℕ → Byte :=
  writeBlock s.mem (kseg0Offset a) (toBigEndian opSize.bytes v.toNat)

/-- Go on to the next instruction with the given registers. -/
def State.advance (s : State) (regs : ℕ → Word) : State :=
  { s with regs := regs, pc := s.npc, npc := s.npc + 4 }

/-- Go on to the delay slot, and from there to the target. -/
def State.branchTo (s : State) (target : Word) : State := { s with pc := s.npc, npc := target }

/-- One instruction. `SYSCALL` and an `ADDI` that overflows leave the program. -/
def exec (s : State) : Instr → State
  | .alu fn rs rt rd => s.advance (writeReg s.regs rd (fn.eval (s.regs rs) (s.regs rt)))
  | .shift fn rt rd shamt => s.advance (writeReg s.regs rd (fn.eval (s.regs rt) shamt))
  | .imm fn rs rt imm => s.advance (writeReg s.regs rt (fn.eval (s.regs rs) imm))
  | .addi rs rt imm =>
    if overflows (s.regs rs) (imm.signExtend 32) then { s with stopped := true }
    else s.advance (writeReg s.regs rt (s.regs rs + imm.signExtend 32))
  | .load opSize rs rt imm =>
    s.advance (writeReg s.regs rt (s.read opSize (s.regs rs + imm.signExtend 32)))
  | .store opSize rs rt imm =>
    { s.advance s.regs with
      mem := s.written opSize (s.regs rs + imm.signExtend 32) (s.regs rt) }
  | .branch onEqual rs rt imm =>
    if (s.regs rs = s.regs rt ↔ onEqual = true) then
      s.branchTo (s.pc + 4 + (imm.signExtend 32 <<< 2))
    else s.advance s.regs
  | .jump target =>
    s.branchTo (((s.pc + 4) &&& 0xF0000000#32) ||| (target.setWidth 32 <<< 2))
  | .jumpReg rs => s.branchTo (s.regs rs)
  | .syscall => { s with stopped := true }

/-- The word at an address. -/
def State.word (s : State) (a : Word) : Word := s.read .word a

/-- One step of the interpreter. -/
def step (s : State) : State :=
  if s.stopped then s
  else
    match decode (s.word s.pc) with
    | none => { s with stopped := true }
    | some i => exec s i

/-- The state after `k` instructions. -/
def run (s : State) (k : ℕ) : State := step^[k] s

/-- The interpreter at the entry point of a program. -/
def State.init (regs : ℕ → Word) (entry : Word) (mem : ℕ → Byte) : State where
  regs := regs
  mem := mem
  pc := entry
  npc := entry + 4

lemma run_succ (s : State) (k : ℕ) : run s (k + 1) = step (run s k) :=
  Function.iterate_succ_apply' _ _ _

lemma step_of_stopped {s : State} (h : s.stopped = true) : step s = s := by
  rw [step, if_pos h]

/-- A program that was left stays so. -/
lemma stopped_mono {s : State} {j k : ℕ} (h : (run s j).stopped = true) (hjk : j ≤ k) :
    (run s k).stopped = true := by
  induction k, hjk using Nat.le_induction with
  | base => exact h
  | succ k _ ih => rw [run_succ, step_of_stopped ih, ih]

/-- Instructions other than stores leave the memory alone. -/
lemma exec_mem (s : State) {i : Instr} (h : ∀ opSize rs rt imm, i ≠ .store opSize rs rt imm) :
    (exec s i).mem = s.mem := by
  cases i with
  | store opSize rs rt imm => exact absurd rfl (h opSize rs rt imm)
  | addi rs rt imm =>
    rw [exec]
    split_ifs <;> rfl
  | branch onEqual rs rt imm =>
    rw [exec]
    split_ifs <;> rfl
  | _ => rfl

/-- An instruction that does not leave the program goes on to the next address. -/
lemma exec_pc {s : State} {i : Instr} (h : (exec s i).stopped = false) : (exec s i).pc = s.npc := by
  cases i with
  | addi rs rt imm =>
    rw [exec] at h ⊢
    split_ifs at h ⊢
    rfl
  | branch onEqual rs rt imm =>
    rw [exec]
    split_ifs <;> rfl
  | syscall => cases h
  | _ => rfl

/-! ### Encodings -/

/-- The function code of a three-register instruction. -/
def AluFn.funct : AluFn → Funct
  | .addu => .addu
  | .subu => .subu
  | .and => .and
  | .or => .or
  | .nor => .nor
  | .slt => .slt
  | .sltu => .sltu

/-- The function code of a shift. -/
def ShiftFn.funct : ShiftFn → Funct
  | .sll => .sll
  | .srl => .srl

/-- The opcode of an instruction with an immediate operand. -/
def ImmFn.opcode : ImmFn → Opcode
  | .addiu => .addiu
  | .slti => .slti
  | .sltiu => .sltiu
  | .andi => .andi
  | .ori => .ori
  | .lui => .lui

/-- The opcode of a load. -/
def loadOpcode : MemOpSize → Opcode
  | .byte => .lbu
  | .half => .lhu
  | .word => .lw

/-- The opcode of a store. -/
def storeOpcode : MemOpSize → Opcode
  | .byte => .sb
  | .half => .sh
  | .word => .sw

/-- The word is an encoding of the instruction, in the terms of `mips32.h`. -/
def Encodes (w : Word) : Instr → Prop
  | .alu fn rs rt rd =>
    getOpcode w = .r ∧ getFunct w = fn.funct ∧ rs = getRs w ∧ rt = getRt w ∧ rd = getRd w
  | .shift fn rt rd shamt =>
    getOpcode w = .r ∧ getFunct w = fn.funct ∧ rt = getRt w ∧ rd = getRd w ∧ shamt = getShamt w
  | .imm fn rs rt imm =>
    getOpcode w = fn.opcode ∧ rs = getRs w ∧ rt = getRt w ∧ imm = w.setWidth 16
  | .addi rs rt imm => getOpcode w = .addi ∧ rs = getRs w ∧ rt = getRt w ∧ imm = w.setWidth 16
  | .load opSize rs rt imm =>
    getOpcode w = loadOpcode opSize ∧ rs = getRs w ∧ rt = getRt w ∧ imm = w.setWidth 16
  | .store opSize rs rt imm =>
    getOpcode w = storeOpcode opSize ∧ rs = getRs w ∧ rt = getRt w ∧ imm = w.setWidth 16
  | .branch onEqual rs rt imm =>
    getOpcode w = (if onEqual then .beq else .bne) ∧ rs = getRs w ∧ rt = getRt w ∧
      imm = w.setWidth 16
  | .jump target => getOpcode w = .j ∧ target = w.setWidth 26
  | .jumpReg rs => getOpcode w = .r ∧ getFunct w = .jr ∧ rs = getRs w
  | .syscall => getOpcode w = .r ∧ getFunct w = .syscall

lemma shiftRight_and_eq_field (w : Word) (lo : ℕ) :
    ((w >>> lo) &&& 0x1F#32).toNat = field w lo 5 := by
  rw [BitVec.toNat_and, BitVec.toNat_ushiftRight, Nat.shiftRight_eq_div_pow]
  exact Nat.and_two_pow_sub_one_eq_mod _ 5

lemma getRs_eq_field (w : Word) : getRs w = field w 21 5 := shiftRight_and_eq_field w 21

lemma getRt_eq_field (w : Word) : getRt w = field w 16 5 := shiftRight_and_eq_field w 16

lemma getRd_eq_field (w : Word) : getRd w = field w 11 5 := shiftRight_and_eq_field w 11

lemma getShamt_eq_field (w : Word) : getShamt w = field w 6 5 := shiftRight_and_eq_field w 6

lemma getFunct_eq_field (w : Word) : getFunct w = Funct.ofCode (field w 0 6) := by
  have h : (w &&& 0x3F#32).toNat = field w 0 6 := by
    rw [BitVec.toNat_and, field, pow_zero, Nat.div_one]
    exact Nat.and_two_pow_sub_one_eq_mod _ 6
  rw [getFunct, h]

lemma getOpcode_eq_field (w : Word) : getOpcode w = Opcode.ofCode (field w 26 6) := by
  have h : (w >>> 26).toNat = field w 26 6 := by
    have hw := w.isLt
    rw [BitVec.toNat_ushiftRight, Nat.shiftRight_eq_div_pow, field]
    omega
  rw [getOpcode, h]

lemma encodes_of_decodeSpecial {w : Word} {i : Instr} (hop : getOpcode w = .r)
    (h : decodeSpecial w = some i) : Encodes w i := by
  have hf := getFunct_eq_field w
  unfold decodeSpecial at h
  split at h
  all_goals cases h
  all_goals
    rename_i hcode
    rw [hcode] at hf
    simp only [Encodes, hop, hf, getRs_eq_field, getRt_eq_field, getRd_eq_field, getShamt_eq_field,
      and_true, true_and]
    rfl

/-- What the decoder of the interpreter takes for an instruction is encoded as `mips32.h` says. -/
lemma encodes_of_decode {w : Word} {i : Instr} (h : decode w = some i) : Encodes w i := by
  have hop := getOpcode_eq_field w
  unfold decode at h
  split at h
  · rename_i hcode
    rw [hcode] at hop
    exact encodes_of_decodeSpecial hop h
  all_goals cases h
  all_goals
    rename_i hcode
    rw [hcode] at hop
    simp only [Encodes, hop, getRs_eq_field, getRt_eq_field, and_true]
    rfl

end MipsSim.Isa
