import MipsSim.Pipeline.Forwarding

/-!
# The machine without a pipeline

The same stages, with one instruction at a time: the next one is fetched when the one before it is
written back. There is nothing to forward and nothing to hold back, and an exception has nothing to
discard. The branch delay slot is kept as two program counters.
-/

namespace MipsSim

open Run

/-! ### Where a program is -/

/-- A point of a program: the address of the next instruction and the one after it, and whether the
next instruction is in a delay slot. The machine itself does not look at the rest, the two
instructions before this one (words of zeros if there are none since the pipeline was cleared) and
whether there are any. -/
structure Point where
  pc : Word
  npc : Word
  delay : Bool
  prev : Word
  prev₂ : Word
  fresh : Bool

/-- The program is entered at an address. -/
def Point.start (pc : Word) : Point := ⟨pc, pc + 4, false, 0, 0, true⟩

/-- The point after the instruction `inst`, given where it redirects the program to. -/
def Point.after (p : Point) (inst : Word) (redirect : Option Word) : Point where
  pc := p.npc
  npc := redirect.getD (p.npc + 4)
  delay := redirect.isSome
  prev := inst
  prev₂ := p.prev
  fresh := false

/-- The state between two instructions. `readData` is the latch `read_data`, in which a load from a
device that assigns nothing finds what the load before it has left there. -/
structure SingleCycle where
  point : Point
  regs : ℕ → Word
  cp0 : ℕ → Word
  readData : Word
  halted : Bool

/-- A program is about to be run. -/
def SingleCycle.start (regs : ℕ → Word) (entry : Word) (cp0 : ℕ → Word) : SingleCycle where
  point := .start entry
  regs := regs
  cp0 := cp0
  readData := 0
  halted := false

namespace SingleCycle

/-! ### One instruction -/

/-- The core after IF: the pipeline holds nothing but the word `inst`. The program counter is the
one after the delay slot, as it is when an instruction of the pipeline comes to EX. -/
def fetch (s : SingleCycle) (inst : Word) : Core where
  regs := s.regs
  pc := s.point.npc + 4
  cp0 := s.cp0
  ifId := { inst := inst, nextPc := s.point.pc + 4, isBranchDelay := s.point.delay }
  idEx := {}
  exMem := {}
  memWb := { readData := s.readData }

/-- The core after ID and EX, with the next instruction to come to `IF_ID`. -/
def execute (s : SingleCycle) (inst : Word) : Core :=
  interpretEx { interpretId (s.fetch inst) with ifId := {} }

/-- The state after WB, from the core after MEM. -/
def writeBack (s : SingleCycle) (inst : Word) (core : Core) : SingleCycle where
  point :=
    if core.flushes then .start (interpretWb core).1.pc
    else
      { pc := s.point.npc
        npc := core.pc
        delay := core.ifId.isBranchDelay
        prev := inst
        prev₂ := s.point.prev
        fresh := false }
  regs := (interpretWb core).1.regs
  cp0 := (interpretWb core).1.cp0
  readData := (interpretWb core).1.memWb.readData
  halted := (interpretWb core).2

/-- One instruction, from its fetch to its write back. -/
def step (s : SingleCycle) (mem : Mmu) : Except HostFault (SingleCycle × Mmu) :=
  if s.halted then .ok (s, mem)
  else do
    let (_, inst, mem) ← mmuRead mem s.point.pc 0 .word
    let (core, mem) ← interpretMem (s.execute inst) mem
    pure (s.writeBack inst core, mem)

/-- The machine with its memory, as a step function. -/
def run (x : SingleCycle × Mmu) : Except HostFault (SingleCycle × Mmu) := x.1.step x.2

end SingleCycle

/-! ### Programs -/

/-- The words that a pipeline executes like any other machine. The others leave what the
instruction before them has left in the latch `alu_res`. -/
def supported (inst : Word) : Bool :=
  match getOpcode inst with
  | .ll => false
  | .r =>
    match getFunct inst with
    | .unknown _ => false
    | _ => true
  | .cp0 => decide (isCp0Move inst) || decide (inst = instructionEret)
  | _ => true

/-- The operands that the forwarding unit hands to `inst` are not those that the registers will
hold: the combinations of `Clash`, for operands that are used and for those that are not, since an
overflow in the sum of the latter is an exception, too. The link address of `JAL` is an operand that
must not be forwarded to at all. -/
def Conflict (inst ex wb : Word) : Prop :=
  if isCp0Move inst then Clash inst ex wb
  else if getOpcode inst = .jal then
    ∃ r ∈ [getRs inst, getRt inst, regRa], writesNum ex r ∨ writesNum wb r
  else
    (writesCp0 ex (getRs inst) ∧ writesGpr wb (getRs inst)) ∨
    ((writesCp0 ex (getRs inst) ∨ writesCp0 ex (getRt inst)) ∧ writesGpr wb (getRt inst)) ∨
    (writesCp0 wb (getRs inst) ∧ ¬ writesNum ex (getRs inst) ∧ writesGpr ex (getRt inst))

instance (inst ex wb : Word) : Decidable (Conflict inst ex wb) :=
  inferInstanceAs (Decidable (ite _ _ (ite _ _ _)))

/-- The words of a program: what is at an address, if it is one of the program. -/
abbrev Code := Word → Option Word

/-- The memory holds the program, and a read of it calls no device. -/
def Code.Holds (code : Code) (mem : Mmu) : Prop :=
  ∀ a w, code a = some w → mmuRead mem a 0 .word = .ok (.none, w, mem)

/-- The next instruction is one of the program that the pipeline executes like this machine. -/
def SingleCycle.Regular (code : Code) (s : SingleCycle) : Prop :=
  ∃ w, code s.point.pc = some w ∧ supported w = true ∧ ¬ Conflict w s.point.prev s.point.prev₂

/-- IF holds the younger instruction back for a tick when it follows the older one directly. -/
def LoadUse (older younger : Word) : Prop :=
  (controlOf older).memRead = true ∧ (rtOf older = getRs younger ∨ rtOf older = getRt younger)

instance (older younger : Word) : Decidable (LoadUse older younger) :=
  inferInstanceAs (Decidable (_ ∧ _))

/-- The ticks that the pipeline loses before the next instruction: it is filled again when it was
cleared, and there is one bubble behind a load that is used. -/
def SingleCycle.penalty (code : Code) (s : SingleCycle) : ℕ :=
  if s.point.fresh then 3
  else if (code s.point.pc).any (LoadUse s.point.prev ·) then 1
  else 0

end MipsSim
