import MipsSim.Isa.Refinement
import MipsSim.Sequential.Progress

/-!
# From the instruction set to the result

The machine without a pipeline executes the instructions of the reference interpreter, so a program
of these instructions that calls exit makes `simulate` return what the interpreter finds in `$v1`,
after a number of ticks that can be read off the sequence of its instructions.
-/

namespace MipsSim

open Run ByteStore Isa

/-! ### One instruction -/

/-- The sums that the ALU forms for an instruction do not overflow; for branches and jumps it forms
one that nobody uses. A `SYSCALL` always raises an exception. -/
def NoTrap (s : State) (w : Word) : Instr → Prop
  | .addi rs _ imm | .load _ rs _ imm | .store _ rs _ imm =>
    ¬ overflows (s.regs rs) (imm.signExtend 32)
  | .branch .. | .jump _ | .jumpReg _ => ¬ overflows (s.regs (getRs w)) (s.regs (getRt w))
  | .syscall => False
  | _ => True

/-- The machine is about to execute the instruction that the interpreter is at, behind words that
are no CP0 instructions. -/
structure Models (st : State) (s : SingleCycle) : Prop where
  regs_eq : s.regs = st.regs
  reg_zero : st.regs 0 = 0
  pc_eq : s.point.pc = st.pc
  npc_eq : s.point.npc = st.npc
  running : s.halted = false
  prev : getOpcode s.point.prev ≠ .cp0
  prev₂ : getOpcode s.point.prev₂ ≠ .cp0

section Step

variable {mem : Mmu} {st : State} {s : SingleCycle} {w : Word} {i : Instr}

/-- The core in which the machine executes a word. -/
lemma SingleCycle.decoded_decoded (s : SingleCycle) (w : Word) : (s.decoded w).Decoded :=
  decoded_decodeStage _

lemma operands_decoded (h : Models st s) (w : Word) :
    Operands w (s.decoded w).rsValue (s.decoded w).rtValue st.regs s.cp0 := by
  rw [← h.regs_eq]
  exact operands_read (SingleCycle.fetch ⟨s.point, s.regs, s.cp0, 0, false⟩ w)

lemma opcode_ne_jal_of_encodes (h : Encodes w i) : getOpcode w ≠ .jal := by
  cases i with
  | imm fn rs rt imm => cases fn <;> simp [h.1, ImmFn.opcode]
  | load opSize rs rt imm => cases opSize <;> simp [h.1, loadOpcode]
  | store opSize rs rt imm => cases opSize <;> simp [h.1, storeOpcode]
  | branch onEqual rs rt imm => cases onEqual <;> simp [h.1]
  | _ => simp [h.1]

/-- The contents of the registers that the fields of the word name. -/
lemma values_decoded (h : Models st s) (henc : Encodes w i) :
    (s.decoded w).rsValue = st.regs (getRs w) ∧ (s.decoded w).rtValue = st.regs (getRt w) := by
  have hop := opcode_ne_of_encodes henc
  have hf : ¬ isMfc0 w := fun hf => hop hf.1
  have ht : ¬ isMtc0 w := fun ht => hop ht.1
  rw [SingleCycle.decoded, decodeAt_rsValue, decodeAt_rtValue, if_neg hf, if_neg ht,
    if_neg (opcode_ne_jal_of_encodes henc), if_neg (fun hm => hm.elim hf ht), h.regs_eq]
  exact ⟨rfl, rfl⟩

/-- EX raises no exception for an instruction that does not trap. -/
lemma aluException_decoded (h : Models st s) (henc : Encodes w i) (htrap : NoTrap st w i) :
    aluException (s.decoded w) = .none := by
  obtain ⟨hrs, hrt⟩ := values_decoded h henc
  have hinst : (s.decoded w).inst = w := rfl
  have hc : (s.decoded w).c = controlOf w := rfl
  have hfun : (s.decoded w).funct = functOf w := rfl
  have himm : (s.decoded w).signExtImm = (w.setWidth 16).signExtend 32 := signExtend_getImm w
  rw [aluException, IdEx.aluB, hc, hinst, hfun, hrs, hrt, himm]
  cases i with
  | alu fn rs rt rd =>
    obtain ⟨hop, hf, -⟩ := henc
    have hjr : getFunct w ≠ .jr := by cases fn <;> simp [hf, AluFn.funct]
    rw [controlOf_special hop hjr, functOf_special hop, hf]
    cases fn <;> rfl
  | shift fn rt rd shamt =>
    obtain ⟨hop, hf, -⟩ := henc
    have hjr : getFunct w ≠ .jr := by cases fn <;> simp [hf, ShiftFn.funct]
    rw [controlOf_special hop hjr, functOf_special hop, hf]
    cases fn <;> rfl
  | imm fn rs rt imm =>
    have hop := henc.1
    cases fn <;> simp [controlOf, hop, ImmFn.opcode]
  | addi rs rt imm =>
    obtain ⟨hop, rfl, rfl, rfl⟩ := henc
    simp only [controlOf, hop, if_true]
    exact (addException_eq_none_iff _ _).mpr htrap
  | load opSize rs rt imm =>
    obtain ⟨hop, rfl, rfl, rfl⟩ := henc
    rw [controlOf_load hop]
    exact (addException_eq_none_iff _ _).mpr htrap
  | store opSize rs rt imm =>
    obtain ⟨hop, rfl, rfl, rfl⟩ := henc
    rw [controlOf_store hop]
    exact (addException_eq_none_iff _ _).mpr htrap
  | branch onEqual rs rt imm =>
    have hop := henc.1
    cases onEqual <;> simp only [controlOf, hop] <;>
      exact (addException_eq_none_iff _ _).mpr htrap
  | jump target =>
    simp only [controlOf, henc.1]
    exact (addException_eq_none_iff _ _).mpr htrap
  | jumpReg rs =>
    simp only [controlOf, henc.1, henc.2.1, if_true]
    exact (addException_eq_none_iff _ _).mpr htrap
  | syscall => exact absurd htrap not_false

/-- The machine executes the instruction as the interpreter does. -/
lemma Models.step (h : Models st s) (hrun : st.stopped = false)
    (hd : decode (st.word st.pc) = some i) (hpc : InKseg0 mem st.pc 4) (hdata : DataOk mem st i)
    (htrap : NoTrap st (st.word st.pc) i) :
    ∃ s', s.step (mem.withPmem st.mem) = .ok (s', mem.withPmem (exec st i).mem) ∧
      Models (exec st i) s' ∧ s'.point.prev = st.word st.pc ∧ s'.point.fresh = false := by
  set w := st.word st.pc
  have henc := encodes_of_decode hd
  have hexc := aluException_decoded h henc htrap
  set c : Core := { s.fetch w with idEx := s.decoded w }
  have hdec : c.idEx.Decoded := s.decoded_decoded w
  obtain ⟨hfin, hstop⟩ := finishing_execute hdec (operands_decoded h w) henc hdata hexc
  have hex : (s.execute w).exMem = executeStage c := SingleCycle.execute_exMem s w
  rw [← hex] at hfin
  obtain ⟨readData, bad, hmem, hregs⟩ := hfin.memStep
    (by rw [hex]; exact executed_executeStage (.inr hdec)) (by rw [hex]; exact hexc) h.reg_zero
  have hread := mmuRead_kseg0 (show InKseg0 (mem.withPmem st.mem) s.point.pc
    MemOpSize.word.bytes by rw [h.pc_eq]; exact hpc) 0
  rw [show BitVec.ofNat 32 _ = w by rw [h.pc_eq]; rfl] at hread
  have hcommits : (s.moved w (moveStage (s.execute w) .none readData bad)).memWb.commits := by
    refine ⟨fun heret => ?_, rfl⟩
    have hw : w = instructionEret := by
      rw [← heret]
      exact congrArg ExMem.inst hex.symm
    exact opcode_ne_of_encodes henc (by rw [hw]; decide)
  have hwb := interpretWb_of_commits hcommits
  have hpoint := SingleCycle.writeBack_point s w hcommits.not_flushes
  refine ⟨_, (SingleCycle.step_eq_ok h.running).mpr ⟨w, _, _, readData, bad, hread, hmem, rfl⟩,
    ⟨?_, ?_, ?_, ?_, ?_, ?_, ?_⟩, ?_, ?_⟩
  · rw [SingleCycle.writeBack, hwb, ← hregs, ← h.regs_eq, ← SingleCycle.execute_regs s w]
    rfl
  · rw [← hregs]
    exact commitRegs_zero h.reg_zero
  · rw [hpoint, exec_pc (hstop.trans hrun), ← h.npc_eq]
    rfl
  · have hnext : c.idEx.nextPc = st.pc + 4 := congrArg (· + 4) h.pc_eq
    rw [hpoint, ← redirect_execute hdec (operands_decoded h w) henc hnext
      (fun hj => if_pos (.inl hj)) (hstop.trans hrun), ← h.npc_eq]
    rfl
  · rw [SingleCycle.writeBack, hwb]
  · rw [hpoint]
    exact opcode_ne_of_encodes henc
  · rw [hpoint]
    exact h.prev
  · rw [hpoint]
    rfl
  · rw [hpoint]
    rfl

/-- A `SYSCALL` that calls exit halts the machine. -/
lemma Models.exit (h : Models st s) (hd : decode (st.word st.pc) = some .syscall)
    (hpc : InKseg0 mem st.pc 4) (hv0 : st.regs regV0 = 10) :
    ∃ s', s.step (mem.withPmem st.mem) = .ok (s', mem.withPmem st.mem) ∧ s'.regs = st.regs ∧
      s'.halted = true := by
  set w := st.word st.pc
  obtain ⟨hop, hf⟩ := encodes_of_decode hd
  have hjr : getFunct w ≠ .jr := by simp [hf]
  have hread := mmuRead_kseg0 (show InKseg0 (mem.withPmem st.mem) s.point.pc
    MemOpSize.word.bytes by rw [h.pc_eq]; exact hpc) 0
  rw [show BitVec.ofNat 32 _ = w by rw [h.pc_eq]; rfl] at hread
  have hexc : (s.execute w).exMem.exception = .syscall := by
    have hc : (s.decoded w).c = controlOf w := rfl
    have hfun : (s.decoded w).funct = functOf w := rfl
    have hex : (s.execute w).exMem.exception = aluException (s.decoded w) :=
      congrArg ExMem.exception (SingleCycle.execute_exMem s w)
    rw [hex, aluException, hc, controlOf_special hop hjr, hfun, functOf_special hop, hf]
  have hmem := @MemStep.carried (s.execute w) (mem.withPmem st.mem) (by rw [hexc]; decide)
  have hexits : (s.moved w (moveStage (s.execute w) (s.execute w).exMem.exception
      (s.execute w).memWb.readData (s.execute w).exMem.badVAddr)).exits := by
    refine ⟨fun heret => ?_, hexc, ?_⟩
    · have hw : w = instructionEret := by
        rw [← heret]
        exact congrArg ExMem.inst (SingleCycle.execute_exMem s w).symm
      rw [hw] at hop
      exact absurd hop (by decide)
    · rw [← hv0, ← h.regs_eq]
      exact congrFun (SingleCycle.execute_regs s w) regV0
  have hwb := interpretWb_of_exits hexits
  refine ⟨_, (SingleCycle.step_eq_ok h.running).mpr ⟨w, _, _, _, _, hread, hmem, rfl⟩, ?_, ?_⟩
  · rw [SingleCycle.writeBack, hwb, ← h.regs_eq]
    exact SingleCycle.execute_regs s w
  · rw [SingleCycle.writeBack, hwb]

/-! ### Regular programs -/

lemma supported_of_encodes (h : Encodes w i) : supported w = true := by
  cases i with
  | alu fn rs rt rd => cases fn <;> simp [supported, h.1, h.2.1, AluFn.funct]
  | shift fn rt rd shamt => cases fn <;> simp [supported, h.1, h.2.1, ShiftFn.funct]
  | imm fn rs rt imm => cases fn <;> simp [supported, h.1, ImmFn.opcode]
  | load opSize rs rt imm => cases opSize <;> simp [supported, h.1, loadOpcode]
  | store opSize rs rt imm => cases opSize <;> simp [supported, h.1, storeOpcode]
  | branch onEqual rs rt imm => cases onEqual <;> simp [supported, h.1]
  | jumpReg rs => simp [supported, h.1, h.2.1]
  | syscall => simp [supported, h.1, h.2]
  | _ => simp [supported, h.1]

/-- Without CP0 instructions all operands are forwarded as they should be. -/
lemma Models.not_conflict (h : Models st s) (henc : Encodes w i) :
    ¬ Conflict w s.point.prev s.point.prev₂ := by
  have hop := opcode_ne_of_encodes henc
  have hex : ∀ r, ¬ writesCp0 s.point.prev r := fun r hr => h.prev hr.2.1
  have hwb : ∀ r, ¬ writesCp0 s.point.prev₂ r := fun r hr => h.prev₂ hr.2.1
  rw [conflict_other (fun hm => hm.elim (fun hf => hop hf.1) fun ht => hop ht.1)
    (opcode_ne_jal_of_encodes henc)]
  rintro (⟨hr, -⟩ | ⟨hr | hr, -⟩ | ⟨hr, -⟩)
  · exact hex _ hr
  · exact hex _ hr
  · exact hex _ hr
  · exact hwb _ hr

end Step

/-! ### The program in memory -/

/-- The words that are executed in the steps up to `k`. -/
def executedCode (st : State) (k : ℕ) : Code := fun a =>
  if a ∈ (List.range (k + 1)).map fun j => (run st j).pc then some (st.word a) else none

/-- The instructions up to the one of step `k` that follow a load of their operand. -/
def bubbles (st : State) : ℕ → ℕ
  | 0 => 0
  | k + 1 => bubbles st k + if LoadUse (code st k) (code st (k + 1)) then 1 else 0

/-- The program comes to step `k` and raises no exception before. -/
structure Untrapped (mem : Mmu) (st : State) (k : ℕ) : Prop where
  program : Program mem st
  running : (run st k).stopped = false
  noTrap : ∀ j < k, ∀ i, decode (code st j) = some i → NoTrap (run st j) (code st j) i

/-- It calls exit in step `k`. -/
structure CallsExit (mem : Mmu) (st : State) (k : ℕ) : Prop extends Untrapped mem st k where
  syscall : decode (code st k) = some .syscall
  exit : (run st k).regs regV0 = 10

section Code

variable {mem : Mmu} {st : State} {k : ℕ} (h : Untrapped mem st k)

include h

lemma Untrapped.running_of_le {j : ℕ} (hj : j ≤ k) : (run st j).stopped = false :=
  MipsSim.running_of_le h.running hj

lemma Untrapped.executedCode_eq {j : ℕ} (hj : j ≤ k) :
    executedCode st k (run st j).pc = some (code st j) := by
  have hmem : (run st j).pc ∈ (List.range (k + 1)).map fun j => (run st j).pc :=
    List.mem_map.mpr ⟨j, List.mem_range.mpr (Nat.lt_succ_of_le hj), rfl⟩
  rw [executedCode, if_pos hmem]
  exact congrArg some (h.program.word_eq_code (h.running_of_le hj) 0)

/-- The program does not change itself. -/
lemma Untrapped.holds (n : ℕ) : (executedCode st k).Holds (mem.withPmem (run st n).mem) := by
  intro a w hw
  unfold executedCode at hw
  split at hw
  next hmem =>
    obtain ⟨j, hj, rfl⟩ := List.mem_map.mp hmem
    obtain rfl := Option.some.inj hw
    have hrun := h.running_of_le (Nat.le_of_lt_succ (List.mem_range.mp hj))
    rw [mmuRead_kseg0 (show InKseg0 (mem.withPmem (run st n).mem) _ MemOpSize.word.bytes from
      h.program.fetches j hrun) 0, ← h.program.word_eq hrun n]
    rfl
  next => cases hw

end Code

/-! ### The run of the program -/

/-- The machine at the instruction of step `j`. -/
structure ModelsAt (st : State) (j : ℕ) (s : SingleCycle) : Prop extends Models (run st j) s where
  fresh : s.point.fresh = decide (j = 0)
  prev_eq : ∀ i, j = i + 1 → s.point.prev = code st i

section ModelsAt

variable {mem : Mmu} {st : State} {j k : ℕ} {s : SingleCycle} (h : ModelsAt st j s)
  (hp : Untrapped mem st k)

include h hp

lemma ModelsAt.regular (hj : j ≤ k) : s.Regular (executedCode st k) := by
  obtain ⟨i, hd, -⟩ := hp.program.decodes j (hp.running_of_le hj)
  have henc := encodes_of_decode hd
  refine ⟨code st j, ?_, supported_of_encodes henc, h.not_conflict henc⟩
  rw [h.pc_eq]
  exact hp.executedCode_eq hj

/-- The machine keeps up with the interpreter. -/
lemma ModelsAt.step (hj : j < k) :
    ∃ s', s.step (mem.withPmem (run st j).mem) = .ok (s', mem.withPmem (run st (j + 1)).mem) ∧
      ModelsAt st (j + 1) s' := by
  have hrun := hp.running_of_le hj.le
  obtain ⟨i, hd, hdata⟩ := hp.program.decodes j hrun
  obtain ⟨s', hs, hmodels, hprev, hfresh⟩ := h.toModels.step hrun hd (hp.program.fetches j hrun)
    hdata (hp.noTrap j hj i hd)
  rw [← run_succ_of_decode hrun hd] at hs hmodels
  refine ⟨s', hs, hmodels, hfresh, fun n hn => ?_⟩
  rw [hprev, ← Nat.succ.inj hn]
  rfl

end ModelsAt

/-- The pipeline is filled before the first instruction. -/
lemma ModelsAt.penalty_zero {st : State} {s : SingleCycle} (h : ModelsAt st 0 s) (text : Code) :
    s.penalty text = 3 := by
  rw [SingleCycle.penalty, h.fresh]
  rfl

/-- There is a bubble behind a load that is used. -/
lemma ModelsAt.penalty_succ {mem : Mmu} {st : State} {j k : ℕ} {s : SingleCycle}
    (h : ModelsAt st (j + 1) s) (hp : Untrapped mem st k) (hj : j + 1 ≤ k) :
    s.penalty (executedCode st k) = if LoadUse (code st j) (code st (j + 1)) then 1 else 0 := by
  rw [SingleCycle.penalty, h.fresh, h.pc_eq, hp.executedCode_eq hj, h.prev_eq j rfl]
  simp

section Run

variable {mem : Mmu} {regs cp0 : ℕ → Word} {entry : Word} {k : ℕ} (hzero : regs 0 = 0)
  (h : Untrapped mem (.init regs entry mem.pmem) k)

include hzero h

/-- By induction on the instructions. -/
lemma modelsAt_iterate {j : ℕ} (hj : j ≤ k) :
    ∃ s, iterate SingleCycle.run j (.start regs entry cp0, mem) =
        .ok (s, mem.withPmem (run (.init regs entry mem.pmem) j).mem) ∧
      ModelsAt (.init regs entry mem.pmem) j s := by
  induction j with
  | zero =>
    refine ⟨_, rfl, ⟨rfl, hzero, rfl, rfl, rfl, ?_, ?_⟩, rfl, nofun⟩
    · exact opcode_zero_ne
    · exact opcode_zero_ne
  | succ j ih =>
    obtain ⟨s, hs, hmodels⟩ := ih (Nat.le_of_succ_le hj)
    obtain ⟨s', hs', hmodels'⟩ := hmodels.step h (Nat.lt_of_succ_le hj)
    exact ⟨s', iterate_succ_eq_ok.mpr ⟨_, hs, hs'⟩, hmodels'⟩

/-- The ticks until the instruction of step `j` is through MEM. -/
lemma ticks_interpreter {j : ℕ} (hj : j ≤ k) :
    SingleCycle.ticks (executedCode (.init regs entry mem.pmem) k) (.start regs entry cp0, mem)
      (j + 1) = j + bubbles (.init regs entry mem.pmem) j + 4 := by
  induction j with
  | zero =>
    obtain ⟨s, hs, hmodels⟩ := @modelsAt_iterate _ _ cp0 _ _ hzero h _ hj
    rw [SingleCycle.ticks_succ hs, hmodels.penalty_zero]
    rfl
  | succ j ih =>
    obtain ⟨s, hs, hmodels⟩ := @modelsAt_iterate _ _ cp0 _ _ hzero h _ hj
    rw [SingleCycle.ticks_succ hs, hmodels.penalty_succ h hj, ih (Nat.le_of_succ_le hj), bubbles]
    omega

/-- Whatever the pipeline comes to before step `k` is through it executes like the machine. -/
lemma lawful_of_untrapped {n : ℕ} (hn : n < SingleCycle.ticks
      (executedCode (.init regs entry mem.pmem) k) (.start regs entry cp0, mem) (k + 1)) :
    SingleCycle.Lawful (executedCode (.init regs entry mem.pmem) k) (.start regs entry cp0, mem)
      n := by
  intro j hj s mem' hs
  have hjk : j ≤ k :=
    Nat.le_of_lt_succ ((SingleCycle.ticks_mono _ _).lt_iff_lt.mp (Nat.lt_of_le_of_lt hj hn))
  obtain ⟨u, hu, hmodels⟩ := @modelsAt_iterate _ _ cp0 _ _ hzero h _ hjk
  obtain ⟨rfl, rfl⟩ := Prod.mk.inj (Except.ok.inj (hs.symm.trans hu))
  exact ⟨h.holds j, fun _ => hmodels.regular h hjk⟩

end Run

section Exit

variable {mem : Mmu} {regs cp0 : ℕ → Word} {entry : Word} {k : ℕ} (hzero : regs 0 = 0)
  (h : CallsExit mem (.init regs entry mem.pmem) k)

include hzero h

/-- The machine halts with the registers of the interpreter. -/
lemma exits_interpreter :
    ∃ s, SingleCycle.Exits (.start regs entry cp0, mem) (k + 1) s ∧
      iterate SingleCycle.run (k + 1) (.start regs entry cp0, mem) =
        .ok (s, mem.withPmem (run (.init regs entry mem.pmem) k).mem) ∧
      s.regs = (run (.init regs entry mem.pmem) k).regs := by
  obtain ⟨s, hs, hmodels⟩ := @modelsAt_iterate _ _ cp0 _ _ hzero h.toUntrapped _ le_rfl
  obtain ⟨s', hs', hregs, hhalt⟩ := hmodels.toModels.exit h.syscall
    (h.program.fetches k h.running) h.exit
  have hrun := iterate_succ_eq_ok.mpr ⟨_, hs, hs'⟩
  refine ⟨s', ⟨⟨_, hrun⟩, hhalt, fun j hj t mem' ht => ?_⟩, hrun, hregs⟩
  obtain ⟨u, hu, hmodels'⟩ :=
    @modelsAt_iterate _ _ cp0 _ _ hzero h.toUntrapped _ (Nat.le_of_lt_succ hj)
  obtain ⟨rfl, -⟩ := Prod.mk.inj (Except.ok.inj (ht.symm.trans hu))
  exact hmodels'.running

/-- The program is one that the pipeline executes like the machine. -/
lemma lawful_interpreter :
    SingleCycle.Lawful (executedCode (.init regs entry mem.pmem) k) (.start regs entry cp0, mem)
      (SingleCycle.ticks (executedCode (.init regs entry mem.pmem) k) (.start regs entry cp0, mem)
        (k + 1)) := by
  intro j hj s mem' hs
  rcases Nat.lt_or_eq_of_le hj with hlt | heq
  · exact lawful_of_untrapped hzero h.toUntrapped hlt j le_rfl s mem' hs
  · obtain rfl := (SingleCycle.ticks_mono _ _).injective heq
    obtain ⟨u, hexit, hu, -⟩ := @exits_interpreter _ _ cp0 _ _ hzero h
    obtain ⟨rfl, rfl⟩ := Prod.mk.inj (Except.ok.inj (hs.symm.trans hu))
    exact ⟨h.holds k, fun hrun => absurd (hrun.symm.trans hexit.halted) (by decide)⟩

end Exit

/-! ### The result -/

section Result

variable {program : Option (List Byte)} {memsz k : ℕ} {entry : Word} {mem : Mmu}
  (hload : elfDump program 0 (initIo (mmuInit memsz)) = .ok (none, entry, mem))
  (h : CallsExit mem (.init (bootRegs memsz) entry mem.pmem) k)

include hload h

/-- A program that calls exit after `k` instructions makes `simulate` return what the interpreter
finds in `$v1` then, unless an access of the simulator's own crashes. The loop of `run` makes one
round for each instruction and each bubble, and four more. -/
theorem simulate_of_callsExit :
    (∀ fuel, k + bubbles (.init (bootRegs memsz) entry mem.pmem) k + 5 < fuel →
      (simulate program 1 memsz fuel =
          .ok (some ((run (.init (bootRegs memsz) entry mem.pmem) k).regs regV1)) ↔
        ∀ j ≤ k + bubbles (.init (bootRegs memsz) entry mem.pmem) k + 4, ∀ t,
          iterate runStep j (.start (bootRegs memsz) entry bootCp0 mem) = .ok t → t.Clear)) ∧
    ∀ fuel v, simulate program 1 memsz fuel = .ok (some v) →
      k + bubbles (.init (bootRegs memsz) entry mem.pmem) k + 5 < fuel ∧
        v = (run (.init (bootRegs memsz) entry mem.pmem) k).regs regV1 := by
  have hlaw := @lawful_interpreter _ _ bootCp0 _ _ (bootRegs_zero memsz) h
  have hticks := @ticks_interpreter _ _ bootCp0 _ _ (bootRegs_zero memsz) h.toUntrapped k le_rfl
  obtain ⟨s, hexit, -, hregs⟩ := @exits_interpreter _ _ bootCp0 _ _ (bootRegs_zero memsz) h
  rw [← hregs, ← hticks]
  constructor
  · intro fuel hfuel
    have hlt : SingleCycle.ticks (executedCode (.init (bootRegs memsz) entry mem.pmem) k)
        (.start (bootRegs memsz) entry bootCp0, mem) (k + 1) + 1 < fuel := by
      rw [hticks]
      exact hfuel
    exact ⟨fun hr _ hj _ ht => clear_of_returns hload hexit hlaw hlt hr hj ht,
      returns_of_clear hload hexit hlaw hlt⟩
  · intro fuel v hv
    rcases Nat.lt_or_ge (SingleCycle.ticks (executedCode (.init (bootRegs memsz) entry mem.pmem) k)
      (.start (bootRegs memsz) entry bootCp0, mem) (k + 1) + 1) fuel with hlt | hge
    · rw [simulate_of_lt hload hexit hlaw hlt] at hv
      rw [hticks] at hlt
      refine ⟨hlt, ?_⟩
      obtain ⟨_, -, hw⟩ := map_eq_ok.mp hv
      exact (Option.some.inj hw).symm
    · rw [simulate_of_le hload hexit hlaw hge] at hv
      obtain ⟨_, -, hw⟩ := map_eq_ok.mp hv
      cases hw

end Result

/-- The interpreter on the program with a load that is used. -/
def useState : State := .init (bootRegs 1024) 0x80000000#32 (loadedMmu 1024 useText).pmem

lemma callsExit_use : CallsExit (loadedMmu 1024 useText) useState 4 where
  program := by
    refine program_of_stopped (n := 5) rfl ?_ ?_ ?_
    · intro k hk
      interval_cases k
      · exact ⟨_, rfl, trivial⟩
      · exact ⟨_, rfl, show InKseg0 _ _ _ by decide⟩
      · exact ⟨_, rfl, trivial⟩
      · exact ⟨_, rfl, trivial⟩
      · exact ⟨_, rfl, trivial⟩
    · intro k hk
      interval_cases k <;> decide
    · intro j hj k hk opSize rs rt imm hd
      interval_cases k <;> cases Option.some.inj hd
  running := rfl
  syscall := rfl
  exit := rfl
  noTrap := by
    intro j hj i hd
    interval_cases j <;> cases Option.some.inj hd
    all_goals first | trivial | exact show ¬ overflows _ _ by decide

/-- Five instructions and one bubble. -/
theorem simulate_of_callsExit_use :
    simulate (some (executable useText)) 1 1024 11 = .ok (some 0x78030000#32) ∧
      ∀ fuel v, simulate (some (executable useText)) 1 1024 fuel = .ok (some v) →
        10 < fuel ∧ v = 0x78030000#32 := by
  have hbubbles : bubbles useState 4 = 1 := rfl
  have hv1 : (run useState 4).regs regV1 = 0x78030000#32 := rfl
  obtain ⟨hret, hall⟩ := simulate_of_callsExit useText_loaded callsExit_use
  rw [← useState, hbubbles, hv1] at hret hall
  exact ⟨(hret 11 (by decide)).mpr useText_clear, hall⟩

/-! ### Programs that go on forever -/

/-- A program that goes on forever without an exception never makes `simulate` return. -/
theorem not_returns_of_untrapped {program : Option (List Byte)} {memsz : ℕ} {entry : Word}
    {mem : Mmu} (hload : elfDump program 0 (initIo (mmuInit memsz)) = .ok (none, entry, mem))
    (h : ∀ k, Untrapped mem (.init (bootRegs memsz) entry mem.pmem) k) (fuel : ℕ) (v : Word) :
    simulate program 1 memsz fuel ≠ .ok (some v) := by
  have hzero := bootRegs_zero memsz
  have hlt := SingleCycle.le_ticks (executedCode (.init (bootRegs memsz) entry mem.pmem) fuel)
    (.start (bootRegs memsz) entry bootCp0, mem) (fuel + 1)
  intro hv
  rw [simulate_one hload] at hv
  obtain ⟨k, s, hexit, -, -⟩ := exits_of_run hzero (silent_of_boot (boot_one hload))
    (lawful_of_untrapped hzero (h fuel) (Nat.lt_of_succ_le hlt)) hv
  -- the machine has not come to an exit in step `k`
  obtain ⟨mem', hs⟩ := hexit.run_eq
  obtain ⟨u, hu, hmodels⟩ := modelsAt_iterate hzero (h k) le_rfl
  obtain ⟨rfl, -⟩ := Prod.mk.inj (Except.ok.inj (hs.symm.trans hu))
  exact absurd (hmodels.running.symm.trans hexit.halted) (by decide)

/-- `J 0x80000000; SLL $0, $0, 0`. -/
def loopText : List Byte := [0x08, 0x00, 0x00, 0x00, 0x00, 0x00, 0x00, 0x00]

/-- The interpreter on it. -/
def loopState : State := .init (bootRegs 1024) 0x80000000#32 (loadedMmu 1024 loopText).pmem

lemma run_loopState (k : ℕ) : run loopState k = loopState ∨ run loopState k = run loopState 1 := by
  induction k with
  | zero => exact .inl rfl
  | succ k ih =>
    rw [run_succ]
    rcases ih with h | h
    · rw [h]
      exact .inr rfl
    · rw [h]
      exact .inl rfl

lemma untrapped_loopState (k : ℕ) : Untrapped (loadedMmu 1024 loopText) loopState k where
  program :=
    { decodes := by
        intro k _
        unfold code
        rcases run_loopState k with h | h
        · rw [h]
          exact ⟨_, rfl, trivial⟩
        · rw [h]
          exact ⟨_, rfl, trivial⟩
      fetches := by
        intro k _
        rcases run_loopState k with h | h
        · rw [h]
          decide
        · rw [h]
          decide
      code_kept := by
        intro j k opSize rs rt imm _ _ hd
        unfold code at hd
        rcases run_loopState k with h | h
        · rw [h] at hd
          cases Option.some.inj hd
        · rw [h] at hd
          cases Option.some.inj hd }
  running := by
    rcases run_loopState k with h | h
    · rw [h]
      rfl
    · rw [h]
      rfl
  noTrap := by
    intro j _ i hd
    unfold code at hd ⊢
    rcases run_loopState j with h | h
    · rw [h] at hd ⊢
      cases Option.some.inj hd
      exact show ¬ overflows _ _ by decide
    · rw [h] at hd ⊢
      cases Option.some.inj hd
      trivial

/-- An endless loop. -/
theorem not_returns_of_untrapped_loop :
    (∀ k, Untrapped (loadedMmu 1024 loopText) loopState k) ∧
      ∀ fuel v, simulate (some (executable loopText)) 1 1024 fuel ≠ .ok (some v) := by
  have hload : elfDump (some (executable loopText)) 0 (initIo (mmuInit 1024)) =
      .ok (none, 0x80000000#32, loadedMmu 1024 loopText) := by
    rw [initIo_mmuInit]
    rfl
  exact ⟨untrapped_loopState, not_returns_of_untrapped hload untrapped_loopState⟩

end MipsSim
