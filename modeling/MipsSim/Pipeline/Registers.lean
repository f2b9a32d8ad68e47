import MipsSim.Pipeline.Track

/-!
# The register files

In the source the general registers and the program counter are one array of 33 words, and CP0 is an
array of 41 words. The numbers that select an entry travel through the pipeline in a field that both
files share. In every reachable state they stay inside the arrays, and no number that comes from an
instruction selects the program counter.
-/

namespace MipsSim

open Run

/-! ### Register numbers of an instruction -/

/-- `REG_PC`. -/
def regPc : ℕ := 32

/-- `CP0_NUM_REGS`; the array has one entry more. -/
def cp0NumRegs : ℕ := 40

lemma getRs_lt (inst : Word) : getRs inst < 32 := field5_lt inst 21

lemma getRt_lt (inst : Word) : getRt inst < 32 := field5_lt inst 16

lemma getRd_lt (inst : Word) : getRd inst < 32 := field5_lt inst 11

/-- Only `MTC0` names an entry that general registers do not have. -/
lemma dstOf_lt {inst : Word} (h : ¬ isMtc0 inst) : dstOf inst < regPc := by
  have hs := getRt_lt inst
  have hd := getRd_lt inst
  unfold dstOf rdOf rtOf
  simp only [if_neg h, regPc]
  split_ifs
  · exact hs
  · exact hd
  · decide
  · decide
  · exact hs

lemma dstOf_of_isMtc0 {inst : Word} (h : isMtc0 inst) : dstOf inst = getRd inst + 1 := by
  have hf : ¬ isMfc0 inst := fun hf => absurd (hf.2.symm.trans h.2) (by decide)
  simp only [dstOf, controlOf, h.1, h.2, if_true, rdOf, if_neg hf, if_pos h]

/-- A load names a general register. -/
lemma not_isMtc0_of_memRead {inst : Word} (h : (controlOf inst).memRead = true) : ¬ isMtc0 inst := by
  intro ht
  simp [controlOf, ht.1, ht.2] at h

/-- The number that WB writes to, told apart by the instruction beside it. -/
lemma MemWb.regDst_lt {memWb : MemWb} (h : memWb.Empty ∨ memWb.Moved)
    (hw : memWb.cRegWrite = true) :
    (¬ isMtc0 memWb.inst → memWb.regDst < regPc) ∧
      (isMtc0 memWb.inst → memWb.regDst < cp0NumRegs + 1) := by
  rcases h with h | h
  · rw [h.regWrite_eq] at hw
    cases hw
  · rw [h.regDst_eq]
    refine ⟨dstOf_lt, fun ht => ?_⟩
    have hd := getRd_lt memWb.inst
    rw [dstOf_of_isMtc0 ht, cp0NumRegs]
    omega

/-! ### Entries outside the arrays -/

/-- The entries below `n` are the same. -/
def SameBelow (n : ℕ) (f g : ℕ → Word) : Prop := ∀ i < n, g i = f i

/-- The entries from `n` on are the same. -/
def SameFrom (n : ℕ) (f g : ℕ → Word) : Prop := ∀ i, n ≤ i → g i = f i

lemma SameBelow.setReg {n : ℕ} {f g : ℕ → Word} (h : SameBelow n f g) (k : ℕ) {v w : Word}
    (hv : w = v) : SameBelow n (setReg f k v) (setReg g k w) := by
  intro i hi
  by_cases hk : i = k
  · rw [hk, setReg_self, setReg_self, hv]
  · rw [setReg_of_ne _ _ hk, setReg_of_ne _ _ hk, h i hi]

lemma SameFrom.refl (n : ℕ) (f : ℕ → Word) : SameFrom n f f := fun _ _ => rfl

lemma SameFrom.setReg {n : ℕ} {f g : ℕ → Word} (h : SameFrom n f g) {k : ℕ} (hk : k < n)
    (v : Word) : SameFrom n f (setReg g k v) := by
  intro i hi
  rw [setReg_of_ne _ _ (by omega), h i hi]

/-- CP0 as `handle_exception` has it before it sets `EXL`. -/
def Core.trapCp0 (core : Core) : ℕ → Word :=
  let cp0 := setReg (setReg core.cp0 regEpc core.memWb.nextPc) regCause
    (getCause core.memWb.exception core.memWb.isBranchDelay)
  if core.memWb.exception = .addressErrorLoad then setReg cp0 regBadvaddr core.memWb.badVAddr
  else cp0

lemma handleException_cp0 (core : Core) :
    (handleException core).cp0 = setReg core.trapCp0 regSr (core.trapCp0 regSr ||| srExl) := by
  simp only [handleException, Core.trapCp0, or_self]

/-- The other register contents are the same inside the arrays. -/
structure Core.SameArrays (core : Core) (regs cp0 : ℕ → Word) : Prop where
  regs : SameBelow regPc core.regs regs
  cp0 : SameBelow (cp0NumRegs + 1) core.cp0 cp0

section Independence

variable {core : Core} {regs cp0 : ℕ → Word} (h : core.SameArrays regs cp0)

include h

lemma flushes_withRegs : (core.withRegs regs cp0).flushes ↔ core.flushes := by
  unfold Core.flushes
  simp only [Core.withRegs, h.regs regV0 (by decide)]

lemma exits_withRegs : (core.withRegs regs cp0).exits ↔ core.exits := by
  unfold Core.exits
  simp only [Core.withRegs, h.regs regV0 (by decide)]

lemma flushTarget_withRegs : (core.withRegs regs cp0).flushTarget = core.flushTarget := by
  unfold Core.flushTarget
  simp only [Core.withRegs, h.cp0 regEpc (by decide), h.cp0 regSr (by decide),
    h.cp0 regEbase (by decide)]

/-- What an exception leaves in CP0 before `EXL` is set stays inside CP0. -/
lemma trapCp0_withRegs :
    SameBelow (cp0NumRegs + 1) core.trapCp0 (core.withRegs regs cp0).trapCp0 ∧
      SameFrom (cp0NumRegs + 1) cp0 (core.withRegs regs cp0).trapCp0 := by
  have hcause := (h.cp0.setReg regEpc (rfl : core.memWb.nextPc = _)).setReg regCause
    (rfl : getCause core.memWb.exception core.memWb.isBranchDelay = _)
  have hcause' := ((SameFrom.refl (cp0NumRegs + 1) cp0).setReg (show regEpc < cp0NumRegs + 1 by decide)
    core.memWb.nextPc).setReg (show regCause < cp0NumRegs + 1 by decide)
    (getCause core.memWb.exception core.memWb.isBranchDelay)
  unfold Core.trapCp0
  by_cases hload : core.memWb.exception = .addressErrorLoad
  · rw [if_pos hload, if_pos (show (core.withRegs regs cp0).memWb.exception = _ from hload)]
    exact ⟨hcause.setReg regBadvaddr rfl, hcause'.setReg (by decide) _⟩
  · rw [if_neg hload, if_neg (show (core.withRegs regs cp0).memWb.exception ≠ _ from hload)]
    exact ⟨hcause, hcause'⟩

/-- Entering and leaving a handler stays inside CP0. -/
lemma flushCp0_withRegs :
    SameBelow (cp0NumRegs + 1) core.flushCp0 (core.withRegs regs cp0).flushCp0 ∧
      SameFrom (cp0NumRegs + 1) cp0 (core.withRegs regs cp0).flushCp0 := by
  unfold Core.flushCp0
  by_cases heret : core.memWb.inst = instructionEret
  · rw [if_pos heret, if_pos (show (core.withRegs regs cp0).memWb.inst = _ from heret)]
    refine ⟨h.cp0.setReg regSr ?_, (SameFrom.refl _ _).setReg (by decide) _⟩
    rw [show (core.withRegs regs cp0).cp0 regSr = core.cp0 regSr from h.cp0 regSr (by decide)]
  · obtain ⟨hbelow, hfrom⟩ := trapCp0_withRegs h
    rw [if_neg heret, if_neg (show (core.withRegs regs cp0).memWb.inst ≠ _ from heret),
      handleException_cp0, handleException_cp0]
    refine ⟨hbelow.setReg regSr ?_, hfrom.setReg (by decide) _⟩
    rw [hbelow regSr (by decide)]

/-- WB neither looks at an entry outside the arrays nor changes one. -/
lemma interpretWb_withRegs (hpipe : PipeOk core) :
    ∃ regs₁ cp0₁, interpretWb (core.withRegs regs cp0) =
        ((interpretWb core).1.withRegs regs₁ cp0₁, (interpretWb core).2) ∧
      (interpretWb core).1.SameArrays regs₁ cp0₁ ∧
      SameFrom regPc regs regs₁ ∧ SameFrom (cp0NumRegs + 1) cp0 cp0₁ := by
  rcases flushes_or_exits_or_commits core with hf | hx | hc
  · obtain ⟨hbelow, hfrom⟩ := flushCp0_withRegs h
    rw [interpretWb_of_flushes hf, interpretWb_of_flushes ((flushes_withRegs h).mpr hf),
      flushTarget_withRegs h]
    exact ⟨regs, _, rfl, ⟨h.regs, hbelow⟩, .refl _ _, hfrom⟩
  · rw [interpretWb_of_exits hx, interpretWb_of_exits ((exits_withRegs h).mpr hx)]
    exact ⟨regs, cp0, rfl, h, .refl _ _, .refl _ _⟩
  · have hc' : (core.withRegs regs cp0).memWb.commits := hc
    rw [interpretWb_of_commits hc, interpretWb_of_commits hc']
    refine ⟨commitRegs core.memWb regs, commitCp0 core.memWb cp0, rfl, ⟨?_, ?_⟩, ?_, ?_⟩
    all_goals simp only [commitRegs, commitCp0]
    · by_cases hw : core.memWb.cRegWrite = true ∧ ¬ isMtc0 core.memWb.inst
      · rw [if_pos hw, if_pos hw]
        exact h.regs.setReg _ rfl
      · rw [if_neg hw, if_neg hw]
        exact h.regs
    · by_cases hw : core.memWb.cRegWrite = true ∧ isMtc0 core.memWb.inst
      · rw [if_pos hw, if_pos hw]
        exact h.cp0.setReg _ rfl
      · rw [if_neg hw, if_neg hw]
        exact h.cp0
    · by_cases hw : core.memWb.cRegWrite = true ∧ ¬ isMtc0 core.memWb.inst
      · rw [if_pos hw]
        exact (SameFrom.refl _ _).setReg ((MemWb.regDst_lt hpipe.memWb_ok hw.1).1 hw.2) _
      · rw [if_neg hw]
        exact .refl _ _
    · by_cases hw : core.memWb.cRegWrite = true ∧ isMtc0 core.memWb.inst
      · rw [if_pos hw]
        exact (SameFrom.refl _ _).setReg ((MemWb.regDst_lt hpipe.memWb_ok hw.1).2 hw.2) _
      · rw [if_neg hw]
        exact .refl _ _

/-- MEM reads general registers only. -/
lemma MemStep.withRegs {mem mem' : Mmu} {e : Exception} {readData badVAddr : Word}
    (hpipe : PipeOk core) (hstep : MemStep core mem e readData badVAddr mem') :
    MemStep (core.withRegs regs cp0) mem e readData badVAddr mem' := by
  cases hstep with
  | carried hexc => exact .carried hexc
  | load hexc hread hload =>
    refine .load hexc hread ?_
    have hdst : core.exMem.regDst < regPc := by
      rcases hpipe.exMem_ok with hx | hx
      · rw [hx.memRead_eq] at hread
        cases hread
      · rw [hx.regDst_eq]
        exact dstOf_lt (not_isMtc0_of_memRead (hx.memRead_eq ▸ hread))
    rw [← hload]
    unfold memLoad
    simp only [Core.withRegs, h.regs _ hdst]
  | store hexc hread hwrite hstore =>
    refine .store hexc hread hwrite ?_
    rw [← hstore]
    unfold memStore
    simp only [Core.withRegs, h.regs _ (getRt_lt _)]
  | plain hexc hread hwrite => exact .plain hexc hread hwrite

/-- EX, ID, IF and the forwarding unit change no register, and ID reads inside the arrays. -/
lemma next_withRegs (memWb : MemWb) (inst : Word) :
    (core.withRegs regs cp0).next memWb inst = (core.next memWb inst).withRegs regs cp0 := by
  have hrd : getRd core.ifId.inst + 1 < cp0NumRegs + 1 := by
    have hd := getRd_lt core.ifId.inst
    rw [cp0NumRegs]
    omega
  have hadv : (core.withRegs regs cp0).advance memWb = (core.advance memWb).withRegs regs cp0 := by
    simp only [Core.advance, Core.withRegs, decodeStage, rsRead, rtRead, jumpRead,
      h.regs _ (getRs_lt _), h.regs _ (getRt_lt _), h.cp0 _ hrd]
    rfl
  rw [Core.next, Core.next, hadv, forwardingUnit_eq, forwardingUnit_eq]
  simp only [Core.fetch]
  by_cases hs : (core.advance memWb).stalls inst
  · rw [if_pos hs, if_pos (show ((core.advance memWb).withRegs regs cp0).stalls inst from hs)]
    rfl
  · rw [if_neg hs, if_neg (show ¬ ((core.advance memWb).withRegs regs cp0).stalls inst from hs)]
    rfl

/-- A tick neither looks at an entry outside the arrays nor changes one. -/
lemma tickCore_withRegs {core' : Core} {mem mem' : Mmu} {fin : Bool} (hpipe : PipeOk core)
    (ht : tickCore core mem = .ok (core', mem', fin)) :
    ∃ regs' cp0', tickCore (core.withRegs regs cp0) mem = .ok (core'.withRegs regs' cp0', mem', fin) ∧
      core'.SameArrays regs' cp0' ∧
      SameFrom regPc regs regs' ∧ SameFrom (cp0NumRegs + 1) cp0 cp0' := by
  obtain ⟨regs₁, cp0₁, hwb, hsame, hregs, hcp0⟩ := interpretWb_withRegs h hpipe
  have heq : interpretWb core = ((interpretWb core).1, (interpretWb core).2) := rfl
  obtain ⟨e, readData, badVAddr, mem₁, inst, hstep, hread, rfl, rfl⟩ :=
    (tickCore_eq_ok heq hpipe.wb.ifId_exception hpipe.wb.idEx_exception).mp ht
  refine ⟨regs₁, cp0₁, ?_, ⟨?_, ?_⟩, hregs, hcp0⟩
  · rw [tickCore_eq_ok hwb hpipe.wb.ifId_exception hpipe.wb.idEx_exception]
    exact ⟨e, readData, badVAddr, mem₁, inst, hstep.withRegs hsame hpipe.wb, hread,
      (next_withRegs hsame _ _).symm, rfl⟩
  · rw [Core.next_regs]
    exact hsame.regs
  · rw [Core.next_cp0]
    exact hsame.cp0

end Independence

/-! ### Integrity -/

/-- The array `regs` of the source, with the program counter as its last entry. -/
def Core.array (core : Core) : ℕ → Word := fun i => if i = regPc then core.pc else core.regs i

/-- Write back on the whole array does what it does on the general registers. -/
lemma array_interpretWb {core : Core} (hpipe : PipeOk core) (hc : core.memWb.commits) :
    (interpretWb core).1.array = commitRegs core.memWb core.array := by
  rw [interpretWb_of_commits hc]
  unfold commitRegs
  by_cases hw : core.memWb.cRegWrite = true ∧ ¬ isMtc0 core.memWb.inst
  · have hdst := (MemWb.regDst_lt hpipe.memWb_ok hw.1).1 hw.2
    simp only [if_pos hw]
    funext i
    by_cases hi : i = regPc
    · rw [setReg_of_ne core.array _ (show i ≠ core.memWb.regDst by omega)]
      simp only [Core.array, if_pos hi]
    · simp only [Core.array, setReg, if_neg hi]
  · simp only [if_neg hw]
    rfl

/-- What holds of the two register files in a state and in the tick that leaves it. -/
structure RegisterIntegrity (t : Tracked) : Prop where
  /-- Register 0 is zero. -/
  zero : t.core.regs 0 = 0
  /-- The number that WB writes a general register with. -/
  gpr_index : t.core.memWb.commits → t.core.memWb.cRegWrite = true → ¬ isMtc0 t.core.memWb.inst →
    t.core.memWb.regDst < regPc
  /-- The number that WB writes a CP0 register with. -/
  cp0_index : t.core.memWb.commits → t.core.memWb.cRegWrite = true → isMtc0 t.core.memWb.inst →
    t.core.memWb.regDst < cp0NumRegs + 1
  /-- The number that ID reads a CP0 register with. -/
  cp0_read : isMfc0 t.core.ifId.inst → getRd t.core.ifId.inst + 1 < cp0NumRegs + 1
  /-- On the array of the source WB is the assignment it is on the general registers, and the
  program counter stays. -/
  array : t.core.memWb.commits →
    (interpretWb t.core).1.array = commitRegs t.core.memWb t.core.array ∧
      commitRegs t.core.memWb t.core.array regPc = t.core.pc
  /-- The program counter comes from an exception or `ERET`, from a branch or a jump, or from
  itself, and then only a fetch moves it on. -/
  pc : ∀ t', t.tick = .ok t' →
    t'.core.pc = t.core.fetchPc ∨ t'.core.pc = t.core.fetchPc + 4
  /-- No stage reads or writes outside the two arrays: other contents there change nothing else,
  and they stay. -/
  inside : ∀ regs cp0 core' mem' fin, t.core.SameArrays regs cp0 →
    tickCore t.core t.mem = .ok (core', mem', fin) →
    ∃ regs' cp0',
      tickCore (t.core.withRegs regs cp0) t.mem = .ok (core'.withRegs regs' cp0', mem', fin) ∧
      core'.SameArrays regs' cp0' ∧
      SameFrom regPc regs regs' ∧ SameFrom (cp0NumRegs + 1) cp0 cp0'

/-- The register files keep their integrity in every reachable state. -/
theorem Reachable.registerIntegrity {t : Tracked} (h : Reachable t) : RegisterIntegrity t where
  zero := h.reg_zero
  gpr_index := fun _ hw => (MemWb.regDst_lt h.pipeOk.memWb_ok hw).1
  cp0_index := fun _ hw => (MemWb.regDst_lt h.pipeOk.memWb_ok hw).2
  cp0_read := by
    intro _
    have hd := getRd_lt t.core.ifId.inst
    rw [cp0NumRegs]
    omega
  array := by
    intro hc
    have harray := array_interpretWb h.pipeOk hc
    refine ⟨harray, ?_⟩
    rw [← harray, interpretWb_of_commits hc]
    rfl
  pc := by
    intro t' ht
    obtain ⟨e, readData, badVAddr, mem₁, inst, mem', -, -, rfl⟩ :=
      (Tracked.tick_eq_ok h.pipeOk).mp ht
    rw [← Core.interpretWb_redirect t.core]
    by_cases hh : (interpretWb t.core).1.holds inst
    · exact .inl (Core.next_pc_of_holds hh)
    · exact .inr (Core.next_pc_of_not_holds hh)
  inside := fun _ _ _ _ _ hsame ht => tickCore_withRegs hsame h.pipeOk ht

/-- `ADDIU $8, $0, 1; MTC0 $8, $4` at the start of kseg0. -/
def mtc0Mem : Mmu := imageMem 1024 [0x24, 0x08, 0, 1, 0x40, 0x88, 0x20, 0]

/-- The `MTC0` is written back to the entry 5 of the CP0 registers. -/
theorem registerIntegrity_mtc0 : ∃ t, iterate Tracked.tick 5 (.boot mtc0Mem) = .ok t ∧
    isMtc0 t.core.memWb.inst ∧ t.core.memWb.regDst = 5 ∧ (interpretWb t.core).1.cp0 5 = 1 ∧
    RegisterIntegrity t := by
  have hrun : ∃ t, iterate Tracked.tick 5 (.boot mtc0Mem) = .ok t ∧ t.finished = false ∧
      isMtc0 t.core.memWb.inst ∧ t.core.memWb.regDst = 5 ∧ (interpretWb t.core).1.cp0 5 = 1 :=
    ⟨_, rfl, rfl, by decide, by decide, by decide⟩
  obtain ⟨t, hrun, hfin, hinst, hdst, hcp0⟩ := hrun
  exact ⟨t, hrun, hinst, hdst, hcp0, ((reachable_boot _).iterate hrun hfin).registerIntegrity⟩

end MipsSim
