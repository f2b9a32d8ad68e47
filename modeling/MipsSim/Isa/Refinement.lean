import MipsSim.Isa.Execute

/-!
# The pipeline refines the instruction set

The simulation between a run of the pipeline and a run of the reference interpreter. The instructions
in flight are the next instructions of the interpreter, in order, with bubbles between them; each
pipeline register holds what its instruction has come to in the state that the interpreter executes
it in.
-/

namespace MipsSim

open Run ByteStore Isa

/-! ### Programs -/

/-- The word that the interpreter executes in step `k`. -/
def code (s : State) (k : ℕ) : Word := (run s k).word (run s k).pc

/-- The programs in question: all words that are executed are instructions of the interpreter, all
addresses are in populated kseg0, and no store hits a word that is executed. -/
structure Program (mem : Mmu) (s : State) : Prop where
  decodes : ∀ k, (run s k).stopped = false → ∃ i, decode (code s k) = some i ∧ DataOk mem (run s k) i
  fetches : ∀ k, (run s k).stopped = false → InKseg0 mem (run s k).pc 4
  code_kept : ∀ j k opSize rs rt imm, (run s j).stopped = false → (run s k).stopped = false →
    decode (code s k) = some (.store opSize rs rt imm) →
    (run s j).pc.toNat + 4 ≤ ((run s k).regs rs + imm.signExtend 32).toNat ∨
      ((run s k).regs rs + imm.signExtend 32).toNat + opSize.bytes ≤ (run s j).pc.toNat

/-- No store that is executed overflows in the computation of its address. -/
def StoresOk (s : State) : Prop :=
  ∀ k i, (run s k).stopped = false → decode (code s k) = some i → StoreOk (run s k) i

lemma run_succ_of_decode {s : State} {k : ℕ} {i : Instr} (hst : (run s k).stopped = false)
    (hd : decode (code s k) = some i) : run s (k + 1) = exec (run s k) i := by
  rw [run_succ, step, if_neg (by simp [hst])]
  unfold code at hd
  rw [hd]

/-- The instructions of a program that is left after `n` of them come before. -/
lemma lt_of_running {s : State} {n k : ℕ} (hstop : (run s n).stopped = true)
    (h : (run s k).stopped = false) : k < n := by
  by_contra hk
  rw [stopped_mono hstop (Nat.le_of_not_lt hk)] at h
  cases h

lemma running_of_le {s : State} {j k : ℕ} (h : (run s k).stopped = false) (hjk : j ≤ k) :
    (run s j).stopped = false := by
  by_contra hne
  have hlt := lt_of_running (by simpa using hne) h
  omega

/-- The words that are executed never change. -/
lemma Program.word_eq {mem : Mmu} {s : State} (h : Program mem s) {j : ℕ}
    (hj : (run s j).stopped = false) (k : ℕ) :
    (run s k).word (run s j).pc = s.word (run s j).pc := by
  induction k with
  | zero => rfl
  | succ k ih =>
    by_cases hst : (run s k).stopped = true
    · rw [run_succ, step_of_stopped hst, ih]
    have hrun : (run s k).stopped = false := by simpa using hst
    obtain ⟨i, hd, hdata⟩ := h.decodes k hrun
    rw [← ih, run_succ_of_decode hrun hd]
    by_cases hstore : ∀ opSize rs rt imm, i ≠ .store opSize rs rt imm
    · simp only [State.word, State.read, exec_mem _ hstore]
    · simp only [not_forall, not_not] at hstore
      obtain ⟨opSize, rs, rt, imm, rfl⟩ := hstore
      have haddr := kseg0Offset_add hdata.1
      have hpc := kseg0Offset_add (h.fetches j hj).1
      have hkept := h.code_kept j k opSize rs rt imm hj hrun hd
      simp only [State.word, State.read, exec, State.written]
      rw [readBlock_writeBlock_of_disjoint]
      rw [length_toBigEndian, show MemOpSize.word.bytes = 4 from rfl]
      omega

/-- In particular the word is the same at whatever point of the run it is read. -/
lemma Program.word_eq_code {mem : Mmu} {s : State} (h : Program mem s) {j : ℕ}
    (hj : (run s j).stopped = false) (k : ℕ) : (run s k).word (run s j).pc = code s j := by
  rw [code, h.word_eq hj k, h.word_eq hj j]

/-! ### The simulation -/

/-- The number of instructions that have passed EX. -/
def Tracked.passedEx (t : Tracked) : ℕ := t.passedMem + t.exMem.toList.length

/-- The number of instructions that have passed ID. -/
def Tracked.passedId (t : Tracked) : ℕ := t.passedEx + t.idEx.toList.length

/-- The number of instructions that have passed IF. -/
def Tracked.passedIf (t : Tracked) : ℕ := t.passedId + t.ifId.toList.length

/-- What the claim of refinement says: the general registers are those after the instructions that
have passed WB, the memory is the one after the instructions that have passed MEM. -/
structure Matches (mem : Mmu) (s : State) (t : Tracked) : Prop where
  regs_eq : t.core.regs = (run s t.passedWb).regs
  mem_eq : t.mem = mem.withPmem (run s t.passedMem).mem

/-- `MEM_WB` holds what is missing between the two, and no exception. -/
structure WbOk (s : State) (t : Tracked) : Prop where
  passed : t.passedMem = t.passedWb + t.memWb.toList.length
  regs_eq : commitRegs t.core.memWb t.core.regs = (run s t.passedMem).regs
  exception : t.core.memWb.exception = .none
  opcode : getOpcode t.core.memWb.inst ≠ .cp0

/-- The other pipeline registers hold the next instructions of the interpreter, as far as it has
any, and the next fetch is that of the one after them. -/
structure Flowing (mem : Mmu) (s : State) (t : Tracked) : Prop where
  exception : t.core.exMem.exception = .none
  opcode : getOpcode t.core.exMem.inst ≠ .cp0
  finishing : Finishing mem t.core.exMem (run s t.passedMem) (run s t.passedEx)
  running : (run s t.passedEx).stopped = false
  idEx_ok : ∀ v, t.idEx = some v → t.core.idEx.inst = code s t.passedEx ∧ t.core.idEx.Decoded ∧
    ∃ cp0, Operands t.core.idEx.inst t.core.idEx.rsValue t.core.idEx.rtValue
      (run s t.passedEx).regs cp0
  ifId_ok : (run s t.passedId).stopped = false → ∀ v, t.ifId = some v →
    t.core.ifId.inst = code s t.passedId ∧ t.core.ifId.nextPc = (run s t.passedId).pc + 4
  npc_eq : t.ifId = none → (run s t.passedIf).stopped = false →
    (run s t.passedIf).npc = (run s t.passedIf).pc + 4
  fetch_eq : (run s t.passedIf).stopped = false →
    t.core.idEx.redirect.getD t.core.pc = (run s t.passedIf).pc
  hazard : NoHazard t.core.idEx.inst t.core.ifId.inst

/-- An instruction with an exception has come as far as `EX_MEM`; it changes no memory. -/
structure Trapping (s : State) (t : Tracked) : Prop where
  exception : t.core.exMem.exception ≠ .none
  slot : ∃ v, t.exMem = some v
  mem_eq : (run s (t.passedMem + 1)).mem = (run s t.passedMem).mem

/-- The simulation relation: the pipeline flows, or an instruction with an exception is on its way to
WB, or it has arrived. -/
structure Sim (mem : Mmu) (s : State) (t : Tracked) : Prop where
  reachable : Reachable t
  finished : t.finished = false
  ok : Matches mem s t
  stage : t.core.memWb.exception ≠ .none ∨ (WbOk s t ∧ (Flowing mem s t ∨ Trapping s t))

lemma finishing_empty {mem : Mmu} {x : ExMem} (h : x.Empty ∨ x.Executed) (hnop : x.inst = 0)
    (s : State) : Finishing mem x s s := by
  obtain ⟨hr, hw⟩ := ExMem.no_access h hnop
  refine .plain hr hw (fun r => ?_) rfl
  rw [hnop, if_neg (fun hw => writesNum_zero r hw.1)]

lemma opcode_zero_ne : getOpcode 0 ≠ .cp0 := by decide

lemma sim_start {regs cp0 : ℕ → Word} (entry : Word) (mem : Mmu) (hzero : regs 0 = 0) :
    Sim mem (.init regs entry mem.pmem) (.start (.init regs entry cp0) mem) where
  reachable := .start regs entry cp0 mem hzero
  finished := rfl
  ok := ⟨rfl, rfl⟩
  stage := by
    refine .inr ⟨⟨rfl, rfl, rfl, opcode_zero_ne⟩, .inl ?_⟩
    refine ⟨rfl, opcode_zero_ne, ?_, rfl, nofun, nofun, fun _ _ => rfl, fun _ => rfl, noHazard_zero _⟩
    exact finishing_empty (.inl ⟨rfl, rfl, rfl, rfl⟩) rfl _

/-! ### One tick -/

/-- A tick that writes back, from its memory access and its fetch. -/
lemma Tracked.tick_of_commits {t : Tracked} (h : Reachable t) (hc : t.core.memWb.commits)
    {e : Exception} {readData badVAddr inst : Word} {mem₁ mem' : Mmu}
    (hstep : MemStep (t.core.withRegs (commitRegs t.core.memWb t.core.regs)
      (commitCp0 t.core.memWb t.core.cp0)) t.mem e readData badVAddr mem₁)
    (hread : mmuRead mem₁ t.core.fetchPc 0 .word = .ok (.none, inst, mem')) :
    t.tick = .ok (t.record ((t.core.withRegs (commitRegs t.core.memWb t.core.regs)
      (commitCp0 t.core.memWb t.core.cp0)).next (moveStage t.core e readData badVAddr) inst)
        mem' false) := by
  refine (Tracked.tick_eq_ok h.pipeOk).mpr ⟨e, readData, badVAddr, mem₁, inst, mem', ?_, hread, ?_⟩
  · rw [interpretWb_of_commits hc]
    exact hstep
  · rw [interpretWb_of_commits hc]
    rfl

/-- The counters after a tick that does not empty the pipeline. -/
lemma Tracked.record_passed {t : Tracked} (hf : ¬ t.core.flushes) (core' : Core) (mem' : Mmu)
    (fin : Bool) :
    (t.record core' mem' fin).passedMem = t.passedEx ∧
      (t.record core' mem' fin).passedEx = t.passedId ∧
      (t.record core' mem' fin).passedId = t.passedIf := by
  simp [Tracked.record, Tracked.passedEx, Tracked.passedId, Tracked.passedIf, hf, Option.toList_map]

/-- No instruction of the interpreter is a CP0 one. -/
lemma opcode_ne_of_encodes {w : Word} {i : Instr} (h : Encodes w i) : getOpcode w ≠ .cp0 := by
  cases i with
  | imm fn rs rt imm => cases fn <;> simp [h.1, ImmFn.opcode]
  | load opSize rs rt imm => cases opSize <;> simp [h.1, loadOpcode]
  | store opSize rs rt imm => cases opSize <;> simp [h.1, storeOpcode]
  | branch onEqual rs rt imm => cases onEqual <;> simp [h.1]
  | _ => simp [h.1]

/-- After a load the program continues in sequence. -/
lemma npc_of_memRead {w : Word} {i : Instr} (henc : Encodes w i)
    (h : (controlOf w).memRead = true) (s : State) : (exec s i).npc = (exec s i).pc + 4 := by
  obtain ⟨hbeq, hbne, hjump⟩ := control_of_memRead h
  cases i with
  | branch onEqual rs rt imm =>
    have hop := henc.1
    cases onEqual <;> simp [controlOf, hop] at hbeq hbne
  | jump target => simp [controlOf, henc.1] at hjump
  | jumpReg rs => simp [controlOf, henc.1, henc.2.1] at hjump
  | addi rs rt imm => simp [controlOf, henc.1] at h
  | syscall => simp [controlOf, henc.1, henc.2] at h
  | _ => rfl

lemma not_clash {inst ex wb : Word} (h₁ : getOpcode inst ≠ .cp0) (h₂ : getOpcode ex ≠ .cp0)
    (h₃ : getOpcode wb ≠ .cp0) : ¬ Clash inst ex wb := by
  have hf : ¬ isMfc0 inst := fun h => h₁ h.1
  have ht : ¬ isMtc0 inst := fun h => h₁ h.1
  have hex : ∀ r, ¬ writesCp0 ex r := fun r h => h₂ h.2.1
  have hwb : ∀ r, ¬ writesCp0 wb r := fun r h => h₃ h.2.1
  rw [Clash, if_neg hf, if_neg ht]
  simp [hex, hwb]

/-- The registers that the forwarding unit sees ahead are those of the interpreter, except for the
register of a load. -/
lemma Finishing.gprAfter_eq {mem : Mmu} {x : ExMem} {s s' : State} (h : Finishing mem x s s')
    {memWb : MemWb} {gpr : ℕ → Word} (hc : commitRegs memWb gpr = s.regs) {r : ℕ}
    (hr : (controlOf x.inst).memRead = true → dstOf x.inst ≠ 0 → dstOf x.inst ≠ r) :
    s'.regs r = gprAfter x memWb gpr r := by
  rw [gprAfter, hc]
  cases h with
  | plain hread hwrite hregs hmem => exact hregs r
  | load opSize hop hin hregs hmem =>
    have hno : ¬ writesGpr x.inst r := fun hw =>
      hr (by rw [controlOf_load hop]) hw.1.2.1 hw.1.2.2
    rw [hregs, if_neg hno, if_neg hno]
  | store opSize hop hin hregs hmem =>
    have hno : ¬ writesGpr x.inst r := fun hw => by
      have hw' := hw.1.1
      rw [controlOf_store hop] at hw'
      cases hw'
    rw [hregs, if_neg hno]

section Flow

variable {mem : Mmu} {s : State} {t : Tracked} (hp : Program mem s) (hr : Reachable t)
  (h : Flowing mem s t)

include hp h

/-- The instruction in `IF_ID`, as far as the interpreter has one. -/
lemma Flowing.decodes_ifId (hrun : (run s t.passedId).stopped = false) {v : DynInst}
    (hv : t.ifId = some v) :
    ∃ i, Encodes t.core.ifId.inst i ∧ run s t.passedIf = exec (run s t.passedId) i := by
  obtain ⟨hinst, -⟩ := h.ifId_ok hrun v hv
  obtain ⟨i, hd, -⟩ := hp.decodes t.passedId hrun
  have heq : t.passedIf = t.passedId + 1 := by simp [Tracked.passedIf, hv]
  refine ⟨i, ?_, ?_⟩
  · rw [hinst]
    exact encodes_of_decode hd
  · rw [heq, run_succ_of_decode hrun hd]

include hr

/-- The instruction in `ID_EX` is executed as in the interpreter. -/
lemma Flowing.executed (hexc : aluException t.core.idEx = .none) :
    Finishing mem (executeStage t.core) (run s t.passedEx) (run s t.passedId) ∧
      (run s t.passedId).stopped = false ∧ getOpcode t.core.idEx.inst ≠ .cp0 := by
  cases hv : t.idEx with
  | none =>
    have hnop := hr.labelled.idEx_nop hv
    have heq : t.passedId = t.passedEx := by simp [Tracked.passedId, hv]
    rw [heq, hnop]
    exact ⟨finishing_empty (executed_executeStage hr.pipeOk.idEx_ok) hnop _, h.running,
      opcode_zero_ne⟩
  | some v =>
    obtain ⟨hinst, hdec, cp0, hops⟩ := h.idEx_ok v hv
    obtain ⟨i, hd, hdata⟩ := hp.decodes t.passedEx h.running
    have henc := encodes_of_decode hd
    rw [← hinst] at henc
    have heq : t.passedId = t.passedEx + 1 := by simp [Tracked.passedId, hv]
    rw [heq, run_succ_of_decode h.running hd]
    obtain ⟨hfin, hstop⟩ := finishing_execute hdec hops henc hdata hexc
    exact ⟨hfin, hstop.trans h.running, opcode_ne_of_encodes henc⟩

/-- An instruction in `ID_EX` that raises an exception changes no memory. -/
lemma Flowing.trapped (hst : StoresOk s) (hexc : aluException t.core.idEx ≠ .none) :
    (∃ v, t.idEx = some v) ∧ (run s (t.passedEx + 1)).mem = (run s t.passedEx).mem := by
  cases hv : t.idEx with
  | none => exact absurd (aluException_nop hr.pipeOk.idEx_ok (hr.labelled.idEx_nop hv)) hexc
  | some v =>
    obtain ⟨hinst, hdec, cp0, hops⟩ := h.idEx_ok v hv
    obtain ⟨i, hd, hdata⟩ := hp.decodes t.passedEx h.running
    have henc := encodes_of_decode hd
    rw [← hinst] at henc
    refine ⟨⟨v, rfl⟩, ?_⟩
    rw [run_succ_of_decode h.running hd]
    exact exec_mem_of_exception hdec hops henc (hst _ _ h.running hd) hexc

section Next

variable {regs cp0 : ℕ → Word} {memWb : MemWb} {inst : Word}
  (hregs : commitRegs memWb regs = (run s t.passedEx).regs) (hzero : regs 0 = 0)
  (hwb : memWb.Empty ∨ memWb.Moved) (hop : getOpcode memWb.inst ≠ .cp0)
  (hexc : aluException t.core.idEx = .none)

include hregs hzero hwb hop hexc

/-- The instruction in `IF_ID` is decoded with the operands that the interpreter uses. -/
lemma Flowing.decoded {v : DynInst} (hv : t.ifId = some v) :
    ∃ cp0', Operands ((t.core.withRegs regs cp0).next memWb inst).idEx.inst
      ((t.core.withRegs regs cp0).next memWb inst).idEx.rsValue
      ((t.core.withRegs regs cp0).next memWb inst).idEx.rtValue (run s t.passedId).regs cp0' := by
  obtain ⟨hfin, hrun, hopEx⟩ := h.executed hp hr hexc
  obtain ⟨i, henc, -⟩ := h.decodes_ifId hp hrun hv
  have hclash : ¬ Clash t.core.ifId.inst t.core.idEx.inst memWb.inst :=
    not_clash (opcode_ne_of_encodes henc) hopEx hop
  have hops := @operands_next (t.core.withRegs regs cp0) memWb inst hr.pipeOk.idEx_ok hwb hzero
    hclash
  refine ⟨_, hops.congr ?_ ?_ rfl⟩
  · rw [Core.next_idEx_inst]
    exact hfin.gprAfter_eq hregs fun hl hd => (h.hazard hl hd).1
  · rw [Core.next_idEx_inst]
    exact hfin.gprAfter_eq hregs fun hl hd => (h.hazard hl hd).2

/-- After a fetch the program counter points to the instruction after the one that was fetched, up
to a branch that was decoded in the same tick. -/
lemma Flowing.fetched (hrun : (run s (t.passedIf + 1)).stopped = false) :
    ((t.core.withRegs regs cp0).next memWb inst).idEx.redirect.getD
      (t.core.idEx.redirect.getD t.core.pc + 4) = (run s (t.passedIf + 1)).pc := by
  have hrunIf := running_of_le hrun (Nat.le_succ _)
  obtain ⟨iF, hdF, -⟩ := hp.decodes t.passedIf hrunIf
  have hpc : (run s (t.passedIf + 1)).pc = (run s t.passedIf).npc := by
    rw [run_succ_of_decode hrunIf hdF] at hrun ⊢
    exact exec_pc hrun
  rw [h.fetch_eq hrunIf, hpc]
  cases hv : t.ifId with
  | none =>
    rw [(decoded_next _ _ _).redirect_eq_none, Option.getD_none, h.npc_eq hv hrunIf]
    rw [Core.next_idEx_inst, show (t.core.withRegs regs cp0).ifId.inst = 0 from
      hr.labelled.ifId_nop hv]
    decide
  | some v =>
    have hrunId : (run s t.passedId).stopped = false :=
      running_of_le hrunIf (Nat.le_add_right _ _)
    obtain ⟨i, henc, heq⟩ := h.decodes_ifId hp hrunId hv
    obtain ⟨cp0', hops⟩ := h.decoded hp hr hregs hzero hwb hop hexc hv
    have hdec : ((t.core.withRegs regs cp0).next memWb inst).idEx.Decoded := by
      rw [Core.next_idEx]
      exact (decoded_decodeStage _).operands _ _
    rw [heq] at hrunIf ⊢
    have hnpc := redirect_execute hdec hops (by rw [Core.next_idEx_inst]; exact henc)
      (by rw [Core.next_idEx_nextPc]; exact (h.ifId_ok hrunId v hv).2)
      (fun hj => by
        rw [Core.next_idEx_inst] at hj
        rw [Core.next_idEx]
        exact if_pos (.inl hj)) hrunIf
    rw [exec_pc hrunIf]
    exact hnpc

/-- The pipeline goes on flowing when EX raises no exception. -/
lemma Flowing.next (hf : ¬ t.core.flushes)
    (hword : (run s t.passedIf).stopped = false → inst = code s t.passedIf) (mem' : Mmu) :
    Flowing mem s (t.record ((t.core.withRegs regs cp0).next memWb inst) mem' false) := by
  obtain ⟨hfin, hrun, hopEx⟩ := h.executed hp hr hexc
  obtain ⟨hM, hX, hD⟩ :=
    Tracked.record_passed hf ((t.core.withRegs regs cp0).next memWb inst) mem' false
  have hpc : (t.core.withRegs regs cp0).idEx.redirect.getD (t.core.withRegs regs cp0).pc =
      t.core.fetchPc := (Core.fetchPc_of_not_flushes hf).symm
  have hifId := @Tracked.record_ifId t (t.core.withRegs regs cp0) memWb inst mem' false hpc
  have hIf : (t.record ((t.core.withRegs regs cp0).next memWb inst) mem' false).passedIf =
      if (t.core.withRegs regs cp0).holds inst then t.passedIf else t.passedIf + 1 := by
    rw [Tracked.passedIf, hD, hifId]
    split_ifs <;> rfl
  refine ⟨?_, ?_, ?_, ?_, ?_, ?_, ?_, ?_, noHazard_next _ _ _⟩
  · simp only [Tracked.record, Core.next_exMem]
    exact hexc
  · simp only [Tracked.record, Core.next_exMem]
    exact hopEx
  · rw [hM, hX]
    simp only [Tracked.record, Core.next_exMem]
    exact hfin
  · rw [hX]
    exact hrun
  · intro v hv
    simp only [Tracked.record, if_neg hf] at hv
    rw [hX]
    simp only [Tracked.record]
    refine ⟨?_, ?_, h.decoded hp hr hregs hzero hwb hop hexc hv⟩
    · rw [Core.next_idEx_inst]
      exact (h.ifId_ok hrun v hv).1
    · rw [Core.next_idEx]
      exact (decoded_decodeStage _).operands _ _
  · rw [hD, hifId]
    intro hrunIf v hv
    split_ifs at hv with hh
    simp only [Tracked.record, Core.next_ifId_of_not_holds hh]
    exact ⟨hword hrunIf, congrArg (· + 4) (h.fetch_eq hrunIf)⟩
  · rw [hIf, hifId]
    intro hnone hrunIf
    split_ifs at hnone hrunIf ⊢ with hh
    -- the word that is held back waits for a load
    obtain ⟨v, hv⟩ : ∃ v, t.ifId = some v := by
      refine Option.ne_none_iff_exists'.mp fun hnop => ?_
      exact absurd (show (controlOf t.core.ifId.inst).memRead = true from hh.1)
        (by rw [hr.labelled.ifId_nop hnop]; decide)
    obtain ⟨i, henc, heq⟩ := h.decodes_ifId hp hrun hv
    rw [heq]
    exact npc_of_memRead henc hh.1 _
  · rw [hIf]
    intro hrunIf
    simp only [Tracked.record]
    by_cases hh : (t.core.withRegs regs cp0).holds inst
    · rw [if_pos hh] at hrunIf ⊢
      rw [Core.next_redirect_of_holds hh, Option.getD_none, Core.next_pc_of_holds hh]
      exact h.fetch_eq hrunIf
    · rw [if_neg hh] at hrunIf ⊢
      rw [Core.next_pc_of_not_holds hh]
      exact h.fetched hp hr hregs hzero hwb hop hexc hrunIf

end Next

end Flow

section Tick

variable {mem : Mmu} {s : State} {t : Tracked} (h : Sim mem s t) (hwb : WbOk s t)
  (hfetch : InKseg0 mem t.core.fetchPc 4)

include hwb

lemma WbOk.commits : t.core.memWb.commits := by
  refine ⟨fun heret => ?_, hwb.exception⟩
  have hop := hwb.opcode
  rw [heret] at hop
  exact hop (by decide)

/-- The registers and the counters after a tick, whatever happens to the other instructions. -/
lemma WbOk.record_matches (core' : Core) (mem' : Mmu) (hregs : core'.regs = (run s t.passedMem).regs)
    (hmem : mem' = mem.withPmem (run s t.passedEx).mem) :
    Matches mem s (t.record core' mem' false) := by
  have hpassed := hwb.passed
  obtain ⟨hM, -, -⟩ := Tracked.record_passed hwb.commits.not_flushes core' mem' false
  refine ⟨?_, ?_⟩
  · have hW : (t.record core' mem' false).passedWb = t.passedMem := hpassed.symm
    rw [hW]
    exact hregs
  · rw [hM]
    exact hmem

include h hfetch

/-- A tick of a pipeline that flows. -/
lemma Sim.tick_of_flowing (hp : Program mem s) (hst : StoresOk s) (hflow : Flowing mem s t) :
    ∃ t', t.tick = .ok t' ∧ Sim mem s t' := by
  have hc := hwb.commits
  have hf := hc.not_flushes
  have hpipe := h.reachable.pipeOk
  have hzero : commitRegs t.core.memWb t.core.regs 0 = 0 := commitRegs_zero h.reachable.reg_zero
  have hzero' : (run s t.passedMem).regs 0 = 0 := by rw [← hwb.regs_eq, hzero]
  obtain ⟨readData, badVAddr, hstep, hregs⟩ :=
    @Finishing.memStep mem (t.core.withRegs (commitRegs t.core.memWb t.core.regs)
      (commitCp0 t.core.memWb t.core.cp0)) _ _ hflow.finishing hpipe.exMem_ok hflow.exception hzero'
  have hread := mmuRead_kseg0 (show InKseg0 (mem.withPmem (run s t.passedEx).mem) t.core.fetchPc
    MemOpSize.word.bytes from hfetch) 0
  have htick := Tracked.tick_of_commits h.reachable hc (by rw [h.ok.mem_eq]; exact hstep) hread
  refine ⟨_, htick, h.reachable.tick h.finished htick, ?_, ?_, .inr ⟨⟨?_, ?_, ?_, ?_⟩, ?_⟩⟩
  · simp only [Tracked.record, h.finished, Bool.or_false]
  · exact hwb.record_matches _ _ (by rw [Core.next_regs]; exact hwb.regs_eq) rfl
  · rw [(Tracked.record_passed hf _ _ _).1]
    simp only [Tracked.record, if_neg hf, ← hwb.passed]
    rfl
  · rw [(Tracked.record_passed hf _ _ _).1]
    simp only [Tracked.record, Core.next_memWb, Core.next_regs]
    rw [← hregs, ← hwb.regs_eq]
    rfl
  · simp only [Tracked.record, Core.next_memWb]
    rfl
  · simp only [Tracked.record, Core.next_memWb]
    exact hflow.opcode
  · by_cases hexc : aluException t.core.idEx = .none
    · left
      refine hflow.next hp h.reachable (by rw [hwb.regs_eq]; exact hregs) hzero
        (moved_moveStage hpipe.exMem_ok) hflow.opcode hexc hf (fun hrun => ?_) _
      rw [← hp.word_eq_code hrun t.passedEx, Core.fetchPc_of_not_flushes hf, hflow.fetch_eq hrun]
      rfl
    · right
      obtain ⟨⟨v, hv⟩, hmem⟩ := hflow.trapped hp h.reachable hst hexc
      refine ⟨?_, ?_, ?_⟩
      · simp only [Tracked.record, Core.next_exMem]
        exact hexc
      · simp only [Tracked.record, if_neg hf, hv]
        exact ⟨_, rfl⟩
      · rw [(Tracked.record_passed hf _ _ _).1]
        exact hmem

/-- A tick that moves an instruction with an exception on to WB. -/
lemma Sim.tick_of_trapping (htrap : Trapping s t) : ∃ t', t.tick = .ok t' ∧ Sim mem s t' := by
  have hc := hwb.commits
  have hf := hc.not_flushes
  obtain ⟨v, hv⟩ := htrap.slot
  have hEx : t.passedEx = t.passedMem + 1 := by simp [Tracked.passedEx, hv]
  have hread := mmuRead_kseg0 (show InKseg0 (mem.withPmem (run s t.passedMem).mem) t.core.fetchPc
    MemOpSize.word.bytes from hfetch) 0
  have hstep : MemStep (t.core.withRegs (commitRegs t.core.memWb t.core.regs)
      (commitCp0 t.core.memWb t.core.cp0)) t.mem _ _ _ t.mem := .carried htrap.exception
  have htick := Tracked.tick_of_commits h.reachable hc hstep (by rw [h.ok.mem_eq]; exact hread)
  refine ⟨_, htick, h.reachable.tick h.finished htick, ?_, ?_, .inl ?_⟩
  · simp only [Tracked.record, h.finished, Bool.or_false]
  · refine hwb.record_matches _ _ (by rw [Core.next_regs]; exact hwb.regs_eq) ?_
    rw [hEx, htrap.mem_eq]
  · simp only [Tracked.record, Core.next_memWb]
    exact htrap.exception

end Tick

/-- One tick keeps the simulation, unless it begins with an exception in WB. -/
lemma Sim.tick {mem : Mmu} {s : State} {t : Tracked} (h : Sim mem s t) (hp : Program mem s)
    (hst : StoresOk s) (hexc : t.core.memWb.exception = .none)
    (hfetch : InKseg0 mem t.core.fetchPc 4) : ∃ t', t.tick = .ok t' ∧ Sim mem s t' := by
  obtain ⟨hwb, hflow | htrap⟩ := h.stage.resolve_left (fun hne => hne hexc)
  · exact h.tick_of_flowing hwb hfetch hp hst hflow
  · exact h.tick_of_trapping hwb hfetch htrap

/-! ### Refinement -/

/-- What may happen in a run of ticks: nothing with an exception reaches WB, and all fetches are in
populated kseg0. -/
def CleanRun (mem : Mmu) (start : Tracked) (n : ℕ) : Prop :=
  ∀ k < n, ∀ t, iterate Tracked.tick k start = .ok t →
    t.core.memWb.exception = .none ∧ InKseg0 mem t.core.fetchPc 4

/-- The pipeline refines the instruction set. After any number of ticks the general registers are
those of the interpreter after the instructions that have passed WB, and the memory is the one after
the instructions that have passed MEM, provided that no store overflows in the computation of its
address. -/
theorem refines_of_storesOk {mem : Mmu} {regs cp0 : ℕ → Word} {entry : Word} {n : ℕ}
    (hzero : regs 0 = 0) (hp : Program mem (.init regs entry mem.pmem))
    (hst : StoresOk (.init regs entry mem.pmem))
    (hclean : CleanRun mem (.start (.init regs entry cp0) mem) n) :
    ∃ t, iterate Tracked.tick n (.start (.init regs entry cp0) mem) = .ok t ∧
      t.core.regs = (run (.init regs entry mem.pmem) t.passedWb).regs ∧
      t.mem.pmem = (run (.init regs entry mem.pmem) t.passedMem).mem := by
  obtain ⟨t, hrun, hsim⟩ := iterate_progress
    (fun _ hsim htick => hsim.tick hp hst htick.1 htick.2) (sim_start entry mem hzero) hclean
  refine ⟨t, hrun, hsim.ok.regs_eq, ?_⟩
  rw [hsim.ok.mem_eq]
  rfl

/-- The conditions on a program that is left after `n` instructions need to be checked for these
only. -/
lemma program_of_stopped {mem : Mmu} {s : State} {n : ℕ} (hstop : (run s n).stopped = true)
    (hdec : ∀ k < n, ∃ i, decode (code s k) = some i ∧ DataOk mem (run s k) i)
    (hfetch : ∀ k < n, InKseg0 mem (run s k).pc 4)
    (hkept : ∀ j < n, ∀ k < n, ∀ opSize rs rt imm,
      decode (code s k) = some (.store opSize rs rt imm) →
      (run s j).pc.toNat + 4 ≤ ((run s k).regs rs + imm.signExtend 32).toNat ∨
        ((run s k).regs rs + imm.signExtend 32).toNat + opSize.bytes ≤ (run s j).pc.toNat) :
    Program mem s where
  decodes := fun k hk => hdec k (lt_of_running hstop hk)
  fetches := fun k hk => hfetch k (lt_of_running hstop hk)
  code_kept := fun j k opSize rs rt imm hj hk =>
    hkept j (lt_of_running hstop hj) k (lt_of_running hstop hk) opSize rs rt imm

/-- `LUI $1, 0x8000; ADDIU $2, $0, 5; SW $2, 0x100($1); LW $3, 0x100($1); SYSCALL` at the start of
kseg0. -/
def storeMem : Mmu := imageMem 4096
  [0x3C, 0x01, 0x80, 0x00, 0x24, 0x02, 0x00, 0x05, 0xAC, 0x22, 0x01, 0x00, 0x8C, 0x23, 0x01, 0x00,
    0x00, 0x00, 0x00, 0x0C]

/-- The interpreter on it. -/
def storeState : State := .init (fun _ => 0) 0x80000000#32 storeMem.pmem

lemma program_storeState : Program storeMem storeState := by
  refine program_of_stopped (n := 5) rfl ?_ ?_ ?_
  · intro k hk
    interval_cases k
    · exact ⟨_, rfl, trivial⟩
    · exact ⟨_, rfl, trivial⟩
    · exact ⟨_, rfl, show InKseg0 _ _ _ by decide⟩
    · exact ⟨_, rfl, show InKseg0 _ _ _ by decide⟩
    · exact ⟨_, rfl, trivial⟩
  · intro k hk
    interval_cases k <;> decide
  · intro j hj k hk opSize rs rt imm hd
    interval_cases k <;> cases Option.some.inj hd
    interval_cases j <;> decide

theorem refines_of_storesOk_store :
    ∃ t, iterate Tracked.tick 8 (.boot storeMem) = .ok t ∧ t.passedWb = 4 ∧ t.core.regs 3 = 5#32 ∧
      t.core.regs = (run storeState t.passedWb).regs ∧
      t.mem.pmem = (run storeState t.passedMem).mem := by
  have hst : StoresOk storeState := by
    intro k i hk hd
    have hlt : k < 5 := lt_of_running rfl hk
    interval_cases k <;> cases Option.some.inj hd
    all_goals first | trivial | exact show ¬ overflows _ _ by decide
  have hclean : CleanRun storeMem (.boot storeMem) 8 := by
    intro k hk t ht
    interval_cases k <;> obtain rfl := Except.ok.inj ht <;> exact ⟨rfl, by decide⟩
  obtain ⟨t, hrun, hregs, hmem⟩ := refines_of_storesOk rfl program_storeState hst hclean
  have hconc : ∃ t, iterate Tracked.tick 8 (.boot storeMem) = .ok t ∧ t.passedWb = 4 ∧
      t.core.regs 3 = 5#32 := ⟨_, rfl, rfl, rfl⟩
  obtain ⟨t', hrun', hW, hreg⟩ := hconc
  obtain rfl : t = t' := Except.ok.inj (hrun.symm.trans hrun')
  exact ⟨t, hrun, hW, hreg, hregs, hmem⟩

/-- `LUI $1, 0x7FFF; ORI $1, $1, 0xFFFC; SW $1, 0x104($1); SYSCALL` at the start of kseg0. -/
def overflowMem : Mmu := imageMem 4096
  [0x3C, 0x01, 0x7F, 0xFF, 0x34, 0x21, 0xFF, 0xFC, 0xAC, 0x21, 0x01, 0x04, 0x00, 0x00, 0x00, 0x0C]

/-- The interpreter on it. -/
def overflowState : State := .init (fun _ => 0) 0x80000000#32 overflowMem.pmem

lemma program_overflowState : Program overflowMem overflowState := by
  refine program_of_stopped (n := 4) rfl ?_ ?_ ?_
  · intro k hk
    interval_cases k
    · exact ⟨_, rfl, trivial⟩
    · exact ⟨_, rfl, trivial⟩
    · exact ⟨_, rfl, show InKseg0 _ _ _ by decide⟩
    · exact ⟨_, rfl, trivial⟩
  · intro k hk
    interval_cases k <;> decide
  · intro j hj k hk opSize rs rt imm hd
    interval_cases k <;> cases Option.some.inj hd
    interval_cases j <;> decide

/-- The store has passed MEM after six ticks, none of which began with an exception in WB, but it has
not written the word that the interpreter writes. -/
theorem not_refines_overflow :
    Program overflowMem overflowState ∧ CleanRun overflowMem (.boot overflowMem) 6 ∧
      ∃ t, iterate Tracked.tick 6 (.boot overflowMem) = .ok t ∧ t.passedMem = 3 ∧
        t.mem.pmem ≠ (run overflowState t.passedMem).mem := by
  refine ⟨program_overflowState, ?_, ?_⟩
  · intro k hk t ht
    interval_cases k <;> obtain rfl := Except.ok.inj ht <;> exact ⟨rfl, by decide⟩
  · have hrun : ∃ t, iterate Tracked.tick 6 (.boot overflowMem) = .ok t ∧ t.passedMem = 3 ∧
        t.mem.pmem 0x100 = 0 := ⟨_, rfl, rfl, rfl⟩
    obtain ⟨t, hrun, hM, hbyte⟩ := hrun
    refine ⟨t, hrun, hM, fun heq => ?_⟩
    have href : (run overflowState 3).mem 0x100 = 0x7F := rfl
    rw [heq, hM, href] at hbyte
    exact absurd hbyte (by decide)

end MipsSim
