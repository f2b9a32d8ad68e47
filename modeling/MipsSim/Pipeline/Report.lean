import MipsSim.Pipeline.Precise
import MipsSim.Pipeline.Registers

/-!
# The report of an exception

What `handle_exception` leaves for the handler in the CP0 registers, and which exceptions can reach it.
The pipeline raises an overflow or a system call in EX and an address error of a store in MEM, and
nothing else.
-/

namespace MipsSim

open Run

/-! ### The exceptions that are raised -/

/-- The exceptions that EX raises. -/
def Exception.FromEx (e : Exception) : Prop :=
  e = .none ∨ e = .arithmeticOverflow ∨ e = .syscall

/-- The exceptions that are in `MEM_WB`: `mmu_write` adds the address error of a store. -/
def Exception.FromMem (e : Exception) : Prop := e.FromEx ∨ e = .addressErrorStore

/-- Where each exception in the pipeline comes from. -/
structure Raised (core : Core) : Prop where
  exMem : core.exMem.exception.FromEx
  memWb : core.memWb.exception.FromMem

lemma fromEx_aluException (idEx : IdEx) : (aluException idEx).FromEx := by
  have hadd : ∀ a b, (addException a b).FromEx := by
    intro a b
    by_cases h : checkSoverflow a b
    · exact .inr (.inl (if_pos h))
    · exact .inl (if_neg h)
  unfold aluException
  cases idEx.c.aluOp with
  | add => exact hadd _ _
  | beq => exact .inl rfl
  | rType =>
    cases idEx.funct with
    | syscall => exact .inr (.inr rfl)
    | _ => exact .inl rfl
  | iType =>
    cases getOpcode idEx.inst with
    | addi => exact hadd _ _
    | _ => exact .inl rfl

lemma MemStep.fromMem {core : Core} {mem mem' : Mmu} {e : Exception} {readData badVAddr : Word}
    (h : MemStep core mem e readData badVAddr mem') (hex : core.exMem.exception.FromEx) :
    e.FromMem := by
  cases h with
  | carried h => exact .inl hex
  | load h hread hload => exact .inl (.inl (memLoad_spec hload).1)
  | store h hread hwrite hstore =>
    rcases memStore_spec hstore with he | ⟨he, -⟩
    · exact .inl (.inl he)
    · exact .inr he
  | plain h hread hwrite => exact .inl (.inl rfl)

lemma raised_init (regs : ℕ → Word) (pc : Word) (cp0 : ℕ → Word) : Raised (.init regs pc cp0) :=
  ⟨.inl rfl, .inl (.inl rfl)⟩

lemma Raised.wb {core : Core} (h : Raised core) : Raised (interpretWb core).1 := by
  rcases flushes_or_exits_or_commits core with hf | hx | hc
  · rw [interpretWb_of_flushes hf]
    exact raised_init _ _ _
  · rw [interpretWb_of_exits hx]
    exact h
  · rw [interpretWb_of_commits hc]
    exact ⟨h.exMem, h.memWb⟩

/-- No other exception is in the pipeline of a run. -/
lemma Reachable.raised {t : Tracked} (h : Reachable t) : Raised t.core := by
  induction h with
  | start regs pc cp0 mem h => exact raised_init regs pc cp0
  | tick h hfin ht ih =>
    obtain ⟨e, readData, badVAddr, mem₁, inst, mem', hstep, -, rfl⟩ :=
      (Tracked.tick_eq_ok h.pipeOk).mp ht
    refine ⟨?_, ?_⟩
    · simp only [Tracked.record, Core.next_exMem]
      exact fromEx_aluException _
    · simp only [Tracked.record, Core.next_memWb]
      exact hstep.fromMem ih.wb.exMem
  | other h mem' ih => exact ih

/-! ### What the handler finds -/

/-- The exception is an address error. -/
def Exception.isAddressError (e : Exception) : Prop :=
  e = .addressErrorLoad ∨ e = .addressErrorStore

/-- The address of the access in `MEM_WB`: `SWL`, `SWR`, `LWL` and `LWR` access the word around it. -/
def MemWb.accessAddr (memWb : MemWb) : Word :=
  match getOpcode memWb.inst with
  | .lwl | .lwr | .swl | .swr => wordAddr memWb.aluRes
  | _ => memWb.aluRes

/-- What the handler is promised: Cause holds the code of the exception in bits 2 to 6 and the branch
delay flag in bit 31 and nothing else, BadVAddr the address of a faulting access, and no other
register than EPC has changed, except that `EXL` is set in SR. -/
structure ReportsException (core : Core) : Prop where
  cause : (handleException core).cp0 regCause =
    (if core.memWb.isBranchDelay then causeBd else 0) ||| core.memWb.exception.code <<< 2
  badVAddr : core.memWb.exception.isAddressError →
    (handleException core).cp0 regBadvaddr = core.memWb.accessAddr
  sr : (handleException core).cp0 regSr = core.cp0 regSr ||| srExl
  others : ∀ r, r ≠ regEpc → r ≠ regCause → r ≠ regSr →
    (r = regBadvaddr → ¬ core.memWb.exception.isAddressError) →
    (handleException core).cp0 r = core.cp0 r

lemma handleException_cause (core : Core) : (handleException core).cp0 regCause =
    getCause core.memWb.exception core.memWb.isBranchDelay := by
  rw [handleException_cp0, setReg_of_ne _ _ (by decide), Core.trapCp0]
  split_ifs
  · rw [setReg_of_ne _ _ (by decide), setReg_self]
  · exact setReg_self _ _ _

/-- The code stands at bit 0, where none of the exceptions that are raised may have it. -/
lemma getCause_ne {e : Exception} (h : e.FromMem) (hne : e ≠ .none) (inBranchDelay : Bool) :
    getCause e inBranchDelay ≠ (if inBranchDelay then causeBd else 0) ||| e.code <<< 2 := by
  rcases h with (he | he | he) | he
  · exact absurd he hne
  all_goals
    rw [he]
    cases inBranchDelay <;> decide

/-- Of the rest of the promise SR is kept, and so are the other registers; BadVAddr is left alone
unless a load faults. -/
lemma handleException_frame {core : Core} (h : core.memWb.exception ≠ .addressErrorLoad) :
    (handleException core).cp0 regSr = core.cp0 regSr ||| srExl ∧
      ∀ r, r ≠ regEpc → r ≠ regCause → r ≠ regSr → (handleException core).cp0 r = core.cp0 r := by
  have htrap : ∀ r, r ≠ regEpc → r ≠ regCause → core.trapCp0 r = core.cp0 r := by
    intro r hepc hcause
    rw [Core.trapCp0, if_neg h, setReg_of_ne _ _ hcause, setReg_of_ne _ _ hepc]
  rw [handleException_cp0]
  refine ⟨?_, ?_⟩
  · rw [setReg_self, htrap regSr (by decide) (by decide)]
  · intro r hepc hcause hsr
    rw [setReg_of_ne _ _ hsr, htrap r hepc hcause]

/-- No exception is reported as promised, whatever the victim. What is wrong is Cause, and after the
address error of a store BadVAddr: it is never written at all. -/
theorem not_reportsException {t : Tracked} (h : Reachable t) (htrap : t.core.traps) :
    ¬ ReportsException t.core ∧
      (handleException t.core).cp0 regSr = t.core.cp0 regSr ||| srExl ∧
      ∀ r, r ≠ regEpc → r ≠ regCause → r ≠ regSr →
        (handleException t.core).cp0 r = t.core.cp0 r := by
  have hraised := h.raised.memWb
  have hload : t.core.memWb.exception ≠ .addressErrorLoad := by
    rcases hraised with (he | he | he) | he
    all_goals
      rw [he]
      decide
  refine ⟨fun hreport => ?_, handleException_frame hload⟩
  have hcause := hreport.cause
  rw [handleException_cause] at hcause
  exact getCause_ne hraised htrap.2.1 _ hcause

theorem not_reportsException_syscall : ∃ t, Reachable t ∧ t.core.traps ∧
    ¬ ReportsException t.core := by
  obtain ⟨t, hrun, hfin, hexc, hinst, hv0, -⟩ := iterate_syscallMem
  have htrap : t.core.traps := by
    unfold Core.traps
    rw [hexc, hinst, hv0]
    decide
  have hreach := (reachable_boot _).iterate hrun hfin
  exact ⟨t, hreach, htrap, (not_reportsException hreach htrap).1⟩

/-- `LUI $1, 0xFFFE` and `SW $0, 0($1)`, a store to the descriptor area. -/
def faultMem : Mmu := imageMem 1024 [0x3C, 0x01, 0xFF, 0xFE, 0xAC, 0x20, 0, 0]

/-- A `SYSCALL` leaves 8 in Cause instead of 32, and a store to the descriptor area leaves BadVAddr
as it was. -/
theorem reportsException_wrong :
    (∃ t, Reachable t ∧ t.core.traps ∧ t.core.memWb.exception = .syscall ∧
      (handleException t.core).cp0 regCause = 8#32 ∧ ¬ ReportsException t.core) ∧
    ∃ t, Reachable t ∧ t.core.traps ∧ t.core.memWb.exception = .addressErrorStore ∧
      t.core.memWb.accessAddr = 0xFFFE0000#32 ∧
      (handleException t.core).cp0 regBadvaddr = 0#32 ∧ ¬ ReportsException t.core := by
  constructor
  · obtain ⟨t, hrun, hfin, hexc, hdelay, hinst, hv0⟩ : ∃ t,
        iterate Tracked.tick 4 (.boot syscallMem) = .ok t ∧ t.finished = false ∧
        t.core.memWb.exception = .syscall ∧ t.core.memWb.isBranchDelay = false ∧
        t.core.memWb.inst = 0x0C#32 ∧ t.core.regs regV0 = 0 :=
      ⟨_, rfl, rfl, rfl, rfl, rfl, rfl⟩
    have hcause : (handleException t.core).cp0 regCause = 8#32 := by
      rw [handleException_cause, hexc, hdelay]
      decide
    refine ⟨t, (reachable_boot _).iterate hrun hfin, ?_, hexc, hcause, fun hreport => ?_⟩
    · unfold Core.traps
      rw [hexc, hinst, hv0]
      decide
    · have hwanted := hreport.cause
      rw [hcause, hexc, hdelay] at hwanted
      exact absurd hwanted (by decide)
  · obtain ⟨t, hrun, hfin, hexc, hinst, haddr, hbad⟩ : ∃ t,
        iterate Tracked.tick 5 (.boot faultMem) = .ok t ∧ t.finished = false ∧
        t.core.memWb.exception = .addressErrorStore ∧ t.core.memWb.inst = 0xAC200000#32 ∧
        t.core.memWb.accessAddr = 0xFFFE0000#32 ∧
        (handleException t.core).cp0 regBadvaddr = 0#32 :=
      ⟨_, rfl, rfl, by decide, rfl, by decide, by decide⟩
    refine ⟨t, (reachable_boot _).iterate hrun hfin, ?_, hexc, haddr, hbad, fun hreport => ?_⟩
    · unfold Core.traps
      rw [hexc, hinst]
      exact ⟨by decide, by decide, fun hc => absurd hc.1 (by decide)⟩
    · have haccess := hreport.badVAddr (.inr hexc)
      rw [hbad, haddr] at haccess
      exact absurd haccess (by decide)

end MipsSim
