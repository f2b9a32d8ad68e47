import MipsSim.Sequential.Flight
import MipsSim.Sequential.Access

/-!
# The pipeline refines the machine without one

One tick of a core brings the next instruction through MEM, in exactly the state that the machine
executes it in, or it brings a bubble through, and then it changes nothing. From this follow the
states of whole runs, the number of ticks that they take and what can go wrong in them.
-/

namespace MipsSim

open Run

/-! ### The relation between two ticks -/

/-- The core between two ticks, seen from the machine's state: the relation holds once WB is
through. -/
structure InStep (code : Code) (s : SingleCycle) (core : Core) (v : Slots) : Prop where
  pipeOk : PipeOk core
  reg_zero : core.regs 0 = 0
  regs_eq : (interpretWb core).1.regs = s.regs
  cp0_eq : (interpretWb core).1.cp0 = s.cp0
  data_eq : (interpretWb core).1.memWb.readData = s.readData
  halted_eq : (interpretWb core).2 = s.halted
  flight : s.halted = false → Flight code s (interpretWb core).1 v
  paced : s.halted = false → Paced code (interpretWb core).1 v

/-- A core that is about to start. -/
lemma inStep_start (code : Code) {regs : ℕ → Word} (pc : Word) (cp0 : ℕ → Word)
    (hzero : regs 0 = 0) :
    InStep code (.start regs pc cp0) (.init regs pc cp0) (.empty (.start pc)) where
  pipeOk := pipeOk_init regs pc cp0
  reg_zero := hzero
  regs_eq := rfl
  cp0_eq := rfl
  data_eq := rfl
  halted_eq := rfl
  flight := fun _ => @flight_init code (.start regs pc cp0) pc rfl
  paced := fun _ => paced_init code regs pc cp0 _

/-- The WB after a tick, if it writes back. -/
lemma interpretWb_next {core : Core} {memWb : MemWb} {inst : Word} (hc : memWb.commits) :
    interpretWb (core.next memWb inst) = (core.nextWb memWb inst, false) := by
  rw [interpretWb_of_commits (by rwa [Core.next_memWb])]
  simp only [Core.nextWb, Core.withRegs, Core.next_memWb, Core.next_regs, Core.next_cp0]

/-- The program is where it was after what a tick does. -/
lemma Code.Holds.fetch {code : Code} {mem : Mmu} (h : code.Holds mem) {a inst : Word} {mem' : Mmu}
    (hread : mmuRead mem a 0 .word = .ok (.none, inst, mem')) :
    ∀ w, code a = some w → inst = w := by
  intro w hw
  rw [h a w hw, Except.ok.injEq, Prod.mk.injEq, Prod.mk.injEq] at hread
  exact hread.2.1.symm

/-! ### A bubble in MEM -/

section Tick

variable {code : Code} {s : SingleCycle} {core : Core} {v : Slots} {mem mem' : Mmu}

/-- A bubble does nothing in MEM. -/
lemma MemStep.of_nop {c : Core} {mem₁ : Mmu} {e : Exception} {readData bad : Word} (h : PipeOk c)
    (hnop : c.exMem.inst = 0) (hstep : MemStep c mem e readData bad mem₁) :
    e = .none ∧ readData = c.memWb.readData ∧ mem₁ = mem := by
  obtain ⟨hr, hw⟩ := ExMem.no_access h.exMem_ok hnop
  obtain ⟨he, hmem⟩ := hstep.of_no_access hr hw
  exact ⟨he.trans (h.exMem_nop hnop), hstep.readData_eq hr, hmem⟩

/-- A bubble writes nothing back. -/
lemma commit_of_nop {c : Core} {readData bad : Word} (h : PipeOk c) (hzero : c.regs 0 = 0)
    (hnop : c.exMem.inst = 0) :
    (moveStage c .none readData bad).commits ∧
      commitRegs (moveStage c .none readData bad) c.regs = c.regs ∧
      commitCp0 (moveStage c .none readData bad) c.cp0 = c.cp0 := by
  have hinst : (moveStage c .none readData bad).inst = 0 := hnop
  refine ⟨⟨by rw [hinst]; decide, rfl⟩, ?_, ?_⟩
  · funext r
    rw [commitRegs_apply (moved_moveStage h.exMem_ok) hzero, hinst, if_neg (not_writesGpr_nop r)]
  · rw [commitCp0, hinst, if_neg fun hm => absurd hm.2 (by decide)]

/-- The tick of a bubble. -/
lemma InStep.tick_nop {e : Exception} {readData bad inst : Word} {mem₁ : Mmu}
    (h : InStep code s core v) (hrun : s.halted = false) (hex : v.ex = false)
    (hstep : MemStep (interpretWb core).1 mem e readData bad mem₁)
    (htext : ∀ w, code core.fetchPc = some w → inst = w) :
    mem₁ = mem ∧ ∃ v', InStep code s
      ((interpretWb core).1.next (moveStage (interpretWb core).1 e readData bad) inst) v' ∧
      v'.wait + 1 = v.wait := by
  have hflight := h.flight hrun
  have hpipe := h.pipeOk.wb
  have hzero := interpretWb_regs_zero h.reg_zero
  have hnop := (hflight.ex_nop hex).1
  rw [← Core.interpretWb_redirect] at htext
  have hnext := hpipe.advance hstep inst
  obtain ⟨rfl, hdata, hmem⟩ := MemStep.of_nop hpipe hnop hstep
  obtain ⟨hc, hregs, hcp0⟩ := @commit_of_nop _ readData bad hpipe hzero hnop
  have hwb := @interpretWb_next (interpretWb core).1 _ inst hc
  refine ⟨hmem,
    v.next (interpretWb core).1 (moveStage (interpretWb core).1 .none readData bad) inst,
    ⟨hnext, ?_, ?_, ?_, ?_, ?_, ?_, ?_⟩, hflight.wait_of_nop hex⟩
  · rw [Core.next_regs]
    exact hzero
  · rw [hwb]
    exact hregs.trans h.regs_eq
  · rw [hwb]
    exact hcp0.trans h.cp0_eq
  · rw [hwb]
    have hmw : ((interpretWb core).1.nextWb
        (moveStage (interpretWb core).1 .none readData bad) inst).memWb = _ := Core.next_memWb ..
    rw [hmw]
    exact hdata.trans h.data_eq
  · rw [hwb]
    exact hrun.symm
  · intro _
    rw [hwb]
    exact hflight.next hpipe hzero (hflight.ex_nop hex).2.symm (h.regs_eq.symm.trans hregs.symm)
      (h.cp0_eq.symm.trans hcp0.symm) htext
  · intro _
    rw [hwb]
    exact (h.paced hrun).next hflight htext

/-! ### An instruction in MEM -/

lemma ExMem.no_access_eret {x : ExMem} (h : x.Empty ∨ x.Executed)
    (heret : x.inst = instructionEret) :
    x.cMemRead = false ∧ x.cMemWrite = false := by
  rcases h with h | h
  · exact ⟨h.memRead_eq, h.memWrite_eq⟩
  · rw [h.memRead_eq, h.memWrite_eq, heret, control_eret]
    exact ⟨rfl, rfl⟩

/-- The instruction in `EX_MEM` is the next one of the machine, and MEM finds what the machine
finds. -/
lemma InStep.executed (h : InStep code s core v) (hrun : s.halted = false) (hex : v.ex = true)
    (hreg : s.Regular code) :
    code s.point.pc = some (interpretWb core).1.exMem.inst ∧
      (interpretWb core).1.exMem.shown = (s.execute (interpretWb core).1.exMem.inst).exMem.shown ∧
      (interpretWb core).1.regs = (s.execute (interpretWb core).1.exMem.inst).regs ∧
      (interpretWb core).1.memWb.readData =
        (s.execute (interpretWb core).1.exMem.inst).memWb.readData := by
  have hflight := h.flight hrun
  have hshown := (hflight.ex_shown hex hreg).1
  obtain ⟨w, hw, -⟩ := hreg
  have hinst := hflight.ex_text hex w hw
  rw [SingleCycle.execute_exMem, SingleCycle.execute_regs, SingleCycle.execute_readData]
  exact ⟨hinst ▸ hw, hshown, h.regs_eq, h.data_eq⟩

/-- MEM makes the access that the machine makes, and moves on what it moves on. -/
lemma InStep.step_of_instruction {e : Exception} {readData bad : Word} {mem₁ : Mmu}
    (h : InStep code s core v) (hrun : s.halted = false) (hex : v.ex = true) (hreg : s.Regular code)
    (hold : code.Holds mem) (hstep : MemStep (interpretWb core).1 mem e readData bad mem₁) :
    ∃ e' bad', MemStep (s.execute (interpretWb core).1.exMem.inst) mem e' readData bad' mem₁ ∧
      (moveStage (s.execute (interpretWb core).1.exMem.inst) e' readData bad').shown =
        (moveStage (interpretWb core).1 e readData bad).shown ∧
      s.step mem = .ok (s.writeBack (interpretWb core).1.exMem.inst
        (s.moved (interpretWb core).1.exMem.inst
          (moveStage (s.execute (interpretWb core).1.exMem.inst) e' readData bad')), mem₁) := by
  obtain ⟨hw, hshown, hregs, hdata⟩ := h.executed hrun hex hreg
  obtain ⟨e', bad', hstep', hmoved⟩ := hstep.congr hshown hregs hdata
    (ExMem.no_access_eret h.pipeOk.wb.exMem_ok)
  exact ⟨e', bad', hstep', hmoved.symm, (SingleCycle.step_eq_ok hrun).mpr
    ⟨_, mem, e', readData, bad', hold _ _ hw, hstep', rfl⟩⟩

/-- The other way around: if the machine's access does not fault, then neither does that of MEM. -/
lemma InStep.memStep_of_instruction {s' : SingleCycle} {mem₁ : Mmu} (h : InStep code s core v)
    (hrun : s.halted = false) (hex : v.ex = true) (hreg : s.Regular code) (hold : code.Holds mem)
    (hs : s.step mem = .ok (s', mem₁)) :
    ∃ e readData bad, MemStep (interpretWb core).1 mem e readData bad mem₁ := by
  obtain ⟨hw, hshown, hregs, hdata⟩ := h.executed hrun hex hreg
  obtain ⟨inst, mem₀, e, readData, bad, hfetch, hstep, -⟩ := (SingleCycle.step_eq_ok hrun).mp hs
  rw [hold _ _ hw, Except.ok.injEq, Prod.mk.injEq, Prod.mk.injEq] at hfetch
  obtain ⟨-, rfl, rfl⟩ := hfetch
  have hno : (s.execute (interpretWb core).1.exMem.inst).exMem.inst = instructionEret →
      (s.execute (interpretWb core).1.exMem.inst).exMem.cMemRead = false ∧
        (s.execute (interpretWb core).1.exMem.inst).exMem.cMemWrite = false := by
    rw [SingleCycle.execute_exMem]
    exact ExMem.no_access_eret (executed_executeStage (.inr (decoded_decodeStage _)))
  obtain ⟨e', bad', hstep', -⟩ := hstep.congr hshown.symm hregs.symm hdata.symm hno
  exact ⟨e', readData, bad', hstep'⟩

/-- The machine raises no address error of a load. -/
lemma SingleCycle.exception_ne {inst : Word} {e : Exception} {readData bad : Word} {mem₁ : Mmu}
    (h : MemStep (s.execute inst) mem e readData bad mem₁) : e ≠ .addressErrorLoad := by
  have hex : (s.execute inst).exMem.exception.FromEx := by
    rw [SingleCycle.execute_exMem]
    exact fromEx_aluException _
  rcases h.fromMem hex with (rfl | rfl | rfl) | rfl <;> decide

/-- The tick of an instruction. -/
lemma InStep.tick_instruction {e : Exception} {readData bad inst : Word} {mem₁ : Mmu}
    (h : InStep code s core v) (hrun : s.halted = false) (hex : v.ex = true) (hreg : s.Regular code)
    (hold : code.Holds mem) (hstep : MemStep (interpretWb core).1 mem e readData bad mem₁) :
    ∃ s', s.step mem = .ok (s', mem₁) ∧
      ((∀ w, code core.fetchPc = some w → inst = w) → ∃ v', InStep code s'
        ((interpretWb core).1.next (moveStage (interpretWb core).1 e readData bad) inst) v' ∧
        (s'.halted = false → s'.Regular code → v'.wait = s'.penalty code)) := by
  obtain ⟨e', bad', hstep', hmoved, hs⟩ := h.step_of_instruction hrun hex hreg hold hstep
  refine ⟨_, hs, fun htext => ?_⟩
  have hflight := h.flight hrun
  have hpipe := h.pipeOk.wb
  have hzero := interpretWb_regs_zero h.reg_zero
  obtain ⟨-, hpoint⟩ := hflight.ex_shown hex hreg
  rw [← Core.interpretWb_redirect] at htext
  have hne := SingleCycle.exception_ne hstep'
  set c := (interpretWb core).1
  set memWb := moveStage c e readData bad
  set a := s.moved c.exMem.inst (moveStage (s.execute c.exMem.inst) e' readData bad')
  set s' := s.writeBack c.exMem.inst a
  -- WB of the next tick does what the machine does
  have hmem : a.memWb.shown = (c.next memWb inst).memWb.shown := by
    rw [Core.next_memWb]
    exact hmoved
  have hregs : a.regs = (c.next memWb inst).regs := by
    rw [Core.next_regs, h.regs_eq]
    exact SingleCycle.execute_regs s _
  have hcp0 : a.cp0 = (c.next memWb inst).cp0 := by
    rw [Core.next_cp0, h.cp0_eq]
    exact SingleCycle.execute_cp0 s _
  obtain ⟨hregs', hcp0', hdata', hfin'⟩ := interpretWb_congr hmem hregs hcp0 hne
  by_cases hf : a.flushes
  · have hf' := (flushes_congr hmem hregs).mp hf
    have hpt : s'.point = .start (c.next memWb inst).flushTarget := by
      have hstart : s'.point = .start (interpretWb a).1.pc := if_pos hf
      rw [hstart, interpretWb_of_flushes hf, ← flushTarget_congr hmem hcp0]
      rfl
    have hcore : (interpretWb (c.next memWb inst)).1 =
        .init s'.regs (c.next memWb inst).flushTarget s'.cp0 := by
      have hr : s'.regs = _ := hregs'
      have hp : s'.cp0 = _ := hcp0'
      rw [hr, hp, interpretWb_of_flushes hf']
      rfl
    refine ⟨.empty s'.point, ⟨hpipe.advance hstep inst, ?_, hregs'.symm, hcp0'.symm, hdata'.symm,
      hfin'.symm, fun _ => ?_, fun _ => ?_⟩, fun _ _ => ?_⟩
    · rw [Core.next_regs]
      exact hzero
    · rw [hcore]
      exact flight_init code hpt
    · rw [hcore]
      exact paced_init code _ _ _ _
    · rw [SingleCycle.penalty, hpt]
      rfl
  · have hpt : s'.point = v.idPoint := (SingleCycle.writeBack_point s _ hf).trans hpoint.symm
    have hcommits : s'.halted = false → memWb.commits := by
      intro hrun'
      have hnf := mt (flushes_congr hmem hregs).mpr hf
      rcases (flushes_or_exits_or_commits (c.next memWb inst)).resolve_left hnf with hx | hc
      · have htrue : s'.halted = true := by
          rw [show s'.halted = _ from hfin', interpretWb_of_exits hx]
        exact absurd (hrun'.symm.trans htrue) (by decide)
      · rwa [Core.next_memWb] at hc
    refine ⟨v.next c memWb inst, ⟨hpipe.advance hstep inst, ?_, hregs'.symm, hcp0'.symm,
      hdata'.symm, hfin'.symm, fun hrun' => ?_, fun hrun' => ?_⟩, fun _ hreg' => ?_⟩
    · rw [Core.next_regs]
      exact hzero
    · have hwb := @interpretWb_next c memWb inst (hcommits hrun')
      rw [hwb]
      rw [hwb] at hregs' hcp0'
      exact hflight.next hpipe hzero hpt hregs' hcp0' htext
    · rw [interpretWb_next (hcommits hrun')]
      exact (h.paced hrun).next hflight htext
    · have hafter := hpt.trans hpoint
      exact (h.paced hrun).wait_of_instruction hflight hex hpt (by rw [hafter]; rfl)
        (by rw [hafter]; rfl) hreg'

/-! ### One tick -/

/-- What a tick of a core does, given that IF calls no device: with a bubble in MEM nothing, and
with an instruction in MEM what the machine does. -/
lemma InStep.tick {core' : Core} {fin : Bool} (h : InStep code s core v) (hrun : s.halted = false)
    (hreg : s.Regular code) (hold : code.Holds mem) (hquiet : mem.called core.fetchPc = [])
    (ht : tickCore core mem = .ok (core', mem', fin)) :
    fin = false ∧
      ((mem' = mem ∧ ∃ v', InStep code s core' v' ∧ v'.wait + 1 = v.wait) ∨
        (v.wait = 0 ∧ ∃ s', s.step mem = .ok (s', mem') ∧
          (code.Holds mem' → ∃ v', InStep code s' core' v' ∧
            (s'.halted = false → s'.Regular code → v'.wait = s'.penalty code)))) := by
  have heq : interpretWb core = ((interpretWb core).1, (interpretWb core).2) := rfl
  obtain ⟨e, readData, bad, mem₁, inst, hstep, hread, rfl, rfl⟩ :=
    (tickCore_eq_ok heq h.pipeOk.wb.ifId_exception h.pipeOk.wb.idEx_exception).mp ht
  refine ⟨h.halted_eq.trans hrun, ?_⟩
  rw [Core.interpretWb_redirect] at hread
  rw [← hstep.sameUnit.called_eq] at hquiet
  obtain rfl := mmuRead_of_called_nil hquiet hread
  cases hex : v.ex with
  | false =>
    have hmem := (MemStep.of_nop h.pipeOk.wb ((h.flight hrun).ex_nop hex).1 hstep).2.2
    rw [← hmem] at hold
    obtain ⟨-, hsim⟩ := h.tick_nop hrun hex hstep (hold.fetch hread)
    exact .inl ⟨hmem, hsim⟩
  | true =>
    obtain ⟨s', hs, hsim⟩ :=
      @InStep.tick_instruction _ _ _ _ _ _ _ _ inst _ h hrun hex hreg hold hstep
    refine .inr ⟨by rw [Slots.wait, if_pos hex], s', hs, fun hold' => ?_⟩
    exact hsim (hold'.fetch hread)

end Tick

end MipsSim
