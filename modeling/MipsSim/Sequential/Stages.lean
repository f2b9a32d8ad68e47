import MipsSim.Sequential.Basic

/-!
# One instruction in closed form

What the machine without a pipeline does with an instruction, in the terms of the stages, and which
parts of the pipeline registers matter for it. An instruction that comes through the pipeline with
the same `shown` parts does the same.
-/

namespace MipsSim

open Run

/-! ### Decode and execute -/

/-- `ID_EX` for the word `inst` at a point, given the contents of the registers. -/
def decodeAt (p : Point) (inst : Word) (regs cp0 : ℕ → Word) : IdEx :=
  decodeStage (SingleCycle.fetch ⟨p, regs, cp0, 0, false⟩ inst)

namespace SingleCycle

/-- `ID_EX` when the machine has decoded the word. -/
def decoded (s : SingleCycle) (inst : Word) : IdEx := decodeAt s.point inst s.regs s.cp0

/-- `EX_MEM` when the machine has executed the word. -/
def executed (s : SingleCycle) (inst : Word) : ExMem :=
  executeStage { s.fetch inst with idEx := s.decoded inst }

variable (s : SingleCycle) (inst : Word)

lemma execute_eq :
    s.execute inst =
      { s.fetch inst with
        pc := (s.decoded inst).redirect.getD (s.point.npc + 4)
        ifId := { isBranchDelay := (s.decoded inst).redirect.isSome }
        idEx := { s.decoded inst with
                  jumpAddr := if (s.decoded inst).c.jump then (s.decoded inst).jumpTarget
                    else (s.decoded inst).jumpAddr }
        exMem := s.executed inst } := by
  have hid : interpretId (s.fetch inst) = { s.fetch inst with idEx := s.decoded inst } :=
    interpretId_eq rfl
  rw [execute, hid, interpretEx_eq rfl]
  simp only [Bool.or_false]
  rfl

@[simp] lemma execute_exMem : (s.execute inst).exMem = s.executed inst := by rw [execute_eq]

@[simp] lemma execute_regs : (s.execute inst).regs = s.regs := by
  rw [execute_eq]
  rfl

@[simp] lemma execute_cp0 : (s.execute inst).cp0 = s.cp0 := by
  rw [execute_eq]
  rfl

@[simp] lemma execute_readData : (s.execute inst).memWb.readData = s.readData := by
  rw [execute_eq]
  rfl

/-- The core after MEM. -/
def moved (s : SingleCycle) (inst : Word) (memWb : MemWb) : Core :=
  { s.execute inst with memWb := memWb }

/-- The point after an instruction that does not empty the pipeline. -/
lemma writeBack_point {memWb : MemWb} (h : ¬ (s.moved inst memWb).flushes) :
    (s.writeBack inst (s.moved inst memWb)).point =
      s.point.after inst (s.decoded inst).redirect := by
  rw [writeBack, if_neg h, moved, execute_eq]
  rfl

variable {s inst}

/-- One instruction in terms of its fetch and its access. -/
lemma step_eq_ok {s' : SingleCycle} {mem mem' : Mmu} (h : s.halted = false) :
    s.step mem = .ok (s', mem') ↔
      ∃ inst mem₀ e readData badVAddr, mmuRead mem s.point.pc 0 .word = .ok (.none, inst, mem₀) ∧
        MemStep (s.execute inst) mem₀ e readData badVAddr mem' ∧
        s' = s.writeBack inst
          (s.moved inst (moveStage (s.execute inst) e readData badVAddr)) := by
  rw [step, if_neg (by simp [h])]
  simp only [bind_eq_ok, pure_eq_ok, Prod.exists, Prod.mk.injEq]
  constructor
  · rintro ⟨e₀, inst, mem₀, hread, core, mem₁, hmem, rfl, rfl⟩
    obtain ⟨rfl, -⟩ := mmuRead_spec hread
    obtain ⟨e, readData, badVAddr, hacc, rfl⟩ := interpretMem_cases hmem
    exact ⟨inst, mem₀, e, readData, badVAddr, hread, hacc, rfl⟩
  · rintro ⟨inst, mem₀, e, readData, badVAddr, hread, hacc, rfl⟩
    exact ⟨.none, inst, mem₀, hread, _, _, interpretMem_eq_ok hacc, rfl, rfl⟩

end SingleCycle

/-! ### What the later stages see -/

/-- `ID_EX` without what no later stage uses: the operand of `ERET`, the jump address of words that
do not set one, and `BadVAddr`. -/
def IdEx.shown (x : IdEx) : IdEx :=
  { x with
    rsValue := if x.inst = instructionEret then 0 else x.rsValue
    jumpAddr := if getOpcode x.inst = .j ∨ getOpcode x.inst = .jal then x.jumpAddr else 0
    badVAddr := 0 }

/-- `EX_MEM` without what no later stage uses: the result of an instruction that raises an
exception, what `ERET` leaves in it, and `BadVAddr`. -/
def ExMem.shown (x : ExMem) : ExMem :=
  { x with
    aluRes := if x.inst = instructionEret ∨ x.exception ≠ .none then 0 else x.aluRes
    exception := if x.inst = instructionEret then .none else x.exception
    badVAddr := 0 }

/-- `MEM_WB` likewise. -/
def MemWb.shown (x : MemWb) : MemWb :=
  { x with
    aluRes := if x.inst = instructionEret ∨ x.exception ≠ .none then 0 else x.aluRes
    exception := if x.inst = instructionEret then .none else x.exception
    badVAddr := 0 }

section Execute

variable {x y : IdEx}

lemma IdEx.eq_of_shown (h : x.shown = y.shown) (hne : x.inst ≠ instructionEret) :
    y = { x with jumpAddr := y.jumpAddr, badVAddr := y.badVAddr } := by
  have hinst : x.inst = y.inst := (congrArg IdEx.inst h :)
  have hne' : y.inst ≠ instructionEret := hinst ▸ hne
  cases x
  cases y
  simp only [IdEx.shown, IdEx.mk.injEq] at h ⊢
  rw [if_neg hne, if_neg hne'] at h
  obtain ⟨hc, hsh, hf, hn, hrs, hrt, -, hi, hs, ht, hd, hw, hb, he, -⟩ := h
  simp only [hc, hsh, hf, hn, hrs, hrt, hi, hs, ht, hd, hw, hb, he, and_self]

/-- The words that jump. -/
lemma opcode_of_jump {w : Word} (h : (controlOf w).jump = true) :
    getOpcode w = .j ∨ getOpcode w = .jal ∨ (getOpcode w = .r ∧ getFunct w = .jr) := by
  unfold controlOf at h
  cases hop : getOpcode w with
  | j => exact .inl rfl
  | jal => exact .inr (.inl rfl)
  | r =>
    by_cases hjr : getFunct w = .jr
    · exact .inr (.inr ⟨rfl, hjr⟩)
    · simp [hop, hjr] at h
  | cp0 => cases hc : getCp0Funct w <;> simp [hop, hc] at h
  | _ => simp [hop] at h

lemma control_eret : controlOf instructionEret = {} := rfl

/-- Redirections see the same. -/
lemma IdEx.Decoded.redirect_of_shown (hx : x.Decoded) (hy : y.Decoded) (h : x.shown = y.shown) :
    x.redirect = y.redirect := by
  have hinst : x.inst = y.inst := (congrArg IdEx.inst h :)
  by_cases heret : x.inst = instructionEret
  · have hctl : ∀ w, w = instructionEret → (controlOf w).beq = false ∧ (controlOf w).bne = false ∧
        (controlOf w).jump = false := by
      rintro w rfl
      rw [control_eret]
      exact ⟨rfl, rfl, rfl⟩
    rw [hx.redirect_eq_none (hctl _ heret), hy.redirect_eq_none (hctl _ (hinst ▸ heret))]
  · have htarget : x.c.jump = true → x.jumpTarget = y.jumpTarget := by
      intro hj
      rw [hx.c_eq] at hj
      have heq := IdEx.eq_of_shown h heret
      have haddr := (congrArg IdEx.jumpAddr h :)
      simp only [IdEx.shown, ← hinst] at haddr
      unfold IdEx.jumpTarget
      rw [heq]
      rcases opcode_of_jump hj with hop | hop | ⟨hop, hjr⟩
      · rw [if_pos (.inl hop), if_pos (.inl hop)] at haddr
        simp [hop, heret, haddr]
      · rw [if_pos (.inr hop), if_pos (.inr hop)] at haddr
        simp [hop, heret, haddr]
      · simp [hop, hjr]
    have hrest : y = { x with jumpAddr := y.jumpAddr, badVAddr := y.badVAddr } :=
      IdEx.eq_of_shown h heret
    have hc : x.c = y.c := (congrArg IdEx.c h :)
    unfold IdEx.redirect
    by_cases hj : x.c.jump = true
    · rw [← htarget hj, hrest]
    · rw [← hc, if_neg hj, hrest, if_neg hj]

/-- What was in `alu_res` before matters for no result that is used. -/
lemma aluResult_old (hx : x.Decoded) (hsup : supported x.inst = true)
    (hne : x.inst ≠ instructionEret) (hexc : aluException x = .none) (old old' : Word) :
    aluResult x old = aluResult x old' := by
  have hc := hx.c_eq
  have hf := hx.funct_eq
  unfold supported at hsup
  unfold aluException at hexc
  unfold aluResult
  cases hop : getOpcode x.inst with
  | ll => simp [hop] at hsup
  | r =>
    by_cases hjr : getFunct x.inst = .jr
    · simp [hc, controlOf, hop, hjr]
    · have hm : ¬ isCp0Move x.inst := by
        rintro (⟨hcp0, -⟩ | ⟨hcp0, -⟩) <;> exact absurd (hop.symm.trans hcp0) (by decide)
      rw [functOf, if_neg hm] at hf
      simp only [hop] at hsup
      simp only [hc, controlOf, hop, hjr, if_false, hf] at hexc ⊢
      cases hfun : getFunct x.inst <;> simp [hfun] at hsup hexc hjr ⊢
  | cp0 =>
    rcases hd : getCp0Funct x.inst with _ | _ | code
    · simp [hc, controlOf, hop, hd, hf, functOf, isCp0Move, isMfc0]
    · simp [hc, controlOf, hop, hd, hf, functOf, isCp0Move, isMtc0]
    · simp [hop, hd, isCp0Move, isMfc0, isMtc0, hne] at hsup
  | _ => simp [hc, controlOf, hop]

/-- Execution sees the same. -/
lemma executeStage_shown {a b : Core} (ha : a.idEx.Decoded) (hsup : supported a.idEx.inst = true)
    (h : a.idEx.shown = b.idEx.shown) : (executeStage a).shown = (executeStage b).shown := by
  have hinst : a.idEx.inst = b.idEx.inst := (congrArg IdEx.inst h :)
  by_cases heret : a.idEx.inst = instructionEret
  · have hc : a.idEx.c = b.idEx.c := (congrArg IdEx.c h :)
    have hrt : a.idEx.rtValue = b.idEx.rtValue := (congrArg IdEx.rtValue h :)
    have hn : a.idEx.nextPc = b.idEx.nextPc := (congrArg IdEx.nextPc h :)
    have hdst : a.idEx.dst = b.idEx.dst := by
      unfold IdEx.dst
      rw [hc, show a.idEx.rd = b.idEx.rd from (congrArg IdEx.rd h :),
        show a.idEx.rt = b.idEx.rt from (congrArg IdEx.rt h :)]
    have hbd : a.idEx.isBranchDelay = b.idEx.isBranchDelay := (congrArg IdEx.isBranchDelay h :)
    have heret' : b.idEx.inst = instructionEret := hinst ▸ heret
    simp only [executeStage, ExMem.shown, heret, heret', true_or, if_true, hc, hrt, hn, hdst, hbd]
  · have hrest : ∀ addr bad, b.idEx = { a.idEx with jumpAddr := addr, badVAddr := bad } →
        executeStage b = { executeStage a with
          aluRes := aluResult a.idEx b.exMem.aluRes, badVAddr := b.exMem.badVAddr } := by
      intro addr bad hb
      simp only [executeStage, hb]
      rfl
    rw [hrest _ _ (IdEx.eq_of_shown h heret)]
    by_cases hnone : aluException a.idEx = .none
    · rw [aluResult_old ha hsup heret hnone b.exMem.aluRes a.exMem.aluRes]
      rfl
    · have hne : (executeStage a).exception ≠ .none := hnone
      simp only [ExMem.shown, if_pos (show (executeStage a).inst = instructionEret ∨
        (executeStage a).exception ≠ .none from .inr hne)]

end Execute

/-! ### Memory -/

lemma ExMem.eq_of_shown {x y : ExMem} (h : x.shown = y.shown) (hne : x.inst ≠ instructionEret)
    (hexc : x.exception = .none) : y = { x with badVAddr := y.badVAddr } := by
  have hinst : x.inst = y.inst := (congrArg ExMem.inst h :)
  have hne' : y.inst ≠ instructionEret := hinst ▸ hne
  have hexc' : x.exception = y.exception := by
    have he := congrArg ExMem.exception h
    simp only [ExMem.shown] at he
    rwa [if_neg hne, if_neg hne'] at he
  have hnot : ¬ (x.inst = instructionEret ∨ x.exception ≠ .none) := fun hor =>
    hor.elim hne fun he => he hexc
  have hnot' : ¬ (y.inst = instructionEret ∨ y.exception ≠ .none) := fun hor =>
    hor.elim hne' fun he => he (hexc'.symm.trans hexc)
  cases x
  cases y
  simp only [ExMem.shown, ExMem.mk.injEq] at h ⊢
  rw [if_neg hnot, if_neg hnot'] at h
  obtain ⟨hw, hr, hm, ht, ha, hv, hd, hn, hb, hi, -, -⟩ := h
  exact ⟨hw.symm, hr.symm, hm.symm, ht.symm, ha.symm, hv.symm, hd.symm, hn.symm, hb.symm, hi.symm,
    hexc'.symm, trivial⟩

/-- What is moved on of an instruction that carries an exception, or of `ERET`. -/
lemma moveStage_shown {a b : Core} {e e' : Exception} {readData bad bad' : Word}
    (h : a.exMem.shown = b.exMem.shown)
    (hhide : a.exMem.inst = instructionEret ∨ (e ≠ .none ∧ e' = e)) :
    (moveStage a e readData bad).shown = (moveStage b e' readData bad').shown := by
  have hinst : a.exMem.inst = b.exMem.inst := (congrArg ExMem.inst h :)
  have hw : a.exMem.cRegWrite = b.exMem.cRegWrite := (congrArg ExMem.cRegWrite h :)
  have ht : a.exMem.cMemToReg = b.exMem.cMemToReg := (congrArg ExMem.cMemToReg h :)
  have hd : a.exMem.regDst = b.exMem.regDst := (congrArg ExMem.regDst h :)
  have hn : a.exMem.nextPc = b.exMem.nextPc := (congrArg ExMem.nextPc h :)
  have hb : a.exMem.isBranchDelay = b.exMem.isBranchDelay := (congrArg ExMem.isBranchDelay h :)
  rcases hhide with heret | ⟨he, rfl⟩
  · simp only [moveStage, MemWb.shown, ← hinst, ← hw, ← ht, ← hd, ← hn, ← hb, heret, true_or,
      if_true]
  · simp only [moveStage, MemWb.shown, ← hinst, ← hw, ← ht, ← hd, ← hn, ← hb, he, ne_eq,
      not_false_eq_true, or_true, if_true]
    rfl

/-- MEM sees the same. -/
lemma MemStep.congr {a b : Core} {mem mem' : Mmu} {e : Exception} {readData bad : Word}
    (hs : MemStep a mem e readData bad mem') (h : a.exMem.shown = b.exMem.shown)
    (hregs : a.regs = b.regs) (hdata : a.memWb.readData = b.memWb.readData)
    (hno : a.exMem.inst = instructionEret →
      a.exMem.cMemRead = false ∧ a.exMem.cMemWrite = false) :
    ∃ e' bad', MemStep b mem e' readData bad' mem' ∧
      (moveStage a e readData bad).shown = (moveStage b e' readData bad').shown := by
  have hinst : a.exMem.inst = b.exMem.inst := (congrArg ExMem.inst h :)
  have hread : a.exMem.cMemRead = b.exMem.cMemRead := (congrArg ExMem.cMemRead h :)
  have hwrite : a.exMem.cMemWrite = b.exMem.cMemWrite := (congrArg ExMem.cMemWrite h :)
  by_cases heret : a.exMem.inst = instructionEret
  · -- the exceptions may differ, but neither of the two makes an access
    obtain ⟨hr, hw⟩ := hno heret
    have hmem : mem' = mem := (hs.of_no_access hr hw).2
    have hrd : readData = b.memWb.readData := by
      rw [← hdata]
      cases hs with
      | carried _ => rfl
      | load _ hr' _ => exact absurd (hr.symm.trans hr') (by decide)
      | store _ _ _ _ => rfl
      | plain _ _ _ => rfl
    rw [hmem, hrd]
    by_cases he : b.exMem.exception = .none
    · exact ⟨_, _, .plain he (hread.symm.trans hr) (hwrite.symm.trans hw),
        moveStage_shown h (.inl heret)⟩
    · exact ⟨_, _, .carried he, moveStage_shown h (.inl heret)⟩
  · have hexc : a.exMem.exception = b.exMem.exception := by
      have he := congrArg ExMem.exception h
      simp only [ExMem.shown] at he
      rwa [if_neg heret, if_neg (hinst ▸ heret)] at he
    by_cases he : a.exMem.exception = .none
    · obtain ⟨z, heq⟩ : ∃ z, b.exMem = { a.exMem with badVAddr := z } :=
        ⟨_, ExMem.eq_of_shown h heret he⟩
      have hmove : ∀ e, (moveStage a e readData bad).shown =
          (moveStage b e readData b.memWb.badVAddr).shown := by
        intro e
        unfold moveStage
        rw [heq]
        rfl
      cases hs with
      | carried hne => exact absurd he hne
      | load _ hr hload =>
        refine ⟨e, _, .load (hexc ▸ he) (hread ▸ hr) ?_, hmove e⟩
        rw [← hdata, ← hload]
        simp only [memLoad, ← hregs]
        rw [heq]
      | store _ hr hw hstore =>
        rw [hdata] at hmove ⊢
        refine ⟨e, _, .store (hexc ▸ he) (hread ▸ hr) (hwrite ▸ hw) ?_, hmove e⟩
        rw [← hstore]
        simp only [memStore, ← hregs]
        rw [heq]
      | plain _ hr hw =>
        rw [hdata] at hmove ⊢
        exact ⟨_, _, .plain (hexc ▸ he) (hread ▸ hr) (hwrite ▸ hw), hmove _⟩
    · cases hs with
      | carried _ =>
        rw [hdata]
        exact ⟨_, _, .carried (hexc ▸ he), moveStage_shown h (.inr ⟨he, hexc.symm⟩)⟩
      | load hnone _ _ => exact absurd hnone he
      | store hnone _ _ _ => exact absurd hnone he
      | plain hnone _ _ => exact absurd hnone he

/-! ### Write back -/

lemma MemWb.eq_of_shown {x y : MemWb} (h : x.shown = y.shown) (hc : x.commits) :
    y = { x with badVAddr := y.badVAddr } := by
  have hinst : x.inst = y.inst := (congrArg MemWb.inst h :)
  have hne' : y.inst ≠ instructionEret := hinst ▸ hc.1
  have hexc : x.exception = y.exception := by
    have he := congrArg MemWb.exception h
    simp only [MemWb.shown] at he
    rwa [if_neg hc.1, if_neg hne'] at he
  have hnot : ¬ (x.inst = instructionEret ∨ x.exception ≠ .none) := fun hor =>
    hor.elim hc.1 fun he => he hc.2
  have hnot' : ¬ (y.inst = instructionEret ∨ y.exception ≠ .none) := fun hor =>
    hor.elim hne' fun he => he (hexc.symm.trans hc.2)
  cases x
  cases y
  simp only [MemWb.shown, MemWb.mk.injEq] at h ⊢
  rw [if_neg hnot, if_neg hnot'] at h
  obtain ⟨hw, ht, ha, hr, hd, hn, hi, hb, -, -⟩ := h
  exact ⟨hw.symm, ht.symm, ha.symm, hr.symm, hd.symm, hn.symm, hi.symm, hb.symm, hexc.symm, trivial⟩

section WriteBack

variable {a b : Core} (h : a.memWb.shown = b.memWb.shown)

include h

/-- Either both are `ERET`, or both carry the same exception. -/
lemma exception_of_shown :
    a.memWb.inst = b.memWb.inst ∧
      (a.memWb.inst ≠ instructionEret → a.memWb.exception = b.memWb.exception) := by
  have hinst : a.memWb.inst = b.memWb.inst := (congrArg MemWb.inst h :)
  refine ⟨hinst, fun heret => ?_⟩
  have he := congrArg MemWb.exception h
  simp only [MemWb.shown] at he
  rwa [if_neg heret, if_neg (hinst ▸ heret)] at he

variable (hregs : a.regs = b.regs)

include hregs

lemma flushes_congr : a.flushes ↔ b.flushes := by
  obtain ⟨hinst, hexc⟩ := exception_of_shown h
  unfold Core.flushes
  rw [← hinst, ← hregs]
  by_cases heret : a.memWb.inst = instructionEret
  · simp only [heret, true_or]
  · rw [← hexc heret]

lemma exits_congr : a.exits ↔ b.exits := by
  obtain ⟨hinst, hexc⟩ := exception_of_shown h
  unfold Core.exits
  rw [← hinst, ← hregs]
  by_cases heret : a.memWb.inst = instructionEret
  · simp only [heret, ne_eq, not_true_eq_false, false_and]
  · rw [← hexc heret]

omit hregs

variable (hcp0 : a.cp0 = b.cp0)

include hcp0

lemma flushTarget_congr : a.flushTarget = b.flushTarget := by
  unfold Core.flushTarget
  rw [(exception_of_shown h).1, hcp0]

/-- `BadVAddr` is written for one exception only, which nothing raises. -/
lemma flushCp0_congr (hne : a.memWb.exception ≠ .addressErrorLoad) : a.flushCp0 = b.flushCp0 := by
  obtain ⟨hinst, hexc⟩ := exception_of_shown h
  have hn : a.memWb.nextPc = b.memWb.nextPc := (congrArg MemWb.nextPc h :)
  have hb : a.memWb.isBranchDelay = b.memWb.isBranchDelay := (congrArg MemWb.isBranchDelay h :)
  unfold Core.flushCp0
  rw [← hinst, ← hcp0]
  refine if_ctx_congr Iff.rfl (fun _ => rfl) fun heret => ?_
  simp only [handleException, ← hcp0, ← hn, ← hb, ← hexc heret, hne, or_self, if_false]

include hregs

/-- WB sees the same. -/
lemma interpretWb_congr (hne : a.memWb.exception ≠ .addressErrorLoad) :
    (interpretWb a).1.regs = (interpretWb b).1.regs ∧
      (interpretWb a).1.cp0 = (interpretWb b).1.cp0 ∧
      (interpretWb a).1.memWb.readData = (interpretWb b).1.memWb.readData ∧
      (interpretWb a).2 = (interpretWb b).2 := by
  have hdata : a.memWb.readData = b.memWb.readData := (congrArg MemWb.readData h :)
  rcases flushes_or_exits_or_commits a with hf | hx | hc
  · rw [interpretWb_of_flushes hf, interpretWb_of_flushes ((flushes_congr h hregs).mp hf)]
    exact ⟨hregs, flushCp0_congr h hcp0 hne, rfl, rfl⟩
  · rw [interpretWb_of_exits hx, interpretWb_of_exits ((exits_congr h hregs).mp hx)]
    exact ⟨hregs, hcp0, hdata, rfl⟩
  · obtain ⟨hinst, hexc⟩ := exception_of_shown h
    have hc' : b.memWb.commits := ⟨hinst ▸ hc.1, (hexc hc.1).symm.trans hc.2⟩
    rw [interpretWb_of_commits hc, interpretWb_of_commits hc', hregs, hcp0,
      MemWb.eq_of_shown h hc]
    exact ⟨rfl, rfl, rfl, rfl⟩

end WriteBack

end MipsSim
