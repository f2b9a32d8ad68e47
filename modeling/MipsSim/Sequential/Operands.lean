import MipsSim.Sequential.Stages

/-!
# Operands that come through the pipeline

What `ID_EX` holds after forwarding is what the machine without a pipeline decodes once the two
instructions ahead are written back, unless the three of them are in `Conflict`. Bubbles only take
conflicts away.
-/

namespace MipsSim

open Run

/-! ### Conflicts and bubbles -/

/-- `ex` and `wb` are the words ahead of an instruction in `EX_MEM` and in `MEM_WB`, when `prev` and
`prev₂` are the two instructions before it: the pipeline may have been cleared between any of them,
and there may be a bubble behind a load. -/
def Follows (prev prev₂ ex wb : Word) : Prop :=
  (ex = prev ∧ (wb = prev₂ ∨ wb = 0)) ∨
    (ex = 0 ∧ (wb = 0 ∨ (wb = prev ∧ (controlOf prev).memRead = true)))

lemma not_writesCp0_of_memRead {w : Word} (h : (controlOf w).memRead = true) (r : ℕ) :
    ¬ writesCp0 w r := by
  rintro ⟨-, hm⟩
  rcases opcode_of_memRead h with hop | hop | hop | hop | hop <;> simp [isMtc0, hop] at hm

lemma not_isMfc0_of_memRead {w : Word} (h : (controlOf w).memRead = true) : ¬ isMfc0 w := by
  intro hm
  rcases opcode_of_memRead h with hop | hop | hop | hop | hop <;> simp [isMfc0, hop] at hm

lemma not_writesGpr_nop (r : ℕ) : ¬ writesGpr 0 r := fun h => writesNum_zero r h.1

lemma not_writesCp0_nop (r : ℕ) : ¬ writesCp0 0 r := fun h => writesNum_zero r h.1

section Cases

variable {inst ex wb : Word}

lemma conflict_mfc0 (h : isMfc0 inst) :
    Conflict inst ex wb ↔
      (isMfc0 ex ∧ writesNum ex (getRd inst + 1)) ∨
      (isMfc0 wb ∧ writesNum wb (getRd inst + 1) ∧ ¬ writesNum ex (getRd inst + 1)) ∨
      (writesGpr ex (getRd inst + 1) ∧ writesCp0 wb (getRd inst + 1)) := by
  rw [Conflict, if_pos (show isCp0Move inst from .inl h), Clash, if_pos h]

lemma conflict_mtc0 (h : isMtc0 inst) :
    Conflict inst ex wb ↔
      writesCp0 ex (getRt inst) ∨ (writesCp0 wb (getRt inst) ∧ ¬ writesNum ex (getRt inst)) := by
  rw [Conflict, if_pos (show isCp0Move inst from .inr h), Clash,
    if_neg (fun hf => not_isMtc0_of_isMfc0 hf h), if_pos h]

lemma conflict_jal (hm : ¬ isCp0Move inst) (h : getOpcode inst = .jal) :
    Conflict inst ex wb ↔
      ∃ r ∈ [getRs inst, getRt inst, regRa], writesNum ex r ∨ writesNum wb r := by
  rw [Conflict, if_neg hm, if_pos h]

lemma conflict_other (hm : ¬ isCp0Move inst) (h : getOpcode inst ≠ .jal) :
    Conflict inst ex wb ↔
      (writesCp0 ex (getRs inst) ∧ writesGpr wb (getRs inst)) ∨
      ((writesCp0 ex (getRs inst) ∨ writesCp0 ex (getRt inst)) ∧ writesGpr wb (getRt inst)) ∨
      (writesCp0 wb (getRs inst) ∧ ¬ writesNum ex (getRs inst) ∧ writesGpr ex (getRt inst)) := by
  rw [Conflict, if_neg hm, if_neg h]

end Cases

/-- Without the older of the two there are fewer conflicts. -/
lemma Conflict.of_older_nop {inst ex wb : Word} (h : Conflict inst ex 0) : Conflict inst ex wb := by
  by_cases hm : isCp0Move inst
  · rcases hm with hf | ht
    · rw [conflict_mfc0 hf] at h ⊢
      rcases h with hx | ⟨-, hz, -⟩ | ⟨-, hz⟩
      · exact .inl hx
      · exact absurd hz (writesNum_zero _)
      · exact absurd hz (not_writesCp0_nop _)
    · rw [conflict_mtc0 ht] at h ⊢
      exact .inl (h.resolve_right fun hz => not_writesCp0_nop _ hz.1)
  · by_cases hjal : getOpcode inst = .jal
    · rw [conflict_jal hm hjal] at h ⊢
      obtain ⟨r, hr, hw⟩ := h
      exact ⟨r, hr, .inl (hw.resolve_right (writesNum_zero r))⟩
    · rw [conflict_other hm hjal] at h
      rcases h with ⟨-, hz⟩ | ⟨-, hz⟩ | ⟨hz, -⟩
      · exact absurd hz (not_writesGpr_nop _)
      · exact absurd hz (not_writesGpr_nop _)
      · exact absurd hz (not_writesCp0_nop _)

/-- Behind a bubble that follows a load there are fewer conflicts, too. -/
lemma Conflict.of_bubble {inst load wb : Word} (hload : (controlOf load).memRead = true)
    (h : Conflict inst 0 load) : Conflict inst load wb := by
  have hcp0 := not_writesCp0_of_memRead hload
  by_cases hm : isCp0Move inst
  · rcases hm with hf | ht
    · rw [conflict_mfc0 hf] at h
      rcases h with ⟨-, hz⟩ | ⟨hl, -⟩ | ⟨hz, -⟩
      · exact absurd hz (writesNum_zero _)
      · exact absurd hl (not_isMfc0_of_memRead hload)
      · exact absurd hz (not_writesGpr_nop _)
    · rw [conflict_mtc0 ht] at h
      rcases h with hz | ⟨hl, -⟩
      · exact absurd hz (not_writesCp0_nop _)
      · exact absurd hl (hcp0 _)
  · by_cases hjal : getOpcode inst = .jal
    · rw [conflict_jal hm hjal] at h ⊢
      obtain ⟨r, hr, hw⟩ := h
      exact ⟨r, hr, .inl (hw.resolve_left (writesNum_zero r))⟩
    · rw [conflict_other hm hjal] at h
      rcases h with ⟨hz, -⟩ | ⟨hz | hz, -⟩ | ⟨hl, -⟩
      · exact absurd hz (not_writesCp0_nop _)
      · exact absurd hz (not_writesCp0_nop _)
      · exact absurd hz (not_writesCp0_nop _)
      · exact absurd hl (hcp0 _)

lemma not_conflict_nop (inst : Word) : ¬ Conflict inst 0 0 := by
  intro h
  by_cases hm : isCp0Move inst
  · rw [Conflict, if_pos hm] at h
    exact not_clash_zero inst h
  · by_cases hjal : getOpcode inst = .jal
    · obtain ⟨r, -, hw⟩ := (conflict_jal hm hjal).mp h
      exact hw.elim (writesNum_zero r) (writesNum_zero r)
    · rcases (conflict_other hm hjal).mp h with ⟨hz, -⟩ | ⟨-, hz⟩ | ⟨hz, -⟩
      · exact not_writesCp0_nop _ hz
      · exact not_writesGpr_nop _ hz
      · exact not_writesCp0_nop _ hz

/-- What does not conflict in the program does not conflict in the pipeline. -/
lemma Follows.not_conflict {prev prev₂ ex wb inst : Word} (h : Follows prev prev₂ ex wb)
    (hc : ¬ Conflict inst prev prev₂) : ¬ Conflict inst ex wb := by
  intro hx
  rcases h with ⟨rfl, rfl | rfl⟩ | ⟨rfl, rfl | ⟨rfl, hload⟩⟩
  · exact hc hx
  · exact hc hx.of_older_nop
  · exact not_conflict_nop inst hx
  · exact hc (hx.of_bubble hload)

/-! ### Forwarding -/

section Forward

variable {core : Core} (hex : core.exMem.Empty ∨ core.exMem.Executed)
  (hwb : core.memWb.Empty ∨ core.memWb.Moved)

include hex hwb

/-- A multiplexer passes on what it gets when nobody ahead writes the register. -/
lemma forwardMux_of_not_writes {inst : Word} {r : ℕ} (value : Word)
    (hx : ¬ writesNum core.exMem.inst r) (hy : ¬ writesNum core.memWb.inst r) :
    forwardMux core.exMem.source core.memWb.source inst r value = some value := by
  rw [forwardMux_eq hex hwb, if_neg hx, if_neg hy]

variable (hdec : core.idEx.Decoded)

include hdec

/-- The operands of `JAL` stay as they are. -/
lemma forward_jal (hjal : getOpcode core.idEx.inst = .jal)
    (hconf : ¬ Conflict core.idEx.inst core.exMem.inst core.memWb.inst) :
    core.forwardRs = core.idEx.rsValue ∧ core.forwardRt = core.idEx.rtValue := by
  have hm : ¬ isCp0Move core.idEx.inst := by
    rintro (⟨hcp0, -⟩ | ⟨hcp0, -⟩) <;> exact absurd (hjal.symm.trans hcp0) (by decide)
  have heret : core.idEx.inst ≠ instructionEret := by
    intro he
    rw [he] at hjal
    revert hjal
    decide
  have hfree : ∀ r ∈ [getRs core.idEx.inst, getRt core.idEx.inst, regRa],
      ¬ writesNum core.exMem.inst r ∧ ¬ writesNum core.memWb.inst r := fun r hr =>
    ⟨fun hw => hconf ((conflict_jal hm hjal).mpr ⟨r, hr, .inl hw⟩),
      fun hw => hconf ((conflict_jal hm hjal).mpr ⟨r, hr, .inr hw⟩)⟩
  have hrs : core.idEx.rs = getRs core.idEx.inst := by
    rw [hdec.rs_eq, rsOf, if_neg (fun hf => hm (.inl hf)), if_neg (fun ht => hm (.inr ht))]
  have hrt : core.idEx.rt = regRa := by
    rw [hdec.rt_eq, rtOf, if_neg hm, if_pos hjal]
  obtain ⟨hx, hy⟩ := hfree (getRs core.idEx.inst) (by simp)
  obtain ⟨hx', hy'⟩ := hfree regRa (by simp)
  unfold Core.forwardRs Core.forwardRt
  rw [if_neg heret, if_neg heret, hrs, hrt, forwardMux_of_not_writes hex hwb _ hx hy,
    forwardMux_of_not_writes hex hwb _ hx' hy']
  exact ⟨rfl, rfl⟩

/-- The operands of words that are neither CP0 ones nor `JAL`, used or not. -/
lemma forward_other (hop : getOpcode core.idEx.inst ≠ .cp0) (hjal : getOpcode core.idEx.inst ≠ .jal)
    (hconf : ¬ Conflict core.idEx.inst core.exMem.inst core.memWb.inst) (hzero : core.regs 0 = 0)
    (hrsv : core.idEx.rsValue = core.regs (getRs core.idEx.inst))
    (hrtv : core.idEx.rtValue = core.regs (getRt core.idEx.inst)) :
    core.forwardRs = gprAfter core.exMem core.memWb core.regs (getRs core.idEx.inst) ∧
      core.forwardRt = gprAfter core.exMem core.memWb core.regs (getRt core.idEx.inst) := by
  have hm : ¬ isCp0Move core.idEx.inst := fun hm => hm.elim (fun hf => hop hf.1) fun ht => hop ht.1
  have heret : core.idEx.inst ≠ instructionEret := by
    intro he
    rw [he] at hop
    exact hop rfl
  have hrs : core.idEx.rs = getRs core.idEx.inst := by
    rw [hdec.rs_eq, rsOf, if_neg (fun hf => hm (.inl hf)), if_neg (fun ht => hm (.inr ht))]
  have hrt : core.idEx.rt = getRt core.idEx.inst := by
    rw [hdec.rt_eq, rtOf, if_neg hm, if_neg hjal]
  rw [conflict_other hm hjal, not_or, not_or] at hconf
  obtain ⟨hA, hB, hC⟩ := hconf
  unfold Core.forwardRs Core.forwardRt
  rw [if_neg heret, if_neg heret, hrs, hrt, hrsv, hrtv]
  constructor
  · exact forwardMux_general hop hex hwb hzero fun hx hy => hA ⟨hx, hy⟩
  · split
    next hnone =>
      -- the first multiplexer has returned: neither of the two writes `rt`
      rw [gprAfter, commitRegs_apply hwb hzero]
      rcases (forwardMux_eq_none_iff hop hex hwb).mp hnone with hx | ⟨hx, hy⟩
      · rw [if_neg (fun hx' => hx'.2 hx.2), if_neg (fun hy => hB ⟨.inl hx, hy⟩)]
      · rw [if_neg (fun hx' => hC ⟨hy, hx, hx'⟩), if_neg (fun hy' => hy'.2 hy.2)]
    next =>
      exact forwardMux_general hop hex hwb hzero fun hx hy => hB ⟨.inr hx, hy⟩

end Forward

/-- The supported words that are CP0 ones. -/
lemma cp0_of_supported {w : Word} (hsup : supported w = true) (hop : getOpcode w = .cp0) :
    isCp0Move w ∨ w = instructionEret := by
  simpa [supported, hop] using hsup

section DecodeAt

variable (p : Point) (inst : Word) (regs cp0 : ℕ → Word)

lemma decodeAt_rsValue :
    (decodeAt p inst regs cp0).rsValue =
      if isMfc0 inst then cp0 (getRd inst + 1)
      else if isMtc0 inst then regs (getRt inst)
      else if getOpcode inst = .jal then p.pc + 4 + 0x04#32
      else regs (getRs inst) := rfl

lemma decodeAt_rtValue :
    (decodeAt p inst regs cp0).rtValue = if isCp0Move inst then 0 else regs (getRt inst) := rfl

end DecodeAt

/-- `ID_EX` up to its operands. -/
lemma shown_congr {x y : IdEx} {a b : Word}
    (h : x.shown = { y with rsValue := a, rtValue := b }.shown)
    (hrs : x.inst ≠ instructionEret → a = y.rsValue) (hrt : b = y.rtValue) : x.shown = y.shown := by
  have hinst : x.inst = y.inst := (congrArg IdEx.inst h :)
  rw [h, hrt]
  by_cases heret : y.inst = instructionEret
  · simp only [IdEx.shown, heret, if_true]
  · rw [hrs (hinst ▸ heret)]

section Supply

variable {core : Core} {memWb : MemWb} {p : Point} (hid : core.idEx = {} ∨ core.idEx.Decoded)
  (hwb : memWb.Empty ∨ memWb.Moved) (hzero : core.regs 0 = 0)
  (hconf : ¬ Conflict core.ifId.inst core.idEx.inst memWb.inst)

/-- The operands that are decoded from the register files which the instructions in `MEM_WB` and
`EX_MEM` will leave. -/
def Supplied (core : Core) (memWb : MemWb) (p : Point) : Prop :=
  let x := decodeAt p core.ifId.inst (gprAfter (executeStage core) memWb core.regs)
    (cp0After (executeStage core) memWb core.cp0)
  (core.ifId.inst ≠ instructionEret → (core.advance memWb).forwardRs = x.rsValue) ∧
    (core.advance memWb).forwardRt = x.rtValue

include hid hwb hzero hconf

lemma supplied_move (hm : isCp0Move core.ifId.inst) : Supplied core memWb p := by
  have hex := executed_executeStage hid
  have hdec : (core.advance memWb).idEx.Decoded := decoded_decodeStage _
  have hclash : ¬ Clash core.ifId.inst core.idEx.inst memWb.inst := by
    rwa [Conflict, if_pos hm] at hconf
  rw [Supplied, decodeAt_rsValue, decodeAt_rtValue, if_pos hm]
  rcases hm with hf | ht
  · obtain ⟨hrs, hrt⟩ := @forward_mfc0 (core.advance memWb) hdec hex hwb (operands_read _) hclash hf
    rw [if_pos hf]
    exact ⟨fun _ => hrs, hrt⟩
  · obtain ⟨hrs, hrt⟩ := @forward_mtc0 (core.advance memWb) hdec hex hwb hzero (operands_read _)
      hclash ht
    rw [if_neg (fun hf => not_isMtc0_of_isMfc0 hf ht), if_pos ht]
    exact ⟨fun _ => hrs, hrt⟩

lemma supplied_jal (hjal : getOpcode core.ifId.inst = .jal) (hpc : core.ifId.nextPc = p.pc + 4) :
    Supplied core memWb p := by
  have hf : ¬ isMfc0 core.ifId.inst := fun hf => absurd (hjal.symm.trans hf.1) (by decide)
  have ht : ¬ isMtc0 core.ifId.inst := fun ht => absurd (hjal.symm.trans ht.1) (by decide)
  have hm : ¬ isCp0Move core.ifId.inst := fun hm => hm.elim hf ht
  obtain ⟨hrs, hrt⟩ := @forward_jal (core.advance memWb) (executed_executeStage hid) hwb
    (decoded_decodeStage _) hjal hconf
  have hrsv : (core.advance memWb).idEx.rsValue = rsRead core core.ifId.inst := rfl
  have hrtv : (core.advance memWb).idEx.rtValue = core.regs (getRt core.ifId.inst) := if_neg hm
  -- nobody ahead writes `rt` either
  have hx : ¬ writesNum core.idEx.inst (getRt core.ifId.inst) := fun hw =>
    hconf ((conflict_jal hm hjal).mpr ⟨_, by simp, .inl hw⟩)
  have hy : ¬ writesNum memWb.inst (getRt core.ifId.inst) := fun hw =>
    hconf ((conflict_jal hm hjal).mpr ⟨_, by simp, .inr hw⟩)
  rw [Supplied, decodeAt_rsValue, decodeAt_rtValue, if_neg hm, if_neg hf, if_neg ht, if_pos hjal]
  constructor
  · intro _
    rw [hrs, hrsv, rsRead, if_neg hf, if_neg ht, if_pos hjal, hpc]
  · rw [hrt, hrtv, gprAfter, if_neg (fun hw => hx hw.1), commitRegs_apply hwb hzero,
      if_neg (fun hw => hy hw.1)]

lemma supplied_other (hop : getOpcode core.ifId.inst ≠ .cp0)
    (hjal : getOpcode core.ifId.inst ≠ .jal) : Supplied core memWb p := by
  have hf : ¬ isMfc0 core.ifId.inst := fun hf => hop hf.1
  have ht : ¬ isMtc0 core.ifId.inst := fun ht => hop ht.1
  have hm : ¬ isCp0Move core.ifId.inst := fun hm => hm.elim hf ht
  have hrsv : (core.advance memWb).idEx.rsValue = core.regs (getRs core.ifId.inst) := by
    have h : (core.advance memWb).idEx.rsValue = rsRead core core.ifId.inst := rfl
    rw [h, rsRead, if_neg hf, if_neg ht, if_neg hjal]
  have hrtv : (core.advance memWb).idEx.rtValue = core.regs (getRt core.ifId.inst) := if_neg hm
  obtain ⟨hrs, hrt⟩ := @forward_other (core.advance memWb) (executed_executeStage hid) hwb
    (decoded_decodeStage _) hop hjal hconf hzero hrsv hrtv
  rw [Supplied, decodeAt_rsValue, decodeAt_rtValue, if_neg hm, if_neg hf, if_neg ht, if_neg hjal]
  exact ⟨fun _ => hrs, hrt⟩

omit hid hwb hconf in
lemma supplied_eret (heret : core.ifId.inst = instructionEret) : Supplied core memWb p := by
  have hm : ¬ isCp0Move core.ifId.inst := by
    rw [heret]
    decide
  have hrt : (core.advance memWb).forwardRt = (core.advance memWb).idEx.rtValue := if_pos heret
  have hrtv : (core.advance memWb).idEx.rtValue = core.regs (getRt core.ifId.inst) := if_neg hm
  rw [Supplied, decodeAt_rtValue, if_neg hm, hrt, hrtv,
    show getRt core.ifId.inst = 0 by rw [heret]; rfl, hzero]
  exact ⟨fun hne => absurd heret hne, (gprAfter_zero _ _ hzero).symm⟩

variable (hsup : supported core.ifId.inst = true) (hpc : core.ifId.nextPc = p.pc + 4)

include hsup hpc

lemma supplied : Supplied core memWb p := by
  by_cases hop : getOpcode core.ifId.inst = .cp0
  · rcases cp0_of_supported hsup hop with hm | heret
    · exact supplied_move hid hwb hzero hconf hm
    · exact supplied_eret hzero heret
  · by_cases hjal : getOpcode core.ifId.inst = .jal
    · exact supplied_jal hid hwb hzero hconf hjal hpc
    · exact supplied_other hid hwb hzero hconf hop hjal

/-- After a tick `ID_EX` is what is decoded from the register files that the two instructions ahead
will leave. -/
lemma shown_next (fetched : Word)
    (hdelay : (core.idEx.redirect.isSome || core.ifId.isBranchDelay) = p.delay) :
    (core.next memWb fetched).idEx.shown =
      (decodeAt p core.ifId.inst (gprAfter (executeStage core) memWb core.regs)
        (cp0After (executeStage core) memWb core.cp0)).shown := by
  obtain ⟨hrs, hrt⟩ := @supplied core memWb p hid hwb hzero hconf hsup hpc
  refine shown_congr (a := (core.advance memWb).forwardRs) (b := (core.advance memWb).forwardRt)
    ?_ (fun hne => hrs (by rwa [Core.next_idEx_inst] at hne)) hrt
  -- all but the operands is the same
  rw [Core.next_idEx]
  simp only [IdEx.shown, Core.advance, decodeAt, decodeStage, SingleCycle.fetch, jumpRead, hpc,
    hdelay, IdEx.mk.injEq, true_and, and_true]
  by_cases hj : getOpcode core.ifId.inst = .j ∨ getOpcode core.ifId.inst = .jal
  · simp only [hj, if_true]
  · simp only [hj, if_false]

end Supply

end MipsSim
