import MipsSim.Pipeline.Track
import Mathlib.Tactic.IntervalCases

/-!
# Forwarding

General registers and CP0 registers share the register numbers of the pipeline registers, and the
forwarding unit tells them apart by the instructions that travel along. The forwarded operands are
the youngest older writes except for a few combinations of three neighbouring instructions, listed
in `Clash`; in a run without any of them every instruction is executed with the right operands.
-/

namespace MipsSim

open Run

/-! ### Reads and writes of an instruction -/

/-- The instruction writes the register number, in one of the two register files. -/
def writesNum (inst : Word) (r : ℕ) : Prop :=
  (controlOf inst).regWrite = true ∧ dstOf inst ≠ 0 ∧ dstOf inst = r

/-- The instruction writes the general register. -/
def writesGpr (inst : Word) (r : ℕ) : Prop := writesNum inst r ∧ ¬ isMtc0 inst

/-- The instruction writes the CP0 register, counted from one. -/
def writesCp0 (inst : Word) (r : ℕ) : Prop := writesNum inst r ∧ isMtc0 inst

instance (inst : Word) (r : ℕ) : Decidable (writesNum inst r) := inferInstanceAs (Decidable (_ ∧ _))

instance (inst : Word) (r : ℕ) : Decidable (writesGpr inst r) := inferInstanceAs (Decidable (_ ∧ _))

instance (inst : Word) (r : ℕ) : Decidable (writesCp0 inst r) := inferInstanceAs (Decidable (_ ∧ _))

/-- The field `rs` names a source register of an instruction that is not a CP0 one. -/
def usesRs (inst : Word) : Bool :=
  match getOpcode inst with
  | .r =>
    match getFunct inst with
    | .sll | .srl | .syscall | .unknown _ => false
    | _ => true
  | .beq | .bne | .addi | .addiu | .slti | .sltiu | .andi | .ori => true
  | .lwl | .lw | .lbu | .lhu | .lwr | .sw | .sb | .sc | .sh | .swr | .swl => true
  | .j | .jal | .lui | .ll | .cp0 | .unknown _ => false

/-- The field `rt` names a source register of an instruction that is not a CP0 one, and it is taken
from the pipeline. -/
def usesRt (inst : Word) : Bool :=
  match getOpcode inst with
  | .r =>
    match getFunct inst with
    | .jr | .syscall | .unknown _ => false
    | _ => true
  | .beq | .bne | .sw | .sb | .sc | .sh => true
  | _ => false

/-- The instruction takes `rt` from the register file, in MEM. -/
def readsRtInMem (inst : Word) : Bool :=
  match getOpcode inst with
  | .lwl | .lwr | .swl | .swr => true
  | _ => false

/-- `inst` is executed with the operands `a` and `b` that the two register files hold. -/
structure Operands (inst a b : Word) (gpr cp0 : ℕ → Word) : Prop where
  mfc0 : isMfc0 inst → a = cp0 (getRd inst + 1) ∧ b = 0
  mtc0 : isMtc0 inst → a = gpr (getRt inst) ∧ b = 0
  rs : usesRs inst = true → a = gpr (getRs inst)
  rt : usesRt inst = true → b = gpr (getRt inst)

lemma opcode_ne_of_usesRs {inst : Word} (h : usesRs inst = true) :
    getOpcode inst ≠ .cp0 ∧ getOpcode inst ≠ .jal := by
  unfold usesRs at h
  constructor <;> intro hop <;> simp [hop] at h

lemma opcode_ne_of_usesRt {inst : Word} (h : usesRt inst = true) :
    getOpcode inst ≠ .cp0 ∧ getOpcode inst ≠ .jal := by
  unfold usesRt at h
  constructor <;> intro hop <;> simp [hop] at h

lemma not_isMtc0_of_isMfc0 {inst : Word} (h : isMfc0 inst) : ¬ isMtc0 inst := by
  intro ht
  exact absurd (h.2.symm.trans ht.2) (by decide)

/-- The CP0 instructions that write a register are the moves. -/
lemma isCp0Move_of_writesNum {inst : Word} {r : ℕ} (h : writesNum inst r)
    (hop : getOpcode inst = .cp0) : isCp0Move inst := by
  have hw := h.1
  unfold controlOf at hw
  cases hc : getCp0Funct inst with
  | mfc0 => exact .inl ⟨hop, hc⟩
  | mtc0 => exact .inr ⟨hop, hc⟩
  | unknown code => simp [hop, hc] at hw

/-- The combinations of the decoded instruction with the two before it, in `EX_MEM` and in `MEM_WB`,
in which the forwarding unit takes a value from the wrong register file, or returns before it has
taken one that is needed. -/
def Clash (inst ex wb : Word) : Prop :=
  if isMfc0 inst then
    (isMfc0 ex ∧ writesNum ex (getRd inst + 1)) ∨
    (isMfc0 wb ∧ writesNum wb (getRd inst + 1) ∧ ¬ writesNum ex (getRd inst + 1)) ∨
    (writesGpr ex (getRd inst + 1) ∧ writesCp0 wb (getRd inst + 1))
  else if isMtc0 inst then
    writesCp0 ex (getRt inst) ∨ (writesCp0 wb (getRt inst) ∧ ¬ writesNum ex (getRt inst))
  else
    (usesRs inst = true ∧ writesCp0 ex (getRs inst) ∧ writesGpr wb (getRs inst)) ∨
    (usesRt inst = true ∧ (writesCp0 ex (getRs inst) ∨ writesCp0 ex (getRt inst)) ∧
      writesGpr wb (getRt inst)) ∨
    (usesRt inst = true ∧ writesCp0 wb (getRs inst) ∧ ¬ writesNum ex (getRs inst) ∧
      writesGpr ex (getRt inst))

instance (inst ex wb : Word) : Decidable (Clash inst ex wb) :=
  inferInstanceAs (Decidable (ite _ _ (ite _ _ _)))

/-! ### The register files ahead of WB -/

/-- The general registers once the instructions in `MEM_WB` and `EX_MEM` are written back, if the
latter is not a load. -/
def gprAfter (exMem : ExMem) (memWb : MemWb) (gpr : ℕ → Word) (r : ℕ) : Word :=
  if writesGpr exMem.inst r then exMem.aluRes else commitRegs memWb gpr r

/-- The CP0 registers once the instructions in `MEM_WB` and `EX_MEM` are written back. -/
def cp0After (exMem : ExMem) (memWb : MemWb) (cp0 : ℕ → Word) (r : ℕ) : Word :=
  if writesCp0 exMem.inst r then exMem.aluRes else commitCp0 memWb cp0 r

lemma writesNum_zero (r : ℕ) : ¬ writesNum 0 r := by
  rintro ⟨-, hne, -⟩
  revert hne
  decide

lemma not_writesNum_reg_zero (inst : Word) : ¬ writesNum inst 0 := by
  rintro ⟨-, hne, heq⟩
  exact hne heq

lemma ExMem.hits_iff {exMem : ExMem} (h : exMem.Empty ∨ exMem.Executed) (r : ℕ) :
    exMem.source.hits r ↔ writesNum exMem.inst r := by
  rcases h with h | h
  · rw [h.inst_eq, iff_false_right (writesNum_zero r)]
    simp [ExMem.source, Source.hits, h.regWrite_eq]
  · simp only [ExMem.source, Source.hits, writesNum, h.regWrite_eq, h.regDst_eq]

lemma MemWb.hits_iff {memWb : MemWb} (h : memWb.Empty ∨ memWb.Moved) (r : ℕ) :
    memWb.source.hits r ↔ writesNum memWb.inst r := by
  rcases h with h | h
  · rw [h.inst_eq, iff_false_right (writesNum_zero r)]
    simp [MemWb.source, Source.hits, h.regWrite_eq]
  · simp only [MemWb.source, Source.hits, writesNum, h.regWrite_eq, h.regDst_eq]

/-- Write back in terms of the instruction word. -/
lemma commitRegs_apply {memWb : MemWb} (h : memWb.Empty ∨ memWb.Moved) {gpr : ℕ → Word}
    (hz : gpr 0 = 0) (r : ℕ) :
    commitRegs memWb gpr r = if writesGpr memWb.inst r then memWb.data else gpr r := by
  have hiff := MemWb.hits_iff h r
  unfold commitRegs
  by_cases hg : writesGpr memWb.inst r
  · obtain ⟨hw, hd, hr⟩ := hiff.mpr hg.1
    simp only [MemWb.source] at hw hd hr
    rw [if_pos hg, if_pos ⟨hw, hg.2⟩, if_neg hd, hr, setReg_self]
  · rw [if_neg hg]
    by_cases hw : memWb.cRegWrite ∧ ¬ isMtc0 memWb.inst
    · rw [if_pos hw]
      by_cases hr : r = memWb.regDst
      · have hd : memWb.regDst = 0 := by
          by_contra hd
          exact hg ⟨hiff.mp ⟨hw.1, hd, hr.symm⟩, hw.2⟩
        rw [if_pos hd, hr, setReg_self, hd, hz]
      · rw [setReg_of_ne _ _ hr]
    · rw [if_neg hw]

lemma commitCp0_apply {memWb : MemWb} (h : memWb.Empty ∨ memWb.Moved) (cp0 : ℕ → Word) {r : ℕ}
    (hr0 : r ≠ 0) :
    commitCp0 memWb cp0 r = if writesCp0 memWb.inst r then memWb.data else cp0 r := by
  have hiff := MemWb.hits_iff h r
  unfold commitCp0
  by_cases hg : writesCp0 memWb.inst r
  · obtain ⟨hw, hd, hr⟩ := hiff.mpr hg.1
    simp only [MemWb.source] at hw hd hr
    rw [if_pos hg, if_pos ⟨hw, hg.2⟩, hr, setReg_self]
  · rw [if_neg hg]
    by_cases hw : memWb.cRegWrite ∧ isMtc0 memWb.inst
    · rw [if_pos hw]
      by_cases hr : r = memWb.regDst
      · exact absurd ⟨hiff.mp ⟨hw.1, fun hd => hr0 (hr.trans hd), hr.symm⟩, hw.2⟩ hg
      · rw [setReg_of_ne _ _ hr]
    · rw [if_neg hw]

/-- Register 0 stays zero. -/
lemma gprAfter_zero (exMem : ExMem) (memWb : MemWb) {gpr : ℕ → Word} (h : gpr 0 = 0) :
    gprAfter exMem memWb gpr 0 = 0 := by
  rw [gprAfter, if_neg (fun hw => not_writesNum_reg_zero _ hw.1), commitRegs_zero h]

/-! ### The multiplexers -/

section Mux

variable {exMem : ExMem} {memWb : MemWb} (hex : exMem.Empty ∨ exMem.Executed)
  (hwb : memWb.Empty ∨ memWb.Moved)

include hex hwb

/-- A multiplexer in terms of the instruction words. -/
lemma forwardMux_eq (inst : Word) (r : ℕ) (value : Word) :
    forwardMux exMem.source memWb.source inst r value =
      if writesNum exMem.inst r then
        if exMem.source.illegal inst then none else some exMem.aluRes
      else if writesNum memWb.inst r then
        if memWb.source.illegal inst then none else some memWb.data
      else some value := by
  unfold forwardMux
  rw [if_congr (ExMem.hits_iff hex r) rfl (if_congr (MemWb.hits_iff hwb r) rfl rfl)]
  rfl

end Mux

lemma Source.illegal_iff_of_ne_cp0 {src : Source} {inst : Word} (h : getOpcode inst ≠ .cp0) :
    src.illegal inst ↔ isMtc0 src.inst := by
  unfold Source.illegal isMfc0
  tauto

/-- For an instruction that is not a CP0 one the multiplexer gives the youngest older write, or what
was read in ID when the youngest writer of the number is `MTC0`. -/
lemma forwardMux_general {inst : Word} (h : getOpcode inst ≠ .cp0) {exMem : ExMem} {memWb : MemWb}
    (hex : exMem.Empty ∨ exMem.Executed) (hwb : memWb.Empty ∨ memWb.Moved) {gpr : ℕ → Word}
    (hzero : gpr 0 = 0) {r : ℕ} (hx : writesCp0 exMem.inst r → ¬ writesGpr memWb.inst r) :
    (forwardMux exMem.source memWb.source inst r (gpr r)).getD (gpr r) =
      gprAfter exMem memWb gpr r := by
  rw [forwardMux_eq hex hwb, gprAfter, commitRegs_apply hwb hzero]
  simp only [Source.illegal_iff_of_ne_cp0 h, ExMem.source, MemWb.source]
  by_cases hx' : writesNum exMem.inst r
  · rw [if_pos hx']
    by_cases hm : isMtc0 exMem.inst
    · have hgx : ¬ writesGpr exMem.inst r := fun hg => hg.2 hm
      rw [if_pos hm, if_neg hgx, if_neg (hx ⟨hx', hm⟩)]
      rfl
    · rw [if_neg hm, if_pos ⟨hx', hm⟩]
      rfl
  · have hgx : ¬ writesGpr exMem.inst r := fun hg => hx' hg.1
    rw [if_neg hx', if_neg hgx]
    by_cases hy : writesNum memWb.inst r
    · rw [if_pos hy]
      by_cases hm : isMtc0 memWb.inst
      · have hgy : ¬ writesGpr memWb.inst r := fun hg => hg.2 hm
        rw [if_pos hm, if_neg hgy]
        rfl
      · rw [if_neg hm, if_pos ⟨hy, hm⟩]
        rfl
    · have hgy : ¬ writesGpr memWb.inst r := fun hg => hy hg.1
      rw [if_neg hy, if_neg hgy]
      rfl

/-- When the multiplexer returns. -/
lemma forwardMux_eq_none_iff {inst : Word} (h : getOpcode inst ≠ .cp0) {exMem : ExMem}
    {memWb : MemWb} (hex : exMem.Empty ∨ exMem.Executed) (hwb : memWb.Empty ∨ memWb.Moved) {r : ℕ}
    {value : Word} :
    forwardMux exMem.source memWb.source inst r value = none ↔
      writesCp0 exMem.inst r ∨ (¬ writesNum exMem.inst r ∧ writesCp0 memWb.inst r) := by
  rw [forwardMux_eq hex hwb]
  simp only [Source.illegal_iff_of_ne_cp0 h, ExMem.source, MemWb.source, writesCp0]
  split_ifs <;> simp [*]

lemma Source.illegal_iff_of_isMfc0 {src : Source} {inst : Word} (h : isMfc0 inst) :
    src.illegal inst ↔ getOpcode src.inst ≠ .cp0 := by
  have hop := h.1
  unfold Source.illegal
  tauto

lemma Source.not_illegal_of_isMtc0 {src : Source} {inst : Word} (h : isMtc0 inst) :
    ¬ src.illegal inst := by
  have hop := h.1
  have hm : ¬ isMfc0 inst := fun hf => not_isMtc0_of_isMfc0 hf h
  unfold Source.illegal
  tauto

/-- `ID_EX` before forwarding holds what the register files hold. -/
lemma operands_read (core : Core) :
    Operands core.ifId.inst (decodeStage core).rsValue (decodeStage core).rtValue core.regs
      core.cp0 := by
  simp only [decodeStage, rsRead, rtRead]
  refine ⟨?_, ?_, ?_, ?_⟩
  · intro h
    rw [if_pos h, if_pos (show isCp0Move core.ifId.inst from .inl h)]
    exact ⟨rfl, rfl⟩
  · intro h
    have hf : ¬ isMfc0 core.ifId.inst := fun hf => not_isMtc0_of_isMfc0 hf h
    rw [if_neg hf, if_pos h, if_pos (show isCp0Move core.ifId.inst from .inr h)]
    exact ⟨rfl, rfl⟩
  · intro h
    obtain ⟨hcp0, hjal⟩ := opcode_ne_of_usesRs h
    rw [if_neg (fun hf => hcp0 hf.1), if_neg (fun ht => hcp0 ht.1), if_neg hjal]
  · intro h
    obtain ⟨hcp0, -⟩ := opcode_ne_of_usesRt h
    rw [if_neg (fun hm => hm.elim (fun hf => hcp0 hf.1) fun ht => hcp0 ht.1)]

section Forward

variable {core : Core} (hdec : core.idEx.Decoded) (hex : core.exMem.Empty ∨ core.exMem.Executed)
  (hwb : core.memWb.Empty ∨ core.memWb.Moved) (hzero : core.regs 0 = 0)
  (hread : Operands core.idEx.inst core.idEx.rsValue core.idEx.rtValue core.regs core.cp0)
  (hclash : ¬ Clash core.idEx.inst core.exMem.inst core.memWb.inst)

include hdec hex hwb hread hclash

/-- The operand of `MFC0` comes from CP0. -/
lemma forward_mfc0 (h : isMfc0 core.idEx.inst) :
    core.forwardRs = cp0After core.exMem core.memWb core.cp0 (getRd core.idEx.inst + 1) ∧
      core.forwardRt = 0 := by
  have heret : core.idEx.inst ≠ instructionEret := by
    intro he
    rw [he] at h
    exact absurd h (by decide)
  have hrs : core.idEx.rs = getRd core.idEx.inst + 1 := by
    rw [hdec.rs_eq, rsOf, if_pos h]
  have hrt : core.idEx.rt = 0 := by
    rw [hdec.rt_eq, rtOf, if_pos (show isCp0Move _ from .inl h)]
  obtain ⟨ha, hb⟩ := hread.mfc0 h
  rw [Clash, if_pos h] at hclash
  unfold Core.forwardRs Core.forwardRt cp0After
  rw [if_neg heret, if_neg heret, forwardMux_eq hex hwb, forwardMux_eq hex hwb, hrs, hrt,
    commitCp0_apply hwb _ (Nat.succ_ne_zero _), ha, hb]
  simp only [Source.illegal_iff_of_isMfc0 h, not_writesNum_reg_zero, if_false]
  refine ⟨?_, by split <;> rfl⟩
  simp only [ExMem.source, MemWb.source, writesCp0]
  by_cases hx : writesNum core.exMem.inst (getRd core.idEx.inst + 1)
  · by_cases hop : getOpcode core.exMem.inst = .cp0
    · rcases isCp0Move_of_writesNum hx hop with hf | ht
      · exact absurd (.inl ⟨hf, hx⟩) hclash
      · simp [hx, hop, ht]
    · have ht : ¬ isMtc0 core.exMem.inst := fun ht => hop ht.1
      have hy : ¬ writesCp0 core.memWb.inst (getRd core.idEx.inst + 1) :=
        fun hy => hclash (.inr (.inr ⟨⟨hx, ht⟩, hy⟩))
      unfold writesCp0 at hy
      simp [hx, hop, ht, hy]
  · by_cases hy : writesNum core.memWb.inst (getRd core.idEx.inst + 1)
    · by_cases hop : getOpcode core.memWb.inst = .cp0
      · rcases isCp0Move_of_writesNum hy hop with hf | ht
        · exact absurd (.inr (.inl ⟨hf, hy, hx⟩)) hclash
        · simp [hx, hy, hop, ht]
      · have ht : ¬ isMtc0 core.memWb.inst := fun ht => hop ht.1
        simp [hx, hy, hop, ht]
    · simp [hx, hy]

include hzero

/-- The operand of `MTC0` comes from the general registers. -/
lemma forward_mtc0 (h : isMtc0 core.idEx.inst) :
    core.forwardRs = gprAfter core.exMem core.memWb core.regs (getRt core.idEx.inst) ∧
      core.forwardRt = 0 := by
  have hf : ¬ isMfc0 core.idEx.inst := fun hf => not_isMtc0_of_isMfc0 hf h
  have heret : core.idEx.inst ≠ instructionEret := by
    intro he
    rw [he] at h
    exact absurd h (by decide)
  have hrs : core.idEx.rs = getRt core.idEx.inst := by
    rw [hdec.rs_eq, rsOf, if_neg hf, if_pos h]
  have hrt : core.idEx.rt = 0 := by
    rw [hdec.rt_eq, rtOf, if_pos (show isCp0Move _ from .inr h)]
  obtain ⟨ha, hb⟩ := hread.mtc0 h
  rw [Clash, if_neg hf, if_pos h] at hclash
  unfold Core.forwardRs Core.forwardRt gprAfter
  rw [if_neg heret, if_neg heret, forwardMux_eq hex hwb, forwardMux_eq hex hwb, hrs, hrt,
    commitRegs_apply hwb hzero, ha, hb]
  simp only [Source.not_illegal_of_isMtc0 h, not_writesNum_reg_zero, if_false]
  refine ⟨?_, by split <;> rfl⟩
  simp only [writesGpr]
  by_cases hx : writesNum core.exMem.inst (getRt core.idEx.inst)
  · have ht : ¬ isMtc0 core.exMem.inst := fun ht => hclash (.inl ⟨hx, ht⟩)
    simp [hx, ht]
  · by_cases hy : writesNum core.memWb.inst (getRt core.idEx.inst)
    · have ht : ¬ isMtc0 core.memWb.inst := fun ht => hclash (.inr ⟨⟨hy, ht⟩, hx⟩)
      simp [hx, hy, ht]
    · simp [hx, hy]

/-- The operands of the other instructions come from the general registers. -/
lemma forward_general (h : getOpcode core.idEx.inst ≠ .cp0)
    (hjal : getOpcode core.idEx.inst ≠ .jal) :
    (usesRs core.idEx.inst = true →
      core.forwardRs = gprAfter core.exMem core.memWb core.regs (getRs core.idEx.inst)) ∧
    (usesRt core.idEx.inst = true →
      core.forwardRt = gprAfter core.exMem core.memWb core.regs (getRt core.idEx.inst)) := by
  have hf : ¬ isMfc0 core.idEx.inst := fun hf => h hf.1
  have ht : ¬ isMtc0 core.idEx.inst := fun ht => h ht.1
  have heret : core.idEx.inst ≠ instructionEret := by
    intro he
    rw [he] at h
    exact absurd rfl h
  have hrs : core.idEx.rs = getRs core.idEx.inst := by
    rw [hdec.rs_eq, rsOf, if_neg hf, if_neg ht]
  have hrt : core.idEx.rt = getRt core.idEx.inst := by
    rw [hdec.rt_eq, rtOf, if_neg (fun hm => hm.elim hf ht), if_neg hjal]
  rw [Clash, if_neg hf, if_neg ht] at hclash
  unfold Core.forwardRs Core.forwardRt
  rw [if_neg heret, if_neg heret, hrs, hrt]
  constructor
  · intro hu
    rw [hread.rs hu]
    exact forwardMux_general h hex hwb hzero fun hx hy => hclash (.inl ⟨hu, hx, hy⟩)
  · intro hu
    rw [hread.rt hu]
    split
    next hnone =>
      -- the first multiplexer has returned: neither of the two writes `rt`
      rw [gprAfter, commitRegs_apply hwb hzero]
      rcases (forwardMux_eq_none_iff h hex hwb).mp hnone with hx | ⟨hx, hy⟩
      · rw [if_neg (fun hx' => hx'.2 hx.2),
          if_neg (fun hy => hclash (.inr (.inl ⟨hu, .inl hx, hy⟩)))]
      · rw [if_neg (fun hx' => hclash (.inr (.inr ⟨hu, hy, hx, hx'⟩))),
          if_neg (fun hy' => hy'.2 hy.2)]
    next =>
      exact forwardMux_general h hex hwb hzero fun hx hy =>
        hclash (.inr (.inl ⟨hu, .inr hx, hy⟩))

/-- Without a clash the forwarded operands are the youngest older writes. -/
lemma operands_forward :
    Operands core.idEx.inst core.forwardRs core.forwardRt
      (gprAfter core.exMem core.memWb core.regs) (cp0After core.exMem core.memWb core.cp0) where
  mfc0 := forward_mfc0 hdec hex hwb hread hclash
  mtc0 := forward_mtc0 hdec hex hwb hzero hread hclash
  rs := fun hu => (forward_general hdec hex hwb hzero hread hclash (opcode_ne_of_usesRs hu).1
    (opcode_ne_of_usesRs hu).2).1 hu
  rt := fun hu => (forward_general hdec hex hwb hzero hread hclash (opcode_ne_of_usesRt hu).1
    (opcode_ne_of_usesRt hu).2).2 hu

end Forward

/-! ### The first operand by itself -/

/-- An `MTC0` to the number of `rs` right behind an instruction that writes the register `rs`: the
forwarding unit refuses to take the former's value and returns, and so `rs` stays as it was before
the latter. -/
def BaseClash (inst ex wb : Word) : Prop := writesCp0 ex (getRs inst) ∧ writesGpr wb (getRs inst)

instance (inst ex wb : Word) : Decidable (BaseClash inst ex wb) :=
  inferInstanceAs (Decidable (_ ∧ _))

/-- The first operand depends on nothing else. -/
lemma forward_rs {core : Core} (hdec : core.idEx.Decoded)
    (hex : core.exMem.Empty ∨ core.exMem.Executed) (hwb : core.memWb.Empty ∨ core.memWb.Moved)
    (hzero : core.regs 0 = 0)
    (hread : Operands core.idEx.inst core.idEx.rsValue core.idEx.rtValue core.regs core.cp0)
    (hu : usesRs core.idEx.inst = true) :
    core.forwardRs =
      if BaseClash core.idEx.inst core.exMem.inst core.memWb.inst then
        core.regs (getRs core.idEx.inst)
      else gprAfter core.exMem core.memWb core.regs (getRs core.idEx.inst) := by
  have hcp0 := (opcode_ne_of_usesRs hu).1
  have heret : core.idEx.inst ≠ instructionEret := by
    intro he
    rw [he] at hcp0
    exact absurd rfl hcp0
  have hrs : core.idEx.rs = getRs core.idEx.inst := by
    rw [hdec.rs_eq, rsOf, if_neg (fun hf => hcp0 hf.1), if_neg (fun ht => hcp0 ht.1)]
  rw [Core.forwardRs, if_neg heret, hrs, hread.rs hu]
  by_cases hc : BaseClash core.idEx.inst core.exMem.inst core.memWb.inst
  · rw [if_pos hc, (forwardMux_eq_none_iff hcp0 hex hwb).mpr (.inl hc.1)]
    rfl
  · rw [if_neg hc]
    exact forwardMux_general hcp0 hex hwb hzero fun hx hy => hc ⟨hx, hy⟩

/-! ### Along a run -/

/-- The states of one core as in `Reachable`, with a condition on every state that is left by a
tick. -/
inductive ReachableWhen (P : Tracked → Prop) : Tracked → Prop
  | start (regs : ℕ → Word) (pc : Word) (cp0 : ℕ → Word) (mem : Mmu) (h : regs 0 = 0) :
      ReachableWhen P (.start (.init regs pc cp0) mem)
  | tick {t t' : Tracked} (h : ReachableWhen P t) (hfin : t.finished = false) (hP : P t)
      (ht : t.tick = .ok t') : ReachableWhen P t'
  | other {t : Tracked} (h : ReachableWhen P t) (mem' : Mmu) : ReachableWhen P { t with mem := mem' }

lemma ReachableWhen.reachable {P : Tracked → Prop} {t : Tracked} (h : ReachableWhen P t) :
    Reachable t := by
  induction h with
  | start regs pc cp0 mem h => exact .start regs pc cp0 mem h
  | tick h hfin hP ht ih => exact ih.tick hfin ht
  | other h mem' ih => exact ih.other mem'

/-- A run of ticks from such a state, with the condition at each of them. -/
lemma ReachableWhen.iterate {P : Tracked → Prop} {t t' : Tracked} {n : ℕ} (h : ReachableWhen P t)
    (ht : Run.iterate Tracked.tick n t = .ok t')
    (hP : ∀ k < n, ∀ s, Run.iterate Tracked.tick k t = .ok s → s.finished = false ∧ P s) :
    ReachableWhen P t' :=
  iterate_invariant_when (fun _ _ hs hC hstep => hs.tick hC.1 hC.2 hstep) h hP ht

/-- The tick does not decode an instruction into a clash with the two before it. -/
def Tracked.NoClash (t : Tracked) : Prop :=
  ¬ t.core.flushes → ¬ Clash t.core.ifId.inst t.core.idEx.inst t.core.exMem.inst

/-- The younger instruction does not need the register that the older one loads. -/
def NoHazard (older younger : Word) : Prop :=
  (controlOf older).memRead = true → dstOf older ≠ 0 →
    dstOf older ≠ getRs younger ∧ dstOf older ≠ getRt younger

/-- The operands of the instructions behind ID, and the results of the moves. -/
structure Forwarded (t : Tracked) : Prop where
  idEx : Operands t.core.idEx.inst t.core.idEx.rsValue t.core.idEx.rtValue
    (gprAfter t.core.exMem t.core.memWb t.core.regs) (cp0After t.core.exMem t.core.memWb t.core.cp0)
  exMem : ∀ v, t.exMem = some v → Operands t.core.exMem.inst v.opA v.opB
    (commitRegs t.core.memWb t.core.regs) (commitCp0 t.core.memWb t.core.cp0)
  memWb : ∀ v, t.memWb = some v → Operands t.core.memWb.inst v.opA v.opB t.core.regs t.core.cp0
  exMem_move : ∀ v, t.exMem = some v → isCp0Move t.core.exMem.inst →
    t.core.exMem.aluRes = v.opA + v.opB
  memWb_move : ∀ v, t.memWb = some v → isCp0Move t.core.memWb.inst →
    t.core.memWb.aluRes = v.opA + v.opB
  hazard_idEx : NoHazard t.core.idEx.inst t.core.ifId.inst
  hazard_exMem : NoHazard t.core.exMem.inst t.core.idEx.inst

lemma Operands.congr {inst a b : Word} {gpr gpr' cp0 cp0' : ℕ → Word}
    (h : Operands inst a b gpr cp0) (hrs : gpr' (getRs inst) = gpr (getRs inst))
    (hrt : gpr' (getRt inst) = gpr (getRt inst))
    (hcp0 : cp0' (getRd inst + 1) = cp0 (getRd inst + 1)) : Operands inst a b gpr' cp0' where
  mfc0 := fun hf => by rw [hcp0]; exact h.mfc0 hf
  mtc0 := fun ht => by rw [hrt]; exact h.mtc0 ht
  rs := fun hu => by rw [hrs]; exact h.rs hu
  rt := fun hu => by rw [hrt]; exact h.rt hu

/-- A load that writes a register writes the one in `rt`. -/
lemma dstOf_of_memRead {inst : Word} (h : (controlOf inst).memRead = true) :
    dstOf inst = rtOf inst ∧ (controlOf inst).memToReg = true := by
  rcases opcode_of_memRead h with hop | hop | hop | hop | hop <;> simp [dstOf, controlOf, hop]

lemma memToReg_eq_memRead (inst : Word) : (controlOf inst).memToReg = (controlOf inst).memRead := by
  unfold controlOf
  cases hop : getOpcode inst with
  | r => by_cases hjr : getFunct inst = .jr <;> simp [hjr]
  | cp0 => cases hc : getCp0Funct inst <;> simp
  | _ => rfl

/-- What is moved on is the result of the ALU, except for loads. -/
lemma data_moveStage {core : Core} {e : Exception} {readData badVAddr : Word} {r : ℕ}
    (hex : core.exMem.Empty ∨ core.exMem.Executed) (hw : writesNum core.exMem.inst r)
    (hload : (controlOf core.exMem.inst).memRead = false) :
    (moveStage core e readData badVAddr).data = core.exMem.aluRes := by
  rcases hex with hx | hx
  · rw [hx.inst_eq] at hw
    exact absurd hw (writesNum_zero r)
  · simp only [MemWb.data, moveStage, hx.memToReg_eq, memToReg_eq_memRead, hload,
      Bool.false_eq_true, if_false]

/-- Moving an instruction on to `MEM_WB` and writing back the one before it does not change what the
registers will be, except for the register that is loaded. -/
lemma commitRegs_moveStage {core : Core} {e : Exception} {readData badVAddr : Word}
    (hex : core.exMem.Empty ∨ core.exMem.Executed) {gpr : ℕ → Word} (hzero : gpr 0 = 0) {r : ℕ}
    (hr : (controlOf core.exMem.inst).memRead = true → dstOf core.exMem.inst ≠ 0 →
      dstOf core.exMem.inst ≠ r) :
    commitRegs (moveStage core e readData badVAddr) (commitRegs core.memWb gpr) r =
      gprAfter core.exMem core.memWb gpr r := by
  rw [commitRegs_apply (moved_moveStage hex) (commitRegs_zero hzero), gprAfter]
  refine if_ctx_congr Iff.rfl (fun hw => ?_) fun _ => rfl
  have hload : (controlOf core.exMem.inst).memRead = false := by
    by_contra hl
    exact hr (by simpa using hl) hw.1.2.1 hw.1.2.2
  exact data_moveStage hex hw.1 hload

lemma commitCp0_moveStage {core : Core} {e : Exception} {readData badVAddr : Word}
    (hex : core.exMem.Empty ∨ core.exMem.Executed) (cp0 : ℕ → Word) {r : ℕ} (hr : r ≠ 0) :
    commitCp0 (moveStage core e readData badVAddr) (commitCp0 core.memWb cp0) r =
      cp0After core.exMem core.memWb cp0 r := by
  rw [commitCp0_apply (moved_moveStage hex) _ hr, cp0After]
  refine if_ctx_congr Iff.rfl (fun hw => ?_) fun _ => rfl
  have hload : (controlOf core.exMem.inst).memRead = false := by
    have hinst : isMtc0 core.exMem.inst := hw.2
    simp [controlOf, hinst.1, hinst.2]
  exact data_moveStage hex hw.1 hload

/-- The operands in `ID_EX` after a tick. -/
lemma operands_next {core : Core} {memWb : MemWb} {inst : Word}
    (hid : core.idEx = {} ∨ core.idEx.Decoded) (hwb : memWb.Empty ∨ memWb.Moved)
    (hzero : core.regs 0 = 0) (hclash : ¬ Clash core.ifId.inst core.idEx.inst memWb.inst) :
    Operands (core.next memWb inst).idEx.inst (core.next memWb inst).idEx.rsValue
      (core.next memWb inst).idEx.rtValue (gprAfter (executeStage core) memWb core.regs)
      (cp0After (executeStage core) memWb core.cp0) := by
  rw [Core.next_idEx]
  exact @operands_forward (core.advance memWb) (decoded_decodeStage _)
    (executed_executeStage hid) hwb hzero (operands_read _) hclash

/-- The first operand after a tick. -/
lemma rsValue_next {core : Core} {memWb : MemWb} {inst : Word}
    (hid : core.idEx = {} ∨ core.idEx.Decoded) (hwb : memWb.Empty ∨ memWb.Moved)
    (hzero : core.regs 0 = 0) (hu : usesRs core.ifId.inst = true) :
    (core.next memWb inst).idEx.rsValue =
      if BaseClash core.ifId.inst core.idEx.inst memWb.inst then
        core.regs (getRs core.ifId.inst)
      else gprAfter (executeStage core) memWb core.regs (getRs core.ifId.inst) := by
  rw [Core.next_idEx]
  exact @forward_rs (core.advance memWb) (decoded_decodeStage _) (executed_executeStage hid) hwb
    hzero (operands_read _) hu

/-- The first operand in every state of a run. -/
lemma Reachable.rsValue_eq {t : Tracked} (h : Reachable t) (hu : usesRs t.core.idEx.inst = true) :
    t.core.idEx.rsValue =
      if BaseClash t.core.idEx.inst t.core.exMem.inst t.core.memWb.inst then
        t.core.regs (getRs t.core.idEx.inst)
      else gprAfter t.core.exMem t.core.memWb t.core.regs (getRs t.core.idEx.inst) := by
  induction h with
  | start regs pc cp0 mem h => exact absurd (show usesRs 0 = true from hu) (by decide)
  | other h mem' ih => exact ih hu
  | @tick t t' h hfin ht _ =>
    by_cases hf : t.core.flushes
    · obtain ⟨inst, mem', -, rfl⟩ := Tracked.tick_of_flushes h.pipeOk hf ht
      rw [Tracked.record_core, Core.restart, Core.next_idEx_inst] at hu
      exact absurd (show usesRs 0 = true from hu) (by decide)
    · have hzero := (h.tick hfin ht).reg_zero
      obtain ⟨regs, cp0, e, readData, badVAddr, mem₁, inst, mem', -, -, -, rfl⟩ :=
        Tracked.tick_of_not_flushes h.pipeOk hf ht
      rw [Tracked.record_core] at hu hzero ⊢
      rw [Core.next_idEx_inst] at hu ⊢
      rw [Core.next_regs] at hzero
      rw [@rsValue_next (t.core.withRegs regs cp0) _ _ h.pipeOk.idEx_ok
        (moved_moveStage h.pipeOk.exMem_ok) hzero hu, Core.next_exMem, Core.next_memWb,
        Core.next_regs]
      rfl

/-- The hazard test of IF. -/
lemma noHazard_next (core : Core) (memWb : MemWb) (inst : Word) :
    NoHazard (core.next memWb inst).idEx.inst (core.next memWb inst).ifId.inst := by
  rw [Core.next_idEx_inst]
  intro hload hdst
  by_cases h : core.holds inst
  · rw [Core.next_ifId_of_holds h]
    exact ⟨hdst, hdst⟩
  · rw [Core.next_ifId_of_not_holds h, (dstOf_of_memRead hload).1]
    exact ⟨fun hrs => h ⟨hload, .inl hrs⟩, fun hrt => h ⟨hload, .inr hrt⟩⟩

/-- Words of zeros clash with nothing. -/
lemma not_clash_zero (inst : Word) : ¬ Clash inst 0 0 := by
  unfold Clash writesGpr writesCp0
  simp only [writesNum_zero, false_and, and_false, or_self, not_false_eq_true, ite_self]

lemma noHazard_zero (younger : Word) : NoHazard 0 younger := by
  intro hload
  exact absurd hload (by decide)

/-- A word of zeros shifts register 0. -/
lemma operands_zero {gpr cp0 : ℕ → Word} (h : gpr 0 = 0) : Operands 0 0 0 gpr cp0 where
  mfc0 := fun hf => absurd hf (by decide)
  mtc0 := fun ht => absurd ht (by decide)
  rs := fun hu => absurd hu (by decide)
  rt := fun _ => h.symm

lemma forwarded_start (regs : ℕ → Word) (pc : Word) (cp0 : ℕ → Word) (mem : Mmu) (h : regs 0 = 0) :
    Forwarded (.start (.init regs pc cp0) mem) where
  idEx := operands_zero (gprAfter_zero _ _ h)
  exMem := nofun
  memWb := nofun
  exMem_move := nofun
  memWb_move := nofun
  hazard_idEx := noHazard_zero _
  hazard_exMem := noHazard_zero _

/-- A move passes its operand through the ALU. -/
lemma aluRes_of_isCp0Move {core : Core} (h : core.idEx = {} ∨ core.idEx.Decoded)
    (hm : isCp0Move core.idEx.inst) :
    (executeStage core).aluRes = core.idEx.rsValue + core.idEx.rtValue := by
  rcases h with h | h
  · rw [h] at hm
    exact absurd hm (by decide)
  · have hfunct : core.idEx.funct = .add := by
      rw [h.funct_eq, functOf, if_pos hm]
    have hc : core.idEx.c = { regDst := true, aluOp := .rType, regWrite := true } := by
      rw [h.c_eq]
      rcases hm with hf | ht
      · simp only [controlOf, hf.1, hf.2]
      · simp only [controlOf, ht.1, ht.2]
    simp [executeStage, aluResult, IdEx.aluB, hc, hfunct]

/-- A run that goes on after the tick has written the instruction in `MEM_WB` back. -/
lemma Tracked.commits_of_tick {t t' : Tracked} (hf : ¬ t.core.flushes) (ht : t.tick = .ok t')
    (hfin : t'.finished = false) (h : PipeOk t.core) : t.core.memWb.commits := by
  rcases (flushes_or_exits_or_commits t.core).resolve_left hf with hx | hc
  · obtain ⟨_, _, _, _, _, _, _, _, rfl⟩ := (Tracked.tick_eq_ok h).mp ht
    rw [interpretWb_of_exits hx] at hfin
    simp [Tracked.record] at hfin
  · exact hc

/-- One tick that writes back. -/
lemma Forwarded.tick_of_commits {t t' : Tracked} (h : Forwarded t) (hpipe : PipeOk t.core)
    (hzero : t.core.regs 0 = 0) (hc : t.core.memWb.commits) (hclash : t.NoClash)
    (ht : t.tick = .ok t') : Forwarded t' := by
  have hf := hc.not_flushes
  obtain ⟨regs, cp0, e, readData, badVAddr, mem₁, inst, mem', heq, -, -, rfl⟩ :=
    Tracked.tick_of_not_flushes hpipe hf ht
  have hcore : t.core.withRegs regs cp0 =
      t.core.withRegs (commitRegs t.core.memWb t.core.regs) (commitCp0 t.core.memWb t.core.cp0) := by
    rw [← heq, interpretWb_of_commits hc]
    rfl
  obtain ⟨rfl, rfl⟩ : regs = commitRegs t.core.memWb t.core.regs ∧
      cp0 = commitCp0 t.core.memWb t.core.cp0 :=
    ⟨congrArg Core.regs hcore, congrArg Core.cp0 hcore⟩
  refine ⟨?_, ?_, ?_, ?_, ?_, ?_, ?_⟩
  · simp only [Tracked.record, Core.next_exMem, Core.next_memWb, Core.next_regs, Core.next_cp0]
    exact operands_next hpipe.idEx_ok (moved_moveStage hpipe.exMem_ok) (commitRegs_zero hzero)
      (hclash hf)
  · intro v hv
    simp only [Tracked.record, if_neg hf, Option.map_eq_some_iff] at hv
    obtain ⟨u, -, rfl⟩ := hv
    simp only [Tracked.record, Core.next_exMem, Core.next_memWb, Core.next_regs, Core.next_cp0]
    refine h.idEx.congr ?_ ?_ ?_
    · exact commitRegs_moveStage hpipe.exMem_ok hzero fun hl hd => (h.hazard_exMem hl hd).1
    · exact commitRegs_moveStage hpipe.exMem_ok hzero fun hl hd => (h.hazard_exMem hl hd).2
    · exact commitCp0_moveStage hpipe.exMem_ok _ (Nat.succ_ne_zero _)
  · intro v hv
    simp only [Tracked.record, if_neg hf] at hv
    simp only [Tracked.record, Core.next_memWb, Core.next_regs, Core.next_cp0]
    exact h.exMem v hv
  · intro v hv
    simp only [Tracked.record, if_neg hf, Option.map_eq_some_iff] at hv
    obtain ⟨u, -, rfl⟩ := hv
    simp only [Tracked.record, Core.next_exMem]
    exact aluRes_of_isCp0Move hpipe.idEx_ok
  · intro v hv
    simp only [Tracked.record, if_neg hf] at hv
    simp only [Tracked.record, Core.next_memWb]
    exact h.exMem_move v hv
  · exact noHazard_next _ _ _
  · simp only [Tracked.record, Core.next_exMem, Core.next_idEx_inst]
    exact h.hazard_idEx

/-- One tick that empties the pipeline. -/
lemma forwarded_of_flushes {t t' : Tracked} (hpipe : PipeOk t.core) (hzero : t.core.regs 0 = 0)
    (hf : t.core.flushes) (ht : t.tick = .ok t') : Forwarded t' := by
  obtain ⟨inst, mem', -, rfl⟩ := Tracked.tick_of_flushes hpipe hf ht
  refine ⟨?_, ?_, ?_, ?_, ?_, ?_, ?_⟩
  · simp only [Tracked.record, Core.restart, Core.next_exMem, Core.next_memWb, Core.next_regs,
      Core.next_cp0]
    exact operands_next (.inl rfl) (.inl ⟨rfl, rfl⟩) hzero (not_clash_zero _)
  · intro v hv
    simp [Tracked.record, hf] at hv
  · intro v hv
    simp [Tracked.record, hf] at hv
  · intro v hv
    simp [Tracked.record, hf] at hv
  · intro v hv
    simp [Tracked.record, hf] at hv
  · exact noHazard_next _ _ _
  · simp only [Tracked.record, Core.restart, Core.next_exMem]
    exact noHazard_zero _

/-- Without clashes the operands are right in every state of the run. -/
lemma ReachableWhen.forwarded {t : Tracked} (h : ReachableWhen Tracked.NoClash t)
    (hfin : t.finished = false) : Forwarded t := by
  induction h with
  | start regs pc cp0 mem h => exact forwarded_start regs pc cp0 mem h
  | other h mem' ih =>
    have hfw := ih hfin
    exact ⟨hfw.1, hfw.2, hfw.3, hfw.4, hfw.5, hfw.6, hfw.7⟩
  | @tick t t' h hfin' hclash ht ih =>
    have hreach := h.reachable
    by_cases hf : t.core.flushes
    · exact forwarded_of_flushes hreach.pipeOk hreach.reg_zero hf ht
    · have hc := Tracked.commits_of_tick hf ht hfin hreach.pipeOk
      exact (ih hfin').tick_of_commits hreach.pipeOk hreach.reg_zero hc hclash ht

/-! ### Moves between the register files -/

/-- The instruction `v` that is written back used the youngest older writes: the register files
before WB hold the writes of all older instructions and of no other. A move writes the value that
its source register holds. -/
structure Coherent (t : Tracked) (v : DynInst) : Prop where
  mfc0 : isMfc0 t.core.memWb.inst → getRt t.core.memWb.inst ≠ 0 →
    (interpretWb t.core).1.regs (getRt t.core.memWb.inst) = t.core.cp0 (getRd t.core.memWb.inst + 1)
  mtc0 : isMtc0 t.core.memWb.inst →
    (interpretWb t.core).1.cp0 (getRd t.core.memWb.inst + 1) = t.core.regs (getRt t.core.memWb.inst)
  rs : usesRs t.core.memWb.inst = true → v.opA = t.core.regs (getRs t.core.memWb.inst)
  rt : usesRt t.core.memWb.inst = true → v.opB = t.core.regs (getRt t.core.memWb.inst)
  /-- The register file that MEM has read, in the tick before, is the one before WB. -/
  rt_mem : readsRtInMem t.core.memWb.inst = true → ∀ t₀ t₁, Reachable t₀ → t₀.tick = .ok t₁ →
    t₁.core = t.core →
    (interpretWb t₀.core).1.regs (getRt t.core.memWb.inst) = t.core.regs (getRt t.core.memWb.inst)

/-- After a tick the registers are those after its WB. -/
lemma Tracked.regs_of_tick {t t' : Tracked} (h : PipeOk t.core) (ht : t.tick = .ok t') :
    t'.core.regs = (interpretWb t.core).1.regs := by
  obtain ⟨e, readData, badVAddr, mem₁, inst, mem', -, -, rfl⟩ := (Tracked.tick_eq_ok h).mp ht
  rw [Tracked.record_core, Core.next_regs]

/-- In a run without clashes every instruction that is written back is coherent. -/
theorem coherent_of_noClash {t : Tracked} {v : DynInst} (h : ReachableWhen Tracked.NoClash t)
    (hfin : t.finished = false) (hv : t.memWb = some v) (hc : t.core.memWb.commits) :
    Coherent t v := by
  have hfw := h.forwarded hfin
  have hops := hfw.memWb v hv
  have hpipe := h.reachable.pipeOk
  have hdata : isCp0Move t.core.memWb.inst → t.core.memWb.data = v.opA + v.opB := by
    intro hm
    rcases hpipe.memWb_ok with he | hmoved
    · rw [he.inst_eq] at hm
      exact absurd hm (by decide)
    · have hload : (controlOf t.core.memWb.inst).memToReg = false := by
        rcases hm with hf | ht
        · simp only [controlOf, hf.1, hf.2]
        · simp only [controlOf, ht.1, ht.2]
      rw [MemWb.data, hmoved.memToReg_eq, hload]
      exact hfw.memWb_move v hv hm
  refine ⟨?_, ?_, hops.rs, hops.rt, ?_⟩
  · intro hf hrt
    have hd := hdata (.inl hf)
    obtain ⟨ha, hb⟩ := hops.mfc0 hf
    have hw : writesGpr t.core.memWb.inst (getRt t.core.memWb.inst) := by
      have hdst : dstOf t.core.memWb.inst = getRt t.core.memWb.inst := by
        simp only [dstOf, controlOf, hf.1, hf.2, if_true, rdOf, if_pos hf]
      refine ⟨⟨by simp only [controlOf, hf.1, hf.2], hdst ▸ hrt, hdst⟩, not_isMtc0_of_isMfc0 hf⟩
    rw [interpretWb_of_commits hc]
    simp only
    rw [commitRegs_apply hpipe.memWb_ok h.reachable.reg_zero, if_pos hw, hd, ha, hb, add_zero]
  · intro ht
    have hd := hdata (.inr ht)
    obtain ⟨ha, hb⟩ := hops.mtc0 ht
    have hw : writesCp0 t.core.memWb.inst (getRd t.core.memWb.inst + 1) := by
      have hf : ¬ isMfc0 t.core.memWb.inst := fun hf => not_isMtc0_of_isMfc0 hf ht
      have hdst : dstOf t.core.memWb.inst = getRd t.core.memWb.inst + 1 := by
        simp only [dstOf, controlOf, ht.1, ht.2, if_true, rdOf, if_neg hf, if_pos ht]
      refine ⟨⟨by simp only [controlOf, ht.1, ht.2], ?_, hdst⟩, ht⟩
      rw [hdst]
      exact Nat.succ_ne_zero _
    rw [interpretWb_of_commits hc]
    simp only
    rw [commitCp0_apply hpipe.memWb_ok _ (Nat.succ_ne_zero _), if_pos hw, hd, ha, hb, add_zero]
  · intro _ t₀ t₁ hr ht hcore
    rw [← Tracked.regs_of_tick hr.pipeOk ht, hcore]

/-- `ADDIU $8, $0, 1; MTC0 $8, $4; MFC0 $6, $4` at the start of kseg0. -/
def moveMem : Mmu := imageMem 1024
  [0x24, 0x08, 0x00, 0x01, 0x40, 0x88, 0x20, 0x00, 0x40, 0x06, 0x20, 0x00]

lemma noClash_moveMem {k : ℕ} (hk : k < 6) {s : Tracked}
    (hs : iterate Tracked.tick k (.boot moveMem) = .ok s) : s.finished = false ∧ s.NoClash := by
  interval_cases k <;> obtain rfl := Except.ok.inj hs <;> exact ⟨rfl, fun _ => by decide⟩

theorem coherent_of_noClash_moves :
    ∃ t v, ReachableWhen Tracked.NoClash t ∧ t.core.memWb.inst = 0x40062000#32 ∧
      t.memWb = some v ∧ Coherent t v := by
  have hrun : ∃ t v, iterate Tracked.tick 6 (.boot moveMem) = .ok t ∧ t.finished = false ∧
      t.memWb = some v ∧ t.core.memWb.inst = 0x40062000#32 ∧ t.core.memWb.exception = .none :=
    ⟨_, _, rfl, rfl, rfl, rfl, rfl⟩
  obtain ⟨t, v, hrun, hfin, hv, hinst, hexc⟩ := hrun
  have hreach : ReachableWhen Tracked.NoClash t :=
    (ReachableWhen.start _ _ _ _ rfl).iterate hrun fun k hk s hs => noClash_moveMem hk hs
  have hc : t.core.memWb.commits := ⟨by rw [hinst]; decide, hexc⟩
  exact ⟨t, v, hreach, hinst, hv, coherent_of_noClash hreach hfin hv hc⟩

/-- `ADDIU $8, $0, 1; ADDIU $5, $0, 2; MTC0 $8, $4; MTC0 $5, $9` at the start of kseg0. CP0 register
4 has the number 5 in the pipeline. -/
def clashMem : Mmu := imageMem 1024
  [0x24, 0x08, 0x00, 0x01, 0x24, 0x05, 0x00, 0x02, 0x40, 0x88, 0x20, 0x00, 0x40, 0x85, 0x48, 0x00]

/-- The second `MTC0` moves the value that the first one writes to CP0, and not that of its source
register. -/
theorem not_coherent_moves :
    ∃ t v, Reachable t ∧ t.memWb = some v ∧ t.core.memWb.commits ∧
      t.core.memWb.inst = 0x40854800#32 ∧ t.core.regs 5 = 2#32 ∧
      (interpretWb t.core).1.cp0 10 = 1#32 ∧ ¬ Coherent t v := by
  have hrun : ∃ t v, iterate Tracked.tick 7 (.boot clashMem) = .ok t ∧ t.finished = false ∧
      t.memWb = some v ∧ t.core.memWb.inst = 0x40854800#32 ∧ t.core.memWb.exception = .none ∧
      t.core.regs 5 = 2#32 ∧ (interpretWb t.core).1.cp0 10 = 1#32 :=
    ⟨_, _, rfl, rfl, rfl, rfl, rfl, rfl, rfl⟩
  obtain ⟨t, v, hrun, hfin, hv, hinst, hexc, hreg, hcp0⟩ := hrun
  have hreach : Reachable t := (reachable_boot _).iterate hrun hfin
  have hc : t.core.memWb.commits := ⟨by rw [hinst]; decide, hexc⟩
  refine ⟨t, v, hreach, hv, hc, hinst, hreg, hcp0, fun hcoh => ?_⟩
  have hmtc0 := hcoh.mtc0
  rw [hinst] at hmtc0
  have hbad := hmtc0 (by decide)
  rw [show getRd 0x40854800#32 + 1 = 10 from rfl, show getRt 0x40854800#32 = 5 from rfl, hcp0,
    hreg] at hbad
  exact absurd hbad (by decide)

end MipsSim
