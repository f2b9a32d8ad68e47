import MipsSim.Pipeline.Merge
import MipsSim.Pipeline.Retire
import MipsSim.Pipeline.Forwarding

/-!
# Unaligned loads

`LWL` and `LWR` merge what they read with the register itself, which they take from the register
file in MEM, past the forwarding unit; their base comes through it. What a single one of them
commits, and what a pair commits that has any other instructions between its two halves.
-/

namespace MipsSim

open ByteStore Run

/-! ### An access in the pipeline -/

/-- A tick of a run on one core that does not empty the pipeline. -/
structure Advances (t t' : Tracked) : Prop where
  finished : t.finished = false
  not_flushes : ¬ t.core.flushes
  tick : t.tick = .ok t'

lemma Advances.reachable {t t' : Tracked} (hp : Advances t t') (h : Reachable t) : Reachable t' :=
  h.tick hp.finished hp.tick

lemma Advances.step {t t' : Tracked} (hp : Advances t t') (h : Reachable t) :
    ∃ regs cp0 e readData badVAddr mem₁ inst trace,
      (interpretWb t.core).1 = t.core.withRegs regs cp0 ∧
      MemStep (t.core.withRegs regs cp0) t.mem e readData badVAddr mem₁ ∧
      t'.core = (t.core.withRegs regs cp0).next (moveStage t.core e readData badVAddr) inst ∧
      t'.mem = mem₁.withTrace trace := by
  obtain ⟨regs, cp0, e, readData, badVAddr, mem₁, inst, mem', hwb, hstep, hread, rfl⟩ :=
    Tracked.tick_of_not_flushes h.pipeOk hp.not_flushes hp.tick
  obtain ⟨-, trace, rfl, -⟩ := mmuRead_withTrace hread
  exact ⟨regs, cp0, e, readData, badVAddr, mem₁, inst, trace, hwb, hstep, rfl, rfl⟩

/-- After the tick the registers are those after WB. -/
lemma Advances.regs {t t' : Tracked} (hp : Advances t t') (h : Reachable t) :
    t'.core.regs = (interpretWb t.core).1.regs := by
  obtain ⟨regs, cp0, e, readData, badVAddr, mem₁, inst, trace, hwb, -, hcore, -⟩ := hp.step h
  rw [hcore, hwb, Core.next_regs]

lemma Advances.exMem_inst {t t' : Tracked} (hp : Advances t t') (h : Reachable t) :
    t'.core.exMem.inst = t.core.idEx.inst := by
  obtain ⟨regs, cp0, e, readData, badVAddr, mem₁, inst, trace, -, -, hcore, -⟩ := hp.step h
  rw [hcore, Core.next_exMem]
  rfl

/-- The sum of a kernel address and a displacement does not overflow. -/
lemma addException_disp {a : Word} (ha : 0x80000000 ≤ a.toNat) (p : Half) :
    addException a (BitVec.ofNat 32 p.disp) = .none := by
  have hlt := a.isLt
  have hneg : a.toInt < 0 := by
    rw [BitVec.toInt_eq_toNat_cond]
    omega
  rw [addException, if_neg]
  rintro (⟨-, hover⟩ | ⟨hdisp, -⟩)
  · have hsmall : (BitVec.ofNat 32 p.disp).toInt ≤ 3 := by cases p <;> decide
    omega
  · exact absurd hdisp (by cases p <;> decide)

/-- The displacement of a word as EX sees it. -/
lemma signExtend_disp {inst : Word} {p : Half} (h : getImm inst = BitVec.ofNat 32 p.disp) :
    signExtend (getImm inst) = BitVec.ofNat 32 p.disp := by
  rw [h]
  cases p <;> rfl

/-- EX of an instruction of a pair computes its address. -/
lemma Advances.exMem {t t' : Tracked} (hp : Advances t t') (h : Reachable t) {p : Half} {a : Word}
    (hsrc : (controlOf t.core.idEx.inst).aluSrc = true)
    (hop : (controlOf t.core.idEx.inst).aluOp = .add)
    (himm : getImm t.core.idEx.inst = BitVec.ofNat 32 p.disp) (hbase : t.core.idEx.rsValue = a)
    (ha : 0x80000000 ≤ a.toNat) :
    t'.core.exMem.inst = t.core.idEx.inst ∧
      t'.core.exMem.aluRes = a + BitVec.ofNat 32 p.disp ∧ t'.core.exMem.exception = .none := by
  have hdec : t.core.idEx.Decoded := by
    rcases h.pipeOk.idEx_ok with hnone | hdec
    · rw [hnone] at hsrc
      exact absurd hsrc (by decide)
    · exact hdec
  have hb : t.core.idEx.aluB = BitVec.ofNat 32 p.disp := by
    rw [IdEx.aluB, hdec.c_eq, if_pos hsrc, hdec.imm_eq, signExtend_disp himm]
  obtain ⟨regs, cp0, e, readData, badVAddr, mem₁, inst, trace, -, -, hcore, -⟩ := hp.step h
  rw [hcore, Core.next_exMem]
  refine ⟨rfl, ?_, ?_⟩
  · show aluResult t.core.idEx _ = _
    rw [← hdec.c_eq] at hop
    simp only [aluResult, hop, hb, hbase]
  · show aluException t.core.idEx = _
    rw [← hdec.c_eq] at hop
    simp only [aluException, hop, hb, hbase]
    exact addException_disp ha p

/-! ### Registers that nobody writes -/

section Advances

variable {t t' : Tracked} (hp : Advances t t') (h : Reachable t)

include hp h

lemma Advances.idEx_inst : t'.core.idEx.inst = t.core.ifId.inst := by
  obtain ⟨regs, cp0, e, readData, badVAddr, mem₁, inst, trace, -, -, hcore, -⟩ := hp.step h
  rw [hcore, Core.next_idEx_inst]
  rfl

lemma Advances.memWb_inst : t'.core.memWb.inst = t.core.exMem.inst := by
  obtain ⟨regs, cp0, e, readData, badVAddr, mem₁, inst, trace, -, -, hcore, -⟩ := hp.step h
  rw [hcore, Core.next_memWb]
  rfl

/-- WB writes no general register but that of its word. -/
lemma Advances.regs_of_not_writes {r : ℕ} (hw : ¬ writesGpr t.core.memWb.inst r) :
    t'.core.regs r = t.core.regs r := by
  rw [hp.regs h]
  rcases (flushes_or_exits_or_commits t.core).resolve_left hp.not_flushes with hx | hc
  · rw [interpretWb_of_exits hx]
  · rw [interpretWb_of_commits hc]
    show commitRegs t.core.memWb t.core.regs r = _
    rw [commitRegs_apply h.pipeOk.memWb_ok h.reg_zero, if_neg hw]

lemma Advances.commits (hfin : t'.finished = false) : t.core.memWb.commits :=
  Tracked.commits_of_tick hp.not_flushes hp.tick hfin h.pipeOk

end Advances

/-- No word that needs the register is right behind a load to it. -/
lemma Reachable.noHazard {t : Tracked} (h : Reachable t) :
    NoHazard t.core.idEx.inst t.core.ifId.inst ∧ NoHazard t.core.exMem.inst t.core.idEx.inst := by
  induction h with
  | start regs pc cp0 mem h => exact ⟨noHazard_zero _, noHazard_zero _⟩
  | other h mem' ih => exact ih
  | @tick t t' h hfin ht ih =>
    obtain ⟨memWb, inst, mem', rfl, -⟩ := Tracked.tick_word h.pipeOk ht
    refine ⟨noHazard_next _ _ _, ?_⟩
    rw [Tracked.record_core, Core.next_exMem, Core.next_idEx_inst]
    show NoHazard (interpretWb t.core).1.idEx.inst (interpretWb t.core).1.ifId.inst
    by_cases hf : t.core.flushes
    · rw [interpretWb_of_flushes hf]
      exact noHazard_zero _
    · obtain ⟨regs, cp0, hwb⟩ := interpretWb_of_not_flushes hf
      rw [hwb]
      exact ih.1

/-! ### The base -/

/-- The base of the access in `ID_EX` is taken right if it is to be `a`: there is no clash, or the
register held this value before. -/
def Tracked.BaseSettled (t : Tracked) (a : Word) : Prop :=
  BaseClash t.core.idEx.inst t.core.exMem.inst t.core.memWb.inst →
    t.core.regs (getRs t.core.idEx.inst) = a

instance (t : Tracked) (a : Word) : Decidable (t.BaseSettled a) :=
  inferInstanceAs (Decidable (_ → _))

/-- The first operand is what the register holds once the instructions ahead are written back
exactly if the base is settled. -/
lemma rsValue_eq_iff_baseSettled {t₀ t t₁ : Tracked} {mem : Mmu} {a : Word} (h : Reachable t₀)
    (hp : Advances t₀ t) (hp₁ : Advances { t with mem := mem } t₁) (hfin : t₁.finished = false)
    (hu : usesRs t₀.core.idEx.inst = true) (ha : t₁.core.regs (getRs t₀.core.idEx.inst) = a) :
    t₀.core.idEx.rsValue = a ↔ t₀.BaseSettled a := by
  rw [h.rsValue_eq hu, Tracked.BaseSettled]
  by_cases hc : BaseClash t₀.core.idEx.inst t₀.core.exMem.inst t₀.core.memWb.inst
  · rw [if_pos hc]
    exact ⟨fun ha _ => ha, fun hset => hset hc⟩
  · rw [if_neg hc, ← ha]
    refine iff_of_true ?_ fun hc' => absurd hc' hc
    have hr := (hp.reachable h).other mem
    have hcommits₁ : t.core.memWb.commits := hp₁.commits hr hfin
    have hregs : t₁.core.regs = commitRegs t.core.memWb t.core.regs := by
      rw [hp₁.regs hr]
      show (interpretWb t.core).1.regs = _
      rw [interpretWb_of_commits hcommits₁]
    obtain ⟨regs, cp0, e, readData, badVAddr, mem₁, inst, trace, hwb, -, hcore, -⟩ := hp.step h
    have hregs₀ : t.core.regs = commitRegs t₀.core.memWb t₀.core.regs := by
      rw [hp.regs h, interpretWb_of_commits (hp.commits h hp₁.finished)]
    rw [hregs, hregs₀, hcore, Core.next_memWb]
    refine (commitRegs_moveStage h.pipeOk.exMem_ok h.reg_zero fun hl hd => ?_).symm
    exact (h.noHazard.2 hl hd).1

/-- The only operand of a load that comes through the pipeline is its base. -/
lemma Half.IsLoad.usesRs {p : Half} {inst : Word} (h : p.IsLoad inst) : usesRs inst = true := by
  have hop := h.opcode
  cases p <;> simp [MipsSim.usesRs, hop]

/-! ### MEM of a load -/

section Load

variable {s s' : Tracked} (h : Reachable s) (hp : Advances s s') {p : Half} {a : Word} {rd : ℕ}
  (hld : p.IsLoad s.core.exMem.inst)

include h hld

lemma exMem_regDst_of_isLoad : s.core.exMem.regDst = getRt s.core.exMem.inst := by
  rcases h.pipeOk.exMem_ok with hempty | hexec
  · exact absurd hempty.inst_eq hld.ne.1
  · rw [hexec.regDst_eq]
    exact (control_load (by rw [hld.control])).2.2.1

include hp

/-- MEM of a load of the pair, and what WB makes of it. -/
lemma Advances.load (hrt : getRt s.core.exMem.inst = rd) (hrd : rd ≠ 0)
    (hres : s.core.exMem.aluRes = a + BitVec.ofNat 32 p.disp)
    (hexc : s.core.exMem.exception = .none) (hin : InKseg0 s.mem a 4) :
    s'.mem.pmem = s.mem.pmem ∧ InKseg0 s'.mem a 4 ∧ ∀ j ≤ 3,
      (p.Covers (kseg0Offset a) j →
        byteAt ((interpretWb s'.core).1.regs rd) j = s.mem.pmem (kseg0Offset a + j)) ∧
      (¬ p.Covers (kseg0Offset a) j →
        byteAt ((interpretWb s'.core).1.regs rd) j =
          byteAt ((interpretWb s.core).1.regs rd) j) := by
  obtain ⟨x, mem₁, trace, hload, hmem, hregs⟩ := h.load_commits hp.not_flushes hp.tick
    (by rw [hld.control]) hexc
  obtain ⟨regs, cp0, hwb⟩ := interpretWb_of_not_flushes hp.not_flushes
  have hdst : (interpretWb s.core).1.exMem.regDst = rd := by
    rw [hwb, ← hrt]
    exact exMem_regDst_of_isLoad h hld
  obtain ⟨v, hok, hbytes⟩ := @memLoad_half (interpretWb s.core).1 s.mem a p hin
    (by rw [hwb]; exact hld) (by rw [hwb]; exact hres) s.core.memWb.readData
  rw [hok, Except.ok.injEq, Prod.mk.injEq, Prod.mk.injEq] at hload
  obtain ⟨-, rfl, rfl⟩ := hload
  refine ⟨?_, ?_, ?_⟩
  · rw [hmem]
    rfl
  · rw [hmem]
    exact hin
  · intro j hj
    rw [hregs, hrt, setReg_self, if_neg hrd, ← hdst]
    exact hbytes j hj

end Load

/-! ### One load -/

/-- The load of the half `p` with base `a` and destination `rt` on its way: EX in the tick from
`s 0`, MEM in the one from `s 1`, WB in the one from `s 2`. The tick from `s i` finds the memory
`mem i`. -/
structure HalfLoad (p : Half) (s : ℕ → Tracked) (mem : ℕ → Mmu) (a : Word) (rt : ℕ) : Prop where
  reachable : Reachable (s 0)
  advances : ∀ i < 3, Advances { s i with mem := mem i } (s (i + 1))
  isLoad : p.IsLoad (s 0).core.idEx.inst
  rt_eq : getRt (s 0).core.idEx.inst = rt
  /-- The base register holds `a` once all instructions before the load are written back. -/
  base_eq : (s 2).core.regs (getRs (s 0).core.idEx.inst) = a
  inKseg0 : InKseg0 (mem 1) a 4

/-- The load commits its bytes of the word at `a`, and keeps the other bytes of what the
instructions before it have left in the register: the last of them is written back in the tick
before. -/
lemma HalfLoad.byteAt_eq {p : Half} {s : ℕ → Tracked} {mem : ℕ → Mmu} {a : Word} {rt : ℕ}
    (h : HalfLoad p s mem a rt) (hset : (s 0).BaseSettled a) (hrt : rt ≠ 0) {j : ℕ} (hj : j ≤ 3) :
    (p.Covers (kseg0Offset a) j →
      byteAt ((s 3).core.regs rt) j = (mem 1).pmem (kseg0Offset a + j)) ∧
    (¬ p.Covers (kseg0Offset a) j →
      byteAt ((s 3).core.regs rt) j = byteAt ((s 2).core.regs rt) j) := by
  have hp₀ := h.advances 0 (by decide)
  have hp₁ := h.advances 1 (by decide)
  have hp₂ := h.advances 2 (by decide)
  have hr₀ := h.reachable.other (mem 0)
  have hr₁ := (hp₀.reachable hr₀).other (mem 1)
  have hr₂ := (hp₁.reachable hr₁).other (mem 2)
  have hctl := h.isLoad.control
  have hbase : ({ s 0 with mem := mem 0 } : Tracked).core.idEx.rsValue = a :=
    (rsValue_eq_iff_baseSettled hr₀ hp₀ hp₁ hp₂.finished h.isLoad.usesRs h.base_eq).mpr hset
  obtain ⟨hinst, hres, hexc⟩ := hp₀.exMem hr₀ (by rw [hctl]) (by rw [hctl]) h.isLoad.2 hbase
    h.inKseg0.1
  obtain ⟨-, -, hbytes⟩ := hp₁.load hr₁ (by rw [hinst]; exact h.isLoad)
    (by rw [hinst]; exact h.rt_eq) hrt hres hexc h.inKseg0
  rw [hp₂.regs hr₂, hp₁.regs hr₁]
  exact hbytes j hj

/-! ### The pair -/

/-- After the load of `p` has started in `s 0`, the other half starts in `s k`. The words between
them write neither `rt` nor `base`; the four bytes are the same when they are read again. -/
structure Completed (p : Half) (s : ℕ → Tracked) (mem : ℕ → Mmu) (k : ℕ) (a : Word) (rt base : ℕ) :
    Prop where
  advances : ∀ i < k + 3, Advances { s i with mem := mem i } (s (i + 1))
  pos : 0 < k
  isLoad : p.other.IsLoad (s k).core.idEx.inst
  rt_eq : getRt (s k).core.idEx.inst = rt
  rs_eq : getRs (s k).core.idEx.inst = base
  rs_eq_first : getRs (s 0).core.idEx.inst = base
  rt_ne : rt ≠ base
  between : ∀ i, 0 < i → i < k →
    ¬ writesGpr (s i).core.idEx.inst rt ∧ ¬ writesGpr (s i).core.idEx.inst base
  inKseg0 : InKseg0 (mem (k + 1)) a 4
  bytes : ∀ j ≤ 3, (mem (k + 1)).pmem (kseg0Offset a + j) = (mem 1).pmem (kseg0Offset a + j)

section Completed

variable {p : Half} {s : ℕ → Tracked} {mem : ℕ → Mmu} {k : ℕ} {a : Word} {rt base : ℕ}
  (h : HalfLoad p s mem a rt) (hc : Completed p s mem k a rt base)

include h hc

lemma Completed.reachable {i : ℕ} (hi : i ≤ k + 3) : Reachable (s i) := by
  induction i with
  | zero => exact h.reachable
  | succ i ih => exact (hc.advances i hi).reachable ((ih (by omega)).other (mem i))

/-- The word that is written back in the tick from `s (i + 2)` was in `ID_EX` of `s i`. -/
lemma Completed.memWb_inst {i : ℕ} (hi : i + 2 ≤ k + 3) :
    (s (i + 1)).core.exMem.inst = (s i).core.idEx.inst ∧
      (s (i + 2)).core.memWb.inst = (s i).core.idEx.inst := by
  have hr := hc.reachable h (show i ≤ k + 3 by omega)
  have hr' := hc.reachable h (show i + 1 ≤ k + 3 by omega)
  have hex := (hc.advances i (by omega)).exMem_inst (hr.other (mem i))
  refine ⟨hex, ?_⟩
  rw [(hc.advances (i + 1) (by omega)).memWb_inst (hr'.other (mem (i + 1)))]
  exact hex

/-- Neither the first load nor a word behind it writes the base. -/
lemma Completed.not_writes_base {i : ℕ} (hi : i < k) : ¬ writesGpr (s i).core.idEx.inst base := by
  rcases Nat.eq_zero_or_pos i with rfl | hpos
  · rintro ⟨⟨-, -, hdst⟩, -⟩
    obtain ⟨-, -, hrt, -⟩ := control_load (show (controlOf (s 0).core.idEx.inst).memRead = true by
      rw [h.isLoad.control])
    rw [hrt, h.rt_eq] at hdst
    exact hc.rt_ne hdst
  · exact (hc.between i hpos hi).2

/-- The hazard test keeps the two loads apart. -/
lemma Completed.two_le (hrt : rt ≠ 0) : 2 ≤ k := by
  have hpos := hc.pos
  by_contra hlt
  obtain rfl : k = 1 := by omega
  have hload : (controlOf (s 0).core.idEx.inst).memRead = true := by rw [h.isLoad.control]
  obtain ⟨-, -, hdst, -⟩ := control_load hload
  rw [h.rt_eq] at hdst
  have hinst : (s 1).core.idEx.inst = (s 0).core.ifId.inst :=
    (hc.advances 0 (by decide)).idEx_inst (h.reachable.other (mem 0))
  have hhazard := (h.reachable.noHazard.1 hload (by rw [hdst]; exact hrt)).2
  rw [hdst, ← hinst, hc.rt_eq] at hhazard
  exact hhazard rfl

/-- The base register keeps its value until the second load has taken it. -/
lemma Completed.regs_base {i : ℕ} (hlo : 2 ≤ i) (hhi : i ≤ k + 2) : (s i).core.regs base = a := by
  induction i, hlo using Nat.le_induction with
  | base =>
    rw [← hc.rs_eq_first]
    exact h.base_eq
  | succ i hlo ih =>
    obtain ⟨i, rfl⟩ : ∃ i', i = i' + 2 := ⟨i - 2, by omega⟩
    have hr := hc.reachable h (show i + 2 ≤ k + 3 by omega)
    rw [← ih (by omega)]
    apply (hc.advances (i + 2) (by omega)).regs_of_not_writes (hr.other (mem (i + 2)))
    show ¬ writesGpr (s (i + 2)).core.memWb.inst base
    rw [(hc.memWb_inst h (by omega)).2]
    exact hc.not_writes_base h (by omega)

/-- What the first load has committed stays until the second one is in MEM. -/
lemma Completed.regs_rt {i : ℕ} (hlo : 3 ≤ i) (hhi : i ≤ k + 2) :
    (s i).core.regs rt = (s 3).core.regs rt := by
  induction i, hlo using Nat.le_induction with
  | base => rfl
  | succ i hlo ih =>
    obtain ⟨i, rfl⟩ : ∃ i', i = i' + 2 := ⟨i - 2, by omega⟩
    have hr := hc.reachable h (show i + 2 ≤ k + 3 by omega)
    rw [← ih (by omega)]
    apply (hc.advances (i + 2) (by omega)).regs_of_not_writes (hr.other (mem (i + 2)))
    show ¬ writesGpr (s (i + 2)).core.memWb.inst rt
    rw [(hc.memWb_inst h (by omega)).2]
    exact (hc.between i (by omega) (by omega)).1

/-- The second load is a load like the first one. -/
lemma Completed.halfLoad : HalfLoad p.other (fun i => s (k + i)) (fun i => mem (k + i)) a rt where
  reachable := hc.reachable h (by omega)
  advances := fun i hi => hc.advances (k + i) (by omega)
  isLoad := hc.isLoad
  rt_eq := hc.rt_eq
  base_eq := by
    have hpos := hc.pos
    show (s (k + 2)).core.regs (getRs (s k).core.idEx.inst) = a
    rw [hc.rs_eq]
    exact hc.regs_base h (by omega) le_rfl
  inKseg0 := hc.inKseg0

/-- Neither of the two words ahead of it writes its base. -/
lemma Completed.baseSettled (hrt : rt ≠ 0) : (s k).BaseSettled a := by
  have hk := hc.two_le h hrt
  obtain ⟨i, rfl⟩ : ∃ i, k = i + 2 := ⟨k - 2, by omega⟩
  rintro ⟨-, hwb⟩
  rw [hc.rs_eq, (hc.memWb_inst h (show i + 2 ≤ i + 2 + 3 by omega)).2] at hwb
  exact absurd hwb (hc.not_writes_base h (by omega))

/-- The pair commits the word at `a`. -/
lemma Completed.regs_eq (hset : (s 0).BaseSettled a) (hrt : rt ≠ 0) :
    (s (k + 3)).core.regs rt = getBigWord (mem 1).pmem (kseg0Offset a) := by
  have hk := hc.two_le h hrt
  apply eq_of_byteAt_eq
  intro j hj
  have hfirst := h.byteAt_eq hset hrt hj
  have hsecond := (hc.halfLoad h).byteAt_eq (hc.baseSettled h hrt) hrt hj
  rw [byteAt_getBigWord _ _ hj]
  by_cases hcov : p.other.Covers (kseg0Offset a) j
  · rw [hsecond.1 hcov]
    exact hc.bytes j hj
  · have hcov' : p.Covers (kseg0Offset a) j := by
      have hother := Half.covers_other hj hcov
      rwa [Half.other_other] at hother
    rw [hsecond.2 hcov]
    show byteAt ((s (k + 2)).core.regs rt) j = _
    rw [hc.regs_rt h (by omega) le_rfl, hfirst.1 hcov']

end Completed

/-- Unaligned loads whose base is settled. Each of the two loads replaces its bytes of `rt` and
keeps the others of the youngest older value, and the two together commit the word at `a`, whatever
its alignment, in either order and with any instructions between them; register 0 stays zero. -/
theorem HalfLoad.unaligned {p : Half} {s : ℕ → Tracked} {mem : ℕ → Mmu} {a : Word} {rt : ℕ}
    (h : HalfLoad p s mem a rt) (hset : (s 0).BaseSettled a) :
    (rt ≠ 0 → ∀ j ≤ 3,
      (p.Covers (kseg0Offset a) j →
        byteAt ((s 3).core.regs rt) j = (mem 1).pmem (kseg0Offset a + j)) ∧
      (¬ p.Covers (kseg0Offset a) j →
        byteAt ((s 3).core.regs rt) j = byteAt ((s 2).core.regs rt) j)) ∧
    (rt = 0 → (s 3).core.regs rt = 0) ∧
    ∀ k base, Completed p s mem k a rt base →
      (s (k + 3)).core.regs rt = if rt = 0 then 0 else getBigWord (mem 1).pmem (kseg0Offset a) := by
  refine ⟨fun hrt j hj => h.byteAt_eq hset hrt hj, ?_, ?_⟩
  · rintro rfl
    have hr₁ := (h.advances 0 (by decide)).reachable (h.reachable.other (mem 0))
    have hr₂ := (h.advances 1 (by decide)).reachable (hr₁.other (mem 1))
    exact ((h.advances 2 (by decide)).reachable (hr₂.other (mem 2))).reg_zero
  · intro k base hc
    by_cases hrt : rt = 0
    · rw [if_pos hrt, hrt]
      exact (hc.reachable h le_rfl).reg_zero
    · rw [if_neg hrt]
      exact hc.regs_eq h hset hrt

/-! ### Two programs -/

/-- The states of a program from the one after `n` ticks on. -/
def runAfter (mem : Mmu) (n i : ℕ) : Tracked := runFrom (.boot mem) (n + i)

section RunAfter

variable {mem : Mmu} {n k : ℕ}
  (h : ∃ t, iterate Tracked.tick (n + k) (.boot mem) = .ok t ∧ t.finished = false)

include h

lemma reachable_runAfter : Reachable (runAfter mem n 0) := by
  obtain ⟨t, hrun, hfin⟩ := h
  exact (reachable_boot mem).iterate (iterate_runFrom hrun (by omega))
    (finished_runFrom hrun hfin (by omega))

lemma advances_runAfter (hf : ∀ i < k, ¬ (runAfter mem n i).core.flushes) {i : ℕ} (hi : i < k) :
    Advances { runAfter mem n i with mem := (runAfter mem n i).mem } (runAfter mem n (i + 1)) := by
  obtain ⟨t, hrun, hfin⟩ := h
  exact ⟨finished_runFrom hrun hfin (by omega), hf i hi, tick_runFrom hrun (by omega)⟩

end RunAfter

/-- `LUI $1, 0x8000; ADDIU $1, $1, 1; ADDIU $3, $0, -1; LWL $3, 0($1); ADDIU $4, $0, 7;
LWR $3, 3($1)` at the start of kseg0. -/
def loadPairMem : Mmu := imageMem 1024
  [0x3C, 0x01, 0x80, 0x00, 0x24, 0x21, 0x00, 0x01, 0x24, 0x03, 0xFF, 0xFF, 0x88, 0x23, 0x00, 0x00,
    0x24, 0x04, 0x00, 0x07, 0x98, 0x23, 0x00, 0x03]

/-- The states of its run from EX of the `LWL` on. -/
def loadPairRun (i : ℕ) : Tracked := runAfter loadPairMem 5 i

lemma advances_loadPairRun {i : ℕ} (hi : i < 5) :
    Advances { loadPairRun i with mem := (loadPairRun i).mem } (loadPairRun (i + 1)) :=
  advances_runAfter ⟨_, rfl, rfl⟩ (by decide) hi

lemma halfLoad_loadPairRun :
    HalfLoad .left loadPairRun (fun i => (loadPairRun i).mem) 0x80000001#32 3 where
  reachable := @reachable_runAfter _ 5 5 ⟨_, rfl, rfl⟩
  advances := fun i hi => advances_loadPairRun (by omega)
  isLoad := by decide
  rt_eq := by decide
  base_eq := by decide
  inKseg0 := by decide

lemma completed_loadPairRun :
    Completed .left loadPairRun (fun i => (loadPairRun i).mem) 2 0x80000001#32 3 1 where
  advances := fun i hi => advances_loadPairRun (by omega)
  pos := by decide
  isLoad := by decide
  rt_eq := by decide
  rs_eq := by decide
  rs_eq_first := by decide
  rt_ne := by decide
  between := by
    intro i hlo hhi
    obtain rfl : i = 1 := by omega
    decide
  inKseg0 := by decide
  bytes := fun j hj => rfl

/-- The four bytes from an odd address on, with `$3` written right before the `LWL` and an
instruction before the `LWR`. -/
theorem unaligned_loadPairRun :
    HalfLoad .left loadPairRun (fun i => (loadPairRun i).mem) 0x80000001#32 3 ∧
    Completed .left loadPairRun (fun i => (loadPairRun i).mem) 2 0x80000001#32 3 1 ∧
    (loadPairRun 2).core.regs 3 = 0xFFFFFFFF#32 ∧ (loadPairRun 5).core.regs 3 = 0x01800024#32 := by
  refine ⟨halfLoad_loadPairRun, completed_loadPairRun, by decide, ?_⟩
  rw [(halfLoad_loadPairRun.unaligned (by decide)).2.2 2 1 completed_loadPairRun]
  decide

/-- `LUI $1, 0x8000; ORI $1, $1, 0x41; MTC0 $5, $0; LWL $3, 0($1); LWR $3, 3($1)` at the start of
kseg0, and the word 0x11223344 at 0x80000041. CP0 register 0 has the number 1 in the pipeline. -/
def staleBaseMem : Mmu := imageMem 1024
  ([0x3C, 0x01, 0x80, 0x00, 0x34, 0x21, 0x00, 0x41, 0x40, 0x85, 0x00, 0x00, 0x88, 0x23, 0x00, 0x00,
    0x98, 0x23, 0x00, 0x03] ++ List.replicate 45 0 ++ [0x11, 0x22, 0x33, 0x44])

/-- The states of its run from EX of the `LWL` on. -/
def staleBaseRun (i : ℕ) : Tracked := runAfter staleBaseMem 5 i

lemma advances_staleBaseRun {i : ℕ} (hi : i < 5) :
    Advances { staleBaseRun i with mem := (staleBaseRun i).mem } (staleBaseRun (i + 1)) :=
  advances_runAfter ⟨_, rfl, rfl⟩ (by decide) hi

/-- The `LWL` takes the base as the `LUI` has left it. -/
theorem not_unaligned_staleBase :
    HalfLoad .left staleBaseRun (fun i => (staleBaseRun i).mem) 0x80000041#32 3 ∧
    Completed .left staleBaseRun (fun i => (staleBaseRun i).mem) 2 0x80000041#32 3 1 ∧
    getBigWord (staleBaseRun 1).mem.pmem (kseg0Offset 0x80000041#32) = 0x11223344#32 ∧
    (staleBaseRun 5).core.regs 3 = 0x3C018044#32 := by
  refine ⟨⟨@reachable_runAfter _ 5 5 ⟨_, rfl, rfl⟩, fun i hi => advances_staleBaseRun (by omega),
    by decide, by decide, by decide, by decide⟩, ?_, by decide, by decide⟩
  refine ⟨fun i hi => advances_staleBaseRun (by omega), by decide, by decide, by decide, by decide,
    by decide, by decide, ?_, by decide, fun j hj => rfl⟩
  intro i hlo hhi
  obtain rfl : i = 1 := by omega
  decide

end MipsSim
