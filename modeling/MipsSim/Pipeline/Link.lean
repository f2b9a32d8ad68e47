import MipsSim.Pipeline.Flow
import MipsSim.Pipeline.Forwarding

/-!
# The link register

`JAL` computes its return address in the shared adder. The first operand is the address itself, but
it passes the forwarding unit under the register number that stands in bits 25 to 21 of the word, and
the second operand is the register that stands in bits 20 to 16. Both are bits of the target. What
the instruction leaves in `$ra` therefore depends on other registers and on the instructions ahead.
-/

namespace MipsSim

open Run

/-! ### Operands of a link -/

/-- The nearest of the two instructions ahead, in `EX_MEM` and `MEM_WB`, that writes the register
number. -/
def Core.ahead (core : Core) (reg : ℕ) : Option Source :=
  if core.exMem.source.hits reg then some core.exMem.source
  else if core.memWb.source.hits reg then some core.memWb.source
  else none

/-- The result of the instruction ahead, in place of the value; that of `MTC0` is not taken. -/
def Core.standIn (core : Core) (reg : ℕ) (value : Word) : Word :=
  match core.ahead reg with
  | none => value
  | some src => if isMtc0 src.inst then value else src.data

/-- The register number is that of an `MTC0` ahead, at which the forwarding unit returns. -/
def Core.blocked (core : Core) (reg : ℕ) : Prop :=
  ∃ src, core.ahead reg = some src ∧ isMtc0 src.inst

instance (core : Core) (reg : ℕ) : Decidable (core.blocked reg) :=
  match h : core.ahead reg with
  | none => isFalse fun ⟨_, hs, _⟩ => by rw [h] at hs; cases hs
  | some src =>
    if hm : isMtc0 src.inst then isTrue ⟨src, h, hm⟩
    else isFalse fun ⟨_, hs, hm'⟩ => by rw [h, Option.some.injEq] at hs; exact hm (hs ▸ hm')

/-- What the adder gets for the return address `link`. -/
def Core.linkBase (core : Core) (inst link : Word) : Word := core.standIn (getRs inst) link

/-- What the adder adds to it. -/
def Core.linkOffset (core : Core) (inst : Word) : Word :=
  if core.blocked (getRs inst) then core.regs (getRt inst)
  else core.standIn regRa (core.regs (getRt inst))

/-- The two operands add up to the return address, and not by an overflow. -/
def LinkSafe (core : Core) (inst link : Word) : Prop :=
  ¬ checkSoverflow (core.linkBase inst link) (core.linkOffset inst) ∧
    core.linkBase inst link + core.linkOffset inst = link

instance (core : Core) (inst link : Word) : Decidable (LinkSafe core inst link) :=
  inferInstanceAs (Decidable (_ ∧ _))

/-- The multiplexers in terms of the instructions ahead. -/
lemma forwardMux_ahead (core : Core) {inst : Word} (h : getOpcode inst ≠ .cp0) (reg : ℕ)
    (value : Word) :
    forwardMux core.exMem.source core.memWb.source inst reg value =
      match core.ahead reg with
      | none => some value
      | some src => if isMtc0 src.inst then none else some src.data := by
  unfold forwardMux Core.ahead
  simp only [Source.illegal_iff_of_ne_cp0 h]
  by_cases hex : core.exMem.source.hits reg
  · rw [if_pos hex, if_pos hex]
  · rw [if_neg hex, if_neg hex]
    by_cases hwb : core.memWb.source.hits reg
    · rw [if_pos hwb, if_pos hwb]
    · rw [if_neg hwb, if_neg hwb]

lemma forwardMux_getD (core : Core) {inst : Word} (h : getOpcode inst ≠ .cp0) (reg : ℕ)
    (value : Word) :
    (forwardMux core.exMem.source core.memWb.source inst reg value).getD value =
      core.standIn reg value := by
  rw [forwardMux_ahead core h, Core.standIn]
  cases core.ahead reg with
  | none => rfl
  | some src => by_cases hm : isMtc0 src.inst <;> simp [hm]

lemma forwardMux_eq_none (core : Core) {inst : Word} (h : getOpcode inst ≠ .cp0) (reg : ℕ)
    (value : Word) :
    forwardMux core.exMem.source core.memWb.source inst reg value = none ↔ core.blocked reg := by
  rw [forwardMux_ahead core h, Core.blocked]
  cases core.ahead reg with
  | none => simp
  | some src => by_cases hm : isMtc0 src.inst <;> simp [hm]

section Jal

variable {inst : Word} (hjal : getOpcode inst = .jal)

include hjal

lemma controlOf_jal : controlOf inst = { jump := true, regWrite := true } := by
  simp only [controlOf, hjal]

lemma not_isCp0Move_jal : ¬ isMfc0 inst ∧ ¬ isMtc0 inst := by
  simp [isMfc0, isMtc0, hjal]

lemma ne_eret_jal : inst ≠ instructionEret := by
  rintro rfl
  revert hjal
  decide

/-- The operands with which `JAL` leaves ID. -/
lemma operands_jal {core : Core} (memWb : MemWb) (next : Word) (hif : core.ifId.inst = inst) :
    (core.next memWb next).idEx.rsValue =
        (core.next memWb next).linkBase inst (core.ifId.nextPc + 4) ∧
      (core.next memWb next).idEx.rtValue = (core.next memWb next).linkOffset inst := by
  obtain ⟨hf, ht⟩ := not_isCp0Move_jal hjal
  have hcp0 : getOpcode inst ≠ .cp0 := by simp [hjal]
  have hm : ¬ isCp0Move inst := fun hm => hm.elim hf ht
  have hid : (core.advance memWb).idEx.inst = inst := hif
  have hrs : (core.advance memWb).idEx.rs = getRs inst := by
    show rsOf core.ifId.inst = _
    rw [hif, rsOf, if_neg hf, if_neg ht]
  have hrt : (core.advance memWb).idEx.rt = regRa := by
    show rtOf core.ifId.inst = _
    rw [hif, rtOf, if_neg hm, if_pos hjal]
  have ha : (core.advance memWb).idEx.rsValue = core.ifId.nextPc + 4 := by
    show rsRead _ core.ifId.inst = _
    rw [hif, rsRead, if_neg hf, if_neg ht, if_pos hjal]
    rfl
  have hb : (core.advance memWb).idEx.rtValue = core.regs (getRt inst) := by
    show rtRead _ core.ifId.inst = _
    rw [hif, rtRead, if_neg hm]
  have hahead : ∀ reg, (core.next memWb next).ahead reg = (core.advance memWb).ahead reg := by
    intro reg
    unfold Core.ahead
    rw [Core.next_exMem, Core.next_memWb]
    rfl
  have hstand : ∀ reg value,
      (core.next memWb next).standIn reg value = (core.advance memWb).standIn reg value := by
    intro reg value
    rw [Core.standIn, Core.standIn, hahead]
  have hblocked : ∀ reg, (core.next memWb next).blocked reg ↔ (core.advance memWb).blocked reg := by
    intro reg
    rw [Core.blocked, Core.blocked, hahead]
  rw [Core.next_idEx]
  constructor
  · rw [Core.linkBase, hstand, ← forwardMux_getD _ hcp0]
    simp only [Core.forwardRs, hid, if_neg (ne_eret_jal hjal), hrs, ha]
  · rw [Core.linkOffset, hstand]
    simp only [Core.next_regs, hblocked, Core.forwardRt, hid, if_neg (ne_eret_jal hjal), hrs, hrt, hb]
    by_cases hbl : (core.advance memWb).blocked (getRs inst)
    · rw [if_pos hbl, (forwardMux_eq_none _ hcp0 _ _).mpr hbl]
    · rw [if_neg hbl, ← forwardMux_getD _ hcp0]
      cases hmux : forwardMux (core.advance memWb).exMem.source (core.advance memWb).memWb.source inst
          (getRs inst) (core.advance memWb).idEx.rsValue with
      | none => exact absurd ((forwardMux_eq_none _ hcp0 _ _).mp hmux) hbl
      | some a => rfl

/-- Where `JAL` goes when it is executed. -/
lemma redirect_jal {core : Core} (memWb : MemWb) (next : Word) (hif : core.ifId.inst = inst) :
    (core.next memWb next).idEx.redirect =
      some ((core.ifId.nextPc &&& 0xF0000000#32) ||| (getAddress inst <<< 2)) := by
  have hc : (core.next memWb next).idEx.c = { jump := true, regWrite := true } := by
    rw [(decoded_next core memWb next).c_eq, Core.next_idEx_inst, hif, controlOf_jal hjal]
  have hinst : (core.next memWb next).idEx.inst = inst := by rw [Core.next_idEx_inst, hif]
  have hno : ¬ ((getOpcode inst = .r ∧ getFunct inst = .jr) ∨ inst = instructionEret) := by
    rintro (hr | he)
    · exact absurd (hjal.symm.trans hr.1) (by decide)
    · exact ne_eret_jal hjal he
  have haddr : (core.next memWb next).idEx.jumpAddr =
      (core.ifId.nextPc &&& 0xF0000000#32) ||| (getAddress inst <<< 2) := by
    rw [Core.next_idEx]
    show jumpRead _ core.ifId.inst = _
    rw [hif, jumpRead, if_pos (.inr hjal)]
  simp only [IdEx.redirect, hc, IdEx.jumpTarget, hinst, if_neg hno, haddr, Bool.false_eq_true,
    false_and, if_false, if_true]

/-- `JAL` in `EX_MEM`. -/
lemma executeStage_jal {core : Core} (hid : core.idEx.inst = inst) (hdec : core.idEx.Decoded) :
    executeStage core =
      { (executeStage core) with
        cRegWrite := true
        cMemRead := false
        cMemWrite := false
        cMemToReg := false
        aluRes := core.idEx.rsValue + core.idEx.rtValue
        regDst := regRa
        inst := inst
        exception := addException core.idEx.rsValue core.idEx.rtValue } := by
  obtain ⟨hf, ht⟩ := not_isCp0Move_jal hjal
  have hm : ¬ isCp0Move inst := fun hm => hm.elim hf ht
  have hc := hdec.c_eq
  have hrt := hdec.rt_eq
  rw [hid, controlOf_jal hjal] at hc
  rw [hid, rtOf, if_neg hm, if_pos hjal] at hrt
  simp [executeStage, hc, hid, hrt, IdEx.dst, aluResult, aluException, IdEx.aluB]

end Jal

/-! ### A link in the pipeline -/

/-- What `JAL` does when it is written back, from the state `t` with the instruction in `IF_ID` to
the state `t₃` with the instruction in `MEM_WB`: it raises nothing, writes the return address to
`$ra` and nothing to any other register, and the instruction behind the delay slot is the one at the
target. -/
structure Links (t t₃ : Tracked) (addr inst : Word) : Prop where
  inst_eq : t₃.core.memWb.inst = inst
  no_exception : t₃.core.memWb.exception = .none
  regs_eq : (interpretWb t₃.core).1.regs = setReg t₃.core.regs regRa (addr + 8)
  delay_slot : t₃.exMem.map (·.seq) = some t.fetched
  target : ∃ u, (t₃.idEx = some u ∨ (t₃.idEx = none ∧ t₃.ifId = some u)) ∧ u.seq = t.fetched + 1 ∧
    u.addr = ((addr + 4#32) &&& 0xF0000000#32) ||| (getAddress inst <<< 2)

section Run

variable {t t₁ t₂ t₃ : Tracked} {v : DynInst} (h : Reachable t) (hv : t.ifId = some v)
  (hjal : getOpcode t.core.ifId.inst = .jal) (h₁ : Passes t t₁) (h₂ : Passes t₁ t₂)
  (h₃ : Passes t₂ t₃)

include h hjal h₁

/-- The delay slot is fetched behind `JAL`. -/
lemma delaySlot_jal : t₁.ifId = some { seq := t.fetched, addr := t.core.fetchPc } ∧
    t₁.fetched = t.fetched + 1 := by
  obtain ⟨regs, cp0, mem, e, readData, badVAddr, mem₁, inst, mem', -, rfl⟩ := h₁.record h
  have hpc : (t.core.withRegs regs cp0).idEx.redirect.getD (t.core.withRegs regs cp0).pc =
      t.core.fetchPc := (Core.fetchPc_of_not_flushes h₁.not_flushes).symm
  have hh : ¬ (t.core.withRegs regs cp0).holds inst := by
    rintro ⟨hread, -⟩
    rw [show (t.core.withRegs regs cp0).ifId.inst = t.core.ifId.inst from rfl,
      controlOf_jal hjal] at hread
    cases hread
  rw [Tracked.record_ifId hpc, Tracked.record_fetched hpc, if_neg hh, if_neg hh]
  exact ⟨rfl, rfl⟩

/-- `JAL` in `ID_EX`, with the operands that it got and the address to which it goes. -/
lemma idEx_jal : t₁.core.idEx.inst = t.core.ifId.inst ∧ t₁.core.idEx.Decoded ∧
    t₁.core.idEx.rsValue = t₁.core.linkBase t.core.ifId.inst (t.core.ifId.nextPc + 4) ∧
    t₁.core.idEx.rtValue = t₁.core.linkOffset t.core.ifId.inst ∧
    t₁.core.idEx.redirect =
      some ((t.core.ifId.nextPc &&& 0xF0000000#32) ||| (getAddress t.core.ifId.inst <<< 2)) := by
  obtain ⟨regs, cp0, mem, e, readData, badVAddr, mem₁, inst, mem', -, rfl⟩ := h₁.record h
  have hops := @operands_jal _ hjal (t.core.withRegs regs cp0)
    (moveStage t.core e readData badVAddr) inst rfl
  exact ⟨Core.next_idEx_inst .., decoded_next .., hops.1, hops.2, redirect_jal hjal _ _ rfl⟩

include h₂

/-- `JAL` in `EX_MEM`, with the sum of its operands. -/
lemma exMem_jal : t₂.core.exMem.cRegWrite = true ∧ t₂.core.exMem.cMemRead = false ∧
    t₂.core.exMem.cMemWrite = false ∧ t₂.core.exMem.cMemToReg = false ∧
    t₂.core.exMem.regDst = regRa ∧ t₂.core.exMem.inst = t.core.ifId.inst ∧
    t₂.core.exMem.aluRes = t₁.core.idEx.rsValue + t₁.core.idEx.rtValue ∧
    t₂.core.exMem.exception = addException t₁.core.idEx.rsValue t₁.core.idEx.rtValue := by
  obtain ⟨hid, hdec, -⟩ := idEx_jal h hjal h₁
  obtain ⟨regs, cp0, mem, e, readData, badVAddr, mem₁, inst, mem', -, rfl⟩ :=
    h₂.record (h₁.reachable h)
  simp only [Tracked.record, Core.next_exMem]
  rw [@executeStage_jal _ hjal (t₁.core.withRegs regs cp0) hid hdec]
  exact ⟨rfl, rfl, rfl, rfl, rfl, rfl, rfl, rfl⟩

include h₃

/-- `JAL` in `MEM_WB`. -/
lemma memWb_jal : t₃.core.memWb.cRegWrite = true ∧ t₃.core.memWb.cMemToReg = false ∧
    t₃.core.memWb.regDst = regRa ∧ t₃.core.memWb.inst = t.core.ifId.inst ∧
    t₃.core.memWb.aluRes = t₁.core.idEx.rsValue + t₁.core.idEx.rtValue ∧
    t₃.core.memWb.exception = addException t₁.core.idEx.rsValue t₁.core.idEx.rtValue := by
  obtain ⟨hw, hread, hwrite, hmem, hdst, hinst, hres, hexc⟩ := exMem_jal h hjal h₁ h₂
  obtain ⟨regs, cp0, mem, e, readData, badVAddr, mem₁, inst, mem', hstep, rfl⟩ :=
    h₃.record (h₂.reachable (h₁.reachable h))
  have he := (hstep.of_no_access hread hwrite).1
  simp only [Tracked.record, Core.next_memWb]
  exact ⟨hw, hmem, hdst, hinst, hres, he.trans hexc⟩

include hv

/-- `JAL` links right exactly when the two operands add up to the return address. -/
theorem links_iff : Links t t₃ v.addr t.core.ifId.inst ↔
    LinkSafe t₁.core t.core.ifId.inst (v.addr + 8) := by
  obtain ⟨hw, hmem, hdst, hinst, hres, hexc⟩ := memWb_jal h hjal h₁ h₂ h₃
  obtain ⟨hid, hdec, ha, hb, hredirect⟩ := idEx_jal h hjal h₁
  have hnext := h.labelled.ifId_addr v hv
  have hlink : v.addr + 4 + 4 = v.addr + 8 := by rw [BitVec.add_assoc]; rfl
  rw [hnext, hlink] at ha
  rw [ha, hb] at hres hexc
  have hne : t₃.core.memWb.inst ≠ instructionEret := by
    rw [hinst]
    exact ne_eret_jal hjal
  have hmtc0 : ¬ isMtc0 t₃.core.memWb.inst := by
    rw [hinst]
    exact (not_isCp0Move_jal hjal).2
  have hregs : t₃.core.memWb.exception = .none → (interpretWb t₃.core).1.regs =
      setReg t₃.core.regs regRa (t₁.core.linkBase t.core.ifId.inst (v.addr + 8) +
        t₁.core.linkOffset t.core.ifId.inst) := by
    intro hnone
    rw [interpretWb_of_commits ⟨hne, hnone⟩]
    simp only [commitRegs, hw, hmtc0, not_false_eq_true, and_self, if_true, hdst, MemWb.data, hmem,
      Bool.false_eq_true, if_false, hres]
    rfl
  constructor
  · rintro ⟨-, hnone, hra, -, -⟩
    have hsafe : ¬ checkSoverflow (t₁.core.linkBase t.core.ifId.inst (v.addr + 8))
        (t₁.core.linkOffset t.core.ifId.inst) := by
      intro hover
      rw [hexc, addException, if_pos hover] at hnone
      cases hnone
    refine ⟨hsafe, ?_⟩
    rw [hregs hnone] at hra
    have hval := congrFun hra regRa
    rwa [setReg_self, setReg_self] at hval
  · rintro ⟨hsafe, hsum⟩
    have hnone : t₃.core.memWb.exception = .none := by rw [hexc, addException, if_neg hsafe]
    have htarget : t₁.core.fetchPc =
        ((v.addr + 4#32) &&& 0xF0000000#32) ||| (getAddress t.core.ifId.inst <<< 2) := by
      rw [Core.fetchPc_of_not_flushes h₂.not_flushes, hredirect, Option.getD_some, hnext]
      rfl
    obtain ⟨hslot, hn⟩ := delaySlot_jal h hjal h₁
    have hreach₁ := h₁.reachable h
    have hreach₂ := h₂.reachable hreach₁
    refine ⟨hinst, hnone, ?_, ?_, ?_⟩
    · rw [hregs hnone, hsum]
    · have hid₂ : t₂.slot 1 = t₁.slot 0 := h₂.slot_succ hreach₁ (by decide)
      have hex₃ : t₃.slot 2 = t₂.slot 1 := h₃.slot_succ hreach₂ (by decide)
      exact hex₃.trans (hid₂.trans (by rw [Tracked.slot, hslot]; rfl))
    · have hid₃ : t₃.idEx = t₂.ifId := h₃.idEx_eq hreach₂
      rcases Passes.fetch h₂ h₃ hreach₁ with hnow | ⟨hnone₂, hthen⟩
      · exact ⟨_, .inl (hid₃.trans hnow), hn, htarget⟩
      · exact ⟨_, .inr ⟨hid₃.trans hnone₂, hthen⟩, hn, htarget⟩

end Run

/-- `JAL 0x80000000` at the start of kseg0. -/
def jalMem : Mmu := imageMem 128 [0x0C, 0, 0, 0]

/-- `ADDIU $1, $0, 1` and then `JAL 0x80040000`, whose word has 1 in bits 20 to 16. -/
def jalOffsetMem : Mmu := imageMem 0x200040
  [0x24, 0x01, 0, 0x01, 0, 0, 0, 0, 0, 0, 0, 0, 0x0C, 0x01, 0, 0]

/-- A tick of a run that goes on in the memory it has left. -/
lemma passes_of_tick {t t' : Tracked} (hfin : t.finished = false) (hf : ¬ t.core.flushes)
    (ht : t.tick = .ok t') : Passes t t' := ⟨hfin, hf, t.mem, ht⟩

lemma run_jalMem : ∃ t t₁ t₂ t₃ v, (Tracked.boot jalMem).tick = .ok t ∧
    t.tick = .ok t₁ ∧ t₁.tick = .ok t₂ ∧ t₂.tick = .ok t₃ ∧ t.ifId = some v ∧
    v.addr = 0x80000000#32 ∧ getOpcode t.core.ifId.inst = .jal ∧
    (t.finished = false ∧ ¬ t.core.flushes) ∧ (t₁.finished = false ∧ ¬ t₁.core.flushes) ∧
    (t₂.finished = false ∧ ¬ t₂.core.flushes) ∧
    LinkSafe t₁.core t.core.ifId.inst (v.addr + 8) :=
  ⟨_, _, _, _, _, rfl, rfl, rfl, rfl, rfl, rfl, by decide, ⟨rfl, by decide⟩, ⟨rfl, by decide⟩,
    ⟨rfl, by decide⟩, by decide⟩

/-- A first `JAL` links right. -/
theorem links_iff_jal : ∃ t t₃, Reachable t ∧ Links t t₃ 0x80000000#32 t.core.ifId.inst := by
  obtain ⟨t, t₁, t₂, t₃, v, ht, ht₁, ht₂, ht₃, hv, haddr, hjal, hp, hp₁, hp₂, hsafe⟩ := run_jalMem
  have hreach := (reachable_boot jalMem).tick rfl ht
  have hlinks := (links_iff hreach hv hjal (passes_of_tick hp.1 hp.2 ht₁)
    (passes_of_tick hp₁.1 hp₁.2 ht₂) (passes_of_tick hp₂.1 hp₂.2 ht₃)).mpr hsafe
  rw [haddr] at hlinks
  exact ⟨t, t₃, hreach, hlinks⟩

lemma run_jalOffsetMem : ∃ t t₁ t₂ t₃ v, iterate Tracked.tick 4 (.boot jalOffsetMem) = .ok t ∧
    t.tick = .ok t₁ ∧ t₁.tick = .ok t₂ ∧ t₂.tick = .ok t₃ ∧ t.ifId = some v ∧
    v.addr = 0x8000000C#32 ∧ t.core.ifId.inst = 0x0C010000#32 ∧
    (t.finished = false ∧ ¬ t.core.flushes) ∧ (t₁.finished = false ∧ ¬ t₁.core.flushes) ∧
    (t₂.finished = false ∧ ¬ t₂.core.flushes) ∧
    (interpretWb t₃.core).1.regs regRa = 0x80000015#32 :=
  ⟨_, _, _, _, _, rfl, rfl, rfl, rfl, rfl, rfl, rfl, ⟨rfl, by decide⟩, ⟨rfl, by decide⟩,
    ⟨rfl, by decide⟩, rfl⟩

/-- With 1 in `$1` the return address of this `JAL` is one too high. -/
theorem not_links_offset : ∃ t t₁ t₂ t₃ v, Reachable t ∧ t.ifId = some v ∧
    getOpcode t.core.ifId.inst = .jal ∧ Passes t t₁ ∧ Passes t₁ t₂ ∧ Passes t₂ t₃ ∧
    v.addr = 0x8000000C#32 ∧ (interpretWb t₃.core).1.regs regRa = 0x80000015#32 ∧
    ¬ Links t t₃ v.addr t.core.ifId.inst := by
  obtain ⟨t, t₁, t₂, t₃, v, ht, ht₁, ht₂, ht₃, hv, haddr, hinst, hp, hp₁, hp₂, hra⟩ :=
    run_jalOffsetMem
  refine ⟨t, t₁, t₂, t₃, v, (reachable_boot jalOffsetMem).iterate ht hp.1, hv, ?_,
    passes_of_tick hp.1 hp.2 ht₁, passes_of_tick hp₁.1 hp₁.2 ht₂, passes_of_tick hp₂.1 hp₂.2 ht₃,
    haddr, hra, fun hlinks => ?_⟩
  · rw [hinst]
    decide
  · have hval := congrFun hlinks.regs_eq regRa
    rw [hra, setReg_self, haddr] at hval
    exact absurd hval (by decide)

end MipsSim
