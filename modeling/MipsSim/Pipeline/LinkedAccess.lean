import MipsSim.Pipeline.Arith

/-!
# Load-linked and store-conditional

`LL` is decoded like `LUI` and finds no case in the ALU, and `SC` is decoded like a store and finds no
case in MEM. Both are compared with the protocol that they are meant for: a store to the address of the
last `LL` succeeds unless something came in between, and a store to another address fails.
-/

namespace MipsSim

open ByteStore Run

/-! ### The protocol -/

/-- The effective address of an access in `ID_EX`. -/
def IdEx.effAddr (idEx : IdEx) : Word := idEx.rsValue + signExtend (getImm idEx.inst)

/-- The number of bytes from its address on that a store writes, within the word for the two that
write a part of it. -/
def storeBytes (inst : Word) : ℕ :=
  match getOpcode inst with
  | .sb | .swl | .swr => 1
  | .sh => 2
  | .sw | .sc => 4
  | _ => 0

/-- The instruction in `EX_MEM` stores to the word at `a`. -/
def ExMem.StoresTo (exMem : ExMem) (a : Word) : Prop :=
  exMem.exception = .none ∧
    ∃ i < storeBytes exMem.inst, wordAddr (exMem.aluRes + BitVec.ofNat 32 i) = wordAddr a

/-- The last `LL` was to the address `a`. The flag is set as long as there was no exception and no
store to the word since. -/
inductive Linked (a : Word) : Bool → Tracked → Prop
  | link {t₀ t₁ t₂ : Tracked} {mem : Mmu} (hr : Retires t₀ t₁ t₂ mem)
      (hop : getOpcode t₀.core.idEx.inst = .ll) (ha : t₀.core.idEx.effAddr = a) : Linked a true t₂
  | keep {flag : Bool} {t t' : Tracked} (h : Linked a flag t) (hp : Passes t t')
      (hop : getOpcode t.core.exMem.inst ≠ .ll) (hstore : ¬ t.core.exMem.StoresTo a) :
      Linked a flag t'
  | lose {flag : Bool} {t t' : Tracked} (h : Linked a flag t) (hfin : t.finished = false)
      (mem : Mmu) (ht : ({ t with mem := mem } : Tracked).tick = .ok t')
      (hop : getOpcode t.core.exMem.inst ≠ .ll ∨ t.core.flushes) : Linked a false t'

/-- `LL` leaves the word at offset `o` of memory in its register. -/
def LoadsLinked (t₂ : Tracked) (mem : Mmu) (inst : Word) (o : ℕ) : Prop :=
  t₂.core.memWb.exception = .none ∧
    (interpretWb t₂.core).1.regs (getRt inst) =
      if getRt inst = 0 then 0 else getBigWord mem.pmem o

/-- `SC` stores its register at offset `o` of memory and reports success. -/
def StoresConditional (t₂ : Tracked) (mem : Mmu) (inst : Word) (o : ℕ) : Prop :=
  t₂.core.memWb.exception = .none ∧
    t₂.mem.pmem = writeBlock mem.pmem o (toBigEndian 4 (t₂.core.regs (getRt inst)).toNat) ∧
    (interpretWb t₂.core).1.regs (getRt inst) = if getRt inst = 0 then 0 else 1

/-- `SC` leaves memory as it is and reports failure. -/
def FailsConditional (t₂ : Tracked) (mem : Mmu) (inst : Word) : Prop :=
  t₂.core.memWb.exception = .none ∧ t₂.mem.pmem = mem.pmem ∧
    (interpretWb t₂.core).1.regs (getRt inst) = 0

/-! ### What the two instructions do -/

lemma addException_none_iff (a b : Word) : addException a b = .none ↔ ¬ checkSoverflow a b := by
  unfold addException
  by_cases h : checkSoverflow a b <;> simp [h]

section Retires

variable {t₀ t₁ t₂ : Tracked} {mem : Mmu} (hr : Retires t₀ t₁ t₂ mem)

include hr

/-- `LL` writes the old contents of `alu_res`. -/
lemma Retires.ll (hop : getOpcode t₀.core.idEx.inst = .ll) :
    t₂.core.memWb.exception = .none ∧
      (interpretWb t₂.core).1.regs (getRt t₀.core.idEx.inst) =
        if getRt t₀.core.idEx.inst = 0 then 0 else t₀.core.exMem.aluRes := by
  have hne := @ne_of_opcode t₀.core.idEx.inst (by rw [hop]; decide) (by rw [hop]; decide)
  have hdec := hr.reachable.decoded hne.1
  have hctl : controlOf t₀.core.idEx.inst =
      { aluOp := .iType, aluSrc := true, regWrite := true } := by
    simp only [controlOf, hop]
  have hmove : ¬ isMfc0 t₀.core.idEx.inst ∧ ¬ isMtc0 t₀.core.idEx.inst := by
    simp [isMfc0, isMtc0, hop]
  have hdst : dstOf t₀.core.idEx.inst = getRt t₀.core.idEx.inst := by
    rw [dstOf, hctl, if_neg (by decide), rtOf, if_neg fun hc => hc.elim hmove.1 hmove.2,
      if_neg (by rw [hop]; decide)]
  have hexc : aluException t₀.core.idEx = .none := by
    simp only [aluException, hdec.c_eq, hctl, hop]
  have hres : aluResult t₀.core.idEx t₀.core.exMem.aluRes = t₀.core.exMem.aluRes := by
    simp only [aluResult, hdec.c_eq, hctl, hop]
  have hread : (controlOf t₀.core.idEx.inst).memRead = false := by rw [hctl]
  have hwrite : (controlOf t₀.core.idEx.inst).memWrite = false := by rw [hctl]
  obtain ⟨hexc₂, -⟩ := hr.exception_eq hdec hread hwrite
  obtain ⟨-, hregs⟩ := hr.regs_of_none hdec hread hwrite hexc hne.2 (by rw [hctl]) hmove.2
    (by rw [hctl])
  rw [hdst, hres] at hregs
  exact ⟨hexc₂.trans hexc, by rw [hregs, setReg_self]⟩

/-- `SC` stores nothing and writes no register; its address is checked like that of a store. -/
lemma Retires.sc (hop : getOpcode t₀.core.idEx.inst = .sc) :
    (t₂.core.memWb.exception = .none ↔
        ¬ checkSoverflow t₀.core.idEx.rsValue (signExtend (getImm t₀.core.idEx.inst))) ∧
      t₂.mem.pmem = mem.pmem ∧
      (t₂.core.memWb.exception = .none → (interpretWb t₂.core).1.regs = t₂.core.regs) := by
  have hne := @ne_of_opcode t₀.core.idEx.inst (by rw [hop]; decide) (by rw [hop]; decide)
  have hdec := hr.reachable.decoded hne.1
  have hctl : controlOf t₀.core.idEx.inst = { aluSrc := true, memWrite := true } := by
    simp only [controlOf, hop]
  have hexc : t₁.core.exMem.exception =
      addException t₀.core.idEx.rsValue (signExtend (getImm t₀.core.idEx.inst)) := by
    rw [hr.exMem_exception]
    simp only [aluException, IdEx.aluB, hdec.c_eq, hdec.imm_eq, hctl, if_true]
  have hinst : t₁.core.exMem.inst = t₀.core.idEx.inst := by
    rw [hr.exMem_eq]
    rfl
  obtain ⟨e, readData, badVAddr, mem₁, trace, hstep, hwb, hmemWb, hmem⟩ := hr.memStep
  rw [hwb] at hstep
  -- whether the address is refused or not, MEM ends with the exception of EX and the same memory
  have hkept : e = t₁.core.exMem.exception ∧ mem₁ = mem := by
    cases hstep with
    | carried h => exact ⟨rfl, rfl⟩
    | load _ hread _ =>
      rw [show (t₁.core.withRegs t₂.core.regs t₂.core.cp0).exMem = t₁.core.exMem from rfl,
        hr.exMem_eq] at hread
      simp [executeStage, hdec.c_eq, hctl] at hread
    | store h _ _ hstore =>
      have hsc : memStore (t₁.core.withRegs t₂.core.regs t₂.core.cp0) mem = .ok (.none, mem) := by
        simp only [memStore, Core.withRegs, hinst, hop]
        rfl
      rw [hsc, Except.ok.injEq, Prod.mk.injEq] at hstore
      exact ⟨hstore.1.symm.trans h.symm, hstore.2.symm⟩
    | plain h _ _ => exact ⟨h.symm, rfl⟩
  obtain ⟨rfl, rfl⟩ := hkept
  refine ⟨?_, by rw [hmem]; rfl, fun hnone => ?_⟩
  · rw [hmemWb, ← addException_none_iff, ← hexc]
    rfl
  have hcommits : t₂.core.memWb.commits := ⟨hr.memWb_inst ▸ hne.2, hnone⟩
  have hreg : t₂.core.memWb.cRegWrite = false := by
    rw [hmemWb, moveStage, hr.exMem_eq]
    simp [executeStage, hdec.c_eq, hctl]
  rw [interpretWb_of_commits hcommits]
  simp [commitRegs, hreg]

lemma Retires.loadsLinked_iff (hop : getOpcode t₀.core.idEx.inst = .ll) (o : ℕ) :
    LoadsLinked t₂ mem t₀.core.idEx.inst o ↔
      getRt t₀.core.idEx.inst = 0 ∨ t₀.core.exMem.aluRes = getBigWord mem.pmem o := by
  obtain ⟨hexc, hregs⟩ := hr.ll hop
  unfold LoadsLinked
  rw [hexc, hregs]
  by_cases hrt : getRt t₀.core.idEx.inst = 0
  · simp only [hrt, if_true, true_and, true_or]
  · simp only [hrt, if_false, true_and, false_or]

lemma Retires.storesConditional_iff (hop : getOpcode t₀.core.idEx.inst = .sc) (o : ℕ) :
    StoresConditional t₂ mem t₀.core.idEx.inst o ↔
      ¬ checkSoverflow t₀.core.idEx.rsValue (signExtend (getImm t₀.core.idEx.inst)) ∧
      getBigWord mem.pmem o = t₂.core.regs (getRt t₀.core.idEx.inst) ∧
      (getRt t₀.core.idEx.inst = 0 ∨ t₂.core.regs (getRt t₀.core.idEx.inst) = 1) := by
  obtain ⟨hexc, hmem, hregs⟩ := hr.sc hop
  unfold StoresConditional
  rw [← hexc, ← writeBlock_word_eq_iff, hmem]
  refine and_congr_right fun hnone => and_congr eq_comm ?_
  rw [hregs hnone]
  by_cases hrt : getRt t₀.core.idEx.inst = 0
  · simp only [hrt, if_true, true_or, iff_true]
    exact hr.reachable₂.reg_zero
  · simp only [hrt, if_false, false_or]

lemma Retires.failsConditional_iff (hop : getOpcode t₀.core.idEx.inst = .sc) :
    FailsConditional t₂ mem t₀.core.idEx.inst ↔
      ¬ checkSoverflow t₀.core.idEx.rsValue (signExtend (getImm t₀.core.idEx.inst)) ∧
      t₂.core.regs (getRt t₀.core.idEx.inst) = 0 := by
  obtain ⟨hexc, hmem, hregs⟩ := hr.sc hop
  unfold FailsConditional
  rw [← hexc]
  refine and_congr_right fun hnone => ?_
  rw [hregs hnone]
  exact and_iff_right hmem

end Retires

/-! ### The protocol and the code -/

/-- `LUI $1, 0x8000; ADDIU $3, $0, value; LL $4, 64($1); SC $3, 64($1)` and an `SC` at 68($1) of the
register that the last argument encodes, with a word at 64. -/
def linkedMem (value word rt : Byte) : Mmu := imageMem 1024
  ([0x3C, 0x01, 0x80, 0, 0x24, 0x03, 0, value, 0xC0, 0x24, 0, 0x40, 0xE0, 0x23, 0, 0x40,
    0xE0, 0x20 + rt, 0, 0x44] ++ List.replicate 44 0 ++ [0, 0, 0, word])

/-- The ticks from EX of the `LL` in `t₀` to MEM of the second `SC` in the tick to `t₄`, with the words
in `ID_EX` and their addresses. -/
structure LinkedRun (t₀ t₁ t₂ t₃ t₄ : Tracked) (mem : Mmu) (last : Word) : Prop where
  start : iterate Tracked.tick 4 (.boot mem) = .ok t₀
  ticks : t₀.tick = .ok t₁ ∧ t₁.tick = .ok t₂ ∧ t₂.tick = .ok t₃ ∧ t₃.tick = .ok t₄
  finished : t₀.finished = false ∧ t₁.finished = false ∧ t₂.finished = false ∧ t₃.finished = false
  not_flushes : ¬ t₀.core.flushes ∧ ¬ t₁.core.flushes ∧ ¬ t₂.core.flushes ∧ ¬ t₃.core.flushes
  words : t₀.core.idEx.inst = 0xC0240040#32 ∧ t₁.core.idEx.inst = 0xE0230040#32 ∧
    t₂.core.idEx.inst = last ∧ t₂.core.exMem.inst = 0xE0230040#32
  bases : t₀.core.idEx.rsValue = 0x80000000#32 ∧ t₁.core.idEx.rsValue = 0x80000000#32 ∧
    t₂.core.idEx.rsValue = 0x80000000#32
  offsets : translate 0x80000040#32 t₁.mem = some 64 ∧ translate 0x80000040#32 t₂.mem = some 64 ∧
    translate 0x80000044#32 t₃.mem = some 68

section LinkedRun

variable {t₀ t₁ t₂ t₃ t₄ : Tracked} {mem : Mmu} {last : Word}
  (h : LinkedRun t₀ t₁ t₂ t₃ t₄ mem last)

include h

lemma LinkedRun.retires : Retires t₀ t₁ t₂ t₁.mem ∧ Retires t₁ t₂ t₃ t₂.mem ∧
    Retires t₂ t₃ t₄ t₃.mem := by
  obtain ⟨hs₀, hs₁, hs₂, hs₃⟩ := h.ticks
  obtain ⟨hf₀, hf₁, hf₂, hf₃⟩ := h.finished
  obtain ⟨hn₀, hn₁, hn₂, hn₃⟩ := h.not_flushes
  have hreach := (reachable_boot mem).iterate h.start hf₀
  have hreach₁ := hreach.tick hf₀ hs₀
  exact ⟨⟨hreach, ⟨hf₀, hn₀, _, hs₀⟩, hf₁, hn₁, hs₁⟩, ⟨hreach₁, ⟨hf₁, hn₁, _, hs₁⟩, hf₂, hn₂, hs₂⟩,
    ⟨hreach₁.tick hf₁ hs₁, ⟨hf₂, hn₂, _, hs₂⟩, hf₃, hn₃, hs₃⟩⟩

/-- The link is set when the first `SC` is in MEM, and lost when the second one is. -/
lemma LinkedRun.linked : Linked 0x80000040#32 true t₂ ∧ Linked 0x80000040#32 false t₃ := by
  have haddr : t₀.core.idEx.effAddr = 0x80000040#32 := by
    rw [IdEx.effAddr, h.words.1, h.bases.1]
    decide
  have hlink : Linked 0x80000040#32 true t₂ :=
    .link h.retires.1 (by rw [h.words.1]; decide) haddr
  refine ⟨hlink, .lose hlink h.finished.2.2.1 t₂.mem h.ticks.2.2.1 (.inl ?_)⟩
  rw [h.words.2.2.2]
  decide

/-- The addresses of the three accesses. -/
lemma LinkedRun.addresses (hlast : getImm last = 0x44#32) :
    t₀.core.idEx.effAddr = 0x80000040#32 ∧ t₁.core.idEx.effAddr = 0x80000040#32 ∧
      t₂.core.idEx.effAddr = 0x80000044#32 := by
  simp only [IdEx.effAddr, h.words.1, h.words.2.1, h.words.2.2.1, h.bases.1, h.bases.2.1,
    h.bases.2.2, hlast]
  decide

end LinkedRun

end MipsSim
