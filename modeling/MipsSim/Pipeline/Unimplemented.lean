import MipsSim.Pipeline.Arith

/-!
# Unimplemented instructions

Words whose opcode, function or CP0 function the simulator has no case for. An unknown function of
opcode 0 has its control bits set before it is noticed and writes back what the instruction before it
has left in `alu_res`; the other unknown words add their operands under an overflow check.
-/

namespace MipsSim

open Run

/-- The simulator has no case for the word. `ERET` is told by the whole word. -/
def unimplemented (inst : Word) : Prop :=
  match getOpcode inst with
  | .unknown _ => True
  | .r => match getFunct inst with
    | .unknown _ => True
    | _ => False
  | .cp0 => match getCp0Funct inst with
    | .unknown _ => inst ≠ instructionEret
    | _ => False
  | _ => False

/-- What is promised of an unimplemented instruction that is in MEM in the tick to `t₂`: it raises
`EXC_Reserved`, or it raises nothing and leaves the registers and every memory as they are. -/
def NoHiddenEffect (t₁ t₂ : Tracked) : Prop :=
  t₂.core.memWb.exception = .reserved ∨
    (t₂.core.memWb.exception = .none ∧
      (interpretWb t₂.core).1.regs = t₂.core.regs ∧ (interpretWb t₂.core).1.cp0 = t₂.core.cp0 ∧
      ∀ mem, ∃ core', interpretMem (interpretWb t₁.core).1 mem = .ok (core', mem))

/-- The slips do not show: an unknown function writes nothing or what the register holds already, and
any other unknown word has operands whose sum does not overflow. -/
def UnknownSafe (idEx : IdEx) (aluRes : Word) (regs : ℕ → Word) : Prop :=
  if getOpcode idEx.inst = .r then
    getRd idEx.inst = 0 ∨ aluRes = regs (getRd idEx.inst)
  else ¬ checkSoverflow idEx.rsValue idEx.rtValue

/-! ### The two kinds of unknown words -/

lemma unimplemented.cases {inst : Word} (h : unimplemented inst) :
    (getOpcode inst = .r ∧ ∃ code, getFunct inst = .unknown code) ∨
      (getOpcode inst ≠ .r ∧ controlOf inst = {}) := by
  unfold unimplemented at h
  unfold controlOf
  cases hop : getOpcode inst with
  | r =>
    cases hf : getFunct inst with
    | unknown code => exact .inl ⟨rfl, code, rfl⟩
    | _ => simp [hop, hf] at h
  | cp0 =>
    cases hc : getCp0Funct inst with
    | unknown code => exact .inr ⟨by decide, rfl⟩
    | _ => simp [hop, hc] at h
  | unknown code => exact .inr ⟨by simp, rfl⟩
  | _ => simp [hop] at h

lemma unimplemented.ne {inst : Word} (h : unimplemented inst) :
    inst ≠ 0 ∧ inst ≠ instructionEret := by
  constructor
  · rintro rfl
    exact h
  · rintro rfl
    exact h rfl

lemma setReg_eq_iff (regs : ℕ → Word) (i : ℕ) (v : Word) :
    setReg regs i v = regs ↔ v = regs i := by
  constructor
  · intro h
    rw [← congrFun h i, setReg_self]
  · rintro rfl
    funext j
    by_cases hj : j = i
    · rw [hj, setReg_self]
    · exact setReg_of_ne regs _ hj

section Unknown

variable {t₀ t₁ t₂ : Tracked} {mem : Mmu} (hr : Retires t₀ t₁ t₂ mem)
  (h : unimplemented t₀.core.idEx.inst)

include hr h

/-- An unknown function writes the old contents of `alu_res`. -/
lemma Retires.unknown_funct (hop : getOpcode t₀.core.idEx.inst = .r) {code : ℕ}
    (hf : getFunct t₀.core.idEx.inst = .unknown code) :
    t₂.core.memWb.exception = .none ∧ (interpretWb t₂.core).1.cp0 = t₂.core.cp0 ∧
      (interpretWb t₂.core).1.regs = setReg t₂.core.regs (getRd t₀.core.idEx.inst)
        (if getRd t₀.core.idEx.inst = 0 then 0 else t₀.core.exMem.aluRes) ∧
      ∀ mem, ∃ core', interpretMem (interpretWb t₁.core).1 mem = .ok (core', mem) := by
  have hdec := hr.reachable.decoded h.ne.1
  have hctl : controlOf t₀.core.idEx.inst =
      { regDst := true, aluOp := .rType, regWrite := true } := by
    simp [controlOf, hop, hf]
  have hmove : ¬ isMfc0 t₀.core.idEx.inst ∧ ¬ isMtc0 t₀.core.idEx.inst := by
    simp [isMfc0, isMtc0, hop]
  have hfunct : t₀.core.idEx.funct = .unknown code := by
    rw [hdec.funct_eq, functOf, if_neg fun hc => hc.elim hmove.1 hmove.2, hf]
  have hexc : aluException t₀.core.idEx = .none := by
    simp only [aluException, hdec.c_eq, hctl, hfunct]
  have hres : aluResult t₀.core.idEx t₀.core.exMem.aluRes = t₀.core.exMem.aluRes := by
    simp only [aluResult, hdec.c_eq, hctl, hfunct]
  have hdst : dstOf t₀.core.idEx.inst = getRd t₀.core.idEx.inst := by
    rw [dstOf, hctl, if_pos rfl, rdOf, if_neg hmove.1, if_neg hmove.2]
  have hread : (controlOf t₀.core.idEx.inst).memRead = false := by rw [hctl]
  have hwrite : (controlOf t₀.core.idEx.inst).memWrite = false := by rw [hctl]
  obtain ⟨hexc₂, -⟩ := hr.exception_eq hdec hread hwrite
  obtain ⟨hcp0, hregs⟩ := hr.regs_of_none hdec hread hwrite hexc h.ne.2 (by rw [hctl]) hmove.2
    (by rw [hctl])
  rw [hdst, hres] at hregs
  exact ⟨hexc₂.trans hexc, hcp0, hregs, hr.interpretMem_eq hdec hread hwrite⟩

/-- Any other unknown word raises an overflow or does nothing. -/
lemma Retires.unknown_word (hctl : controlOf t₀.core.idEx.inst = {}) :
    t₂.core.memWb.exception = addException t₀.core.idEx.rsValue t₀.core.idEx.rtValue ∧
      (t₂.core.memWb.exception = .none →
        (interpretWb t₂.core).1.cp0 = t₂.core.cp0 ∧ (interpretWb t₂.core).1.regs = t₂.core.regs) ∧
      ∀ mem, ∃ core', interpretMem (interpretWb t₁.core).1 mem = .ok (core', mem) := by
  have hdec := hr.reachable.decoded h.ne.1
  have hexc : aluException t₀.core.idEx =
      addException t₀.core.idEx.rsValue t₀.core.idEx.rtValue := by
    simp only [aluException, IdEx.aluB, hdec.c_eq, hctl, Bool.false_eq_true, if_false]
  have hread : (controlOf t₀.core.idEx.inst).memRead = false := by rw [hctl]
  have hwrite : (controlOf t₀.core.idEx.inst).memWrite = false := by rw [hctl]
  obtain ⟨hexc₂, -⟩ := hr.exception_eq hdec hread hwrite
  refine ⟨hexc₂.trans hexc, fun hnone => ?_, hr.interpretMem_eq hdec hread hwrite⟩
  exact hr.regs_of_not_regWrite hdec hread hwrite (hexc₂.symm.trans hnone) h.ne.2 (by rw [hctl])

/-- An unimplemented instruction has no hidden effect exactly when the slips do not show. It never
raises `EXC_Reserved`. -/
theorem noHiddenEffect_iff :
    NoHiddenEffect t₁ t₂ ↔ UnknownSafe t₀.core.idEx t₀.core.exMem.aluRes t₂.core.regs := by
  unfold NoHiddenEffect UnknownSafe
  rcases h.cases with ⟨hop, code, hf⟩ | ⟨hop, hctl⟩
  · obtain ⟨hexc, hcp0, hregs, hmem⟩ := hr.unknown_funct h hop hf
    rw [if_pos hop, hexc, hregs, hcp0, setReg_eq_iff]
    simp only [reduceCtorEq, true_and, false_or]
    by_cases hrd : getRd t₀.core.idEx.inst = 0
    · rw [if_pos hrd, hrd, hr.reachable₂.reg_zero]
      exact ⟨fun _ => .inl rfl, fun _ => ⟨rfl, hmem⟩⟩
    · rw [if_neg hrd]
      exact ⟨fun heq => .inr heq.1, fun hsafe => ⟨hsafe.resolve_left hrd, hmem⟩⟩
  · obtain ⟨hexc, hregs, hmem⟩ := hr.unknown_word h hctl
    rw [if_neg hop]
    by_cases hover : checkSoverflow t₀.core.idEx.rsValue t₀.core.idEx.rtValue
    · rw [hexc, addException, if_pos hover]
      simp [hover]
    · have hnone : t₂.core.memWb.exception = .none := hexc.trans (if_neg hover)
      exact ⟨fun _ => hover, fun _ => .inr ⟨hnone, (hregs hnone).2, (hregs hnone).1, hmem⟩⟩

end Unknown

/-- `LUI $1, 0x7FFF` and a word behind it, at the start of kseg0. -/
def unknownMem (inst : Word) : Mmu :=
  imageMem 1024 ([0x3C, 0x01, 0x7F, 0xFF] ++ setBigWord inst)

/-- Opcode 0x3F on two zeros does nothing. -/
theorem noHiddenEffect_iff_opcode : ∃ t₀ t₁ t₂ mem, Retires t₀ t₁ t₂ mem ∧
    unimplemented t₀.core.idEx.inst ∧ NoHiddenEffect t₁ t₂ := by
  obtain ⟨t₀, t₁, t₂, hrun, hinst, hsafe⟩ : ∃ t₀ t₁ t₂,
      RetiresFromBoot 3 (unknownMem 0xFC000000#32) t₀ t₁ t₂ ∧ t₀.core.idEx.inst = 0xFC000000#32 ∧
      UnknownSafe t₀.core.idEx t₀.core.exMem.aluRes t₂.core.regs :=
    ⟨_, _, _, ⟨rfl, rfl, rfl, ⟨rfl, rfl⟩, by decide, by decide⟩, rfl,
      fun h : checkSoverflow 0#32 0#32 => absurd h (by decide)⟩
  have hr := hrun.retires
  have h : unimplemented t₀.core.idEx.inst := by
    rw [hinst]
    trivial
  exact ⟨t₀, t₁, t₂, _, hr, h, (noHiddenEffect_iff hr h).mpr hsafe⟩

/-- An unknown function writes the result of the `LUI` before it to its `rd`, and an unknown opcode
raises an overflow. -/
theorem not_noHiddenEffect :
    (∃ t₀ t₁ t₂ mem, Retires t₀ t₁ t₂ mem ∧ t₀.core.idEx.inst = 0x0000103F#32 ∧
      unimplemented t₀.core.idEx.inst ∧ t₂.core.regs 2 = 0 ∧
      (interpretWb t₂.core).1.regs 2 = 0x7FFF0000#32 ∧ ¬ NoHiddenEffect t₁ t₂) ∧
    ∃ t₀ t₁ t₂ mem, Retires t₀ t₁ t₂ mem ∧ t₀.core.idEx.inst = 0xFC210000#32 ∧
      unimplemented t₀.core.idEx.inst ∧ t₂.core.memWb.exception = .arithmeticOverflow ∧
      ¬ NoHiddenEffect t₁ t₂ := by
  constructor
  · obtain ⟨t₀, t₁, t₂, hrun, hinst, hexc, hold, hnew⟩ : ∃ t₀ t₁ t₂,
        RetiresFromBoot 3 (unknownMem 0x0000103F#32) t₀ t₁ t₂ ∧ t₀.core.idEx.inst = 0x0000103F#32 ∧
        t₂.core.memWb.exception = .none ∧ t₂.core.regs 2 = 0 ∧
        (interpretWb t₂.core).1.regs 2 = 0x7FFF0000#32 :=
      ⟨_, _, _, ⟨rfl, rfl, rfl, ⟨rfl, rfl⟩, by decide, by decide⟩, rfl, by decide, by decide, by decide⟩
    have hr := hrun.retires
    have h : unimplemented t₀.core.idEx.inst := by
      rw [hinst]
      trivial
    refine ⟨t₀, t₁, t₂, _, hr, hinst, h, hold, hnew, ?_⟩
    rintro (hres | ⟨-, hregs, -⟩)
    · rw [hexc] at hres
      cases hres
    · rw [hregs, hold] at hnew
      exact absurd hnew (by decide)
  · obtain ⟨t₀, t₁, t₂, hrun, hinst, hexc⟩ : ∃ t₀ t₁ t₂,
        RetiresFromBoot 3 (unknownMem 0xFC210000#32) t₀ t₁ t₂ ∧ t₀.core.idEx.inst = 0xFC210000#32 ∧
        t₂.core.memWb.exception = .arithmeticOverflow :=
      ⟨_, _, _, ⟨rfl, rfl, rfl, ⟨rfl, rfl⟩, by decide, by decide⟩, rfl, by decide⟩
    have hr := hrun.retires
    have h : unimplemented t₀.core.idEx.inst := by
      rw [hinst]
      trivial
    refine ⟨t₀, t₁, t₂, _, hr, hinst, h, hexc, ?_⟩
    rintro (hres | ⟨hnone, -⟩)
    · rw [hexc] at hres
      cases hres
    · rw [hexc] at hnone
      cases hnone

end MipsSim
