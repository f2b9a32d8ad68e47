import MipsSim.Pipeline.Retire
import MipsSim.Memory.Readback

/-!
# Loads in two runs

The destination of `mmu_read` in `LW`, `LBU` and `LHU` is `MEM_WB.read_data`, which still holds what
an earlier load has left there. Two runs that make the same load on the same memory are compared:
what they commit is the same exactly where `mmu_read` assigns its destination, and assigns it from
memory or a device rather than from what is behind the table of descriptors.
-/

namespace MipsSim

open Run

/-- The size that `LW`, `LBU` and `LHU` read. -/
def loadSize : Opcode → Option MemOpSize
  | .lw => some .word
  | .lbu => some .byte
  | .lhu => some .half
  | _ => none

/-- In this tick MEM makes a load of the given size at the given address into the given register. -/
structure Tracked.Loads (t : Tracked) (opSize : MemOpSize) (vaddr : Word) (rt : ℕ) : Prop where
  opcode : loadSize (getOpcode t.core.exMem.inst) = some opSize
  aluRes : t.core.exMem.aluRes = vaddr
  rt : getRt t.core.exMem.inst = rt
  exception : t.core.exMem.exception = .none
  not_flushes : ¬ t.core.flushes

/-- Which load it is, by its size. -/
lemma loadSize_eq_some {op : Opcode} {opSize : MemOpSize} (h : loadSize op = some opSize) :
    (op = .lw ∧ opSize = .word) ∨ (op = .lbu ∧ opSize = .byte) ∨ (op = .lhu ∧ opSize = .half) := by
  cases op <;> simp [loadSize] at h <;> simp [h]

section Loads

variable {t t' : Tracked} {opSize : MemOpSize} {vaddr : Word} {rt : ℕ}

lemma Tracked.Loads.memRead (h : t.Loads opSize vaddr rt) :
    (controlOf t.core.exMem.inst).memRead = true := by
  rcases loadSize_eq_some h.opcode with ⟨hop, -⟩ | ⟨hop, -⟩ | ⟨hop, -⟩ <;> simp [controlOf, hop]

/-- The load is one call of `mmu_read`. -/
lemma Tracked.Loads.memLoad_eq (h : t.Loads opSize vaddr rt) {core : Core}
    (hcore : core.exMem = t.core.exMem) (mem : Mmu) (readData : Word) :
    memLoad core mem readData = mmuRead mem vaddr readData opSize := by
  unfold memLoad
  rw [hcore, h.aluRes]
  rcases loadSize_eq_some h.opcode with ⟨hop, rfl⟩ | ⟨hop, rfl⟩ | ⟨hop, rfl⟩ <;> simp only [hop]

/-- What the load commits, in terms of what was left in `read_data` before it. -/
lemma Tracked.Loads.commits (h : t.Loads opSize vaddr rt) (hreach : Reachable t)
    (ht : t.tick = .ok t') :
    ∃ x mem₁, mmuRead t.mem vaddr t.core.memWb.readData opSize = .ok (.none, x, mem₁) ∧
      (interpretWb t'.core).1.regs rt = if rt = 0 then 0 else x := by
  obtain ⟨x, mem₁, trace, hload, -, hregs⟩ :=
    hreach.load_commits h.not_flushes ht h.memRead h.exception
  obtain ⟨regs, cp0, hwb⟩ := interpretWb_of_not_flushes h.not_flushes
  rw [hwb, @Tracked.Loads.memLoad_eq t opSize vaddr rt h (t.core.withRegs regs cp0) rfl] at hload
  refine ⟨x, mem₁, hload, ?_⟩
  rw [hregs, h.rt, setReg_self]

end Loads

/-- What a read of this size at this address gives depends on the memory and the devices alone. -/
structure MemoryOnly (mem : Mmu) (vaddr : Word) (opSize : MemOpSize) : Prop where
  /-- Below the register area nothing is read from outside the machine's memory and its table. -/
  inside : vaddr < ioRegisterArea → ∀ dst, mmuRead mem vaddr dst opSize ≠ .error .outOfBounds
  /-- `mmu_read` leaves the same value in `*dst`, whatever was there before. -/
  read : ∀ dst dst' x x' mem₁ mem₂, mmuRead mem vaddr dst opSize = .ok (.none, x, mem₁) →
    mmuRead mem vaddr dst' opSize = .ok (.none, x', mem₂) → x = x'
  /-- In any two runs the same load commits the same value. -/
  load : ∀ rt t₁ t₂ t₁' t₂', Reachable t₁ → Reachable t₂ → t₁.mem = mem → t₂.mem = mem →
    t₁.Loads opSize vaddr rt → t₂.Loads opSize vaddr rt → t₁.tick = .ok t₁' → t₂.tick = .ok t₂' →
    (interpretWb t₁'.core).1.regs rt = (interpretWb t₂'.core).1.regs rt

/-- Two runs agree on a load as soon as two calls of `mmu_read` do. -/
lemma load_eq_of_read {mem : Mmu} {vaddr : Word} {opSize : MemOpSize}
    (h : ∀ dst dst' x x' mem₁ mem₂, mmuRead mem vaddr dst opSize = .ok (.none, x, mem₁) →
      mmuRead mem vaddr dst' opSize = .ok (.none, x', mem₂) → x = x') {rt : ℕ}
    {t₁ t₂ t₁' t₂' : Tracked} (hr₁ : Reachable t₁) (hr₂ : Reachable t₂) (hm₁ : t₁.mem = mem)
    (hm₂ : t₂.mem = mem) (hl₁ : t₁.Loads opSize vaddr rt) (hl₂ : t₂.Loads opSize vaddr rt)
    (ht₁ : t₁.tick = .ok t₁') (ht₂ : t₂.tick = .ok t₂') :
    (interpretWb t₁'.core).1.regs rt = (interpretWb t₂'.core).1.regs rt := by
  obtain ⟨x₁, mem₁, hread₁, hregs₁⟩ := hl₁.commits hr₁ ht₁
  obtain ⟨x₂, mem₂, hread₂, hregs₂⟩ := hl₂.commits hr₂ ht₂
  rw [hm₁] at hread₁
  rw [hm₂] at hread₂
  rw [hregs₁, hregs₂, h _ _ _ _ _ _ hread₁ hread₂]

/-- Loads depend on the memory and the devices alone exactly where `mmu_read` assigns its
destination, in the register area by a device, and does not read behind the table of descriptors. -/
theorem memoryOnly_iff {mem : Mmu} {vaddr : Word} {opSize : MemOpSize}
    (hdev : ∀ dev ∈ mem.devices, dev.Assigns ∨ dev.Keeps) :
    MemoryOnly mem vaddr opSize ↔ mem.AssignsDst vaddr ∧ InTable vaddr opSize := by
  constructor
  · intro h
    constructor
    · by_contra hnot
      -- two calls with different old values give these back
      obtain ⟨mem₁, hread₁⟩ := mmuRead_of_not_assignsDst hdev hnot opSize 0
      obtain ⟨mem₂, hread₂⟩ := mmuRead_of_not_assignsDst hdev hnot opSize 1
      have heq := h.read _ _ _ _ _ _ hread₁ hread₂
      exact absurd heq (by decide)
    · by_contra hnot
      have hlt : vaddr < ioRegisterArea := by
        by_contra hge
        exact hnot fun _ hlt => absurd hlt hge
      exact h.inside hlt 0 ((mmuRead_outOfBounds_iff hlt 0 opSize).mpr hnot)
  · rintro ⟨h, hin⟩
    have hread : ∀ dst dst' x x' mem₁ mem₂, mmuRead mem vaddr dst opSize = .ok (.none, x, mem₁) →
        mmuRead mem vaddr dst' opSize = .ok (.none, x', mem₂) → x = x' := by
      intro dst dst' x x' mem₁ mem₂ h₁ h₂
      rw [mmuRead_of_assignsDst hdev h dst dst', h₂, Except.ok.injEq, Prod.mk.injEq,
        Prod.mk.injEq] at h₁
      exact h₁.2.1.symm
    refine ⟨?_, hread, ?_⟩
    · intro hlt dst hout
      exact (mmuRead_outOfBounds_iff hlt dst opSize).mp hout hin
    · intro rt t₁ t₂ t₁' t₂' hr₁ hr₂ hm₁ hm₂ hl₁ hl₂ ht₁ ht₂
      exact load_eq_of_read hread hr₁ hr₂ hm₁ hm₂ hl₁ hl₂ ht₁ ht₂

/-- The machine with the terminal behind the shutdown device. -/
def ttyMem : Mmu := mmuAddDevice (initIo (mmuInit 1024)) (some ttyDeviceCreate)

lemma assigns_or_keeps_ttyMem : ∀ dev ∈ ttyMem.devices, dev.Assigns ∨ dev.Keeps := by
  intro dev hdev
  simp only [ttyMem, initIo, mmuAddDevice, deviceDescriptorAdd_devices, List.mem_cons] at hdev
  rcases hdev with rfl | rfl | hnil
  · exact .inr (keeps_of_ttyDeviceRead rfl)
  · exact .inl (assigns_of_ioRead_none rfl)
  · cases hnil

/-- The start of kseg0 in that machine, and the last word of the table that can be read. -/
theorem memoryOnly_iff_kseg0 :
    MemoryOnly ttyMem 0x80000000#32 .word ∧ MemoryOnly ttyMem 0xFFFE3FFF#32 .word :=
  ⟨(memoryOnly_iff assigns_or_keeps_ttyMem).mpr ⟨.inl (by decide), by decide⟩,
    (memoryOnly_iff assigns_or_keeps_ttyMem).mpr ⟨.inl (by decide), by decide⟩⟩

/-- Two programs in one memory, with the shutdown device registered: at `0x80000000`
`LUI $1, 0xFFFF; LUI $2, 0x8000; LW $4, 0($2); LW $3, 0($1)`, and at `0x80000010`
`LUI $1, 0xFFFF; LW $3, 0($1)`. -/
def residueMem : Mmu := initIo (imageMem 1024
  [0x3C, 0x01, 0xFF, 0xFF, 0x3C, 0x02, 0x80, 0x00, 0x8C, 0x44, 0x00, 0x00, 0x8C, 0x23, 0x00, 0x00,
    0x3C, 0x01, 0xFF, 0xFF, 0x8C, 0x23, 0x00, 0x00])

/-- A core with cleared registers that starts at `pc`. -/
def residueStart (mem : Mmu) (pc : Word) : Tracked :=
  .start (.init (fun _ => 0) pc (fun _ => 0)) mem

/-- The run that loads the first word of the memory before it loads from `0xFFFF0000`. -/
lemma iterate_residueMem_first : ∃ t t',
    iterate Tracked.tick 6 (residueStart residueMem 0x80000000#32) = .ok t ∧ t.tick = .ok t' ∧
    t.finished = false ∧ t.mem = residueMem ∧
    t.Loads .word ioRegisterArea 3 ∧ (interpretWb t'.core).1.regs 3 = 0x3C01FFFF#32 := by
  rw [residueMem, initIo_eq rfl]
  exact ⟨_, _, rfl, rfl, rfl, rfl, ⟨rfl, by decide, by decide, rfl, by decide⟩, by decide⟩

/-- The run that loads from `0xFFFF0000` only. -/
lemma iterate_residueMem_second : ∃ t t',
    iterate Tracked.tick 4 (residueStart residueMem 0x80000010#32) = .ok t ∧ t.tick = .ok t' ∧
    t.finished = false ∧ t.mem = residueMem ∧
    t.Loads .word ioRegisterArea 3 ∧ (interpretWb t'.core).1.regs 3 = 0#32 := by
  rw [residueMem, initIo_eq rfl]
  exact ⟨_, _, rfl, rfl, rfl, rfl, ⟨rfl, by decide, by decide, rfl, by decide⟩, by decide⟩

/-- The shutdown device is the last of the list and is never called: of two programs that load from
its register, the one that has loaded before commits its earlier value again. -/
theorem not_memoryOnly : ¬ MemoryOnly residueMem ioRegisterArea .word := by
  intro h
  obtain ⟨t₁, t₁', hrun₁, ht₁, hfin₁, hmem₁, hl₁, hval₁⟩ := iterate_residueMem_first
  obtain ⟨t₂, t₂', hrun₂, ht₂, hfin₂, hmem₂, hl₂, hval₂⟩ := iterate_residueMem_second
  have hr₁ : Reachable t₁ := (Reachable.start _ _ _ _ rfl).iterate hrun₁ hfin₁
  have hr₂ : Reachable t₂ := (Reachable.start _ _ _ _ rfl).iterate hrun₂ hfin₂
  have heq := h.load _ _ _ _ _ hr₁ hr₂ hmem₁ hmem₂ hl₁ hl₂ ht₁ ht₂
  rw [hval₁, hval₂] at heq
  exact absurd heq (by decide)

end MipsSim
