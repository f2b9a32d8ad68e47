import MipsSim.Pipeline.DelaySlot
import MipsSim.Memory.Readback

/-!
# The end of a run

`interpret_wb` ends the run at a `SYSCALL` with 10 in `$v0`. It returns at once, without emptying the
pipeline, and the tick goes on: MEM still makes the access of the word behind the `SYSCALL`. What the
run leaves is what the instructions before the `SYSCALL` have done, as long as this access does
nothing.
-/

namespace MipsSim

open Run

/-! ### Accesses that do nothing -/

/-- MEM of the word in `EX_MEM` writes nothing and calls no device: it carries an exception, it makes no
access, or the access is a load at which no device is called, or a store from the descriptor area on
at which none is. -/
def ExMem.Harmless (exMem : ExMem) (mem : Mmu) : Prop :=
  exMem.exception ≠ .none ∨
    match getOpcode exMem.inst with
    | .lw | .lbu | .lhu => mem.called exMem.aluRes = []
    | .lwl | .lwr => mem.called (wordAddr exMem.aluRes) = []
    | .sw | .sb | .sh => ioDescriptorArea ≤ exMem.aluRes ∧ mem.called exMem.aluRes = []
    | .swl | .swr =>
      ioDescriptorArea ≤ wordAddr exMem.aluRes ∧ mem.called (wordAddr exMem.aluRes) = []
    | _ => True

section Harmless

variable {core : Core} {mem mem' : Mmu} {e : Exception}

lemma ExMem.Harmless.memLoad {readData x : Word} (hh : core.exMem.Harmless mem)
    (hexc : core.exMem.exception = .none) (h : memLoad core mem readData = .ok (e, x, mem')) :
    mem' = mem := by
  have hh := hh.resolve_left (not_not.mpr hexc)
  cases hop : getOpcode core.exMem.inst with
  | lw | lbu | lhu =>
    simp only [MipsSim.memLoad, hop] at h hh
    exact mmuRead_of_called_nil hh h
  | lwl | lwr =>
    simp only [MipsSim.memLoad, hop, bind_eq_ok, pure_eq_ok, Prod.exists, Prod.mk.injEq] at h hh
    obtain ⟨_, _, _, hread, -, -, rfl⟩ := h
    exact mmuRead_of_called_nil hh hread
  | _ =>
    simp only [MipsSim.memLoad, hop, pure_eq_ok, Prod.mk.injEq] at h
    exact h.2.2.symm

lemma ExMem.Harmless.memStore (hh : core.exMem.Harmless mem)
    (hexc : core.exMem.exception = .none) (h : memStore core mem = .ok (e, mem')) : mem' = mem := by
  have hh := hh.resolve_left (not_not.mpr hexc)
  cases hop : getOpcode core.exMem.inst with
  | sw | sb | sh =>
    simp only [MipsSim.memStore, hop] at h hh
    exact mmuWrite_of_called_nil hh.1 hh.2 h
  | swl | swr =>
    simp only [MipsSim.memStore, hop, bind_eq_ok, Prod.exists] at h hh
    obtain ⟨_, _, mem₁, hread, h⟩ := h
    obtain rfl := mmuRead_of_called_nil hh.2 hread
    exact mmuWrite_of_called_nil hh.1 hh.2 h
  | _ =>
    simp only [MipsSim.memStore, hop, pure_eq_ok, Prod.mk.injEq] at h
    exact h.2.symm

lemma MemStep.of_harmless {readData badVAddr : Word}
    (h : MemStep core mem e readData badVAddr mem') (hh : core.exMem.Harmless mem) : mem' = mem := by
  cases h with
  | carried h => rfl
  | load hexc _ hload => exact hh.memLoad hexc hload
  | store hexc _ _ hstore => exact hh.memStore hexc hstore
  | plain h hread hwrite => rfl

end Harmless

/-! ### The last tick -/

/-- What must be the case when the run ends in the tick from `t` to `t'`, with the `SYSCALL` `v` in
`MEM_WB`. -/
structure ExitsPrecisely (t t' : Tracked) (v : DynInst) : Prop where
  /-- Every instruction fetched earlier is through, or was discarded by an earlier exception. -/
  older_left : ∀ u < v.seq, Left t.log u
  /-- Nothing else has written a register, a CP0 register, memory or a device. -/
  writers_older : ∀ e ∈ t.log, ∀ u, e.writer = some u → u < v.seq
  /-- The last tick writes no register. -/
  regs_eq : t'.core.regs = t.core.regs
  cp0_eq : t'.core.cp0 = t.core.cp0
  /-- It writes neither memory nor a device. -/
  sameWrites : t.mem.SameWrites t'.mem
  /-- Its only access is the next fetch. -/
  fetch_only : ∃ inst, mmuRead t.mem t.core.fetchPc 0 .word = .ok (.none, inst, t'.mem)
  /-- It is the last one. -/
  finished : t'.finished = true

/-- The `SYSCALL` that ends the run is not a bubble. -/
lemma Reachable.exiting {t : Tracked} (h : Reachable t) (hx : t.core.exits) :
    ∃ v, t.memWb = some v := by
  cases hm : t.memWb with
  | some v => exact ⟨v, rfl⟩
  | none =>
    have hnone := h.pipeOk.memWb_nop (h.labelled.memWb_nop hm)
    rw [hx.2.1] at hnone
    cases hnone

/-- The tick in which the run ends. -/
lemma Reachable.last_tick {t t' : Tracked} (h : Reachable t) (hx : t.core.exits)
    (ht : t.tick = .ok t') (hh : t.core.exMem.Harmless t.mem) :
    ∃ v, t.memWb = some v ∧ ExitsPrecisely t t' v := by
  obtain ⟨v, hv⟩ := h.exiting hx
  have hc : ¬ t.core.memWb.commits := by
    intro hc
    have hnone := hc.2
    rw [hx.2.1] at hnone
    cases hnone
  obtain ⟨holder, hwriters⟩ := h.ordered.oldest hv hc
  obtain ⟨e, readData, badVAddr, mem₁, inst, mem', hstep, hread, rfl⟩ :=
    (Tracked.tick_eq_ok h.pipeOk).mp ht
  rw [interpretWb_of_exits hx] at hstep ⊢
  obtain rfl := hstep.of_harmless hh
  refine ⟨v, hv, holder, hwriters, ?_, ?_, (mmuRead_spec hread).2, ⟨inst, hread⟩, ?_⟩
  · rw [Tracked.record_core, Core.next_regs]
  · rw [Tracked.record_core, Core.next_cp0]
  · exact Bool.or_true _

/-- A run that ends while the access behind the `SYSCALL` does nothing ends precisely: all changes
before the last tick are writes of its log, these are by instructions before the `SYSCALL`, and the
last tick adds none. -/
theorem IsRun.exitsPrecisely {s : ℕ → Tracked} {n : ℕ} (h : IsRun s n) {mem : Mmu} {t' : Tracked}
    (hx : (s n).core.exits) (ht : ({ s n with mem := mem } : Tracked).tick = .ok t')
    (hh : (s n).core.exMem.Harmless mem) :
    (∀ i < n, ∃ mem, ({ s i with mem := mem } : Tracked).tick = .ok (s (i + 1)) ∧
      Explained { s i with mem := mem } (s (i + 1))) ∧
    ∃ v, (s n).memWb = some v ∧ ExitsPrecisely { s n with mem := mem } t' v := by
  constructor
  · intro i hi
    obtain ⟨-, mem, ht⟩ := h.tick i hi
    exact ⟨mem, ht, ((h.reachable (Nat.le_of_lt hi)).other mem).explained ht⟩
  · exact ((h.reachable (Nat.le_refl n)).other mem).last_tick hx ht hh

/-- `ADDIU $2, $0, 10; SYSCALL` at the start of kseg0. -/
def exitMem : Mmu := imageMem 1024 [0x24, 0x02, 0x00, 0x0A, 0x00, 0x00, 0x00, 0x0C]

/-- Behind the `SYSCALL` there are words of zeros. -/
theorem exitsPrecisely_exit : ∃ s mem t', IsRun s 5 ∧ (s 5).core.exits ∧
    ({ s 5 with mem := mem } : Tracked).tick = .ok t' ∧ t'.core.regs regV0 = 10#32 ∧
    ∃ v, (s 5).memWb = some v ∧ ExitsPrecisely { s 5 with mem := mem } t' v := by
  have hrun : IsRun (runFrom (.boot exitMem)) 5 := isRun_boot rfl rfl
  have hx : (runFrom (.boot exitMem) 5).core.exits := by decide
  have hh : (runFrom (.boot exitMem) 5).core.exMem.Harmless exitMem := .inr trivial
  obtain ⟨t', ht, hv0⟩ : ∃ t', ({ runFrom (.boot exitMem) 5 with mem := exitMem } : Tracked).tick =
      .ok t' ∧ t'.core.regs regV0 = 10#32 := ⟨_, rfl, by decide⟩
  exact ⟨_, exitMem, t', hrun, hx, ht, hv0, (hrun.exitsPrecisely hx ht hh).2⟩

/-- `LUI $1, 0x8000; ADDIU $2, $0, 10; SYSCALL; SW $2, 0x40($1)` at the start of kseg0. -/
def leakMem : Mmu := imageMem 1024
  [0x3C, 0x01, 0x80, 0x00, 0x24, 0x02, 0x00, 0x0A, 0x00, 0x00, 0x00, 0x0C, 0xAC, 0x22, 0x00, 0x40]

/-- The store behind the `SYSCALL` reaches the memory in the last tick. -/
theorem not_exitsPrecisely : ∃ t t', Reachable t ∧ t.finished = false ∧ t.core.exits ∧
    t.tick = .ok t' ∧ t'.finished = true ∧ t.mem.pmem 0x43 = 0 ∧ t'.mem.pmem 0x43 = 10 ∧
    ∀ v, ¬ ExitsPrecisely t t' v := by
  have hrun : ∃ t t', iterate Tracked.tick 6 (.boot leakMem) = .ok t ∧ t.finished = false ∧
      t.core.exits ∧ t.tick = .ok t' ∧ t'.finished = true ∧ t.mem.pmem 0x43 = 0 ∧
      t'.mem.pmem 0x43 = 10 := ⟨_, _, rfl, rfl, by decide, rfl, rfl, by decide, by decide⟩
  obtain ⟨t, t', hit, hfin, hx, ht, hfin', hbefore, hafter⟩ := hrun
  refine ⟨t, t', (reachable_boot leakMem).iterate hit hfin, hfin, hx, ht, hfin', hbefore, hafter, ?_⟩
  intro v h
  have hsame := congrFun h.sameWrites.1 0x43
  rw [hbefore, hafter] at hsame
  exact absurd hsame (by decide)

end MipsSim
