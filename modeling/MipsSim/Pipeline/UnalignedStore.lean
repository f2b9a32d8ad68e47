import MipsSim.Pipeline.UnalignedLoad

/-!
# Unaligned stores

The pair of stores for a word at any address, one behind the other, and what a pair of loads makes
of the memory that it leaves.
-/

namespace MipsSim

open ByteStore Run

/-! ### The pair of stores in the pipeline -/

/-- The part of a pair of stores from EX of the first one, `p`, in the tick from `t₀` to MEM of the
second one in the tick to `t₂`: one behind the other, with `a` in the base register and `x` in the
register that they store once all older instructions are written back. -/
structure StorePair (p : Half) (t₀ t t₁ t₂ : Tracked) (a x : Word) : Prop where
  first : Advances t₀ t
  second : Advances t t₁
  third : Advances t₁ t₂
  isStore : p.IsStore t₀.core.idEx.inst
  isStore_other : p.other.IsStore t.core.idEx.inst
  rt_eq : getRt t.core.idEx.inst = getRt t₀.core.idEx.inst
  rs_eq : getRs t.core.idEx.inst = getRs t₀.core.idEx.inst
  base : (interpretWb t.core).1.regs (getRs t₀.core.idEx.inst) = a
  value : (interpretWb t.core).1.regs (getRt t₀.core.idEx.inst) = x

section Store

variable {t t' : Tracked} (h : Reachable t) (hp : Advances t t') {p : Half} {a : Word}
  (hst : p.IsStore t.core.exMem.inst)

include h hst

lemma exMem_of_isStore : t.core.exMem.cMemRead = false ∧ t.core.exMem.cMemWrite = true ∧
    t.core.exMem.cRegWrite = false := by
  rcases h.pipeOk.exMem_ok with hempty | hexec
  · exact absurd hempty.inst_eq hst.ne.1
  · rw [hexec.memRead_eq, hexec.memWrite_eq, hexec.regWrite_eq, hst.control]
    exact ⟨rfl, rfl, rfl⟩

include hp

/-- MEM of a store of the pair. -/
lemma Advances.store (hres : t.core.exMem.aluRes = a + BitVec.ofNat 32 p.disp)
    (hexc : t.core.exMem.exception = .none) (hin : InKseg0 t.mem a 4) :
    t'.mem.pmem = p.stored ((interpretWb t.core).1.regs (getRt t.core.exMem.inst)) t.mem.pmem
        (kseg0Offset a) ∧
      InKseg0 t'.mem a 4 ∧ (interpretWb t'.core).1.regs = t'.core.regs := by
  obtain ⟨hread, hwrite, hreg⟩ := exMem_of_isStore h hst
  obtain ⟨regs, cp0, e, readData, badVAddr, mem₁, inst, trace, hwb, hstep, hcore, hmem⟩ := hp.step h
  have hok := @memStore_half (t.core.withRegs regs cp0) t.mem a p hin hst hres
  have hstore := hok.symm.trans (hstep.of_store hexc hread hwrite)
  rw [Except.ok.injEq, Prod.mk.injEq] at hstore
  obtain ⟨rfl, rfl⟩ := hstore
  have hmemWb := congrArg Core.memWb hcore
  rw [Core.next_memWb] at hmemWb
  have hcommits : t'.core.memWb.commits := by
    rw [hmemWb]
    exact ⟨hst.ne.2, rfl⟩
  have hnone : t'.core.memWb.cRegWrite = false := by
    rw [hmemWb]
    exact hreg
  refine ⟨?_, ?_, ?_⟩
  · rw [hmem, hwb]
    rfl
  · rw [hmem]
    exact hin
  · rw [interpretWb_of_commits hcommits]
    simp [commitRegs, hnone]

end Store

/-- The only operand of a store that comes through the pipeline is its base. -/
lemma Half.IsStore.usesRs {p : Half} {inst : Word} (h : p.IsStore inst) : usesRs inst = true := by
  have hop := h.opcode
  cases p <;> simp [MipsSim.usesRs, hop]

/-- A store writes no register, of either file. -/
lemma Half.IsStore.not_writesNum {p : Half} {inst : Word} (h : p.IsStore inst) (r : ℕ) :
    ¬ writesNum inst r := by
  rintro ⟨hw, -⟩
  rw [h.control] at hw
  cases hw

section Pair

variable {p : Half} {t₀ t t₁ t₂ : Tracked} {a x : Word} (hrun : StorePair p t₀ t t₁ t₂ a x)
  (h : Reachable t₀)

include hrun h

lemma StorePair.rsValue (hset : t₀.BaseSettled a) : t₀.core.idEx.rsValue = a := by
  refine (rsValue_eq_iff_baseSettled h hrun.first hrun.second hrun.third.finished
    hrun.isStore.usesRs ?_).mpr hset
  rw [hrun.second.regs (hrun.first.reachable h)]
  exact hrun.base

/-- The second store is behind a store, so that nothing clashes. -/
lemma StorePair.rsValue_other : t.core.idEx.rsValue = a := by
  have hr := hrun.first.reachable h
  have hahead : t.core.exMem.inst = t₀.core.idEx.inst := hrun.first.exMem_inst h
  have hno := hrun.isStore.not_writesNum
  rw [hr.rsValue_eq hrun.isStore_other.usesRs, hahead, if_neg fun hc => hno _ hc.1.1, gprAfter,
    hahead, if_neg fun hw => hno _ hw.1, hrun.rs_eq]
  have hbase := hrun.base
  rw [interpretWb_of_commits (hrun.second.commits hr hrun.third.finished)] at hbase
  exact hbase

/-- What the pair does to memory. -/
lemma StorePair.pmem_eq (hset : t₀.BaseSettled a) (hin : InKseg0 t.mem a 4) :
    t₂.mem.pmem = p.other.stored x (p.stored x t.mem.pmem (kseg0Offset a)) (kseg0Offset a) := by
  have hreach := hrun.first.reachable h
  have hreach₁ := hrun.second.reachable hreach
  have hctl := hrun.isStore.control
  have hctl' := hrun.isStore_other.control
  obtain ⟨hinst, hres, hexc⟩ := hrun.first.exMem h (by rw [hctl]) (by rw [hctl]) hrun.isStore.2
    (hrun.rsValue h hset) hin.1
  obtain ⟨hinst₁, hres₁, hexc₁⟩ := hrun.second.exMem hreach (by rw [hctl']) (by rw [hctl'])
    hrun.isStore_other.2 (hrun.rsValue_other h) hin.1
  obtain ⟨hmem, hin₁, hregs⟩ := hrun.second.store hreach (by rw [hinst]; exact hrun.isStore) hres
    hexc hin
  obtain ⟨hmem₁, -, -⟩ := hrun.third.store hreach₁ (by rw [hinst₁]; exact hrun.isStore_other) hres₁
    hexc₁ hin₁
  have hvalue : (interpretWb t₁.core).1.regs (getRt t₁.core.exMem.inst) = x := by
    rw [hregs, hrun.second.regs hreach, hinst₁, hrun.rt_eq]
    exact hrun.value
  rw [hmem₁, hvalue, hmem, hinst, hrun.value]

end Pair

/-! ### Unaligned stores -/

/-- What a pair of stores promises: the four bytes from `a` on hold `x` in big-endian order, every
other byte is what it was, and a pair of loads at `a` that finds this memory reads `x`. -/
structure StoresUnaligned (t t₂ : Tracked) (a x : Word) : Prop where
  memory : t₂.mem.pmem = writeBlock t.mem.pmem (kseg0Offset a) (toBigEndian 4 x.toNat)
  reads_back : ∀ q s mem k rd base, HalfLoad q s mem a rd → (s 0).BaseSettled a →
    Completed q s mem k a rd base → rd ≠ 0 →
    (∀ j ≤ 3, (mem 1).pmem (kseg0Offset a + j) = t₂.mem.pmem (kseg0Offset a + j)) →
    (s (k + 3)).core.regs rd = x

/-- The pair stores a word right exactly when memory makes up for the slips, if its base is
settled. -/
theorem storesUnaligned_iff {p : Half} {t₀ t t₁ t₂ : Tracked} {a x : Word} (h : Reachable t₀)
    (hrun : StorePair p t₀ t t₁ t₂ a x) (hset : t₀.BaseSettled a) (hin : InKseg0 t.mem a 4) :
    StoresUnaligned t t₂ a x ↔ StoreHarmless x t.mem.pmem (kseg0Offset a) := by
  have hcode : toBigEndian 4 x.toNat = setBigWord x := (setBig_eq .word x).symm
  rw [← Half.stored_other_iff p, ← hrun.pmem_eq h hset hin]
  constructor
  · intro hstores
    rw [← hcode]
    exact hstores.memory
  · intro hmem
    refine ⟨by rw [hcode]; exact hmem, ?_⟩
    intro q s mem k rd base hload hset' hc hrd hsame
    rw [hc.regs_eq hload hset' hrd]
    apply eq_of_byteAt_eq
    intro j hj
    have hbyte := byteAt_getBigWord t₂.mem.pmem (kseg0Offset a) hj
    rw [hmem, getBigWord_writeBlock, ← hmem] at hbyte
    rw [byteAt_getBigWord _ _ hj, hsame j hj, hbyte]

/-- Code that stores `$2` at 0x80000040 and loads it to `$3`: `LUI` and `ORI` for the address in
`$1` and for the value, then `SWL`, `SWR`, `LWL` and `LWR`. -/
def unalignedMem (high low : BitVec 16) : Mmu :=
  imageMem 1024 [0x3C, 0x01, 0x80, 0, 0x34, 0x21, 0, 0x40,
    0x3C, 0x02, (high >>> 8).setWidth 8, high.setWidth 8,
    0x34, 0x42, (low >>> 8).setWidth 8, low.setWidth 8,
    0xA8, 0x22, 0, 0, 0xB8, 0x22, 0, 3, 0x88, 0x23, 0, 0, 0x98, 0x23, 0, 3]

/-- The states of its run for a value with equal outer bytes, from EX of the `SWL` on. -/
def storePairRun (i : ℕ) : Tracked := runAfter (unalignedMem 0x1100 0x0011) 6 i

/-- The same from EX of the `LWL` on. -/
def readBackRun (i : ℕ) : Tracked := runAfter (unalignedMem 0x1100 0x0011) 8 i

lemma advances_storePairRun {i : ℕ} (hi : i < 3) :
    Advances (storePairRun i) (storePairRun (i + 1)) :=
  @advances_runAfter _ 6 3 ⟨_, rfl, rfl⟩ (by decide) i hi

lemma advances_readBackRun {i : ℕ} (hi : i < 5) :
    Advances { readBackRun i with mem := (readBackRun i).mem } (readBackRun (i + 1)) :=
  @advances_runAfter _ 8 5 ⟨_, rfl, rfl⟩ (by decide) i hi

lemma storePair_storePairRun :
    StorePair .left (storePairRun 0) (storePairRun 1) (storePairRun 2) (storePairRun 3)
      0x80000040#32 0x11000011#32 where
  first := @advances_storePairRun 0 (by decide)
  second := @advances_storePairRun 1 (by decide)
  third := @advances_storePairRun 2 (by decide)
  isStore := by decide
  isStore_other := by decide
  rt_eq := by decide
  rs_eq := by decide
  base := by decide
  value := by decide

lemma halfLoad_readBackRun :
    HalfLoad .left readBackRun (fun i => (readBackRun i).mem) 0x80000040#32 3 where
  reachable := @reachable_runAfter _ 8 5 ⟨_, rfl, rfl⟩
  advances := fun i hi => advances_readBackRun (by omega)
  isLoad := by decide
  rt_eq := by decide
  base_eq := by decide
  inKseg0 := by decide

lemma completed_readBackRun :
    Completed .left readBackRun (fun i => (readBackRun i).mem) 2 0x80000040#32 3 1 where
  advances := fun i hi => advances_readBackRun (by omega)
  pos := by decide
  isLoad := by decide
  rt_eq := by decide
  rs_eq := by decide
  rs_eq_first := by decide
  rt_ne := by decide
  between := by
    intro i hlo hhi
    obtain rfl : i = 1 := by omega
    decide
  inKseg0 := by decide
  bytes := fun j hj => rfl

/-- A value with equal outer bytes, stored at an aligned address of a memory of zeros and read back.
-/
theorem storesUnaligned_iff_symmetric :
    StoresUnaligned (storePairRun 1) (storePairRun 3) 0x80000040#32 0x11000011#32 ∧
      (readBackRun 5).core.regs 3 = 0x11000011#32 := by
  have hreach : Reachable (storePairRun 0) := @reachable_runAfter _ 6 3 ⟨_, rfl, rfl⟩
  have hstores := (storesUnaligned_iff hreach storePair_storePairRun (by decide)
    (by decide)).mpr ⟨rfl, rfl, rfl⟩
  have hsame : ∀ j ≤ 3, (readBackRun 1).mem.pmem (kseg0Offset 0x80000040#32 + j) =
      (storePairRun 3).mem.pmem (kseg0Offset 0x80000040#32 + j) := fun j hj => rfl
  exact ⟨hstores, hstores.reads_back _ _ _ _ _ _ halfLoad_readBackRun (by decide)
    completed_readBackRun (by decide) hsame⟩

lemma run_unalignedMem_swapped : ∃ t₀ t t₁ t₂,
    iterate Tracked.tick 6 (.boot (unalignedMem 0x1122 0x3344)) = .ok t₀ ∧ t₀.finished = false ∧
    StorePair .left t₀ t t₁ t₂ 0x80000040#32 0x11223344#32 ∧ t₀.BaseSettled 0x80000040#32 ∧
    InKseg0 t.mem 0x80000040#32 4 ∧ readBlock t₂.mem.pmem 64 4 = [0x44, 0, 0, 0x11] :=
  ⟨_, _, _, _, rfl, rfl,
    ⟨⟨rfl, by decide, rfl⟩, ⟨rfl, by decide, rfl⟩, ⟨rfl, by decide, rfl⟩, by decide, by decide,
      by decide, by decide, rfl, rfl⟩, by decide, by decide, rfl⟩

/-- At an aligned address the pair stores the outer bytes the wrong way round and leaves the other
two. -/
theorem not_storesUnaligned_swapped : ∃ t₀ t t₁ t₂, Reachable t₀ ∧
    StorePair .left t₀ t t₁ t₂ 0x80000040#32 0x11223344#32 ∧ t₀.BaseSettled 0x80000040#32 ∧
    InKseg0 t.mem 0x80000040#32 4 ∧ readBlock t₂.mem.pmem 64 4 = [0x44, 0, 0, 0x11] ∧
    ¬ StoresUnaligned t t₂ 0x80000040#32 0x11223344#32 := by
  obtain ⟨t₀, t, t₁, t₂, hboot, hfin, hrun, hset, hin, hbytes⟩ := run_unalignedMem_swapped
  refine ⟨t₀, t, t₁, t₂, (reachable_boot _).iterate hboot hfin, hrun, hset, hin, hbytes, ?_⟩
  intro hstores
  rw [hstores.memory] at hbytes
  have hread := readBlock_writeBlock_self t.mem.pmem 64 (toBigEndian 4 (0x11223344#32).toNat)
  exact absurd (hread.symm.trans hbytes) (by decide)

end MipsSim
