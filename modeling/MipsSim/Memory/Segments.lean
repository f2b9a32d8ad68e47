import MipsSim.Memory.Properties

/-!
# Populated segments

Which virtual addresses have memory behind them. The sizes that `mmu_init` gives to the segments
are compared with what the translation accepts, and the accesses to an address that it refuses with
what `mmu_read` and `mmu_write` promise.
-/

namespace MipsSim

open ByteStore

/-! ### Segments and their sizes -/

/-- The `*_VSTART` constants. -/
def Segment.vstart : Segment → ℕ
  | .kuseg => 0x00000000
  | .kseg0 => 0x80000000
  | .kseg1 => 0xA0000000
  | .kseg2 => 0xC0000000

/-- The sizes of the virtual segments, `KUSEG_SIZE` to `KSEG2_SIZE`. -/
def Segment.archSize : Segment → ℕ
  | .kuseg => 0x80000000
  | .kseg0 => 0x20000000
  | .kseg1 => 0x20000000
  | .kseg2 => 0x40000000

/-- The `size_*` members of `mmu_t`, the share of the memory that `mmu_init` gives to a segment. -/
def Mmu.scaledSize (mem : Mmu) : Segment → ℕ
  | .kuseg => mem.sizeKuseg.toNat
  | .kseg0 => mem.sizeKseg0.toNat
  | .kseg1 => mem.sizeKseg1.toNat
  | .kseg2 => (BitVec.ofNat 32 (mem.size / 4)).toNat

/-- The number of addresses at the start of a segment that should have memory behind them. -/
def Mmu.populated (mem : Mmu) (seg : Segment) : ℕ := min seg.archSize (mem.scaledSize seg)

/-- The `k`-th address of a segment. -/
def Segment.addr (seg : Segment) (k : ℕ) : Word := BitVec.ofNat 32 (seg.vstart + k)

/-- The populated addresses of the segment are accepted, and neighbours are neighbours in `pmem`. -/
structure Segment.Mapped (seg : Segment) (mem : Mmu) : Prop where
  accepted : ∀ k < mem.populated seg, (translate (seg.addr k) mem).isSome
  consecutive : ∀ k o, k + 1 < mem.populated seg → translate (seg.addr k) mem = some o →
    translate (seg.addr (k + 1)) mem = some (o + 1)

/-! ### What is mapped -/

lemma Segment.toNat_addr {seg : Segment} {k : ℕ} (h : k < seg.archSize) :
    (seg.addr k).toNat = seg.vstart + k := by
  rw [Segment.addr, BitVec.toNat_ofNat]
  cases seg <;> simp only [Segment.vstart, Segment.archSize] at h ⊢ <;> omega

lemma populated_kseg0_eq (mem : Mmu) : mem.populated .kseg0 = populatedKseg0 mem :=
  Nat.min_comm _ _

/-- Populated kseg0 is mapped for every memory size. -/
lemma mapped_kseg0 (mem : Mmu) : Segment.Mapped .kseg0 mem := by
  have htrans : ∀ k < mem.populated .kseg0, translate (Segment.addr .kseg0 k) mem = some k := by
    intro k hk
    have hsize : k < Segment.archSize .kseg0 := lt_of_lt_of_le hk (Nat.min_le_left _ _)
    have haddr := Segment.toNat_addr hsize
    simp only [Segment.vstart] at haddr
    have hin : InKseg0 mem (Segment.addr .kseg0 k) 1 := by
      rw [populated_kseg0_eq] at hk
      exact ⟨by omega, by omega⟩
    have hoff := kseg0Offset_add hin.1
    rw [translate_kseg0 hin Nat.one_pos, Option.some.injEq]
    omega
  refine ⟨?_, ?_⟩
  · intro k hk
    rw [htrans k hk]
    rfl
  · intro k o hk ho
    rw [htrans k (by omega), Option.some.injEq] at ho
    rw [htrans (k + 1) hk, ho]

/-- Above its first address kseg1 is translated to the first byte of `pmem`. -/
lemma translate_kseg1 {mem : Mmu} {k : ℕ} (hk : k < mem.populated .kseg1) :
    translate (Segment.addr .kseg1 k) mem = some 0 := by
  have hsize : k < Segment.archSize .kseg1 := lt_of_lt_of_le hk (Nat.min_le_left _ _)
  have hscaled : k < mem.sizeKseg1.toNat := lt_of_lt_of_le hk (Nat.min_le_right _ _)
  have haddr := Segment.toNat_addr hsize
  simp only [Segment.vstart, Segment.archSize] at haddr hsize
  have hoff : pmemOffset (Segment.addr .kseg1 k) = 0 := by
    unfold pmemOffset
    split_ifs with hle
    · rw [BitVec.le_def, haddr] at hle
      simp only [BitVec.toNat_ofNat] at hle
      omega
    · rfl
  have hbelow : Segment.addr .kseg1 k < ioDescriptorArea := by
    rw [BitVec.lt_def, haddr]
    simp only [ioDescriptorArea, BitVec.toNat_ofNat]
    omega
  rw [translate_eq_some_iff hbelow]
  refine ⟨?_, hoff⟩
  have hlow : ¬ Segment.addr .kseg1 k < 0x20000000#32 := by
    rw [BitVec.lt_def, haddr]
    simp only [BitVec.toNat_ofNat]
    omega
  rw [Accepted, if_neg hlow, hoff, mem.sizeKseg0_eq, ← mem.sizeKseg1_eq]
  omega

lemma mapped_kseg1_iff (mem : Mmu) : Segment.Mapped .kseg1 mem ↔ mem.populated .kseg1 ≤ 1 := by
  constructor
  · intro h
    by_contra hlt
    have hnext := h.consecutive 0 0 (by omega) (translate_kseg1 (by omega))
    rw [translate_kseg1 (by omega), Option.some.injEq] at hnext
    omega
  · intro hle
    refine ⟨?_, ?_⟩
    · intro k hk
      rw [translate_kseg1 hk]
      rfl
    · intro k o hk
      omega

/-- The low addresses of kuseg are tested against a bound that starts at `KUSEG_PSTART`, 512 MiB below
the physical addresses that they are given. -/
lemma translate_kuseg_low {mem : Mmu} {k : ℕ} (hk : k < 0x20000000) :
    (translate (Segment.addr .kuseg k) mem).isSome ↔ k + 0x40000000 < (kusegBound mem).toNat := by
  have haddr := @Segment.toNat_addr .kuseg k (by simp only [Segment.archSize]; omega)
  simp only [Segment.vstart, Nat.zero_add] at haddr
  have hlow : Segment.addr .kuseg k < 0x20000000#32 := by
    rw [BitVec.lt_def, haddr]
    exact hk
  rw [translate, translateVaddr_kuseg hlow, translatePaddr_kuseg mem hlow, haddr]
  split_ifs with h <;> simp [h]

lemma kusegBound_le (mem : Mmu) :
    (kusegBound mem).toNat ≤
      0x20000000 + mem.sizeKseg0.toNat + mem.sizeKseg1.toNat + mem.sizeKuseg.toNat := by
  simp only [kusegBound, kusegPstart, kseg1Pstart, kseg0Pstart, BitVec.toNat_add]
  refine (Nat.mod_le _ _).trans (Nat.add_le_add_right ?_ _)
  refine (Nat.mod_le _ _).trans (Nat.add_le_add_right ?_ _)
  exact Nat.mod_le _ _

/-- At the boundary of 512 MiB the translation of kuseg starts again from the first byte. -/
lemma translate_kuseg_middle {mem : Mmu} {o : ℕ}
    (h : translate (Segment.addr .kuseg 0x20000000) mem = some o) : o = 0 := by
  rw [translate_eq_some_iff (by decide)] at h
  rw [← h.2]
  decide

lemma mapped_kuseg_iff {size : ℕ} (hsize : size ≤ 2 ^ 32) :
    Segment.Mapped .kuseg (mmuInit size) ↔ size < 2 := by
  have hkseg0 : (mmuInit size).sizeKseg0.toNat = size / 8 := by
    simp only [mmuInit, BitVec.toNat_ofNat]
    omega
  have hkseg1 : (mmuInit size).sizeKseg1.toNat = size / 8 := by
    simp only [mmuInit, BitVec.toNat_ofNat]
    omega
  have hkuseg : (mmuInit size).sizeKuseg.toNat = size / 2 := by
    simp only [mmuInit, BitVec.toNat_ofNat]
    omega
  have hpop : (mmuInit size).populated .kuseg = min 0x80000000 (size / 2) := by
    simp only [Mmu.populated, Mmu.scaledSize, Segment.archSize, hkuseg]
  constructor
  · intro h
    by_contra hlt
    by_cases hbig : 0x20000000 < size / 2
    · -- the addresses reach the boundary, where the offset falls back to zero
      obtain ⟨o, ho⟩ := Option.isSome_iff_exists.mp (h.accepted 0x1FFFFFFF (by rw [hpop]; omega))
      have hnext := h.consecutive 0x1FFFFFFF o (by rw [hpop]; omega) ho
      exact absurd (translate_kuseg_middle hnext) (Nat.succ_ne_zero o)
    · have hlast := h.accepted (size / 2 - 1) (by rw [hpop]; omega)
      rw [translate_kuseg_low (by omega)] at hlast
      have hbound := kusegBound_le (mmuInit size)
      rw [hkseg0, hkseg1, hkuseg] at hbound
      omega
  · intro hlt
    refine ⟨?_, ?_⟩
    · intro k hk
      rw [hpop] at hk
      omega
    · intro k o hk
      rw [hpop] at hk
      omega

/-- Of the three segments with memory only kseg0 is mapped, unless the memory is so small that the
others have one byte or none. -/
theorem mapped_iff {size : ℕ} (hsize : size ≤ 2 ^ 32) {seg : Segment} (hseg : seg ≠ .kseg2) :
    seg.Mapped (mmuInit size) ↔
      seg = .kseg0 ∨ (seg = .kseg1 ∧ size < 16) ∨ (seg = .kuseg ∧ size < 2) := by
  cases seg with
  | kuseg => simpa using mapped_kuseg_iff hsize
  | kseg0 => simpa using mapped_kseg0 (mmuInit size)
  | kseg1 =>
    have hpop : (mmuInit size).populated .kseg1 = min 0x20000000 (size / 8) := by
      simp only [Mmu.populated, Mmu.scaledSize, Segment.archSize, mmuInit, BitVec.toNat_ofNat]
      omega
    rw [mapped_kseg1_iff, hpop]
    simp only [reduceCtorEq, false_and, or_false, false_or, true_and]
    omega
  | kseg2 => exact absurd rfl hseg

/-- Kseg0 at 512 MiB of memory. -/
theorem mapped_iff_kseg0 : Segment.Mapped .kseg0 (mmuInit 0x20000000) :=
  (mapped_iff (by decide) (by decide)).mpr (Or.inl rfl)

/-- With 512 MiB of memory the fifth byte of kuseg is refused although 256 MiB belong to kuseg. -/
theorem not_mapped_kuseg :
    4 < (mmuInit 0x20000000).populated .kuseg ∧
      translate (Segment.addr .kuseg 4) (mmuInit 0x20000000) = none ∧
      ¬ Segment.Mapped .kuseg (mmuInit 0x20000000) := by
  refine ⟨by decide, by decide, fun h => ?_⟩
  exact absurd (h.accepted 4 (by decide)) (by decide)

/-! ### Accesses to refused addresses -/

instance (mem : Mmu) (v : Word) : Decidable (Accepted mem v) :=
  inferInstanceAs (Decidable (ite _ _ _))

/-- The stored sizes of the segments are at most their shares of the memory: truncation only makes
them smaller. -/
lemma Mmu.segment_sizes_le (mem : Mmu) :
    mem.sizeKseg0.toNat ≤ mem.size / 8 ∧ mem.sizeKseg1.toNat ≤ mem.size / 8 ∧
      mem.sizeKuseg.toNat ≤ mem.size / 2 := by
  rw [mem.sizeKseg0_eq, mem.sizeKseg1_eq, mem.sizeKuseg_eq, BitVec.toNat_ofNat, BitVec.toNat_ofNat]
  exact ⟨Nat.mod_le _ _, Nat.mod_le _ _, Nat.mod_le _ _⟩

/-- An accepted address has a whole word of `pmem` behind it. -/
lemma Accepted.offset_add_le {mem : Mmu} {v : Word} (h : Accepted mem v) :
    pmemOffset v + 4 ≤ mem.size := by
  obtain ⟨hkseg0, hkseg1, hkuseg⟩ := mem.segment_sizes_le
  unfold Accepted at h
  split_ifs at h with hlow
  · have hbound := kusegBound_le mem
    have hoff : pmemOffset v ≤ v.toNat := by
      unfold pmemOffset
      split_ifs
      · exact Nat.mod_le _ _
      · exact Nat.zero_le _
    omega
  · omega

/-- What `mmu_read` and `mmu_write` promise of an address below the descriptor area: the access is
made inside `pmem` and raises nothing, or it is refused with the address error of its direction and
changes nothing. -/
structure ServedOrFaulted (mem : Mmu) (vaddr : Word) (opSize : MemOpSize) (src dst : Word) :
    Prop where
  read : (∃ aaddr, aaddr + opSize.bytes ≤ mem.size ∧
      mmuRead mem vaddr dst opSize = .ok (.none, getBig opSize mem.pmem aaddr, mem)) ∨
    mmuRead mem vaddr dst opSize = .ok (.addressErrorLoad, dst, mem)
  write : (∃ aaddr, aaddr + opSize.bytes ≤ mem.size ∧
      mmuWrite mem vaddr src opSize =
        .ok (.none, mem.withPmem (writeBlock mem.pmem aaddr (setBig opSize src)))) ∨
    mmuWrite mem vaddr src opSize = .ok (.addressErrorStore, mem)

/-- The promise is kept exactly at the addresses that the translation accepts. -/
theorem servedOrFaulted_iff {mem : Mmu} {vaddr : Word} (h : vaddr < ioDescriptorArea)
    (opSize : MemOpSize) (src dst : Word) :
    ServedOrFaulted mem vaddr opSize src dst ↔ Accepted mem vaddr := by
  constructor
  · intro hserved
    by_contra hacc
    -- a refused address is dereferenced, so that the call does not return
    have hnone : translate vaddr mem = none := by
      rw [Option.eq_none_iff_forall_not_mem]
      intro o ho
      exact hacc ((translate_eq_some_iff h).mp ho).1
    have hread := hserved.read
    rw [mmuRead_of_lt h, hnone] at hread
    simp at hread
  · intro hacc
    have htrans : translate vaddr mem = some (pmemOffset vaddr) :=
      (translate_eq_some_iff h).mpr ⟨hacc, rfl⟩
    have hin : pmemOffset vaddr + opSize.bytes ≤ mem.size := by
      have hword := hacc.offset_add_le
      have hbytes := opSize.bytes_le
      omega
    refine ⟨Or.inl ⟨pmemOffset vaddr, hin, ?_⟩, Or.inl ⟨pmemOffset vaddr, hin, ?_⟩⟩
    · rw [mmuRead_of_lt h, htrans]
      exact if_pos hin
    · rw [mmuWrite_of_lt h, htrans]
      exact if_pos hin

/-- The first word of kseg0 is served. -/
theorem servedOrFaulted_iff_kseg0 :
    ServedOrFaulted (mmuInit 64) 0x80000000#32 .word 1 0 :=
  (servedOrFaulted_iff (by decide) .word 1 0).mpr (by decide)

/-- A load from address 0 dereferences `NULL`. -/
theorem not_servedOrFaulted_zero :
    mmuRead (mmuInit 0x20000000) 0 0 .word = .error .nullPointer ∧
      ¬ ServedOrFaulted (mmuInit 0x20000000) 0 .word 0 0 := by
  have hread : mmuRead (mmuInit 0x20000000) 0 0 .word = .error .nullPointer := rfl
  refine ⟨hread, fun h => ?_⟩
  have hserved := h.read
  rw [hread] at hserved
  simp at hserved

/-! ### Accepted translations -/

/-- The bound of the kseg0 test, which may wrap around as well. -/
lemma kseg0Bound_le (mem : Mmu) :
    (kseg0Pstart + mem.sizeKseg0 + mem.sizeKseg1).toNat ≤
      0x20000000 + mem.sizeKseg0.toNat + mem.sizeKseg1.toNat := by
  simp only [kseg0Pstart, BitVec.toNat_add]
  refine (Nat.mod_le _ _).trans (Nat.add_le_add_right ?_ _)
  exact Nat.mod_le _ _

/-- Whatever the physical address, an offset that `translate_paddr` returns has a whole word of `pmem`
behind it, so that an access of any size at it stays inside. -/
theorem translatePaddr_add_le {mem : Mmu} {paddr : Word} {o : ℕ}
    (h : translatePaddr paddr mem = some o) :
    o + 4 ≤ mem.size ∧ ∀ opSize : MemOpSize, o + opSize.bytes ≤ mem.size := by
  obtain ⟨hkseg0, hkseg1, hkuseg⟩ := mem.segment_sizes_le
  have hword : o + 4 ≤ mem.size := by
    unfold translatePaddr at h
    split_ifs at h with hmapped hinKuseg hkusegOut hinKseg0 hkseg0Out hkseg1Out
    · -- kuseg: the bound starts 512 MiB below the addresses it is tested against
      have hbound := kusegBound_le mem
      have hlt : paddr.toNat < (kusegBound mem).toNat := by
        rw [ge_iff_le, BitVec.not_le] at hkusegOut
        exact hkusegOut
      have hlow : 0x40000000 ≤ paddr.toNat := hinKuseg
      rw [Option.some.injEq] at h
      have ho : o = paddr.toNat - 0x40000000 := by
        rw [← h]
        simp only [kseg1Pstart, kseg0Pstart, kusegPstart]
        bv_omega
      omega
    · have hbound := kseg0Bound_le mem
      have hlt : paddr.toNat < (kseg0Pstart + mem.sizeKseg0 + mem.sizeKseg1).toNat := by
        rw [ge_iff_le, BitVec.not_le] at hkseg0Out
        exact hkseg0Out
      have hlow : 0x20000000 ≤ paddr.toNat := hinKseg0
      rw [Option.some.injEq] at h
      have ho : o = paddr.toNat - 0x20000000 := by
        rw [← h]
        simp only [kseg1Pstart, kseg0Pstart]
        bv_omega
      omega
    · have hlt : paddr.toNat < mem.sizeKseg0.toNat := by
        rw [ge_iff_le, BitVec.not_le, kseg1Pstart, BitVec.zero_add] at hkseg1Out
        exact hkseg1Out
      rw [Option.some.injEq, kseg1Pstart, BitVec.sub_zero] at h
      omega
  refine ⟨hword, fun opSize => ?_⟩
  have hbytes := opSize.bytes_le
  omega

/-- The last byte that kseg0 maps of a memory of 15 bytes. -/
theorem translatePaddr_add_le_kseg0 :
    translatePaddr 0x20000001#32 (mmuInit 15) = some 1 ∧ 1 + 4 ≤ (mmuInit 15).size := by
  have h : translatePaddr 0x20000001#32 (mmuInit 15) = some 1 := by decide
  exact ⟨h, (translatePaddr_add_le h).1⟩

end MipsSim
