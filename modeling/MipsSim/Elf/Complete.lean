import MipsSim.Elf.Properties

/-!
# Which files are accepted

The loader on segments that have a place in `pmem`: it does not fault, it writes to that place only,
and it returns `0` exactly when no entry of the table makes it stop. Of the well-formed files it
refuses those with a segment that has no bytes in the file.
-/

namespace MipsSim

open ByteStore Run

/-! ### Segments with a place in memory -/

/-- The block of `pmem` from `off` on is where the segment goes, and the data fit into it. -/
structure PHeader.Block (p : PHeader) (mem : Mmu) (off : ℕ) : Prop where
  start : translate p.pVaddr mem = some off
  filesz_le : p.pFilesz.toNat ≤ p.pMemsz.toNat
  inside : off + p.pMemsz.toNat ≤ mem.size

/-- The store after the block was filled: zeros first, then the data. -/
def PHeader.fill (p : PHeader) (f : List Byte) (off : ℕ) (m : ℕ → Byte) : ℕ → Byte :=
  writeBlock (writeBlock m off (List.replicate p.pMemsz.toNat 0)) off (segmentData f p)

lemma length_segmentData_le (f : List Byte) (p : PHeader) :
    (segmentData f p).length ≤ p.pFilesz.toNat := by
  rw [segmentData, List.length_take]
  exact Nat.min_le_left _ _

lemma store_eq_ok {mem : Mmu} {off : ℕ} {bs : List Byte} (h : off + bs.length ≤ mem.size) :
    mem.store (some off) bs = .ok (mem.withPmem (writeBlock mem.pmem off bs)) := by
  unfold Mmu.store
  by_cases hnil : bs = []
  · rw [if_pos hnil, hnil, writeBlock_nil, withPmem_pmem_self]
  · rw [if_neg hnil]
    exact if_pos h

/-- The return value for a segment: `fread` must return `1`. -/
lemma copySegment_of_block {f : List Byte} {o off : ℕ} {p : PHeader} {mem : Mmu}
    (h : p.Block mem off) :
    copySegment ⟨f, o⟩ p mem =
      .ok (if p.pFilesz.toNat ≠ 0 ∧ p.pOffset.toNat + p.pFilesz.toNat ≤ f.length then none
        else some .ioError, mem.withPmem (p.fill f off mem.pmem)) := by
  have hzero : off + (List.replicate p.pMemsz.toNat (0 : Byte)).length ≤ mem.size := by
    rw [List.length_replicate]
    exact h.inside
  have hdata : off + (segmentData f p).length ≤ mem.size :=
    (Nat.add_le_add_left ((length_segmentData_le f p).trans h.filesz_le) off).trans h.inside
  have hok : (Stream.mk f p.pOffset.toNat).freadOk p.pFilesz.toNat ↔
      p.pFilesz.toNat ≠ 0 ∧ p.pOffset.toNat + p.pFilesz.toNat ≤ f.length := by
    by_cases hz : p.pFilesz.toNat = 0
    · simp [Stream.freadOk, hz]
    · rw [freadOk_iff hz]
      simp [hz]
  have hread : (Stream.mk f p.pOffset.toNat).fread p.pFilesz.toNat = segmentData f p := rfl
  simp only [copySegment, h.start, store_eq_ok hzero, Stream.fseek, bind, Except.bind, hread]
  rw [store_eq_ok (by exact hdata)]
  simp only [Mmu.withPmem_withPmem, Mmu.withPmem_pmem, hok]
  split_ifs <;> rfl

/-- The entry does not stop the loader. -/
def EntryAccepted (f : List Byte) (o : ℕ) : Prop :=
  EntryOk f o ∧ ((phdrAt f o).pType = ptLoad → (phdrAt f o).pFilesz.toNat ≠ 0)

/-- A cell outside the block keeps its content. -/
lemma PHeader.fill_of_notMem {p : PHeader} {f : List Byte} {off i : ℕ} {m : ℕ → Byte}
    (hle : p.pFilesz.toNat ≤ p.pMemsz.toNat) (h : ∀ j < p.pMemsz.toNat, i ≠ off + j) :
    p.fill f off m i = m i := by
  have hout : ¬ (off ≤ i ∧ i < off + p.pMemsz.toNat) := by
    rintro ⟨hlow, hhigh⟩
    exact h (i - off) (by omega) (by omega)
  have hdata := length_segmentData_le f p
  rw [PHeader.fill, writeBlock_of_notMem (by omega), writeBlock_of_notMem (by simpa using hout)]

/-- One entry whose segment, if it is loaded, has its place in `S`. -/
lemma copyCurSegmentAux_of_block {f : List Byte} {o : ℕ} {mem : Mmu} {S : ℕ → Prop}
    (hblock : o + 24 ≤ f.length → (phdrAt f o).pType = ptLoad →
      ∃ off, (phdrAt f o).Block mem off ∧ ∀ j < (phdrAt f o).pMemsz.toNat, S (off + j)) :
    ∃ r m, copyCurSegmentAux ⟨f, o⟩ mem = .ok (r, mem.withPmem m) ∧
      (r = none ↔ EntryAccepted f o) ∧ ∀ i, ¬ S i → m i = mem.pmem i := by
  rw [copyCurSegmentAux_eq]
  by_cases hfit : o + 24 ≤ f.length
  swap
  · rw [if_neg hfit]
    refine ⟨_, mem.pmem, rfl, ?_, fun _ _ => rfl⟩
    simp only [reduceCtorEq, false_iff]
    exact fun hacc => hfit hacc.1.complete
  rw [if_pos hfit]
  by_cases hload : (phdrAt f o).pType = ptLoad
  · obtain ⟨off, hb, hS⟩ := hblock hfit hload
    have hskip : ¬ ((phdrAt f o).pType = ptNull ∨ (phdrAt f o).pType = ptNote ∨
        (phdrAt f o).pType = ptMipsAbiflags) := by
      rw [hload]
      decide
    rw [if_neg hskip, if_pos hload, copySegment_of_block hb]
    refine ⟨_, _, rfl, ?_, ?_⟩
    · constructor
      · intro hnone
        by_cases hin : (phdrAt f o).pFilesz.toNat ≠ 0 ∧
            (phdrAt f o).pOffset.toNat + (phdrAt f o).pFilesz.toNat ≤ f.length
        · exact ⟨⟨hfit, by simp [hload], fun _ => hin.2⟩, fun _ => hin.1⟩
        · rw [if_neg hin] at hnone
          cases hnone
      · rintro ⟨hok, hne⟩
        rw [if_pos ⟨hne hload, hok.data hload⟩]
    · intro i hi
      apply PHeader.fill_of_notMem hb.filesz_le
      rintro j hj rfl
      exact hi (hS j hj)
  · by_cases hskip : (phdrAt f o).pType = ptNull ∨ (phdrAt f o).pType = ptNote ∨
        (phdrAt f o).pType = ptMipsAbiflags
    · rw [if_pos hskip]
      refine ⟨_, mem.pmem, rfl, iff_of_true rfl ⟨⟨hfit, ?_, fun h => absurd h hload⟩,
        fun h => absurd h hload⟩, fun _ _ => rfl⟩
      simp only [List.mem_cons, List.not_mem_nil, or_false]
      tauto
    · rw [if_neg hskip, if_neg hload]
      refine ⟨_, mem.pmem, rfl, iff_of_false (by simp) ?_, fun _ _ => rfl⟩
      rintro ⟨hok, -⟩
      have hknown := hok.known
      simp only [List.mem_cons, List.not_mem_nil, or_false] at hknown
      tauto

/-- The loop over a table whose segments, as far as they are reached, have their places in `S`. -/
lemma copySegments_of_blocks {f : List Byte} {ehdr : Ehdr} {n o : ℕ} {mem : Mmu} {S : ℕ → Prop}
    (hblocks : ∀ k < n, (∀ j < k, EntryAccepted f (o + j * ehdr.ePhentsize.toNat)) →
      o + k * ehdr.ePhentsize.toNat + 24 ≤ f.length →
      (phdrAt f (o + k * ehdr.ePhentsize.toNat)).pType = ptLoad →
      ∃ off, (phdrAt f (o + k * ehdr.ePhentsize.toNat)).Block mem off ∧
        ∀ j < (phdrAt f (o + k * ehdr.ePhentsize.toNat)).pMemsz.toNat, S (off + j)) :
    ∃ r m, copySegments ehdr n ⟨f, o⟩ mem = .ok (r, mem.withPmem m) ∧
      (r = none ↔ ∀ k < n, EntryAccepted f (o + k * ehdr.ePhentsize.toNat)) ∧
      ∀ i, ¬ S i → m i = mem.pmem i := by
  induction n generalizing o mem with
  | zero =>
    exact ⟨none, mem.pmem, rfl, iff_of_true rfl fun k hk => absurd hk (Nat.not_lt_zero k),
      fun _ _ => rfl⟩
  | succ n ih =>
    have hfirst := hblocks 0 (Nat.succ_pos n) (fun j hj => absurd hj (Nat.not_lt_zero j))
    simp only [Nat.zero_mul, Nat.add_zero] at hfirst
    obtain ⟨r₁, m₁, haux, hnone₁, hkeep₁⟩ := copyCurSegmentAux_of_block hfirst
    cases r₁ with
    | some e =>
      refine ⟨some e, m₁, copySegments_succ_eq_ok.mpr (.inl ⟨e, haux, rfl⟩),
        iff_of_false (by simp) fun hall => ?_, hkeep₁⟩
      have hacc := hall 0 (Nat.succ_pos n)
      rw [Nat.zero_mul, Nat.add_zero] at hacc
      exact absurd (hnone₁.mpr hacc) (by simp)
    | none =>
      have hacc₀ := hnone₁.mp rfl
      have hrest : ∀ k < n,
          (∀ j < k, EntryAccepted f (o + ehdr.ePhentsize.toNat + j * ehdr.ePhentsize.toNat)) →
          o + ehdr.ePhentsize.toNat + k * ehdr.ePhentsize.toNat + 24 ≤ f.length →
          (phdrAt f (o + ehdr.ePhentsize.toNat + k * ehdr.ePhentsize.toNat)).pType = ptLoad →
          ∃ off, (phdrAt f (o + ehdr.ePhentsize.toNat + k * ehdr.ePhentsize.toNat)).Block
              (mem.withPmem m₁) off ∧
            ∀ j < (phdrAt f (o + ehdr.ePhentsize.toNat +
              k * ehdr.ePhentsize.toNat)).pMemsz.toNat, S (off + j) := by
        intro k hk hbefore
        rw [← entry_offset_succ]
        intro hfit hload
        obtain ⟨off, hb, hS⟩ := hblocks (k + 1) (Nat.succ_lt_succ hk) (fun j hj => by
          cases j with
          | zero => simpa using hacc₀
          | succ j =>
            rw [entry_offset_succ]
            exact hbefore j (Nat.lt_of_succ_lt_succ hj)) hfit hload
        exact ⟨off, ⟨hb.start, hb.filesz_le, hb.inside⟩, hS⟩
      obtain ⟨r, m, hcopy, hnone, hkeep⟩ := ih hrest
      refine ⟨r, m, copySegments_succ_eq_ok.mpr (.inr ⟨_, haux, hcopy⟩),
        hnone.trans ⟨fun hall k hk => ?_, fun hall k hk => ?_⟩, ?_⟩
      · cases k with
        | zero => simpa using hacc₀
        | succ k =>
          rw [entry_offset_succ]
          exact hall k (Nat.lt_of_succ_lt_succ hk)
      · rw [← entry_offset_succ]
        exact hall (k + 1) (Nat.succ_lt_succ hk)
      · intro i hi
        rw [hkeep i hi, Mmu.withPmem_pmem, hkeep₁ i hi]

/-- With a good header, `elf_dump` is the loop over the table. -/
lemma elfDump_of_header {f : List Byte} (h : HeaderOk f) (entry : Word) (mem : Mmu) :
    elfDump (some f) entry mem = (do
      let (retval, mem) ← copySegments (ehdrOf f) (ehdrOf f).ePhnum.toNat
        ⟨f, (ehdrOf f).ePhoff.toNat⟩ mem
      pure (retval, (ehdrOf f).eEntry, mem)) := by
  have hopen := readEhdr_eq_ok.mpr ⟨h, rfl, rfl⟩
  simp only [elfDump, elfOpen, hopen]
  rfl

/-! ### Well-formed files -/

/-- A segment as a linker hands it over. -/
structure LoadSegment where
  vaddr : Word
  data : List Byte
  memsz : ℕ

/-- The data fit, and the segment has addresses, all of them in populated kseg0. -/
structure LoadSegment.Ok (s : LoadSegment) (mem : Mmu) : Prop where
  data_le : s.data.length ≤ s.memsz
  memsz_pos : 0 < s.memsz
  inside : InKseg0 mem s.vaddr s.memsz

/-- The program header entry encodes the segment. -/
structure LoadSegment.EncodedBy (s : LoadSegment) (f : List Byte) (p : PHeader) : Prop where
  vaddr_eq : p.pVaddr = s.vaddr
  memsz_eq : p.pMemsz.toNat = s.memsz
  filesz_eq : p.pFilesz.toNat = s.data.length
  data_eq : segmentData f p = s.data

/-- The file is an executable whose `PT_LOAD` entries encode the segments, between entries of the
other types that the loader knows, in any layout. -/
structure ElfFile (f : List Byte) (segments : List LoadSegment) : Prop where
  header : HeaderOk f
  complete : ∀ i < (ehdrOf f).ePhnum.toNat, entryOffset f i + sizeofPHeader ≤ f.length
  known : ∀ i < (ehdrOf f).ePhnum.toNat,
    (phdrAt f (entryOffset f i)).pType ∈ [ptNull, ptNote, ptMipsAbiflags, ptLoad]
  encoded : List.Forall₂ (fun p s => s.EncodedBy f p) (loadSegments f) segments

lemma mem_loadSegments {f : List Byte} {p : PHeader} :
    p ∈ loadSegments f ↔ ∃ i < (ehdrOf f).ePhnum.toNat, phdrAt f (entryOffset f i) = p ∧
      p.pType = ptLoad := by
  simp only [loadSegments, loads, entries, List.mem_filter, List.mem_map, List.mem_range,
    decide_eq_true_eq, entryOffset]
  constructor
  · rintro ⟨⟨i, hi, rfl⟩, hload⟩
    exact ⟨i, hi, rfl, hload⟩
  · rintro ⟨i, hi, rfl, hload⟩
    exact ⟨⟨i, hi, rfl⟩, hload⟩

/-- A segment in populated kseg0 has its place. -/
lemma LoadSegment.Ok.block {s : LoadSegment} {mem : Mmu} {f : List Byte} {p : PHeader}
    (h : s.Ok mem) (he : s.EncodedBy f p) : p.Block mem (kseg0Offset p.pVaddr) where
  start := by
    rw [he.vaddr_eq]
    exact translate_kseg0 h.inside h.memsz_pos
  filesz_le := by
    rw [he.filesz_eq, he.memsz_eq]
    exact h.data_le
  inside := by
    rw [he.vaddr_eq, he.memsz_eq]
    exact h.inside.offset_add_le

/-- Data that are encoded are in the file. -/
lemma LoadSegment.EncodedBy.in_file {s : LoadSegment} {f : List Byte} {p : PHeader}
    (he : s.EncodedBy f p) (h : s.data ≠ []) :
    p.pOffset.toNat + p.pFilesz.toNat ≤ f.length := by
  have hlen := congrArg List.length he.data_eq
  have hpos := List.length_pos_iff.mpr h
  rw [← he.filesz_eq] at hlen hpos
  simp only [segmentData, List.length_take, List.length_drop] at hlen
  omega

lemma exists_of_forall₂_left {α β : Type} {R : α → β → Prop} {as : List α} {bs : List β}
    (h : List.Forall₂ R as bs) {a : α} (ha : a ∈ as) : ∃ b ∈ bs, R a b := by
  induction h with
  | nil => cases ha
  | cons hab _ ih =>
    rcases List.mem_cons.mp ha with rfl | ha
    · exact ⟨_, List.mem_cons_self, hab⟩
    · obtain ⟨b, hb, hr⟩ := ih ha
      exact ⟨b, List.mem_cons_of_mem _ hb, hr⟩

/-- A well-formed file is accepted exactly when all its segments have bytes in the file. -/
theorem elfDump_accepts_iff {f : List Byte} {segments : List LoadSegment} {mem : Mmu}
    (hf : ElfFile f segments) (hs : ∀ s ∈ segments, s.Ok mem) (entry : Word) :
    (∃ entry' mem', elfDump (some f) entry mem = .ok (none, entry', mem')) ↔
      ∀ s ∈ segments, s.data ≠ [] := by
  have hseg : ∀ i < (ehdrOf f).ePhnum.toNat, (phdrAt f (entryOffset f i)).pType = ptLoad →
      ∃ s ∈ segments, s.EncodedBy f (phdrAt f (entryOffset f i)) := fun i hi hload =>
    exists_of_forall₂_left hf.encoded (mem_loadSegments.mpr ⟨i, hi, rfl, hload⟩)
  have hblocks : ∀ k < (ehdrOf f).ePhnum.toNat,
      (∀ j < k, EntryAccepted f (entryOffset f j)) → entryOffset f k + 24 ≤ f.length →
      (phdrAt f (entryOffset f k)).pType = ptLoad →
      ∃ off, (phdrAt f (entryOffset f k)).Block mem off ∧
        ∀ j < (phdrAt f (entryOffset f k)).pMemsz.toNat, True := by
    intro k hk _ _ hload
    obtain ⟨s, hmem, he⟩ := hseg k hk hload
    exact ⟨_, (hs s hmem).block he, fun _ _ => trivial⟩
  obtain ⟨r, m, hcopy, hnone, -⟩ := @copySegments_of_blocks f (ehdrOf f) _
    (ehdrOf f).ePhoff.toNat mem (fun _ => True) hblocks
  have hnone : r = none ↔ ∀ k < (ehdrOf f).ePhnum.toNat, EntryAccepted f (entryOffset f k) := hnone
  have hdump : (∃ entry' mem', elfDump (some f) entry mem = .ok (none, entry', mem')) ↔ r = none := by
    rw [elfDump_of_header hf.header, hcopy]
    simp [bind, Except.bind, pure, Except.pure]
  rw [hdump, hnone]
  constructor
  · intro hall s hmem hnil
    obtain ⟨p, hp, he⟩ := exists_of_forall₂_left hf.encoded.flip hmem
    obtain ⟨i, hi, rfl, hload⟩ := mem_loadSegments.mp hp
    apply (hall i hi).2 hload
    rw [he.filesz_eq, hnil]
    rfl
  · intro hall i hi
    have hfit : entryOffset f i + 24 ≤ f.length :=
      (Nat.add_le_add_left (by decide) _).trans (hf.complete i hi)
    refine ⟨⟨hfit, hf.known i hi, fun hload => ?_⟩, fun hload => ?_⟩
    · obtain ⟨s, hmem, he⟩ := hseg i hi hload
      exact he.in_file (hall s hmem)
    · obtain ⟨s, hmem, he⟩ := hseg i hi hload
      rw [he.filesz_eq]
      exact Nat.ne_of_gt (List.length_pos_iff.mpr (hall s hmem))

/-- The sample file encodes one segment. -/
lemma elfFile_sample : ElfFile sampleFile [⟨0x80000000#32, [0x11, 0x22, 0x33, 0x44], 8⟩] where
  header := ⟨by decide, by decide, by decide, by decide, by decide, by decide⟩
  complete := by decide
  known := by decide
  encoded := .cons ⟨by decide, by decide, by decide, by decide⟩ .nil

theorem elfDump_accepts_iff_sample :
    ∃ entry mem, elfDump (some sampleFile) 0 (mmuInit 128) = .ok (none, entry, mem) := by
  refine (elfDump_accepts_iff elfFile_sample ?_ 0).mpr ?_
  · intro s hs
    rw [List.mem_singleton.mp hs]
    exact ⟨by decide, by decide, by decide⟩
  · intro s hs
    rw [List.mem_singleton.mp hs]
    decide

/-- A file with one segment of eight bytes at the start of kseg0 and no data, as for `.bss`. -/
def bssFile : List Byte :=
  sampleHeader ++ [0, 0, 0, 1, 0, 0, 0, 84, 0x80, 0, 0, 0, 0x80, 0, 0, 0, 0, 0, 0, 0, 0, 0, 0, 8,
    0, 0, 0, 6, 0, 0, 0, 4]

/-- The loader reports an error for it, because `fread` of no bytes returns `0`. -/
theorem not_elfDump_accepts_bss :
    ElfFile bssFile [⟨0x80000000#32, [], 8⟩] ∧
      LoadSegment.Ok ⟨0x80000000#32, [], 8⟩ (mmuInit 128) ∧
      (∃ mem, elfDump (some bssFile) 0 (mmuInit 128) =
        .ok (some .ioError, 0x80000000#32, mem)) ∧
      ¬ ∃ entry mem, elfDump (some bssFile) 0 (mmuInit 128) = .ok (none, entry, mem) := by
  have hdump : ∃ mem, elfDump (some bssFile) 0 (mmuInit 128) =
      .ok (some .ioError, 0x80000000#32, mem) := ⟨_, rfl⟩
  refine ⟨?_, ⟨by decide, by decide, by decide⟩, hdump, ?_⟩
  · exact ⟨⟨by decide, by decide, by decide, by decide, by decide, by decide⟩, by decide, by decide,
      .cons ⟨by decide, by decide, by decide, by decide⟩ .nil⟩
  · rintro ⟨entry, mem, hok⟩
    obtain ⟨mem', herr⟩ := hdump
    rw [herr] at hok
    simp at hok

end MipsSim
