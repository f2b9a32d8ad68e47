import MipsSim.Elf.Complete
import MipsSim.Memory.Segments

/-!
# Where the loader writes

The address and the two sizes of a segment come from the file, and the loader looks at the first byte
only. What it promises, to write inside the segments of the file and to refuse a segment that does
not fit, is compared with what it does for every file and every memory size.
-/

namespace MipsSim

open ByteStore Run

/-! ### The promise -/

/-- The segment can be loaded: its address has a translation, its data fit its size, and it fits into
the populated part of the virtual segment that it starts in. -/
structure PHeader.Loadable (p : PHeader) (mem : Mmu) : Prop where
  translated : (translate p.pVaddr mem).isSome
  filesz_le : p.pFilesz.toNat ≤ p.pMemsz.toNat
  fits : p.pVaddr.toNat + p.pMemsz.toNat ≤
    (segment p.pVaddr).vstart + mem.populated (segment p.pVaddr)

/-- The byte of `pmem` belongs to one of the `PT_LOAD` segments of the file. -/
def Belongs (f : List Byte) (mem : Mmu) (i : ℕ) : Prop :=
  ∃ p ∈ loadSegments f, ∃ k < p.pMemsz.toNat,
    translate (p.pVaddr + BitVec.ofNat 32 k) mem = some i

/-- What the loader promises for a file and a memory of the given sizes, whatever is in it. -/
structure Contained (f : List Byte) (mem : Mmu) : Prop where
  /-- The load does not fault, and bytes that belong to no segment keep their content. -/
  inside : ∀ pmem entry, ∃ r entry' mem',
    elfDump (some f) entry (mem.withPmem pmem) = .ok (r, entry', mem') ∧
      ∀ i, ¬ Belongs f mem i → mem'.pmem i = pmem i
  /-- A segment that cannot be loaded is refused, and nothing is written for it. -/
  refused : ∀ pmem entry k mem₁, HeaderOk f → k < (ehdrOf f).ePhnum.toNat →
    copySegments (ehdrOf f) k ⟨f, (ehdrOf f).ePhoff.toNat⟩ (mem.withPmem pmem) = .ok (none, mem₁) →
    entryOffset f k + 24 ≤ f.length → (phdrAt f (entryOffset f k)).pType = ptLoad →
    ¬ (phdrAt f (entryOffset f k)).Loadable mem →
    ∃ entry', elfDump (some f) entry (mem.withPmem pmem) = .ok (some .outOfMem, entry', mem₁)

/-- The loader gets to the entry. -/
def Reached (f : List Byte) (k : ℕ) : Prop :=
  HeaderOk f ∧ k < (ehdrOf f).ePhnum.toNat ∧ entryOffset f k + 24 ≤ f.length ∧
    ∀ j < k, EntryAccepted f (entryOffset f j)

/-- Every segment that the loader gets to can be loaded, and the bytes of `pmem` from the translation
of its address on are those of segments. -/
def SegmentsFit (f : List Byte) (mem : Mmu) : Prop :=
  ∀ k, Reached f k → (phdrAt f (entryOffset f k)).pType = ptLoad →
    (phdrAt f (entryOffset f k)).Loadable mem ∧
      ∀ off, translate (phdrAt f (entryOffset f k)).pVaddr mem = some off →
        ∀ j < (phdrAt f (entryOffset f k)).pMemsz.toNat, Belongs f mem (off + j)

/-! ### Translations are inside -/

/-- Behind the descriptor area only the first byte of `pmem` is the translation of an address. -/
lemma translate_of_ge {mem : Mmu} {v : Word} {o : ℕ} (h : ¬ v < ioDescriptorArea)
    (ho : translate v mem = some o) : o < mem.sizeKseg0.toNat := by
  have hzero : translateVaddr v = 0 ∨ translateVaddr v = v := by
    by_cases hreg : v > ioRegisterArea
    · right
      rw [translateVaddr, if_pos hreg]
    · left
      simp only [ioDescriptorArea] at h
      have hlow : ¬ v < kseg0Pstart := by simp only [kseg0Pstart]; bv_omega
      have hhigh : v > kseg2Pstart := by
        simp only [kseg2Pstart, kusegPstart, kusegSize, kseg1Pstart, kseg0Pstart]
        bv_omega
      rw [translateVaddr, if_neg hreg, translateVaddr.last, if_neg hlow, if_pos hhigh, ite_self]
  rcases hzero with hz | hz
  · rw [translate, hz, translatePaddr_low mem (by decide)] at ho
    split_ifs at ho with hlt
    · rw [← Option.some.inj ho]
      exact hlt
  · have hnone : translatePaddr v mem = none := by
      rw [translatePaddr, if_pos]
      simp only [ioDescriptorArea, kseg0Size, kseg1Size, kusegSize] at h ⊢
      bv_omega
    rw [translate, hz, hnone] at ho
    cases ho

/-- Every translation is a byte of `pmem`. -/
lemma translate_lt_size {mem : Mmu} {v : Word} {o : ℕ} (ho : translate v mem = some o) :
    o < mem.size := by
  by_cases h : v < ioDescriptorArea
  · obtain ⟨hacc, rfl⟩ := (translate_eq_some_iff h).mp ho
    exact Nat.lt_of_lt_of_le (Nat.lt_add_of_pos_right (by decide)) hacc.offset_add_le
  · have hlt := translate_of_ge h ho
    have hle := sizeKseg0_le_size mem
    omega

/-- A segment that fits has its place, in bytes of segments. -/
lemma PHeader.Loadable.block {f : List Byte} {mem : Mmu} {p : PHeader} (h : p.Loadable mem)
    (hbytes : ∀ off, translate p.pVaddr mem = some off →
      ∀ j < p.pMemsz.toNat, Belongs f mem (off + j)) :
    ∃ off, p.Block mem off ∧ ∀ j < p.pMemsz.toNat, Belongs f mem (off + j) := by
  obtain ⟨off, hoff⟩ := Option.isSome_iff_exists.mp h.translated
  have hbelongs := hbytes off hoff
  refine ⟨off, ⟨hoff, h.filesz_le, ?_⟩, hbelongs⟩
  cases hsize : p.pMemsz.toNat with
  | zero => exact Nat.le_of_lt (translate_lt_size hoff)
  | succ n =>
    obtain ⟨q, -, k, -, hlast⟩ := hbelongs n (by omega)
    exact translate_lt_size hlast

/-! ### The loader keeps the promise -/

/-- Without a good header nothing is loaded. -/
lemma elfDump_of_not_header {f : List Byte} (h : ¬ HeaderOk f) (entry : Word) (mem : Mmu) :
    ∃ e, elfDump (some f) entry mem = .ok (some e, entry, mem) := by
  simp only [elfDump, elfOpen]
  cases hopen : readEhdr ⟨f, 0⟩ with
  | error e => exact ⟨e, rfl⟩
  | ok r => exact absurd (readEhdr_eq_ok.mp hopen).1 h

/-- Entries before which nothing stops the loader are accepted. -/
lemma accepted_of_copySegments {f : List Byte} {ehdr : Ehdr} {n o : ℕ} {mem mem' : Mmu}
    (h : copySegments ehdr n ⟨f, o⟩ mem = .ok (none, mem')) :
    ∀ j < n, EntryAccepted f (o + j * ehdr.ePhentsize.toNat) := by
  induction n generalizing o mem with
  | zero => exact fun j hj => absurd hj (Nat.not_lt_zero j)
  | succ n ih =>
    rcases copySegments_succ_eq_ok.mp h with ⟨e, -, he⟩ | ⟨mem₁, haux, h⟩
    · cases he
    obtain ⟨hentry, hdone⟩ := copyCurSegmentAux_eq_ok haux
    intro j hj
    cases j with
    | zero =>
      rw [Nat.zero_mul, Nat.add_zero]
      refine ⟨hentry, fun hload => ?_⟩
      rw [if_pos hload] at hdone
      exact (copySegment_eq_ok.mp hdone).1
    | succ j =>
      rw [entry_offset_succ]
      exact ih h j (Nat.lt_of_succ_lt_succ hj)

lemma contained_of_segmentsFit {f : List Byte} {mem : Mmu} (h : SegmentsFit f mem) :
    Contained f mem := by
  refine ⟨?_, ?_⟩
  · intro pmem entry
    by_cases hheader : HeaderOk f
    · have hblocks : ∀ k < (ehdrOf f).ePhnum.toNat,
          (∀ j < k, EntryAccepted f (entryOffset f j)) → entryOffset f k + 24 ≤ f.length →
          (phdrAt f (entryOffset f k)).pType = ptLoad →
          ∃ off, (phdrAt f (entryOffset f k)).Block (mem.withPmem pmem) off ∧
            ∀ j < (phdrAt f (entryOffset f k)).pMemsz.toNat, Belongs f mem (off + j) := by
        intro k hk hbefore hfit hload
        obtain ⟨hloadable, hbytes⟩ := h k ⟨hheader, hk, hfit, hbefore⟩ hload
        obtain ⟨off, hb, hS⟩ := hloadable.block hbytes
        exact ⟨off, ⟨hb.start, hb.filesz_le, hb.inside⟩, hS⟩
      obtain ⟨r, m, hcopy, -, hkeep⟩ := @copySegments_of_blocks f (ehdrOf f) _
        (ehdrOf f).ePhoff.toNat (mem.withPmem pmem) (Belongs f mem) hblocks
      refine ⟨r, (ehdrOf f).eEntry, (mem.withPmem pmem).withPmem m, ?_, hkeep⟩
      rw [elfDump_of_header hheader, hcopy]
      rfl
    · obtain ⟨e, he⟩ := elfDump_of_not_header hheader entry (mem.withPmem pmem)
      exact ⟨_, _, _, he, fun _ _ => rfl⟩
  · intro pmem entry k mem₁ hheader hk hcopy hfit hload hnot
    exact absurd (h k ⟨hheader, hk, hfit, accepted_of_copySegments hcopy⟩ hload).1 hnot

/-! ### Where it does not -/

lemma copyCurSegmentAux_ne_outOfMem {f : List Byte} {o : ℕ} {mem mem' : Mmu} {e : ElfError}
    (h : copyCurSegmentAux ⟨f, o⟩ mem = .ok (some e, mem')) : e ≠ .outOfMem := by
  rintro rfl
  rw [copyCurSegmentAux_eq] at h
  split_ifs at h
  · simp at h
  · simp only [copySegment, bind_eq_ok] at h
    obtain ⟨_, -, _, -, hret⟩ := h
    split_ifs at hret <;> simp [pure_eq_ok] at hret
  · simp at h
  · simp at h

/-- The loader has no way to report that memory is missing. -/
lemma copySegments_ne_outOfMem {f : List Byte} {ehdr : Ehdr} {n o : ℕ} {mem mem' : Mmu}
    {r : Option ElfError} (h : copySegments ehdr n ⟨f, o⟩ mem = .ok (r, mem')) :
    r ≠ some .outOfMem := by
  induction n generalizing o mem with
  | zero =>
    simp only [copySegments, Except.ok.injEq, Prod.mk.injEq] at h
    rw [← h.1]
    simp
  | succ n ih =>
    rcases copySegments_succ_eq_ok.mp h with ⟨e, haux, rfl⟩ | ⟨mem₁, -, h⟩
    · rw [ne_eq, Option.some.injEq]
      exact copyCurSegmentAux_ne_outOfMem haux
    · exact ih h

/-- The loop over the first entries and then over the rest. -/
lemma copySegments_add {f : List Byte} {ehdr : Ehdr} {k n o : ℕ} {mem mem₁ mem' : Mmu}
    {r : Option ElfError} (h : copySegments ehdr k ⟨f, o⟩ mem = .ok (none, mem₁))
    (hall : copySegments ehdr (k + n) ⟨f, o⟩ mem = .ok (r, mem')) :
    copySegments ehdr n ⟨f, o + k * ehdr.ePhentsize.toNat⟩ mem₁ = .ok (r, mem') := by
  induction k generalizing o mem with
  | zero =>
    simp only [copySegments, Except.ok.injEq, Prod.mk.injEq, true_and] at h
    rw [Nat.zero_mul, Nat.add_zero, ← h]
    rwa [Nat.zero_add] at hall
  | succ k ih =>
    rcases copySegments_succ_eq_ok.mp h with ⟨e, -, he⟩ | ⟨mem₂, haux, h⟩
    · cases he
    rw [Nat.succ_add] at hall
    rcases copySegments_succ_eq_ok.mp hall with ⟨e, haux', -⟩ | ⟨mem₃, haux', hall⟩
    · simp [haux] at haux'
    · rw [haux, Except.ok.injEq, Prod.mk.injEq] at haux'
      obtain ⟨-, rfl⟩ := haux'
      rw [entry_offset_succ]
      exact ih h hall

/-- What a byte is after a write depends on what it was before, and on that only if the write misses
it. -/
lemma writeBlock_eq_of_or {β : Type*} {m q : ℕ → β} {off i : ℕ} {bs : List β}
    (h : q i = m i ∨ (off ≤ i ∧ i < off + bs.length)) :
    writeBlock q off bs i = writeBlock m off bs i := by
  rcases h with h | ⟨hlow, hhigh⟩
  · simp only [writeBlock, h]
  · have hb := List.getElem?_eq_getElem (show i - off < bs.length by omega)
    rw [writeBlock_of_getElem? hlow hb, writeBlock_of_getElem? hlow hb]

/-- The same for a store through a pointer, in a memory with other contents. -/
lemma store_withPmem {mem mem₁ : Mmu} {ptr : Option ℕ} {bs : List Byte} {q : ℕ → Byte} {i : ℕ}
    (h : mem.store ptr bs = .ok mem₁)
    (hq : q i = mem.pmem i ∨ ∃ off, ptr = some off ∧ off ≤ i ∧ i < off + bs.length) :
    ∃ m, (mem.withPmem q).store ptr bs = .ok (mem₁.withPmem m) ∧ m i = mem₁.pmem i := by
  unfold Mmu.store at h ⊢
  by_cases hnil : bs = []
  · rw [if_pos hnil, Except.ok.injEq] at h
    subst h
    rw [if_pos hnil]
    refine ⟨q, rfl, hq.resolve_right ?_⟩
    rintro ⟨off, -, hlow, hhigh⟩
    rw [hnil, List.length_nil] at hhigh
    omega
  · rw [if_neg hnil] at h
    rw [if_neg hnil]
    cases ptr with
    | none => cases h
    | some off =>
      simp only at h
      split_ifs at h with hfit
      rw [Except.ok.injEq] at h
      subst h
      refine ⟨writeBlock q off bs, if_pos hfit, writeBlock_eq_of_or (hq.imp_right ?_)⟩
      rintro ⟨_, ⟨⟩, hi⟩
      exact hi

/-- A segment that is loaded into a memory with other contents: the two results agree at a byte if
the contents do, or if the byte is in the block of the segment. -/
lemma copySegment_withPmem {f : List Byte} {o i : ℕ} {p : PHeader} {mem mem₁ : Mmu}
    {r : Option ElfError} {q : ℕ → Byte} (h : copySegment ⟨f, o⟩ p mem = .ok (r, mem₁))
    (hq : q i = mem.pmem i ∨
      ∃ off, translate p.pVaddr mem = some off ∧ off ≤ i ∧ i < off + p.pMemsz.toNat) :
    ∃ m, copySegment ⟨f, o⟩ p (mem.withPmem q) = .ok (r, mem₁.withPmem m) ∧ m i = mem₁.pmem i := by
  simp only [copySegment, bind_eq_ok] at h ⊢
  obtain ⟨mem₂, hzero, mem₃, hdata, hret⟩ := h
  obtain ⟨m₂, hzero', hm₂⟩ := store_withPmem (q := q) (i := i) hzero (by
    rw [List.length_replicate]
    exact hq)
  obtain ⟨m₃, hdata', hm₃⟩ := store_withPmem hdata (.inl hm₂)
  split_ifs at hret with hok
  · rw [pure_eq_ok, Prod.mk.injEq] at hret
    obtain ⟨rfl, rfl⟩ := hret
    exact ⟨m₃, ⟨_, hzero', _, hdata', by rw [if_pos hok]; rfl⟩, hm₃⟩
  · rw [pure_eq_ok, Prod.mk.injEq] at hret
    obtain ⟨rfl, rfl⟩ := hret
    exact ⟨m₃, ⟨_, hzero', _, hdata', by rw [if_neg hok]; rfl⟩, hm₃⟩

lemma copyCurSegmentAux_withPmem {f : List Byte} {o i : ℕ} {mem mem₁ : Mmu} {r : Option ElfError}
    {q : ℕ → Byte} (h : copyCurSegmentAux ⟨f, o⟩ mem = .ok (r, mem₁))
    (hq : q i = mem.pmem i ∨ (o + 24 ≤ f.length ∧ (phdrAt f o).pType = ptLoad ∧
      ∃ off, translate (phdrAt f o).pVaddr mem = some off ∧ off ≤ i ∧
        i < off + (phdrAt f o).pMemsz.toNat)) :
    ∃ m, copyCurSegmentAux ⟨f, o⟩ (mem.withPmem q) = .ok (r, mem₁.withPmem m) ∧
      m i = mem₁.pmem i := by
  rw [copyCurSegmentAux_eq] at h ⊢
  by_cases hload : o + 24 ≤ f.length ∧ (phdrAt f o).pType = ptLoad
  · have hskip : ¬ ((phdrAt f o).pType = ptNull ∨ (phdrAt f o).pType = ptNote ∨
        (phdrAt f o).pType = ptMipsAbiflags) := by
      rw [hload.2]
      decide
    rw [if_pos hload.1, if_neg hskip, if_pos hload.2] at h ⊢
    exact copySegment_withPmem h (hq.imp_right fun hb => hb.2.2)
  · -- nothing is written
    have hq : q i = mem.pmem i := hq.resolve_right fun hb => hload ⟨hb.1, hb.2.1⟩
    split_ifs at h ⊢ with hfit hskip hl
    · rw [Except.ok.injEq, Prod.mk.injEq] at h
      obtain ⟨rfl, rfl⟩ := h
      exact ⟨q, rfl, hq⟩
    · exact absurd ⟨hfit, hl⟩ hload
    · rw [Except.ok.injEq, Prod.mk.injEq] at h
      obtain ⟨rfl, rfl⟩ := h
      exact ⟨q, rfl, hq⟩
    · rw [Except.ok.injEq, Prod.mk.injEq] at h
      obtain ⟨rfl, rfl⟩ := h
      exact ⟨q, rfl, hq⟩

/-- The loop in a memory with other contents. -/
lemma copySegments_withPmem {f : List Byte} {ehdr : Ehdr} {n o i : ℕ} {mem mem₁ : Mmu}
    {r : Option ElfError} {q : ℕ → Byte} (h : copySegments ehdr n ⟨f, o⟩ mem = .ok (r, mem₁))
    (hq : q i = mem.pmem i) :
    ∃ m, copySegments ehdr n ⟨f, o⟩ (mem.withPmem q) = .ok (r, mem₁.withPmem m) ∧
      m i = mem₁.pmem i := by
  induction n generalizing o mem q with
  | zero =>
    simp only [copySegments, Except.ok.injEq, Prod.mk.injEq] at h
    obtain ⟨rfl, rfl⟩ := h
    exact ⟨q, rfl, hq⟩
  | succ n ih =>
    rcases copySegments_succ_eq_ok.mp h with ⟨e, haux, rfl⟩ | ⟨mem₂, haux, h⟩
    · obtain ⟨m, haux', hm⟩ := copyCurSegmentAux_withPmem haux (.inl hq)
      exact ⟨m, copySegments_succ_eq_ok.mpr (.inl ⟨e, haux', rfl⟩), hm⟩
    · obtain ⟨m₂, haux', hm₂⟩ := copyCurSegmentAux_withPmem haux (.inl hq)
      obtain ⟨m, hcopy, hm⟩ := ih h hm₂
      exact ⟨m, copySegments_succ_eq_ok.mpr (.inr ⟨_, haux', hcopy⟩), hm⟩

/-- A byte in the block of the next segment loses its content. -/
lemma copySegments_overwrites {f : List Byte} {ehdr : Ehdr} {n o off i : ℕ} {mem mem₁ : Mmu}
    {r : Option ElfError} {q : ℕ → Byte} (h : copySegments ehdr (n + 1) ⟨f, o⟩ mem = .ok (r, mem₁))
    (hfit : o + 24 ≤ f.length) (hload : (phdrAt f o).pType = ptLoad)
    (hoff : translate (phdrAt f o).pVaddr mem = some off)
    (hi : off ≤ i ∧ i < off + (phdrAt f o).pMemsz.toNat) :
    ∃ m, copySegments ehdr (n + 1) ⟨f, o⟩ (mem.withPmem q) = .ok (r, mem₁.withPmem m) ∧
      m i = mem₁.pmem i := by
  rcases copySegments_succ_eq_ok.mp h with ⟨e, haux, rfl⟩ | ⟨mem₂, haux, h⟩
  · obtain ⟨m, haux', hm⟩ :=
      copyCurSegmentAux_withPmem (q := q) haux (.inr ⟨hfit, hload, off, hoff, hi⟩)
    exact ⟨m, copySegments_succ_eq_ok.mpr (.inl ⟨e, haux', rfl⟩), hm⟩
  · obtain ⟨m₂, haux', hm₂⟩ :=
      copyCurSegmentAux_withPmem (q := q) haux (.inr ⟨hfit, hload, off, hoff, hi⟩)
    obtain ⟨m, hcopy, hm⟩ := copySegments_withPmem h hm₂
    exact ⟨m, copySegments_succ_eq_ok.mpr (.inr ⟨_, haux', hcopy⟩), hm⟩

/-- The loop in `elf_dump`, of a call that does not fault. -/
lemma copySegments_of_elfDump {f : List Byte} {entry entry' : Word} {mem mem' : Mmu}
    {r : Option ElfError} (hheader : HeaderOk f)
    (h : elfDump (some f) entry mem = .ok (r, entry', mem')) :
    copySegments (ehdrOf f) (ehdrOf f).ePhnum.toNat ⟨f, (ehdrOf f).ePhoff.toNat⟩ mem =
      .ok (r, mem') := by
  rw [elfDump_of_header hheader] at h
  simp only [bind_eq_ok, pure_eq_ok, Prod.exists, Prod.mk.injEq] at h
  obtain ⟨_, _, hcopy, rfl, -, rfl⟩ := h
  exact hcopy

lemma segmentsFit_of_contained {f : List Byte} {mem : Mmu} (h : Contained f mem) :
    SegmentsFit f mem := by
  intro k
  induction k using Nat.strong_induction_on with
  | _ k ih =>
    rintro ⟨hheader, hk, hfit, hbefore⟩ hload
    -- the entries before this one are loaded, whatever the memory contains
    have hloaded : ∀ pmem, ∃ m, copySegments (ehdrOf f) k ⟨f, (ehdrOf f).ePhoff.toNat⟩
        (mem.withPmem pmem) = .ok (none, mem.withPmem m) := by
      intro pmem
      have hblocks : ∀ j < k, (∀ i < j, EntryAccepted f (entryOffset f i)) →
          entryOffset f j + 24 ≤ f.length → (phdrAt f (entryOffset f j)).pType = ptLoad →
          ∃ off, (phdrAt f (entryOffset f j)).Block (mem.withPmem pmem) off ∧
            ∀ i < (phdrAt f (entryOffset f j)).pMemsz.toNat, Belongs f mem (off + i) := by
        intro j hj hbefore' hfit' hload'
        obtain ⟨hloadable, hbytes⟩ := ih j hj ⟨hheader, hj.trans hk, hfit', hbefore'⟩ hload'
        obtain ⟨off, hb, hS⟩ := hloadable.block hbytes
        exact ⟨off, ⟨hb.start, hb.filesz_le, hb.inside⟩, hS⟩
      obtain ⟨r, m, hcopy, hnone, -⟩ := @copySegments_of_blocks f (ehdrOf f) k
        (ehdrOf f).ePhoff.toNat (mem.withPmem pmem) (Belongs f mem) hblocks
      rw [hnone.mpr hbefore] at hcopy
      exact ⟨m, hcopy⟩
    refine ⟨?_, ?_⟩
    · by_contra hnot
      obtain ⟨m, hcopy⟩ := hloaded mem.pmem
      obtain ⟨entry', hdump⟩ := h.refused mem.pmem 0 k _ hheader hk hcopy hfit hload hnot
      exact copySegments_ne_outOfMem (copySegments_of_elfDump hheader hdump) rfl
    · intro off hoff j hj
      by_contra hnot
      -- the byte is overwritten, so that it cannot keep both of two contents
      obtain ⟨m₀, hcopy₀⟩ := hloaded fun _ => 0
      obtain ⟨m₁, hcopy₁⟩ := hloaded fun _ => 1
      obtain ⟨r₀, entry₀, mem₀, hdump₀, hkeep₀⟩ := h.inside (fun _ => 0) 0
      obtain ⟨r₁, entry₁, mem₁, hdump₁, hkeep₁⟩ := h.inside (fun _ => 1) 0
      obtain ⟨n, hn⟩ : ∃ n, (ehdrOf f).ePhnum.toNat = k + (n + 1) :=
        ⟨(ehdrOf f).ePhnum.toNat - k - 1, by omega⟩
      have hall₀ := copySegments_of_elfDump hheader hdump₀
      have hall₁ := copySegments_of_elfDump hheader hdump₁
      rw [hn] at hall₀ hall₁
      obtain ⟨m, hsame, hm⟩ := copySegments_overwrites (q := m₁) (copySegments_add hcopy₀ hall₀) hfit
        hload hoff (i := off + j) ⟨Nat.le_add_right _ _, Nat.add_lt_add_left hj _⟩
      have hrest₁ := copySegments_add hcopy₁ hall₁
      rw [Mmu.withPmem_withPmem, hrest₁, Except.ok.injEq, Prod.mk.injEq] at hsame
      have hone := hkeep₁ _ hnot
      rw [hsame.2, Mmu.withPmem_pmem, hm, hkeep₀ _ hnot] at hone
      exact absurd hone (by decide)

/-- The loader keeps its promise exactly when the segments that it gets to fit. -/
theorem contained_iff (f : List Byte) (mem : Mmu) : Contained f mem ↔ SegmentsFit f mem :=
  ⟨segmentsFit_of_contained, contained_of_segmentsFit⟩

/-- In kseg0 the block of a segment consists of the bytes of the segment. -/
lemma segmentsFit_of_kseg0 {f : List Byte} {mem : Mmu}
    (h : ∀ p ∈ loadSegments f, p.pFilesz.toNat ≤ p.pMemsz.toNat ∧ 0 < p.pMemsz.toNat ∧
      InKseg0 mem p.pVaddr p.pMemsz.toNat) : SegmentsFit f mem := by
  rintro k ⟨-, hk, -, -⟩ hload
  have hp := mem_loadSegments.mpr ⟨k, hk, rfl, hload⟩
  generalize phdrAt f (entryOffset f k) = p at hp ⊢
  obtain ⟨hfile, hpos, hin⟩ := h p hp
  have htrans := translate_kseg0 hin hpos
  have hpop := hin.2
  have hseg : segment p.pVaddr = .kseg0 := by
    have hlow := hin.1
    have hhigh := hin.lt_kseg1 hpos
    rw [segment, if_neg (by rw [BitVec.lt_def]; simpa using hlow),
      if_pos (by rw [BitVec.lt_def]; exact hhigh)]
  refine ⟨⟨by rw [htrans]; rfl, hfile, ?_⟩, ?_⟩
  · rw [hseg, populated_kseg0_eq]
    exact hpop
  · intro off hoff j hj
    rw [htrans, Option.some.injEq] at hoff
    obtain ⟨hinj, hoffj⟩ := hin.add hj
    refine ⟨p, hp, j, hj, ?_⟩
    rw [translate_kseg0 hinj Nat.one_pos, hoffj, hoff]

/-- A file is loaded as promised when all of its segments lie in populated kseg0. -/
theorem contained_of_kseg0 {f : List Byte} {mem : Mmu}
    (h : ∀ p ∈ loadSegments f, p.pFilesz.toNat ≤ p.pMemsz.toNat ∧ 0 < p.pMemsz.toNat ∧
      InKseg0 mem p.pVaddr p.pMemsz.toNat) : Contained f mem :=
  contained_of_segmentsFit (segmentsFit_of_kseg0 h)

/-- A file with one segment of 72 bytes at the start of kseg0. -/
def largeFile : List Byte :=
  sampleHeader ++ [0, 0, 0, 1, 0, 0, 0, 84, 0x80, 0, 0, 0, 0x80, 0, 0, 0, 0, 0, 0, 4, 0, 0, 0, 72,
    0, 0, 0, 6, 0, 0, 0, 4] ++ [0x11, 0x22, 0x33, 0x44]

/-- With 64 bytes of memory the loader writes behind the end of `pmem`. -/
theorem not_contained_large :
    elfDump (some largeFile) 0 (mmuInit 64) = .error .outOfBounds ∧
      ¬ Contained largeFile (mmuInit 64) := by
  have hdump : elfDump (some largeFile) 0 (mmuInit 64) = .error .outOfBounds := rfl
  refine ⟨hdump, fun h => ?_⟩
  obtain ⟨r, entry', mem', hok, -⟩ := h.inside (mmuInit 64).pmem 0
  rw [withPmem_pmem_self, hdump] at hok
  cases hok

end MipsSim
