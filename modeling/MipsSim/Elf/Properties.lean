import MipsSim.Elf.Basic
import MipsSim.Lib.Run
import MipsSim.Memory.Properties

/-!
# What a loaded file contains

The loader in closed form over the bytes of the file: what a successful load has checked, the memory
it leaves, and that a file cut short is refused.
-/

namespace MipsSim

open ByteStore Run

/-! ### Reading numbers -/

/-- The big-endian number in the `size` bytes from `o` on. -/
def beNat (f : List Byte) (o size : ℕ) : ℕ := ofBigEndian ((f.drop o).take size)

/-- The half word at offset `o` of a file. -/
def beHalf (f : List Byte) (o : ℕ) : BitVec 16 := BitVec.ofNat 16 (beNat f o 2)

/-- The word at offset `o` of a file. -/
def beWord (f : List Byte) (o : ℕ) : Word := BitVec.ofNat 32 (beNat f o 4)

lemma freadOk_iff {f : List Byte} {o size : ℕ} (hsize : size ≠ 0) :
    (Stream.mk f o).freadOk size ↔ o + size ≤ f.length := by
  simp only [Stream.freadOk, Stream.fread, List.length_take, List.length_drop]
  omega

lemma advance_eq {f : List Byte} {o size : ℕ} (h : o + size ≤ f.length) :
    (Stream.mk f o).advance size = ⟨f, o + size⟩ := by
  simp only [Stream.advance, Stream.fread, List.length_take, List.length_drop, Stream.mk.injEq,
    true_and]
  omega

section ReadBe

variable {α : Type} {size : ℕ} {assemble : (ℕ → Byte) → α} {value : List Byte → ℕ → α}

/-- A loop of reads that fits the file gives the values at consecutive offsets. -/
lemma readBe_ok (hsize : size ≠ 0)
    (hval : ∀ f o, o + size ≤ f.length →
      assemble (fun i => (((Stream.mk f o).fread size)[i]?).getD 0) = value f o)
    {f : List Byte} {n o : ℕ} (h : o + size * n ≤ f.length) :
    readBe size assemble ⟨f, o⟩ n =
      .ok ((List.range n).map fun k => value f (o + size * k), ⟨f, o + size * n⟩) := by
  induction n generalizing o with
  | zero => simp [readBe]
  | succ n ih =>
    rw [Nat.mul_succ] at h
    have hstep : o + size ≤ f.length := by omega
    have hnext : ∀ k, o + size + size * k = o + size * (k + 1) := by
      intro k
      rw [Nat.mul_succ]
      omega
    rw [readBe, if_pos ((freadOk_iff hsize).mpr hstep), advance_eq hstep, ih (by omega)]
    simp only [bind, Except.bind, pure, Except.pure, hval f o hstep, List.range_succ_eq_map,
      List.map_cons, List.map_map, Function.comp_def, hnext, Nat.mul_zero, Nat.add_zero]

/-- A loop of reads that does not fit fails. -/
lemma readBe_error (hsize : size ≠ 0) {f : List Byte} {n o : ℕ} (hn : n ≠ 0)
    (h : f.length < o + size * n) : readBe size assemble ⟨f, o⟩ n = .error .ioError := by
  induction n generalizing o with
  | zero => exact absurd rfl hn
  | succ n ih =>
    rw [Nat.mul_succ] at h
    by_cases hstep : o + size ≤ f.length
    · rw [readBe, if_pos ((freadOk_iff hsize).mpr hstep), advance_eq hstep,
        ih (by rintro rfl; omega) (by omega)]
      rfl
    · rw [readBe, if_neg (by rwa [freadOk_iff hsize])]

lemma readBe_eq_ok (hsize : size ≠ 0)
    (hval : ∀ f o, o + size ≤ f.length →
      assemble (fun i => (((Stream.mk f o).fread size)[i]?).getD 0) = value f o)
    {f : List Byte} {n o : ℕ} (hn : n ≠ 0) {dst : List α} {s : Stream} :
    readBe size assemble ⟨f, o⟩ n = .ok (dst, s) ↔ o + size * n ≤ f.length ∧
      (dst = (List.range n).map fun k => value f (o + size * k)) ∧ s = ⟨f, o + size * n⟩ := by
  by_cases hfit : o + size * n ≤ f.length
  · rw [readBe_ok hsize hval hfit]
    simp [hfit, eq_comm]
  · rw [readBe_error hsize hn (by omega)]
    simp [hfit]

end ReadBe

lemma assemble_word {f : List Byte} {o : ℕ} (h : o + 4 ≤ f.length) :
    assembleWord (fun i => (((Stream.mk f o).fread 4)[i]?).getD 0) = beWord f o := by
  have hbig : ∀ buf, assembleWord buf = getBigWord buf 0 := fun _ => rfl
  have hblock : readBlock (fun i => (((Stream.mk f o).fread 4)[i]?).getD 0) 0 4 =
      (f.drop o).take 4 := by
    apply List.ext_getElem (by simp; omega)
    intro i h₁ h₂
    rw [getElem_readBlock, Nat.zero_add, Stream.fread, List.getElem?_eq_getElem h₂,
      Option.getD_some]
  rw [hbig, getBigWord_eq, hblock, beWord, beNat]

lemma assemble_half {f : List Byte} {o : ℕ} (h : o + 2 ≤ f.length) :
    assembleHalf (fun i => (((Stream.mk f o).fread 2)[i]?).getD 0) = beHalf f o := by
  obtain ⟨b₀, b₁, hbs⟩ := List.length_eq_two.mp
    (show ((f.drop o).take 2).length = 2 by simp; omega)
  have h₀ := b₀.isLt
  have h₁ := b₁.isLt
  have hhigh : (b₀.setWidth 16 <<< 8).toNat = b₀.toNat <<< 8 := by
    rw [BitVec.toNat_shiftLeft, BitVec.toNat_setWidth_of_le (by decide), Nat.shiftLeft_eq,
      Nat.mod_eq_of_lt (by omega)]
  apply BitVec.eq_of_toNat_eq
  simp only [assembleHalf, Stream.fread, hbs, beHalf, beNat, ofBigEndian, List.getElem?_cons_zero,
    List.getElem?_cons_succ, Option.getD_some, List.foldl_cons, List.foldl_nil]
  rw [BitVec.toNat_or, hhigh, BitVec.toNat_setWidth_of_le (by decide), shiftLeft_or_byte,
    BitVec.toNat_ofNat, Nat.mod_eq_of_lt (by omega)]
  omega

lemma readBeWords_eq_ok {f : List Byte} {n o : ℕ} (hn : n ≠ 0) {dst : List Word} {s : Stream} :
    readBeWords ⟨f, o⟩ n = .ok (dst, s) ↔ o + 4 * n ≤ f.length ∧
      (dst = (List.range n).map fun k => beWord f (o + 4 * k)) ∧ s = ⟨f, o + 4 * n⟩ :=
  readBe_eq_ok (by decide) (fun _ _ h => assemble_word h) hn

lemma readBeHalfWords_eq_ok {f : List Byte} {n o : ℕ} (hn : n ≠ 0) {dst : List (BitVec 16)}
    {s : Stream} :
    readBeHalfWords ⟨f, o⟩ n = .ok (dst, s) ↔ o + 2 * n ≤ f.length ∧
      (dst = (List.range n).map fun k => beHalf f (o + 2 * k)) ∧ s = ⟨f, o + 2 * n⟩ :=
  readBe_eq_ok (by decide) (fun _ _ h => assemble_half h) hn

/-! ### The file header -/

/-- The header that the first 52 bytes of a file spell. -/
def ehdrOf (f : List Byte) : Ehdr where
  eIdent := f.take 16
  eType := beHalf f 16
  eMachine := beHalf f 18
  eVersion := beWord f 20
  eEntry := beWord f 24
  ePhoff := beWord f 28
  eShoff := beWord f 32
  eFlags := beWord f 36
  eEhsize := beHalf f 40
  ePhentsize := beHalf f 42
  ePhnum := beHalf f 44
  eShentsize := beHalf f 46
  eShnum := beHalf f 48
  eShstrndx := beHalf f 50

/-- A complete header of a 32-bit big-endian MIPS executable. -/
structure HeaderOk (f : List Byte) : Prop where
  complete : 52 ≤ f.length
  magic : f[0]? = some 0x7F#8 ∧ f[1]? = some 0x45#8 ∧ f[2]? = some 0x4C#8 ∧ f[3]? = some 0x46#8
  class32 : f[4]? = some 1#8
  msb : f[5]? = some 2#8
  exec : beHalf f 16 = 2#16
  mips : beHalf f 18 = 8#16

lemma readElfIdent_eq_ok {f eIdent : List Byte} {s : Stream} :
    readElfIdent ⟨f, 0⟩ = .ok (eIdent, s) ↔ 16 ≤ f.length ∧
      (f[0]? = some 0x7F#8 ∧ f[1]? = some 0x45#8 ∧ f[2]? = some 0x4C#8 ∧ f[3]? = some 0x46#8) ∧
      f[4]? = some 1#8 ∧ f[5]? = some 2#8 ∧ eIdent = f.take 16 ∧ s = ⟨f, 16⟩ := by
  have hok : (Stream.mk f 0).freadOk eiNident ↔ 16 ≤ f.length := by
    rw [freadOk_iff (by decide), eiNident, Nat.zero_add]
  by_cases hfit : 16 ≤ f.length
  · have hread : (Stream.mk f 0).fread eiNident = f.take 16 := rfl
    have hnext : (Stream.mk f 0).advance eiNident = ⟨f, 16⟩ :=
      advance_eq (by rw [Nat.zero_add]; exact hfit)
    have hget : ∀ {i}, i < 16 → (f.take 16)[i]? = f[i]? := fun h => List.getElem?_take_of_lt h
    rw [readElfIdent, if_pos (hok.mpr hfit), hread, hnext]
    simp only [bind_eq_ok, pure_eq_ok, checkMagicNumber, checkElfClass32, checkDataEncoding,
      check_eq_ok, not_or, not_not, hget (show 0 < 16 by decide), hget (show 1 < 16 by decide),
      hget (show 2 < 16 by decide), hget (show 3 < 16 by decide), hget (show 4 < 16 by decide),
      hget (show 5 < 16 by decide), exists_const, Prod.mk.injEq, hfit, true_and,
      eq_comm (b := eIdent), eq_comm (b := s)]
  · rw [readElfIdent, if_neg (mt hok.mp hfit)]
    simp [hfit]

lemma readTypeAndMachine_eq_ok {f : List Byte} {eType eMachine : BitVec 16} {s : Stream} :
    readTypeAndMachine ⟨f, 16⟩ = .ok (eType, eMachine, s) ↔ 20 ≤ f.length ∧
      beHalf f 16 = 2#16 ∧ beHalf f 18 = 8#16 ∧ eType = beHalf f 16 ∧ eMachine = beHalf f 18 ∧
      s = ⟨f, 20⟩ := by
  simp only [readTypeAndMachine, bind_eq_ok, pure_eq_ok, Prod.exists,
    readBeHalfWords_eq_ok (show 2 ≠ 0 by decide), checkType, checkMachine, check_eq_ok, not_not,
    exists_const, Prod.mk.injEq]
  constructor
  · rintro ⟨dst, s', ⟨hfit, rfl, rfl⟩, htype, hmach, rfl, rfl, rfl⟩
    exact ⟨hfit, htype, hmach, rfl, rfl, rfl⟩
  · rintro ⟨hfit, htype, hmach, rfl, rfl, rfl⟩
    exact ⟨_, _, ⟨hfit, rfl, rfl⟩, htype, hmach, rfl, rfl, rfl⟩

/-- The header is read exactly when it is complete and passes the checks. -/
lemma readEhdr_eq_ok {f : List Byte} {ehdr : Ehdr} {s : Stream} :
    readEhdr ⟨f, 0⟩ = .ok (ehdr, s) ↔ HeaderOk f ∧ ehdr = ehdrOf f ∧ s = ⟨f, 52⟩ := by
  simp only [readEhdr, bind_eq_ok, pure_eq_ok, Prod.exists, readElfIdent_eq_ok]
  constructor
  · rintro ⟨_, _, ⟨-, hmagic, hclass, hmsb, rfl, rfl⟩, h⟩
    simp only [readTypeAndMachine_eq_ok] at h
    obtain ⟨_, _, _, ⟨-, hexec, hmips, rfl, rfl, rfl⟩, h⟩ := h
    simp only [readBeWords_eq_ok (show 5 ≠ 0 by decide)] at h
    obtain ⟨_, _, ⟨-, rfl, rfl⟩, h⟩ := h
    simp only [readBeHalfWords_eq_ok (show 6 ≠ 0 by decide)] at h
    obtain ⟨_, _, ⟨hfit, rfl, rfl⟩, h⟩ := h
    simp only [Prod.mk.injEq] at h
    obtain ⟨rfl, rfl⟩ := h
    exact ⟨⟨hfit, hmagic, hclass, hmsb, hexec, hmips⟩, rfl, rfl⟩
  · rintro ⟨⟨hfit, hmagic, hclass, hmsb, hexec, hmips⟩, rfl, rfl⟩
    refine ⟨_, _, ⟨by omega, hmagic, hclass, hmsb, rfl, rfl⟩, _, _, _,
      readTypeAndMachine_eq_ok.mpr ⟨by omega, hexec, hmips, rfl, rfl, rfl⟩, _, _,
      (readBeWords_eq_ok (by decide)).mpr ⟨by omega, rfl, rfl⟩, _, _,
      (readBeHalfWords_eq_ok (by decide)).mpr ⟨by omega, rfl, rfl⟩, rfl⟩

/-! ### Program headers -/

/-- The six words of the program header entry at offset `o`. -/
def phdrAt (f : List Byte) (o : ℕ) : PHeader where
  pType := beWord f o
  pOffset := beWord f (o + 4)
  pVaddr := beWord f (o + 8)
  pPaddr := beWord f (o + 12)
  pFilesz := beWord f (o + 16)
  pMemsz := beWord f (o + 20)

/-- The bytes of the file that a segment is loaded from. -/
def segmentData (f : List Byte) (p : PHeader) : List Byte :=
  (f.drop p.pOffset.toNat).take p.pFilesz.toNat

/-- The entry at `o` is there as far as the loader reads it, is of a type the loader knows, and its
data are there if it is to be loaded. -/
structure EntryOk (f : List Byte) (o : ℕ) : Prop where
  complete : o + 24 ≤ f.length
  known : (phdrAt f o).pType ∈ [ptNull, ptNote, ptMipsAbiflags, ptLoad]
  data : (phdrAt f o).pType = ptLoad →
    (phdrAt f o).pOffset.toNat + (phdrAt f o).pFilesz.toNat ≤ f.length

lemma copyCurSegmentAux_eq (f : List Byte) (o : ℕ) (mem : Mmu) :
    copyCurSegmentAux ⟨f, o⟩ mem =
      if o + 24 ≤ f.length then
        if (phdrAt f o).pType = ptNull ∨ (phdrAt f o).pType = ptNote ∨
            (phdrAt f o).pType = ptMipsAbiflags then .ok (none, mem)
        else if (phdrAt f o).pType = ptLoad then copySegment ⟨f, o + 24⟩ (phdrAt f o) mem
        else .ok (some .notSupported, mem)
      else .ok (some .ioError, mem) := by
  by_cases hfit : o + 24 ≤ f.length
  · have hread := (readBeWords_eq_ok (n := 6) (by decide)).mpr ⟨hfit, rfl, rfl⟩
    rw [copyCurSegmentAux, hread, if_pos hfit]
    rfl
  · have hread : readBeWords ⟨f, o⟩ 6 = .error .ioError :=
      readBe_error (by decide) (by decide) (by omega)
    rw [copyCurSegmentAux, hread, if_neg hfit]

/-- The stores of a segment whose data are in the file. -/
lemma copySegment_eq_ok {f : List Byte} {o : ℕ} {p : PHeader} {mem mem' : Mmu} :
    copySegment ⟨f, o⟩ p mem = .ok (none, mem') ↔
      p.pFilesz.toNat ≠ 0 ∧ p.pOffset.toNat + p.pFilesz.toNat ≤ f.length ∧
      ∃ mem₁, mem.store (translate p.pVaddr mem) (List.replicate p.pMemsz.toNat 0) = .ok mem₁ ∧
        mem₁.store (translate p.pVaddr mem) (segmentData f p) = .ok mem' := by
  have hread : ((Stream.mk f o).fseek p.pOffset.toNat).fread p.pFilesz.toNat = segmentData f p := rfl
  have hok : ((Stream.mk f o).fseek p.pOffset.toNat).freadOk p.pFilesz.toNat ↔
      p.pFilesz.toNat ≠ 0 ∧ p.pOffset.toNat + p.pFilesz.toNat ≤ f.length := by
    by_cases hz : p.pFilesz.toNat = 0
    · simp [Stream.freadOk, hz]
    · simpa [hz, Stream.fseek] using freadOk_iff (f := f) (o := p.pOffset.toNat) hz
  simp only [copySegment, bind_eq_ok, hread]
  by_cases hin : p.pFilesz.toNat ≠ 0 ∧ p.pOffset.toNat + p.pFilesz.toNat ≤ f.length
  · simp [hok.mpr hin, pure_eq_ok, hin.1, hin.2]
  · constructor
    · rintro ⟨mem₁, -, mem₂, -, h⟩
      rw [if_neg (mt hok.mp hin), pure_eq_ok] at h
      cases h
    · rintro ⟨h₁, h₂, -⟩
      exact absurd ⟨h₁, h₂⟩ hin

/-- What a successful entry has checked, and what it has done. -/
lemma copyCurSegmentAux_eq_ok {f : List Byte} {o : ℕ} {mem mem' : Mmu}
    (h : copyCurSegmentAux ⟨f, o⟩ mem = .ok (none, mem')) :
    EntryOk f o ∧
      if (phdrAt f o).pType = ptLoad then copySegment ⟨f, o + 24⟩ (phdrAt f o) mem = .ok (none, mem')
      else mem' = mem := by
  rw [copyCurSegmentAux_eq] at h
  split at h
  · rename_i hfit
    split at h
    · rename_i hskip
      have hne : (phdrAt f o).pType ≠ ptLoad := by
        rcases hskip with h' | h' | h' <;> rw [h'] <;> decide
      cases h
      refine ⟨⟨hfit, ?_, fun h' => absurd h' hne⟩, by rw [if_neg hne]⟩
      simp only [List.mem_cons, List.not_mem_nil, or_false]
      tauto
    · split at h
      · rename_i hload
        refine ⟨⟨hfit, by simp [hload], fun _ => (copySegment_eq_ok.mp h).2.1⟩, ?_⟩
        rw [if_pos hload]
        exact h
      · cases h
  · cases h

/-! ### The memory image -/

/-- A segment applied to a memory indexed by guest addresses: zeros first, then the data. -/
def applySegment (f : List Byte) (m : ℕ → Byte) (p : PHeader) : ℕ → Byte :=
  writeBlock (writeBlock m p.pVaddr.toNat (List.replicate p.pMemsz.toNat 0)) p.pVaddr.toNat
    (segmentData f p)

/-- The entries of a table of `n` entries of `size` bytes at `o`. -/
def entries (f : List Byte) (o size n : ℕ) : List PHeader :=
  (List.range n).map fun i => phdrAt f (o + i * size)

/-- The segments that are loaded, in table order. -/
def loads (f : List Byte) (o size n : ℕ) : List PHeader :=
  (entries f o size n).filter (·.pType = ptLoad)

/-- All bytes that the segment touches lie in populated kseg0. -/
def InRange (mem : Mmu) (p : PHeader) : Prop :=
  InKseg0 mem p.pVaddr (max p.pFilesz.toNat p.pMemsz.toNat)

instance (mem : Mmu) (p : PHeader) : Decidable (InRange mem p) :=
  inferInstanceAs (Decidable (_ ∧ _))

/-- The two memories agree: `m` by guest address, the other one by offset into `pmem`. -/
def Agree (m pmem : ℕ → Byte) : Prop := ∀ i, pmem i = m (0x80000000 + i)

lemma Agree.writeBlock {m pmem : ℕ → Byte} (h : Agree m pmem) {v : Word}
    (hv : 0x80000000 ≤ v.toNat) (bs : List Byte) :
    Agree (writeBlock m v.toNat bs) (writeBlock pmem (kseg0Offset v) bs) := by
  intro i
  have hoff := kseg0Offset_add hv
  have hidx : 0x80000000 + i - v.toNat = i - kseg0Offset v := by omega
  simp only [ByteStore.writeBlock, hidx, h i]
  exact if_congr (by omega) rfl rfl

/-- The offset of an entry, counted from the second one. -/
lemma entry_offset_succ (o size k : ℕ) : o + (k + 1) * size = o + size + k * size := by
  rw [Nat.succ_mul]
  omega

lemma entries_succ (f : List Byte) (o size n : ℕ) :
    entries f o size (n + 1) = phdrAt f o :: entries f (o + size) size n := by
  simp only [entries, List.range_succ_eq_map, List.map_cons, List.map_map, Function.comp_def,
    entry_offset_succ, Nat.zero_mul, Nat.add_zero]

lemma withPmem_pmem_self (mem : Mmu) : mem.withPmem mem.pmem = mem := rfl

lemma store_kseg0 {mem mem' : Mmu} {v : Word} {n : ℕ} (h : InKseg0 mem v n) {bs : List Byte}
    (hn : bs.length ≤ n) (hpos : 0 < n)
    (hs : mem.store (translate v mem) bs = .ok mem') :
    mem' = mem.withPmem (writeBlock mem.pmem (kseg0Offset v) bs) := by
  have hle := h.offset_add_le
  rw [translate_kseg0 h hpos, Mmu.store] at hs
  split at hs
  · rename_i hnil
    rw [hnil, writeBlock_nil, withPmem_pmem_self]
    simpa using hs.symm
  · rw [if_pos (by omega)] at hs
    simpa using hs.symm

/-- A segment in range is loaded to the bytes that its addresses denote. -/
lemma copySegment_image {f : List Byte} {o : ℕ} {p : PHeader} {mem mem' : Mmu} {m : ℕ → Byte}
    (h : copySegment ⟨f, o⟩ p mem = .ok (none, mem')) (hin : InRange mem p)
    (hm : Agree m mem.pmem) :
    mem' = mem.withPmem mem'.pmem ∧ Agree (applySegment f m p) mem'.pmem ∧
      ∀ i, populatedKseg0 mem ≤ i → mem'.pmem i = mem.pmem i := by
  obtain ⟨hne, -, mem₁, h₁, h₂⟩ := copySegment_eq_ok.mp h
  have hpos : 0 < max p.pFilesz.toNat p.pMemsz.toNat := by omega
  have hdata : (segmentData f p).length ≤ max p.pFilesz.toNat p.pMemsz.toNat := by
    simp only [segmentData, List.length_take]
    omega
  have hzero : (List.replicate p.pMemsz.toNat (0 : Byte)).length ≤
      max p.pFilesz.toNat p.pMemsz.toNat := by
    rw [List.length_replicate]
    omega
  have hmem₁ := store_kseg0 hin hzero hpos h₁
  have hin₁ : InKseg0 mem₁ p.pVaddr (max p.pFilesz.toNat p.pMemsz.toNat) := by
    rw [hmem₁]
    exact hin
  have hsame : translate p.pVaddr mem = translate p.pVaddr mem₁ := by
    rw [translate_kseg0 hin hpos, translate_kseg0 hin₁ hpos]
  rw [hsame] at h₂
  have hmem' := store_kseg0 hin₁ hdata hpos h₂
  rw [hmem₁, Mmu.withPmem_withPmem, Mmu.withPmem_pmem] at hmem'
  have hoff := kseg0Offset_add hin.1
  refine ⟨by rw [hmem']; rfl, ?_, ?_⟩
  · rw [hmem']
    exact (hm.writeBlock hin.1 _).writeBlock hin.1 _
  · intro i hi
    have hend := hin.2
    rw [hmem', Mmu.withPmem_pmem, writeBlock_of_le (by omega), writeBlock_of_le (by omega)]

/-- One step of the loop over the table: it stops with the error of the entry, or goes on behind the
entry. -/
lemma copySegments_succ_eq_ok {f : List Byte} {ehdr : Ehdr} {n o : ℕ} {mem mem' : Mmu}
    {r : Option ElfError} :
    copySegments ehdr (n + 1) ⟨f, o⟩ mem = .ok (r, mem') ↔
      (∃ e, copyCurSegmentAux ⟨f, o⟩ mem = .ok (some e, mem') ∧ r = some e) ∨
      ∃ mem₁, copyCurSegmentAux ⟨f, o⟩ mem = .ok (none, mem₁) ∧
        copySegments ehdr n ⟨f, o + ehdr.ePhentsize.toNat⟩ mem₁ = .ok (r, mem') := by
  simp only [copySegments, copyCurSegment]
  cases haux : copyCurSegmentAux ⟨f, o⟩ mem with
  | error e => simp [bind, Except.bind]
  | ok x =>
    obtain ⟨r₁, mem₁⟩ := x
    cases r₁ with
    | none => simp [bind, Except.bind, pure, Except.pure, Stream.fseek]
    | some e =>
      simp only [bind, Except.bind, pure, Except.pure, Except.ok.injEq, Prod.mk.injEq,
        Option.some.injEq, reduceCtorEq, false_and, exists_false, or_false]
      constructor
      · rintro ⟨rfl, rfl⟩
        exact ⟨e, ⟨rfl, rfl⟩, rfl⟩
      · rintro ⟨_, ⟨rfl, rfl⟩, rfl⟩
        exact ⟨rfl, rfl⟩

/-- The loop over the table: what it has checked, and the memory it leaves. -/
lemma copySegments_eq_ok {f : List Byte} {ehdr : Ehdr} {n o : ℕ} {mem mem' : Mmu}
    (h : copySegments ehdr n ⟨f, o⟩ mem = .ok (none, mem')) :
    (∀ i < n, EntryOk f (o + i * ehdr.ePhentsize.toNat)) ∧
      ∀ m, (∀ p ∈ loads f o ehdr.ePhentsize.toNat n, InRange mem p) → Agree m mem.pmem →
        mem' = mem.withPmem mem'.pmem ∧
        Agree ((loads f o ehdr.ePhentsize.toNat n).foldl (applySegment f) m) mem'.pmem ∧
        ∀ i, populatedKseg0 mem ≤ i → mem'.pmem i = mem.pmem i := by
  induction n generalizing o mem with
  | zero =>
    simp only [copySegments, Except.ok.injEq, Prod.mk.injEq, true_and] at h
    subst h
    refine ⟨by simp, fun m _ hm => ⟨rfl, by simpa [loads, entries] using hm, fun i _ => rfl⟩⟩
  | succ n ih =>
    rcases copySegments_succ_eq_ok.mp h with ⟨e, -, he⟩ | ⟨mem₂, haux, h⟩
    · cases he
    obtain ⟨hentry, hdone⟩ := copyCurSegmentAux_eq_ok haux
    obtain ⟨hrest, himage⟩ := ih h
    refine ⟨?_, ?_⟩
    · intro i hi
      cases i with
      | zero => simpa using hentry
      | succ i =>
        rw [entry_offset_succ]
        exact hrest i (Nat.lt_of_succ_lt_succ hi)
    · intro m hin hm
      rw [loads, entries_succ] at hin ⊢
      by_cases hload : (phdrAt f o).pType = ptLoad
      · rw [if_pos hload] at hdone
        rw [List.filter_cons_of_pos (by simpa using hload)] at hin ⊢
        obtain ⟨hwith, hagree, hkeep⟩ := copySegment_image hdone (hin _ List.mem_cons_self) hm
        have hin₂ : ∀ p ∈ loads f (o + ehdr.ePhentsize.toNat) ehdr.ePhentsize.toNat n,
            InRange mem₂ p := by
          intro p hp
          rw [hwith]
          exact hin p (List.mem_cons_of_mem _ hp)
        obtain ⟨hwith', hagree', hkeep'⟩ := himage _ hin₂ hagree
        have hpop : populatedKseg0 mem₂ = populatedKseg0 mem := by
          rw [hwith]
          rfl
        refine ⟨?_, hagree', ?_⟩
        · rw [hwith', hwith]
          rfl
        · intro i hi
          rw [hkeep' i (by rw [hpop]; exact hi), hkeep i hi]
      · rw [if_neg hload] at hdone
        subst hdone
        rw [List.filter_cons_of_neg (by simpa using hload)] at hin ⊢
        exact himage m hin hm

/-! ### Files cut short -/

lemma beNat_take {f : List Byte} {n o size : ℕ} (h : o + size ≤ n) :
    beNat (f.take n) o size = beNat f o size := by
  rw [beNat, beNat, List.drop_take, List.take_take, Nat.min_eq_left (by omega)]

lemma beWord_take {f : List Byte} {n o : ℕ} (h : o + 4 ≤ n) : beWord (f.take n) o = beWord f o := by
  rw [beWord, beNat_take h, beWord]

lemma beHalf_take {f : List Byte} {n o : ℕ} (h : o + 2 ≤ n) : beHalf (f.take n) o = beHalf f o := by
  rw [beHalf, beNat_take h, beHalf]

lemma phdrAt_take {f : List Byte} {n o : ℕ} (h : o + 24 ≤ n) : phdrAt (f.take n) o = phdrAt f o := by
  simp only [phdrAt]
  rw [beWord_take (by omega), beWord_take (by omega), beWord_take (by omega),
    beWord_take (by omega), beWord_take (by omega), beWord_take (by omega)]

lemma ehdrOf_take {f : List Byte} {n : ℕ} (h : 52 ≤ n) : ehdrOf (f.take n) = ehdrOf f := by
  have hident : (f.take n).take 16 = f.take 16 := by
    rw [List.take_take, Nat.min_eq_left (by omega)]
  simp only [ehdrOf, hident]
  rw [beHalf_take (by omega), beHalf_take (by omega), beHalf_take (by omega),
    beHalf_take (by omega), beHalf_take (by omega), beHalf_take (by omega), beHalf_take (by omega),
    beHalf_take (by omega), beWord_take (by omega), beWord_take (by omega), beWord_take (by omega),
    beWord_take (by omega), beWord_take (by omega)]

/-- A shorter list can be stored wherever a longer one was. -/
lemma store_of_length_le {mem mem' : Mmu} {ptr : Option ℕ} {bs cs : List Byte}
    (h : mem.store ptr bs = .ok mem') (hlen : cs.length ≤ bs.length) :
    ∃ mem'', mem.store ptr cs = .ok mem'' := by
  unfold Mmu.store at h ⊢
  by_cases hcs : cs = []
  · exact ⟨mem, by rw [if_pos hcs]⟩
  · have hbs : bs ≠ [] := by
      rintro rfl
      simp at hlen
      exact hcs hlen
    rw [if_neg hbs] at h
    rw [if_neg hcs]
    cases ptr with
    | none => cases h
    | some o =>
      simp only at h ⊢
      split at h
      · exact ⟨_, if_pos (by omega)⟩
      · cases h

/-- The same result, or a return value other than `0`. -/
def SameOrError {α : Type} (r r' : Except HostFault (Option ElfError × α)) : Prop :=
  r' = r ∨ ∃ e a, r' = .ok (some e, a)

/-- An entry of a file cut short either is treated alike or is refused. -/
lemma copyCurSegmentAux_take {f : List Byte} {o n : ℕ} {mem mem' : Mmu}
    (h : copyCurSegmentAux ⟨f, o⟩ mem = .ok (none, mem')) :
    SameOrError (.ok (none, mem')) (copyCurSegmentAux ⟨f.take n, o⟩ mem) := by
  obtain ⟨hentry, hdone⟩ := copyCurSegmentAux_eq_ok h
  rw [copyCurSegmentAux_eq] at h ⊢
  by_cases hfit : o + 24 ≤ (f.take n).length
  swap
  · exact Or.inr ⟨_, _, if_neg hfit⟩
  have hn : o + 24 ≤ n := by
    rw [List.length_take] at hfit
    omega
  rw [if_pos hentry.complete] at h
  rw [if_pos hfit, phdrAt_take hn]
  by_cases hload : (phdrAt f o).pType = ptLoad
  swap
  · simp only [hload, if_false] at h ⊢
    exact Or.inl h
  have hskip : ¬ ((phdrAt f o).pType = ptNull ∨ (phdrAt f o).pType = ptNote ∨
      (phdrAt f o).pType = ptMipsAbiflags) := by
    rw [hload]
    decide
  rw [if_pos hload] at hdone
  rw [if_neg hskip, if_pos hload]
  obtain ⟨hne, hdata, mem₁, h₁, h₂⟩ := copySegment_eq_ok.mp hdone
  by_cases hcut : (phdrAt f o).pOffset.toNat + (phdrAt f o).pFilesz.toNat ≤ (f.take n).length
  · left
    have hsame : segmentData (f.take n) (phdrAt f o) = segmentData f (phdrAt f o) := by
      rw [List.length_take] at hcut
      rw [segmentData, segmentData, List.drop_take, List.take_take, Nat.min_eq_left (by omega)]
    exact copySegment_eq_ok.mpr ⟨hne, hcut, mem₁, h₁, by rw [hsame]; exact h₂⟩
  · right
    have hshort : (segmentData (f.take n) (phdrAt f o)).length ≤
        (segmentData f (phdrAt f o)).length := by
      simp only [segmentData, List.length_take, List.length_drop]
      omega
    obtain ⟨mem₂, h₃⟩ := store_of_length_le h₂ hshort
    refine ⟨.ioError, mem₂, ?_⟩
    have hfail : ¬ ((Stream.mk (f.take n) (o + 24)).fseek (phdrAt f o).pOffset.toNat).freadOk
        (phdrAt f o).pFilesz.toNat := mt (freadOk_iff hne).mp hcut
    simp only [copySegment, bind_eq_ok]
    exact ⟨mem₁, h₁, mem₂, h₃, by rw [if_neg hfail]; rfl⟩

lemma copySegments_take {f : List Byte} {ehdr : Ehdr} {n k o : ℕ} {mem mem' : Mmu}
    (h : copySegments ehdr k ⟨f, o⟩ mem = .ok (none, mem')) :
    SameOrError (.ok (none, mem')) (copySegments ehdr k ⟨f.take n, o⟩ mem) := by
  induction k generalizing o mem with
  | zero => exact Or.inl h
  | succ k ih =>
    rcases copySegments_succ_eq_ok.mp h with ⟨e, -, he⟩ | ⟨mem₂, haux, h⟩
    · cases he
    rcases copyCurSegmentAux_take (n := n) haux with hsame | ⟨e, m, herr⟩
    · have hrest := ih h
      simp only [copySegments, copyCurSegment, hsame, bind, Except.bind, pure, Except.pure]
      exact hrest
    · right
      refine ⟨e, m, ?_⟩
      simp only [copySegments, copyCurSegment, herr, bind, Except.bind, pure, Except.pure]

/-! ### Soundness -/

/-- The offset of the `i`-th program header entry. -/
def entryOffset (f : List Byte) (i : ℕ) : ℕ :=
  (ehdrOf f).ePhoff.toNat + i * (ehdrOf f).ePhentsize.toNat

/-- The file has a good header, and all entries of its program header table are good. -/
structure ElfOk (f : List Byte) : Prop where
  header : HeaderOk f
  entry : ∀ i < (ehdrOf f).ePhnum.toNat, EntryOk f (entryOffset f i)

/-- The `PT_LOAD` segments of a file in table order. -/
def loadSegments (f : List Byte) : List PHeader :=
  loads f (ehdrOf f).ePhoff.toNat (ehdrOf f).ePhentsize.toNat (ehdrOf f).ePhnum.toNat

/-- The memory by guest address, as kseg0 shows it. -/
def kseg0Image (mem : Mmu) (v : ℕ) : Byte := mem.pmem (v - 0x80000000)

/-- The segments of the file applied in table order to what kseg0 shows of the memory before. -/
def loadImage (f : List Byte) (mem : Mmu) : ℕ → Byte :=
  (loadSegments f).foldl (applySegment f) (kseg0Image mem)

/-- Cutting the file after `n` bytes loses something that the loader needs. -/
def CutsNeeded (f : List Byte) (n : ℕ) : Prop :=
  n < 52 ∨ ∃ i < (ehdrOf f).ePhnum.toNat, n < entryOffset f i + 24 ∨
    ((phdrAt f (entryOffset f i)).pType = ptLoad ∧
      n < (phdrAt f (entryOffset f i)).pOffset.toNat + (phdrAt f (entryOffset f i)).pFilesz.toNat)

lemma elfDump_eq_ok {f : List Byte} {entry entry' : Word} {mem mem' : Mmu}
    (h : elfDump (some f) entry mem = .ok (none, entry', mem')) :
    HeaderOk f ∧ entry' = (ehdrOf f).eEntry ∧
      copySegments (ehdrOf f) (ehdrOf f).ePhnum.toNat ⟨f, (ehdrOf f).ePhoff.toNat⟩ mem =
        .ok (none, mem') := by
  simp only [elfDump, elfOpen] at h
  cases hopen : readEhdr ⟨f, 0⟩ with
  | error e => simp [hopen] at h
  | ok r =>
    obtain ⟨ehdr, s⟩ := r
    obtain ⟨hheader, rfl, rfl⟩ := readEhdr_eq_ok.mp hopen
    simp only [hopen, bind_eq_ok, pure_eq_ok, Prod.exists, Prod.mk.injEq] at h
    obtain ⟨r, mem₁, hcopy, rfl, rfl, rfl⟩ := h
    exact ⟨hheader, rfl, hcopy⟩

lemma elfOk_of_elfDump {f : List Byte} {entry entry' : Word} {mem mem' : Mmu}
    (h : elfDump (some f) entry mem = .ok (none, entry', mem')) : ElfOk f := by
  obtain ⟨hheader, -, hcopy⟩ := elfDump_eq_ok h
  exact ⟨hheader, (copySegments_eq_ok hcopy).1⟩

/-- A file cut where the loader does not need it all is not a good file. -/
lemma not_elfOk_take {f : List Byte} {n : ℕ} (hcut : CutsNeeded f n) : ¬ ElfOk (f.take n) := by
  intro hok
  have hlen : ∀ {k}, k ≤ (f.take n).length → k ≤ n := by
    intro k hk
    rw [List.length_take] at hk
    omega
  have h52 := hlen hok.header.complete
  have hehdr := ehdrOf_take (f := f) h52
  have hoff : ∀ i, entryOffset (f.take n) i = entryOffset f i := by
    intro i
    rw [entryOffset, hehdr, entryOffset]
  rcases hcut with hcut | ⟨i, hi, hcut⟩
  · omega
  · obtain ⟨hcomplete, -, hdata⟩ := hok.entry i (by rw [hehdr]; exact hi)
    rw [hoff] at hcomplete hdata
    have hn := hlen hcomplete
    rw [phdrAt_take hn] at hdata
    rcases hcut with hcut | ⟨hload, hcut⟩
    · omega
    · have := hlen (hdata hload)
      omega

/-- A cut file is loaded as the whole one or refused; it does not make the loader fault. -/
lemma elfDump_take {f : List Byte} {n : ℕ} {entry entry' : Word} {mem mem' : Mmu}
    (h : elfDump (some f) entry mem = .ok (none, entry', mem')) :
    SameOrError (.ok (none, entry', mem')) (elfDump (some (f.take n)) entry mem) := by
  obtain ⟨hheader, rfl, hcopy⟩ := elfDump_eq_ok h
  simp only [elfDump, elfOpen]
  cases hopen : readEhdr ⟨f.take n, 0⟩ with
  | error e => exact Or.inr ⟨e, _, rfl⟩
  | ok r =>
    obtain ⟨ehdr, s⟩ := r
    obtain ⟨hheader', rfl, rfl⟩ := readEhdr_eq_ok.mp hopen
    have h52 : 52 ≤ n := by
      have := hheader'.complete
      rw [List.length_take] at this
      omega
    simp only [ehdrOf_take h52, copyAllSegments, Stream.fseek]
    rcases copySegments_take (n := n) hcopy with hsame | ⟨e, m, herr⟩
    · left
      rw [hsame]
      rfl
    · right
      rw [herr]
      exact ⟨e, _, rfl⟩

/-- Loading is sound: what a successful load has checked, the entry point and the memory it leaves,
and that cutting the file anywhere in what the loader reads makes it fail. -/
theorem elfDump_sound {f : List Byte} {entry entry' : Word} {mem mem' : Mmu}
    (h : elfDump (some f) entry mem = .ok (none, entry', mem')) :
    ElfOk f ∧ entry' = beWord f 24 ∧
      ((∀ p ∈ loadSegments f, InRange mem p) →
        mem' = mem.withPmem mem'.pmem ∧
        (∀ a dst, InKseg0 mem a 1 →
          mmuRead mem' a dst .byte = .ok (.none, (loadImage f mem a.toNat).setWidth 32, mem')) ∧
        ∀ i, populatedKseg0 mem ≤ i → mem'.pmem i = mem.pmem i) ∧
      ∀ n, CutsNeeded f n →
        ∃ e entry'' mem'', elfDump (some (f.take n)) entry mem = .ok (some e, entry'', mem'') := by
  obtain ⟨hheader, hentry, hcopy⟩ := elfDump_eq_ok h
  refine ⟨elfOk_of_elfDump h, hentry, ?_, ?_⟩
  · intro hin
    have hagree : Agree (kseg0Image mem) mem.pmem := by
      intro i
      rw [kseg0Image, Nat.add_sub_cancel_left]
    obtain ⟨hwith, himage, hkeep⟩ := (copySegments_eq_ok hcopy).2 _ hin hagree
    refine ⟨hwith, ?_, hkeep⟩
    intro a dst ha
    have ha' : InKseg0 mem' a MemOpSize.byte.bytes := by
      rw [hwith]
      exact ha
    rw [mmuRead_kseg0 ha']
    have hbyte := himage (kseg0Offset a)
    rw [kseg0Offset_add ha.1] at hbyte
    have hval : BitVec.ofNat 32 (ofBigEndian (readBlock mem'.pmem (kseg0Offset a)
        MemOpSize.byte.bytes)) = (mem'.pmem (kseg0Offset a)).setWidth 32 := by
      apply BitVec.eq_of_toNat_eq
      simp [MemOpSize.bytes, readBlock, ofBigEndian]
    rw [hval, hbyte]
    rfl
  · intro n hcut
    rcases elfDump_take (n := n) h with hsame | ⟨e, ⟨entry'', mem''⟩, herr⟩
    · exact absurd (elfOk_of_elfDump hsame) (not_elfOk_take hcut)
    · exact ⟨e, entry'', mem'', herr⟩

/-- A file header with one program header entry of 32 bytes right behind it. -/
def sampleHeader : List Byte :=
  [0x7F, 0x45, 0x4C, 0x46, 1, 2, 1, 0, 0, 0, 0, 0, 0, 0, 0, 0, 0, 2, 0, 8, 0, 0, 0, 1,
    0x80, 0, 0, 0, 0, 0, 0, 52, 0, 0, 0, 0, 0, 0, 0, 0, 0, 52, 0, 32, 0, 1, 0, 0, 0, 0, 0, 0]

/-- Four bytes of data, to be loaded to the start of kseg0 into eight zeroed bytes. -/
def sampleFile : List Byte :=
  sampleHeader ++ [0, 0, 0, 1, 0, 0, 0, 84, 0x80, 0, 0, 0, 0x80, 0, 0, 0, 0, 0, 0, 4, 0, 0, 0, 8,
    0, 0, 0, 5, 0, 0, 0, 4] ++ [0x11, 0x22, 0x33, 0x44]

theorem elfDump_sound_sample :
    ∃ mem', elfDump (some sampleFile) 0 (mmuInit 128) = .ok (none, 0x80000000#32, mem') ∧
      ElfOk sampleFile ∧
      mmuRead mem' 0x80000001#32 0 .byte = .ok (.none, 0x22#32, mem') ∧
      ∃ e entry mem'', elfDump (some (sampleFile.take 87)) 0 (mmuInit 128) =
        .ok (some e, entry, mem'') := by
  have h : elfDump (some sampleFile) 0 (mmuInit 128) = .ok (none, 0x80000000#32,
      (mmuInit 128).withPmem (writeBlock (writeBlock (fun _ => 0) 0 (List.replicate 8 0)) 0
        [0x11, 0x22, 0x33, 0x44])) := by
    rfl
  obtain ⟨hok, -, himage, hcut⟩ := elfDump_sound h
  obtain ⟨-, hread, -⟩ := himage (by decide)
  refine ⟨_, h, hok, ?_, hcut 87 ?_⟩
  · rw [hread _ _ (by decide)]
    rfl
  · exact Or.inr ⟨0, by decide, Or.inr ⟨by decide, by decide⟩⟩

/-- A file that ends behind the six words of its only entry, of type `PT_NULL`. -/
def shortTable : List Byte := sampleHeader ++ List.replicate 24 0

/-- The loader accepts a file although the last two words of a program header entry are missing. -/
theorem not_entries_complete :
    ¬ (elfDump (some shortTable) 0 (mmuInit 128) = .ok (none, 0x80000000#32, mmuInit 128) →
      ∀ i < (ehdrOf shortTable).ePhnum.toNat,
        entryOffset shortTable i + sizeofPHeader ≤ shortTable.length) := by
  intro h
  exact absurd (h rfl 0 (by decide)) (by decide)

end MipsSim
