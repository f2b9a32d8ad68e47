import MipsSim.Memory.Basic
import MipsSim.Lib.Run

/-!
# Address translation and plain memory

The two-step translation in closed form, and what follows from it: which addresses denote the same
byte of `pmem`, and that the kseg0 part of `pmem` is a big-endian byte array.
-/

namespace MipsSim

open ByteStore Run

/-! ### The access macros are the big-endian coding -/

lemma ofBigEndian_readBlock_two (m : ℕ → Byte) (o : ℕ) :
    ofBigEndian (readBlock m o 2) = (m o).toNat * 256 + (m (o + 1)).toNat := by
  simp [readBlock, ofBigEndian, List.range_succ]

lemma ofBigEndian_readBlock_four (m : ℕ → Byte) (o : ℕ) :
    ofBigEndian (readBlock m o 4) =
      (((m o).toNat * 256 + (m (o + 1)).toNat) * 256 + (m (o + 2)).toNat) * 256 +
        (m (o + 3)).toNat := by
  simp [readBlock, ofBigEndian, List.range_succ]

lemma getBigHalf_eq (m : ℕ → Byte) (o : ℕ) :
    getBigHalf m o = BitVec.ofNat 32 (ofBigEndian (readBlock m o 2)) := by
  apply BitVec.eq_of_toNat_eq
  have h0 := (m o).isLt
  have h1 := (m (o + 1)).isLt
  have hfirst : ((((m o).setWidth 32 <<< 8).setWidth 16).setWidth 32).toNat = (m o).toNat <<< 8 := by
    rw [BitVec.toNat_setWidth_of_le (by decide), BitVec.toNat_setWidth,
      toNat_byte_shiftLeft _ (by decide), Nat.shiftLeft_eq, Nat.mod_eq_of_lt (by omega)]
  rw [getBigHalf, BitVec.toNat_or, hfirst, BitVec.toNat_setWidth_of_le (by decide),
    shiftLeft_or_byte, BitVec.toNat_ofNat, ofBigEndian_readBlock_two, Nat.mod_eq_of_lt (by omega)]

lemma getBigWord_eq (m : ℕ → Byte) (o : ℕ) :
    getBigWord m o = BitVec.ofNat 32 (ofBigEndian (readBlock m o 4)) := by
  apply BitVec.eq_of_toNat_eq
  have hor : ∀ a b k : ℕ, a <<< (8 + k) ||| b <<< k = (a <<< 8 ||| b) <<< k := by
    intro a b k
    rw [Nat.shiftLeft_or_distrib, Nat.shiftLeft_add]
  have hlt : ofBigEndian (readBlock m o 4) < 2 ^ 32 := by
    simpa using ofBigEndian_lt (readBlock m o 4)
  rw [BitVec.toNat_ofNat, Nat.mod_eq_of_lt hlt, ofBigEndian_readBlock_four, getBigWord,
    BitVec.toNat_or, BitVec.toNat_or, BitVec.toNat_or, toNat_byte_shiftLeft _ (by decide),
    toNat_byte_shiftLeft _ (by decide), toNat_byte_shiftLeft _ (by decide),
    BitVec.toNat_setWidth_of_le (by decide), hor _ _ 16, shiftLeft_or_byte, hor _ _ 8,
    shiftLeft_or_byte, shiftLeft_or_byte]

/-- Every `GET_BIG*` macro reads the big-endian number of its bytes. -/
lemma getBig_eq (opSize : MemOpSize) (m : ℕ → Byte) (o : ℕ) :
    getBig opSize m o = BitVec.ofNat 32 (ofBigEndian (readBlock m o opSize.bytes)) := by
  cases opSize with
  | byte =>
    apply BitVec.eq_of_toNat_eq
    simp [getBig, getBigByte, MemOpSize.bytes, readBlock, ofBigEndian]
  | half => exact getBigHalf_eq m o
  | word => exact getBigWord_eq m o

lemma setWidth_eq_ofNat {w : Word} {n : ℕ} (h : w.toNat % 256 = n % 256) :
    w.setWidth 8 = BitVec.ofNat 8 n := by
  apply BitVec.eq_of_toNat_eq
  rw [BitVec.toNat_setWidth, BitVec.toNat_ofNat]
  exact h

/-- The shift pairs of `SET_BIGHALF` and `SET_BIGWORD` select one byte of the value. -/
lemma toNat_shiftLeft_ushiftRight (v : Word) {k : ℕ} (hk : k ≤ 24) :
    (v <<< k >>> 24).toNat % 256 = v.toNat / 2 ^ (24 - k) % 256 := by
  have hsplit : 2 ^ 32 = 2 ^ k * 2 ^ (32 - k) := by rw [← pow_add]; congr 1; omega
  have htop : 2 ^ 24 = 2 ^ k * 2 ^ (24 - k) := by rw [← pow_add]; congr 1; omega
  have hrest : 2 ^ (32 - k) = 2 ^ (24 - k) * 256 := by
    rw [show (256 : ℕ) = 2 ^ 8 from rfl, ← pow_add]; congr 1; omega
  rw [BitVec.toNat_ushiftRight, BitVec.toNat_shiftLeft, Nat.shiftRight_eq_div_pow,
    Nat.shiftLeft_eq, Nat.mul_comm, hsplit, Nat.mul_mod_mul_left, htop,
    Nat.mul_div_mul_left _ _ (Nat.two_pow_pos k), hrest, Nat.mod_mul_right_div_self, Nat.mod_mod]

/-- Every `SET_BIG*` macro stores the big-endian code of the low bytes of its value. -/
lemma setBig_eq (opSize : MemOpSize) (v : Word) :
    setBig opSize v = toBigEndian opSize.bytes v.toNat := by
  have htop : ∀ k, (v >>> k).toNat % 256 = v.toNat / 2 ^ k % 256 := by
    intro k
    rw [BitVec.toNat_ushiftRight, Nat.shiftRight_eq_div_pow]
  cases opSize with
  | byte => simp [setBig, setBigByte, MemOpSize.bytes, toBigEndian]
  | half =>
    simp only [setBig, setBigHalf, MemOpSize.bytes, toBigEndian, List.nil_append, List.cons_append,
      List.cons.injEq, and_true]
    exact ⟨setWidth_eq_ofNat (htop 8),
      setWidth_eq_ofNat (by simpa using toNat_shiftLeft_ushiftRight v (k := 24) (by decide))⟩
  | word =>
    simp only [setBig, setBigWord, MemOpSize.bytes, toBigEndian, List.nil_append, List.cons_append,
      List.cons.injEq, and_true, Nat.div_div_eq_div_mul]
    exact ⟨setWidth_eq_ofNat (htop 24),
      setWidth_eq_ofNat (toNat_shiftLeft_ushiftRight v (by decide)),
      setWidth_eq_ofNat (toNat_shiftLeft_ushiftRight v (by decide)),
      setWidth_eq_ofNat (by simpa using toNat_shiftLeft_ushiftRight v (k := 24) (by decide))⟩

/-- A stored word is read back. -/
lemma getBigWord_writeBlock (m : ℕ → Byte) (o : ℕ) (x : Word) :
    getBigWord (writeBlock m o (setBigWord x)) o = x := by
  have hread : readBlock (writeBlock m o (setBigWord x)) o 4 = setBigWord x :=
    readBlock_writeBlock_self m o (setBigWord x)
  have hcode : setBigWord x = toBigEndian 4 x.toNat := setBig_eq .word x
  apply BitVec.eq_of_toNat_eq
  rw [getBigWord_eq, hread, hcode, ofBigEndian_toBigEndian, BitVec.toNat_ofNat]
  omega

/-- Storing a word changes nothing exactly when the word is there already. -/
lemma writeBlock_word_eq_iff (m : ℕ → Byte) (o : ℕ) (x : Word) :
    writeBlock m o (toBigEndian 4 x.toNat) = m ↔ getBigWord m o = x := by
  constructor
  · intro h
    have hcode : toBigEndian 4 x.toNat = setBigWord x := (setBig_eq .word x).symm
    rw [← h, hcode, getBigWord_writeBlock]
  · intro h
    have hlt : ofBigEndian (readBlock m o 4) < 2 ^ 32 := by
      have hbytes := ofBigEndian_lt (readBlock m o 4)
      rwa [length_readBlock] at hbytes
    have hbytes : toBigEndian 4 x.toNat = readBlock m o 4 := by
      have hcode := toBigEndian_ofBigEndian (readBlock m o 4)
      rw [length_readBlock] at hcode
      rw [← h, getBigWord_eq, BitVec.toNat_ofNat, Nat.mod_eq_of_lt hlt, hcode]
    rw [hbytes, writeBlock_readBlock]

/-- The bytes of a word that `GET_BIGWORD` reads. -/
lemma byteAt_getBigWord (m : ℕ → Byte) (o : ℕ) {j : ℕ} (hj : j ≤ 3) :
    byteAt (getBigWord m o) j = m (o + j) := by
  have h24 : (m o).setWidth 32 <<< 24 = (m o).setWidth 32 <<< (8 * 3) := rfl
  have h16 : (m (o + 1)).setWidth 32 <<< 16 = (m (o + 1)).setWidth 32 <<< (8 * 2) := rfl
  have h8 : (m (o + 2)).setWidth 32 <<< 8 = (m (o + 2)).setWidth 32 <<< (8 * 1) := rfl
  have hcases : j = 0 ∨ j = 1 ∨ j = 2 ∨ j = 3 := by omega
  rw [getBigWord, h24, h16, h8]
  simp only [byteAt_or, byteAt_shiftLeft _ _ hj]
  rcases hcases with rfl | rfl | rfl | rfl <;> simp [byteAt_setWidth]

/-- The bytes that `SET_BIGWORD` assigns. -/
lemma setBigWord_eq (v : Word) :
    setBigWord v = [byteAt v 0, byteAt v 1, byteAt v 2, byteAt v 3] := by
  have hbyte : ∀ k ≤ 3, (v <<< (8 * k) >>> 24).setWidth 8 = byteAt v k := by
    intro k hk
    have hshift := byteAt_shiftLeft v k (Nat.zero_le 3)
    rw [Nat.zero_add, if_pos hk] at hshift
    rw [BitVec.setWidth_ushiftRight_eq_extractLsb]
    exact hshift
  have hfirst := hbyte 0 (by decide)
  rw [Nat.mul_zero, BitVec.shiftLeft_zero] at hfirst
  rw [setBigWord, hfirst, ← hbyte 1 (by decide), ← hbyte 2 (by decide), ← hbyte 3 (by decide)]

/-! ### Translation in closed form -/

/-- The offset that an address below the descriptor area translates to, if it is accepted: its
low 29 bits, and `0` for everything above the first address of kseg1. -/
def pmemOffset (vaddr : Word) : ℕ :=
  if vaddr ≤ 0xA0000000#32 then vaddr.toNat % 0x20000000 else 0

/-- The bound that `translate_paddr` checks kuseg addresses against. -/
def kusegBound (mem : Mmu) : Word := kusegPstart + mem.sizeKseg0 + mem.sizeKseg1 + mem.sizeKuseg

/-- The addresses below the descriptor area that the translation accepts. -/
def Accepted (mem : Mmu) (vaddr : Word) : Prop :=
  if vaddr < 0x20000000#32 then vaddr.toNat + 0x40000000 < (kusegBound mem).toNat
  else pmemOffset vaddr < mem.sizeKseg0.toNat

lemma toNat_and_kseg_mask (v : Word) : (v &&& 0x1FFFFFFF#32).toNat = v.toNat % 0x20000000 := by
  rw [BitVec.toNat_and]
  exact Nat.and_two_pow_sub_one_eq_mod v.toNat 29

lemma translateVaddr_kuseg {v : Word} (h : v < 0x20000000#32) :
    translateVaddr v = v + 0x40000000#32 := by
  have h0 : ¬ v > ioRegisterArea := by simp only [ioRegisterArea]; bv_omega
  have h1 : ¬ v > ioDescriptorArea := by simp only [ioDescriptorArea]; bv_omega
  have h2 : ¬ v > kseg2Pstart := by
    simp only [kseg2Pstart, kusegPstart, kseg1Pstart, kseg0Pstart, kusegSize]; bv_omega
  have hlast : ∀ p, translateVaddr.last v p = v + 0x40000000#32 := by
    intro p
    rw [translateVaddr.last, if_pos (by simpa [kseg0Pstart] using h), kseg0Size, kseg1Size]
    bv_omega
  rw [translateVaddr, if_neg h0, if_neg h1, if_neg h2]
  simp only [hlast, ite_self]

lemma translateVaddr_middle {v : Word} (h₁ : ¬ v < 0x20000000#32) (h₂ : v ≤ 0xA0000000#32) :
    translateVaddr v = v &&& 0x1FFFFFFF#32 := by
  have h0 : ¬ v > ioRegisterArea := by simp only [ioRegisterArea]; bv_omega
  have h1 : ¬ v > ioDescriptorArea := by simp only [ioDescriptorArea]; bv_omega
  have h2 : ¬ v > kseg2Pstart := by
    simp only [kseg2Pstart, kusegPstart, kseg1Pstart, kseg0Pstart, kusegSize]; bv_omega
  have h3 : v > kseg1Pstart := by simp only [kseg1Pstart]; bv_omega
  rw [translateVaddr, if_neg h0, if_neg h1, if_neg h2, if_pos h3, translateVaddr.last,
    if_neg (by simpa [kseg0Pstart] using h₁)]

lemma translateVaddr_high {v : Word} (h₁ : v > 0xA0000000#32) (h₂ : v < ioDescriptorArea) :
    translateVaddr v = 0 := by
  have h0 : ¬ v > ioRegisterArea := by simp only [ioRegisterArea, ioDescriptorArea] at *; bv_omega
  have h1 : ¬ v > ioDescriptorArea := by simp only [ioDescriptorArea] at *; bv_omega
  have h2 : v > kseg2Pstart := by
    simp only [kseg2Pstart, kusegPstart, kseg1Pstart, kseg0Pstart, kusegSize]; bv_omega
  rw [translateVaddr, if_neg h0, if_neg h1, if_pos h2]

/-- Physical addresses below the KSEG1 size, the only ones besides kuseg that translation
produces. -/
lemma translatePaddr_low {p : Word} (mem : Mmu) (h : p < 0x20000000#32) :
    translatePaddr p mem = if p.toNat < mem.sizeKseg0.toNat then some p.toNat else none := by
  have h0 : ¬ p ≥ kseg0Size + kseg1Size + kusegSize := by
    simp only [kseg0Size, kseg1Size, kusegSize]; bv_omega
  have h1 : ¬ p ≥ kseg1Size + kseg0Size := by simp only [kseg0Size, kseg1Size]; bv_omega
  have h2 : ¬ p ≥ kseg1Size := by simp only [kseg1Size]; bv_omega
  rw [translatePaddr, if_neg h0, if_neg h1, if_neg h2, kseg1Pstart, BitVec.zero_add,
    BitVec.sub_zero]
  by_cases hb : p.toNat < mem.sizeKseg0.toNat
  · rw [if_pos hb, if_neg (by rw [ge_iff_le, BitVec.le_def]; omega)]
  · rw [if_neg hb, if_pos (by rw [ge_iff_le, BitVec.le_def]; omega)]

lemma translatePaddr_kuseg {v : Word} (mem : Mmu) (h : v < 0x20000000#32) :
    translatePaddr (v + 0x40000000#32) mem =
      if v.toNat + 0x40000000 < (kusegBound mem).toNat then some v.toNat else none := by
  have hsum : (v + 0x40000000#32).toNat = v.toNat + 0x40000000 := by bv_omega
  have h0 : ¬ v + 0x40000000#32 ≥ kseg0Size + kseg1Size + kusegSize := by
    simp only [kseg0Size, kseg1Size, kusegSize]; bv_omega
  have h1 : v + 0x40000000#32 ≥ kseg1Size + kseg0Size := by
    simp only [kseg0Size, kseg1Size]; bv_omega
  have hoff : v + 0x40000000#32 - kseg1Pstart - kseg0Pstart - kusegPstart = v := by
    simp only [kseg1Pstart, kseg0Pstart, kusegPstart]; bv_omega
  rw [translatePaddr, if_neg h0, if_pos h1, hoff, ← kusegBound]
  by_cases hb : v.toNat + 0x40000000 < (kusegBound mem).toNat
  · rw [if_pos hb, if_neg (by rw [ge_iff_le, BitVec.le_def]; omega)]
  · rw [if_neg hb, if_pos (by rw [ge_iff_le, BitVec.le_def]; omega)]

/-- The whole translation below the descriptor area. -/
lemma translate_eq_some_iff {mem : Mmu} {v : Word} {o : ℕ} (h : v < ioDescriptorArea) :
    translate v mem = some o ↔ Accepted mem v ∧ pmemOffset v = o := by
  unfold translate Accepted pmemOffset
  by_cases hlow : v < 0x20000000#32
  · have hle : v ≤ 0xA0000000#32 := by bv_omega
    have hmod : v.toNat % 0x20000000 = v.toNat := by bv_omega
    simp only [if_pos hlow, if_pos hle, hmod]
    rw [translateVaddr_kuseg hlow, translatePaddr_kuseg mem hlow]
    simp
  · simp only [if_neg hlow]
    by_cases hmid : v ≤ 0xA0000000#32
    · have hlt : (v &&& 0x1FFFFFFF#32) < 0x20000000#32 := by
        rw [BitVec.lt_def, toNat_and_kseg_mask]
        exact Nat.mod_lt _ (by decide)
      simp only [if_pos hmid]
      rw [translateVaddr_middle hlow hmid, translatePaddr_low mem hlt, toNat_and_kseg_mask]
      simp
    · simp only [if_neg hmid]
      rw [translateVaddr_high (by bv_omega) h, translatePaddr_low mem (by decide)]
      simp

/-! ### Aliasing -/

/-- The four segments of the virtual address space. -/
inductive Segment where
  | kuseg | kseg0 | kseg1 | kseg2
  deriving DecidableEq, Repr

/-- The segment of a virtual address, by the architectural bounds. -/
def segment (v : Word) : Segment :=
  if v < 0x80000000#32 then .kuseg
  else if v < 0xA0000000#32 then .kseg0
  else if v < 0xC0000000#32 then .kseg1
  else .kseg2

/-- The pairs of addresses that must denote different bytes: a user address and one of kseg0 or
kseg1, and two different addresses of one segment. -/
def Separate (v w : Word) : Prop :=
  (segment v = .kuseg ∧ (segment w = .kseg0 ∨ segment w = .kseg1)) ∨ (segment v = segment w ∧ v ≠ w)

/-- Two addresses that the segments keep apart denote different bytes of `pmem` whenever both are
accepted. -/
def KeptApart (mem : Mmu) (v w : Word) : Prop :=
  Separate v w → ∀ a b, translate v mem = some a → translate w mem = some b → a ≠ b

/-- The translation keeps two addresses apart unless both are accepted and agree modulo 512 MiB,
where every address above the start of kseg1 counts as `0`. -/
theorem keptApart_iff (size : ℕ) {v w : Word} (hv : v < ioDescriptorArea)
    (hw : w < ioDescriptorArea) :
    KeptApart (mmuInit size) v w ↔
      ¬ (Separate v w ∧ Accepted (mmuInit size) v ∧ Accepted (mmuInit size) w ∧
          pmemOffset v = pmemOffset w) := by
  constructor
  · rintro hka ⟨hsep, hav, haw, heq⟩
    exact hka hsep _ _ ((translate_eq_some_iff hv).mpr ⟨hav, rfl⟩)
      ((translate_eq_some_iff hw).mpr ⟨haw, rfl⟩) heq
  · intro hn hsep a b ha hb hab
    obtain ⟨hav, rfl⟩ := (translate_eq_some_iff hv).mp ha
    obtain ⟨haw, rfl⟩ := (translate_eq_some_iff hw).mp hb
    exact hn ⟨hsep, hav, haw, hab⟩

/-- Neighbouring kseg0 addresses stay apart. -/
theorem keptApart_kseg0_neighbours :
    KeptApart (mmuInit 0x20000000) 0x80000000#32 0x80000001#32 :=
  (keptApart_iff 0x20000000 (by decide) (by decide)).mpr
    (fun h => absurd h.2.2.2 (by decide))

/-- A user address and a kernel address that denote the same byte, at the default memory size. -/
theorem not_keptApart_kuseg_kseg0 :
    ¬ KeptApart (mmuInit 0x20000000) 0x20000000#32 0x80000000#32 := by
  intro h
  exact h (Or.inl ⟨by decide, Or.inl (by decide)⟩) 0 0 (by decide) (by decide) rfl

/-! ### What an access leaves alone -/

/-- The call is a write to a device. -/
def IoCall.isWrite : IoCall → Bool
  | .write .. => true
  | .read .. => false

/-- The two states of the memory unit have received the same writes, to memory and to devices. -/
def Mmu.SameWrites (mem mem' : Mmu) : Prop :=
  mem'.pmem = mem.pmem ∧ mem'.ioTrace.filter IoCall.isWrite = mem.ioTrace.filter IoCall.isWrite

lemma Mmu.SameWrites.refl (mem : Mmu) : mem.SameWrites mem := ⟨rfl, rfl⟩

lemma Mmu.SameWrites.trans {mem₁ mem₂ mem₃ : Mmu} (h₁ : mem₁.SameWrites mem₂)
    (h₂ : mem₂.SameWrites mem₃) : mem₁.SameWrites mem₃ :=
  ⟨h₂.1.trans h₁.1, h₂.2.trans h₁.2⟩

lemma ioReadLoop_writes {v dst dst' : Word} {l : List Device} {tr tr' : List IoCall}
    (h : ioReadLoop v l dst tr = .ok (dst', tr')) :
    tr'.filter IoCall.isWrite = tr.filter IoCall.isWrite := by
  induction l, dst, tr using ioReadLoop.induct v with
  | case1 dst tr => simp [ioReadLoop] at h
  | case2 d dst tr =>
    simp only [ioReadLoop, Except.ok.injEq, Prod.mk.injEq] at h
    rw [h.2]
  | case3 dst tr d next rest hc ih =>
    simp only [ioReadLoop, if_pos hc, bind_eq_ok, Prod.exists] at h
    obtain ⟨dst₁, tr₁, hcall, h⟩ := h
    rw [ih _ _ h]
    unfold Device.callRead at hcall
    split at hcall
    · cases hcall
    · simp only [bind_eq_ok, pure_eq_ok, Prod.mk.injEq] at hcall
      obtain ⟨_, -, rfl, rfl⟩ := hcall
      simp [IoCall.isWrite]
  | case4 dst tr d next rest hc ih =>
    simp only [ioReadLoop, if_neg hc] at h
    exact ih h

section Access

variable {mem mem' : Mmu} {v dst src x : Word} {opSize : MemOpSize} {e : Exception}

/-- What a read that returns has done, by the area in which the address lies. -/
lemma mmuRead_cases (h : mmuRead mem v dst opSize = .ok (e, x, mem')) :
    e = .none ∧
      ((∃ trace, ioRegisterArea ≤ v ∧ ioReadLoop v mem.devices dst mem.ioTrace = .ok (x, trace) ∧
          mem' = mem.withTrace trace) ∨
        (ioDescriptorArea ≤ v ∧ ¬ ioRegisterArea ≤ v ∧
          descriptorRead mem.deviceDescriptorStart (v - ioDescriptorArea).toNat opSize = .ok x ∧
          mem' = mem) ∨
        ∃ aaddr, ¬ ioDescriptorArea ≤ v ∧ ¬ ioRegisterArea ≤ v ∧ translate v mem = some aaddr ∧
          aaddr + opSize.bytes ≤ mem.size ∧ x = getBig opSize mem.pmem aaddr ∧ mem' = mem) := by
  unfold mmuRead at h
  split_ifs at h with hreg hdesc
  · simp only [bind_eq_ok, pure_eq_ok, Prod.exists, Prod.mk.injEq] at h
    obtain ⟨_, trace, hloop, rfl, rfl, rfl⟩ := h
    exact ⟨rfl, .inl ⟨trace, hreg, hloop, rfl⟩⟩
  · simp only [bind_eq_ok, pure_eq_ok, Prod.mk.injEq] at h
    obtain ⟨_, hread, rfl, rfl, rfl⟩ := h
    exact ⟨rfl, .inr (.inl ⟨hdesc, hreg, hread, rfl⟩)⟩
  · split at h
    · cases h
    · rename_i aaddr htrans
      split_ifs at h with hin
      simp only [Except.ok.injEq, Prod.mk.injEq] at h
      obtain ⟨rfl, rfl, rfl⟩ := h
      exact ⟨rfl, .inr (.inr ⟨aaddr, hdesc, hreg, htrans, hin, rfl, rfl⟩)⟩

/-- What a write that returns has done. -/
lemma mmuWrite_cases (h : mmuWrite mem v src opSize = .ok (e, mem')) :
    (∃ trace, ioRegisterArea ≤ v ∧ e = .none ∧
        ioWriteLoop v src mem.devices mem.ioTrace = .ok trace ∧ mem' = mem.withTrace trace) ∨
      (ioDescriptorArea ≤ v ∧ ¬ ioRegisterArea ≤ v ∧ e = .addressErrorStore ∧ mem' = mem) ∨
      ∃ aaddr, ¬ ioDescriptorArea ≤ v ∧ ¬ ioRegisterArea ≤ v ∧ e = .none ∧
        translate v mem = some aaddr ∧ aaddr + opSize.bytes ≤ mem.size ∧
        mem' = mem.withPmem (writeBlock mem.pmem aaddr (setBig opSize src)) := by
  unfold mmuWrite at h
  split_ifs at h with hreg hdesc
  · simp only [bind_eq_ok, pure_eq_ok, Prod.mk.injEq] at h
    obtain ⟨trace, hloop, rfl, rfl⟩ := h
    exact .inl ⟨trace, hreg, rfl, hloop, rfl⟩
  · simp only [Except.ok.injEq, Prod.mk.injEq] at h
    obtain ⟨rfl, rfl⟩ := h
    exact .inr (.inl ⟨hdesc, hreg, rfl, rfl⟩)
  · split at h
    · cases h
    · rename_i aaddr htrans
      split_ifs at h with hin
      simp only [Except.ok.injEq, Prod.mk.injEq] at h
      obtain ⟨rfl, rfl⟩ := h
      exact .inr (.inr ⟨aaddr, hdesc, hreg, rfl, htrans, hin, rfl⟩)

/-- A read raises no exception and changes nothing but the state of the devices. -/
lemma mmuRead_withTrace (h : mmuRead mem v dst opSize = .ok (e, x, mem')) :
    e = .none ∧ ∃ trace, mem' = mem.withTrace trace ∧
      trace.filter IoCall.isWrite = mem.ioTrace.filter IoCall.isWrite := by
  obtain ⟨he, ⟨trace, -, hloop, hmem⟩ | ⟨-, -, -, hmem⟩ | ⟨_, -, -, -, -, -, hmem⟩⟩ := mmuRead_cases h
  · exact ⟨he, trace, hmem, ioReadLoop_writes hloop⟩
  · exact ⟨he, mem.ioTrace, hmem, rfl⟩
  · exact ⟨he, mem.ioTrace, hmem, rfl⟩

/-- A read raises no exception and writes nothing. -/
lemma mmuRead_spec (h : mmuRead mem v dst opSize = .ok (e, x, mem')) :
    e = .none ∧ mem.SameWrites mem' := by
  obtain ⟨rfl, trace, rfl, hwrites⟩ := mmuRead_withTrace h
  exact ⟨rfl, rfl, hwrites⟩

/-- A write raises nothing but an address error, and then it has written nothing. -/
lemma mmuWrite_spec (h : mmuWrite mem v src opSize = .ok (e, mem')) :
    e = .none ∨ (e = .addressErrorStore ∧ mem' = mem) := by
  rcases mmuWrite_cases h with ⟨_, -, he, -⟩ | ⟨-, -, he, hmem⟩ | ⟨_, -, -, he, -⟩
  · exact .inl he
  · exact .inr ⟨he, hmem⟩
  · exact .inl he

end Access

/-! ### Accesses below the descriptor area -/

lemma not_ge_of_lt_ioDescriptorArea {v : Word} (h : v < ioDescriptorArea) :
    ¬ v ≥ ioRegisterArea ∧ ¬ v ≥ ioDescriptorArea := by
  simp only [ioRegisterArea, ioDescriptorArea] at h ⊢
  constructor <;> bv_omega

/-- A read below the descriptor area is a read through the translated address. -/
lemma mmuRead_of_lt {mem : Mmu} {v : Word} (h : v < ioDescriptorArea) (dst : Word)
    (opSize : MemOpSize) :
    mmuRead mem v dst opSize =
      match translate v mem with
      | none => .error .nullPointer
      | some aaddr =>
        if aaddr + opSize.bytes ≤ mem.size then .ok (.none, getBig opSize mem.pmem aaddr, mem)
        else .error .outOfBounds := by
  obtain ⟨hreg, hdesc⟩ := not_ge_of_lt_ioDescriptorArea h
  exact (if_neg hreg).trans (if_neg hdesc)

/-- A write below the descriptor area is a write through the translated address. -/
lemma mmuWrite_of_lt {mem : Mmu} {v : Word} (h : v < ioDescriptorArea) (src : Word)
    (opSize : MemOpSize) :
    mmuWrite mem v src opSize =
      match translate v mem with
      | none => .error .nullPointer
      | some aaddr =>
        if aaddr + opSize.bytes ≤ mem.size then
          .ok (.none, mem.withPmem (writeBlock mem.pmem aaddr (setBig opSize src)))
        else .error .outOfBounds := by
  obtain ⟨hreg, hdesc⟩ := not_ge_of_lt_ioDescriptorArea h
  exact (if_neg hreg).trans (if_neg hdesc)

/-! ### Populated kseg0 -/

/-- The number of kseg0 bytes behind which there is memory. -/
def populatedKseg0 (mem : Mmu) : ℕ := min mem.sizeKseg0.toNat 0x20000000

/-- The `n` bytes from `a` on lie in populated kseg0. -/
def InKseg0 (mem : Mmu) (a : Word) (n : ℕ) : Prop :=
  0x80000000 ≤ a.toNat ∧ a.toNat + n ≤ 0x80000000 + populatedKseg0 mem

instance (mem : Mmu) (a : Word) (n : ℕ) : Decidable (InKseg0 mem a n) :=
  inferInstanceAs (Decidable (_ ∧ _))

/-- The offset of a kseg0 address in `pmem`. -/
def kseg0Offset (a : Word) : ℕ := (a - 0x80000000#32).toNat

lemma kseg0Offset_add {a : Word} (h : 0x80000000 ≤ a.toNat) :
    0x80000000 + kseg0Offset a = a.toNat := by
  unfold kseg0Offset
  bv_omega

lemma sizeKseg0_le_size (mem : Mmu) : mem.sizeKseg0.toNat ≤ mem.size := by
  rw [mem.sizeKseg0_eq, BitVec.toNat_ofNat]
  exact (Nat.mod_le _ _).trans (Nat.div_le_self _ _)

lemma InKseg0.offset_add_le {mem : Mmu} {a : Word} {n : ℕ} (h : InKseg0 mem a n) :
    kseg0Offset a + n ≤ mem.size := by
  have hsize := sizeKseg0_le_size mem
  have hmin := Nat.min_le_left mem.sizeKseg0.toNat 0x20000000
  have hoff := kseg0Offset_add h.1
  obtain ⟨hlo, hhi⟩ := h
  unfold populatedKseg0 at hhi
  omega

lemma InKseg0.lt_kseg1 {mem : Mmu} {a : Word} {n : ℕ} (h : InKseg0 mem a n) (hn : 0 < n) :
    a.toNat < 0xA0000000 := by
  have hmin := Nat.min_le_right mem.sizeKseg0.toNat 0x20000000
  obtain ⟨hlo, hhi⟩ := h
  unfold populatedKseg0 at hhi
  omega

/-- The addresses of a range in kseg0. -/
lemma InKseg0.add {mem : Mmu} {a : Word} {n j : ℕ} (h : InKseg0 mem a n) (hj : j < n) :
    InKseg0 mem (a + BitVec.ofNat 32 j) 1 ∧
      kseg0Offset (a + BitVec.ofNat 32 j) = kseg0Offset a + j := by
  have hmin := Nat.min_le_right mem.sizeKseg0.toNat 0x20000000
  have hoff := kseg0Offset_add h.1
  obtain ⟨hlo, hhi⟩ := h
  have hsum : (a + BitVec.ofNat 32 j).toNat = a.toNat + j := by
    unfold populatedKseg0 at hhi
    rw [BitVec.toNat_add, BitVec.toNat_ofNat]
    omega
  have hlo' : 0x80000000 ≤ (a + BitVec.ofNat 32 j).toNat := by omega
  have hoff' := kseg0Offset_add hlo'
  exact ⟨⟨hlo', by omega⟩, by omega⟩

lemma InKseg0.lt_ioDescriptorArea {mem : Mmu} {a : Word} {n : ℕ} (h : InKseg0 mem a n)
    (hn : 0 < n) : a < ioDescriptorArea := by
  have hlt := h.lt_kseg1 hn
  simp only [ioDescriptorArea]
  bv_omega

lemma pmemOffset_kseg0 {a : Word} (hlo : 0x80000000 ≤ a.toNat) (hlt : a.toNat < 0xA0000000) :
    pmemOffset a = kseg0Offset a := by
  have hle : a ≤ 0xA0000000#32 := by rw [BitVec.le_def]; exact hlt.le
  have hoff := kseg0Offset_add hlo
  rw [pmemOffset, if_pos hle]
  omega

lemma InKseg0.offset_lt {mem : Mmu} {a : Word} {n : ℕ} (h : InKseg0 mem a n) (hn : 0 < n) :
    kseg0Offset a < mem.sizeKseg0.toNat := by
  have hmin := Nat.min_le_left mem.sizeKseg0.toNat 0x20000000
  have hoff := kseg0Offset_add h.1
  obtain ⟨hlo, hhi⟩ := h
  unfold populatedKseg0 at hhi
  omega

/-- Populated kseg0 is mapped to the start of `pmem`. -/
lemma translate_kseg0 {mem : Mmu} {a : Word} {n : ℕ} (h : InKseg0 mem a n) (hn : 0 < n) :
    translate a mem = some (kseg0Offset a) := by
  have hlt := h.lt_kseg1 hn
  have hoff := pmemOffset_kseg0 h.1 hlt
  have hlow : ¬ a < 0x20000000#32 := by
    have hlo := h.1
    bv_omega
  rw [translate_eq_some_iff (h.lt_ioDescriptorArea hn)]
  refine ⟨?_, hoff⟩
  rw [Accepted, if_neg hlow, hoff]
  exact h.offset_lt hn

lemma MemOpSize.bytes_le (opSize : MemOpSize) : opSize.bytes ≤ 4 := by
  cases opSize <;> decide

lemma MemOpSize.bytes_pos (opSize : MemOpSize) : 0 < opSize.bytes := by
  cases opSize <;> decide

lemma mmuRead_kseg0 {mem : Mmu} {a : Word} {opSize : MemOpSize} (h : InKseg0 mem a opSize.bytes)
    (dst : Word) :
    mmuRead mem a dst opSize =
      .ok (.none, BitVec.ofNat 32 (ofBigEndian (readBlock mem.pmem (kseg0Offset a) opSize.bytes)),
        mem) := by
  rw [mmuRead_of_lt (h.lt_ioDescriptorArea opSize.bytes_pos), translate_kseg0 h opSize.bytes_pos]
  simp only [h.offset_add_le, if_true, getBig_eq]

lemma mmuWrite_kseg0 {mem : Mmu} {a : Word} {opSize : MemOpSize} (h : InKseg0 mem a opSize.bytes)
    (src : Word) :
    mmuWrite mem a src opSize =
      .ok (.none, mem.withPmem
        (writeBlock mem.pmem (kseg0Offset a) (toBigEndian opSize.bytes src.toNat))) := by
  rw [mmuWrite_of_lt (h.lt_ioDescriptorArea opSize.bytes_pos), translate_kseg0 h opSize.bytes_pos]
  simp only [h.offset_add_le, if_true, setBig_eq]

/-! ### Histories of writes -/

/-- The arguments of one `mmu_write` call. -/
structure WriteOp where
  addr : Word
  src : Word
  opSize : MemOpSize

/-- The write stores to the byte at address `v`. -/
def WriteOp.Covers (w : WriteOp) (v : ℕ) : Prop :=
  w.addr.toNat ≤ v ∧ v < w.addr.toNat + w.opSize.bytes

instance (w : WriteOp) (v : ℕ) : Decidable (w.Covers v) := inferInstanceAs (Decidable (_ ∧ _))

/-- The byte that the write stores at address `v`: of the low bytes of the value, the most
significant one goes to the first address. -/
def WriteOp.byteAt (w : WriteOp) (v : ℕ) : Byte :=
  BitVec.ofNat 8 (w.src.toNat / 256 ^ (w.opSize.bytes - 1 - (v - w.addr.toNat)))

/-- The byte at address `v` after the writes, of which the last one that covers it counts. -/
def lastWritten (ws : List WriteOp) (initial : Byte) (v : ℕ) : Byte :=
  ws.foldl (fun b w => if w.Covers v then w.byteAt v else b) initial

lemma lastWritten_cons (w : WriteOp) (ws : List WriteOp) (b : Byte) (v : ℕ) :
    lastWritten (w :: ws) b v = lastWritten ws (if w.Covers v then w.byteAt v else b) v := rfl

/-- A sequence of `mmu_write` calls, with the exceptions they return. -/
def mmuWrites (mem : Mmu) : List WriteOp → Except HostFault (List Exception × Mmu)
  | [] => .ok ([], mem)
  | w :: ws => do
    let (e, mem) ← mmuWrite mem w.addr w.src w.opSize
    let (es, mem) ← mmuWrites mem ws
    pure (e :: es, mem)

/-- One write, byte by byte. -/
lemma writeBlock_writeOp {mem : Mmu} {w : WriteOp} (h : InKseg0 mem w.addr w.opSize.bytes)
    (i : ℕ) :
    writeBlock mem.pmem (kseg0Offset w.addr) (toBigEndian w.opSize.bytes w.src.toNat) i =
      if w.Covers (0x80000000 + i) then w.byteAt (0x80000000 + i) else mem.pmem i := by
  obtain ⟨hlo, -⟩ := h
  have haddr := kseg0Offset_add hlo
  by_cases hc : w.Covers (0x80000000 + i)
  · obtain ⟨h₁, h₂⟩ := hc
    have hi : i = kseg0Offset w.addr + (i - kseg0Offset w.addr) := by omega
    have hlt : i - kseg0Offset w.addr < (toBigEndian w.opSize.bytes w.src.toNat).length := by
      rw [length_toBigEndian]; omega
    have hidx : 0x80000000 + i - w.addr.toNat = i - kseg0Offset w.addr := by omega
    rw [if_pos ⟨h₁, h₂⟩, WriteOp.byteAt, hidx]
    conv_lhs => rw [hi]
    rw [writeBlock_add hlt, getElem_toBigEndian]
  · rw [if_neg hc]
    apply writeBlock_of_notMem
    rw [length_toBigEndian]
    intro hin
    exact hc ⟨by omega, by omega⟩

/-- A history of writes to populated kseg0 succeeds and leaves in every byte what the last write
to it stored. -/
lemma mmuWrites_kseg0 (ws : List WriteOp) (mem : Mmu)
    (h : ∀ w ∈ ws, InKseg0 mem w.addr w.opSize.bytes) :
    mmuWrites mem ws = .ok (List.replicate ws.length .none,
      mem.withPmem fun i => lastWritten ws (mem.pmem i) (0x80000000 + i)) := by
  induction ws generalizing mem with
  | nil => rfl
  | cons w ws ih =>
    have hw := h w List.mem_cons_self
    have hrest := ih
      (mem.withPmem (writeBlock mem.pmem (kseg0Offset w.addr)
        (toBigEndian w.opSize.bytes w.src.toNat)))
      (fun w' hw' => h w' (List.mem_cons_of_mem w hw'))
    simp only [Mmu.withPmem_pmem, Mmu.withPmem_withPmem, writeBlock_writeOp hw] at hrest
    simp only [mmuWrites, mmuWrite_kseg0 hw, bind, Except.bind, pure, Except.pure, hrest,
      lastWritten_cons, List.length_cons, List.replicate_succ]

/-- Populated kseg0 is a big-endian byte array: after any history of writes of mixed widths, every
call returns no exception and every read gives the big-endian number of the bytes last written. -/
theorem mmuRead_mmuWrites (size : ℕ) (ws : List WriteOp)
    (hws : ∀ w ∈ ws, InKseg0 (mmuInit size) w.addr w.opSize.bytes) :
    ∃ mem, mmuWrites (mmuInit size) ws = .ok (List.replicate ws.length .none, mem) ∧
      (∀ a dst opSize, InKseg0 (mmuInit size) a opSize.bytes →
        mmuRead mem a dst opSize =
          .ok (.none, BitVec.ofNat 32 (ofBigEndian
            ((List.range opSize.bytes).map fun k => lastWritten ws 0 (a.toNat + k))), mem)) ∧
      (∀ i, (∀ w ∈ ws, ¬ w.Covers (0x80000000 + i)) → mem.pmem i = (mmuInit size).pmem i) := by
  refine ⟨_, mmuWrites_kseg0 ws (mmuInit size) hws, ?_, ?_⟩
  · intro a dst opSize ha
    have haddr : ∀ k, 0x80000000 + (kseg0Offset a + k) = a.toNat + k := by
      intro k
      have hoff := kseg0Offset_add ha.1
      omega
    have hin : InKseg0 ((mmuInit size).withPmem fun i =>
        lastWritten ws ((mmuInit size).pmem i) (0x80000000 + i)) a opSize.bytes := ha
    rw [mmuRead_kseg0 hin]
    simp only [readBlock, Mmu.withPmem_pmem, haddr]
    rfl
  · intro i hi
    have hkeep : ∀ (us : List WriteOp) (b : Byte), (∀ w ∈ us, ¬ w.Covers (0x80000000 + i)) →
        lastWritten us b (0x80000000 + i) = b := by
      intro us
      induction us with
      | nil => intro b _; rfl
      | cons w us ih =>
        intro b hus
        rw [lastWritten_cons, if_neg (hus w List.mem_cons_self)]
        exact ih b (fun w' hw' => hus w' (List.mem_cons_of_mem w hw'))
    exact hkeep ws _ hi

/-- A half stored across a word is read back byte by byte. -/
theorem mmuRead_mmuWrites_overlap :
    (∀ w ∈ [WriteOp.mk 0x80000000#32 0x11223344#32 .word, ⟨0x80000001#32, 0xAABB#32, .half⟩],
      InKseg0 (mmuInit 64) w.addr w.opSize.bytes) ∧
    ∃ mem, mmuWrites (mmuInit 64)
        [⟨0x80000000#32, 0x11223344#32, .word⟩, ⟨0x80000001#32, 0xAABB#32, .half⟩] =
          .ok ([.none, .none], mem) ∧
      mmuRead mem 0x80000000#32 0 .word = .ok (.none, 0x11AABB44#32, mem) := by
  have hin : ∀ w ∈ [WriteOp.mk 0x80000000#32 0x11223344#32 .word,
      ⟨0x80000001#32, 0xAABB#32, .half⟩], InKseg0 (mmuInit 64) w.addr w.opSize.bytes := by
    decide
  obtain ⟨mem, hrun, hread, -⟩ := mmuRead_mmuWrites 64 _ hin
  refine ⟨hin, mem, hrun, ?_⟩
  rw [hread _ _ _ (by decide)]
  rfl

end MipsSim
