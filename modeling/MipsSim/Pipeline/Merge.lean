import MipsSim.Pipeline.Stages
import MipsSim.Memory.Segments

/-!
# Merging bytes

`LWL`, `LWR`, `SWL` and `SWR` access the aligned word around an address and merge it with a register.
This file has the merges byte by byte and what a pair of them does to a word at any address. The two
loads read the word. The two stores are decoded the one for the other, and the one that is decoded as
`SWL` shifts the word that it writes back.
-/

namespace MipsSim

open ByteStore Run

/-! ### The merges, byte by byte -/

section Merge

variable (addr reg temp32 : Word) {j : ℕ}

/-- The place of a byte in its word. -/
def byteIndex (addr : Word) : ℕ := (addr &&& 3#32).toNat

lemma byteIndex_eq : byteIndex addr = addr.toNat % 4 := by
  rw [byteIndex, BitVec.toNat_and]
  exact Nat.and_two_pow_sub_one_eq_mod addr.toNat 2

lemma byteIndex_le : byteIndex addr ≤ 3 := by
  have hlt := Nat.mod_lt addr.toNat (show 0 < 4 by decide)
  rw [byteIndex_eq]
  omega

lemma byteShift_eq : byteShift addr = 8 * byteIndex addr := Nat.mul_comm _ _

/-- `LWL` takes the bytes from the address on. -/
lemma byteAt_mergeLwl (hj : j ≤ 3) :
    byteAt (mergeLwl addr reg temp32) j =
      if j + byteIndex addr ≤ 3 then byteAt temp32 (j + byteIndex addr) else byteAt reg j := by
  have hr := byteIndex_le addr
  have hmask : 32 - 8 * byteIndex addr = 8 * (4 - byteIndex addr) := by omega
  rw [mergeLwl, byteShift_eq, hmask, byteAt_or, byteAt_and_ushiftRight _ _ hj,
    byteAt_shiftLeft _ _ hj]
  by_cases h : j + byteIndex addr ≤ 3
  · rw [if_neg (show ¬ 4 - byteIndex addr ≤ j by omega), if_pos h, if_pos h]
    exact BitVec.zero_or
  · rw [if_pos (show 4 - byteIndex addr ≤ j by omega), if_neg h, if_neg h]
    exact BitVec.or_zero

/-- `LWR` takes the bytes up to the address. -/
lemma byteAt_mergeLwr (hj : j ≤ 3) :
    byteAt (mergeLwr addr reg temp32) j =
      if 3 - byteIndex addr ≤ j then byteAt temp32 (j - (3 - byteIndex addr))
      else byteAt reg j := by
  have hr := byteIndex_le addr
  have hmask : 8 + 8 * byteIndex addr = 8 * (1 + byteIndex addr) := by omega
  have hshift : 24 - 8 * byteIndex addr = 8 * (3 - byteIndex addr) := by omega
  rw [mergeLwr, byteShift_eq, hmask, hshift, byteAt_or, byteAt_and_shiftLeft _ _ hj,
    byteAt_ushiftRight _ _ hj]
  by_cases h : 3 - byteIndex addr ≤ j
  · rw [if_neg (show ¬ j + (1 + byteIndex addr) ≤ 3 by omega), if_pos h, if_pos h]
    exact BitVec.zero_or
  · rw [if_pos (show j + (1 + byteIndex addr) ≤ 3 by omega), if_neg h, if_neg h]
    exact BitVec.or_zero

/-- What the source calls `SWR` stores the end of the register up to the address. -/
lemma byteAt_mergeSwr (hj : j ≤ 3) :
    byteAt (mergeSwr addr reg temp32) j =
      if j ≤ byteIndex addr then byteAt reg (j + (3 - byteIndex addr)) else byteAt temp32 j := by
  have hr := byteIndex_le addr
  have hmask : 8 + 8 * byteIndex addr = 8 * (1 + byteIndex addr) := by omega
  have hshift : 24 - 8 * byteIndex addr = 8 * (3 - byteIndex addr) := by omega
  rw [mergeSwr, byteShift_eq, hmask, hshift, byteAt_or, byteAt_and_ushiftRight _ _ hj,
    byteAt_shiftLeft _ _ hj]
  by_cases h : j ≤ byteIndex addr
  · rw [if_neg (show ¬ 1 + byteIndex addr ≤ j by omega),
      if_pos (show j + (3 - byteIndex addr) ≤ 3 by omega), if_pos h]
    exact BitVec.zero_or
  · rw [if_pos (show 1 + byteIndex addr ≤ j by omega),
      if_neg (show ¬ j + (3 - byteIndex addr) ≤ 3 by omega), if_neg h]
    exact BitVec.or_zero

/-- What the source calls `SWL` merges the start of the register into the word and then shifts the
result as `LWR` does, which leaves one byte of the register. -/
lemma byteAt_mergeSwl (hj : j ≤ 3) :
    byteAt (mergeSwl addr reg temp32) j =
      if 3 - byteIndex addr ≤ j then
        if j < 3 then byteAt temp32 (j - (3 - byteIndex addr)) else byteAt reg 0
      else 0 := by
  have hr := byteIndex_le addr
  have hmask : 32 - 8 * byteIndex addr = 8 * (4 - byteIndex addr) := by omega
  have hshift : 24 - 8 * byteIndex addr = 8 * (3 - byteIndex addr) := by omega
  rw [mergeSwl, byteShift_eq, hmask, hshift, byteAt_ushiftRight _ _ hj]
  by_cases h : 3 - byteIndex addr ≤ j
  · have hk : j - (3 - byteIndex addr) ≤ 3 := by omega
    rw [if_pos h, if_pos h, byteAt_or, byteAt_and_shiftLeft _ _ hk, byteAt_ushiftRight _ _ hk]
    by_cases hlast : j < 3
    · rw [if_pos (show j - (3 - byteIndex addr) + (4 - byteIndex addr) ≤ 3 by omega),
        if_neg (show ¬ byteIndex addr ≤ j - (3 - byteIndex addr) by omega), if_pos hlast]
      exact BitVec.or_zero
    · have hzero : j - (3 - byteIndex addr) - byteIndex addr = 0 := by omega
      rw [if_neg (show ¬ j - (3 - byteIndex addr) + (4 - byteIndex addr) ≤ 3 by omega),
        if_pos (show byteIndex addr ≤ j - (3 - byteIndex addr) by omega), if_neg hlast, hzero]
      exact BitVec.zero_or
  · rw [if_neg h, if_neg h]

end Merge

/-! ### The word around a byte -/

lemma wordAddr_eq (a : Word) : wordAddr a = (a >>> 2) <<< 2 := by
  have hmask : ∀ i < 32, (0xfffffffc#32).getLsbD i = !decide (i < 2) := by decide
  apply BitVec.eq_of_getLsbD_eq
  intro i hi
  rw [wordAddr, BitVec.getLsbD_and, hmask i hi, BitVec.getLsbD_shiftLeft,
    BitVec.getLsbD_ushiftRight]
  by_cases h : i < 2
  · simp [h]
  · have hidx : 2 + (i - 2) = i := by omega
    simp [h, hi, hidx]

lemma toNat_wordAddr (a : Word) : (wordAddr a).toNat = 4 * (a.toNat / 4) := by
  have ha := a.isLt
  rw [wordAddr_eq, BitVec.toNat_shiftLeft, BitVec.toNat_ushiftRight, Nat.shiftRight_eq_div_pow,
    Nat.shiftLeft_eq]
  omega

section Word

variable {mem : Mmu} {a : Word} (h : InKseg0 mem a 1)

include h

lemma InKseg0.byteIndex_eq : byteIndex a = kseg0Offset a % 4 := by
  have hoff := kseg0Offset_add h.1
  rw [MipsSim.byteIndex_eq]
  omega

lemma InKseg0.wordAddr : InKseg0 mem (wordAddr a) 1 ∧
    kseg0Offset (wordAddr a) = 4 * (kseg0Offset a / 4) := by
  have hoff := kseg0Offset_add h.1
  have hword := toNat_wordAddr a
  have hlo : 0x80000000 ≤ (MipsSim.wordAddr a).toNat := by omega
  have hoff' := kseg0Offset_add hlo
  obtain ⟨-, hhi⟩ := h
  exact ⟨⟨hlo, by omega⟩, by omega⟩

/-- The word around a byte of populated kseg0 lies in `pmem`, if only behind kseg0. -/
lemma InKseg0.wordAddr_add_le : 4 * (kseg0Offset a / 4) + 4 ≤ mem.size := by
  obtain ⟨hin, hoff⟩ := h.wordAddr
  have htrans := translate_kseg0 hin Nat.one_pos
  obtain ⟨hacc, hpm⟩ := (translate_eq_some_iff (hin.lt_ioDescriptorArea Nat.one_pos)).mp htrans
  have hle := hacc.offset_add_le
  rwa [hpm, hoff] at hle

lemma mmuRead_wordAddr (dst : Word) :
    mmuRead mem (wordAddr a) dst .word =
      .ok (.none, getBigWord mem.pmem (4 * (kseg0Offset a / 4)), mem) := by
  obtain ⟨hin, hoff⟩ := h.wordAddr
  rw [mmuRead_of_lt (hin.lt_ioDescriptorArea Nat.one_pos), translate_kseg0 hin Nat.one_pos, hoff]
  exact if_pos h.wordAddr_add_le

lemma mmuWrite_wordAddr (src : Word) :
    mmuWrite mem (wordAddr a) src .word =
      .ok (.none, mem.withPmem
        (writeBlock mem.pmem (4 * (kseg0Offset a / 4)) (setBigWord src))) := by
  obtain ⟨hin, hoff⟩ := h.wordAddr
  rw [mmuWrite_of_lt (hin.lt_ioDescriptorArea Nat.one_pos), translate_kseg0 hin Nat.one_pos, hoff]
  exact if_pos h.wordAddr_add_le

end Word

/-! ### The two halves of an access -/

/-- The instructions of a pair: `SWL rt, 0(base)` and `LWL rt, 0(base)`, or `SWR rt, 3(base)` and
`LWR rt, 3(base)`. -/
inductive Half where
  | left | right
  deriving DecidableEq, Repr

/-- The instruction that completes the pair. -/
def Half.other : Half → Half
  | .left => .right
  | .right => .left

@[simp] lemma Half.other_other (p : Half) : p.other.other = p := by
  cases p <;> rfl

/-- The displacement from the base. -/
def Half.disp : Half → ℕ
  | .left => 0
  | .right => 3

/-- The opcodes of `SWL` and `SWR` in MIPS32. -/
def Half.storeCode : Half → Word
  | .left => 0x2A#32
  | .right => 0x2E#32

/-- The opcodes of `LWL` and `LWR` in MIPS32. -/
def Half.loadCode : Half → Word
  | .left => 0x22#32
  | .right => 0x26#32

/-- The word is the store of this half. -/
def Half.IsStore (p : Half) (inst : Word) : Prop :=
  inst >>> 26 = p.storeCode ∧ getImm inst = BitVec.ofNat 32 p.disp

/-- The word is the load of this half. -/
def Half.IsLoad (p : Half) (inst : Word) : Prop :=
  inst >>> 26 = p.loadCode ∧ getImm inst = BitVec.ofNat 32 p.disp

instance (p : Half) (inst : Word) : Decidable (p.IsStore inst) := inferInstanceAs (Decidable (_ ∧ _))

instance (p : Half) (inst : Word) : Decidable (p.IsLoad inst) := inferInstanceAs (Decidable (_ ∧ _))

lemma ne_of_code {inst code : Word} (h : inst >>> 26 = code) (hzero : code ≠ 0) (hcp0 : code ≠ 0x10) :
    inst ≠ 0 ∧ inst ≠ instructionEret := by
  subst h
  constructor
  · rintro rfl
    exact hzero rfl
  · rintro rfl
    exact hcp0 rfl

lemma Half.IsStore.ne {p : Half} {inst : Word} (h : p.IsStore inst) :
    inst ≠ 0 ∧ inst ≠ instructionEret := by
  apply ne_of_code h.1 <;> cases p <;> decide

lemma Half.IsLoad.ne {p : Half} {inst : Word} (h : p.IsLoad inst) :
    inst ≠ 0 ∧ inst ≠ instructionEret := by
  apply ne_of_code h.1 <;> cases p <;> decide

/-- The simulator takes the stores for each other. -/
lemma Half.IsStore.opcode {p : Half} {inst : Word} (h : p.IsStore inst) :
    getOpcode inst = match p with
      | .left => .swr
      | .right => .swl := by
  rw [getOpcode, h.1]
  cases p <;> rfl

lemma Half.IsStore.control {p : Half} {inst : Word} (h : p.IsStore inst) :
    controlOf inst = { aluSrc := true, memWrite := true } := by
  have hop := h.opcode
  cases p <;> simp only [controlOf, hop]

lemma Half.IsLoad.opcode {p : Half} {inst : Word} (h : p.IsLoad inst) :
    getOpcode inst = match p with
      | .left => .lwl
      | .right => .lwr := by
  rw [getOpcode, h.1]
  cases p <;> rfl

lemma Half.IsLoad.control {p : Half} {inst : Word} (h : p.IsLoad inst) :
    controlOf inst = { aluSrc := true, memRead := true, regWrite := true, memToReg := true } := by
  have hop := h.opcode
  cases p <;> simp only [controlOf, hop]

/-- The offset of the word that the half for offset `o` accesses. -/
def Half.word (p : Half) (o : ℕ) : ℕ := 4 * ((o + p.disp) / 4)

/-- The bytes that the store leaves in its word. -/
def Half.bytes (p : Half) (x : Word) (m : ℕ → Byte) (o : ℕ) : List Byte :=
  (List.range 4).map fun j =>
    match p with
    | .left => if j ≤ o % 4 then byteAt x (j + (3 - o % 4)) else m (p.word o + j)
    | .right =>
      if 3 - (o + 3) % 4 ≤ j then
        if j < 3 then m (p.word o + (j - (3 - (o + 3) % 4))) else byteAt x 0
      else 0

/-- Memory after the store. -/
def Half.stored (p : Half) (x : Word) (m : ℕ → Byte) (o : ℕ) : ℕ → Byte :=
  writeBlock m (p.word o) (p.bytes x m o)

lemma setBigWord_eq_map {v : Word} {f : ℕ → Byte} (h : ∀ j ≤ 3, byteAt v j = f j) :
    setBigWord v = (List.range 4).map f := by
  rw [setBigWord_eq, h 0 (by decide), h 1 (by decide), h 2 (by decide), h 3 (by decide)]
  rfl

lemma setBigWord_mergeSwr {addr x : Word} {m : ℕ → Byte} {o : ℕ}
    (h : byteIndex addr = (o + Half.left.disp) % 4) :
    setBigWord (mergeSwr addr x (getBigWord m (Half.left.word o))) = Half.left.bytes x m o := by
  apply setBigWord_eq_map
  intro j hj
  rw [byteAt_mergeSwr _ _ _ hj, byteAt_getBigWord _ _ hj, h]
  rfl

lemma setBigWord_mergeSwl {addr x : Word} {m : ℕ → Byte} {o : ℕ}
    (h : byteIndex addr = (o + Half.right.disp) % 4) :
    setBigWord (mergeSwl addr x (getBigWord m (Half.right.word o))) = Half.right.bytes x m o := by
  apply setBigWord_eq_map
  intro j hj
  rw [byteAt_mergeSwl _ _ _ hj, byteAt_getBigWord _ _ (Nat.le_trans (Nat.sub_le _ _) hj), h]
  rfl

/-- A store of the pair in MEM. -/
lemma memStore_half {core : Core} {mem : Mmu} {a : Word} {p : Half} (hin : InKseg0 mem a 4)
    (hst : p.IsStore core.exMem.inst) (haddr : core.exMem.aluRes = a + BitVec.ofNat 32 p.disp) :
    memStore core mem = .ok (.none, mem.withPmem
      (p.stored (core.regs (getRt core.exMem.inst)) mem.pmem (kseg0Offset a))) := by
  have hop := hst.opcode
  have hdisp : p.disp < 4 := by cases p <;> decide
  obtain ⟨hbyte, hoff⟩ := hin.add hdisp
  rw [← haddr] at hbyte hoff
  have hidx := hbyte.byteIndex_eq
  have hread := mmuRead_wordAddr hbyte 0
  have hwrite := mmuWrite_wordAddr hbyte
  rw [hoff] at hidx hread hwrite
  cases p with
  | left =>
    simp only [memStore, hop, hread, bind, Except.bind, hwrite]
    rw [← Half.word, setBigWord_mergeSwr hidx]
    rfl
  | right =>
    simp only [memStore, hop, hread, bind, Except.bind, hwrite]
    rw [← Half.word, setBigWord_mergeSwl hidx]
    rfl

/-! ### What the pair of stores leaves -/

@[simp] lemma Half.length_bytes (p : Half) (x : Word) (m : ℕ → Byte) (o : ℕ) :
    (p.bytes x m o).length = 4 := by
  simp [Half.bytes]

lemma Half.word_left (o : ℕ) : Half.left.word o = 4 * (o / 4) := rfl

lemma Half.word_right (o : ℕ) : Half.right.word o = 4 * ((o + 3) / 4) := rfl

/-- A store depends on the memory in its word only. -/
lemma Half.bytes_congr {p : Half} {x : Word} {m m' : ℕ → Byte} {o : ℕ}
    (h : ∀ j ≤ 3, m (p.word o + j) = m' (p.word o + j)) : p.bytes x m o = p.bytes x m' o := by
  apply List.map_congr_left
  intro j hj
  have hj3 : j ≤ 3 := Nat.le_of_lt_succ (List.mem_range.mp hj)
  cases p with
  | left => simp only [h j hj3]
  | right => simp only [h _ (Nat.le_trans (Nat.sub_le _ _) hj3)]

/-- Where the address is not aligned, the pair stores to two words, in either order. -/
lemma Half.stored_other (p : Half) (x : Word) (m : ℕ → Byte) {o : ℕ} (h : o % 4 ≠ 0) :
    p.other.stored x (p.stored x m o) o =
      writeBlock m (4 * (o / 4)) (Half.left.bytes x m o ++ Half.right.bytes x m o) := by
  have hnext : Half.left.word o + 4 = Half.right.word o := by
    rw [Half.word_left, Half.word_right]
    omega
  rw [writeBlock_append, Half.length_bytes, ← Half.word_left, hnext]
  cases p with
  | left =>
    have hsame : Half.right.bytes x (Half.left.stored x m o) o = Half.right.bytes x m o :=
      Half.bytes_congr fun j _ => writeBlock_of_le (by rw [Half.length_bytes]; omega)
    rw [Half.other, Half.stored, hsame, Half.stored]
  | right =>
    have hsame : Half.left.bytes x (Half.right.stored x m o) o = Half.left.bytes x m o :=
      Half.bytes_congr fun j _ => writeBlock_of_lt (by omega)
    rw [Half.other, Half.stored, hsame, Half.stored]
    exact (writeBlock_comm (by rw [Half.length_bytes, hnext])).symm

/-- The bytes that the first store of the pair leaves in its word. -/
lemma Half.bytes_left (x : Word) (m : ℕ → Byte) (q : ℕ) {r : ℕ} (hr : r ≤ 3) :
    Half.left.bytes x m (4 * q + r) = (List.range 4).map fun j =>
      if j ≤ r then byteAt x (j + (3 - r)) else m (4 * q + j) := by
  have hmod : (4 * q + r) % 4 = r := by omega
  have hword : Half.left.word (4 * q + r) = 4 * q := by rw [Half.word_left]; omega
  simp only [Half.bytes, hmod, hword]

/-- The bytes that the second one leaves, in the word behind an address that is not aligned. -/
lemma Half.bytes_right (x : Word) (m : ℕ → Byte) (q : ℕ) {r : ℕ} (hr : r ≤ 2) :
    Half.right.bytes x m (4 * q + (r + 1)) = (List.range 4).map fun j =>
      if 3 - r ≤ j then if j < 3 then m (4 * q + 4 + (j - (3 - r))) else byteAt x 0 else 0 := by
  have hmod : (4 * q + (r + 1) + 3) % 4 = r := by omega
  have hword : Half.right.word (4 * q + (r + 1)) = 4 * q + 4 := by rw [Half.word_right]; omega
  simp only [Half.bytes, hmod, hword]

lemma Half.bytes_right_aligned (x : Word) (m : ℕ → Byte) (q : ℕ) :
    Half.right.bytes x m (4 * q) = [m (4 * q), m (4 * q + 1), m (4 * q + 2), byteAt x 0] := by
  have hmod : (4 * q + 3) % 4 = 3 := by omega
  have hword : Half.right.word (4 * q) = 4 * q := by rw [Half.word_right]; omega
  simp [Half.bytes, hmod, hword, List.range_succ]

/-- Where the address is aligned, both stores go to the same word. -/
lemma Half.stored_other_aligned (p : Half) (x : Word) (m : ℕ → Byte) (q : ℕ) :
    p.other.stored x (p.stored x m (4 * q)) (4 * q) =
      writeBlock m (4 * q) [byteAt x 3, m (4 * q + 1), m (4 * q + 2), byteAt x 0] := by
  have hleft : ∀ m', Half.left.stored x m' (4 * q) =
      writeBlock m' (4 * q) [byteAt x 3, m' (4 * q + 1), m' (4 * q + 2), m' (4 * q + 3)] := by
    intro m'
    have hbytes := Half.bytes_left x m' q (Nat.zero_le 3)
    rw [Nat.add_zero] at hbytes
    rw [Half.stored, Half.word_left, Nat.mul_div_cancel_left _ (by decide), hbytes]
    rfl
  have hright : ∀ m', Half.right.stored x m' (4 * q) =
      writeBlock m' (4 * q) [m' (4 * q), m' (4 * q + 1), m' (4 * q + 2), byteAt x 0] := by
    intro m'
    have hdiv : (4 * q + 3) / 4 = q := by omega
    rw [Half.stored, Half.bytes_right_aligned, Half.word_right, hdiv]
  cases p with
  | left =>
    rw [Half.other, hright, hleft, writeBlock_writeBlock_self (by simp)]
    simp [writeBlock]
  | right =>
    rw [Half.other, hleft, hright, writeBlock_writeBlock_self (by simp)]
    simp [writeBlock]

/-- The memory that makes up for the slips: the bytes that are wrong or not written are the right
ones already. -/
def StoreHarmless (x : Word) (m : ℕ → Byte) (o : ℕ) : Prop :=
  match o % 4 with
  | 0 => byteAt x 0 = byteAt x 3 ∧ m (o + 1) = byteAt x 1 ∧ m (o + 2) = byteAt x 2
  | 1 => byteAt x 0 = 0 ∧ byteAt x 3 = 0 ∧ m (o - 1) = byteAt x 2 ∧ m (o + 1) = byteAt x 1 ∧
      m (o + 2) = byteAt x 2 ∧ m (o + 4) = 0 ∧ m (o + 5) = 0 ∧ m (o + 6) = 0
  | 2 => byteAt x 0 = 0 ∧ byteAt x 2 = 0 ∧ byteAt x 3 = 0 ∧ m (o - 2) = byteAt x 1 ∧
      m (o - 1) = 0 ∧ m (o + 1) = byteAt x 1 ∧ m (o + 4) = m (o + 2) ∧ m (o + 5) = 0
  | _ => byteAt x 1 = 0 ∧ byteAt x 0 = byteAt x 3 ∧ m (o - 3) = byteAt x 0 ∧ m (o - 2) = 0 ∧
      m (o - 1) = byteAt x 2 ∧ m (o + 1) = byteAt x 2 ∧ m (o + 2) = byteAt x 3 ∧
      m (o + 4) = byteAt x 0

/-- The pair leaves the word exactly in such a memory. -/
lemma Half.stored_other_iff (p : Half) (x : Word) (m : ℕ → Byte) (o : ℕ) :
    p.other.stored x (p.stored x m o) o = writeBlock m o (setBigWord x) ↔ StoreHarmless x m o := by
  obtain ⟨q, r, hr, rfl⟩ : ∃ q r, r ≤ 3 ∧ o = 4 * q + r := ⟨o / 4, o % 4, by omega, by omega⟩
  have hcases : r = 0 ∨ r = 1 ∨ r = 2 ∨ r = 3 := by omega
  have hmod : (4 * q + r) % 4 = r := by omega
  have hdiv : 4 * ((4 * q + r) / 4) = 4 * q := by omega
  rw [setBigWord_eq, StoreHarmless, hmod]
  by_cases haligned : r = 0
  · subst haligned
    rw [Nat.add_zero, Half.stored_other_aligned, writeBlock_inj (by simp)]
    simp only [List.cons.injEq, and_true]
    grind
  · rw [Half.stored_other p x m (by omega), hdiv, Half.bytes_left x m q hr,
      writeBlock_extend m (4 * q) (4 - r), writeBlock_inj (by simp; omega)]
    rcases hcases.resolve_left haligned with rfl | rfl | rfl
    · rw [Half.bytes_right x m q (Nat.zero_le 2)]
      show [byteAt x 2, byteAt x 3, m (4 * q + 2), m (4 * q + 3), 0, 0, 0, byteAt x 0] =
        [m (4 * q), byteAt x 0, byteAt x 1, byteAt x 2, byteAt x 3, m (4 * q + 5), m (4 * q + 6),
          m (4 * q + 7)] ↔ _
      simp only [List.cons.injEq, and_true]
      grind
    · rw [Half.bytes_right x m q (show 1 ≤ 2 by decide)]
      show [byteAt x 1, byteAt x 2, byteAt x 3, m (4 * q + 3), 0, 0, m (4 * q + 4), byteAt x 0] =
        [m (4 * q), m (4 * q + 1), byteAt x 0, byteAt x 1, byteAt x 2, byteAt x 3, m (4 * q + 6),
          m (4 * q + 7)] ↔ _
      simp only [List.cons.injEq, and_true]
      grind
    · rw [Half.bytes_right x m q (show 2 ≤ 2 by decide)]
      show [byteAt x 0, byteAt x 1, byteAt x 2, byteAt x 3, 0, m (4 * q + 4), m (4 * q + 5),
          byteAt x 0] =
        [m (4 * q), m (4 * q + 1), m (4 * q + 2), byteAt x 0, byteAt x 1, byteAt x 2, byteAt x 3,
          m (4 * q + 7)] ↔ _
      simp only [List.cons.injEq, and_true]
      grind

/-! ### What the pair of loads reads -/

/-- The bytes of the word at offset `o` that the load reads. -/
def Half.Covers (p : Half) (o j : ℕ) : Prop :=
  match p with
  | .left => j + o % 4 ≤ 3
  | .right => 3 - (o + 3) % 4 ≤ j

lemma Half.covers_other {p : Half} {o j : ℕ} (hj : j ≤ 3) (h : ¬ p.Covers o j) :
    p.other.Covers o j := by
  cases p with
  | left =>
    simp only [Half.Covers, Half.other] at h ⊢
    omega
  | right =>
    simp only [Half.Covers, Half.other] at h ⊢
    omega

/-- A load of the pair in MEM: it reads its bytes of the word and keeps those of the register. -/
lemma memLoad_half {core : Core} {mem : Mmu} {a : Word} {p : Half} (hin : InKseg0 mem a 4)
    (hld : p.IsLoad core.exMem.inst) (haddr : core.exMem.aluRes = a + BitVec.ofNat 32 p.disp)
    (readData : Word) :
    ∃ v, memLoad core mem readData = .ok (.none, v, mem) ∧ ∀ j ≤ 3,
      (p.Covers (kseg0Offset a) j → byteAt v j = mem.pmem (kseg0Offset a + j)) ∧
      (¬ p.Covers (kseg0Offset a) j → byteAt v j = byteAt (core.regs core.exMem.regDst) j) := by
  have hop := hld.opcode
  have hdisp : p.disp < 4 := by cases p <;> decide
  obtain ⟨hbyte, hoff⟩ := hin.add hdisp
  rw [← haddr] at hbyte hoff
  have hidx := hbyte.byteIndex_eq
  have hread := mmuRead_wordAddr hbyte 0
  rw [hoff] at hidx hread
  cases p with
  | left =>
    refine ⟨_, by simp only [memLoad, hop, hread, bind, Except.bind]; rfl, fun j hj => ⟨?_, ?_⟩⟩
    · intro hc
      simp only [Half.Covers] at hc
      simp only [Half.disp, Nat.add_zero] at hidx ⊢
      rw [byteAt_mergeLwl _ _ _ hj, hidx, if_pos hc, byteAt_getBigWord _ _ hc]
      congr 1
      omega
    · intro hc
      simp only [Half.Covers] at hc
      simp only [Half.disp, Nat.add_zero] at hidx ⊢
      rw [byteAt_mergeLwl _ _ _ hj, hidx, if_neg hc]
  | right =>
    refine ⟨_, by simp only [memLoad, hop, hread, bind, Except.bind]; rfl, fun j hj => ⟨?_, ?_⟩⟩
    · intro hc
      simp only [Half.Covers] at hc
      simp only [Half.disp] at hidx ⊢
      rw [byteAt_mergeLwr _ _ _ hj, hidx, if_pos hc,
        byteAt_getBigWord _ _ (Nat.le_trans (Nat.sub_le _ _) hj)]
      congr 1
      omega
    · intro hc
      simp only [Half.Covers] at hc
      simp only [Half.disp] at hidx ⊢
      rw [byteAt_mergeLwr _ _ _ hj, hidx, if_neg hc]

end MipsSim
