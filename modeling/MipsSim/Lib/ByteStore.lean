import Mathlib.Data.BitVec
import Mathlib.Data.List.Basic
import Mathlib.Tactic.Ring

/-!
# Byte stores

A store is a function from offsets to cells. This file has the two block operations on stores,
`writeBlock` and `readBlock`, with the rules for how they meet, the big-endian coding of numbers as
lists of bytes, and the bytes of a 32-bit word with the rules for shifts and masks.
-/

namespace ByteStore

variable {β : Type*}

/-! ### Blocks -/

/-- Overwrite the cells from `o` on with the elements of `bs`. -/
def writeBlock (m : ℕ → β) (o : ℕ) (bs : List β) : ℕ → β :=
  fun i => if o ≤ i then (bs[i - o]?).getD (m i) else m i

/-- The `n` cells from `o` on. -/
def readBlock (m : ℕ → β) (o n : ℕ) : List β := (List.range n).map fun i => m (o + i)

@[simp] lemma length_readBlock (m : ℕ → β) (o n : ℕ) : (readBlock m o n).length = n := by
  simp [readBlock]

lemma getElem_readBlock (m : ℕ → β) {o n i : ℕ} (h : i < (readBlock m o n).length) :
    (readBlock m o n)[i] = m (o + i) := by
  simp [readBlock]

lemma writeBlock_of_lt {m : ℕ → β} {o i : ℕ} {bs : List β} (h : i < o) :
    writeBlock m o bs i = m i := by
  rw [writeBlock, if_neg (by omega)]

lemma writeBlock_of_le {m : ℕ → β} {o i : ℕ} {bs : List β} (h : o + bs.length ≤ i) :
    writeBlock m o bs i = m i := by
  rw [writeBlock, List.getElem?_eq_none (by omega)]
  simp

lemma writeBlock_of_getElem? {m : ℕ → β} {o i : ℕ} {bs : List β} {b : β} (hi : o ≤ i)
    (hb : bs[i - o]? = some b) : writeBlock m o bs i = b := by
  rw [writeBlock, if_pos hi, hb, Option.getD_some]

lemma writeBlock_add {m : ℕ → β} {o j : ℕ} {bs : List β} (h : j < bs.length) :
    writeBlock m o bs (o + j) = bs[j] := by
  apply writeBlock_of_getElem? (Nat.le_add_right o j)
  rw [Nat.add_sub_cancel_left, List.getElem?_eq_getElem h]

/-- A cell outside the block keeps its content. -/
lemma writeBlock_of_notMem {m : ℕ → β} {o i : ℕ} {bs : List β}
    (h : ¬ (o ≤ i ∧ i < o + bs.length)) : writeBlock m o bs i = m i := by
  by_cases hi : i < o
  · exact writeBlock_of_lt hi
  · exact writeBlock_of_le (by omega)

@[simp] lemma writeBlock_nil (m : ℕ → β) (o : ℕ) : writeBlock m o [] = m := by
  funext i
  simp [writeBlock]

lemma readBlock_congr {m m' : ℕ → β} {o n : ℕ} (h : ∀ i < n, m (o + i) = m' (o + i)) :
    readBlock m o n = readBlock m' o n := by
  apply List.map_congr_left
  intro i hi
  exact h i (List.mem_range.mp hi)

/-- A block that the write does not meet is read as before. -/
lemma readBlock_writeBlock_of_disjoint {m : ℕ → β} {o p n : ℕ} {bs : List β}
    (h : p + n ≤ o ∨ o + bs.length ≤ p) : readBlock (writeBlock m o bs) p n = readBlock m p n := by
  apply readBlock_congr
  intro i hi
  exact writeBlock_of_notMem (by omega)

/-- A block that was written is read back. -/
lemma readBlock_writeBlock_self (m : ℕ → β) (o : ℕ) (bs : List β) :
    readBlock (writeBlock m o bs) o bs.length = bs := by
  apply List.ext_getElem (length_readBlock _ _ _)
  intro j hj hj'
  rw [getElem_readBlock, writeBlock_add hj']

/-- Writing two blocks one behind the other is writing one block. -/
lemma writeBlock_append (m : ℕ → β) (o : ℕ) (as bs : List β) :
    writeBlock m o (as ++ bs) = writeBlock (writeBlock m o as) (o + as.length) bs := by
  funext i
  by_cases hlow : i < o
  · rw [writeBlock_of_lt hlow, writeBlock_of_lt (by omega), writeBlock_of_lt hlow]
  · by_cases hfirst : i < o + as.length
    · have hget : (as ++ bs)[i - o]? = some as[i - o] := by
        rw [List.getElem?_append_left (by omega), List.getElem?_eq_getElem (by omega)]
      rw [writeBlock_of_getElem? (by omega) hget, writeBlock_of_lt hfirst,
        writeBlock_of_getElem? (by omega) (List.getElem?_eq_getElem _)]
    · have hidx : i - o - as.length = i - (o + as.length) := by omega
      rw [writeBlock, if_pos (by omega), List.getElem?_append_right (by omega), hidx,
        writeBlock, if_pos (by omega), writeBlock_of_le (by omega)]

/-- Blocks that do not meet may be written in either order. -/
lemma writeBlock_comm {m : ℕ → β} {o p : ℕ} {as bs : List β} (h : o + as.length ≤ p) :
    writeBlock (writeBlock m o as) p bs = writeBlock (writeBlock m p bs) o as := by
  funext i
  by_cases hi : i < p
  · rw [writeBlock_of_lt hi]
    simp only [writeBlock, if_neg (not_le.mpr hi)]
  · have hout : ∀ m' : ℕ → β, writeBlock m' o as i = m' i :=
      fun m' => writeBlock_of_le (by omega)
    have hsame : writeBlock m o as i = m i := hout m
    rw [hout, writeBlock, if_pos (not_lt.mp hi), hsame, writeBlock, if_pos (not_lt.mp hi)]

/-- The later of two blocks of one length at one place stays. -/
lemma writeBlock_writeBlock_self {m : ℕ → β} {o : ℕ} {as bs : List β} (h : as.length = bs.length) :
    writeBlock (writeBlock m o as) o bs = writeBlock m o bs := by
  funext i
  by_cases hi : o ≤ i ∧ i < o + bs.length
  · have hget : bs[i - o]? = some bs[i - o] := List.getElem?_eq_getElem (by omega)
    rw [writeBlock_of_getElem? hi.1 hget, writeBlock_of_getElem? hi.1 hget]
  · rw [writeBlock_of_notMem hi, writeBlock_of_notMem hi, writeBlock_of_notMem (by rwa [h])]

/-- Writing back what is there changes nothing. -/
lemma writeBlock_readBlock (m : ℕ → β) (o n : ℕ) : writeBlock m o (readBlock m o n) = m := by
  funext i
  by_cases hi : o ≤ i ∧ i < o + (readBlock m o n).length
  · have hidx : o + (i - o) = i := by omega
    rw [writeBlock_of_getElem? hi.1 (List.getElem?_eq_getElem (by omega)), getElem_readBlock, hidx]
  · exact writeBlock_of_notMem hi

/-- Two blocks of one length leave the same store exactly when they are equal. -/
lemma writeBlock_inj {m : ℕ → β} {o : ℕ} {as bs : List β} (h : as.length = bs.length) :
    writeBlock m o as = writeBlock m o bs ↔ as = bs := by
  constructor
  · intro heq
    apply List.ext_getElem h
    intro j hj hj'
    have hcell := congrFun heq (o + j)
    rwa [writeBlock_add hj, writeBlock_add hj'] at hcell
  · rintro rfl
    rfl

/-- A block in a longer one whose other cells keep their contents. -/
lemma writeBlock_extend (m : ℕ → β) (o : ℕ) {k : ℕ} (n : ℕ) (bs : List β) :
    writeBlock m (o + k) bs =
      writeBlock m o (readBlock m o k ++ bs ++ readBlock m (o + k + bs.length) n) := by
  have hrest : readBlock m (o + k + bs.length) n =
      readBlock (writeBlock m (o + k) bs) (o + k + bs.length) n :=
    (readBlock_writeBlock_of_disjoint (.inr le_rfl)).symm
  rw [writeBlock_append, writeBlock_append, writeBlock_readBlock, List.length_append,
    length_readBlock, ← Nat.add_assoc, hrest, writeBlock_readBlock]

/-! ### Big-endian coding -/

/-- The number spelled by the bytes, most significant first. -/
def ofBigEndian (bs : List (BitVec 8)) : ℕ := bs.foldl (fun acc b => acc * 256 + b.toNat) 0

/-- The `n` low bytes of `v`, most significant first. -/
def toBigEndian : ℕ → ℕ → List (BitVec 8)
  | 0, _     => []
  | n + 1, v => toBigEndian n (v / 256) ++ [BitVec.ofNat 8 v]

@[simp] lemma length_toBigEndian (n v : ℕ) : (toBigEndian n v).length = n := by
  induction n generalizing v with
  | zero => rfl
  | succ n ih => simp [toBigEndian, ih]

lemma ofBigEndian_append_singleton (bs : List (BitVec 8)) (b : BitVec 8) :
    ofBigEndian (bs ++ [b]) = ofBigEndian bs * 256 + b.toNat := by
  simp [ofBigEndian]

/-- Decoding an encoded number keeps its low bytes. -/
lemma ofBigEndian_toBigEndian (n v : ℕ) : ofBigEndian (toBigEndian n v) = v % 256 ^ n := by
  induction n generalizing v with
  | zero => simp [toBigEndian, ofBigEndian, Nat.mod_one]
  | succ n ih =>
    have hpow : 256 ^ (n + 1) = 256 * 256 ^ n := by ring
    rw [toBigEndian, ofBigEndian_append_singleton, ih, BitVec.toNat_ofNat, hpow, Nat.mod_mul]
    omega

lemma ofBigEndian_lt (bs : List (BitVec 8)) : ofBigEndian bs < 256 ^ bs.length := by
  induction bs using List.reverseRecOn with
  | nil => simp [ofBigEndian]
  | append_singleton bs b ih =>
    rw [ofBigEndian_append_singleton, List.length_append, List.length_singleton, pow_succ]
    have hb := b.isLt
    omega

/-- A list of bytes is the code of the number it spells. -/
lemma toBigEndian_ofBigEndian (bs : List (BitVec 8)) :
    toBigEndian bs.length (ofBigEndian bs) = bs := by
  induction bs using List.reverseRecOn with
  | nil => rfl
  | append_singleton bs b ih =>
    have hb := b.isLt
    rw [List.length_append, List.length_singleton, toBigEndian, ofBigEndian_append_singleton]
    have hdiv : (ofBigEndian bs * 256 + b.toNat) / 256 = ofBigEndian bs := by omega
    have hlow : BitVec.ofNat 8 (ofBigEndian bs * 256 + b.toNat) = b := by
      apply BitVec.eq_of_toNat_eq
      rw [BitVec.toNat_ofNat]
      omega
    rw [hdiv, hlow, ih]

/-- The `k`-th byte of a code. -/
lemma getElem_toBigEndian {n v k : ℕ} (h : k < (toBigEndian n v).length) :
    (toBigEndian n v)[k] = BitVec.ofNat 8 (v / 256 ^ (n - 1 - k)) := by
  induction n generalizing v with
  | zero => simp at h
  | succ n ih =>
    rw [length_toBigEndian] at h
    by_cases hk : k < n
    · have hexp : n + 1 - 1 - k = (n - 1 - k) + 1 := by omega
      simp only [toBigEndian]
      rw [List.getElem_append_left (by simpa using hk), ih, hexp, Nat.div_div_eq_div_mul, pow_succ,
        Nat.mul_comm]
    · have hkn : k = n := by omega
      subst hkn
      simp [toBigEndian]

/-- Or-ing a byte below a shifted number appends the byte. -/
lemma shiftLeft_or_byte (a : ℕ) (b : BitVec 8) : (a <<< 8) ||| b.toNat = a * 256 + b.toNat := by
  rw [← Nat.shiftLeft_add_eq_or_of_lt (i := 8) b.isLt, Nat.shiftLeft_eq]

lemma toNat_append_byte {n : ℕ} (x : BitVec n) (b : BitVec 8) :
    (x ++ b).toNat = x.toNat * 256 + b.toNat := by
  rw [BitVec.toNat_append, shiftLeft_or_byte]

/-- A byte shifted inside a 32-bit word loses nothing. -/
lemma toNat_byte_shiftLeft (b : BitVec 8) {k : ℕ} (hk : k ≤ 24) :
    (b.setWidth 32 <<< k).toNat = b.toNat <<< k := by
  have hb := b.isLt
  have hpow : 2 ^ k ≤ 2 ^ 24 := Nat.pow_le_pow_right (by decide) hk
  have hlt : b.toNat * 2 ^ k < 2 ^ 32 := by
    calc b.toNat * 2 ^ k ≤ 255 * 2 ^ 24 := Nat.mul_le_mul (by omega) hpow
      _ < 2 ^ 32 := by decide
  rw [BitVec.toNat_shiftLeft, BitVec.toNat_setWidth_of_le (by decide), Nat.shiftLeft_eq,
    Nat.mod_eq_of_lt hlt]

/-! ### The bytes of a word -/

/-- The `j`-th byte of a 32-bit word, most significant first. -/
def byteAt (v : BitVec 32) (j : ℕ) : BitVec 8 := v.extractLsb' (24 - 8 * j) 8

lemma byteAt_or (v w : BitVec 32) (j : ℕ) : byteAt (v ||| w) j = byteAt v j ||| byteAt w j :=
  BitVec.extractLsb'_or

lemma byteAt_and (v w : BitVec 32) (j : ℕ) : byteAt (v &&& w) j = byteAt v j &&& byteAt w j :=
  BitVec.extractLsb'_and

lemma getLsbD_byteAt (v : BitVec 32) (j : ℕ) {i : ℕ} (hi : i < 8) :
    (byteAt v j).getLsbD i = v.getLsbD (24 - 8 * j + i) := by
  simp [byteAt, hi]

/-- Shifting to the left by whole bytes. -/
lemma byteAt_shiftLeft (v : BitVec 32) {j : ℕ} (k : ℕ) (hj : j ≤ 3) :
    byteAt (v <<< (8 * k)) j = if j + k ≤ 3 then byteAt v (j + k) else 0 := by
  apply BitVec.eq_of_getLsbD_eq
  intro i hi
  rw [getLsbD_byteAt _ _ hi, BitVec.getLsbD_shiftLeft]
  by_cases h : j + k ≤ 3
  · have hlt : 24 - 8 * j + i < 32 := by omega
    have hge : ¬ 24 - 8 * j + i < 8 * k := by omega
    have hidx : 24 - 8 * j + i - 8 * k = 24 - 8 * (j + k) + i := by omega
    rw [if_pos h, getLsbD_byteAt _ _ hi, hidx]
    simp [hlt, hge]
  · have hlt : 24 - 8 * j + i < 8 * k := by omega
    rw [if_neg h]
    simp [hlt]

/-- Shifting to the right by whole bytes. -/
lemma byteAt_ushiftRight (v : BitVec 32) {j : ℕ} (k : ℕ) (hj : j ≤ 3) :
    byteAt (v >>> (8 * k)) j = if k ≤ j then byteAt v (j - k) else 0 := by
  apply BitVec.eq_of_getLsbD_eq
  intro i hi
  rw [getLsbD_byteAt _ _ hi, BitVec.getLsbD_ushiftRight]
  by_cases h : k ≤ j
  · have hidx : 8 * k + (24 - 8 * j + i) = 24 - 8 * (j - k) + i := by omega
    rw [if_pos h, getLsbD_byteAt _ _ hi, hidx]
  · rw [if_neg h, BitVec.getLsbD_of_ge _ _ (by omega)]
    simp

lemma byteAt_allOnes {j : ℕ} (hj : j ≤ 3) : byteAt 0xffffffff#32 j = 0xff#8 := by
  have hcases : j = 0 ∨ j = 1 ∨ j = 2 ∨ j = 3 := by omega
  rcases hcases with rfl | rfl | rfl | rfl <;> rfl

lemma byteAt_and_allOnes (v : BitVec 32) (j : ℕ) {k : ℕ} (hk : k ≤ 3) :
    byteAt v j &&& byteAt 0xffffffff#32 k = byteAt v j := by
  rw [byteAt_allOnes hk]
  exact BitVec.and_allOnes

/-- A mask of ones that is shifted to the left clears the last bytes. -/
lemma byteAt_and_shiftLeft (v : BitVec 32) {j : ℕ} (k : ℕ) (hj : j ≤ 3) :
    byteAt (v &&& (0xffffffff#32 <<< (8 * k))) j = if j + k ≤ 3 then byteAt v j else 0 := by
  rw [byteAt_and, byteAt_shiftLeft _ _ hj]
  by_cases h : j + k ≤ 3
  · rw [if_pos h, if_pos h, byteAt_and_allOnes _ _ h]
  · rw [if_neg h, if_neg h]
    exact BitVec.and_zero

/-- A mask of ones that is shifted to the right clears the first bytes. -/
lemma byteAt_and_ushiftRight (v : BitVec 32) {j : ℕ} (k : ℕ) (hj : j ≤ 3) :
    byteAt (v &&& (0xffffffff#32 >>> (8 * k))) j = if k ≤ j then byteAt v j else 0 := by
  rw [byteAt_and, byteAt_ushiftRight _ _ hj]
  by_cases h : k ≤ j
  · rw [if_pos h, if_pos h, byteAt_and_allOnes _ _ (by omega)]
  · rw [if_neg h, if_neg h]
    exact BitVec.and_zero

/-- A byte in a word of its own. -/
lemma byteAt_setWidth (b : BitVec 8) {j : ℕ} (hj : j ≤ 3) :
    byteAt (b.setWidth 32) j = if j = 3 then b else 0 := by
  apply BitVec.eq_of_getLsbD_eq
  intro i hi
  rw [getLsbD_byteAt _ _ hi, BitVec.getLsbD_setWidth]
  by_cases h : j = 3
  · have hidx : 24 - 8 * j + i = i := by omega
    have hlt : i < 32 := by omega
    rw [if_pos h, hidx]
    simp [hlt]
  · rw [if_neg h, BitVec.getLsbD_of_ge _ _ (by omega)]
    simp

/-- A word is determined by its bytes. -/
lemma eq_of_byteAt_eq {v w : BitVec 32} (h : ∀ j ≤ 3, byteAt v j = byteAt w j) : v = w := by
  apply BitVec.eq_of_getLsbD_eq
  intro i hi
  have hlt : i % 8 < 8 := Nat.mod_lt i (by decide)
  have hidx : 24 - 8 * (3 - i / 8) + i % 8 = i := by omega
  have hbyte := congrArg (·.getLsbD (i % 8)) (h (3 - i / 8) (by omega))
  simp only [getLsbD_byteAt _ _ hlt, hidx] at hbyte
  exact hbyte

end ByteStore
