import MipsSim.Memory.Devices
import Mathlib.Tactic.FinCases
import Mathlib.Tactic.IntervalCases

/-!
# The descriptor table

What `mmu_add_device` leaves in the descriptor area, and what the guest reads there.
-/

namespace MipsSim

open ByteStore

/-! ### The descriptor table -/

lemma hostBytes_reverse (w : Word) : hostBytes (reverse w) = toBigEndian 4 w.toNat := by
  have hset := setBig_eq .word w
  simp only [setBig, MemOpSize.bytes] at hset
  rw [← hset, setBigWord, hostBytes]
  simp only [List.cons.injEq, and_true]
  refine ⟨?_, ?_, ?_, ?_⟩ <;> ext i hi <;> interval_cases i <;> simp [reverse]

lemma ofBigEndian_reverse_hostBytes (w : Word) : ofBigEndian (hostBytes w).reverse = w.toNat := by
  have h := w.isLt
  simp [hostBytes, ofBigEndian, Nat.shiftRight_eq_div_pow]
  omega

/-- A host word is the number of its bytes in reverse order. -/
lemma hostWord_eq (m : ℕ → Byte) (o : ℕ) :
    hostWord m o = BitVec.ofNat 32 (ofBigEndian (readBlock m o 4).reverse) := by
  have hlt : ofBigEndian (readBlock m o 4).reverse < 2 ^ 32 := by
    simpa using ofBigEndian_lt (readBlock m o 4).reverse
  apply BitVec.eq_of_toNat_eq
  have hcat : (m (o + 3) ++ m (o + 2) ++ m (o + 1) ++ m o).toNat =
      ofBigEndian (readBlock m o 4).reverse := by
    simp [toNat_append_byte, readBlock, ofBigEndian, List.range_succ]
  rw [BitVec.toNat_ofNat, Nat.mod_eq_of_lt hlt]
  exact hcat

lemma hostHalf_eq (m : ℕ → Byte) (o : ℕ) :
    (hostHalf m o).setWidth 32 = BitVec.ofNat 32 (ofBigEndian (readBlock m o 2).reverse) := by
  have hlt : ofBigEndian (readBlock m o 2).reverse < 2 ^ 16 := by
    simpa using ofBigEndian_lt (readBlock m o 2).reverse
  apply BitVec.eq_of_toNat_eq
  have hcat : (m (o + 1) ++ m o).toNat = ofBigEndian (readBlock m o 2).reverse := by
    simp [toNat_append_byte, readBlock, ofBigEndian, List.range_succ]
  rw [BitVec.toNat_ofNat, Nat.mod_eq_of_lt (by omega), BitVec.toNat_setWidth_of_le (by decide)]
  exact hcat

/-- `REVERSE` turns a word of the host into the big-endian one. -/
lemma reverse_hostWord (m : ℕ → Byte) (o : ℕ) :
    reverse (hostWord m o) = BitVec.ofNat 32 (ofBigEndian (readBlock m o 4)) := by
  have hlt : ofBigEndian (readBlock m o 4).reverse < 2 ^ 32 := by
    simpa using ofBigEndian_lt (readBlock m o 4).reverse
  have hcode := toBigEndian_ofBigEndian (readBlock m o 4).reverse
  rw [List.length_reverse, length_readBlock] at hcode
  apply BitVec.eq_of_toNat_eq
  rw [← ofBigEndian_reverse_hostBytes, hostBytes_reverse, hostWord_eq, BitVec.toNat_ofNat,
    Nat.mod_eq_of_lt hlt, hcode, List.reverse_reverse, BitVec.toNat_ofNat, Nat.mod_eq_of_lt]
  simpa using ofBigEndian_lt (readBlock m o 4)

/-- The bytes that registering the device stores in its slot. -/
def Device.descriptorBytes (d : Device) : List Byte :=
  (deviceDescriptorReverse (deviceDescriptorSetFields d)).bytes

/-- The fields are stored most significant byte first. -/
lemma Device.descriptorBytes_eq (d : Device) :
    d.descriptorBytes = toBigEndian 4 d.typecode.toNat ++ toBigEndian 4 d.ioAddrBase.toNat ++
      toBigEndian 4 d.ioAddrLen.toNat ++ toBigEndian 4 d.irq.toNat ++ List.ofFn d.vendorString ++
      toBigEndian 4 0 ++ toBigEndian 4 0 := by
  simp only [Device.descriptorBytes, DeviceDescriptor.bytes, deviceDescriptorReverse,
    deviceDescriptorSetFields, hostBytes_reverse]
  rfl

lemma Device.length_descriptorBytes (d : Device) : d.descriptorBytes.length = 32 := by
  simp [Device.descriptorBytes_eq]

/-- The byte of the descriptor area at offset `o` when the devices of the list are registered. -/
def tableByte (registered : List Device) (o : ℕ) : Byte :=
  match registered[o / 32]? with
  | none => 0
  | some d => (d.descriptorBytes[o % 32]?).getD 0

lemma tableByte_slot {L : List Device} {i : ℕ} {d : Device} (hd : L[i]? = some d) {j : ℕ}
    (hj : j < 32) : tableByte L (i * 32 + j) = (d.descriptorBytes[j]?).getD 0 := by
  have hdiv : (i * 32 + j) / 32 = i := by omega
  have hmod : (i * 32 + j) % 32 = j := by omega
  rw [tableByte, hdiv, hmod, hd]

lemma tableByte_of_le {L : List Device} {o : ℕ} (h : L.length * 32 ≤ o) : tableByte L o = 0 := by
  rw [tableByte, List.getElem?_eq_none (by omega)]

/-- Filling the first free slot appends to the table. -/
lemma writeBlock_tableByte (L : List Device) (d : Device) :
    writeBlock (tableByte L) (L.length * 32) d.descriptorBytes = tableByte (L ++ [d]) := by
  funext o
  have hlen := d.length_descriptorBytes
  rcases lt_trichotomy (o / 32) L.length with h | h | h
  · rw [writeBlock_of_lt (by omega), tableByte, tableByte, List.getElem?_append_left h]
  · have ho : o = L.length * 32 + o % 32 := by omega
    have hslot : (L ++ [d])[L.length]? = some d := by simp
    rw [ho, tableByte_slot hslot (Nat.mod_lt _ (by decide)),
      writeBlock_add (by rw [hlen]; exact Nat.mod_lt _ (by decide)), List.getElem?_eq_getElem,
      Option.getD_some]
  · rw [writeBlock_of_le (by omega), tableByte_of_le (by omega),
      tableByte_of_le (by rw [List.length_append, List.length_singleton]; omega)]

/-- The four bytes of a field of a slot. -/
lemma readBlock_tableByte {L : List Device} {i : ℕ} {d : Device} (hd : L[i]? = some d) {k n : ℕ}
    (hk : k + n ≤ 32) :
    readBlock (tableByte L) (i * 32 + k) n = (d.descriptorBytes.drop k).take n := by
  have hlen := d.length_descriptorBytes
  apply List.ext_getElem (by simp [hlen]; omega)
  intro j h₁ h₂
  rw [length_readBlock] at h₁
  rw [getElem_readBlock, Nat.add_assoc, tableByte_slot hd (by omega), List.getElem_take,
    List.getElem_drop, List.getElem?_eq_getElem, Option.getD_some]

/-- The four words of a descriptor that describe the device. -/
def Device.descriptorField (d : Device) : Fin 4 → Word :=
  ![d.typecode, d.ioAddrBase, d.ioAddrLen, d.irq]

lemma take_drop_descriptorBytes (d : Device) (k : Fin 4) :
    (d.descriptorBytes.drop (4 * k)).take 4 = toBigEndian 4 (d.descriptorField k).toNat := by
  rw [Device.descriptorBytes_eq]
  fin_cases k <;>
    simp [Device.descriptorField, List.drop_append, List.drop_eq_nil_of_le]

/-- The slot of a registered device, as `device_descriptor_reverse` decodes it, holds the fields of the
device. -/
lemma load_slot {L : List Device} {i : ℕ} {d : Device} (hd : L[i]? = some d) :
    deviceDescriptorReverse (.load (tableByte L) (i * 32)) = deviceDescriptorSetFields d := by
  have hword : ∀ {k : ℕ} {w : Word}, k + 4 ≤ 32 →
      (d.descriptorBytes.drop k).take 4 = toBigEndian 4 w.toNat →
      reverse (hostWord (tableByte L) (i * 32 + k)) = w := by
    intro k w hk hbytes
    rw [reverse_hostWord, readBlock_tableByte hd hk, hbytes, ofBigEndian_toBigEndian]
    apply BitVec.eq_of_toNat_eq
    simp [w.isLt]
  have hfield : ∀ k : Fin 4, reverse (hostWord (tableByte L) (i * 32 + 4 * k)) =
      d.descriptorField k := by
    intro k
    have hk := k.isLt
    exact hword (by omega) (take_drop_descriptorBytes d k)
  have hvendor : ∀ j : Fin 8, tableByte L (i * 32 + 16 + j) = d.vendorString j := by
    intro j
    have hj := j.isLt
    rw [Nat.add_assoc, tableByte_slot hd (by omega), Device.descriptorBytes_eq,
      List.getElem?_append_left (by simp; omega), List.getElem?_append_left (by simp; omega),
      List.getElem?_append_right (by simp), List.getElem?_ofFn]
    simp
  have hzero : ∀ k, k = 24 ∨ k = 28 → reverse (hostWord (tableByte L) (i * 32 + k)) = 0 := by
    intro k hk
    refine hword (by omega) ?_
    rw [Device.descriptorBytes_eq]
    rcases hk with rfl | rfl <;> simp [List.drop_append, List.drop_eq_nil_of_le]
  simp only [deviceDescriptorReverse, DeviceDescriptor.load, deviceDescriptorSetFields,
    DeviceDescriptor.mk.injEq]
  exact ⟨hfield 0, hfield 1, hfield 2, hfield 3, funext hvendor, hzero 24 (.inl rfl),
    hzero 28 (.inr rfl)⟩

/-- The typecode that `get_free_descriptor` looks at. -/
lemma load_typecode (L : List Device) (i : ℕ) :
    (deviceDescriptorReverse (.load (tableByte L) (i * 32))).typecode =
      (L[i]?.map (·.typecode)).getD 0 := by
  cases hd : L[i]? with
  | none =>
    have hle : L.length ≤ i := List.getElem?_eq_none_iff.mp hd
    have hzero : ∀ j, tableByte L (i * 32 + j) = 0 := fun j => tableByte_of_le (by omega)
    have hfirst := hzero 0
    rw [Nat.add_zero] at hfirst
    simp only [deviceDescriptorReverse, DeviceDescriptor.load]
    rw [reverse_hostWord, ofBigEndian_readBlock_four, hfirst, hzero, hzero, hzero]
    rfl
  | some d =>
    rw [load_slot hd]
    rfl

/-- The first free slot is the one behind the registered devices. -/
lemma getFreeDescriptor_eq {mmu : Mmu} {L : List Device}
    (harea : mmu.deviceDescriptorStart = tableByte L) (hlen : L.length < 2048)
    (htype : ∀ d ∈ L, d.typecode ≠ 0) : getFreeDescriptor mmu = some (L.length * 32) := by
  have hmax : maxIoDevices = 2048 := by simp [maxIoDevices, ioDescriptorAreaLength,
    sizeofDeviceDescriptor]
  rw [getFreeDescriptor, harea, List.find?_map, Option.map_eq_some_iff]
  refine ⟨L.length, ?_, rfl⟩
  rw [List.find?_range_eq_some]
  simp only [Function.comp_def, sizeofDeviceDescriptor, load_typecode]
  refine ⟨by simp, by rw [hmax]; exact List.mem_range.mpr hlen, ?_⟩
  intro j hj
  simpa [hj] using htype _ (List.getElem_mem hj)

/-- A descriptor is stored in the slot that is found, and nothing else changes. -/
lemma deviceDescriptorAdd_eq {mmu : Mmu} {o : ℕ} (dev : Device)
    (h : getFreeDescriptor mmu = some o) :
    deviceDescriptorAdd mmu dev =
      { mmu with
        deviceDescriptorStart := writeBlock mmu.deviceDescriptorStart o dev.descriptorBytes } := by
  unfold deviceDescriptorAdd
  split
  · rename_i hnone
    rw [h] at hnone
    cases hnone
  · rename_i o' ho
    rw [h, Option.some.injEq] at ho
    rw [← ho]
    rfl

lemma deviceDescriptorAdd_of_some {mmu : Mmu} {o : ℕ} (dev : Device)
    (h : getFreeDescriptor mmu = some o) :
    (deviceDescriptorAdd mmu dev).deviceDescriptorStart =
      writeBlock mmu.deviceDescriptorStart o dev.descriptorBytes := by
  rw [deviceDescriptorAdd_eq dev h]

/-- Registering one more device appends its descriptor. -/
lemma deviceDescriptorAdd_table {mmu : Mmu} {L : List Device} (d : Device)
    (harea : mmu.deviceDescriptorStart = tableByte L) (hlen : L.length < 2048)
    (htype : ∀ d ∈ L, d.typecode ≠ 0) :
    (deviceDescriptorAdd mmu d).deviceDescriptorStart = tableByte (L ++ [d]) := by
  rw [deviceDescriptorAdd_of_some d (getFreeDescriptor_eq harea hlen htype), harea,
    writeBlock_tableByte]

/-- What the descriptor area holds after a sequence of registrations. -/
lemma addDevices_table (ds : List Device) {mmu : Mmu} {L : List Device}
    (harea : mmu.deviceDescriptorStart = tableByte L) (hlen : L.length + ds.length ≤ 2048)
    (htype : ∀ d ∈ L ++ ds, d.typecode ≠ 0) :
    (addDevices mmu ds).deviceDescriptorStart =
      tableByte (L ++ layout mmu.nextIoRegister ds) := by
  induction ds generalizing mmu L with
  | nil => simpa [addDevices, layout] using harea
  | cons d ds ih =>
    rw [List.length_cons] at hlen
    have hadd : (mmuAddDevice mmu (some d)).deviceDescriptorStart =
        tableByte (L ++ [{ d with ioAddrBase := mmu.nextIoRegister }]) := by
      rw [mmuAddDevice]
      apply deviceDescriptorAdd_table
      · exact harea
      · omega
      · exact fun e he => htype e (List.mem_append_left _ he)
    have hnext : (mmuAddDevice mmu (some d)).nextIoRegister = mmu.nextIoRegister + d.ioAddrLen := by
      simp [mmuAddDevice]
    rw [addDevices_cons, ih hadd, hnext, layout, List.append_assoc, List.singleton_append]
    · rw [List.length_append, List.length_singleton]
      omega
    · intro e he
      rcases List.mem_append.mp he with he | he
      · rcases List.mem_append.mp he with he | he
        · exact htype e (List.mem_append_left _ he)
        · rw [List.mem_singleton.mp he]
          exact htype d (List.mem_append_right _ List.mem_cons_self)
      · exact htype e (List.mem_append_right _ (List.mem_cons_of_mem d he))

lemma deviceDescriptorStart_addDevices (size : ℕ) {ds : List Device} (hlen : ds.length ≤ 2048)
    (htype : ∀ d ∈ ds, d.typecode ≠ 0) :
    (addDevices (mmuInit size) ds).deviceDescriptorStart =
      tableByte (layout ioRegisterArea ds) := by
  have hempty : (mmuInit size).deviceDescriptorStart = tableByte [] := rfl
  simpa [mmuInit] using
    addDevices_table ds hempty (by simpa using hlen) (by simpa using htype)

/-! ### The device table -/

/-- The `i`-th of the devices as `mmu_add_device` registers it: behind the registers of those before
it. -/
def placed (ds : List Device) (i : ℕ) (d : Device) : Device :=
  { d with
    ioAddrBase := ioRegisterArea + BitVec.ofNat 32 (registersBefore (ds.map (·.ioAddrLen)) i) }

/-- What the registrations leave behind: the list of devices, the register ranges and the descriptor
slots. -/
structure DeviceTable (mem : Mmu) (ds : List Device) : Prop where
  /-- The list holds these devices and no other, the last one first. -/
  length_eq : mem.devices.length = ds.length
  devices : ∀ i d, ds[i]? = some d → mem.devices[ds.length - 1 - i]? = some (placed ds i d)
  /-- The base is a sum of 32-bit words. It wraps around only for a device without registers at the
  end of a full area. -/
  base : ∀ i d, ds[i]? = some d → (placed ds i d).ioAddrBase.toNat =
    (0xFFFF0000 + registersBefore (ds.map (·.ioAddrLen)) i) % 2 ^ 32
  /-- A device with registers has its range in the register area. -/
  inside : ∀ i d, ds[i]? = some d → d.ioAddrLen ≠ 0 →
    (placed ds i d).ioAddrBase.toNat = 0xFFFF0000 + registersBefore (ds.map (·.ioAddrLen)) i ∧
      (placed ds i d).ioAddrBase.toNat + d.ioAddrLen.toNat ≤ 2 ^ 32
  disjoint : ∀ i j d e a, ds[i]? = some d → ds[j]? = some e → (placed ds i d).Owns a →
    (placed ds j e).Owns a → i = j
  slots : ∀ i d, ds[i]? = some d →
    deviceDescriptorReverse (.load mem.deviceDescriptorStart (i * sizeofDeviceDescriptor)) =
      { typecode := d.typecode
        ioAddrBase := (placed ds i d).ioAddrBase
        ioAddrLen := d.ioAddrLen
        irq := d.irq
        vendorString := d.vendorString
        reserved1 := 0
        reserved2 := 0 }
  free : ∀ i, ds.length ≤ i → i < maxIoDevices → ∀ k < sizeofDeviceDescriptor,
    mem.deviceDescriptorStart (i * sizeofDeviceDescriptor + k) = 0

lemma getElem?_layout_placed {ds : List Device} {i : ℕ} {d : Device} (hd : ds[i]? = some d) :
    (layout ioRegisterArea ds)[i]? = some (placed ds i d) := by
  rw [getElem?_layout, hd]
  rfl

/-- The registers of a device end where those of the next one start. -/
lemma registersBefore_of_getElem? {ds : List Device} {i : ℕ} {d : Device} (hd : ds[i]? = some d) :
    registersBefore (ds.map (·.ioAddrLen)) (i + 1) =
      registersBefore (ds.map (·.ioAddrLen)) i + d.ioAddrLen.toNat := by
  obtain ⟨hi, rfl⟩ := List.getElem?_eq_some_iff.mp hd
  rw [registersBefore_succ (by simpa using hi), List.getElem_map]

section Placed

variable {ds : List Device} (hsum : (ds.map fun d => d.ioAddrLen.toNat).sum ≤ 0x10000)

include hsum

lemma toNat_placed_base {i : ℕ} {d : Device} (hd : ds[i]? = some d) (hlen : d.ioAddrLen ≠ 0) :
    (placed ds i d).ioAddrBase.toNat = 0xFFFF0000 + registersBefore (ds.map (·.ioAddrLen)) i ∧
      registersBefore (ds.map (·.ioAddrLen)) i + d.ioAddrLen.toNat ≤ 0x10000 := by
  obtain ⟨hi, -⟩ := List.getElem?_eq_some_iff.mp hd
  have hlens : ((ds.map (·.ioAddrLen)).map BitVec.toNat).sum ≤ 0x10000 := by
    rw [List.map_map]
    exact hsum
  have hend := registersBefore_le hlens (show i + 1 ≤ _ by rw [List.length_map]; exact hi)
  rw [registersBefore_of_getElem? hd] at hend
  have hpos : d.ioAddrLen.toNat ≠ 0 := fun h => hlen (BitVec.eq_of_toNat_eq h)
  exact ⟨toNat_ioRegisterArea_add (by omega), hend⟩

lemma placed_disjoint {i j : ℕ} {d e : Device} {a : Word} (hd : ds[i]? = some d)
    (he : ds[j]? = some e) (hda : (placed ds i d).Owns a) (hea : (placed ds j e).Owns a) :
    i = j := by
  -- a range that contains an address is not empty
  have hne : ∀ {k : ℕ} {c : Device}, (placed ds k c).Owns a → c.ioAddrLen ≠ 0 := by
    rintro k c ⟨h₁, h₂⟩ hz
    have hzero : (placed ds k c).ioAddrLen.toNat = 0 := by simp [placed, hz]
    omega
  obtain ⟨hdb, -⟩ := toNat_placed_base hsum hd (hne hda)
  obtain ⟨heb, -⟩ := toNat_placed_base hsum he (hne hea)
  have hds := registersBefore_of_getElem? hd
  have hes := registersBefore_of_getElem? he
  unfold Device.Owns at hda hea
  rw [hdb] at hda
  rw [heb] at hea
  simp only [placed] at hda hea
  rcases lt_trichotomy i j with h | h | h
  · have := registersBefore_mono (ds.map (·.ioAddrLen)) (show i + 1 ≤ j from h)
    omega
  · exact h
  · have := registersBefore_mono (ds.map (·.ioAddrLen)) (show j + 1 ≤ i from h)
    omega

end Placed

/-- Every sequence of registrations that fits the tables leaves them as they should be. -/
theorem deviceTable_addDevices (size : ℕ) {ds : List Device} (hlen : ds.length ≤ 2048)
    (htype : ∀ d ∈ ds, d.typecode ≠ 0)
    (hsum : (ds.map fun d => d.ioAddrLen.toNat).sum ≤ 0x10000) :
    DeviceTable (addDevices (mmuInit size) ds) ds := by
  have hdev : (addDevices (mmuInit size) ds).devices = (layout ioRegisterArea ds).reverse :=
    devices_addDevices_mmuInit size ds
  have harea := deviceDescriptorStart_addDevices size hlen htype
  refine ⟨?_, ?_, ?_, ?_, ?_, ?_, ?_⟩
  · rw [hdev, List.length_reverse, length_layout]
  · intro i d hd
    obtain ⟨hi, -⟩ := List.getElem?_eq_some_iff.mp hd
    rw [hdev, List.getElem?_reverse (by rw [length_layout]; omega), length_layout,
      show ds.length - 1 - (ds.length - 1 - i) = i by omega]
    exact getElem?_layout_placed hd
  · intro i d hd
    simp [placed, ioRegisterArea]
  · intro i d hd hne
    obtain ⟨hbase, hend⟩ := toNat_placed_base hsum hd hne
    exact ⟨hbase, by omega⟩
  · intro i j d e a hd he
    exact placed_disjoint hsum hd he
  · intro i d hd
    rw [harea]
    exact load_slot (getElem?_layout_placed hd)
  · intro i hi _ k _
    rw [harea, sizeofDeviceDescriptor]
    exact tableByte_of_le (by rw [length_layout]; omega)

/-- A device that takes the register area up behind the shutdown device. -/
def restDevice : Device := { shutdownDeviceCreate with ioAddrLen := 0xFFFC#32 }

/-- Two devices fill the register area to its end. -/
theorem deviceTable_addDevices_full :
    DeviceTable (addDevices (mmuInit 64) [shutdownDeviceCreate, restDevice])
        [shutdownDeviceCreate, restDevice] ∧
      (placed [shutdownDeviceCreate, restDevice] 1 restDevice).ioAddrBase = 0xFFFF0004#32 := by
  have htype : ∀ d ∈ [shutdownDeviceCreate, restDevice], d.typecode ≠ 0 := by
    intro d hd
    have htc : d.typecode = typecodeShutdown := by
      rcases List.mem_cons.mp hd with rfl | hd
      · rfl
      · rw [List.mem_singleton.mp hd]
        rfl
    rw [htc]
    decide
  exact ⟨deviceTable_addDevices 64 (by simp) htype (by decide), rfl⟩

/-! ### What the guest reads -/

/-- The descriptor reads in one formula: the offset is scaled by the size of the access, and the
bytes come in the order of the host. -/
lemma descriptorRead_eq (area : ℕ → Byte) (o : ℕ) (opSize : MemOpSize) :
    descriptorRead area o opSize =
      if opSize.bytes * o + opSize.bytes ≤ 0x10000 then
        .ok (BitVec.ofNat 32
          (ofBigEndian (readBlock area (opSize.bytes * o) opSize.bytes).reverse))
      else .error .outOfBounds := by
  cases opSize with
  | byte =>
    have hval : (area o).setWidth 32 =
        BitVec.ofNat 32 (ofBigEndian (readBlock area (1 * o) 1).reverse) := by
      apply BitVec.eq_of_toNat_eq
      simp [readBlock, ofBigEndian]
    simp only [descriptorRead, MemOpSize.bytes, ioDescriptorAreaLength, hval]
    exact if_congr (by omega) rfl rfl
  | half =>
    simp only [descriptorRead, MemOpSize.bytes, ioDescriptorAreaLength, hostHalf_eq]
    exact if_congr (by omega) rfl rfl
  | word =>
    simp only [descriptorRead, MemOpSize.bytes, ioDescriptorAreaLength, hostWord_eq]
    exact if_congr (by omega) rfl rfl

lemma mmuRead_descriptor {mem : Mmu} {a : Word} {o : ℕ} (ha : a.toNat = 0xFFFE0000 + o)
    (ho : o < 0x10000) (dst : Word) (opSize : MemOpSize) :
    mmuRead mem a dst opSize =
      if opSize.bytes * o + opSize.bytes ≤ 0x10000 then
        .ok (.none, BitVec.ofNat 32 (ofBigEndian
          (readBlock mem.deviceDescriptorStart (opSize.bytes * o) opSize.bytes).reverse), mem)
      else .error .outOfBounds := by
  have hreg : ¬ a ≥ ioRegisterArea := by simp only [ioRegisterArea]; bv_omega
  have hdesc : a ≥ ioDescriptorArea := by simp only [ioDescriptorArea]; bv_omega
  have hoff : (a - ioDescriptorArea).toNat = o := by simp only [ioDescriptorArea]; bv_omega
  rw [mmuRead, if_neg hreg, if_pos hdesc, hoff, descriptorRead_eq]
  split <;> rfl

/-- What a guest must see of the descriptor table at `a`: the read is the big-endian composition of
the byte reads at the same addresses, and so the words of the slot of a registered device are its
fields. -/
structure GuestView (mem : Mmu) (registered : List Device) (a : Word) (opSize : MemOpSize) :
    Prop where
  composed : ∀ dst, ∃ bs : List Byte, bs.length = opSize.bytes ∧
    (∀ k b, bs[k]? = some b →
      mmuRead mem (a + BitVec.ofNat 32 k) dst .byte = .ok (.none, b.setWidth 32, mem)) ∧
    mmuRead mem a dst opSize = .ok (.none, BitVec.ofNat 32 (ofBigEndian bs), mem)
  fields : opSize = .word → ∀ i d, registered[i]? = some d →
    ∀ k : Fin 4, a.toNat = 0xFFFE0000 + (i * 32 + 4 * k) →
      ∀ dst, mmuRead mem a dst .word = .ok (.none, d.descriptorField k, mem)

/-- The accesses that the scaled, host-ordered read gets right: the scaled block lies in the area
and holds the bytes of the block that is meant, in reverse order. -/
def ViewOk (registered : List Device) (o : ℕ) (opSize : MemOpSize) : Prop :=
  opSize.bytes * o + opSize.bytes ≤ 0x10000 ∧
    (readBlock (tableByte registered) (opSize.bytes * o) opSize.bytes).reverse =
      readBlock (tableByte registered) o opSize.bytes

instance (registered : List Device) (o : ℕ) (opSize : MemOpSize) :
    Decidable (ViewOk registered o opSize) := inferInstanceAs (Decidable (_ ∧ _))

/-- Codes of the same length are equal when the words they spell are. -/
lemma ofBigEndian_injective {bs cs : List Byte} (hlen : bs.length = cs.length)
    (hle : bs.length ≤ 4)
    (h : BitVec.ofNat 32 (ofBigEndian bs) = BitVec.ofNat 32 (ofBigEndian cs)) : bs = cs := by
  have hpow : 256 ^ bs.length ≤ 2 ^ 32 := (Nat.pow_le_pow_right (by decide) hle).trans (by decide)
  have hb := ofBigEndian_lt bs
  have hc := ofBigEndian_lt cs
  rw [← hlen] at hc
  have hnum := congrArg BitVec.toNat h
  rw [BitVec.toNat_ofNat, BitVec.toNat_ofNat, Nat.mod_eq_of_lt (by omega),
    Nat.mod_eq_of_lt (by omega)] at hnum
  rw [← toBigEndian_ofBigEndian bs, ← toBigEndian_ofBigEndian cs, hlen, hnum]

section View

variable {mem : Mmu} {L : List Device} {a : Word} {o : ℕ} {opSize : MemOpSize}

/-- A byte read gives the byte of the table. -/
lemma mmuRead_descriptor_byte (harea : mem.deviceDescriptorStart = tableByte L)
    (ha : a.toNat = 0xFFFE0000 + o) {k : ℕ} (hk : o + k < 0x10000) (dst : Word) :
    mmuRead mem (a + BitVec.ofNat 32 k) dst .byte =
      .ok (.none, (tableByte L (o + k)).setWidth 32, mem) := by
  have hak : (a + BitVec.ofNat 32 k).toNat = 0xFFFE0000 + (o + k) := by
    rw [BitVec.toNat_add, BitVec.toNat_ofNat]
    omega
  have hval : BitVec.ofNat 32 (ofBigEndian (readBlock (tableByte L) (1 * (o + k)) 1).reverse) =
      (tableByte L (o + k)).setWidth 32 := by
    apply BitVec.eq_of_toNat_eq
    simp [readBlock, ofBigEndian]
  rw [mmuRead_descriptor hak hk, if_pos (by simp only [MemOpSize.bytes]; omega), harea]
  simp only [MemOpSize.bytes, hval]

/-- The composition of the byte reads is the block of the table at the offset. -/
lemma composed_eq (harea : mem.deviceDescriptorStart = tableByte L)
    (ha : a.toNat = 0xFFFE0000 + o) (ho : o + opSize.bytes ≤ 0x10000) {bs : List Byte} {dst : Word}
    (hlen : bs.length = opSize.bytes)
    (hbs : ∀ k b, bs[k]? = some b →
      mmuRead mem (a + BitVec.ofNat 32 k) dst .byte = .ok (.none, b.setWidth 32, mem)) :
    bs = readBlock (tableByte L) o opSize.bytes := by
  apply List.ext_getElem (by simp [hlen])
  intro k h₁ h₂
  have hread := hbs k _ (List.getElem?_eq_getElem h₁)
  rw [mmuRead_descriptor_byte harea ha (by omega)] at hread
  simp only [Except.ok.injEq, Prod.mk.injEq, true_and, and_true] at hread
  have hnum := congrArg BitVec.toNat hread
  rw [BitVec.toNat_setWidth_of_le (by decide), BitVec.toNat_setWidth_of_le (by decide)] at hnum
  rw [getElem_readBlock]
  exact (BitVec.eq_of_toNat_eq hnum).symm

end View

/-- After any sequence of registrations the guest sees the table at an aligned address exactly when
the scaled block holds the same bytes in reverse. -/
theorem guestView_iff (size : ℕ) {ds : List Device} (hlen : ds.length ≤ 2048)
    (htype : ∀ d ∈ ds, d.typecode ≠ 0) {a : Word} {o : ℕ} {opSize : MemOpSize}
    (ha : a.toNat = 0xFFFE0000 + o) (ho : o < 0x10000) (halign : opSize.bytes ∣ o) :
    GuestView (addDevices (mmuInit size) ds) (layout ioRegisterArea ds) a opSize ↔
      ViewOk (layout ioRegisterArea ds) o opSize := by
  have harea := deviceDescriptorStart_addDevices size hlen htype
  have hfit : o + opSize.bytes ≤ 0x10000 := by
    obtain ⟨q, rfl⟩ := halign
    cases opSize <;> simp only [MemOpSize.bytes] at ho ⊢ <;> omega
  constructor
  · intro hview
    obtain ⟨bs, hbl, hbs, hread⟩ := hview.composed 0
    have hcomp := composed_eq harea ha hfit hbl hbs
    rw [mmuRead_descriptor ha ho, harea] at hread
    by_cases hin : opSize.bytes * o + opSize.bytes ≤ 0x10000
    · rw [if_pos hin] at hread
      simp only [Except.ok.injEq, Prod.mk.injEq, true_and, and_true] at hread
      refine ⟨hin, ?_⟩
      rw [← hcomp]
      exact ofBigEndian_injective (by simp [hbl]) (by simpa using opSize.bytes_le) hread
    · rw [if_neg hin] at hread
      cases hread
  · rintro ⟨hin, hsame⟩
    have hread : ∀ dst, mmuRead (addDevices (mmuInit size) ds) a dst opSize =
        .ok (.none, BitVec.ofNat 32 (ofBigEndian
          (readBlock (tableByte (layout ioRegisterArea ds)) o opSize.bytes)),
          addDevices (mmuInit size) ds) := by
      intro dst
      rw [mmuRead_descriptor ha ho, if_pos hin, harea, hsame]
    refine ⟨fun dst => ⟨_, by simp, ?_, hread dst⟩, ?_⟩
    · intro k b hb
      obtain ⟨hk, rfl⟩ := List.getElem?_eq_some_iff.mp hb
      rw [length_readBlock] at hk
      rw [mmuRead_descriptor_byte harea ha (by omega), getElem_readBlock]
    · rintro rfl i d hd k hak dst
      have hok : o = i * 32 + 4 * k := by omega
      have hk := k.isLt
      rw [hread dst, hok, MemOpSize.bytes, readBlock_tableByte hd (by omega),
        take_drop_descriptorBytes, ofBigEndian_toBigEndian]
      have hval : BitVec.ofNat 32 ((d.descriptorField k).toNat % 256 ^ 4) = d.descriptorField k := by
        apply BitVec.eq_of_toNat_eq
        simp [(d.descriptorField k).isLt]
      rw [hval]

/-- A shutdown device whose typecode reads the same from both ends. -/
def evenDevice : Device := { shutdownDeviceCreate with typecode := 0x01000001#32 }

/-- The first word of the table is read right if its bytes are the same in both orders. -/
theorem guestView_even :
    GuestView (addDevices (mmuInit 64) [evenDevice]) (layout ioRegisterArea [evenDevice])
        0xFFFE0000#32 .word ∧
      mmuRead (addDevices (mmuInit 64) [evenDevice]) 0xFFFE0000#32 0 .word =
        .ok (.none, 0x01000001#32, addDevices (mmuInit 64) [evenDevice]) := by
  have ha : (0xFFFE0000#32).toNat = 0xFFFE0000 + 0 := by simp
  have hview := (@guestView_iff 64 [evenDevice] (by decide) (by decide) _ 0 .word ha (by omega)
    (by decide)).mpr (by decide)
  exact ⟨hview, hview.fields rfl 0 _ rfl 0 (by simp) 0⟩

/-- The typecode of the shutdown device is not what a word load of its slot gives. -/
theorem not_guestView_shutdown :
    ¬ GuestView (initIo (mmuInit 64)) (layout ioRegisterArea [shutdownDeviceCreate])
      0xFFFE0000#32 .word := by
  intro hview
  have hmem : initIo (mmuInit 64) = addDevices (mmuInit 64) [shutdownDeviceCreate] := by
    simp only [initIo, addDevices, List.foldl_cons, List.foldl_nil]
  have ha : (0xFFFE0000#32).toNat = 0xFFFE0000 + 0 := by simp
  have hlen : [shutdownDeviceCreate].length ≤ 2048 := by decide
  have harea := deviceDescriptorStart_addDevices 64 hlen (by decide)
  have hread := hview.fields rfl 0 _ rfl 0 (by simp) 0
  rw [mmuRead_descriptor ha (by decide), hmem, harea, if_pos (by decide)] at hread
  simp only [Except.ok.injEq, Prod.mk.injEq, true_and, and_true] at hread
  exact absurd hread (by decide)

end MipsSim
