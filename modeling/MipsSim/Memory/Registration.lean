import MipsSim.Memory.Descriptors

/-!
# Registering one more device

`mmu_add_device` takes three things one after the other: a place in the list, a range of registers and a
descriptor slot. The ranges are handed out one behind the other and never given back, so that a device
for which the register area has no room is laid over the start of it or outside of it.
-/

namespace MipsSim

open ByteStore

/-! ### What a registration promises -/

/-- The address, taken as an integer, is one of the device's registers. -/
def Device.Spans (d : Device) (a : ℕ) : Prop :=
  d.ioAddrBase.toNat ≤ a ∧ a < d.ioAddrBase.toNat + d.ioAddrLen.toNat

/-- The slot at offset `o` of the descriptor table is free. -/
def Mmu.FreeSlot (mmu : Mmu) (o : ℕ) : Prop :=
  (∃ i < maxIoDevices, o = i * sizeofDeviceDescriptor) ∧
    (deviceDescriptorReverse (.load mmu.deviceDescriptorStart o)).typecode = 0

/-- The device with its registers from `base` on. -/
def Device.rebase (dev : Device) (base : Word) : Device := { dev with ioAddrBase := base }

/-- The device is registered: it is in front of the list, it has registers in the register area that
belong to no other device, and its descriptor is in a slot that was free. -/
structure Registered (mmu mmu' : Mmu) (dev : Device) (base : Word) : Prop where
  devices : mmu'.devices = dev.rebase base :: mmu.devices
  inside : ∀ a, (dev.rebase base).Spans a → 0xFFFF0000 ≤ a ∧ a < 2 ^ 32
  disjoint : ∀ d ∈ mmu.devices, ∀ a, ¬ (d.Spans a ∧ (dev.rebase base).Spans a)
  descriptor : ∃ o, mmu.FreeSlot o ∧ mmu'.deviceDescriptorStart =
    writeBlock mmu.deviceDescriptorStart o (dev.rebase base).descriptorBytes

/-- Nothing is left of the attempt. -/
structure Refused (mmu mmu' : Mmu) : Prop where
  devices : mmu'.devices = mmu.devices
  nextIoRegister : mmu'.nextIoRegister = mmu.nextIoRegister
  table : mmu'.deviceDescriptorStart = mmu.deviceDescriptorStart

/-- The promise of `mmu_add_device`. -/
def AllOrNothing (mmu : Mmu) (dev : Device) : Prop :=
  (∃ base, Registered mmu (mmuAddDevice mmu (some dev)) dev base) ∨
    Refused mmu (mmuAddDevice mmu (some dev))

/-! ### What a registration does -/

lemma mmuAddDevice_eq (mmu : Mmu) (dev : Device) :
    mmuAddDevice mmu (some dev) = deviceDescriptorAdd
      { mmu with
        nextIoRegister := mmu.nextIoRegister + dev.ioAddrLen
        devices := dev.rebase mmu.nextIoRegister :: mmu.devices }
      (dev.rebase mmu.nextIoRegister) := rfl

/-- Whatever is left, the device goes to the front of the list. -/
lemma mmuAddDevice_devices (mmu : Mmu) (dev : Device) :
    (mmuAddDevice mmu (some dev)).devices = dev.rebase mmu.nextIoRegister :: mmu.devices := by
  rw [mmuAddDevice_eq, deviceDescriptorAdd_devices]

/-- The device in front of the list tells the base. -/
lemma Registered.base_eq {mmu : Mmu} {dev : Device} {base : Word}
    (h : Registered mmu (mmuAddDevice mmu (some dev)) dev base) : mmu.nextIoRegister = base := by
  have hfront := h.devices
  rw [mmuAddDevice_devices, List.cons.injEq] at hfront
  exact congrArg Device.ioAddrBase hfront.1

/-- No device is refused. -/
lemma not_refused (mmu : Mmu) (dev : Device) : ¬ Refused mmu (mmuAddDevice mmu (some dev)) := by
  intro h
  have hlen := congrArg List.length h.devices
  rw [mmuAddDevice_devices, List.length_cons] at hlen
  omega

/-- Only the table is looked at. -/
lemma getFreeDescriptor_congr {mmu mmu' : Mmu}
    (h : mmu'.deviceDescriptorStart = mmu.deviceDescriptorStart) :
    getFreeDescriptor mmu' = getFreeDescriptor mmu := by
  simp only [getFreeDescriptor, h]

/-- `get_free_descriptor` returns a free slot. -/
lemma freeSlot_of_getFreeDescriptor {mmu : Mmu} {o : ℕ} (h : getFreeDescriptor mmu = some o) :
    mmu.FreeSlot o := by
  unfold getFreeDescriptor at h
  have hfree := List.find?_some h
  have hmem := List.mem_of_find?_eq_some h
  obtain ⟨i, hi, rfl⟩ := List.mem_map.mp hmem
  exact ⟨⟨i, List.mem_range.mp hi, rfl⟩, by simpa using hfree⟩

/-- It finds one if there is one. -/
lemma not_freeSlot_of_getFreeDescriptor {mmu : Mmu} (h : getFreeDescriptor mmu = none) (o : ℕ) :
    ¬ mmu.FreeSlot o := by
  rintro ⟨⟨i, hi, rfl⟩, hfree⟩
  unfold getFreeDescriptor at h
  rw [List.find?_eq_none] at h
  exact h _ (List.mem_map.mpr ⟨i, List.mem_range.mpr hi, rfl⟩) (by simpa using hfree)

/-- A descriptor is filled exactly when a slot is free. -/
lemma mmuAddDevice_table_iff (mmu : Mmu) (dev : Device) :
    (∃ o, mmu.FreeSlot o ∧ (mmuAddDevice mmu (some dev)).deviceDescriptorStart =
      writeBlock mmu.deviceDescriptorStart o (dev.rebase mmu.nextIoRegister).descriptorBytes) ↔
      (getFreeDescriptor mmu).isSome := by
  cases hfree : getFreeDescriptor mmu with
  | none =>
    simp only [Option.isSome_none, Bool.false_eq_true, iff_false, not_exists, not_and]
    intro o ho
    exact absurd ho (not_freeSlot_of_getFreeDescriptor hfree o)
  | some o =>
    refine ⟨fun _ => rfl, fun _ => ⟨o, freeSlot_of_getFreeDescriptor hfree, ?_⟩⟩
    have hfree' : getFreeDescriptor { mmu with
        nextIoRegister := mmu.nextIoRegister + dev.ioAddrLen
        devices := dev.rebase mmu.nextIoRegister :: mmu.devices } = some o :=
      (getFreeDescriptor_congr rfl).trans hfree
    rw [mmuAddDevice_eq, deviceDescriptorAdd_of_some _ hfree']

lemma addDevices_nextIoRegister (mmu : Mmu) (ds : List Device) :
    (addDevices mmu ds).nextIoRegister =
      mmu.nextIoRegister + BitVec.ofNat 32 (ds.map (·.ioAddrLen.toNat)).sum := by
  induction ds generalizing mmu with
  | nil => simp [addDevices]
  | cons d ds ih =>
    have hnext : (mmuAddDevice mmu (some d)).nextIoRegister = mmu.nextIoRegister + d.ioAddrLen := by
      simp [mmuAddDevice]
    rw [addDevices_cons, ih, hnext, List.map_cons, List.sum_cons, BitVec.ofNat_add,
      BitVec.ofNat_toNat, BitVec.setWidth_eq, BitVec.add_assoc]

/-- The registers of the devices cover the area from its start on: an offset below their number
belongs to one of them. -/
lemma exists_registersBefore {lens : List Word} {r : ℕ} (h : r < registersBefore lens lens.length) :
    ∃ i < lens.length, registersBefore lens i ≤ r ∧ r < registersBefore lens (i + 1) := by
  induction lens generalizing r with
  | nil => simp at h
  | cons l lens ih =>
    by_cases hr : r < l.toNat
    · exact ⟨0, by simp, by simp, by rw [registersBefore_cons]; omega⟩
    · rw [List.length_cons, registersBefore_cons] at h
      obtain ⟨i, hi, hlo, hhi⟩ := @ih (r - l.toNat) (by omega)
      refine ⟨i + 1, by rw [List.length_cons]; omega, ?_, ?_⟩
      · rw [registersBefore_cons]
        omega
      · rw [registersBefore_cons]
        omega

/-! ### Room in the register area -/

section Room

variable {ds : List Device}

lemma registersBefore_length (ds : List Device) :
    registersBefore (ds.map (·.ioAddrLen)) (ds.map (·.ioAddrLen)).length =
      (ds.map (·.ioAddrLen.toNat)).sum := by
  rw [registersBefore, List.take_length, List.map_map]
  rfl

/-- The base that is handed out next, as an integer. -/
lemma toNat_nextIoRegister (size : ℕ) (ds : List Device) :
    (addDevices (mmuInit size) ds).nextIoRegister.toNat =
      (0xFFFF0000 + (ds.map (·.ioAddrLen.toNat)).sum) % 2 ^ 32 := by
  rw [addDevices_nextIoRegister, BitVec.toNat_add, BitVec.toNat_ofNat, Nat.add_mod_mod]
  rfl

/-- A registered device has its registers behind those of the devices before it. -/
lemma exists_of_mem_devices {size : ℕ} {d : Device} (hd : d ∈ (addDevices (mmuInit size) ds).devices) :
    ∃ i < ds.length, registersBefore (ds.map (·.ioAddrLen)) (i + 1) =
        registersBefore (ds.map (·.ioAddrLen)) i + d.ioAddrLen.toNat ∧
      d.ioAddrBase.toNat = (0xFFFF0000 + registersBefore (ds.map (·.ioAddrLen)) i) % 2 ^ 32 := by
  rw [devices_addDevices_mmuInit, List.mem_reverse] at hd
  obtain ⟨i, hi⟩ := List.mem_iff_getElem?.mp hd
  rw [getElem?_layout, Option.map_eq_some_iff] at hi
  obtain ⟨e, he, rfl⟩ := hi
  obtain ⟨hlt, -⟩ := List.getElem?_eq_some_iff.mp he
  have hstep := registersBefore_of_getElem? he
  refine ⟨i, hlt, hstep, ?_⟩
  rw [BitVec.toNat_add, BitVec.toNat_ofNat, Nat.add_mod_mod]
  rfl

/-- An offset that was handed out before belongs to a registered device. -/
lemma exists_spans {size r : ℕ} (hr : r < 0x10000)
    (hsum : r < (ds.map (·.ioAddrLen.toNat)).sum) :
    ∃ d ∈ (addDevices (mmuInit size) ds).devices, d.Spans (0xFFFF0000 + r) := by
  rw [← registersBefore_length] at hsum
  obtain ⟨i, hi, hlo, hhi⟩ := exists_registersBefore hsum
  rw [List.length_map] at hi
  have hget : ds[i]? = some ds[i] := List.getElem?_eq_getElem hi
  rw [registersBefore_of_getElem? hget] at hhi
  refine ⟨placed ds i ds[i], ?_, ?_⟩
  · rw [devices_addDevices_mmuInit, List.mem_reverse]
    exact List.mem_of_getElem? (getElem?_layout_placed hget)
  · have hbase : (placed ds i ds[i]).ioAddrBase.toNat =
        0xFFFF0000 + registersBefore (ds.map (·.ioAddrLen)) i :=
      toNat_ioRegisterArea_add (by omega)
    have hlen : (placed ds i ds[i]).ioAddrLen = ds[i].ioAddrLen := rfl
    unfold Device.Spans
    rw [hbase, hlen]
    omega

/-- The range that is handed out next is as it should be exactly when the area has room for it. -/
lemma room_iff (size : ℕ) (ds : List Device) (dev : Device) :
    ((∀ a, (dev.rebase (addDevices (mmuInit size) ds).nextIoRegister).Spans a →
        0xFFFF0000 ≤ a ∧ a < 2 ^ 32) ∧
      ∀ d ∈ (addDevices (mmuInit size) ds).devices, ∀ a,
        ¬ (d.Spans a ∧ (dev.rebase (addDevices (mmuInit size) ds).nextIoRegister).Spans a)) ↔
      dev.ioAddrLen = 0 ∨
        (ds.map (·.ioAddrLen.toNat)).sum + dev.ioAddrLen.toNat ≤ 0x10000 := by
  have hbase := toNat_nextIoRegister size ds
  have hspans : ∀ a, (dev.rebase (addDevices (mmuInit size) ds).nextIoRegister).Spans a ↔
      (addDevices (mmuInit size) ds).nextIoRegister.toNat ≤ a ∧
        a < (addDevices (mmuInit size) ds).nextIoRegister.toNat + dev.ioAddrLen.toNat :=
    fun a => Iff.rfl
  simp only [hspans]
  constructor
  · rintro ⟨hinside, hdisjoint⟩
    by_cases hlen : dev.ioAddrLen = 0
    · exact .inl hlen
    have hpos : 0 < dev.ioAddrLen.toNat := by
      rw [Nat.pos_iff_ne_zero]
      exact fun hz => hlen (BitVec.eq_of_toNat_eq hz)
    right
    -- the first and the last register of the range are in the area
    have hfirst := hinside _ ⟨le_rfl, by omega⟩
    have hlast := hinside
      ((addDevices (mmuInit size) ds).nextIoRegister.toNat + dev.ioAddrLen.toNat - 1)
      ⟨by omega, by omega⟩
    -- an offset below the number of registers handed out so far is taken
    have hfree : ¬ (addDevices (mmuInit size) ds).nextIoRegister.toNat - 0xFFFF0000 <
        (ds.map (·.ioAddrLen.toNat)).sum := by
      intro htaken
      obtain ⟨d, hd, hspan⟩ := @exists_spans ds size
        ((addDevices (mmuInit size) ds).nextIoRegister.toNat - 0xFFFF0000) (by omega) htaken
      rw [Nat.add_sub_cancel' hfirst.1] at hspan
      exact hdisjoint d hd _ ⟨hspan, le_rfl, by omega⟩
    omega
  · rintro (hlen | hroom)
    · have hzero : dev.ioAddrLen.toNat = 0 := by
        rw [hlen]
        rfl
      refine ⟨fun a ha => ?_, fun d _ a ha => ?_⟩
      · omega
      · omega
    · refine ⟨fun a ha => by omega, fun d hd a => ?_⟩
      rintro ⟨⟨hlo, hhi⟩, ha⟩
      obtain ⟨i, hi, hstep, hdbase⟩ := exists_of_mem_devices hd
      have hle : registersBefore (ds.map (·.ioAddrLen)) (i + 1) ≤
          (ds.map (·.ioAddrLen.toNat)).sum := by
        rw [← registersBefore_length]
        exact registersBefore_mono _ (by rw [List.length_map]; exact hi)
      omega

end Room

/-- After any registrations the next one is all or nothing exactly when there is a free slot and room
in the register area. -/
theorem allOrNothing_iff (size : ℕ) (ds : List Device) (dev : Device) :
    AllOrNothing (addDevices (mmuInit size) ds) dev ↔
      (getFreeDescriptor (addDevices (mmuInit size) ds)).isSome ∧
        (dev.ioAddrLen = 0 ∨
          (ds.map (·.ioAddrLen.toNat)).sum + dev.ioAddrLen.toNat ≤ 0x10000) := by
  rw [← mmuAddDevice_table_iff _ dev, ← room_iff]
  constructor
  · rintro (⟨base, hreg⟩ | hrefused)
    · rw [hreg.base_eq]
      exact ⟨hreg.descriptor, hreg.inside, hreg.disjoint⟩
    · exact absurd hrefused (not_refused _ dev)
  · rintro ⟨hslot, hinside, hdisjoint⟩
    exact .inl ⟨_, mmuAddDevice_devices _ dev, hinside, hdisjoint, hslot⟩

/-- A device with as many registers as the area has. -/
def wideDevice : Device := { shutdownDeviceCreate with ioAddrLen := 0x10000#32 }

/-- Behind the shutdown device there is no room for it, and yet it is registered: its range ends four
bytes above the top of the address space, and the next device would start at 4. -/
theorem not_allOrNothing_wide :
    wideDevice.typecode ≠ 0 ∧
      (mmuAddDevice (addDevices (mmuInit 64) [shutdownDeviceCreate])
        (some wideDevice)).nextIoRegister = 4#32 ∧
      ¬ AllOrNothing (addDevices (mmuInit 64) [shutdownDeviceCreate]) wideDevice := by
  have hnext : (addDevices (mmuInit 64) [shutdownDeviceCreate]).nextIoRegister = 0xFFFF0004#32 := by
    rw [addDevices_nextIoRegister]
    decide
  refine ⟨by decide, ?_, ?_⟩
  · rw [mmuAddDevice_eq, deviceDescriptorAdd_nextIoRegister]
    simp only [hnext]
    decide
  · rintro (⟨base, hreg⟩ | hrefused)
    · have hspan : (wideDevice.rebase base).Spans (2 ^ 32) := by
        rw [← hreg.base_eq, hnext]
        simp only [Device.Spans, Device.rebase, wideDevice, BitVec.toNat_ofNat]
        omega
      have houtside := hreg.inside _ hspan
      omega
    · exact absurd hrefused (not_refused _ _)

end MipsSim
