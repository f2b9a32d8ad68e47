import MipsSim.Memory.Descriptors
import MipsSim.Memory.Segments

/-!
# What a read depends on

`mmu_read` assigns `*dst` itself below the register area, in the descriptor area from what is behind
the table for all but the first addresses. In the register area this is left to the devices that it
calls, and where it calls none, or none that assigns, the old value stays.
-/

namespace MipsSim

open Run

/-! ### The devices that are called -/

/-- The devices that an access at the address calls, in this order. -/
def Mmu.called (mem : Mmu) (vaddr : Word) : List Device :=
  if ioRegisterArea ≤ vaddr then mem.devices.dropLast.filter (·.claims vaddr) else []

section Called

variable {mem mem' : Mmu} {v : Word}

lemma Mmu.called_of_le (h : ioRegisterArea ≤ v) :
    mem.called v = mem.devices.dropLast.filter (·.claims v) := if_pos h

lemma ioReadLoop_called (h : ioRegisterArea ≤ v) (hne : mem.devices ≠ []) (dst : Word)
    (trace : List IoCall) :
    ioReadLoop v mem.devices dst trace =
      (mem.called v).foldlM (fun p d => d.callRead v p.1 p.2) (dst, trace) := by
  rw [mem.called_of_le h, ← ioReadLoop_concat v dst _ (mem.devices.getLast hne),
    List.dropLast_append_getLast hne]

lemma ioWriteLoop_called (h : ioRegisterArea ≤ v) (hne : mem.devices ≠ []) (x : Word)
    (trace : List IoCall) :
    ioWriteLoop v x mem.devices trace =
      (mem.called v).foldlM (fun tr d => d.callWrite v x tr) trace := by
  rw [mem.called_of_le h, ← ioWriteLoop_concat v x _ (mem.devices.getLast hne),
    List.dropLast_append_getLast hne]

/-- In the register area a read is made by the devices alone. -/
lemma mmuRead_called (h : ioRegisterArea ≤ v) (hne : mem.devices ≠ []) (dst : Word)
    (opSize : MemOpSize) :
    mmuRead mem v dst opSize = (do
      let (dst, trace) ← (mem.called v).foldlM (fun p d => d.callRead v p.1 p.2) (dst, mem.ioTrace)
      pure (.none, dst, mem.withTrace trace)) := by
  rw [mmuRead_register h, ioReadLoop_called h hne]

lemma mmuRead_of_devices_nil (h : ioRegisterArea ≤ v) (hnil : mem.devices = []) (dst : Word)
    (opSize : MemOpSize) : mmuRead mem v dst opSize = .error .nullPointer := by
  rw [mmuRead_register h, hnil]
  rfl

/-- A read that calls no device leaves the memory unit as it is. -/
lemma mmuRead_of_called_nil {dst x : Word} {opSize : MemOpSize} {e : Exception}
    (hnil : mem.called v = []) (h : mmuRead mem v dst opSize = .ok (e, x, mem')) : mem' = mem := by
  obtain ⟨-, ⟨trace, ha, hloop, rfl⟩ | ⟨-, -, -, hmem⟩ | ⟨_, -, -, -, -, -, hmem⟩⟩ := mmuRead_cases h
  · have hne : mem.devices ≠ [] := by
      intro hdev
      rw [hdev] at hloop
      cases hloop
    rw [ioReadLoop_called ha hne, hnil, List.foldlM_nil, pure_eq_ok, Prod.mk.injEq] at hloop
    rw [← hloop.2]
    rfl
  · exact hmem
  · exact hmem

/-- A write from the descriptor area on that calls no device leaves the memory unit as it is. -/
lemma mmuWrite_of_called_nil {src : Word} {opSize : MemOpSize} {e : Exception}
    (hd : ioDescriptorArea ≤ v) (hnil : mem.called v = [])
    (h : mmuWrite mem v src opSize = .ok (e, mem')) : mem' = mem := by
  rcases mmuWrite_cases h with ⟨trace, ha, -, hloop, rfl⟩ | ⟨-, -, -, hmem⟩ | ⟨_, hlow, -⟩
  · have hne : mem.devices ≠ [] := by
      intro hdev
      rw [hdev] at hloop
      cases hloop
    rw [ioWriteLoop_called ha hne, hnil, List.foldlM_nil, pure_eq_ok] at hloop
    rw [← hloop]
    rfl
  · exact hmem
  · exact absurd hd hlow

end Called

/-! ### Devices and the destination -/

/-- What `io_read` of the device does, does not depend on what `*dst` holds. -/
def Device.Assigns (dev : Device) : Prop :=
  ∀ f, dev.ioRead = some f → ∀ trace addr dst dst', f trace addr dst = f trace addr dst'

/-- `io_read` of the device returns without having assigned `*dst`. -/
def Device.Keeps (dev : Device) : Prop :=
  ∃ f, dev.ioRead = some f ∧ ∀ trace addr dst, f trace addr dst = .ok dst

/-- A call through a `NULL` pointer does not return, whatever `*dst` holds. -/
lemma assigns_of_ioRead_none {dev : Device} (h : dev.ioRead = none) : dev.Assigns := by
  intro f hf
  rw [h] at hf
  cases hf

lemma keeps_of_ttyDeviceRead {dev : Device} (h : dev.ioRead = some ttyDeviceRead) : dev.Keeps :=
  ⟨ttyDeviceRead, h, fun _ _ _ => rfl⟩

lemma Device.Assigns.callRead_eq {dev : Device} (h : dev.Assigns) (addr dst dst' : Word)
    (trace : List IoCall) : dev.callRead addr dst trace = dev.callRead addr dst' trace := by
  unfold Device.callRead
  cases hf : dev.ioRead with
  | none => rfl
  | some f =>
    simp only [h f hf trace addr dst dst']

lemma Device.Keeps.callRead_eq {dev : Device} (h : dev.Keeps) (addr dst : Word)
    (trace : List IoCall) :
    dev.callRead addr dst trace = .ok (dst, .read dev.ioAddrBase addr :: trace) := by
  obtain ⟨f, hf, hkeep⟩ := h
  unfold Device.callRead
  rw [hf]
  simp only [hkeep]
  rfl

/-- One device that assigns is enough. -/
lemma foldlM_callRead_of_assigns {v : Word} {l : List Device}
    (hdev : ∀ dev ∈ l, dev.Assigns ∨ dev.Keeps) (h : ∃ dev ∈ l, dev.Assigns) (dst dst' : Word)
    (trace : List IoCall) :
    l.foldlM (fun p d => d.callRead v p.1 p.2) (dst, trace) =
      l.foldlM (fun p d => d.callRead v p.1 p.2) (dst', trace) := by
  induction l generalizing trace with
  | nil =>
    obtain ⟨dev, hmem, -⟩ := h
    cases hmem
  | cons d l ih =>
    rw [List.foldlM_cons, List.foldlM_cons]
    by_cases hd : d.Assigns
    · rw [hd.callRead_eq v dst dst' trace]
    · -- the old value is passed on to the devices behind this one
      have hkeep := (hdev d List.mem_cons_self).resolve_left hd
      rw [hkeep.callRead_eq, hkeep.callRead_eq]
      obtain ⟨dev, hmem, hassigns⟩ := h
      rcases List.mem_cons.mp hmem with rfl | hmem
      · exact absurd hassigns hd
      · exact ih (fun e he => hdev e (List.mem_cons_of_mem _ he)) ⟨dev, hmem, hassigns⟩ _

/-- Devices that do not assign leave the old value. -/
lemma foldlM_callRead_of_keeps {v : Word} {l : List Device} (hdev : ∀ dev ∈ l, dev.Keeps)
    (dst : Word) (trace : List IoCall) :
    ∃ trace', l.foldlM (fun p d => d.callRead v p.1 p.2) (dst, trace) =
      (.ok (dst, trace') : Except HostFault _) := by
  induction l generalizing trace with
  | nil => exact ⟨trace, rfl⟩
  | cons d l ih =>
    rw [List.foldlM_cons, (hdev d List.mem_cons_self).callRead_eq]
    exact ih (fun e he => hdev e (List.mem_cons_of_mem _ he)) _

/-! ### Reads that do not depend on the destination -/

/-- The addresses at which `*dst` is assigned: those below the register area, and those of the
register area at which a device that assigns is called; without devices the call does not return. -/
def Mmu.AssignsDst (mem : Mmu) (vaddr : Word) : Prop :=
  vaddr < ioRegisterArea ∨ mem.devices = [] ∨ ∃ dev ∈ mem.called vaddr, dev.Assigns

section Readback

variable {mem : Mmu} {v : Word}

lemma Mmu.mem_devices_of_mem_called {dev : Device} (h : dev ∈ mem.called v) : dev ∈ mem.devices := by
  unfold Mmu.called at h
  split_ifs at h
  · exact List.dropLast_subset _ (List.mem_of_mem_filter h)
  · cases h

/-- Where `*dst` is assigned, the whole result of a read is the same for all old values. -/
lemma mmuRead_of_assignsDst (hdev : ∀ dev ∈ mem.devices, dev.Assigns ∨ dev.Keeps)
    (h : mem.AssignsDst v) (dst dst' : Word) (opSize : MemOpSize) :
    mmuRead mem v dst opSize = mmuRead mem v dst' opSize := by
  by_cases ha : ioRegisterArea ≤ v
  · by_cases hne : mem.devices = []
    · rw [mmuRead_of_devices_nil ha hne, mmuRead_of_devices_nil ha hne]
    · have hassigns : ∃ dev ∈ mem.called v, dev.Assigns := by
        rcases h with hlt | hnil | hassigns
        · exact absurd ha (BitVec.not_le.mpr hlt)
        · exact absurd hnil hne
        · exact hassigns
      rw [mmuRead_called ha hne, mmuRead_called ha hne,
        foldlM_callRead_of_assigns (fun d hd => hdev d (Mmu.mem_devices_of_mem_called hd)) hassigns
          dst dst']
  · unfold mmuRead
    rw [if_neg ha, if_neg ha]

/-- Elsewhere a read gives the old value back. -/
lemma mmuRead_of_not_assignsDst (hdev : ∀ dev ∈ mem.devices, dev.Assigns ∨ dev.Keeps)
    (h : ¬ mem.AssignsDst v) (opSize : MemOpSize) (dst : Word) :
    ∃ mem', mmuRead mem v dst opSize = .ok (.none, dst, mem') := by
  simp only [Mmu.AssignsDst, not_or, not_exists, not_and, BitVec.not_lt] at h
  obtain ⟨ha, hne, hnone⟩ := h
  have hkeep : ∀ dev ∈ mem.called v, dev.Keeps := fun d hd =>
    (hdev d (Mmu.mem_devices_of_mem_called hd)).resolve_left (hnone d hd)
  obtain ⟨trace, hfold⟩ := foldlM_callRead_of_keeps hkeep dst mem.ioTrace
  rw [mmuRead_called ha hne, hfold]
  exact ⟨mem.withTrace trace, rfl⟩

end Readback

/-! ### Reads behind the table -/

/-- If the address is in the descriptor area, a read of this size there stays inside the table. -/
def InTable (vaddr : Word) (opSize : MemOpSize) : Prop :=
  ioDescriptorArea ≤ vaddr → vaddr < ioRegisterArea →
    opSize.bytes * (vaddr - ioDescriptorArea).toNat + opSize.bytes ≤ ioDescriptorAreaLength

instance (vaddr : Word) (opSize : MemOpSize) : Decidable (InTable vaddr opSize) :=
  inferInstanceAs (Decidable (_ → _))

/-- Below the register area nothing but the table is read beyond its end. -/
lemma mmuRead_outOfBounds_iff {mem : Mmu} {v : Word} (h : v < ioRegisterArea) (dst : Word)
    (opSize : MemOpSize) :
    mmuRead mem v dst opSize = .error .outOfBounds ↔ ¬ InTable v opSize := by
  by_cases hd : ioDescriptorArea ≤ v
  · have hlo : 0xFFFE0000 ≤ v.toNat := hd
    have hhi : v.toNat < 0xFFFF0000 := h
    have hoff : (v - ioDescriptorArea).toNat = v.toNat - 0xFFFE0000 := BitVec.toNat_sub_of_le hd
    rw [InTable, hoff, mmuRead_descriptor (o := v.toNat - 0xFFFE0000) (by omega) (by omega)]
    by_cases hin : opSize.bytes * (v.toNat - 0xFFFE0000) + opSize.bytes ≤ 0x10000
    · rw [if_pos hin]
      exact iff_of_false (by simp) (not_not_intro fun _ _ => hin)
    · rw [if_neg hin]
      exact iff_of_true rfl fun ht => hin (ht hd h)
  · refine iff_of_false ?_ (not_not_intro fun hle _ => absurd hle hd)
    rw [mmuRead_of_lt (BitVec.not_le.mp hd)]
    cases htrans : translate v mem with
    | none => simp
    | some o =>
      obtain ⟨hacc, rfl⟩ := (translate_eq_some_iff (BitVec.not_le.mp hd)).mp htrans
      have hword := hacc.offset_add_le
      have hbytes := opSize.bytes_le
      simp only [if_pos (show pmemOffset v + opSize.bytes ≤ mem.size by omega)]
      simp

/-- `init_io` on a memory unit without descriptors. -/
lemma initIo_eq {mmu : Mmu} (h : mmu.deviceDescriptorStart = fun _ => 0) :
    initIo mmu =
      { mmu with
        nextIoRegister := mmu.nextIoRegister + ioLengthShutdown
        devices := { shutdownDeviceCreate with ioAddrBase := mmu.nextIoRegister } :: mmu.devices
        deviceDescriptorStart := ByteStore.writeBlock mmu.deviceDescriptorStart 0
          ({ shutdownDeviceCreate with ioAddrBase := mmu.nextIoRegister } : Device).descriptorBytes } := by
  simp only [initIo, mmuAddDevice]
  rw [deviceDescriptorAdd_eq (o := 0)]
  · rfl
  · exact @getFreeDescriptor_eq _ [] h (by decide) fun d hd => absurd hd List.not_mem_nil

end MipsSim
