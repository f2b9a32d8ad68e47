import MipsSim.Machine.Mips32
import MipsSim.Lib.ByteStore
import Mathlib.Data.Fin.VecNotation

/-!
# The memory unit

The devices of `io.c` and `shutdown_dev.c` and the memory unit of `mem.c`. Host pointers into
`pmem` are offsets, with `none` for `NULL`; the host is little-endian, as the byte reversal of the
descriptor table presumes. A call that dereferences `NULL`, reads or writes outside the block it
points into, or leaves the process has no result but a `HostFault`.
-/

namespace MipsSim

/-- The ways in which a call of the simulator does not return. An access outside a block,
`outOfBounds`, is undefined behaviour: a compiled simulator may also read something there and go on,
and nothing is said about it then. -/
inductive HostFault where
  | nullPointer
  | outOfBounds
  | exited
  deriving DecidableEq, Repr

/-! ### Devices -/

/-- One call of a device function. The device is named by its `io_addr_base`. -/
inductive IoCall where
  | write (base addr data : Word)
  | read (base addr : Word)
  deriving DecidableEq, Repr

/-- `device_t`. The private state behind `realdevice` is a function of the calls the device has
received, so the device functions take the trace of all calls so far, latest first. A missing
function is a `NULL` function pointer. -/
structure Device where
  typecode : Word
  vendorString : Fin 8 → Byte
  irq : Word
  ioAddrBase : Word
  ioAddrLen : Word
  ioWrite : Option (List IoCall → Word → Word → Except HostFault Unit)
  ioRead : Option (List IoCall → Word → Word → Except HostFault Word)

/-- The call `dev->io_write(dev, addr, data)`. -/
def Device.callWrite (dev : Device) (addr data : Word) (trace : List IoCall) :
    Except HostFault (List IoCall) :=
  match dev.ioWrite with
  | none => .error .nullPointer
  | some f => do
    f trace addr data
    pure (.write dev.ioAddrBase addr data :: trace)

/-- The call `dev->io_read(dev, addr, dst)`, with the value left in `*dst`. -/
def Device.callRead (dev : Device) (addr dst : Word) (trace : List IoCall) :
    Except HostFault (Word × List IoCall) :=
  match dev.ioRead with
  | none => .error .nullPointer
  | some f => do
    let dst ← f trace addr dst
    pure (dst, .read dev.ioAddrBase addr :: trace)

/-- `TYPECODE_SHUTDOWN`. -/
def typecodeShutdown : Word := 0x0103#32

/-- `IRQ_INVALID`. -/
def irqInvalid : Word := 0xFFFFFFFF#32

/-- `IO_LENGTH_SHUTDOWN`. -/
def ioLengthShutdown : Word := 0x04#32

/-- `POWEROFF_SHUTDOWN_MAGIC`. -/
def poweroffShutdownMagic : Word := 0x0badf00d#32

/-- `SHUTDOWN_VENDOR_STRING`, the bytes of "SHUTDOWN". -/
def shutdownVendorString : Fin 8 → Byte := ![0x53, 0x48, 0x55, 0x54, 0x44, 0x4F, 0x57, 0x4E]

/-- `shutdown_device_write`: the magic word ends the process. -/
def shutdownDeviceWrite (_ : List IoCall) (_addr data : Word) : Except HostFault Unit :=
  if data = poweroffShutdownMagic then .error .exited else .ok ()

/-- `shutdown_device_create`. There is no `io_read`. -/
def shutdownDeviceCreate : Device where
  typecode := typecodeShutdown
  vendorString := shutdownVendorString
  irq := irqInvalid
  ioAddrBase := 0
  ioAddrLen := ioLengthShutdown
  ioWrite := some shutdownDeviceWrite
  ioRead := none

/-- `TYPECODE_TTY`. -/
def typecodeTty : Word := 0x0201#32

/-- `IRQ_TTY`. -/
def irqTty : Word := 2#32

/-- `IO_LENGTH_TTY`. -/
def ioLengthTty : Word := 12#32

/-- `TTY_VENDOR_STRING`, the bytes of "TTY" and five blanks. -/
def ttyVendorString : Fin 8 → Byte := ![0x54, 0x54, 0x59, 0x20, 0x20, 0x20, 0x20, 0x20]

/-- `tty_device_read`: it returns at once. -/
def ttyDeviceRead (_ : List IoCall) (_addr dst : Word) : Except HostFault Word := .ok dst

/-- `tty_device_write`: it returns at once. -/
def ttyDeviceWrite (_ : List IoCall) (_addr _data : Word) : Except HostFault Unit := .ok ()

/-- `tty_device_create`, when its shared memory can be set up. -/
def ttyDeviceCreate : Device where
  typecode := typecodeTty
  vendorString := ttyVendorString
  irq := irqTty
  ioAddrBase := 0
  ioAddrLen := ioLengthTty
  ioWrite := some ttyDeviceWrite
  ioRead := some ttyDeviceRead

/-! ### Device descriptors -/

/-- `device_descriptor_t`. -/
structure DeviceDescriptor where
  typecode : Word
  ioAddrBase : Word
  ioAddrLen : Word
  irq : Word
  vendorString : Fin 8 → Byte
  reserved1 : Word
  reserved2 : Word

/-- `REVERSE`. -/
def reverse (x : Word) : Word :=
  ((x >>> 24) &&& 0x000000ff#32) ||| ((x <<< 8) &&& 0x00ff0000#32) |||
    ((x >>> 8) &&& 0x0000ff00#32) ||| ((x <<< 24) &&& 0xff000000#32)

/-- `device_descriptor_reverse`. -/
def deviceDescriptorReverse (dev : DeviceDescriptor) : DeviceDescriptor where
  typecode := reverse dev.typecode
  ioAddrBase := reverse dev.ioAddrBase
  ioAddrLen := reverse dev.ioAddrLen
  irq := reverse dev.irq
  vendorString := dev.vendorString
  reserved1 := reverse dev.reserved1
  reserved2 := reverse dev.reserved2

/-- `device_descriptor_set_fields`. -/
def deviceDescriptorSetFields (dev : Device) : DeviceDescriptor where
  typecode := dev.typecode
  ioAddrBase := dev.ioAddrBase
  ioAddrLen := dev.ioAddrLen
  irq := dev.irq
  vendorString := dev.vendorString
  reserved1 := 0
  reserved2 := 0

/-- A `uint32_t` of the little-endian host at byte `o` of a block. -/
def hostWord (m : ℕ → Byte) (o : ℕ) : Word := m (o + 3) ++ m (o + 2) ++ m (o + 1) ++ m o

/-- A `uint16_t` of the little-endian host at byte `o` of a block. -/
def hostHalf (m : ℕ → Byte) (o : ℕ) : BitVec 16 := m (o + 1) ++ m o

/-- The bytes of a `uint32_t` on the little-endian host. -/
def hostBytes (w : Word) : List Byte :=
  [w.setWidth 8, (w >>> 8).setWidth 8, (w >>> 16).setWidth 8, (w >>> 24).setWidth 8]

/-- `sizeof(struct device_descriptor)`; the structure is packed. -/
def sizeofDeviceDescriptor : ℕ := 32

/-- The descriptor structure at byte `o` of a block. -/
def DeviceDescriptor.load (m : ℕ → Byte) (o : ℕ) : DeviceDescriptor where
  typecode := hostWord m o
  ioAddrBase := hostWord m (o + 4)
  ioAddrLen := hostWord m (o + 8)
  irq := hostWord m (o + 12)
  vendorString := fun i => m (o + 16 + i)
  reserved1 := hostWord m (o + 24)
  reserved2 := hostWord m (o + 28)

/-- The bytes of a descriptor structure. -/
def DeviceDescriptor.bytes (d : DeviceDescriptor) : List Byte :=
  hostBytes d.typecode ++ hostBytes d.ioAddrBase ++ hostBytes d.ioAddrLen ++ hostBytes d.irq ++
    List.ofFn d.vendorString ++ hostBytes d.reserved1 ++ hostBytes d.reserved2

/-! ### The memory unit -/

/-- `KSEG1_SIZE`. -/
def kseg1Size : Word := 0x20000000#32

/-- `KSEG0_SIZE`. -/
def kseg0Size : Word := 0x20000000#32

/-- `KUSEG_SIZE`. -/
def kusegSize : Word := 0x80000000#32

/-- `KSEG1_PSTART`. -/
def kseg1Pstart : Word := 0x00000000#32

/-- `KSEG0_PSTART`. -/
def kseg0Pstart : Word := 0x20000000#32

/-- `KUSEG_PSTART`. -/
def kusegPstart : Word := kseg1Pstart + kseg0Pstart

/-- `KSEG2_PSTART`. -/
def kseg2Pstart : Word := kusegPstart + kusegSize

/-- `IO_REGISTER_AREA`. -/
def ioRegisterArea : Word := 0xFFFF0000#32

/-- `IO_DESCRIPTOR_AREA`. -/
def ioDescriptorArea : Word := 0xFFFE0000#32

/-- `IO_DESCRIPTOR_AREA_LENGTH`. -/
def ioDescriptorAreaLength : ℕ := 0x00010000

/-- `MAX_IO_DEVICES`. -/
def maxIoDevices : ℕ := ioDescriptorAreaLength / sizeofDeviceDescriptor

/-- `mem_op_size_t`. -/
inductive MemOpSize where
  | byte | half | word
  deriving DecidableEq, Repr

/-- The number of bytes of an access. -/
def MemOpSize.bytes : MemOpSize → ℕ
  | .byte => 1
  | .half => 2
  | .word => 4

/-- `mmu_t`. `size` is the number of bytes allocated for `pmem`, a 64-bit `size_t`; the segment
sizes are stored truncated to 32 bits, and the structure keeps them tied to `size`. `ioTrace` is
the state of the devices: every call made to one of them, latest first. -/
structure Mmu where
  size : ℕ
  pmem : ℕ → Byte
  deviceDescriptorStart : ℕ → Byte
  nextIoRegister : Word
  devices : List Device
  sizeKseg0 : Word
  sizeKseg1 : Word
  sizeKuseg : Word
  ioTrace : List IoCall
  sizeKseg0_eq : sizeKseg0 = BitVec.ofNat 32 (size / 8)
  sizeKseg1_eq : sizeKseg1 = BitVec.ofNat 32 (size / 8)
  sizeKuseg_eq : sizeKuseg = BitVec.ofNat 32 (size / 2)

/-- `mmu_init`, when its three allocations succeed. -/
def mmuInit (size : ℕ) : Mmu where
  size := size
  pmem := fun _ => 0
  deviceDescriptorStart := fun _ => 0
  nextIoRegister := ioRegisterArea
  devices := []
  sizeKseg0 := BitVec.ofNat 32 (size / 8)
  sizeKseg1 := BitVec.ofNat 32 (size / 8)
  sizeKuseg := BitVec.ofNat 32 (size / 2)
  ioTrace := []
  sizeKseg0_eq := rfl
  sizeKseg1_eq := rfl
  sizeKuseg_eq := rfl

/-- The memory unit with other contents of `pmem`. -/
def Mmu.withPmem (mem : Mmu) (pmem : ℕ → Byte) : Mmu := { mem with pmem := pmem }

/-- The memory unit after further device calls. -/
def Mmu.withTrace (mem : Mmu) (trace : List IoCall) : Mmu := { mem with ioTrace := trace }

@[simp] lemma Mmu.withPmem_pmem (mem : Mmu) (p : ℕ → Byte) : (mem.withPmem p).pmem = p := rfl

@[simp] lemma Mmu.withPmem_withPmem (mem : Mmu) (p q : ℕ → Byte) :
    (mem.withPmem p).withPmem q = mem.withPmem q := rfl

@[simp] lemma Mmu.withTrace_self (mem : Mmu) : mem.withTrace mem.ioTrace = mem := rfl

@[simp] lemma Mmu.withTrace_ioTrace (mem : Mmu) (tr : List IoCall) :
    (mem.withTrace tr).ioTrace = tr := rfl

/-! ### Address translation -/

/-- `translate_vaddr`. The last test is not an `else` branch: it runs after the cascade. -/
def translateVaddr (vaddr : Word) : Word :=
  if vaddr > ioRegisterArea then vaddr
  else if vaddr > ioDescriptorArea then last 0
  else if vaddr > kseg2Pstart then 0
  else if vaddr > kseg1Pstart then last (vaddr &&& 0x1FFFFFFF#32)
  else if vaddr > kseg0Pstart then last (vaddr &&& 0x7FFFFFFF#32)
  else last 0
where
  /-- The test after the cascade, on what the cascade has assigned to `paddr`. -/
  last (paddr : Word) : Word :=
    if vaddr < kseg0Pstart then vaddr + kseg0Size + kseg1Size else paddr

/-- `translate_paddr`, as an offset into `pmem`. -/
def translatePaddr (paddr : Word) (mem : Mmu) : Option ℕ :=
  if paddr ≥ kseg0Size + kseg1Size + kusegSize then none
  else if paddr ≥ kseg1Size + kseg0Size then
    if paddr ≥ kusegPstart + mem.sizeKseg0 + mem.sizeKseg1 + mem.sizeKuseg then none
    else some (paddr - kseg1Pstart - kseg0Pstart - kusegPstart).toNat
  else if paddr ≥ kseg1Size then
    if paddr ≥ kseg0Pstart + mem.sizeKseg0 + mem.sizeKseg1 then none
    else some (paddr - kseg1Pstart - kseg0Pstart).toNat
  else
    if paddr ≥ kseg1Pstart + mem.sizeKseg0 then none
    else some (paddr - kseg1Pstart).toNat

/-- `translate_vaddr` followed by `translate_paddr`. -/
def translate (vaddr : Word) (mem : Mmu) : Option ℕ := translatePaddr (translateVaddr vaddr) mem

/-! ### Access macros -/

/-- `GET_BIGWORD`. -/
def getBigWord (m : ℕ → Byte) (o : ℕ) : Word :=
  ((m o).setWidth 32 <<< 24) ||| ((m (o + 1)).setWidth 32 <<< 16) |||
    ((m (o + 2)).setWidth 32 <<< 8) ||| (m (o + 3)).setWidth 32

/-- `GET_BIGBYTE`. -/
def getBigByte (m : ℕ → Byte) (o : ℕ) : Word := (m o).setWidth 32

/-- `GET_BIGHALF`. The cast to `uint16_t` binds to the shifted byte only. -/
def getBigHalf (m : ℕ → Byte) (o : ℕ) : Word :=
  (((m o).setWidth 32 <<< 8).setWidth 16).setWidth 32 ||| (m (o + 1)).setWidth 32

/-- `SET_BIGWORD`: the bytes it assigns from the given address on. -/
def setBigWord (value : Word) : List Byte :=
  [(value >>> 24).setWidth 8, (value <<< 8 >>> 24).setWidth 8,
    (value <<< 16 >>> 24).setWidth 8, (value <<< 24 >>> 24).setWidth 8]

/-- `SET_BIGBYTE`. -/
def setBigByte (value : Word) : List Byte := [value.setWidth 8]

/-- `SET_BIGHALF`. -/
def setBigHalf (value : Word) : List Byte :=
  [(value >>> 8).setWidth 8, (value <<< 24 >>> 24).setWidth 8]

/-- The `GET_BIG*` macro that `mmu_read` uses for a size. -/
def getBig : MemOpSize → (ℕ → Byte) → ℕ → Word
  | .byte => getBigByte
  | .half => getBigHalf
  | .word => getBigWord

/-- The `SET_BIG*` macro that `mmu_write` uses for a size. -/
def setBig : MemOpSize → Word → List Byte
  | .byte => setBigByte
  | .half => setBigHalf
  | .word => setBigWord

/-! ### Reading and writing -/

/-- The range test of the two device loops: `<=` at both ends. -/
def Device.claims (dev : Device) (vaddr : Word) : Prop :=
  dev.ioAddrBase ≤ vaddr ∧ vaddr ≤ dev.ioAddrBase + dev.ioAddrLen

instance (dev : Device) (vaddr : Word) : Decidable (dev.claims vaddr) :=
  inferInstanceAs (Decidable (_ ∧ _))

/-- The device loop of `mmu_write`. It reads `dev->next` before anything else and ends at the
device that has no successor. -/
def ioWriteLoop (vaddr src : Word) : List Device → List IoCall → Except HostFault (List IoCall)
  | [], _ => .error .nullPointer
  | [_], trace => .ok trace
  | dev :: next :: rest, trace =>
    if dev.claims vaddr then do
      let trace ← dev.callWrite vaddr src trace
      ioWriteLoop vaddr src (next :: rest) trace
    else ioWriteLoop vaddr src (next :: rest) trace

/-- The device loop of `mmu_read`, with the value it leaves in `*dst`. -/
def ioReadLoop (vaddr : Word) :
    List Device → Word → List IoCall → Except HostFault (Word × List IoCall)
  | [], _, _ => .error .nullPointer
  | [_], dst, trace => .ok (dst, trace)
  | dev :: next :: rest, dst, trace =>
    if dev.claims vaddr then do
      let (dst, trace) ← dev.callRead vaddr dst trace
      ioReadLoop vaddr (next :: rest) dst trace
    else ioReadLoop vaddr (next :: rest) dst trace

/-- The descriptor-area reads of `mmu_read`. The half and word cases index an array of
`uint16_t` and `uint32_t` with the byte offset. -/
def descriptorRead (area : ℕ → Byte) (index : ℕ) : MemOpSize → Except HostFault Word
  | .byte =>
    if index < ioDescriptorAreaLength then .ok ((area index).setWidth 32)
    else .error .outOfBounds
  | .half =>
    if 2 * index + 1 < ioDescriptorAreaLength then .ok ((hostHalf area (2 * index)).setWidth 32)
    else .error .outOfBounds
  | .word =>
    if 4 * index + 3 < ioDescriptorAreaLength then .ok (hostWord area (4 * index))
    else .error .outOfBounds

/-- `mmu_read`, with the value of `*dst` before the call as an argument and the one after it in
the result. It returns `EXC_None` on every path. -/
def mmuRead (mem : Mmu) (vaddr dst : Word) (opSize : MemOpSize) :
    Except HostFault (Exception × Word × Mmu) :=
  if vaddr ≥ ioRegisterArea then do
    let (dst, trace) ← ioReadLoop vaddr mem.devices dst mem.ioTrace
    pure (.none, dst, mem.withTrace trace)
  else if vaddr ≥ ioDescriptorArea then do
    let dst ← descriptorRead mem.deviceDescriptorStart (vaddr - ioDescriptorArea).toNat opSize
    pure (.none, dst, mem)
  else
    match translate vaddr mem with
    | none => .error .nullPointer
    | some aaddr =>
      if aaddr + opSize.bytes ≤ mem.size then .ok (.none, getBig opSize mem.pmem aaddr, mem)
      else .error .outOfBounds

/-- `mmu_write`. -/
def mmuWrite (mem : Mmu) (vaddr src : Word) (opSize : MemOpSize) :
    Except HostFault (Exception × Mmu) :=
  if vaddr ≥ ioRegisterArea then do
    let trace ← ioWriteLoop vaddr src mem.devices mem.ioTrace
    pure (.none, mem.withTrace trace)
  else if vaddr ≥ ioDescriptorArea then .ok (.addressErrorStore, mem)
  else
    match translate vaddr mem with
    | none => .error .nullPointer
    | some aaddr =>
      if aaddr + opSize.bytes ≤ mem.size then
        .ok (.none, mem.withPmem (ByteStore.writeBlock mem.pmem aaddr (setBig opSize src)))
      else .error .outOfBounds

/-! ### Registering devices -/

/-- `get_free_descriptor`, as the byte offset of the slot in the descriptor area. -/
def getFreeDescriptor (mmu : Mmu) : Option ℕ :=
  ((List.range maxIoDevices).map (· * sizeofDeviceDescriptor)).find? fun o =>
    (deviceDescriptorReverse (.load mmu.deviceDescriptorStart o)).typecode = 0

/-- `device_descriptor_add`. -/
def deviceDescriptorAdd (mmu : Mmu) (dev : Device) : Mmu :=
  match getFreeDescriptor mmu with
  | none => mmu
  | some o =>
    { mmu with
      deviceDescriptorStart := ByteStore.writeBlock mmu.deviceDescriptorStart o
        (deviceDescriptorReverse (deviceDescriptorSetFields dev)).bytes }

/-- `mmu_add_device`; `none` is a `NULL` device. -/
def mmuAddDevice (mmu : Mmu) : Option Device → Mmu
  | none => mmu
  | some dev =>
    let dev := { dev with ioAddrBase := mmu.nextIoRegister }
    deviceDescriptorAdd
      { mmu with
        nextIoRegister := mmu.nextIoRegister + dev.ioAddrLen
        devices := dev :: mmu.devices } dev

/-- `init_io`: the memory unit with the shutdown device registered. -/
def initIo (mmu : Mmu) : Mmu := mmuAddDevice mmu (some shutdownDeviceCreate)

end MipsSim
