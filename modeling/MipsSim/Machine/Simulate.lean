import MipsSim.Elf.Properties
import MipsSim.Sequential.Access

/-!
# The simulator

`run` and `simulate` of `sim.c` with what they set up: the cores of `cpu_init`, the memory unit and
its one device, and the program. Here the debugger and the log of executed instructions are left
out; what `run` reads for them is not.
-/

namespace MipsSim

open Run ByteStore

/-- `REG_V1`. -/
def regV1 : ℕ := 3

/-- `REG_SP`. -/
def regSp : ℕ := 29

/-- `SR_IE`. -/
def srIe : Word := 1#32 <<< 0

/-- `KSEG0_VSTART`. -/
def kseg0Vstart : Word := 0x80000000#32

/-! ### The main loop -/

/-- The loop of `run`, with fuel for the tests of its condition. -/
def Hardware.runLoop : ℕ → Hardware → Except HostFault (Option Hardware) :=
  loopUntil Hardware.finished runStep

/-- What `run` returns, the register `$v1` of the first core. -/
def Hardware.result (hw : Hardware) : Except HostFault Word :=
  match hw.cores with
  | [] => .error .outOfBounds
  | core :: _ => .ok (core.regs regV1)

/-- `run`, or nothing if it is still running. -/
def Hardware.run (fuel : ℕ) (hw : Hardware) : Except HostFault (Option Word) := do
  match ← hw.runLoop fuel with
  | none => pure none
  | some hw => do
    let v1 ← hw.result
    pure (some v1)

/-! ### The start -/

/-- `cpu_init`. It returns `NULL` for a negative number, for which `calloc` fails, and it writes to
the first core even if there is none. -/
def cpuInit (nCores : ℤ) : Except HostFault (Option (List Core)) :=
  if nCores < 0 then .ok none
  else
    match List.replicate nCores.toNat (Core.init (fun _ => 0) 0 (fun _ => 0)) with
    | [] => .error .outOfBounds
    | core :: cores =>
      .ok (some ({ core with cp0 := setReg core.cp0 regSr (core.cp0 regSr ||| srIe) } :: cores))

/-- `hw_init`. The number of cores is passed on as an `int`. -/
def hwInit (cores memsz : ℕ) : Except HostFault Hardware := do
  let mmu := mmuInit memsz
  match ← cpuInit (BitVec.ofNat 32 cores).toInt with
  | none => .error .exited
  | some [] => .error .outOfBounds
  | some (core :: cores) =>
    pure
      { cores := { core with
                   regs := setReg core.regs regSp (kseg0Vstart + mmu.sizeKseg0 - 4) } :: cores
        mmu := initIo mmu
        finished := false }

/-- `simulate` up to the call of `run`. -/
def boot (program : Option (List Byte)) (cores memsz : ℕ) : Except HostFault Hardware := do
  let hw ← hwInit cores memsz
  match hw.cores with
  | [] => .error .outOfBounds
  | core :: cores => do
    let (retval, pc, mmu) ← elfDump program core.pc hw.mmu
    match retval with
    | some _ => .error .exited
    | none => pure { hw with cores := { core with pc := pc } :: cores, mmu := mmu }

/-- `simulate`. -/
def simulate (program : Option (List Byte)) (cores memsz fuel : ℕ) :
    Except HostFault (Option Word) := do
  let hw ← boot program cores memsz
  hw.run fuel

/-! ### What is there at the start -/

/-- The registers of the first core: the stack pointer is below the end of kseg0. -/
def bootRegs (memsz : ℕ) : ℕ → Word :=
  setReg (fun _ => 0) regSp (kseg0Vstart + (mmuInit memsz).sizeKseg0 - 4)

/-- The CP0 registers of the first core. -/
def bootCp0 : ℕ → Word := setReg (fun _ => 0) regSr srIe

/-- A core that nothing has been set up for. -/
def idleCore : Core := .init (fun _ => 0) 0 (fun _ => 0)

/-- The cores that there are, as the `int` counts them. -/
def coreCount (cores : ℕ) : ℕ := (BitVec.ofNat 32 cores).toInt.toNat

lemma cpuInit_of_pos {n : ℕ} : cpuInit (n + 1 : ℕ) =
    .ok (some ({ idleCore with cp0 := bootCp0 } :: List.replicate n idleCore)) := by
  rw [cpuInit, if_neg (by omega), Int.toNat_natCast, List.replicate_succ]
  rfl

lemma cpuInit_of_not_pos {n : ℤ} (h : n ≤ 0) :
    cpuInit n = .ok none ∨ cpuInit n = .error .outOfBounds := by
  by_cases hn : n < 0
  · exact .inl (if_pos hn)
  · obtain rfl : n = 0 := by omega
    exact .inr rfl

lemma hwInit_eq_ok {cores memsz : ℕ} {hw : Hardware} : hwInit cores memsz = .ok hw ↔
    ∃ n, coreCount cores = n + 1 ∧
      hw = ⟨.init (bootRegs memsz) 0 bootCp0 :: List.replicate n idleCore,
        initIo (mmuInit memsz), false⟩ := by
  unfold coreCount hwInit
  rcases Int.lt_or_le 0 (BitVec.ofNat 32 cores).toInt with hpos | hneg
  · obtain ⟨n, hn⟩ : ∃ n : ℕ, (BitVec.ofNat 32 cores).toInt = (n + 1 : ℕ) :=
      ⟨(BitVec.ofNat 32 cores).toInt.toNat - 1, by omega⟩
    rw [hn, cpuInit_of_pos]
    constructor
    · rintro h
      exact ⟨n, rfl, (Except.ok.inj h).symm⟩
    · rintro ⟨m, hm, rfl⟩
      obtain rfl : n = m := by omega
      rfl
  · constructor
    · intro h
      rcases cpuInit_of_not_pos hneg with hc | hc
      · rw [hc] at h
        cases h
      · rw [hc] at h
        cases h
    · rintro ⟨n, hn, -⟩
      omega

/-- A program is about to run: its image is in the memory, and the first core is at its entry. The
others are at address 0. -/
lemma boot_eq_ok {program : Option (List Byte)} {cores memsz : ℕ} {hw : Hardware} :
    boot program cores memsz = .ok hw ↔
      ∃ n entry mem, coreCount cores = n + 1 ∧
        elfDump program 0 (initIo (mmuInit memsz)) = .ok (none, entry, mem) ∧
        hw = ⟨.init (bootRegs memsz) entry bootCp0 :: List.replicate n idleCore, mem, false⟩ := by
  unfold boot
  simp only [bind_eq_ok, hwInit_eq_ok]
  constructor
  · rintro ⟨_, ⟨n, hn, rfl⟩, h⟩
    simp only [bind_eq_ok, Prod.exists] at h
    obtain ⟨retval, entry, mem, hload, h⟩ := h
    cases retval with
    | some e => cases h
    | none => exact ⟨n, entry, mem, hn, hload, (Except.ok.inj h).symm⟩
  · rintro ⟨n, entry, mem, hn, hload, rfl⟩
    refine ⟨_, ⟨n, hn, rfl⟩, ?_⟩
    simp only [bind_eq_ok, Prod.exists]
    exact ⟨none, entry, mem, hload, rfl⟩

/-! ### Devices -/

section Load

variable {mem mem' : Mmu} {r : Option ElfError}

lemma store_samePorts {ptr : Option ℕ} {bs : List Byte} (h : mem.store ptr bs = .ok mem') :
    mem.SamePorts mem' := by
  unfold Mmu.store at h
  split_ifs at h
  · obtain rfl := Except.ok.inj h
    rfl
  · split at h
    · cases h
    · split_ifs at h
      obtain rfl := Except.ok.inj h
      rfl

lemma copySegment_samePorts {stream : Stream} {phdr : PHeader}
    (h : copySegment stream phdr mem = .ok (r, mem')) : mem.SamePorts mem' := by
  unfold copySegment at h
  simp only [bind_eq_ok] at h
  obtain ⟨mem₁, hzero, mem₂, hcopy, h⟩ := h
  have hmem : mem' = mem₂ := by
    split_ifs at h
    all_goals
      obtain ⟨-, rfl⟩ := Prod.mk.inj (Except.ok.inj h)
      rfl
  rw [hmem]
  exact (store_samePorts hzero).trans (store_samePorts hcopy)

lemma copyCurSegmentAux_samePorts {stream : Stream}
    (h : copyCurSegmentAux stream mem = .ok (r, mem')) : mem.SamePorts mem' := by
  unfold copyCurSegmentAux at h
  split at h
  · obtain ⟨-, rfl⟩ := Prod.mk.inj (Except.ok.inj h)
    rfl
  · dsimp only at h
    split_ifs at h
    · obtain ⟨-, rfl⟩ := Prod.mk.inj (Except.ok.inj h)
      rfl
    · exact copySegment_samePorts h
    · obtain ⟨-, rfl⟩ := Prod.mk.inj (Except.ok.inj h)
      rfl

lemma copySegments_samePorts {ehdr : Ehdr} {n : ℕ} {stream : Stream}
    (h : copySegments ehdr n stream mem = .ok (r, mem')) : mem.SamePorts mem' := by
  induction n generalizing stream mem with
  | zero =>
    obtain ⟨-, rfl⟩ := Prod.mk.inj (Except.ok.inj h)
    rfl
  | succ n ih =>
    simp only [copySegments, copyCurSegment, bind_eq_ok, pure_eq_ok, Prod.exists] at h
    obtain ⟨retval, stream', mem₁, ⟨_, _, haux, hrest⟩, h⟩ := h
    obtain ⟨rfl, rfl, rfl⟩ := by simpa only [Prod.mk.injEq] using hrest
    have hfirst := copyCurSegmentAux_samePorts haux
    split at h
    · obtain ⟨-, rfl⟩ := Prod.mk.inj (Except.ok.inj h)
      exact hfirst
    · exact hfirst.trans (ih h)

/-- The loader touches the contents of the memory only. -/
lemma elfDump_samePorts {program : Option (List Byte)} {entry entry' : Word}
    (h : elfDump program entry mem = .ok (r, entry', mem')) : mem.SamePorts mem' := by
  unfold elfDump at h
  split at h
  · obtain ⟨-, h⟩ := Prod.mk.inj (Except.ok.inj h)
    obtain ⟨-, rfl⟩ := Prod.mk.inj h
    rfl
  · simp only [bind_eq_ok, pure_eq_ok, Prod.exists, Prod.mk.injEq] at h
    obtain ⟨_, _, hload, -, -, rfl⟩ := h
    exact copySegments_samePorts hload

end Load

/-- `init_io` on a fresh memory unit. -/
def bootMmu (memsz : ℕ) : Mmu :=
  { mmuInit memsz with
    deviceDescriptorStart := writeBlock (fun _ => 0) 0
      { shutdownDeviceCreate with ioAddrBase := ioRegisterArea }.descriptorBytes
    nextIoRegister := ioRegisterArea + ioLengthShutdown
    devices := [{ shutdownDeviceCreate with ioAddrBase := ioRegisterArea }] }

lemma initIo_mmuInit (memsz : ℕ) : initIo (mmuInit memsz) = bootMmu memsz := by
  have hfree : getFreeDescriptor
      { mmuInit memsz with
        nextIoRegister := (mmuInit memsz).nextIoRegister + shutdownDeviceCreate.ioAddrLen
        devices := { shutdownDeviceCreate with ioAddrBase := (mmuInit memsz).nextIoRegister } ::
          (mmuInit memsz).devices } = some 0 :=
    getFreeDescriptor_eq (L := []) rfl (by decide) nofun
  rw [initIo, mmuAddDevice]
  exact deviceDescriptorAdd_eq _ hfree

/-- The only device is the one that the loops leave out. -/
lemma silent_bootMmu (memsz : ℕ) : (bootMmu memsz).Silent :=
  Mmu.silent_of_length_le (Nat.le_refl 1)

lemma Hardware.result_yields (hw : Hardware) :
    Yields (fun _ => True) (· ≠ .exited) hw.result := by
  unfold Hardware.result
  split
  · exact HostFault.noConfusion
  · exact trivial

section Boot

variable {program : Option (List Byte)} {cores memsz : ℕ} {hw₀ : Hardware}
  (hboot : boot program cores memsz = .ok hw₀)

include hboot

lemma samePorts_of_boot : (bootMmu memsz).SamePorts hw₀.mmu := by
  obtain ⟨n, entry, mem, -, hload, rfl⟩ := boot_eq_ok.mp hboot
  rw [initIo_mmuInit] at hload
  exact elfDump_samePorts hload

lemma silent_of_boot : hw₀.mmu.Silent :=
  (silent_bootMmu memsz).sameUnit (samePorts_of_boot hboot).sameUnit

/-- In no run of the simulator is a device called, whatever the program loads and stores: nothing
but the contents of the memory ever changes, and no access exits the process through a device. A
`NULL` that is dereferenced is the end of it all the same. -/
theorem devices_untouched :
    (∀ n hw, iterate runStep n hw₀ = .ok hw → (bootMmu memsz).SamePorts hw.mmu) ∧
      ∀ fuel, hw₀.run fuel ≠ .error .exited := by
  have hinv := (silent_bootMmu memsz).accessInvariant
  have hstep : ∀ hw : Hardware, (bootMmu memsz).SamePorts hw.mmu →
      Yields (fun hw' => (bootMmu memsz).SamePorts hw'.mmu) (· ≠ .exited) (runStep hw) :=
    fun hw hm => hinv.runStep hm HostFault.noConfusion
  constructor
  · intro n hw h
    exact (Yields.iterate n hstep (samePorts_of_boot hboot)).of_ok h
  · intro fuel h
    have hloop : Yields (fun _ => True) (· ≠ .exited) (hw₀.run fuel) := by
      refine (Yields.loopUntil fuel hstep (samePorts_of_boot hboot)).bind fun r _ => ?_
      cases r with
      | none => exact trivial
      | some hw => exact hw.result_yields.bind fun _ _ => trivial
    exact hloop.of_error h rfl

end Boot

/-- An executable that is loaded to the start of kseg0 and entered there. -/
def executable (text : List Byte) : List Byte :=
  sampleHeader ++ [0, 0, 0, 1, 0, 0, 0, 84, 0x80, 0, 0, 0, 0x80, 0, 0, 0] ++
    toBigEndian 4 text.length ++ toBigEndian 4 text.length ++ [0, 0, 0, 5, 0, 0, 0, 4] ++ text

/-- The memory unit after it was loaded. -/
def loadedMmu (memsz : ℕ) (text : List Byte) : Mmu :=
  (bootMmu memsz).withPmem
    (writeBlock (writeBlock (fun _ => 0) 0 (List.replicate text.length 0)) 0 text)

/-- `LUI $1, 0xFFFF; LUI $2, 0x0BAD; ORI $2, $2, 0xF00D; SW $2, 0($1)`: the magic word is stored to
the register of the shutdown device. -/
def powerOffText : List Byte :=
  [0x3C, 0x01, 0xFF, 0xFF, 0x3C, 0x02, 0x0B, 0xAD, 0x34, 0x42, 0xF0, 0x0D, 0xAC, 0x22, 0, 0]

theorem devices_untouched_powerOff : ∃ hw₀ hw,
    boot (some (executable powerOffText)) 1 1024 = .ok hw₀ ∧
    iterate runStep 8 hw₀ = .ok hw ∧ (bootMmu 1024).SamePorts hw.mmu ∧
    hw₀.run 20 ≠ .error .exited := by
  have hload : elfDump (some (executable powerOffText)) 0 (initIo (mmuInit 1024)) =
      .ok (none, 0x80000000#32, loadedMmu 1024 powerOffText) := by
    rw [initIo_mmuInit]
    rfl
  obtain ⟨hw₀, hboot, hw, hrun⟩ : ∃ hw₀, boot (some (executable powerOffText)) 1 1024 = .ok hw₀ ∧
      ∃ hw, iterate runStep 8 hw₀ = .ok hw :=
    ⟨_, boot_eq_ok.mpr ⟨0, _, _, rfl, hload, rfl⟩, _, rfl⟩
  obtain ⟨hports, hexit⟩ := devices_untouched hboot
  exact ⟨hw₀, hw, hboot, hrun, hports 8 hw hrun, hexit 20⟩

/-! ### More than one core -/

/-- The start of kuseg is not backed by memory: the three populated segments take up half a gibibyte
at most. -/
lemma translate_zero_of_small {mem : Mmu} (h : 2 * (mem.size / 8) + mem.size / 2 ≤ 0x20000000) :
    translate 0 mem = none := by
  have hvaddr : translateVaddr 0 = 0x40000000#32 := by decide
  rw [translate, hvaddr, translatePaddr, if_neg (by decide), if_pos (by decide), if_pos]
  rw [mem.sizeKseg0_eq, mem.sizeKseg1_eq, mem.sizeKuseg_eq]
  simp only [kusegPstart, kseg1Pstart, kseg0Pstart, ge_iff_le, BitVec.le_def, BitVec.toNat_add,
    BitVec.toNat_ofNat]
  omega

lemma mmuRead_zero_of_small {mem : Mmu} (h : 2 * (mem.size / 8) + mem.size / 2 ≤ 0x20000000)
    (dst : Word) (opSize : MemOpSize) : mmuRead mem 0 dst opSize = .error .nullPointer := by
  rw [mmuRead, if_neg (by decide), if_neg (by decide), translate_zero_of_small h]

/-- Where there is a device but none that is called, a read faults only by dereferencing `NULL` or
behind the table. -/
lemma Mmu.Silent.read_error {mem : Mmu} (hs : mem.Silent) (hne : mem.devices ≠ []) {a dst : Word}
    {opSize : MemOpSize} {f : HostFault} (hin : InTable a opSize)
    (h : mmuRead mem a dst opSize = .error f) : f = .nullPointer := by
  by_cases ha : ioRegisterArea ≤ a
  · rw [mmuRead_called ha hne, hs a] at h
    cases h
  · cases f with
    | nullPointer => rfl
    | outOfBounds =>
      exact absurd hin ((mmuRead_outOfBounds_iff (BitVec.not_le.mp ha) dst opSize).mp h)
    | exited => exact absurd rfl ((hs.read a dst opSize).of_error h)

section FirstTick

variable {regs cp0 : ℕ → Word} {pc inst : Word} {mem mem' : Mmu} {e : Exception} {f : HostFault}

/-- The first tick of a core is its fetch. -/
lemma tickCore_init (regs : ℕ → Word) (pc : Word) (cp0 : ℕ → Word) (mem : Mmu) :
    ∃ core, core.pc = pc ∧ tickCore (.init regs pc cp0) mem =
      (interpretIf core mem >>= fun r => pure (forwardingUnit r.1, r.2, false)) := by
  refine ⟨interpretId (interpretEx
    { Core.init regs pc cp0 with memWb := moveStage (.init regs pc cp0) .none 0 0 }), rfl, rfl⟩

lemma tickCore_init_of_fault (h : mmuRead mem pc 0 .word = .error f) :
    tickCore (.init regs pc cp0) mem = .error f := by
  obtain ⟨core, rfl, htick⟩ := tickCore_init regs pc cp0 mem
  rw [htick, interpretIf, h]
  rfl

lemma tickCore_init_of_ok (h : mmuRead mem pc 0 .word = .ok (e, inst, mem')) :
    ∃ core, tickCore (.init regs pc cp0) mem = .ok (core, mem', false) := by
  obtain ⟨core, rfl, htick⟩ := tickCore_init regs pc cp0 mem
  have hif : ∃ core', interpretIf core mem = .ok (core', mem') := by
    rw [interpretIf, h]
    dsimp only [bind, Except.bind]
    split_ifs
    · exact ⟨_, rfl⟩
    · exact ⟨_, rfl⟩
  obtain ⟨core', hif⟩ := hif
  refine ⟨forwardingUnit core', ?_⟩
  rw [htick, hif]
  rfl

lemma tickCores_of_fault {core core' core₂ : Core} {cores : List Core} {fin : Bool}
    (hfirst : tickCore core mem = .ok (core', mem', fin))
    (hsecond : tickCore core₂ mem' = .error f) :
    tickCores (core :: core₂ :: cores) mem = .error f := by
  have hrest : tickCores (core₂ :: cores) mem' = .error f := by
    rw [tickCores, hsecond]
    rfl
  rw [tickCores, hfirst]
  show (tickCores (core₂ :: cores) mem' >>= _) = _
  rw [hrest]
  rfl

end FirstTick

/-- The first round with a core at address 0 behind the first one. -/
lemma runStep_of_idleCore {regs cp0 : ℕ → Word} {entry : Word} {cores : List Core} {mem : Mmu}
    (hs : mem.Silent) (hne : mem.devices ≠ [])
    (hsmall : 2 * (mem.size / 8) + mem.size / 2 ≤ 0x20000000) :
    ∃ e, runStep ⟨.init regs entry cp0 :: idleCore :: cores, mem, false⟩ = .error e ∧
      e ≠ .exited ∧ (InTable entry .word → e = .nullPointer) := by
  cases hread : mmuRead mem entry 0 .word with
  | error e =>
    -- the word at the entry point cannot be read for the log
    refine ⟨e, ?_, (hs.read entry 0 .word).of_error hread, fun hin => hs.read_error hne hin hread⟩
    rw [runStep]
    exact congrArg (· >>= _) hread
  | ok r =>
    obtain ⟨e, inst, mem'⟩ := r
    obtain rfl : mem' = mem := (hs.read entry 0 .word).of_ok hread
    -- the first core ticks, and the second one cannot
    obtain ⟨core, hfirst⟩ : ∃ core, tickCore (.init regs entry cp0) mem' = .ok (core, mem', false) :=
      tickCore_init_of_ok hread
    have hsecond : tickCore idleCore mem' = .error .nullPointer :=
      tickCore_init_of_fault (mmuRead_zero_of_small hsmall 0 .word)
    have hticks := @tickCores_of_fault _ _ _ _ _ _ cores _ hfirst hsecond
    refine ⟨.nullPointer, ?_, HostFault.noConfusion, fun _ => rfl⟩
    rw [runStep]
    refine (congrArg (· >>= _) hread).trans ?_
    show (tickCores _ mem' >>= _) = _
    rw [hticks]
    rfl

/-- A first round that faults is the end of `simulate`. -/
lemma simulate_of_runStep_error {program : Option (List Byte)} {cores memsz : ℕ} {hw : Hardware}
    {e : HostFault} (hboot : boot program cores memsz = .ok hw) (he : runStep hw = .error e)
    (fuel : ℕ) : simulate program cores memsz (fuel + 1) = .error e := by
  have hgoing : ¬ hw.finished = true := by
    obtain ⟨_, _, _, -, -, rfl⟩ := boot_eq_ok.mp hboot
    exact Bool.false_ne_true
  have hrun : hw.runLoop (fuel + 1) = .error e := by
    rw [Hardware.runLoop, loopUntil, if_neg hgoing, he]
    rfl
  rw [simulate, hboot]
  show hw.run (fuel + 1) = _
  rw [Hardware.run, hrun]
  rfl

/-- With more than one core the simulator crashes in its first round, whatever program was loaded:
only the first core is given an entry point, and the second one dereferences `NULL` when it fetches
at address 0. Nothing faults before, unless the entry point is behind the descriptor table. -/
theorem simulate_of_two_cores {program : Option (List Byte)} {cores memsz : ℕ} {hw : Hardware}
    (hboot : boot program cores memsz = .ok hw) (hcores : 2 ≤ coreCount cores)
    (hmem : 2 * (memsz / 8) + memsz / 2 ≤ 0x20000000) :
    ∃ e, runStep hw = .error e ∧ e ≠ .exited ∧
      ((∀ core ∈ hw.cores.head?, InTable core.pc .word) → e = .nullPointer) ∧
      ∀ fuel, simulate program cores memsz (fuel + 1) = .error e := by
  have hports := samePorts_of_boot hboot
  have hone : hw.mmu.devices ≠ [] := by
    rw [hports.sameUnit.devices_eq]
    exact List.cons_ne_nil _ _
  have hsmall : 2 * (hw.mmu.size / 8) + hw.mmu.size / 2 ≤ 0x20000000 := by
    rw [hports.sameUnit.size_eq]
    exact hmem
  obtain ⟨n, entry, mem, hn, -, rfl⟩ := boot_eq_ok.mp hboot
  obtain ⟨n, rfl⟩ : ∃ m, n = m + 1 := ⟨n - 1, by omega⟩
  obtain ⟨e, hrun, hexit, hnull⟩ :=
    @runStep_of_idleCore (bootRegs memsz) bootCp0 entry (List.replicate n idleCore) mem
      (silent_of_boot hboot) hone hsmall
  exact ⟨e, hrun, hexit, fun hin => hnull (hin _ rfl), simulate_of_runStep_error hboot hrun⟩

/-- Two cores, and the default memory of 512 MiB. -/
theorem simulate_of_two_cores_default :
    ∃ hw, boot (some (executable powerOffText)) 2 0x20000000 = .ok hw ∧
      runStep hw = .error .nullPointer ∧
      ∀ fuel, simulate (some (executable powerOffText)) 2 0x20000000 (fuel + 1) =
        .error .nullPointer := by
  have hload : elfDump (some (executable powerOffText)) 0 (initIo (mmuInit 0x20000000)) =
      .ok (none, 0x80000000#32, loadedMmu 0x20000000 powerOffText) := by
    rw [initIo_mmuInit]
    rfl
  obtain ⟨hw, hboot, hin⟩ : ∃ hw, boot (some (executable powerOffText)) 2 0x20000000 = .ok hw ∧
      ∀ core ∈ hw.cores.head?, InTable core.pc .word := by
    refine ⟨_, boot_eq_ok.mpr ⟨1, _, _, rfl, hload, rfl⟩, fun core hcore => ?_⟩
    obtain rfl := Option.some.inj hcore
    exact (by decide : InTable 0x80000000#32 .word)
  obtain ⟨e, hrun, -, hnull, hall⟩ := simulate_of_two_cores hboot (by decide) (by decide)
  obtain rfl := hnull hin
  exact ⟨hw, hboot, hrun, hall⟩

end MipsSim
