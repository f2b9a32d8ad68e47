import MipsSim.Lib.Outcome
import MipsSim.Pipeline.Report
import MipsSim.Pipeline.Exit

/-!
# What accesses keep

The simulator changes the memory unit by calls of `mmu_read` and `mmu_write` only. What these keep,
all runs keep, and the ways in which these fault are those in which a run faults. Accesses change
the contents of the memory and the state of the devices, and nothing else; if they cannot reach a
device, they change the contents only.
-/

namespace MipsSim

open Run

/-! ### Invariants of accesses -/

/-- `Inv` is kept by every access, and an access faults with `F`. -/
structure AccessInvariant (Inv : Mmu → Prop) (F : HostFault → Prop) : Prop where
  read : ∀ mem, Inv mem → ∀ a dst opSize,
    Yields (fun r => Inv r.2.2) F (mmuRead mem a dst opSize)
  write : ∀ mem, Inv mem → ∀ a x opSize, Yields (fun r => Inv r.2) F (mmuWrite mem a x opSize)

namespace AccessInvariant

variable {Inv : Mmu → Prop} {F : HostFault → Prop} (h : AccessInvariant Inv F)

include h

lemma memLoad (core : Core) {mem : Mmu} (hm : Inv mem) (readData : Word) :
    Yields (fun r => Inv r.2.2) F (memLoad core mem readData) := by
  unfold MipsSim.memLoad
  split
  case h_4 | h_5 => exact (h.read mem hm _ _ _).bind fun _ hr => hr
  case h_6 => exact hm
  all_goals exact h.read mem hm _ _ _

lemma memStore (core : Core) {mem : Mmu} (hm : Inv mem) :
    Yields (fun r => Inv r.2) F (memStore core mem) := by
  unfold MipsSim.memStore
  split
  case h_4 | h_5 => exact (h.read mem hm _ _ _).bind fun _ hr => h.write _ hr _ _ _
  case h_6 => exact hm
  all_goals exact h.write mem hm _ _ _

lemma interpretMem (core : Core) {mem : Mmu} (hm : Inv mem) :
    Yields (fun r => Inv r.2) F (interpretMem core mem) := by
  simp only [MipsSim.interpretMem]
  split_ifs
  · exact hm
  · exact (h.memLoad core hm _).bind fun _ hr => hr
  · exact (h.memStore core hm).bind fun _ hr => hr
  · exact hm

lemma interpretIf (core : Core) {mem : Mmu} (hm : Inv mem) :
    Yields (fun r => Inv r.2) F (interpretIf core mem) := by
  unfold MipsSim.interpretIf
  refine (h.read mem hm _ _ _).bind fun (_, inst, mem') hr => ?_
  dsimp only
  split_ifs <;> exact hr

lemma tickCore (core : Core) {mem : Mmu} (hm : Inv mem) :
    Yields (fun r => Inv r.2.1) F (tickCore core mem) := by
  unfold MipsSim.tickCore
  refine (h.interpretMem _ hm).bind fun _ hr => ?_
  exact (h.interpretIf _ hr).bind fun _ hr' => hr'

lemma tickCores (cores : List Core) {mem : Mmu} (hm : Inv mem) :
    Yields (fun r => Inv r.2.1) F (tickCores cores mem) := by
  induction cores generalizing mem with
  | nil => exact hm
  | cons core cores ih =>
    refine (h.tickCore core hm).bind fun _ hr => ?_
    exact (ih hr).bind fun _ hr' => hr'

lemma tick {hw : Hardware} (hm : Inv hw.mmu) : Yields (fun hw' => Inv hw'.mmu) F (tick hw) :=
  (h.tickCores hw.cores hm).bind fun _ hr => hr

/-- `run` makes one more access itself. -/
lemma runStep {hw : Hardware} (hm : Inv hw.mmu) (hbounds : F .outOfBounds) :
    Yields (fun hw' => Inv hw'.mmu) F (runStep hw) := by
  unfold MipsSim.runStep
  split
  · exact hbounds
  · exact (h.read _ hm _ _ _).bind fun _ hr => h.tick hr

/-- MEM makes at most one access. -/
lemma memStep {core : Core} {mem mem' : Mmu} {e : Exception} {readData bad : Word} (hm : Inv mem)
    (hstep : MemStep core mem e readData bad mem') : Inv mem' :=
  (h.interpretMem core hm).of_ok (interpretMem_eq_ok hstep)

end AccessInvariant

/-! ### The unit stays the same -/

/-- The two are states of one memory unit. -/
def Mmu.SameUnit (mem mem' : Mmu) : Prop := mem' = (mem.withPmem mem'.pmem).withTrace mem'.ioTrace

namespace Mmu.SameUnit

variable {mem mem₁ mem' : Mmu}

lemma refl (mem : Mmu) : mem.SameUnit mem := rfl

lemma trans (h : mem.SameUnit mem₁) (h' : mem₁.SameUnit mem') : mem.SameUnit mem' := by
  unfold Mmu.SameUnit at *
  rw [h', h]
  rfl

lemma symm (h : mem.SameUnit mem') : mem'.SameUnit mem := by
  unfold Mmu.SameUnit at *
  rw [h]
  rfl

lemma devices_eq (h : mem.SameUnit mem') : mem'.devices = mem.devices := by
  rw [h]
  rfl

lemma size_eq (h : mem.SameUnit mem') : mem'.size = mem.size := by
  rw [h]
  rfl

lemma called_eq (h : mem.SameUnit mem') (a : Word) : mem'.called a = mem.called a := by
  unfold Mmu.called
  rw [h.devices_eq]

end Mmu.SameUnit

section Access

variable {mem mem' : Mmu} {a x dst : Word} {opSize : MemOpSize} {e : Exception}

lemma mmuRead_sameUnit (h : mmuRead mem a dst opSize = .ok (e, x, mem')) : mem.SameUnit mem' := by
  obtain ⟨-, trace, rfl, -⟩ := mmuRead_withTrace h
  rfl

lemma mmuWrite_sameUnit (h : mmuWrite mem a x opSize = .ok (e, mem')) : mem.SameUnit mem' := by
  rcases mmuWrite_cases h with ⟨_, -, -, -, rfl⟩ | ⟨-, -, -, rfl⟩ | ⟨_, -, -, -, -, -, rfl⟩
  all_goals rfl

/-- The invariant of all accesses: the memory unit is the one at the start. -/
lemma accessInvariant_sameUnit (mem₀ : Mmu) : AccessInvariant mem₀.SameUnit fun _ => True where
  read := by
    intro mem hm a dst opSize
    cases hr : mmuRead mem a dst opSize with
    | error f => exact trivial
    | ok r => exact hm.trans (mmuRead_sameUnit hr)
  write := by
    intro mem hm a x opSize
    cases hr : mmuWrite mem a x opSize with
    | error f => exact trivial
    | ok r => exact hm.trans (mmuWrite_sameUnit hr)

lemma MemStep.sameUnit {core : Core} {readData bad : Word}
    (h : MemStep core mem e readData bad mem') : mem.SameUnit mem' :=
  (accessInvariant_sameUnit mem).memStep (.refl mem) h

/-- Only loads change the latch `read_data`. -/
lemma MemStep.readData_eq {core : Core} {readData bad : Word}
    (h : MemStep core mem e readData bad mem') (hread : core.exMem.cMemRead = false) :
    readData = core.memWb.readData := by
  cases h with
  | carried _ => rfl
  | load _ hread' _ => exact absurd (hread.symm.trans hread') (by decide)
  | store _ _ _ _ => rfl
  | plain _ _ _ => rfl

end Access

/-- In every run of the clock the memory unit stays the same. -/
lemma iterate_tick_sameUnit {hw hw' : Hardware} {n : ℕ} (h : iterate tick n hw = .ok hw') :
    hw.mmu.SameUnit hw'.mmu := by
  have hinv := accessInvariant_sameUnit hw.mmu
  exact (Yields.iterate (P := fun t => hw.mmu.SameUnit t.mmu) n (fun _ ht => hinv.tick ht)
    (.refl _)).of_ok h

/-! ### Memory units that call no device -/

/-- No access calls a device. -/
def Mmu.Silent (mem : Mmu) : Prop := ∀ a, mem.called a = []

/-- The loops over the devices leave out the last one. -/
lemma Mmu.silent_of_length_le {mem : Mmu} (h : mem.devices.length ≤ 1) : mem.Silent := by
  intro a
  have hnil : mem.devices.dropLast = [] := by
    rw [← List.length_eq_zero_iff, List.length_dropLast]
    exact Nat.sub_eq_zero_of_le h
  unfold Mmu.called
  rw [hnil, List.filter_nil, ite_self]

lemma Mmu.Silent.sameUnit {mem mem' : Mmu} (h : mem.Silent) (hs : mem.SameUnit mem') :
    mem'.Silent := fun a => (hs.called_eq a).trans (h a)

/-- The two differ in the contents of the memory at most. -/
def Mmu.SamePorts (mem mem' : Mmu) : Prop := mem' = mem.withPmem mem'.pmem

section Silent

variable {mem mem' : Mmu} {a x dst : Word} {opSize : MemOpSize} {f : HostFault}

lemma Mmu.SamePorts.sameUnit (h : mem.SamePorts mem') : mem.SameUnit mem' := by
  unfold Mmu.SameUnit
  rw [h]
  rfl

lemma Mmu.SamePorts.trans {mem₁ : Mmu} (h : mem.SamePorts mem₁) (h' : mem₁.SamePorts mem') :
    mem.SamePorts mem' := by
  unfold Mmu.SamePorts at *
  rw [h', h]
  rfl

lemma descriptorRead_yields (area : ℕ → Byte) (index : ℕ) (opSize : MemOpSize) :
    Yields (fun _ => True) (· ≠ .exited) (descriptorRead area index opSize) := by
  cases opSize
  all_goals
    simp only [descriptorRead]
    split_ifs
    · exact trivial
    · exact HostFault.noConfusion

lemma Mmu.Silent.read (hs : mem.Silent) (a dst : Word) (opSize : MemOpSize) :
    Yields (fun r => r.2.2 = mem) (· ≠ .exited) (mmuRead mem a dst opSize) := by
  by_cases ha : ioRegisterArea ≤ a
  · by_cases hne : mem.devices = []
    · rw [mmuRead_of_devices_nil ha hne]
      exact HostFault.noConfusion
    · rw [mmuRead_called ha hne, hs a]
      exact rfl
  · rw [mmuRead, if_neg ha]
    split
    · exact (descriptorRead_yields _ _ _).bind fun _ _ => rfl
    · split
      · exact HostFault.noConfusion
      · split_ifs
        · exact rfl
        · exact HostFault.noConfusion

lemma Mmu.Silent.write (hs : mem.Silent) (a x : Word) (opSize : MemOpSize) :
    Yields (fun r => mem.SamePorts r.2) (· ≠ .exited) (mmuWrite mem a x opSize) := by
  by_cases ha : ioRegisterArea ≤ a
  · rw [mmuWrite, if_pos ha]
    by_cases hne : mem.devices = []
    · rw [hne]
      exact HostFault.noConfusion
    · rw [ioWriteLoop_called ha hne, hs a]
      exact rfl
  · rw [mmuWrite, if_neg ha]
    split
    · exact rfl
    · split
      · exact HostFault.noConfusion
      · split_ifs
        · exact rfl
        · exact HostFault.noConfusion

/-- The invariant of the accesses to a unit that calls no device: they change the contents of the
memory, and none of them ends the process. -/
lemma Mmu.Silent.accessInvariant (hs : mem.Silent) :
    AccessInvariant mem.SamePorts (· ≠ .exited) where
  read := by
    intro mem₁ hm a dst opSize
    have hread := (hs.sameUnit hm.sameUnit).read a dst opSize
    cases hr : mmuRead mem₁ a dst opSize with
    | error f => exact hread.of_error hr
    | ok r =>
      have hmem : r.2.2 = mem₁ := hread.of_ok hr
      exact show mem.SamePorts r.2.2 from hmem ▸ hm
  write := by
    intro mem₁ hm a x opSize
    have hwrite := (hs.sameUnit hm.sameUnit).write a x opSize
    cases hr : mmuWrite mem₁ a x opSize with
    | error f => exact hwrite.of_error hr
    | ok r => exact hm.trans (hwrite.of_ok hr)

end Silent

/-! ### Readable words -/

/-- A word can be read at the address, and this calls no device. -/
def Mmu.Readable (mem : Mmu) (a : Word) : Prop :=
  mem.called a = [] ∧ (mmuRead mem a 0 .word).isOk = true

instance (mem : Mmu) (a : Word) : Decidable (mem.Readable a) := inferInstanceAs (Decidable (_ ∧ _))

section Readable

variable {mem mem' : Mmu} {a : Word}

lemma Mmu.Readable.read (h : mem.Readable a) :
    ∃ x, mmuRead mem a 0 .word = .ok (.none, x, mem) := by
  obtain ⟨hquiet, hok⟩ := h
  cases hr : mmuRead mem a 0 .word with
  | error f =>
    rw [hr] at hok
    cases hok
  | ok r =>
    obtain ⟨e, x, mem'⟩ := r
    obtain rfl := (mmuRead_cases hr).1
    obtain rfl := mmuRead_of_called_nil hquiet hr
    exact ⟨x, rfl⟩

/-- What can be read at one time can be read at any other. -/
lemma Mmu.Readable.sameUnit (h : mem.Readable a) (hs : mem.SameUnit mem') : mem'.Readable a := by
  obtain ⟨hquiet, hok⟩ := h
  refine ⟨(hs.called_eq a).trans hquiet, ?_⟩
  rw [hs]
  by_cases ha : ioRegisterArea ≤ a
  · have hne : mem.devices ≠ [] := by
      intro hnil
      rw [mmuRead_of_devices_nil ha hnil] at hok
      cases hok
    have hquiet' : ((mem.withPmem mem'.pmem).withTrace mem'.ioTrace).called a = [] := hquiet
    rw [mmuRead_called ha (by exact hne), hquiet']
    rfl
  · rw [mmuRead, if_neg ha] at hok ⊢
    split_ifs at hok ⊢ with hd
    · cases hr : descriptorRead mem.deviceDescriptorStart (a - ioDescriptorArea).toNat .word with
      | error f =>
        rw [hr] at hok
        cases hok
      | ok x =>
        have hr' : descriptorRead
            ((mem.withPmem mem'.pmem).withTrace mem'.ioTrace).deviceDescriptorStart
            (a - ioDescriptorArea).toNat .word = .ok x := hr
        rw [hr']
        rfl
    · have ht : translate a ((mem.withPmem mem'.pmem).withTrace mem'.ioTrace) = translate a mem :=
        rfl
      rw [ht]
      cases htr : translate a mem with
      | none =>
        rw [htr] at hok
        cases hok
      | some o =>
        simp only [htr] at hok ⊢
        split_ifs at hok
        · exact congrArg Except.isOk (if_pos ‹_›)
        · cases hok

end Readable

end MipsSim
