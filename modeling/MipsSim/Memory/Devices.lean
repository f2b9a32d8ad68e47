import MipsSim.Memory.Properties
import Mathlib.Algebra.Order.BigOperators.Group.List

/-!
# Device registers

What a sequence of `mmu_add_device` calls builds, and how accesses to the register area are
dispatched to the devices.
-/

namespace MipsSim

open ByteStore Run

/-! ### The layout of the registers -/

/-- A sequence of `mmu_add_device` calls. -/
def addDevices (mmu : Mmu) (ds : List Device) : Mmu :=
  ds.foldl (fun m d => mmuAddDevice m (some d)) mmu

/-- The devices as they are registered from `base` on: each range starts where the one before it
ends. -/
def layout : Word → List Device → List Device
  | _, [] => []
  | base, d :: ds => { d with ioAddrBase := base } :: layout (base + d.ioAddrLen) ds

@[simp] lemma deviceDescriptorAdd_devices (mmu : Mmu) (dev : Device) :
    (deviceDescriptorAdd mmu dev).devices = mmu.devices := by
  unfold deviceDescriptorAdd
  split <;> rfl

@[simp] lemma deviceDescriptorAdd_nextIoRegister (mmu : Mmu) (dev : Device) :
    (deviceDescriptorAdd mmu dev).nextIoRegister = mmu.nextIoRegister := by
  unfold deviceDescriptorAdd
  split <;> rfl

@[simp] lemma deviceDescriptorAdd_ioTrace (mmu : Mmu) (dev : Device) :
    (deviceDescriptorAdd mmu dev).ioTrace = mmu.ioTrace := by
  unfold deviceDescriptorAdd
  split <;> rfl

lemma addDevices_cons (mmu : Mmu) (d : Device) (ds : List Device) :
    addDevices mmu (d :: ds) = addDevices (mmuAddDevice mmu (some d)) ds := by
  simp only [addDevices, List.foldl_cons]

/-- The list holds the devices in reverse order of registration. -/
lemma addDevices_devices (mmu : Mmu) (ds : List Device) :
    (addDevices mmu ds).devices = (layout mmu.nextIoRegister ds).reverse ++ mmu.devices := by
  induction ds generalizing mmu with
  | nil => simp [addDevices, layout]
  | cons d ds ih =>
    rw [addDevices_cons, ih]
    simp [mmuAddDevice, layout]

@[simp] lemma length_layout (base : Word) (ds : List Device) :
    (layout base ds).length = ds.length := by
  induction ds generalizing base with
  | nil => rfl
  | cons d ds ih => simp [layout, ih]

/-- The number of register bytes of the first `k` devices. -/
def registersBefore (lens : List Word) (k : ℕ) : ℕ := ((lens.take k).map BitVec.toNat).sum

@[simp] lemma registersBefore_zero (lens : List Word) : registersBefore lens 0 = 0 := rfl

lemma registersBefore_succ {lens : List Word} {k : ℕ} (h : k < lens.length) :
    registersBefore lens (k + 1) = registersBefore lens k + lens[k].toNat := by
  simp only [registersBefore, List.take_add_one, List.getElem?_eq_getElem h, Option.toList_some,
    List.map_append, List.map_cons, List.map_nil, List.sum_append, List.sum_singleton]

lemma registersBefore_mono (lens : List Word) {j k : ℕ} (h : j ≤ k) :
    registersBefore lens j ≤ registersBefore lens k := by
  have hsub : ((lens.take j).map BitVec.toNat).Sublist ((lens.take k).map BitVec.toNat) := by
    apply List.Sublist.map
    rw [← Nat.min_eq_left h, ← List.take_take]
    exact List.take_sublist j (lens.take k)
  exact hsub.sum_le_sum (fun _ _ => Nat.zero_le _)

lemma registersBefore_cons (l : Word) (lens : List Word) (k : ℕ) :
    registersBefore (l :: lens) (k + 1) = l.toNat + registersBefore lens k := by
  simp only [registersBefore, List.take_succ_cons, List.map_cons, List.sum_cons]

lemma registersBefore_le {lens : List Word} (hsum : (lens.map BitVec.toNat).sum ≤ 0x10000) {i : ℕ}
    (hi : i ≤ lens.length) : registersBefore lens i ≤ 0x10000 := by
  refine (registersBefore_mono lens hi).trans ?_
  rw [registersBefore, List.take_length]
  exact hsum

/-- Addresses in the register area do not wrap around. -/
lemma toNat_ioRegisterArea_add {n : ℕ} (h : n < 0x10000) :
    (ioRegisterArea + BitVec.ofNat 32 n).toNat = 0xFFFF0000 + n := by
  rw [ioRegisterArea, BitVec.toNat_add, BitVec.toNat_ofNat, BitVec.toNat_ofNat]
  omega

/-- The `i`-th registered device: the one given, with the base that the lengths before it fix. -/
lemma getElem?_layout (base : Word) (ds : List Device) (i : ℕ) :
    (layout base ds)[i]? = ds[i]?.map fun d =>
      { d with
        ioAddrBase := base + BitVec.ofNat 32 (registersBefore (ds.map (·.ioAddrLen)) i) } := by
  induction ds generalizing base i with
  | nil => simp [layout]
  | cons d ds ih =>
    cases i with
    | zero => simp [layout]
    | succ i =>
      have hbase : ∀ n : ℕ, base + d.ioAddrLen + BitVec.ofNat 32 n =
          base + BitVec.ofNat 32 (d.ioAddrLen.toNat + n) := by
        intro n
        rw [BitVec.ofNat_add, BitVec.ofNat_toNat, BitVec.setWidth_eq, BitVec.add_assoc]
      simp only [layout, List.getElem?_cons_succ, ih, List.map_cons, registersBefore_cons, hbase]

/-- What is known of the device in position `i` of a layout that fits the register area. -/
structure RegisteredAt (lens : List Word) (i : ℕ) (d : Device) : Prop where
  index_lt : i < lens.length
  base_eq : d.ioAddrBase.toNat = 0xFFFF0000 + registersBefore lens i
  len_eq : registersBefore lens i + d.ioAddrLen.toNat = registersBefore lens (i + 1)
  len_pos : 0 < d.ioAddrLen.toNat
  end_le : registersBefore lens (i + 1) ≤ 0x10000

section Dispatch

variable {ds : List Device} {lens : List Word}

lemma registeredAt (hlens : ds.map (·.ioAddrLen) = lens) (hpos : ∀ l ∈ lens, l ≠ 0)
    (hsum : (lens.map BitVec.toNat).sum ≤ 0x10000) {i : ℕ} {d : Device}
    (hd : (layout ioRegisterArea ds)[i]? = some d) : RegisteredAt lens i d := by
  subst hlens
  rw [getElem?_layout, Option.map_eq_some_iff] at hd
  obtain ⟨d', hd', rfl⟩ := hd
  obtain ⟨hi, rfl⟩ := List.getElem?_eq_some_iff.mp hd'
  have hlen : i < (ds.map (·.ioAddrLen)).length := by simpa using hi
  have hne := hpos _ (List.getElem_mem hlen)
  have hstep := registersBefore_succ hlen
  have htotal := registersBefore_le hsum (show i + 1 ≤ (ds.map (·.ioAddrLen)).length from hlen)
  simp only [List.getElem_map] at hne hstep
  have hpos' : 0 < (ds[i].ioAddrLen).toNat := by
    rcases Nat.eq_zero_or_pos (ds[i].ioAddrLen).toNat with h | h
    · exact absurd (BitVec.eq_of_toNat_eq h) hne
    · exact h
  exact ⟨hlen, toNat_ioRegisterArea_add (by omega), hstep.symm, hpos', htotal⟩

/-- The range of the device contains the address. -/
def Device.Owns (d : Device) (a : Word) : Prop :=
  d.ioAddrBase.toNat ≤ a.toNat ∧ a.toNat < d.ioAddrBase.toNat + d.ioAddrLen.toNat

instance (d : Device) (a : Word) : Decidable (d.Owns a) := inferInstanceAs (Decidable (_ ∧ _))

lemma RegisteredAt.owns_iff {i : ℕ} {d : Device} (h : RegisteredAt lens i d) {a : Word} {off : ℕ}
    (ha : a.toNat = 0xFFFF0000 + off) :
    d.Owns a ↔ registersBefore lens i ≤ off ∧ off < registersBefore lens (i + 1) := by
  have hb := h.base_eq
  have hl := h.len_eq
  unfold Device.Owns
  omega

/-- The test of the loops: one address too many at the end of a range, and nothing at all when the
range ends at `2 ^ 32`, where the sum wraps around. -/
lemma RegisteredAt.claims_iff {i : ℕ} {d : Device} (h : RegisteredAt lens i d) {a : Word} {off : ℕ}
    (ha : a.toNat = 0xFFFF0000 + off) :
    d.claims a ↔ registersBefore lens i ≤ off ∧ off ≤ registersBefore lens (i + 1) ∧
      registersBefore lens (i + 1) < 0x10000 := by
  have hb := h.base_eq
  have hl := h.len_eq
  have he := h.end_le
  unfold Device.claims
  rw [BitVec.le_def, BitVec.le_def, BitVec.toNat_add, hb]
  by_cases hwrap : registersBefore lens (i + 1) = 0x10000
  · have hzero : (0xFFFF0000 + registersBefore lens i + d.ioAddrLen.toNat) % 2 ^ 32 = 0 := by omega
    rw [hzero]
    omega
  · rw [Nat.mod_eq_of_lt (by omega)]
    omega

/-- Two devices of a layout have different ranges: the position is determined by any address in
them, and by the base. -/
lemma RegisteredAt.index_eq_of_owns {i j : ℕ} {d e : Device} (hd : RegisteredAt lens i d)
    (he : RegisteredAt lens j e) {a : Word} (hda : d.Owns a) (hea : e.Owns a) : i = j := by
  have hdb := hd.base_eq
  have heb := he.base_eq
  have hdl := hd.len_eq
  have hel := he.len_eq
  unfold Device.Owns at hda hea
  rcases lt_trichotomy i j with h | h | h
  · have := registersBefore_mono lens (show i + 1 ≤ j from h)
    omega
  · exact h
  · have := registersBefore_mono lens (show j + 1 ≤ i from h)
    omega

lemma RegisteredAt.index_eq_of_base {i j : ℕ} {d e : Device} (hd : RegisteredAt lens i d)
    (he : RegisteredAt lens j e) (h : d.ioAddrBase = e.ioAddrBase) : i = j := by
  have hdp := hd.len_pos
  have hep := he.len_pos
  refine hd.index_eq_of_owns he (a := d.ioAddrBase) ⟨le_rfl, by omega⟩ ?_
  rw [h]
  exact ⟨le_rfl, by omega⟩

/-! ### The device loops -/

/-- The write loop calls the devices that claim the address, except for the last of the list. -/
lemma ioWriteLoop_concat (v x : Word) (l : List Device) (d₀ : Device) (trace : List IoCall) :
    ioWriteLoop v x (l ++ [d₀]) trace =
      (l.filter (·.claims v)).foldlM (fun tr d => d.callWrite v x tr) trace := by
  induction l generalizing trace with
  | nil => rfl
  | cons d l ih =>
    obtain ⟨next, rest, hl⟩ : ∃ next rest, l ++ [d₀] = next :: rest := by
      cases l with
      | nil => exact ⟨d₀, [], rfl⟩
      | cons e l => exact ⟨e, l ++ [d₀], rfl⟩
    rw [List.cons_append, hl, ioWriteLoop, ← hl]
    by_cases hc : d.claims v
    · rw [if_pos hc, List.filter_cons_of_pos (by simpa using hc), List.foldlM_cons]
      simp only [ih]
    · rw [if_neg hc, List.filter_cons_of_neg (by simpa using hc), ih]

/-- The read loop calls the same devices, each with what the one before it left in `*dst`. -/
lemma ioReadLoop_concat (v dst : Word) (l : List Device) (d₀ : Device) (trace : List IoCall) :
    ioReadLoop v (l ++ [d₀]) dst trace =
      (l.filter (·.claims v)).foldlM (fun p d => d.callRead v p.1 p.2) (dst, trace) := by
  induction l generalizing dst trace with
  | nil => rfl
  | cons d l ih =>
    obtain ⟨next, rest, hl⟩ : ∃ next rest, l ++ [d₀] = next :: rest := by
      cases l with
      | nil => exact ⟨d₀, [], rfl⟩
      | cons e l => exact ⟨e, l ++ [d₀], rfl⟩
    rw [List.cons_append, hl, ioReadLoop, ← hl]
    by_cases hc : d.claims v
    · rw [if_pos hc, List.filter_cons_of_pos (by simpa using hc), List.foldlM_cons]
      simp only [ih]
    · rw [if_neg hc, List.filter_cons_of_neg (by simpa using hc), ih]

/-- The device whose range contains the address. -/
def Mmu.owner (mem : Mmu) (a : Word) : Option Device := mem.devices.find? (·.Owns a)

lemma Mmu.owns_of_owner {mem : Mmu} {a : Word} {d : Device} (h : mem.owner a = some d) :
    d.Owns a := by
  simpa using List.find?_some h

/-- A write to the register area as it should be: one call on the device that owns the address. -/
def dispatchWrite (mem : Mmu) (a x : Word) : Except HostFault (Exception × Mmu) :=
  match mem.owner a with
  | none => .ok (.none, mem)
  | some d => do
    let trace ← d.callWrite a x mem.ioTrace
    pure (.none, mem.withTrace trace)

/-- A read of the register area as it should be. -/
def dispatchRead (mem : Mmu) (a dst : Word) : Except HostFault (Exception × Word × Mmu) :=
  match mem.owner a with
  | none => .ok (.none, dst, mem)
  | some d => do
    let (dst, trace) ← d.callRead a dst mem.ioTrace
    pure (.none, dst, mem.withTrace trace)

/-- Accesses at `a` reach the device that owns `a`, once, and no other device. The device has both
functions: a call through a `NULL` pointer reaches nothing. -/
structure Dispatched (mem : Mmu) (a : Word) : Prop where
  unique : ∀ d ∈ mem.devices, d.Owns a → mem.owner a = some d
  callable : ∀ d, mem.owner a = some d → d.ioWrite.isSome ∧ d.ioRead.isSome
  write : ∀ x opSize, mmuWrite mem a x opSize = dispatchWrite mem a x
  read : ∀ dst opSize, mmuRead mem a dst opSize = dispatchRead mem a dst

/-- The offsets into the register area at which the loops do what they should: there is a device,
the offset is not one of the first device's registers, it is not the first one behind any other
device, and it is not in a last device that ends at `2 ^ 32`. -/
def DispatchOk (lens : List Word) (off : ℕ) : Prop :=
  lens ≠ [] ∧ registersBefore lens 1 ≤ off ∧
    (∀ k, 2 ≤ k → k ≤ lens.length → off ≠ registersBefore lens k) ∧
    (registersBefore lens lens.length = 0x10000 → off < registersBefore lens (lens.length - 1))

/-- What the dispatch depends on: the length of the registers, and which functions there are. -/
structure Interface where
  len : Word
  writes : Bool
  reads : Bool

def Device.interface (d : Device) : Interface := ⟨d.ioAddrLen, d.ioWrite.isSome, d.ioRead.isSome⟩

/-- The device with this offset among its registers, if there is one, has both functions. -/
def Answers (ifs : List Interface) (off : ℕ) : Prop :=
  ∀ i (h : i < ifs.length), registersBefore (ifs.map (·.len)) i ≤ off →
    off < registersBefore (ifs.map (·.len)) (i + 1) →
    ifs[i].writes = true ∧ ifs[i].reads = true

/-- A device whose functions return and do nothing. -/
def probe (f : Interface) : Device where
  typecode := 1
  vendorString := fun _ => 0
  irq := 0
  ioAddrBase := 0
  ioAddrLen := f.len
  ioWrite := if f.writes then some fun _ _ _ => .ok () else none
  ioRead := if f.reads then some fun _ _ dst => .ok dst else none

lemma interface_probe (f : Interface) : (probe f).interface = f := by
  obtain ⟨len, writes, reads⟩ := f
  cases writes <;> cases reads <;> rfl

lemma map_interface_probe (ifs : List Interface) :
    (ifs.map probe).map Device.interface = ifs := by
  rw [List.map_map]
  exact (List.map_congr_left fun f _ => interface_probe f).trans (List.map_id _)

/-- The lengths are part of the interfaces. -/
lemma map_len_of_interface {ds : List Device} {ifs : List Interface}
    (h : ds.map Device.interface = ifs) : ds.map (·.ioAddrLen) = ifs.map (·.len) := by
  rw [← h, List.map_map]
  rfl

/-- When no two elements satisfy `p`, filtering keeps the one that `find?` finds. -/
lemma filter_eq_find?_toList {α : Type*} (p : α → Bool) (l : List α)
    (h : l.Pairwise fun a b => ¬ (p a = true ∧ p b = true)) : l.filter p = (l.find? p).toList := by
  induction l with
  | nil => rfl
  | cons a l ih =>
    obtain ⟨hhead, htail⟩ := List.pairwise_cons.mp h
    by_cases ha : p a = true
    · have hnil : l.filter p = [] := by
        rw [List.filter_eq_nil_iff]
        intro b hb hpb
        exact hhead b hb ⟨ha, hpb⟩
      rw [List.filter_cons_of_pos ha, List.find?_cons_of_pos ha, hnil, Option.toList_some]
    · rw [List.filter_cons_of_neg ha, List.find?_cons_of_neg ha, ih htail]

@[simp] lemma addDevices_ioTrace (mmu : Mmu) (ds : List Device) :
    (addDevices mmu ds).ioTrace = mmu.ioTrace := by
  induction ds generalizing mmu with
  | nil => rfl
  | cons d ds ih =>
    rw [addDevices_cons, ih]
    simp [mmuAddDevice]

lemma devices_addDevices_mmuInit (size : ℕ) (ds : List Device) :
    (addDevices (mmuInit size) ds).devices = (layout ioRegisterArea ds).reverse := by
  rw [addDevices_devices]
  simp [mmuInit]

/-- At most one registered device owns an address. -/
lemma filter_owns_eq (size : ℕ) (hlens : ds.map (·.ioAddrLen) = lens) (hpos : ∀ l ∈ lens, l ≠ 0)
    (hsum : (lens.map BitVec.toNat).sum ≤ 0x10000) (a : Word) :
    (layout ioRegisterArea ds).reverse.filter (·.Owns a) =
      ((addDevices (mmuInit size) ds).owner a).toList := by
  rw [Mmu.owner, devices_addDevices_mmuInit]
  apply filter_eq_find?_toList
  rw [List.pairwise_reverse, List.pairwise_iff_getElem]
  intro i j hi hj hij hown
  have hri := registeredAt hlens hpos hsum (List.getElem?_eq_getElem hi)
  have hrj := registeredAt hlens hpos hsum (List.getElem?_eq_getElem hj)
  have := hri.index_eq_of_owns hrj (of_decide_eq_true hown.2) (of_decide_eq_true hown.1)
  omega

lemma mmuWrite_register {mem : Mmu} {a : Word} (ha : ioRegisterArea ≤ a) (x : Word)
    (opSize : MemOpSize) :
    mmuWrite mem a x opSize = (do
      let trace ← ioWriteLoop a x mem.devices mem.ioTrace
      pure (.none, mem.withTrace trace)) := by
  rw [mmuWrite, if_pos ha]

lemma mmuRead_register {mem : Mmu} {a : Word} (ha : ioRegisterArea ≤ a) (dst : Word)
    (opSize : MemOpSize) :
    mmuRead mem a dst opSize = (do
      let (dst, trace) ← ioReadLoop a mem.devices dst mem.ioTrace
      pure (.none, dst, mem.withTrace trace)) := by
  rw [mmuRead, if_pos ha]

/-- The loops reach the owner when the devices they call are the owners. -/
lemma dispatched_of_filter_eq {mem : Mmu} {a : Word} (ha : ioRegisterArea ≤ a) {l : List Device}
    {d₀ : Device} (hdev : mem.devices = l ++ [d₀])
    (hown : mem.devices.filter (·.Owns a) = (mem.owner a).toList)
    (hfun : ∀ d, mem.owner a = some d → d.ioWrite.isSome ∧ d.ioRead.isSome)
    (hcall : l.filter (·.claims a) = (mem.owner a).toList) : Dispatched mem a := by
  refine ⟨?_, hfun, ?_, ?_⟩
  · intro d hd hda
    have hmem : d ∈ mem.devices.filter (·.Owns a) := by simp [hd, hda]
    rw [hown, Option.mem_toList] at hmem
    exact hmem
  · intro x opSize
    rw [mmuWrite_register ha, hdev, ioWriteLoop_concat, hcall, dispatchWrite]
    cases mem.owner a with
    | none => rfl
    | some d => simp [List.foldlM]
  · intro dst opSize
    rw [mmuRead_register ha, hdev, ioReadLoop_concat, hcall, dispatchRead]
    cases mem.owner a with
    | none => rfl
    | some d => simp [List.foldlM]

/-- The positions behind the first one are those of the tail of the layout. -/
lemma getElem?_layout_tail {d₀ : Device} {L : List Device}
    (hL : layout ioRegisterArea ds = d₀ :: L) {d : Device} (hd : d ∈ L) :
    ∃ i, (layout ioRegisterArea ds)[i + 1]? = some d := by
  obtain ⟨i, hi⟩ := List.mem_iff_getElem?.mp hd
  exact ⟨i, by rw [hL, List.getElem?_cons_succ, hi]⟩

/-- The owner of an address with such an offset has both functions. -/
lemma callable_of_answers (size : ℕ) {ifs : List Interface}
    (hifs : ds.map Device.interface = ifs) (hpos : ∀ l ∈ ifs.map (·.len), l ≠ 0)
    (hsum : ((ifs.map (·.len)).map BitVec.toNat).sum ≤ 0x10000) {a : Word} {off : ℕ}
    (ha : a.toNat = 0xFFFF0000 + off) (hans : Answers ifs off) :
    ∀ d, (addDevices (mmuInit size) ds).owner a = some d → d.ioWrite.isSome ∧ d.ioRead.isSome := by
  intro d hd
  have hmem := List.mem_of_find?_eq_some hd
  rw [devices_addDevices_mmuInit, List.mem_reverse] at hmem
  obtain ⟨i, hi⟩ := List.mem_iff_getElem?.mp hmem
  have hreg := registeredAt (map_len_of_interface hifs) hpos hsum hi
  obtain ⟨hlo, hhi⟩ := (hreg.owns_iff ha).mp (Mmu.owns_of_owner hd)
  have hlt : i < ifs.length := by simpa using hreg.index_lt
  rw [getElem?_layout, Option.map_eq_some_iff] at hi
  obtain ⟨d', hd', rfl⟩ := hi
  have hface : ifs[i]? = some d'.interface := by rw [← hifs, List.getElem?_map, hd']; rfl
  rw [List.getElem?_eq_getElem hlt, Option.some.injEq] at hface
  have hfun := hans i hlt hlo hhi
  rw [hface] at hfun
  exact hfun

/-- At the good offsets the loops call exactly the owner. -/
lemma dispatched_of_ok (size : ℕ) (hlens : ds.map (·.ioAddrLen) = lens) (hpos : ∀ l ∈ lens, l ≠ 0)
    (hsum : (lens.map BitVec.toNat).sum ≤ 0x10000) {a : Word} {off : ℕ}
    (ha : a.toNat = 0xFFFF0000 + off) (hok : DispatchOk lens off)
    (hfun : ∀ d, (addDevices (mmuInit size) ds).owner a = some d →
      d.ioWrite.isSome ∧ d.ioRead.isSome) :
    Dispatched (addDevices (mmuInit size) ds) a := by
  obtain ⟨hne, hfirst, hend, hlast⟩ := hok
  have hreg : ∀ {i : ℕ} {d : Device}, (layout ioRegisterArea ds)[i]? = some d →
      RegisteredAt lens i d := registeredAt hlens hpos hsum
  obtain ⟨d₀, L, hL⟩ : ∃ d₀ L, layout ioRegisterArea ds = d₀ :: L := by
    cases ds with
    | nil => exact absurd hlens.symm hne
    | cons d ds => exact ⟨_, _, rfl⟩
  have hdev : (addDevices (mmuInit size) ds).devices = L.reverse ++ [d₀] := by
    rw [devices_addDevices_mmuInit, hL, List.reverse_cons]
  have hown := filter_owns_eq size hlens hpos hsum a
  have hd₀ : ¬ d₀.Owns a := by
    rw [(hreg (i := 0) (by rw [hL]; rfl)).owns_iff ha, Nat.zero_add]
    omega
  have hcongr : ∀ d ∈ L, d.claims a ↔ d.Owns a := by
    intro d hd
    obtain ⟨i, hi⟩ := getElem?_layout_tail hL hd
    have hr := hreg hi
    have hlt := hr.index_lt
    have hle := hr.end_le
    have hne := hend (i + 1 + 1) (by omega) (by omega)
    rw [hr.claims_iff ha, hr.owns_iff ha]
    constructor
    · rintro ⟨h₁, h₂, -⟩
      omega
    · rintro ⟨h₁, h₂⟩
      refine ⟨h₁, h₂.le, ?_⟩
      by_contra hwrap
      -- a device that ends at 2 ^ 32 is the last one, and the offset is below it
      have htotal := registersBefore_le hsum (le_refl lens.length)
      have hmono := registersBefore_mono lens (show i + 1 + 1 ≤ lens.length by omega)
      have hbelow := hlast (by omega)
      rcases Nat.lt_or_ge (i + 1 + 1) lens.length with h | h
      · have hpos' := registersBefore_succ h
        have hmono' := registersBefore_mono lens (show i + 1 + 1 + 1 ≤ lens.length by omega)
        have hzero : lens[i + 1 + 1].toNat = 0 := by omega
        exact hpos _ (List.getElem_mem h) (BitVec.eq_of_toNat_eq hzero)
      · have hidx : lens.length - 1 = i + 1 := by omega
        rw [hidx] at hbelow
        omega
  apply dispatched_of_filter_eq (by rw [BitVec.le_def, ha]; simp [ioRegisterArea]) hdev
  · rw [devices_addDevices_mmuInit]
    exact hown
  · exact hfun
  · rw [← hown, hL, List.reverse_cons, List.filter_append]
    have hnil : [d₀].filter (·.Owns a) = [] := by simp [hd₀]
    rw [hnil, List.append_nil]
    apply List.filter_congr
    intro d hd
    simp [hcongr d (List.mem_reverse.mp hd)]

/-- The device that is called, by its base address. -/
def IoCall.base : IoCall → Word
  | .write base _ _ | .read base _ => base

/-- Calls of probes are only recorded. -/
lemma foldlM_callWrite_of_returns {v x : Word} {l : List Device} {trace trace' : List IoCall}
    (h : ∀ d ∈ l, ∀ f, d.ioWrite = some f → f = fun _ _ _ => .ok ())
    (hok : l.foldlM (fun tr d => d.callWrite v x tr) trace = .ok trace') :
    trace' = (l.map fun d => IoCall.write d.ioAddrBase v x).reverse ++ trace := by
  induction l generalizing trace with
  | nil => exact (Except.ok.inj hok).symm
  | cons d l ih =>
    rw [List.foldlM_cons] at hok
    obtain ⟨mid, hd, hrest⟩ := bind_eq_ok.mp hok
    have hmid : mid = .write d.ioAddrBase v x :: trace := by
      unfold Device.callWrite at hd
      cases hf : d.ioWrite with
      | none =>
        rw [hf] at hd
        cases hd
      | some f =>
        rw [hf, h d List.mem_cons_self f hf] at hd
        exact (Except.ok.inj hd).symm
    rw [ih (fun e he => h e (List.mem_cons_of_mem d he)) hrest, hmid]
    simp

lemma ioWrite_of_mem_layout_probe {ifs : List Interface} {base : Word} {d : Device}
    (hd : d ∈ layout base (ifs.map probe)) :
    ∀ f, d.ioWrite = some f → f = fun _ _ _ => .ok () := by
  intro f hf
  obtain ⟨i, hi⟩ := List.mem_iff_getElem?.mp hd
  rw [getElem?_layout, Option.map_eq_some_iff] at hi
  obtain ⟨d', hd', rfl⟩ := hi
  rw [List.getElem?_map, Option.map_eq_some_iff] at hd'
  obtain ⟨face, -, rfl⟩ := hd'
  simp only [probe, Option.ite_none_right_eq_some, Option.some.injEq] at hf
  exact hf.2.symm

/-- If probes are dispatched correctly, the bases that the write loop calls are that of the
owner. -/
lemma bases_of_dispatched {ifs : List Interface} (size : ℕ) {a : Word} (ha : ioRegisterArea ≤ a)
    {d₀ : Device} {L : List Device} (hL : layout ioRegisterArea (ifs.map probe) = d₀ :: L)
    (hdisp : Dispatched (addDevices (mmuInit size) (ifs.map probe)) a) :
    (L.reverse.filter (·.claims a)).map (·.ioAddrBase) =
      ((addDevices (mmuInit size) (ifs.map probe)).owner a).toList.map (·.ioAddrBase) := by
  have hdev : (addDevices (mmuInit size) (ifs.map probe)).devices = L.reverse ++ [d₀] := by
    rw [devices_addDevices_mmuInit, hL, List.reverse_cons]
  have htr : (addDevices (mmuInit size) (ifs.map probe)).ioTrace = [] := by
    rw [addDevices_ioTrace]
    rfl
  have hret : ∀ d ∈ d₀ :: L, ∀ f, d.ioWrite = some f → f = fun _ _ _ => .ok () := by
    intro d hd
    rw [← hL] at hd
    exact ioWrite_of_mem_layout_probe hd
  have hcalled : ∀ d ∈ L.reverse.filter (·.claims a), ∀ f, d.ioWrite = some f →
      f = fun _ _ _ => .ok () := fun d hd =>
    hret d (List.mem_cons_of_mem _ (List.mem_reverse.mp (List.mem_of_mem_filter hd)))
  have hw := hdisp.write 0 .word
  rw [mmuWrite_register ha, hdev, ioWriteLoop_concat, htr, dispatchWrite] at hw
  cases howner : (addDevices (mmuInit size) (ifs.map probe)).owner a with
  | none =>
    rw [howner] at hw
    obtain ⟨trace, hfold, hmem⟩ := bind_eq_ok.mp hw
    have htrace := congrArg Mmu.ioTrace (Prod.mk.inj (Except.ok.inj hmem)).2
    rw [Mmu.withTrace_ioTrace, htr, foldlM_callWrite_of_returns hcalled hfold] at htrace
    have hnil : L.reverse.filter (·.claims a) = [] := by simpa using htrace
    rw [hnil]
    rfl
  | some d =>
    have hd : d ∈ d₀ :: L := by
      have := List.mem_of_find?_eq_some howner
      rw [hdev] at this
      simpa [or_comm] using this
    obtain ⟨f, hf⟩ := Option.isSome_iff_exists.mp (hdisp.callable d howner).1
    have hcall : d.callWrite a 0 [] = .ok [.write d.ioAddrBase a 0] := by
      rw [Device.callWrite, hf, hret d hd f hf]
      rfl
    simp only [howner, htr, hcall] at hw
    obtain ⟨trace, hfold, hmem⟩ := bind_eq_ok.mp hw
    have htrace := congrArg Mmu.ioTrace (Prod.mk.inj (Except.ok.inj hmem)).2
    rw [Mmu.withTrace_ioTrace, Mmu.withTrace_ioTrace, foldlM_callWrite_of_returns hcalled hfold,
      List.append_nil, List.reverse_eq_iff, List.reverse_singleton] at htrace
    have hbase := congrArg (List.map IoCall.base) htrace
    simpa [List.map_map, Function.comp_def, IoCall.base] using hbase

section Bases

variable {ifs : List Interface} (size : ℕ) {a : Word} (ha : ioRegisterArea ≤ a) {d₀ : Device}
  {L : List Device} (hL : layout ioRegisterArea (ifs.map probe) = d₀ :: L)
  (hdisp : Dispatched (addDevices (mmuInit size) (ifs.map probe)) a)

include ha hL hdisp

/-- A probe that is called is the owner. -/
lemma owner_of_claims : ∀ d ∈ L, d.claims a →
    ∃ e, (addDevices (mmuInit size) (ifs.map probe)).owner a = some e ∧
      e.ioAddrBase = d.ioAddrBase := by
  intro d hd hc
  have hmem : d.ioAddrBase ∈ (L.reverse.filter (·.claims a)).map (·.ioAddrBase) :=
    List.mem_map_of_mem (by simp [hd, hc])
  rw [bases_of_dispatched size ha hL hdisp, List.mem_map] at hmem
  obtain ⟨e, he, heq⟩ := hmem
  exact ⟨e, Option.mem_toList.mp he, heq⟩

/-- The owner is called. -/
lemma claims_of_owner : ∀ e, (addDevices (mmuInit size) (ifs.map probe)).owner a = some e →
    ∃ d ∈ L, d.claims a ∧ d.ioAddrBase = e.ioAddrBase := by
  intro e he
  have hmem : e.ioAddrBase ∈ (L.reverse.filter (·.claims a)).map (·.ioAddrBase) := by
    rw [bases_of_dispatched size ha hL hdisp, he]
    simp
  obtain ⟨d, hd, heq⟩ := List.mem_map.mp hmem
  rw [List.mem_filter, List.mem_reverse] at hd
  exact ⟨d, hd.1, of_decide_eq_true hd.2, heq⟩

end Bases

/-- Probes are dispatched correctly at the good offsets only. -/
lemma ok_of_dispatched {ifs : List Interface} (hlens : ifs.map (·.len) = lens) (size : ℕ)
    (hpos : ∀ l ∈ lens, l ≠ 0) (hsum : (lens.map BitVec.toNat).sum ≤ 0x10000) {a : Word} {off : ℕ}
    (ha : a.toNat = 0xFFFF0000 + off)
    (hdisp : Dispatched (addDevices (mmuInit size) (ifs.map probe)) a) : DispatchOk lens off := by
  have hlens' : (ifs.map probe).map (·.ioAddrLen) = lens := by
    rw [map_len_of_interface (map_interface_probe ifs), hlens]
  have hcount : ifs.length = lens.length := by rw [← hlens, List.length_map]
  have hreg : ∀ {i : ℕ} {d : Device}, (layout ioRegisterArea (ifs.map probe))[i]? = some d →
      RegisteredAt lens i d := registeredAt hlens' hpos hsum
  have harea : ioRegisterArea ≤ a := by rw [BitVec.le_def, ha]; simp [ioRegisterArea]
  have hoff : off < 0x10000 := by have := a.isLt; omega
  have hne : ifs ≠ [] := by
    rintro rfl
    have hw := hdisp.write 0 .word
    rw [mmuWrite_register harea, devices_addDevices_mmuInit, dispatchWrite, Mmu.owner,
      devices_addDevices_mmuInit] at hw
    simp [layout, ioWriteLoop, bind, Except.bind] at hw
  obtain ⟨d₀, L, hL⟩ : ∃ d₀ L, layout ioRegisterArea (ifs.map probe) = d₀ :: L := by
    cases ifs with
    | nil => exact absurd rfl hne
    | cons f ifs => exact ⟨_, _, rfl⟩
  have hcalled := owner_of_claims size harea hL hdisp
  have howner := claims_of_owner size harea hL hdisp
  have hdevs : ∀ {i : ℕ} {d : Device}, (layout ioRegisterArea (ifs.map probe))[i]? = some d →
      d ∈ (addDevices (mmuInit size) (ifs.map probe)).devices := by
    intro i d hd
    rw [devices_addDevices_mmuInit, List.mem_reverse]
    exact List.mem_of_getElem? hd
  have hne' : lens ≠ [] := by
    rw [← hlens, Ne, List.map_eq_nil_iff]
    exact hne
  refine ⟨hne', ?_, ?_, ?_⟩
  · by_contra hlt
    have h0 : (layout ioRegisterArea (ifs.map probe))[0]? = some d₀ := by rw [hL]; rfl
    have hown : d₀.Owns a := by
      rw [(hreg h0).owns_iff ha, Nat.zero_add, registersBefore_zero]
      omega
    obtain ⟨d, hd, -, hbase⟩ := howner d₀ (hdisp.unique d₀ (hdevs h0) hown)
    obtain ⟨i, hi⟩ := getElem?_layout_tail hL hd
    exact absurd ((hreg hi).index_eq_of_base (hreg h0) hbase) (Nat.succ_ne_zero i)
  · intro k hk hkl heq
    obtain ⟨j, rfl⟩ : ∃ j, k = j + 1 + 1 := ⟨k - 2, by omega⟩
    obtain ⟨d, hd⟩ : ∃ d, (layout ioRegisterArea (ifs.map probe))[j + 1]? = some d :=
      ⟨_, List.getElem?_eq_getElem (by rw [length_layout, List.length_map, hcount]; exact hkl)⟩
    have hdL : d ∈ L := by
      rw [hL, List.getElem?_cons_succ] at hd
      exact List.mem_of_getElem? hd
    have hclaims : d.claims a := by
      rw [(hreg hd).claims_iff ha]
      have := registersBefore_mono lens (show j + 1 ≤ j + 1 + 1 by omega)
      omega
    obtain ⟨e, he, hbase⟩ := hcalled d hdL hclaims
    obtain ⟨m, hm⟩ : ∃ m, (layout ioRegisterArea (ifs.map probe))[m]? = some e := by
      have hmem := List.mem_of_find?_eq_some he
      rw [devices_addDevices_mmuInit, List.mem_reverse] at hmem
      exact List.mem_iff_getElem?.mp hmem
    have hidx := (hreg hm).index_eq_of_base (hreg hd) hbase
    have hown := Mmu.owns_of_owner he
    rw [(hreg hm).owns_iff ha, hidx] at hown
    omega
  · intro htotal
    by_contra hge
    have hlen : 0 < lens.length := List.length_pos_of_ne_nil hne'
    obtain ⟨n, hn⟩ : ∃ n, lens.length = n + 1 := ⟨lens.length - 1, by omega⟩
    rw [hn, Nat.add_sub_cancel] at hge
    rw [hn] at htotal
    obtain ⟨d, hd⟩ : ∃ d, (layout ioRegisterArea (ifs.map probe))[n]? = some d :=
      ⟨_, List.getElem?_eq_getElem (by simp [hcount, hn])⟩
    have hown : d.Owns a := by
      rw [(hreg hd).owns_iff ha]
      omega
    obtain ⟨e, he, hclaims, hbase⟩ := howner d (hdisp.unique d (hdevs hd) hown)
    obtain ⟨i, hi⟩ := getElem?_layout_tail hL he
    have hidx := (hreg hi).index_eq_of_base (hreg hd) hbase
    rw [(hreg hi).claims_iff ha, hidx] at hclaims
    omega

/-- Both functions of the owner are there. -/
lemma answers_of_dispatched {ifs : List Interface} (size : ℕ)
    (hpos : ∀ l ∈ ifs.map (·.len), l ≠ 0)
    (hsum : ((ifs.map (·.len)).map BitVec.toNat).sum ≤ 0x10000) {a : Word} {off : ℕ}
    (ha : a.toNat = 0xFFFF0000 + off)
    (hdisp : Dispatched (addDevices (mmuInit size) (ifs.map probe)) a) : Answers ifs off := by
  intro i hi hlo hhi
  have hface := map_interface_probe ifs
  obtain ⟨d, hd⟩ : ∃ d, (layout ioRegisterArea (ifs.map probe))[i]? = some d :=
    ⟨_, List.getElem?_eq_getElem (by rw [length_layout, List.length_map]; exact hi)⟩
  have hreg := registeredAt (map_len_of_interface hface) hpos hsum hd
  have hmem : d ∈ (addDevices (mmuInit size) (ifs.map probe)).devices := by
    rw [devices_addDevices_mmuInit, List.mem_reverse]
    exact List.mem_of_getElem? hd
  have hfun := hdisp.callable d (hdisp.unique d hmem ((hreg.owns_iff ha).mpr ⟨hlo, hhi⟩))
  rw [getElem?_layout, Option.map_eq_some_iff] at hd
  obtain ⟨d', hd', rfl⟩ := hd
  rw [List.getElem?_map, List.getElem?_eq_getElem hi, Option.map_some, Option.some.injEq] at hd'
  rw [← interface_probe ifs[i], hd']
  exact hfun

/-- For every list of interfaces, all devices that have them are dispatched correctly at an address
exactly when its offset is good and its device has both functions. -/
theorem dispatched_iff (size : ℕ) {ifs : List Interface} (hpos : ∀ l ∈ ifs.map (·.len), l ≠ 0)
    (hsum : ((ifs.map (·.len)).map BitVec.toNat).sum ≤ 0x10000) {a : Word} {off : ℕ}
    (ha : a.toNat = 0xFFFF0000 + off) :
    (∀ ds : List Device, ds.map Device.interface = ifs →
      Dispatched (addDevices (mmuInit size) ds) a) ↔
      DispatchOk (ifs.map (·.len)) off ∧ Answers ifs off := by
  constructor
  · intro h
    have hprobe := h _ (map_interface_probe ifs)
    exact ⟨ok_of_dispatched rfl size hpos hsum ha hprobe,
      answers_of_dispatched size hpos hsum ha hprobe⟩
  · rintro ⟨hok, hans⟩ ds hifs
    exact dispatched_of_ok size (map_len_of_interface hifs) hpos hsum ha hok
      (callable_of_answers size hifs hpos hsum ha hans)

/-- The terminal behind the shutdown device: its second register is dispatched. -/
theorem dispatched_tty :
    Dispatched (addDevices (mmuInit 64) [shutdownDeviceCreate, ttyDeviceCreate]) 0xFFFF0008#32 := by
  have ha : (0xFFFF0008#32).toNat = 0xFFFF0000 + 8 := by simp
  have hlens : ([⟨4#32, true, false⟩, ⟨12#32, true, true⟩] : List Interface).map (·.len) =
      [4#32, 12#32] := rfl
  refine (@dispatched_iff 64 [⟨4#32, true, false⟩, ⟨12#32, true, true⟩] (by simp) (by simp) _ _
    ha).mpr ⟨⟨by simp, by simp [registersBefore], ?_, ?_⟩, ?_⟩ _ rfl
  · intro k hk hkl
    have hk2 : k = 2 := by simp at hkl; omega
    simp [hk2, registersBefore]
  · intro htotal
    simp [registersBefore] at htotal
  · intro i hi hlo hhi
    have hcases : i = 0 ∨ i = 1 := by simp at hi; omega
    rcases hcases with rfl | rfl
    · simp [registersBefore] at hhi
    · exact ⟨rfl, rfl⟩

/-- The shutdown device of `init_io` owns its base address and can be written, and a store to this
address calls nothing. -/
theorem not_dispatched_shutdown : ∃ d, (initIo (mmuInit 64)).owner 0xFFFF0000#32 = some d ∧
    d.ioWrite = some shutdownDeviceWrite ∧
    (∀ x, mmuWrite (initIo (mmuInit 64)) 0xFFFF0000#32 x .word =
      .ok (.none, initIo (mmuInit 64))) ∧
    ¬ Dispatched (initIo (mmuInit 64)) 0xFFFF0000#32 := by
  have hmem : initIo (mmuInit 64) = addDevices (mmuInit 64) [shutdownDeviceCreate] := by
    simp only [initIo, addDevices, List.foldl_cons, List.foldl_nil]
  set d : Device := { shutdownDeviceCreate with ioAddrBase := ioRegisterArea } with hd
  have hdev : (initIo (mmuInit 64)).devices = [d] := by
    rw [hmem, devices_addDevices_mmuInit]
    rfl
  have htr : (initIo (mmuInit 64)).ioTrace = [] := by
    rw [hmem, addDevices_ioTrace]
    rfl
  have howner : (initIo (mmuInit 64)).owner 0xFFFF0000#32 = some d := by
    rw [Mmu.owner, hdev]
    rfl
  have hwrite : ∀ x, mmuWrite (initIo (mmuInit 64)) 0xFFFF0000#32 x .word =
      .ok (.none, initIo (mmuInit 64)) := by
    intro x
    rw [mmuWrite_register (by decide), hdev, ioWriteLoop]
    rw [bind_eq_ok]
    exact ⟨_, rfl, by rw [Mmu.withTrace_self, pure_eq_ok]⟩
  refine ⟨d, howner, rfl, hwrite, ?_⟩
  intro hdisp
  have hw := hdisp.write 0 .word
  have hcall : d.callWrite 0xFFFF0000#32 0 [] = .ok [.write ioRegisterArea 0xFFFF0000#32 0] := rfl
  simp only [hwrite, dispatchWrite, howner, htr, hcall] at hw
  have htrace := congrArg Mmu.ioTrace (Prod.mk.inj (Except.ok.inj hw)).2
  rw [htr] at htrace
  cases htrace

end Dispatch

end MipsSim
