import MipsSim.Pipeline.Invariant

/-!
# Instructions in flight

The core together with a record of which fetched instruction is in which pipeline register and of
what the instructions have done. The record only observes: `Tracked.tick` is `tickCore` with the
record kept, and no stage looks at it.
-/

namespace MipsSim

open Run

/-! ### The record -/

/-- A fetched instruction: its place in fetch order, its address and, from EX on, the operands with
which it was executed. -/
structure DynInst where
  seq : ℕ
  addr : Word
  opA : Word := 0
  opB : Word := 0

/-- What happens to an instruction, named by its place in fetch order. -/
inductive Event where
  | fetched (seq : ℕ) (addr : Word)
  | regWrite (seq reg : ℕ) (value : Word)
  | cp0Write (seq reg : ℕ) (value : Word)
  | memWrite (seq : ℕ)
  | retired (seq : ℕ)
  | trapped (seq : ℕ)
  | returned (seq : ℕ)
  | exited (seq : ℕ)
  | squashed (seq : ℕ)

/-- The instruction that writes a register, a CP0 register, memory or a device. -/
def Event.writer : Event → Option ℕ
  | .regWrite seq _ _ | .cp0Write seq _ _ | .memWrite seq => some seq
  | _ => none

/-- The instruction that leaves the pipeline. -/
def Event.leaver : Event → Option ℕ
  | .retired seq | .trapped seq | .returned seq | .exited seq | .squashed seq => some seq
  | _ => none

/-- A core with its memory and the record: the instruction in each pipeline register, with `none`
for a bubble, the numbers of instructions that were fetched, passed MEM and passed WB, and the
events, latest first. -/
structure Tracked where
  core : Core
  mem : Mmu
  finished : Bool
  ifId : Option DynInst
  idEx : Option DynInst
  exMem : Option DynInst
  memWb : Option DynInst
  fetched : ℕ
  passedMem : ℕ
  passedWb : ℕ
  log : List Event

/-- Nothing was fetched yet. -/
def Tracked.start (core : Core) (mem : Mmu) : Tracked where
  core := core
  mem := mem
  finished := false
  ifId := none
  idEx := none
  exMem := none
  memWb := none
  fetched := 0
  passedMem := 0
  passedWb := 0
  log := []

/-- The address at which IF reads in the next tick. -/
def Core.fetchPc (core : Core) : Word :=
  if core.flushes then core.flushTarget else core.idEx.redirect.getD core.pc

/-- The writes of an instruction that is written back. -/
def MemWb.writes (memWb : MemWb) (seq : ℕ) : List Event :=
  if memWb.cRegWrite then
    if isMtc0 memWb.inst then [.cp0Write seq memWb.regDst memWb.data]
    else if memWb.regDst = 0 then []
    else [.regWrite seq memWb.regDst memWb.data]
  else []

/-- What happens in WB. -/
def Tracked.wbEvents (t : Tracked) : List Event :=
  match t.memWb with
  | none => []
  | some v =>
    if t.core.flushes then
      (if t.core.memWb.inst = instructionEret then .returned v.seq else .trapped v.seq) ::
        (t.exMem.toList ++ t.idEx.toList ++ t.ifId.toList).map fun u => .squashed u.seq
    else if t.core.exits then [.exited v.seq]
    else .retired v.seq :: t.core.memWb.writes v.seq

/-- What happens in MEM, given the core after the tick: a store that raised no exception has
written. -/
def Tracked.memEvents (t : Tracked) (core' : Core) : List Event :=
  match t.exMem with
  | none => []
  | some v =>
    if ¬ t.core.flushes ∧ t.core.exMem.exception = .none ∧ t.core.exMem.cMemRead = false ∧
        t.core.exMem.cMemWrite = true ∧ core'.memWb.exception = .none then [.memWrite v.seq]
    else []

/-- What happens in IF: unless the program counter was held, an instruction was fetched. -/
def Tracked.ifEvents (t : Tracked) (core' : Core) : List Event :=
  if core'.pc = t.core.fetchPc then [] else [.fetched t.fetched t.core.fetchPc]

/-- The record after a tick that leaves the core `core'`: the instructions move on with the pipeline
registers, or all of them leave. -/
def Tracked.record (t : Tracked) (core' : Core) (mem' : Mmu) (finished : Bool) : Tracked where
  core := core'
  mem := mem'
  finished := t.finished || finished
  ifId := if core'.pc = t.core.fetchPc then none else some { seq := t.fetched, addr := t.core.fetchPc }
  idEx := if t.core.flushes then none else t.ifId
  exMem := if t.core.flushes then none else
    t.idEx.map fun v => { v with opA := t.core.idEx.rsValue, opB := t.core.idEx.rtValue }
  memWb := if t.core.flushes then none else t.exMem
  fetched := if core'.pc = t.core.fetchPc then t.fetched else t.fetched + 1
  passedMem := if t.core.flushes then t.passedMem else t.passedMem + t.exMem.toList.length
  passedWb := t.passedWb + t.memWb.toList.length
  log := t.ifEvents core' ++ t.memEvents core' ++ t.wbEvents ++ t.log

/-- One clock tick with the record kept. -/
def Tracked.tick (t : Tracked) : Except HostFault Tracked := do
  let (core', mem', finished) ← tickCore t.core t.mem
  pure (t.record core' mem' finished)

/-- The states of one core. It starts with an empty pipeline and a zero in register 0; between its
ticks the memory may change in any way, by another core or by the reads that `run` makes itself. -/
inductive Reachable : Tracked → Prop
  | start (regs : ℕ → Word) (pc : Word) (cp0 : ℕ → Word) (mem : Mmu) (h : regs 0 = 0) :
      Reachable (.start (.init regs pc cp0) mem)
  | tick {t t' : Tracked} (h : Reachable t) (hfin : t.finished = false) (ht : t.tick = .ok t') :
      Reachable t'
  | other {t : Tracked} (h : Reachable t) (mem' : Mmu) : Reachable { t with mem := mem' }

/-! ### A tick of the record -/

lemma Core.interpretWb_redirect (core : Core) :
    (interpretWb core).1.idEx.redirect.getD (interpretWb core).1.pc = core.fetchPc := by
  unfold Core.fetchPc
  rcases flushes_or_exits_or_commits core with hf | hx | hc
  · rw [interpretWb_of_flushes hf, if_pos hf]
    rfl
  · rw [interpretWb_of_exits hx, if_neg hx.not_flushes]
  · rw [interpretWb_of_commits hc, if_neg hc.not_flushes]

/-- A tick of a tracked core in one equation. -/
lemma Tracked.tick_eq_ok {t t' : Tracked} (h : PipeOk t.core) :
    t.tick = .ok t' ↔
      ∃ e readData badVAddr mem₁ inst mem',
        MemStep (interpretWb t.core).1 t.mem e readData badVAddr mem₁ ∧
        mmuRead mem₁ t.core.fetchPc 0 .word = .ok (.none, inst, mem') ∧
        t' = t.record ((interpretWb t.core).1.next
          (moveStage (interpretWb t.core).1 e readData badVAddr) inst) mem'
          (interpretWb t.core).2 := by
  have heq : interpretWb t.core = ((interpretWb t.core).1, (interpretWb t.core).2) := rfl
  simp only [Tracked.tick, bind_eq_ok, pure_eq_ok, Prod.exists]
  constructor
  · rintro ⟨core', mem', fin, htick, rfl⟩
    obtain ⟨e, readData, badVAddr, mem₁, inst, hstep, hread, rfl, rfl⟩ :=
      (tickCore_eq_ok heq h.wb.ifId_exception h.wb.idEx_exception).mp htick
    rw [Core.interpretWb_redirect] at hread
    exact ⟨e, readData, badVAddr, mem₁, inst, mem', hstep, hread, rfl⟩
  · rintro ⟨e, readData, badVAddr, mem₁, inst, mem', hstep, hread, rfl⟩
    rw [← Core.interpretWb_redirect] at hread
    exact ⟨_, _, _, (tickCore_eq_ok heq h.wb.ifId_exception h.wb.idEx_exception).mpr
      ⟨e, readData, badVAddr, mem₁, inst, hstep, hread, rfl, rfl⟩, rfl⟩

/-- The core with other register contents. -/
def Core.withRegs (core : Core) (regs cp0 : ℕ → Word) : Core := { core with regs := regs, cp0 := cp0 }

/-- Unless it empties the pipeline, WB changes nothing but registers. -/
lemma interpretWb_of_not_flushes {core : Core} (h : ¬ core.flushes) :
    ∃ regs cp0, (interpretWb core).1 = core.withRegs regs cp0 := by
  rcases (flushes_or_exits_or_commits core).resolve_left h with hx | hc
  · exact ⟨core.regs, core.cp0, by rw [interpretWb_of_exits hx]; rfl⟩
  · exact ⟨_, _, by rw [interpretWb_of_commits hc]; rfl⟩

/-- The core after a tick that empties the pipeline. -/
def Core.restart (core : Core) (inst : Word) : Core :=
  (Core.init core.regs core.flushTarget core.flushCp0).next {} inst

/-- A tick that empties the pipeline: nothing but the next fetch accesses memory. -/
lemma Tracked.tick_of_flushes {t t' : Tracked} (h : PipeOk t.core) (hf : t.core.flushes)
    (ht : t.tick = .ok t') :
    ∃ inst mem', mmuRead t.mem t.core.flushTarget 0 .word = .ok (.none, inst, mem') ∧
      t' = t.record (t.core.restart inst) mem' false := by
  obtain ⟨e, readData, badVAddr, mem₁, inst, mem', hstep, hread, rfl⟩ := (Tracked.tick_eq_ok h).mp ht
  rw [interpretWb_of_flushes hf] at hstep ⊢
  rw [Core.fetchPc, if_pos hf] at hread
  cases hstep with
  | carried h => exact absurd rfl h
  | load _ hread' _ => cases hread'
  | store _ _ hwrite _ => cases hwrite
  | plain _ _ _ => exact ⟨inst, mem', hread, rfl⟩

/-- A tick that does not empty the pipeline. -/
lemma Tracked.tick_of_not_flushes {t t' : Tracked} (h : PipeOk t.core) (hnf : ¬ t.core.flushes)
    (ht : t.tick = .ok t') :
    ∃ regs cp0 e readData badVAddr mem₁ inst mem',
      (interpretWb t.core).1 = t.core.withRegs regs cp0 ∧
      MemStep (t.core.withRegs regs cp0) t.mem e readData badVAddr mem₁ ∧
      mmuRead mem₁ (t.core.idEx.redirect.getD t.core.pc) 0 .word = .ok (.none, inst, mem') ∧
      t' = t.record ((t.core.withRegs regs cp0).next
        (moveStage t.core e readData badVAddr) inst) mem' (interpretWb t.core).2 := by
  obtain ⟨e, readData, badVAddr, mem₁, inst, mem', hstep, hread, rfl⟩ := (Tracked.tick_eq_ok h).mp ht
  obtain ⟨regs, cp0, heq⟩ := interpretWb_of_not_flushes hnf
  rw [heq] at hstep
  rw [Core.fetchPc, if_neg hnf] at hread
  refine ⟨regs, cp0, e, readData, badVAddr, mem₁, inst, mem', heq, hstep, hread, ?_⟩
  rw [heq]
  rfl

lemma Tracked.record_core (t : Tracked) (core' : Core) (mem' : Mmu) (fin : Bool) :
    (t.record core' mem' fin).core = core' := rfl

/-- The slot of `IF_ID` after a tick that fetches. -/
lemma Tracked.record_ifId {t : Tracked} {core₁ : Core} {memWb : MemWb} {inst : Word} {mem' : Mmu}
    {fin : Bool} (hpc : core₁.idEx.redirect.getD core₁.pc = t.core.fetchPc) :
    (t.record (core₁.next memWb inst) mem' fin).ifId =
      if core₁.holds inst then none else some { seq := t.fetched, addr := t.core.fetchPc } := by
  simp only [Tracked.record, ← hpc]
  exact if_congr Core.next_pc_eq_iff rfl rfl

lemma Tracked.record_fetched {t : Tracked} {core₁ : Core} {memWb : MemWb} {inst : Word} {mem' : Mmu}
    {fin : Bool} (hpc : core₁.idEx.redirect.getD core₁.pc = t.core.fetchPc) :
    (t.record (core₁.next memWb inst) mem' fin).fetched =
      if core₁.holds inst then t.fetched else t.fetched + 1 := by
  simp only [Tracked.record, ← hpc]
  exact if_congr Core.next_pc_eq_iff rfl rfl

lemma Core.fetchPc_of_flushes {core : Core} (h : core.flushes) : core.fetchPc = core.flushTarget :=
  if_pos h

lemma Core.fetchPc_of_not_flushes {core : Core} (h : ¬ core.flushes) :
    core.fetchPc = core.idEx.redirect.getD core.pc := if_neg h

/-- An empty pipeline causes no hazard. -/
lemma Core.not_holds_init (regs : ℕ → Word) (pc : Word) (cp0 : ℕ → Word) (inst : Word) :
    ¬ (Core.init regs pc cp0).holds inst := by
  rintro ⟨h, -⟩
  revert h
  simp only [Core.init]
  decide

/-! ### Labels -/

/-- Bubbles are words of zeros, and the address of an instruction travels with it. -/
structure Tracked.Labelled (t : Tracked) : Prop where
  ifId_nop : t.ifId = none → t.core.ifId.inst = 0
  idEx_nop : t.idEx = none → t.core.idEx.inst = 0
  exMem_nop : t.exMem = none → t.core.exMem.inst = 0
  memWb_nop : t.memWb = none → t.core.memWb.inst = 0
  ifId_addr : ∀ v, t.ifId = some v → t.core.ifId.nextPc = v.addr + 4
  idEx_addr : ∀ v, t.idEx = some v → t.core.idEx.nextPc = v.addr + 4
  exMem_addr : ∀ v, t.exMem = some v → t.core.exMem.nextPc = v.addr + 4
  memWb_addr : ∀ v, t.memWb = some v → t.core.memWb.nextPc = v.addr + 4

lemma labelled_start (regs : ℕ → Word) (pc : Word) (cp0 : ℕ → Word) (mem : Mmu) :
    (Tracked.start (.init regs pc cp0) mem).Labelled := by
  constructor <;> first | exact fun _ => rfl | (intro v hv; cases hv)

/-- The part of the labels that concerns IF. -/
lemma labelled_fetch {t : Tracked} {core₁ : Core} {memWb : MemWb} {inst : Word} {mem' : Mmu}
    {fin : Bool} (hpc : core₁.idEx.redirect.getD core₁.pc = t.core.fetchPc) :
    ((t.record (core₁.next memWb inst) mem' fin).ifId = none →
      (core₁.next memWb inst).ifId.inst = 0) ∧
    ∀ v, (t.record (core₁.next memWb inst) mem' fin).ifId = some v →
      (core₁.next memWb inst).ifId.nextPc = v.addr + 4 := by
  rw [Tracked.record_ifId hpc]
  by_cases h : core₁.holds inst
  · rw [if_pos h]
    exact ⟨fun _ => Core.next_ifId_of_holds h, nofun⟩
  · rw [if_neg h, Core.next_ifId_of_not_holds h, hpc]
    refine ⟨nofun, ?_⟩
    intro v hv
    rw [Option.some.injEq] at hv
    rw [← hv]

lemma Tracked.Labelled.tick {t t' : Tracked} (h : t.Labelled) (hpipe : PipeOk t.core)
    (ht : t.tick = .ok t') : t'.Labelled := by
  by_cases hf : t.core.flushes
  · obtain ⟨inst, mem', -, rfl⟩ := Tracked.tick_of_flushes hpipe hf ht
    obtain ⟨hnop, haddr⟩ := @labelled_fetch t
      (.init t.core.regs t.core.flushTarget t.core.flushCp0) {} inst mem' false
      (Core.fetchPc_of_flushes hf).symm
    refine ⟨hnop, ?_, ?_, ?_, haddr, ?_, ?_, ?_⟩
    · exact fun _ => Core.next_idEx_inst ..
    · intro _
      simp only [Tracked.record, Core.restart, Core.next_exMem]
      rfl
    · intro _
      simp only [Tracked.record, Core.restart, Core.next_memWb]
    all_goals
      intro v hv
      simp only [Tracked.record, if_pos hf] at hv
      cases hv
  · obtain ⟨regs, cp0, e, readData, badVAddr, mem₁, inst, mem', -, -, -, rfl⟩ :=
      Tracked.tick_of_not_flushes hpipe hf ht
    obtain ⟨hnop, haddr⟩ := @labelled_fetch t (t.core.withRegs regs cp0)
      (moveStage t.core e readData badVAddr) inst mem' (interpretWb t.core).2
      (Core.fetchPc_of_not_flushes hf).symm
    refine ⟨hnop, ?_, ?_, ?_, haddr, ?_, ?_, ?_⟩
    all_goals simp only [Tracked.record, if_neg hf]
    · rw [Core.next_idEx_inst]
      exact h.ifId_nop
    · rw [Core.next_exMem, Option.map_eq_none_iff]
      exact h.idEx_nop
    · rw [Core.next_memWb]
      exact h.exMem_nop
    · rw [Core.next_idEx_nextPc]
      exact h.ifId_addr
    · rw [Core.next_exMem]
      intro v hv
      obtain ⟨u, hu, rfl⟩ := Option.map_eq_some_iff.mp hv
      exact h.idEx_addr u hu
    · rw [Core.next_memWb]
      exact h.exMem_addr

/-! ### Reachable states -/

/-- The core of a tracked tick is the core of the tick. -/
lemma Tracked.tick_core {t t' : Tracked} (ht : t.tick = .ok t') :
    ∃ fin, tickCore t.core t.mem = .ok (t'.core, t'.mem, fin) := by
  simp only [Tracked.tick, bind_eq_ok, pure_eq_ok, Prod.exists] at ht
  obtain ⟨core', mem', fin, htick, rfl⟩ := ht
  exact ⟨fin, htick⟩

lemma Reachable.pipeOk {t : Tracked} (h : Reachable t) : PipeOk t.core := by
  induction h with
  | start regs pc cp0 mem h => exact pipeOk_init regs pc cp0
  | tick h hfin ht ih =>
    obtain ⟨fin, htick⟩ := Tracked.tick_core ht
    exact ih.tick htick
  | other h mem' ih => exact ih

lemma Reachable.labelled {t : Tracked} (h : Reachable t) : t.Labelled := by
  induction h with
  | start regs pc cp0 mem h => exact labelled_start regs pc cp0 mem
  | tick h hfin ht ih => exact ih.tick h.pipeOk ht
  | other h mem' ih => exact ⟨ih.1, ih.2, ih.3, ih.4, ih.5, ih.6, ih.7, ih.8⟩

/-- Writing back keeps the zero in register 0. -/
lemma commitRegs_zero {memWb : MemWb} {regs : ℕ → Word} (h : regs 0 = 0) :
    commitRegs memWb regs 0 = 0 := by
  unfold commitRegs
  by_cases hw : memWb.cRegWrite ∧ ¬ isMtc0 memWb.inst
  · rw [if_pos hw]
    by_cases hd : memWb.regDst = 0
    · simp [hd]
    · rw [setReg_of_ne _ _ (Ne.symm hd), h]
  · rw [if_neg hw, h]

lemma interpretWb_regs_zero {core : Core} (h : core.regs 0 = 0) :
    (interpretWb core).1.regs 0 = 0 := by
  rcases flushes_or_exits_or_commits core with hf | hx | hc
  · rw [interpretWb_of_flushes hf]
    exact h
  · rw [interpretWb_of_exits hx]
    exact h
  · rw [interpretWb_of_commits hc]
    exact commitRegs_zero h

lemma Reachable.reg_zero {t : Tracked} (h : Reachable t) : t.core.regs 0 = 0 := by
  induction h with
  | start regs pc cp0 mem h => exact h
  | tick h hfin ht ih =>
    obtain ⟨e, readData, badVAddr, mem₁, inst, mem', -, -, rfl⟩ :=
      (Tracked.tick_eq_ok h.pipeOk).mp ht
    simp only [Tracked.record, Core.next_regs]
    exact interpretWb_regs_zero ih
  | other h mem' ih => exact ih

/-- An instruction that empties the pipeline is not a bubble. -/
lemma Reachable.victim {t : Tracked} (h : Reachable t) (hf : t.core.flushes) :
    ∃ v, t.memWb = some v := by
  cases hm : t.memWb with
  | some v => exact ⟨v, rfl⟩
  | none =>
    have hnop := h.labelled.memWb_nop hm
    rcases hf with heret | ⟨hexc, -⟩
    · rw [hnop] at heret
      exact absurd heret (by decide)
    · exact absurd (h.pipeOk.memWb_nop hnop) hexc

lemma Tracked.finished_of_tick {t t' : Tracked} (ht : t.tick = .ok t') (h : t'.finished = false) :
    t.finished = false := by
  simp only [Tracked.tick, bind_eq_ok, pure_eq_ok, Prod.exists] at ht
  obtain ⟨core', mem', fin, -, rfl⟩ := ht
  simp only [Tracked.record, Bool.or_eq_false_iff] at h
  exact h.1

/-- A run of ticks that has not ended reaches reachable states only. -/
lemma Reachable.iterate {t t' : Tracked} {n : ℕ} (h : Reachable t)
    (ht : Run.iterate Tracked.tick n t = .ok t') (hfin : t'.finished = false) : Reachable t' := by
  have hinv : t'.finished = false → Reachable t' := by
    refine iterate_invariant (P := fun s => s.finished = false → Reachable s) ?_ (fun _ => h) ht
    intro s s' hs hstep hfin'
    have hfin := Tracked.finished_of_tick hstep hfin'
    exact (hs hfin).tick hfin hstep
  exact hinv hfin

/-! ### Programs at the start of kseg0 -/

/-- A memory of the given size with the given bytes at its start. -/
def imageMem (size : ℕ) (bytes : List Byte) : Mmu :=
  (mmuInit size).withPmem (ByteStore.writeBlock (fun _ => 0) 0 bytes)

/-- A core with cleared registers that is about to run the program at the start of kseg0. -/
def Tracked.boot (mem : Mmu) : Tracked :=
  .start (.init (fun _ => 0) 0x80000000#32 (fun _ => 0)) mem

lemma reachable_boot (mem : Mmu) : Reachable (.boot mem) := .start _ _ _ _ rfl

/-- The states of a run as a function, for as long as it goes on. -/
def runFrom (t : Tracked) (i : ℕ) : Tracked :=
  match iterate Tracked.tick i t with
  | .ok t' => t'
  | .error _ => t

section RunFrom

variable {t t' : Tracked} {n i : ℕ} (h : iterate Tracked.tick n t = .ok t')

include h

lemma iterate_runFrom (hi : i ≤ n) : iterate Tracked.tick i t = .ok (runFrom t i) := by
  obtain ⟨u, hu⟩ := iterate_of_le h hi
  simp only [runFrom, hu]

lemma tick_runFrom (hi : i < n) : (runFrom t i).tick = .ok (runFrom t (i + 1)) := by
  obtain ⟨u, hu, htick⟩ := iterate_succ_eq_ok.mp (iterate_runFrom h hi)
  rw [iterate_runFrom h (Nat.le_of_lt hi), Except.ok.injEq] at hu
  rw [hu]
  exact htick

lemma finished_runFrom (hfin : t'.finished = false) (hi : i ≤ n) : (runFrom t i).finished = false := by
  induction hi using Nat.decreasingInduction with
  | self =>
    have hn := iterate_runFrom h le_rfl
    rw [h, Except.ok.injEq] at hn
    rw [← hn]
    exact hfin
  | of_succ i hi ih => exact Tracked.finished_of_tick (tick_runFrom h hi) ih

end RunFrom

/-! ### The whole machine -/

/-- The states of the machine that `run` reaches before and when it ends. -/
inductive HwReachable : Hardware → Prop
  | start (cores : List Core) (mmu : Mmu)
      (h : ∀ core ∈ cores, ∃ regs pc cp0, regs 0 = 0 ∧ core = .init regs pc cp0) :
      HwReachable ⟨cores, mmu, false⟩
  | step {hw hw' : Hardware} (h : HwReachable hw) (hfin : hw.finished = false)
      (hs : runStep hw = .ok hw') : HwReachable hw'

/-- The core is one of a reachable tracked state, whatever the memory. -/
def Core.IsReachable (core : Core) (finished : Bool) : Prop :=
  ∀ mem, ∃ t, Reachable t ∧ t.core = core ∧ t.mem = mem ∧ (t.finished = true → finished = true)

lemma Core.IsReachable.mono {core : Core} {fin fin' : Bool} (h : core.IsReachable fin)
    (hle : fin = true → fin' = true) : core.IsReachable fin' := by
  intro mem
  obtain ⟨t, ht, hcore, hmem, hfin⟩ := h mem
  exact ⟨t, ht, hcore, hmem, fun hf => hle (hfin hf)⟩

lemma Core.IsReachable.tick {core core' : Core} {mem mem' : Mmu} {fin : Bool}
    (h : core.IsReachable false) (ht : tickCore core mem = .ok (core', mem', fin)) :
    core'.IsReachable fin := by
  obtain ⟨t, hreach, rfl, rfl, hfin⟩ := h mem
  have hnot : t.finished = false := by
    cases hf : t.finished with
    | false => rfl
    | true => exact absurd (hfin hf) (by decide)
  have htick : t.tick = .ok (t.record core' mem' fin) := by
    simp only [Tracked.tick, bind_eq_ok, pure_eq_ok, Prod.exists]
    exact ⟨core', mem', fin, ht, rfl⟩
  intro mem''
  refine ⟨_, (hreach.tick hnot htick).other mem'', rfl, rfl, ?_⟩
  simp [Tracked.record, hnot]

lemma tickCores_cons_eq_ok {core : Core} {cores cores' : List Core} {mem mem' : Mmu} {fin : Bool} :
    tickCores (core :: cores) mem = .ok (cores', mem', fin) ↔
      ∃ core₁ mem₁ fin₁ cores₁ fins, tickCore core mem = .ok (core₁, mem₁, fin₁) ∧
        tickCores cores mem₁ = .ok (cores₁, mem', fins) ∧ cores' = core₁ :: cores₁ ∧
        fin = (fin₁ || fins) := by
  simp only [tickCores, bind_eq_ok, pure_eq_ok, Prod.exists, Prod.mk.injEq]
  constructor
  · rintro ⟨core₁, mem₁, fin₁, htick, cores₁, mem₂, fins, hrest, hcores, hmem, hfin⟩
    exact ⟨core₁, mem₁, fin₁, cores₁, fins, htick, hmem ▸ hrest, hcores.symm, hfin.symm⟩
  · rintro ⟨core₁, mem₁, fin₁, cores₁, fins, htick, hrest, hcores, hfin⟩
    exact ⟨core₁, mem₁, fin₁, htick, cores₁, mem', fins, hrest, hcores.symm, rfl, hfin.symm⟩

/-- The loop over the cores keeps all of them reachable. -/
lemma isReachable_of_tickCores {cores cores' : List Core} {mem mem' : Mmu} {fin : Bool}
    (h : ∀ core ∈ cores, core.IsReachable false)
    (ht : tickCores cores mem = .ok (cores', mem', fin)) :
    ∀ core ∈ cores', core.IsReachable fin := by
  induction cores generalizing mem cores' fin with
  | nil =>
    simp only [tickCores, Except.ok.injEq, Prod.mk.injEq] at ht
    rw [← ht.1]
    exact fun c hc => absurd hc List.not_mem_nil
  | cons core cores ih =>
    obtain ⟨core₁, mem₁, fin₁, cores₁, fins, htick, hrest, hcores, hfin⟩ :=
      tickCores_cons_eq_ok.mp ht
    have hhead : core₁.IsReachable fin₁ := (h core List.mem_cons_self).tick htick
    have htail : ∀ c ∈ cores₁, c.IsReachable fins :=
      ih (fun c hc => h c (List.mem_cons_of_mem _ hc)) hrest
    intro c hc
    rw [hcores] at hc
    rw [hfin]
    rcases List.mem_cons.mp hc with heq | hc
    · rw [heq]
      exact hhead.mono fun hf => by rw [hf]; rfl
    · exact (htail c hc).mono fun hf => by rw [hf, Bool.or_true]

/-- In every run of the simulator every core is in one of the states that `Reachable` describes. -/
theorem HwReachable.isReachable {hw : Hardware} (h : HwReachable hw) :
    ∀ core ∈ hw.cores, core.IsReachable hw.finished := by
  induction h with
  | start cores mmu h =>
    intro core hcore mem
    obtain ⟨regs, pc, cp0, hzero, rfl⟩ := h core hcore
    exact ⟨_, .start regs pc cp0 mem hzero, rfl, rfl, nofun⟩
  | @step hw hw' h hfin hs ih =>
    unfold runStep at hs
    split at hs
    · cases hs
    · simp only [tick, bind_eq_ok, pure_eq_ok, Prod.exists] at hs
      obtain ⟨_, _, mem₁, -, cores', mem', fin, htick, rfl⟩ := hs
      rw [hfin] at ih
      intro c hc
      exact (isReachable_of_tickCores ih htick c hc).mono (by simp +contextual)

end MipsSim
