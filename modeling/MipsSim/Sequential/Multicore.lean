import MipsSim.Lib.Interleaving
import MipsSim.Sequential.Runs

/-!
# Several cores

The clock ticks the cores in turn, and they share the memory unit. A run of the clock is an
interleaving of the machines without a pipeline, with whole instructions: all that a core does to
the memory in one tick is what one of its instructions does.
-/

namespace MipsSim

open Run Interleaving

/-! ### Components -/

/-- A machine that has not left its program takes a step. -/
def SingleCycle.Steps (s : SingleCycle) (mem : Mmu) (s' : SingleCycle) (mem' : Mmu) : Prop :=
  s.halted = false ∧ s.step mem = .ok (s', mem')

/-- A core takes part in a tick that does not end the run, and its fetch calls no device. -/
def Core.Ticks (core : Core) (mem : Mmu) (core' : Core) (mem' : Mmu) : Prop :=
  mem.called core.fetchPc = [] ∧ tickCore core mem = .ok (core', mem', false)

/-- The machine that a core runs. -/
def Runs (code : Code) (s : SingleCycle) (core : Core) : Prop := ∃ v, InStep code s core v

/-- The next instruction of a machine that has not left its program is regular. -/
def Orderly (code : Code) (s : SingleCycle) (_ : Mmu) : Prop := s.halted = false → s.Regular code

/-- The core that is about to run a machine. -/
def SingleCycle.core (s : SingleCycle) : Core := .init s.regs s.point.pc s.cp0

/-- A tick of one core is at most one step of its machine. -/
lemma simulates_ticks (code : Code) :
    Simulates SingleCycle.Steps Core.Ticks (Runs code) (Orderly code) code.Holds := by
  rintro s core mem core' mem' ⟨v, h⟩ hreg hold ⟨hquiet, ht⟩
  have hrun : s.halted = false := by
    have heq : interpretWb core = ((interpretWb core).1, (interpretWb core).2) := rfl
    obtain ⟨_, _, _, _, _, -, -, -, hfin⟩ :=
      (tickCore_eq_ok heq h.pipeOk.wb.ifId_exception h.pipeOk.wb.idEx_exception).mp ht
    exact h.halted_eq.symm.trans hfin.symm
  obtain ⟨-, ⟨hmem, v', hsim, -⟩ | ⟨-, s', hs, hsim⟩⟩ := h.tick hrun (hreg hrun) hold hquiet ht
  · exact .inl ⟨hmem, v', hsim⟩
  · refine .inr ⟨s', ⟨hrun, hs⟩, fun hold' => ?_⟩
    obtain ⟨v', hsim', -⟩ := hsim hold'
    exact ⟨v', hsim'⟩

/-- The loop of `tick` is a sweep over the cores. -/
lemma sweep_of_tickCores {cores cores' : List Core} {mem mem' : Mmu}
    (h : tickCores cores mem = .ok (cores', mem', false))
    (hquiet : ∀ core ∈ cores, mem.called core.fetchPc = []) :
    Sweep Core.Ticks cores mem cores' mem' := by
  induction cores generalizing mem cores' with
  | nil =>
    simp only [tickCores, Except.ok.injEq, Prod.mk.injEq] at h
    obtain ⟨rfl, rfl, -⟩ := h
    exact .nil mem
  | cons core cores ih =>
    obtain ⟨core₁, mem₁, fin₁, cores₁, fins, htick, hrest, rfl, hfin⟩ := tickCores_cons_eq_ok.mp h
    obtain ⟨rfl, rfl⟩ := Bool.or_eq_false_iff.mp hfin.symm
    have hunit := ((accessInvariant_sameUnit mem).tickCore _ (.refl mem)).of_ok htick
    refine .cons ⟨hquiet core List.mem_cons_self, htick⟩ (ih hrest fun c hc => ?_)
    rw [Mmu.SameUnit.called_eq hunit]
    exact hquiet c (List.mem_cons_of_mem _ hc)

/-! ### Runs -/

section Interleaved

variable {code : Code} {ss : List SingleCycle} {mem : Mmu} {n : ℕ} {hw : Hardware}
  (hstart : ∀ s ∈ ss, ∃ regs pc cp0, regs 0 = 0 ∧ s = .start regs pc cp0)
  (hsafe : Safe SingleCycle.Steps (Orderly code) code.Holds (ss, mem))
  (hquiet : ∀ j < n, ∀ t, iterate tick j ⟨ss.map SingleCycle.core, mem, false⟩ = .ok t →
    t.QuietFetch)
  (hrun : iterate tick n ⟨ss.map SingleCycle.core, mem, false⟩ = .ok hw)
  (hfin : hw.finished = false)

include hstart

lemma runs_start : List.Forall₂ (Runs code) ss (ss.map SingleCycle.core) := by
  rw [List.forall₂_map_right_iff, List.forall₂_same]
  intro s hs
  obtain ⟨regs, pc, cp0, hzero, rfl⟩ := hstart s hs
  exact ⟨_, inStep_start code pc cp0 hzero⟩

include hsafe hquiet hrun hfin

/-- By induction on the ticks, each of which is a sweep. -/
lemma interleaved_of_iterate : ∃ ss', Turns SingleCycle.Steps (ss, mem) n (ss', hw.mmu) ∧
    List.Forall₂ (Runs code) ss' hw.cores := by
  induction n generalizing hw with
  | zero =>
    obtain rfl := Except.ok.inj hrun
    exact ⟨ss, .zero, runs_start hstart⟩
  | succ n ih =>
    obtain ⟨t, ht, htick⟩ := iterate_succ_eq_ok.mp hrun
    have hgoing := finished_of_tick htick hfin
    obtain ⟨ss₁, hturns, hruns⟩ := ih (fun j hj => hquiet j (Nat.lt_succ_of_lt hj)) ht hgoing
    simp only [tick, bind_eq_ok, pure_eq_ok, Prod.exists] at htick
    obtain ⟨cores', mem', fin, hcores, rfl⟩ := htick
    obtain ⟨-, rfl⟩ := Bool.or_eq_false_iff.mp hfin
    have hsweep := sweep_of_tickCores hcores (hquiet n (Nat.lt_succ_self n) t ht)
    obtain ⟨ss', hsweep', hruns'⟩ :=
      hsweep.simulated (simulates_ticks code) hruns (hsafe.of_reaches hturns.reaches)
    exact ⟨ss', hturns.succ hsweep', hruns'⟩

/-- A run of any number of cores is an interleaving of the runs of their machines: there is an order
of whole instructions in which these come to the same memory, and to the registers that the cores
have once WB is through. In each tick every machine executes one instruction or none, in the order
of the cores. -/
theorem linearized_of_iterate : ∃ ss', Turns SingleCycle.Steps (ss, mem) n (ss', hw.mmu) ∧
    Reaches SingleCycle.Steps (ss, mem) (ss', hw.mmu) ∧
    List.Forall₂ (fun s core => (interpretWb core).1.regs = s.regs ∧
      (interpretWb core).1.cp0 = s.cp0) ss' hw.cores := by
  obtain ⟨ss', hturns, hruns⟩ := interleaved_of_iterate hstart hsafe hquiet hrun hfin
  refine ⟨ss', hturns, hturns.reaches, hruns.imp fun s core h => ?_⟩
  obtain ⟨v, h⟩ := h
  exact ⟨h.regs_eq, h.cp0_eq⟩

end Interleaved

/-! ### Two cores -/

/-- `LUI $1, 0x8000; SW $1, 0x40($1); ADDIU $2, $0, 10; SYSCALL` for the first core, and
`ADDIU $2, $0, 10; SYSCALL` for the second one. -/
def pairText : List Byte :=
  [0x3C, 0x01, 0x80, 0x00, 0xAC, 0x21, 0x00, 0x40, 0x24, 0x02, 0x00, 0x0A, 0x00, 0x00, 0x00, 0x0C,
    0x24, 0x02, 0x00, 0x0A, 0x00, 0x00, 0x00, 0x0C]

/-- Their words. -/
def pairCode : Code := .ofList
  [(0x80000000#32, 0x3C018000#32), (0x80000004#32, 0xAC210040#32), (0x80000008#32, 0x2402000A#32),
    (0x8000000C#32, 0x0000000C#32), (0x80000010#32, 0x2402000A#32), (0x80000014#32, 0x0000000C#32)]

/-- The machine of the first core, and the memory, after `i` steps. -/
def firstAt (i : ℕ) : SingleCycle × Mmu :=
  match iterate SingleCycle.run i
    (.start (fun _ => 0) 0x80000000#32 (fun _ => 0), loadedMmu 1024 pairText) with
  | .ok x => x
  | .error _ => (.start (fun _ => 0) 0 (fun _ => 0), mmuInit 0)

/-- The machine of the second core after `j` steps. -/
def secondAt (j : ℕ) : SingleCycle :=
  match iterate SingleCycle.run j
    (.start (fun _ => 0) 0x80000010#32 (fun _ => 0), loadedMmu 1024 pairText) with
  | .ok x => x.1
  | .error _ => .start (fun _ => 0) 0 (fun _ => 0)

/-- What the two can come to. -/
def PairStates (x : List SingleCycle × Mmu) : Prop :=
  ∃ i ≤ 4, ∃ j ≤ 2, x = ([(firstAt i).1, secondAt j], (firstAt i).2)

lemma pairCode_holds {i : ℕ} (hi : i ≤ 4) : pairCode.Holds (firstAt i).2 := by
  apply Code.holds_ofList
  intro p hp
  interval_cases i <;> fin_cases hp <;> rfl

lemma firstAt_steps {i : ℕ} {s' : SingleCycle} {mem' : Mmu} (hi : i ≤ 4)
    (h : (firstAt i).1.Steps (firstAt i).2 s' mem') : i < 4 ∧ (s', mem') = firstAt (i + 1) := by
  obtain ⟨hrun, hs⟩ := h
  interval_cases i
  case «4» => exact absurd hrun (by decide)
  all_goals exact ⟨by decide, (Except.ok.inj hs).symm⟩

lemma secondAt_steps {i j : ℕ} {s' : SingleCycle} {mem' : Mmu} (hi : i ≤ 4) (hj : j ≤ 2)
    (h : (secondAt j).Steps (firstAt i).2 s' mem') :
    j < 2 ∧ s' = secondAt (j + 1) ∧ mem' = (firstAt i).2 := by
  obtain ⟨hrun, hs⟩ := h
  interval_cases j
  case «2» => exact absurd hrun (by decide)
  all_goals
    interval_cases i
    all_goals
      obtain ⟨rfl, rfl⟩ := Prod.mk.inj (Except.ok.inj hs)
      exact ⟨by decide, rfl, rfl⟩

lemma pairStates_step {x y : List SingleCycle × Mmu} (hx : PairStates x)
    (h : Step SingleCycle.Steps x y) : PairStates y := by
  obtain ⟨i, hi, j, hj, rfl⟩ := hx
  rcases h.of_cons with ⟨s', mem', hs, rfl⟩ | ⟨as, mem', hsecond, rfl⟩
  · obtain ⟨hlt, heq⟩ := firstAt_steps hi hs
    obtain ⟨rfl, rfl⟩ := Prod.mk.inj heq
    exact ⟨i + 1, hlt, j, hj, rfl⟩
  · rcases hsecond.of_cons with ⟨s', mem'', hs, heq⟩ | ⟨_, _, hnone, -⟩
    · obtain ⟨hlt, rfl, rfl⟩ := secondAt_steps hi hj hs
      obtain ⟨rfl, rfl⟩ := Prod.mk.inj heq
      exact ⟨i, hi, j + 1, hlt, rfl⟩
    · exact absurd hnone Step.not_nil

lemma pairStates_safe : Safe SingleCycle.Steps (Orderly pairCode) pairCode.Holds
    ([(firstAt 0).1, secondAt 0], (firstAt 0).2) := by
  refine .of_invariant (I := PairStates) ⟨0, by decide, 0, by decide, rfl⟩
    (fun _ _ => pairStates_step) ?_
  rintro _ ⟨i, hi, j, hj, rfl⟩
  refine ⟨?_, pairCode_holds hi⟩
  intro s hs hrun
  simp only [List.mem_cons, List.not_mem_nil, or_false] at hs
  rcases hs with rfl | rfl
  · interval_cases i
    · exact ⟨0x3C018000#32, rfl, by decide, by decide⟩
    · exact ⟨0xAC210040#32, rfl, by decide, by decide⟩
    · exact ⟨0x2402000A#32, rfl, by decide, by decide⟩
    · exact ⟨0x0000000C#32, rfl, by decide, by decide⟩
    · exact absurd hrun (by decide)
  · interval_cases j
    · exact ⟨0x2402000A#32, rfl, by decide, by decide⟩
    · exact ⟨0x0000000C#32, rfl, by decide, by decide⟩
    · exact absurd hrun (by decide)

/-- The two cores after five ticks. -/
theorem linearized_of_iterate_pair : ∃ hw ss',
    iterate tick 5 ⟨[(firstAt 0).1.core, (secondAt 0).core], (firstAt 0).2, false⟩ = .ok hw ∧
    Turns SingleCycle.Steps ([(firstAt 0).1, secondAt 0], (firstAt 0).2) 5 (ss', hw.mmu) ∧
    Reaches SingleCycle.Steps ([(firstAt 0).1, secondAt 0], (firstAt 0).2) (ss', hw.mmu) ∧
    List.Forall₂ (fun s core => (interpretWb core).1.regs = s.regs ∧
      (interpretWb core).1.cp0 = s.cp0) ss' hw.cores := by
  obtain ⟨hw, hrun, hfin⟩ : ∃ hw, iterate tick 5
      ⟨[(firstAt 0).1.core, (secondAt 0).core], (firstAt 0).2, false⟩ = .ok hw ∧
      hw.finished = false := ⟨_, rfl, rfl⟩
  have hstart : ∀ s ∈ [(firstAt 0).1, secondAt 0],
      ∃ regs pc cp0, regs 0 = 0 ∧ s = .start regs pc cp0 := by
    intro s hs
    simp only [List.mem_cons, List.not_mem_nil, or_false] at hs
    rcases hs with rfl | rfl
    · exact ⟨_, _, _, rfl, rfl⟩
    · exact ⟨_, _, _, rfl, rfl⟩
  have hsilent : (firstAt 0).2.Silent := Mmu.silent_of_length_le (Nat.le_refl 1)
  obtain ⟨ss', hturns, hreach, hsame⟩ := linearized_of_iterate hstart pairStates_safe
    (fun _ _ _ ht => hsilent.quietFetch ht) hrun hfin
  exact ⟨hw, ss', hrun, hturns, hreach, hsame⟩

end MipsSim
