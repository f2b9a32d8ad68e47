import MipsSim.Machine.Simulate
import MipsSim.Sequential.Refinement

/-!
# Whole runs of one core

After `n` ticks the core has executed as many instructions as the machine without a pipeline needs
to use up `n` ticks, when each instruction costs one tick and its penalty; and then it is in the
state of this machine.
-/

namespace MipsSim

open Run

/-! ### Ticks of a program -/

/-- The penalty of the instruction that the machine executes in step `k`. -/
def SingleCycle.penaltyAt (code : Code) (x : SingleCycle × Mmu) (k : ℕ) : ℕ :=
  match iterate SingleCycle.run k x with
  | .ok (s, _) => s.penalty code
  | .error _ => 0

/-- The number of ticks after which the first `k` instructions are through MEM. -/
def SingleCycle.ticks (code : Code) (x : SingleCycle × Mmu) : ℕ → ℕ
  | 0 => 0
  | k + 1 => ticks code x k + penaltyAt code x k + 1

/-- Before each step that `n` ticks come to, the machine finds the program in memory, and the next
instruction is regular. -/
def SingleCycle.Lawful (code : Code) (x : SingleCycle × Mmu) (n : ℕ) : Prop :=
  ∀ k, ticks code x k ≤ n → ∀ s mem, iterate SingleCycle.run k x = .ok (s, mem) →
    code.Holds mem ∧ (s.halted = false → s.Regular code)

/-- The next fetches call no device. -/
def Hardware.QuietFetch (hw : Hardware) : Prop :=
  ∀ core ∈ hw.cores, hw.mmu.called core.fetchPc = []

lemma Mmu.Silent.quietFetch {hw₀ hw : Hardware} {n : ℕ} (h : hw₀.mmu.Silent)
    (hrun : iterate tick n hw₀ = .ok hw) : hw.QuietFetch :=
  fun core _ => h.sameUnit (iterate_tick_sameUnit hrun) core.fetchPc

namespace SingleCycle

variable {code : Code} {x : SingleCycle × Mmu}

lemma penaltyAt_eq {k : ℕ} {s : SingleCycle} {mem : Mmu}
    (h : iterate SingleCycle.run k x = .ok (s, mem)) : penaltyAt code x k = s.penalty code := by
  rw [penaltyAt, h]

lemma le_ticks (code : Code) (x : SingleCycle × Mmu) (k : ℕ) : k ≤ ticks code x k := by
  induction k with
  | zero => exact Nat.le_refl 0
  | succ k ih =>
    rw [ticks]
    omega

lemma ticks_succ {k : ℕ} {s : SingleCycle} {mem : Mmu}
    (h : iterate SingleCycle.run k x = .ok (s, mem)) :
    ticks code x (k + 1) = ticks code x k + s.penalty code + 1 := by rw [ticks, penaltyAt_eq h]

lemma ticks_mono (code : Code) (x : SingleCycle × Mmu) : StrictMono (ticks code x) := by
  apply strictMono_nat_of_lt_succ
  intro k
  rw [ticks]
  omega

lemma Lawful.mono {m n : ℕ} (h : Lawful code x n) (hmn : m ≤ n) : Lawful code x m :=
  fun k hk => h k (hk.trans hmn)

end SingleCycle

/-- A tick of a machine with one core. -/
lemma tick_one_eq_ok {core : Core} {mem : Mmu} {fin : Bool} {hw' : Hardware} :
    tick ⟨[core], mem, fin⟩ = .ok hw' ↔
      ∃ core' mem' fin', tickCore core mem = .ok (core', mem', fin') ∧
        hw' = ⟨[core'], mem', fin || fin'⟩ := by
  simp only [tick, bind_eq_ok, pure_eq_ok, Prod.exists]
  constructor
  · rintro ⟨cores', mem', fin', hcores, rfl⟩
    obtain ⟨core', mem₁, fin₁, cores₁, fins, htick, hrest, rfl, rfl⟩ :=
      tickCores_cons_eq_ok.mp hcores
    simp only [tickCores, Except.ok.injEq, Prod.mk.injEq] at hrest
    obtain ⟨rfl, rfl, rfl⟩ := hrest
    exact ⟨core', mem₁, fin₁, htick, by rw [Bool.or_false]⟩
  · rintro ⟨core', mem', fin', htick, rfl⟩
    refine ⟨[core'], mem', fin', tickCores_cons_eq_ok.mpr
      ⟨core', mem', fin', [], false, htick, rfl, rfl, ?_⟩, rfl⟩
    rw [Bool.or_false]

/-! ### The run -/

/-- After `n` ticks the machine is where the machine without a pipeline is after `k` steps: the
memory is that of `s`, and the registers are once WB is through. -/
structure Mirrors (code : Code) (x : SingleCycle × Mmu) (n : ℕ) (hw : Hardware) (k : ℕ)
    (s : SingleCycle) (core : Core) : Prop where
  run_eq : iterate SingleCycle.run k x = .ok (s, hw.mmu)
  cores_eq : hw.cores = [core]
  regs_eq : (interpretWb core).1.regs = s.regs
  cp0_eq : (interpretWb core).1.cp0 = s.cp0
  ticks_le : SingleCycle.ticks code x k ≤ n
  lt_ticks : s.halted = false → n < SingleCycle.ticks code x (k + 1)
  ticks_eq : s.halted = true → n = SingleCycle.ticks code x k

/-- What is carried through a run: the simulation, and the ticks until the next instruction. -/
structure Carried (code : Code) (x : SingleCycle × Mmu) (n : ℕ) (hw : Hardware) (k : ℕ)
    (s : SingleCycle) (core : Core) (v : Slots) : Prop where
  run_eq : iterate SingleCycle.run k x = .ok (s, hw.mmu)
  hw_eq : hw = ⟨[core], hw.mmu, false⟩
  sim : InStep code s core v
  ticks_le : SingleCycle.ticks code x k ≤ n
  wait_eq : s.halted = false → n + v.wait = SingleCycle.ticks code x k + s.penalty code
  ticks_eq : s.halted = true → n = SingleCycle.ticks code x k

section Carried

variable {code : Code} {x : SingleCycle × Mmu} {n k : ℕ} {hw hw' : Hardware} {s : SingleCycle}
  {core : Core} {v : Slots}

lemma Carried.mirrors (h : Carried code x n hw k s core v) : Mirrors code x n hw k s core where
  run_eq := h.run_eq
  cores_eq := by rw [h.hw_eq]
  regs_eq := h.sim.regs_eq
  cp0_eq := h.sim.cp0_eq
  ticks_le := h.ticks_le
  lt_ticks := by
    intro hrun
    have hwait := h.wait_eq hrun
    rw [SingleCycle.ticks_succ h.run_eq]
    omega
  ticks_eq := h.ticks_eq

/-- One more tick that is not the last one. -/
lemma Carried.tick (h : Carried code x n hw k s core v) (hlaw : SingleCycle.Lawful code x (n + 1))
    (hquiet : hw.QuietFetch) (ht : tick hw = .ok hw') (hfin : hw'.finished = false) :
    ∃ k' s' core' v', Carried code x (n + 1) hw' k' s' core' v' := by
  rw [h.hw_eq] at ht
  obtain ⟨core', mem', fin', htick, rfl⟩ := tick_one_eq_ok.mp ht
  simp only [Bool.false_or] at hfin
  rw [hfin] at htick
  have hcore : core ∈ hw.cores := by
    rw [h.hw_eq]
    exact List.mem_singleton_self core
  have hrun : s.halted = false := by
    have heq : interpretWb core = ((interpretWb core).1, (interpretWb core).2) := rfl
    obtain ⟨_, _, _, _, _, -, -, -, hfin'⟩ :=
      (tickCore_eq_ok heq h.sim.pipeOk.wb.ifId_exception h.sim.pipeOk.wb.idEx_exception).mp htick
    exact h.sim.halted_eq.symm.trans hfin'.symm
  obtain ⟨hold, hreg⟩ := hlaw k (Nat.le_succ_of_le h.ticks_le) s hw.mmu h.run_eq
  have hwait := h.wait_eq hrun
  obtain ⟨-, ⟨rfl, v', hsim, hw'⟩ | ⟨hzero, s', hs, hsim⟩⟩ :=
    h.sim.tick hrun (hreg hrun) hold (hquiet core hcore) htick
  · -- a bubble
    refine ⟨k, s, core', v', h.run_eq, by rw [hfin]; rfl, hsim, Nat.le_succ_of_le h.ticks_le, ?_,
      ?_⟩
    · intro _
      omega
    · intro hhalt
      exact absurd (hrun.symm.trans hhalt) (by decide)
  · -- the instruction of step `k`
    have hk : iterate SingleCycle.run (k + 1) x = .ok (s', mem') :=
      iterate_succ_eq_ok.mpr ⟨_, h.run_eq, hs⟩
    have hticks : n + 1 = SingleCycle.ticks code x (k + 1) := by
      rw [SingleCycle.ticks_succ h.run_eq]
      omega
    obtain ⟨hold', hreg'⟩ := hlaw (k + 1) hticks.ge s' mem' hk
    obtain ⟨v', hsim', hpen⟩ := hsim hold'
    refine ⟨k + 1, s', core', v', hk, by rw [hfin]; rfl, hsim', hticks.ge, ?_, fun _ => hticks⟩
    intro hrun'
    rw [hpen hrun' (hreg' hrun'), hticks]

/-- After the next tick WB is through, and the run has ended if the machine has left the program. -/
lemma Carried.outcome (h : Carried code x n hw k s core v) (ht : MipsSim.tick hw = .ok hw') :
    (∃ core', hw'.cores = [core'] ∧ core'.regs = s.regs ∧ core'.cp0 = s.cp0) ∧
      hw'.finished = s.halted := by
  rw [h.hw_eq] at ht
  obtain ⟨core', mem', fin, htick, rfl⟩ := tick_one_eq_ok.mp ht
  have heq : interpretWb core = ((interpretWb core).1, (interpretWb core).2) := rfl
  obtain ⟨_, _, _, _, _, -, -, rfl, rfl⟩ :=
    (tickCore_eq_ok heq h.sim.pipeOk.wb.ifId_exception h.sim.pipeOk.wb.idEx_exception).mp htick
  refine ⟨⟨_, rfl, ?_, ?_⟩, ?_⟩
  · rw [Core.next_regs, h.sim.regs_eq]
  · rw [Core.next_cp0, h.sim.cp0_eq]
  · exact (Bool.false_or _).trans h.sim.halted_eq

end Carried

/-! ### Runs from the start -/

/-- A machine with one core that is about to start. -/
def Hardware.start (regs : ℕ → Word) (pc : Word) (cp0 : ℕ → Word) (mem : Mmu) : Hardware :=
  ⟨[.init regs pc cp0], mem, false⟩

lemma finished_of_tick {hw hw' : Hardware} (ht : tick hw = .ok hw') (h : hw'.finished = false) :
    hw.finished = false := by
  simp only [MipsSim.tick, bind_eq_ok, pure_eq_ok, Prod.exists] at ht
  obtain ⟨cores', mem', fin, -, rfl⟩ := ht
  exact (Bool.or_eq_false_iff.mp h).1

section Start

variable {code : Code} {regs cp0 : ℕ → Word} {pc : Word} {mem : Mmu} {n : ℕ} {hw : Hardware}

lemma carried_start (hzero : regs 0 = 0) :
    Carried code (.start regs pc cp0, mem) 0 (.start regs pc cp0 mem) 0 (.start regs pc cp0)
      (.init regs pc cp0) (.empty (.start pc)) where
  run_eq := rfl
  hw_eq := rfl
  sim := inStep_start code pc cp0 hzero
  ticks_le := Nat.le_refl 0
  wait_eq := fun _ => rfl
  ticks_eq := nofun

variable (hzero : regs 0 = 0) (hlaw : SingleCycle.Lawful code (.start regs pc cp0, mem) n)
  (hquiet : ∀ j < n, ∀ t, iterate tick j (.start regs pc cp0 mem) = .ok t → t.QuietFetch)
  (hrun : iterate tick n (.start regs pc cp0 mem) = .ok hw) (hfin : hw.finished = false)

include hzero hlaw hquiet hrun hfin

/-- By induction on the ticks. -/
lemma carried_of_iterate :
    ∃ k s core v, Carried code (.start regs pc cp0, mem) n hw k s core v := by
  induction n generalizing hw with
  | zero =>
    obtain rfl := Except.ok.inj hrun
    exact ⟨0, _, _, _, carried_start hzero⟩
  | succ n ih =>
    obtain ⟨t, ht, htick⟩ := iterate_succ_eq_ok.mp hrun
    obtain ⟨k, s, core, v, hc⟩ := ih (hlaw.mono (Nat.le_succ n))
      (fun j hj => hquiet j (Nat.lt_succ_of_lt hj)) ht (finished_of_tick htick hfin)
    exact hc.tick hlaw (hquiet n (Nat.lt_succ_self n) t ht) htick hfin

/-- A run of one core is a run of the machine without a pipeline. Whenever it is stopped before its
end, WB will leave the registers of the machine after the instructions that are through MEM, the
memory is the machine's, and the number of ticks says how many instructions these are. -/
theorem mirrors_of_iterate :
    ∃ k s core, Mirrors code (.start regs pc cp0, mem) n hw k s core := by
  obtain ⟨k, s, core, v, hc⟩ := carried_of_iterate hzero hlaw hquiet hrun hfin
  exact ⟨k, s, core, hc.mirrors⟩

end Start

/-! ### A program with a load that is used -/

/-- The words of a list of addresses and words. -/
def Code.ofList (l : List (Word × Word)) : Code := fun a => l.lookup a

lemma Code.holds_ofList {l : List (Word × Word)} {mem : Mmu}
    (h : ∀ p ∈ l, mmuRead mem p.1 0 .word = .ok (.none, p.2, mem)) : (Code.ofList l).Holds mem := by
  intro a w hw
  obtain ⟨l₁, l₂, rfl, -⟩ := List.lookup_eq_some_iff.mp hw
  exact h (a, w) (by simp)

/-- `LUI $1, 0x8000; LW $2, 0($1); ADDU $3, $2, $2; ADDIU $2, $0, 10; SYSCALL`. -/
def useText : List Byte :=
  [0x3C, 0x01, 0x80, 0x00, 0x8C, 0x22, 0x00, 0x00, 0x00, 0x42, 0x18, 0x21, 0x24, 0x02, 0x00, 0x0A,
    0x00, 0x00, 0x00, 0x0C]

/-- Its words, at the start of kseg0. -/
def useCode : Code := .ofList
  [(0x80000000#32, 0x3C018000#32), (0x80000004#32, 0x8C220000#32), (0x80000008#32, 0x00421821#32),
    (0x8000000C#32, 0x2402000A#32), (0x80000010#32, 0x0000000C#32)]

/-- The machine without a pipeline on it. -/
def useStart : SingleCycle × Mmu :=
  (.start (bootRegs 1024) 0x80000000#32 bootCp0, loadedMmu 1024 useText)

lemma useCode_holds : useCode.Holds (loadedMmu 1024 useText) := by
  apply Code.holds_ofList
  intro p hp
  fin_cases hp <;> rfl

lemma useStart_silent : useStart.2.Silent := Mmu.silent_of_length_le (Nat.le_refl 1)

lemma useStart_ticks : SingleCycle.ticks useCode useStart 5 = 9 := rfl

lemma useStart_lawful : SingleCycle.Lawful useCode useStart 9 := by
  intro k hk s mem h
  rw [← useStart_ticks, (SingleCycle.ticks_mono useCode useStart).le_iff_le] at hk
  interval_cases k <;> obtain ⟨rfl, rfl⟩ := Prod.mk.inj (Except.ok.inj h)
  all_goals refine ⟨useCode_holds, fun hrun => ?_⟩
  · exact ⟨0x3C018000#32, rfl, by decide, by decide⟩
  · exact ⟨0x8C220000#32, rfl, by decide, by decide⟩
  · exact ⟨0x00421821#32, rfl, by decide, by decide⟩
  · exact ⟨0x2402000A#32, rfl, by decide, by decide⟩
  · exact ⟨0x0000000C#32, rfl, by decide, by decide⟩
  · exact absurd hrun (by decide)

/-- After seven ticks three instructions are through MEM. -/
theorem mirrors_of_iterate_use : ∃ hw k s core,
    iterate tick 7 (.start (bootRegs 1024) 0x80000000#32 bootCp0 (loadedMmu 1024 useText)) =
      .ok hw ∧
    Mirrors useCode useStart 7 hw k s core := by
  obtain ⟨hw, hrun, hfin⟩ : ∃ hw, iterate tick 7 (.start (bootRegs 1024) 0x80000000#32 bootCp0
      (loadedMmu 1024 useText)) = .ok hw ∧ hw.finished = false := ⟨_, rfl, rfl⟩
  obtain ⟨k, s, core, h⟩ := mirrors_of_iterate rfl (useStart_lawful.mono (by decide))
    (fun _ _ _ ht => useStart_silent.quietFetch ht) hrun hfin
  exact ⟨hw, k, s, core, hrun, h⟩

/-! ### The end of a run -/

section Exit

variable {code : Code} {regs cp0 : ℕ → Word} {pc : Word} {mem : Mmu} {n k : ℕ} {hw : Hardware}
  {s : SingleCycle}

/-- The run does not end before the machine has left the program. -/
lemma notFinished_of_running {m : ℕ} (hzero : regs 0 = 0)
    (hlaw : SingleCycle.Lawful code (.start regs pc cp0, mem) m)
    (hquiet : ∀ j ≤ m, ∀ t, iterate tick j (.start regs pc cp0 mem) = .ok t → t.QuietFetch)
    (hgoing : ∀ j, SingleCycle.ticks code (.start regs pc cp0, mem) j < m → ∀ t mem',
      iterate SingleCycle.run j (.start regs pc cp0, mem) = .ok (t, mem') → t.halted = false)
    (hn : n ≤ m) (hrun : iterate tick n (.start regs pc cp0 mem) = .ok hw) :
    hw.finished = false := by
  induction n generalizing hw with
  | zero =>
    obtain rfl := Except.ok.inj hrun
    rfl
  | succ n ih =>
    have hle := Nat.le_of_succ_le hn
    obtain ⟨t, ht, htick⟩ := iterate_succ_eq_ok.mp hrun
    obtain ⟨j, u, core, v, hc⟩ := carried_of_iterate hzero (hlaw.mono hle)
      (fun i hi => hquiet i (hi.le.trans hle)) ht (ih hle ht)
    rw [(hc.outcome htick).2]
    exact hgoing j (Nat.lt_of_le_of_lt hc.ticks_le hn) u _ hc.run_eq

/-- The machine leaves the program after `k` instructions, in the state `s`. -/
structure SingleCycle.Exits (x : SingleCycle × Mmu) (k : ℕ) (s : SingleCycle) : Prop where
  run_eq : ∃ mem, iterate SingleCycle.run k x = .ok (s, mem)
  halted : s.halted = true
  running : ∀ j < k, ∀ t mem, iterate SingleCycle.run j x = .ok (t, mem) → t.halted = false

variable (hzero : regs 0 = 0) (hexit : SingleCycle.Exits (.start regs pc cp0, mem) k s)
  (hlaw : SingleCycle.Lawful code (.start regs pc cp0, mem)
    (SingleCycle.ticks code (.start regs pc cp0, mem) k))
  (hquiet : ∀ j ≤ SingleCycle.ticks code (.start regs pc cp0, mem) k, ∀ t,
    iterate tick j (.start regs pc cp0 mem) = .ok t → t.QuietFetch)

include hzero hexit hlaw hquiet

/-- The run does not end before the `SYSCALL` is in WB. -/
lemma notFinished_of_le (hn : n ≤ SingleCycle.ticks code (.start regs pc cp0, mem) k)
    (hrun : iterate tick n (.start regs pc cp0 mem) = .ok hw) : hw.finished = false :=
  notFinished_of_running hzero hlaw hquiet
    (fun j hj => hexit.running j ((SingleCycle.ticks_mono _ _).lt_iff_lt.mp hj)) hn hrun

/-- It ends in the tick after that, with the registers of the machine. -/
lemma finished_of_exits
    (hrun : iterate tick (SingleCycle.ticks code (.start regs pc cp0, mem) k + 1)
      (.start regs pc cp0 mem) = .ok hw) :
    hw.finished = true ∧ ∃ core, hw.cores = [core] ∧ core.regs = s.regs ∧ core.cp0 = s.cp0 := by
  obtain ⟨t, ht, htick⟩ := iterate_succ_eq_ok.mp hrun
  have hfin := notFinished_of_le hzero hexit hlaw hquiet le_rfl ht
  obtain ⟨j, u, core, v, hc⟩ := carried_of_iterate hzero hlaw (fun i hi => hquiet i hi.le) ht hfin
  have hmono := SingleCycle.ticks_mono code (.start regs pc cp0, mem)
  have hj : j = k := by
    apply Nat.le_antisymm
    · exact hmono.le_iff_le.mp hc.ticks_le
    · by_contra hlt
      have hlt := Nat.lt_of_not_le hlt
      have hnext := hc.mirrors.lt_ticks (hexit.running j hlt u _ hc.run_eq)
      exact absurd (hmono.monotone (Nat.succ_le_of_lt hlt)) (Nat.not_le.mpr hnext)
  obtain ⟨mem', hs⟩ := hexit.run_eq
  have hu : u = s := by
    rw [← hj, hc.run_eq, Except.ok.injEq, Prod.mk.injEq] at hs
    exact hs.1
  obtain ⟨hcores, hdone⟩ := hc.outcome htick
  rw [hu] at hcores hdone
  exact ⟨hdone.trans hexit.halted, hcores⟩

end Exit

end MipsSim
