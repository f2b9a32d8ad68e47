import MipsSim.Sequential.Result

/-!
# What can crash a run

The instructions in flight make the accesses of the machine without a pipeline, so what crashes a
run of a program that this machine executes is one of three accesses of the simulator's own: the
read for the log, the fetch, and MEM of the word behind the last `SYSCALL`. If these are in order
then the run comes to its end.
-/

namespace MipsSim

open Run

/-! ### One tick -/

/-- The accesses that `run` makes beside those of the instructions are in order: the read for the
log, the fetch, and at the end MEM of the word behind the `SYSCALL`. -/
def Hardware.Clear (hw : Hardware) : Prop :=
  ∀ core ∈ hw.cores, hw.mmu.Readable core.pc ∧ hw.mmu.Readable core.fetchPc ∧
    (core.exits → (interpretMem core hw.mmu).isOk = true)

instance (hw : Hardware) : Decidable hw.Clear := List.decidableBAll _ _

section Tick

variable {code : Code} {x : SingleCycle × Mmu} {n k : ℕ} {hw : Hardware} {s : SingleCycle}
  {core : Core} {v : Slots} {mem : Mmu}

/-- A machine that has left the program is at its `SYSCALL`. -/
lemma InStep.exits (h : InStep code s core v) (hhalt : s.halted = true) : core.exits := by
  have htrue := h.halted_eq.trans hhalt
  rcases flushes_or_exits_or_commits core with hf | hx | hc
  · rw [interpretWb_of_flushes hf] at htrue
    cases htrue
  · exact hx
  · rw [interpretWb_of_commits hc] at htrue
    cases htrue

/-- MEM does not fault when the machine does not. -/
lemma Carried.memStep (h : Carried code x n hw k s core v) (hlaw : SingleCycle.Lawful code x n)
    (hstep : s.halted = false → ∃ s' mem', s.step hw.mmu = .ok (s', mem'))
    (hlast : core.exits → (interpretMem core hw.mmu).isOk = true) :
    ∃ e readData bad mem', MemStep (interpretWb core).1 hw.mmu e readData bad mem' := by
  have hpipe := h.sim.pipeOk.wb
  obtain ⟨hold, hreg⟩ := hlaw k h.ticks_le s hw.mmu h.run_eq
  cases hhalt : s.halted with
  | true =>
    have hx := h.sim.exits hhalt
    have hok := hlast hx
    rw [interpretWb_of_exits hx]
    cases hm : interpretMem core hw.mmu with
    | error f =>
      rw [hm] at hok
      cases hok
    | ok r =>
      obtain ⟨e, readData, bad, hs, -⟩ := interpretMem_cases hm
      exact ⟨e, readData, bad, r.2, hs⟩
  | false =>
    cases hex : v.ex with
    | false =>
      have hnop := ((h.sim.flight hhalt).ex_nop hex).1
      obtain ⟨hr, hw'⟩ := ExMem.no_access hpipe.exMem_ok hnop
      exact ⟨_, _, _, _, .plain (hpipe.exMem_nop hnop) hr hw'⟩
    | true =>
      obtain ⟨s', mem', hs⟩ := hstep hhalt
      obtain ⟨e, readData, bad, hmem⟩ :=
        h.sim.memStep_of_instruction hhalt hex (hreg hhalt) hold hs
      exact ⟨e, readData, bad, mem', hmem⟩

/-- The rounds of `run` that do not crash. -/
lemma Carried.runStep_iff (h : Carried code x n hw k s core v) (hlaw : SingleCycle.Lawful code x n)
    (hstep : s.halted = false → ∃ s' mem', s.step hw.mmu = .ok (s', mem')) (hs : hw.mmu.Silent) :
    (∃ hw', runStep hw = .ok hw') ↔ hw.Clear := by
  have hcores := h.mirrors.cores_eq
  have heq : interpretWb core = ((interpretWb core).1, (interpretWb core).2) := rfl
  have hpipe := h.sim.pipeOk.wb
  constructor
  · rintro ⟨hw', hrun⟩
    obtain ⟨hlog, htick⟩ := (runStep_eq_ok hcores hs).mp hrun
    rw [h.hw_eq] at htick
    obtain ⟨core', mem', fin, htick, -⟩ := tick_one_eq_ok.mp htick
    obtain ⟨e, readData, bad, mem₁, inst, hmem, hread, -, -⟩ :=
      (tickCore_eq_ok heq hpipe.ifId_exception hpipe.idEx_exception).mp htick
    intro c hc
    rw [hcores, List.mem_singleton] at hc
    obtain rfl := hc
    refine ⟨hlog, ?_, fun hx => ?_⟩
    · rw [Core.interpretWb_redirect] at hread
      refine Mmu.Readable.sameUnit ⟨hs.sameUnit hmem.sameUnit _, ?_⟩ hmem.sameUnit.symm
      rw [hread]
      rfl
    · rw [interpretWb_of_exits hx] at hmem
      rw [interpretMem_eq_ok hmem]
      rfl
  · intro hclear
    obtain ⟨hlog, hfetch, hlast⟩ := hclear core (by rw [hcores]; exact List.mem_singleton_self core)
    obtain ⟨e, readData, bad, mem₁, hmem⟩ := h.memStep hlaw hstep hlast
    obtain ⟨inst, hinst⟩ := (hfetch.sameUnit hmem.sameUnit).read
    rw [← Core.interpretWb_redirect] at hinst
    have htick := (tickCore_eq_ok heq hpipe.ifId_exception hpipe.idEx_exception).mpr
      ⟨e, readData, bad, mem₁, inst, hmem, hinst, rfl, rfl⟩
    have hgo := (@tick_one_eq_ok core hw.mmu false _).mpr ⟨_, _, _, htick, rfl⟩
    rw [← h.hw_eq] at hgo
    exact ⟨_, (runStep_eq_ok hcores hs).mpr ⟨hlog, hgo⟩⟩

end Tick

/-! ### Runs that come to their end -/

section Returns

variable {program : Option (List Byte)} {memsz k : ℕ} {entry : Word} {mem : Mmu} {code : Code}
  {s : SingleCycle} (hload : elfDump program 0 (initIo (mmuInit memsz)) = .ok (none, entry, mem))
  (hexit : SingleCycle.Exits (.start (bootRegs memsz) entry bootCp0, mem) k s)
  (hlaw : SingleCycle.Lawful code (.start (bootRegs memsz) entry bootCp0, mem)
    (SingleCycle.ticks code (.start (bootRegs memsz) entry bootCp0, mem) k))

include hload hexit hlaw

/-- Before the end of the run a round crashes exactly if one of the three accesses does. -/
lemma runStep_iff_clear {j : ℕ} {t : Hardware}
    (hj : j ≤ SingleCycle.ticks code (.start (bootRegs memsz) entry bootCp0, mem) k)
    (ht : iterate runStep j (.start (bootRegs memsz) entry bootCp0 mem) = .ok t) :
    (∃ t', runStep t = .ok t') ↔ t.Clear := by
  have hs := silent_of_boot (boot_one hload)
  have htick := iterate_tick_of_runStep hs ht
  have hquiet : ∀ i ≤ SingleCycle.ticks code (.start (bootRegs memsz) entry bootCp0, mem) k, ∀ u,
      iterate tick i (.start (bootRegs memsz) entry bootCp0 mem) = .ok u → u.QuietFetch :=
    fun _ _ _ hu => hs.quietFetch hu
  have hfin := notFinished_of_le (bootRegs_zero memsz) hexit hlaw hquiet hj htick
  obtain ⟨i, u, core, v, hc⟩ := carried_of_iterate (bootRegs_zero memsz) (hlaw.mono hj)
    (fun i hi => hquiet i (hi.le.trans hj)) htick hfin
  refine hc.runStep_iff (hlaw.mono hj) (fun hrun => ?_) (hs.sameUnit (iterate_tick_sameUnit htick))
  -- the machine has not come to its exit and does not fault before
  obtain ⟨mem', hs'⟩ := hexit.run_eq
  have hik : i < k := by
    apply Nat.lt_of_le_of_ne
    · exact (SingleCycle.ticks_mono _ _).le_iff_le.mp (hc.ticks_le.trans hj)
    · rintro rfl
      rw [hc.run_eq, Except.ok.injEq, Prod.mk.injEq] at hs'
      rw [hs'.1, hexit.halted] at hrun
      cases hrun
  obtain ⟨y, hy⟩ := iterate_of_le hs' (Nat.succ_le_of_lt hik)
  obtain ⟨z, hz, hstep⟩ := iterate_succ_eq_ok.mp hy
  obtain rfl := Except.ok.inj (hc.run_eq.symm.trans hz)
  exact ⟨y.1, y.2, hstep⟩

section Fuel

variable {fuel : ℕ}
  (hfuel : SingleCycle.ticks code (.start (bootRegs memsz) entry bootCp0, mem) k + 1 < fuel)

include hfuel

lemma clear_of_returns (h : simulate program 1 memsz fuel = .ok (some (s.regs regV1))) {j : ℕ}
    {t : Hardware} (hj : j ≤ SingleCycle.ticks code (.start (bootRegs memsz) entry bootCp0, mem) k)
    (ht : iterate runStep j (.start (bootRegs memsz) entry bootCp0 mem) = .ok t) : t.Clear := by
  rw [simulate_of_lt hload hexit hlaw hfuel] at h
  obtain ⟨hw, hend, -⟩ := map_eq_ok.mp h
  obtain ⟨t', ht'⟩ := iterate_of_le hend (Nat.succ_le_succ hj)
  obtain ⟨u, hu, hround⟩ := iterate_succ_eq_ok.mp ht'
  obtain rfl := Except.ok.inj (ht.symm.trans hu)
  exact (runStep_iff_clear hload hexit hlaw hj ht).mp ⟨t', hround⟩

lemma returns_of_clear (hclear : ∀ j ≤ SingleCycle.ticks code
      (.start (bootRegs memsz) entry bootCp0, mem) k, ∀ t,
      iterate runStep j (.start (bootRegs memsz) entry bootCp0 mem) = .ok t → t.Clear) :
    simulate program 1 memsz fuel = .ok (some (s.regs regV1)) := by
  have hrun : ∀ j ≤ SingleCycle.ticks code (.start (bootRegs memsz) entry bootCp0, mem) k + 1, ∃ t,
      iterate runStep j (.start (bootRegs memsz) entry bootCp0 mem) = .ok t := by
    intro j
    induction j with
    | zero => exact fun _ => ⟨_, rfl⟩
    | succ j ih =>
      intro hj
      obtain ⟨t, ht⟩ := ih (Nat.le_of_succ_le hj)
      have hle := Nat.le_of_succ_le_succ hj
      obtain ⟨t', ht'⟩ := (runStep_iff_clear hload hexit hlaw hle ht).mpr (hclear j hle t ht)
      exact ⟨t', iterate_succ_eq_ok.mpr ⟨t, ht, ht'⟩⟩
  obtain ⟨hw, hw'⟩ := hrun _ le_rfl
  rw [simulate_of_lt hload hexit hlaw hfuel, hw']
  rfl

/-- A run comes to its end if and only if in each of its rounds the word at the program counter and
the fetched word can be read, and in the last one the word behind the `SYSCALL` does no harm. Then
the result is the `$v1` of the machine without a pipeline. -/
theorem simulate_returns_iff :
    simulate program 1 memsz fuel = .ok (some (s.regs regV1)) ↔
      ∀ j ≤ SingleCycle.ticks code (.start (bootRegs memsz) entry bootCp0, mem) k, ∀ t,
        iterate runStep j (.start (bootRegs memsz) entry bootCp0 mem) = .ok t → t.Clear :=
  ⟨fun h _ hj _ ht => clear_of_returns hload hexit hlaw hfuel h hj ht,
    returns_of_clear hload hexit hlaw hfuel⟩

end Fuel

end Returns

lemma useText_clear : ∀ j ≤ 9, ∀ t, iterate runStep j
    (.start (bootRegs 1024) 0x80000000#32 bootCp0 (loadedMmu 1024 useText)) = .ok t → t.Clear := by
  intro j hj t ht
  interval_cases j <;> obtain rfl := Except.ok.inj ht
  all_goals decide

/-- No access of this program crashes. -/
theorem simulate_returns_iff_use :
    simulate (some (executable useText)) 1 1024 11 = .ok (some 0x78030000#32) := by
  obtain ⟨s, hexit, hv1⟩ := useStart_exits
  have hten : SingleCycle.ticks useCode useStart 5 < 10 := by
    rw [useStart_ticks]
    decide
  rw [← hv1]
  apply (simulate_returns_iff useText_loaded hexit (useStart_ticks ▸ useStart_lawful)
    (Nat.succ_lt_succ hten)).mpr
  rw [← useStart, useStart_ticks]
  exact useText_clear

end MipsSim
