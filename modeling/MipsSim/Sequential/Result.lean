import MipsSim.Sequential.Runs

/-!
# What the simulator returns

`simulate` with one core, from the file of a program to the value that it returns: unless the
simulator crashes, this is the value that the machine without a pipeline leaves in `$v1` when it
comes to its exit, after exactly the ticks that its instructions cost.
-/

namespace MipsSim

open Run

/-! ### The main loop and the clock -/

section Loop

variable {hw₀ hw hw' : Hardware} {n : ℕ}

/-- A round of `run` is a tick, given that the word at the program counter can be read. -/
lemma runStep_eq_ok {core : Core} {cores : List Core} (hcores : hw.cores = core :: cores)
    (hs : hw.mmu.Silent) :
    runStep hw = .ok hw' ↔ hw.mmu.Readable core.pc ∧ tick hw = .ok hw' := by
  unfold runStep
  rw [hcores]
  dsimp only
  constructor
  · intro h
    simp only [bind_eq_ok, Prod.exists] at h
    obtain ⟨e, inst, mem, hread, htick⟩ := h
    rw [mmuRead_of_called_nil (hs _) hread] at htick
    rw [← hcores] at htick
    refine ⟨⟨hs _, ?_⟩, htick⟩
    rw [hread]
    rfl
  · rintro ⟨hlog, htick⟩
    obtain ⟨x, hread⟩ := hlog.read
    rw [hread, ← hcores]
    exact htick

/-- What `run` reads for the log does nothing. -/
lemma tick_of_runStep (hs : hw.mmu.Silent) (h : runStep hw = .ok hw') : tick hw = .ok hw' := by
  cases hcores : hw.cores with
  | nil =>
    unfold runStep at h
    rw [hcores] at h
    cases h
  | cons core cores => exact ((runStep_eq_ok hcores hs).mp h).2

lemma iterate_tick_of_runStep (hs : hw₀.mmu.Silent) (h : iterate runStep n hw₀ = .ok hw) :
    iterate tick n hw₀ = .ok hw := by
  induction n generalizing hw with
  | zero => exact h
  | succ n ih =>
    obtain ⟨t, ht, hstep⟩ := iterate_succ_eq_ok.mp h
    have hrun := ih ht
    have hquiet := hs.sameUnit (iterate_tick_sameUnit hrun)
    exact iterate_succ_eq_ok.mpr ⟨t, hrun, tick_of_runStep hquiet hstep⟩

end Loop

/-! ### The result -/

section Result

variable {program : Option (List Byte)} {memsz k : ℕ} {entry : Word} {mem : Mmu} {code : Code}
  {s : SingleCycle}

/-- With one core everything is set up as `Hardware.start` has it. -/
lemma boot_one (hload : elfDump program 0 (initIo (mmuInit memsz)) = .ok (none, entry, mem)) :
    boot program 1 memsz = .ok (.start (bootRegs memsz) entry bootCp0 mem) :=
  boot_eq_ok.mpr ⟨0, entry, mem, rfl, hload, rfl⟩

lemma simulate_one (hload : elfDump program 0 (initIo (mmuInit memsz)) = .ok (none, entry, mem))
    (fuel : ℕ) : simulate program 1 memsz fuel =
      (Hardware.start (bootRegs memsz) entry bootCp0 mem).run fuel := by
  rw [simulate, boot_one hload]
  rfl

/-- There is no result as long as the run goes on. -/
lemma simulate_of_running {fuel : ℕ}
    (hload : elfDump program 0 (initIo (mmuInit memsz)) = .ok (none, entry, mem))
    (h : ∀ n < fuel, ∀ hw, iterate runStep n (.start (bootRegs memsz) entry bootCp0 mem) = .ok hw →
      hw.finished = false) :
    simulate program 1 memsz fuel =
      (iterate runStep fuel (.start (bootRegs memsz) entry bootCp0 mem)).map fun _ => none := by
  rw [simulate_one hload, Hardware.run, Hardware.runLoop, loopUntil_of_running h]
  cases iterate runStep fuel (.start (bootRegs memsz) entry bootCp0 mem) with
  | error e => rfl
  | ok hw => rfl

lemma bootRegs_zero (memsz : ℕ) : bootRegs memsz 0 = 0 := rfl

variable (hload : elfDump program 0 (initIo (mmuInit memsz)) = .ok (none, entry, mem))
  (hexit : SingleCycle.Exits (.start (bootRegs memsz) entry bootCp0, mem) k s)
  (hlaw : SingleCycle.Lawful code (.start (bootRegs memsz) entry bootCp0, mem)
    (SingleCycle.ticks code (.start (bootRegs memsz) entry bootCp0, mem) k))

include hload hexit hlaw

/-- The condition of the loop of `run`. -/
lemma finished_iff {n : ℕ} {hw : Hardware}
    (hn : n ≤ SingleCycle.ticks code (.start (bootRegs memsz) entry bootCp0, mem) k + 1)
    (hrun : iterate runStep n (.start (bootRegs memsz) entry bootCp0 mem) = .ok hw) :
    hw.finished = true ↔
      n = SingleCycle.ticks code (.start (bootRegs memsz) entry bootCp0, mem) k + 1 := by
  have hs := silent_of_boot (boot_one hload)
  have htick := iterate_tick_of_runStep hs hrun
  constructor
  · intro hfin
    by_contra hne
    have hnot := notFinished_of_le (bootRegs_zero memsz) hexit hlaw
      (fun _ _ _ ht => hs.quietFetch ht) (by omega) htick
    exact absurd (hnot.symm.trans hfin) (by decide)
  · rintro rfl
    exact (finished_of_exits (bootRegs_zero memsz) hexit hlaw (fun _ _ _ ht => hs.quietFetch ht)
      htick).1

/-- The result of a run that comes to its end. -/
lemma simulate_of_lt {fuel : ℕ}
    (hfuel : SingleCycle.ticks code (.start (bootRegs memsz) entry bootCp0, mem) k + 1 < fuel) :
    simulate program 1 memsz fuel =
      (iterate runStep (SingleCycle.ticks code (.start (bootRegs memsz) entry bootCp0, mem) k + 1)
        (.start (bootRegs memsz) entry bootCp0 mem)).map fun _ => some (s.regs regV1) := by
  rw [simulate_one hload, Hardware.run, Hardware.runLoop,
    loopUntil_of_lt (fun n hn hw hrun => finished_iff hload hexit hlaw hn hrun) hfuel]
  cases hrun : iterate runStep
      (SingleCycle.ticks code (.start (bootRegs memsz) entry bootCp0, mem) k + 1)
      (.start (bootRegs memsz) entry bootCp0 mem) with
  | error e => rfl
  | ok hw =>
    have hs := silent_of_boot (boot_one hload)
    obtain ⟨-, core, hcores, hregs, -⟩ := finished_of_exits (bootRegs_zero memsz) hexit hlaw
      (fun _ _ _ ht => hs.quietFetch ht) (iterate_tick_of_runStep hs hrun)
    have hresult : hw.result = .ok (s.regs regV1) := by rw [Hardware.result, hcores, ← hregs]
    show (hw.result >>= fun v1 => pure (some v1)) = .ok (some (s.regs regV1))
    rw [hresult]
    rfl

/-- A run that is not given the time. -/
lemma simulate_of_le {fuel : ℕ}
    (hfuel : fuel ≤ SingleCycle.ticks code (.start (bootRegs memsz) entry bootCp0, mem) k + 1) :
    simulate program 1 memsz fuel =
      (iterate runStep fuel (.start (bootRegs memsz) entry bootCp0 mem)).map fun _ => none := by
  refine simulate_of_running hload fun n hn hw hrun => ?_
  rw [← Bool.not_eq_true, finished_iff hload hexit hlaw (by omega) hrun]
  omega

/-- What `simulate` returns for a program that the machine without a pipeline leaves after `k`
instructions: the loop makes as many rounds as these cost ticks, and one more. Unless one of them
crashes, the result is the machine's `$v1`. -/
theorem simulate_of_exits :
    (∀ fuel, SingleCycle.ticks code (.start (bootRegs memsz) entry bootCp0, mem) k + 1 < fuel →
      simulate program 1 memsz fuel =
        (iterate runStep (SingleCycle.ticks code (.start (bootRegs memsz) entry bootCp0, mem) k + 1)
          (.start (bootRegs memsz) entry bootCp0 mem)).map fun _ => some (s.regs regV1)) ∧
    ∀ fuel ≤ SingleCycle.ticks code (.start (bootRegs memsz) entry bootCp0, mem) k + 1,
      simulate program 1 memsz fuel =
        (iterate runStep fuel (.start (bootRegs memsz) entry bootCp0 mem)).map fun _ => none :=
  ⟨fun _ hfuel => simulate_of_lt hload hexit hlaw hfuel,
    fun _ hfuel => simulate_of_le hload hexit hlaw hfuel⟩

end Result

/-! ### Programs that return -/

section Returns

variable {x : SingleCycle × Mmu} {k n : ℕ} {s : SingleCycle} {mem : Mmu}

/-- A machine that has left the program stays where it is. -/
lemma SingleCycle.iterate_of_halted (h : iterate SingleCycle.run k x = .ok (s, mem))
    (hhalt : s.halted = true) (hk : k ≤ n) : iterate SingleCycle.run n x = .ok (s, mem) := by
  induction n, hk using Nat.le_induction with
  | base => exact h
  | succ n _ ih => exact iterate_succ_eq_ok.mpr ⟨_, ih, if_pos hhalt⟩

/-- A machine that is found outside of the program has left it in some step. -/
lemma SingleCycle.exits_of_halted (h : iterate SingleCycle.run n x = .ok (s, mem))
    (hhalt : s.halted = true) : ∃ k ≤ n, SingleCycle.Exits x k s := by
  classical
  have hex : ∃ k t mem', iterate SingleCycle.run k x = .ok (t, mem') ∧ t.halted = true :=
    ⟨n, s, mem, h, hhalt⟩
  obtain ⟨t, mem', ht, hfirst⟩ := Nat.find_spec hex
  have hle := Nat.find_min' hex ⟨s, mem, h, hhalt⟩
  have hlast := SingleCycle.iterate_of_halted ht hfirst hle
  obtain ⟨rfl, rfl⟩ := Prod.mk.inj (Except.ok.inj (hlast.symm.trans h))
  refine ⟨Nat.find hex, hle, ⟨_, ht⟩, hhalt, fun j hj u mem'' hu => ?_⟩
  by_contra hne
  exact Nat.find_min hex hj ⟨u, mem'', hu, by simpa using hne⟩

/-- What comes after the exit does not matter. -/
lemma SingleCycle.Exits.lawful {code : Code} (h : SingleCycle.Exits x k s)
    (hlaw : SingleCycle.Lawful code x (SingleCycle.ticks code x k)) (n : ℕ) :
    SingleCycle.Lawful code x n := by
  intro j _ t mem' ht
  have hmono := (SingleCycle.ticks_mono code x).monotone
  rcases Nat.le_total j k with hjk | hkj
  · exact hlaw j (hmono hjk) t mem' ht
  · obtain ⟨mem, hs⟩ := h.run_eq
    have hlast := SingleCycle.iterate_of_halted hs h.halted hkj
    obtain ⟨rfl, rfl⟩ := Prod.mk.inj (Except.ok.inj (hlast.symm.trans ht))
    exact hlaw k le_rfl _ _ hs

end Returns

/-- What a run returns is what the machine without a pipeline leaves in `$v1` when it leaves the
program. -/
lemma exits_of_run {code : Code} {regs cp0 : ℕ → Word} {pc v : Word} {mem : Mmu} {fuel : ℕ}
    (hzero : regs 0 = 0) (hs : mem.Silent)
    (hlaw : SingleCycle.Lawful code (.start regs pc cp0, mem) fuel)
    (h : (Hardware.start regs pc cp0 mem).run fuel = .ok (some v)) :
    ∃ k s, SingleCycle.Exits (.start regs pc cp0, mem) k s ∧ s.regs regV1 = v ∧
      SingleCycle.ticks code (.start regs pc cp0, mem) k + 1 < fuel := by
  simp only [Hardware.run, bind_eq_ok] at h
  obtain ⟨r, hloop, h⟩ := h
  cases r with
  | none => cases h
  | some hw =>
    simp only [bind_eq_ok, pure_eq_ok] at h
    obtain ⟨v1, hresult, hv⟩ := h
    obtain rfl := Option.some.inj hv
    obtain ⟨n, hn, hrun, hdone, hgoing⟩ := iterate_of_loopUntil hloop
    cases n with
    | zero =>
      obtain rfl := Except.ok.inj hrun
      cases hdone
    | succ n =>
      obtain ⟨t, ht, htick⟩ := iterate_succ_eq_ok.mp (iterate_tick_of_runStep hs hrun)
      have hle : n ≤ fuel := (Nat.le_succ n).trans hn.le
      obtain ⟨t', ht', -⟩ := iterate_succ_eq_ok.mp hrun
      obtain rfl := Except.ok.inj (ht.symm.trans (iterate_tick_of_runStep hs ht'))
      obtain ⟨m, s, core, v, hc⟩ := carried_of_iterate hzero (hlaw.mono hle)
        (fun _ _ _ hu => hs.quietFetch hu) ht (hgoing n (Nat.lt_succ_self n) t ht')
      obtain ⟨⟨core', hcores, hregs, -⟩, hfin⟩ := hc.outcome htick
      have hhalt := hfin.symm.trans hdone
      obtain ⟨k, hk, hexit⟩ := SingleCycle.exits_of_halted hc.run_eq hhalt
      refine ⟨k, s, hexit, ?_, ?_⟩
      · rw [Hardware.result, hcores] at hresult
        rw [← hregs]
        exact Except.ok.inj hresult
      · have hmono := (SingleCycle.ticks_mono code (.start regs pc cp0, mem)).monotone hk
        have heq := hc.ticks_eq hhalt
        omega

lemma useText_loaded : elfDump (some (executable useText)) 0 (initIo (mmuInit 1024)) =
    .ok (none, 0x80000000#32, loadedMmu 1024 useText) := by
  rw [initIo_mmuInit]
  rfl

lemma useStart_exits : ∃ s, SingleCycle.Exits useStart 5 s ∧ s.regs regV1 = 0x78030000#32 := by
  refine ⟨_, ⟨⟨loadedMmu 1024 useText, rfl⟩, rfl, fun j hj t mem h => ?_⟩, rfl⟩
  interval_cases j <;> obtain ⟨rfl, rfl⟩ := Prod.mk.inj (Except.ok.inj h)
  all_goals rfl

/-- Ten rounds and an eleventh test: five instructions, the pipeline to be filled, and a bubble. -/
theorem simulate_of_exits_use :
    simulate (some (executable useText)) 1 1024 11 = .ok (some 0x78030000#32) ∧
      simulate (some (executable useText)) 1 1024 10 = .ok none := by
  obtain ⟨s, hexit, hv1⟩ := useStart_exits
  obtain ⟨hend, hgoing⟩ := simulate_of_exits useText_loaded hexit (useStart_ticks ▸ useStart_lawful)
  obtain ⟨hw, hrun⟩ : ∃ hw, iterate runStep 10 (.start (bootRegs 1024) 0x80000000#32 bootCp0
      (loadedMmu 1024 useText)) = .ok hw := ⟨_, rfl⟩
  constructor
  · have hten : SingleCycle.ticks useCode useStart 5 + 1 = 10 := by rw [useStart_ticks]
    have hresult := hend 11 (by rw [← useStart, hten]; decide)
    rw [← useStart, hten, hrun, hv1] at hresult
    exact hresult
  · have hresult := hgoing 10 (by rw [← useStart, useStart_ticks])
    rw [hrun] at hresult
    exact hresult

/-- `simulate` returns nothing else: if it returns, the machine without a pipeline leaves the program
at some point, with the result in `$v1`, and the ticks that this takes have passed. -/
theorem exits_of_simulate {program : Option (List Byte)} {memsz fuel : ℕ} {entry v : Word} {mem : Mmu}
    {code : Code} (hload : elfDump program 0 (initIo (mmuInit memsz)) = .ok (none, entry, mem))
    (hlaw : SingleCycle.Lawful code (.start (bootRegs memsz) entry bootCp0, mem) fuel)
    (h : simulate program 1 memsz fuel = .ok (some v)) :
    ∃ k s, SingleCycle.Exits (.start (bootRegs memsz) entry bootCp0, mem) k s ∧
      s.regs regV1 = v ∧
      SingleCycle.ticks code (.start (bootRegs memsz) entry bootCp0, mem) k + 1 < fuel := by
  rw [simulate_one hload] at h
  exact exits_of_run (bootRegs_zero memsz) (silent_of_boot (boot_one hload)) hlaw h

/-- The other way around for the same program. -/
theorem exits_of_simulate_use : ∃ k s, SingleCycle.Exits useStart k s ∧
    s.regs regV1 = 0x78030000#32 ∧ SingleCycle.ticks useCode useStart k + 1 < 11 := by
  obtain ⟨s, hexit, hv1⟩ := useStart_exits
  have hlaw : SingleCycle.Lawful useCode useStart (SingleCycle.ticks useCode useStart 5) :=
    useStart_ticks ▸ useStart_lawful
  have hten : SingleCycle.ticks useCode useStart 5 + 1 = 10 := by rw [useStart_ticks]
  obtain ⟨hw, hrun⟩ : ∃ hw, iterate runStep 10 (.start (bootRegs 1024) 0x80000000#32 bootCp0
      (loadedMmu 1024 useText)) = .ok hw := ⟨_, rfl⟩
  have hresult := @simulate_of_lt _ _ _ _ _ _ _ useText_loaded hexit hlaw 11
    (by rw [← useStart, hten]; decide)
  rw [← useStart, hten, hrun, hv1] at hresult
  exact exits_of_simulate useText_loaded (hexit.lawful hlaw 11) hresult

end MipsSim
