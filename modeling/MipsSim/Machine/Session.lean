import MipsSim.Machine.Console

/-!
# Sessions

What `simulate` returns with the debugger or the log, for a run that comes to no word without a
name: with nobody at the terminal it is what it returns without them, and an input that ends behind
a command for which the debugger asks for the next one leaves it asking forever.
-/

namespace MipsSim

open Run Relation

/-! ### The results of runs -/

section Results

variable {v : Word}

lemma Hardware.run_eq_some {hw : Hardware} {fuel : ℕ} : hw.run fuel = .ok (some v) ↔
    ∃ hw', hw.runLoop fuel = .ok (some hw') ∧ hw'.result = .ok v := by
  constructor
  · intro h
    obtain ⟨_ | hw', hloop, h⟩ := bind_eq_ok.mp h
    · cases h
    · obtain ⟨v', hv, h⟩ := bind_eq_ok.mp h
      obtain rfl := Option.some.inj (Except.ok.inj h)
      exact ⟨hw', hloop, hv⟩
  · rintro ⟨hw', hloop, hv⟩
    exact bind_eq_ok.mpr ⟨some hw', hloop, bind_eq_ok.mpr ⟨v, hv, rfl⟩⟩

lemma Hardware.exists_run_iff {hw : Hardware} : (∃ fuel, hw.run fuel = .ok (some v)) ↔
    ∃ hw', ReflTransGen Hardware.Round hw hw' ∧ hw'.finished = true ∧ hw'.result = .ok v := by
  constructor
  · rintro ⟨fuel, h⟩
    obtain ⟨hw', hloop, hv⟩ := Hardware.run_eq_some.mp h
    obtain ⟨hstar, hfin⟩ := star_of_loopUntil hloop
    exact ⟨hw', hstar, hfin, hv⟩
  · rintro ⟨hw', hstar, hfin, hv⟩
    obtain ⟨fuel, hloop⟩ := exists_loopUntil_iff.mpr ⟨hstar, hfin⟩
    exact ⟨fuel, Hardware.run_eq_some.mpr ⟨hw', hloop, hv⟩⟩

lemma Simulator.exists_run_iff {term : Terminal} {sim : Simulator} :
    (∃ fuel, sim.run term fuel = .ok (some v)) ↔
      ∃ sim', ReflTransGen (Simulator.Round term) sim sim' ∧ sim'.done = true ∧
        sim'.hw.result = .ok v := by
  constructor
  · rintro ⟨fuel, h⟩
    obtain ⟨_ | sim', hloop, h⟩ := bind_eq_ok.mp h
    · cases h
    · obtain ⟨v', hv, h⟩ := bind_eq_ok.mp h
      obtain rfl := Option.some.inj (Except.ok.inj h)
      obtain ⟨hstar, hdone⟩ := star_of_loopUntil hloop
      exact ⟨sim', hstar, hdone, hv⟩
  · rintro ⟨sim', hstar, hdone, hv⟩
    obtain ⟨fuel, hloop⟩ := exists_loopUntil_iff.mpr ⟨hstar, hdone⟩
    exact ⟨fuel, bind_eq_ok.mpr ⟨some sim', hloop, bind_eq_ok.mpr ⟨v, hv, rfl⟩⟩⟩

end Results

/-! ### Nobody at the terminal -/

/-- An input of Returns leads out of the debugger each time, at its end, too. -/
lemma fgets_of_returns {stdin : List Char} (h : ∀ a ∈ stdin, a = '\n') :
    Command.ofBuffer (fgets [] stdin).1 = .step ∧ ∀ a ∈ (fgets [] stdin).2, a = '\n' := by
  match stdin, h with
  | [], _ => exact ⟨rfl, nofun⟩
  | [a], h =>
    obtain rfl := h a List.mem_cons_self
    exact ⟨rfl, nofun⟩
  | a :: b :: rest, h =>
    obtain rfl := h a List.mem_cons_self
    exact ⟨rfl, fun x hx => h x (List.mem_cons_of_mem _ hx)⟩

section Round

variable {hw hw' : Hardware} {inst : Word} {logging : Bool}

lemma cores_of_tick {core : Core} {cores : List Core} (hcores : hw.cores = core :: cores)
    (h : tick hw = .ok hw') : ∃ core' cores', hw'.cores = core' :: cores' := by
  unfold tick at h
  rw [hcores] at h
  obtain ⟨⟨cores', mem, fin⟩, hticks, h⟩ := bind_eq_ok.mp h
  obtain ⟨core₁, -, -, cores₁, -, -, -, rfl, -⟩ := tickCores_cons_eq_ok.mp hticks
  obtain rfl := Except.ok.inj h
  exact ⟨core₁, cores₁, rfl⟩

/-- A line can be written for the words with a name. -/
lemma logLines_iff {core : Core} {cores : List Core} (hcores : hw.cores = core :: cores) :
    (∃ lines, logLines logging inst hw = .ok lines) ↔ (logging = true → Named inst) := by
  cases logging with
  | false => exact iff_of_true ⟨[], rfl⟩ nofun
  | true =>
    simp only [logLines, logLine, hcores, if_true, bind_eq_ok, pure_eq_ok, forall_const]
    rw [← @instructionString_iff_named inst core]
    constructor
    · rintro ⟨_, _, ⟨text, htext, -⟩, -⟩
      exact ⟨text, htext⟩
    · rintro ⟨text, htext⟩
      exact ⟨_, _, ⟨text, htext, rfl⟩, rfl⟩

/-- A round from the tick on. -/
lemma execute_iff {sim : Simulator} (hs : sim.hw.mmu.Silent) (hnext : sim.hw.Next inst) :
    (∃ sim', sim.execute inst = .ok sim' ∧ sim'.hw = hw') ↔
      runStep sim.hw = .ok hw' ∧ (sim.logging = true → Named inst) := by
  obtain ⟨core, cores, -, hcores, -⟩ := id hnext
  constructor
  · rintro ⟨sim', he, rfl⟩
    obtain ⟨hw', lines, htick, hlog, rfl⟩ := execute_eq_ok.mp he
    obtain ⟨core', cores', hcores'⟩ := cores_of_tick hcores htick
    refine ⟨(runStep_iff_next hs).mpr ⟨⟨inst, hnext⟩, htick⟩, ?_⟩
    exact (logLines_iff hcores').mp ⟨lines, hlog⟩
  · rintro ⟨hrun, hnamed⟩
    have htick := ((runStep_iff_next hs).mp hrun).2
    obtain ⟨core', cores', hcores'⟩ := cores_of_tick hcores htick
    obtain ⟨lines, hlog⟩ := (logLines_iff hcores').mpr hnamed
    exact ⟨_, execute_eq_ok.mpr ⟨hw', lines, htick, hlog, rfl⟩, rfl⟩

end Round

/-- The word at the program counter has a name. -/
def Hardware.Shown (hw : Hardware) : Prop := ∀ inst, hw.Next inst → Named inst

lemma Hardware.Next.shown {hw : Hardware} {inst : Word} (h : hw.Next inst) (hnamed : Named inst) :
    hw.Shown := by
  intro inst' h'
  rw [h'.unique h]
  exact hnamed

/-- The simulator with nobody at the terminal, and the hardware without debugger and log. -/
structure Simulator.Unattended (debug logging : Bool) (sim : Simulator) (hw : Hardware) :
    Prop where
  hw_eq : sim.hw = hw
  debug_eq : sim.debug = debug
  logging_eq : sim.logging = logging
  finished_eq : sim.finished = false
  quiet : hw.mmu.Silent
  returns : ∀ a ∈ sim.stdin, a = '\n'
  prompt : ∀ inst c, sim.prompt = some (inst, c) →
    debug = true ∧ c = [] ∧ hw.finished = false ∧ hw.Next inst ∧ Named inst

section Unattended

variable {debug logging : Bool} {sim sim' : Simulator} {hw hw' : Hardware} {term : Terminal}
  {inst : Word} {c : List Char}

lemma Simulator.Unattended.done_eq (h : sim.Unattended debug logging hw)
    (hp : sim.prompt = none) : sim.done = hw.finished := by
  rw [Simulator.done, hp, h.finished_eq, h.hw_eq, Option.isNone_none, Bool.true_and, Bool.or_false]

/-- The tick on both sides. -/
lemma Simulator.Unattended.execute (h : sim.Unattended debug logging hw)
    (he : sim.execute inst = .ok sim') : sim'.Unattended debug logging sim'.hw := by
  obtain ⟨hw', lines, htick, -, rfl⟩ := execute_eq_ok.mp he
  exact
    { hw_eq := rfl
      debug_eq := h.debug_eq
      logging_eq := h.logging_eq
      finished_eq := h.finished_eq
      quiet := silent_of_tick (h.hw_eq.symm ▸ h.quiet) htick
      returns := h.returns
      prompt := nofun }

lemma Simulator.Unattended.execute_iff (h : sim.Unattended debug logging hw)
    (hnext : hw.Next inst) : (∃ sim', sim.execute inst = .ok sim' ∧ sim'.hw = hw') ↔
      runStep hw = .ok hw' ∧ (logging = true → Named inst) := by
  obtain rfl := h.hw_eq
  rw [← h.logging_eq]
  exact MipsSim.execute_iff h.quiet hnext

/-- The debugger is left at once. -/
lemma Simulator.Unattended.command (h : sim.Unattended debug logging hw) (term : Terminal)
    (hp : sim.prompt = some (inst, c)) : ∃ left : Simulator,
      left.Unattended debug logging hw ∧ sim.command term inst c = left.execute inst := by
  obtain ⟨-, rfl, -, ⟨core, cores, -, hcores, -⟩, -⟩ := h.prompt inst c hp
  obtain ⟨hcmd, hrest⟩ := fgets_of_returns h.returns
  have hleft : { sim with stdin := (fgets [] sim.stdin).2, prompt := none }.Unattended
      debug logging hw := { h with returns := hrest, prompt := nofun }
  exact ⟨_, hleft, command_of_step (h.hw_eq ▸ hcores) hcmd⟩

/-- The prompt opens. -/
lemma Simulator.Unattended.open (h : sim.Unattended debug logging hw) (hd : sim.debug = true)
    (hgoing : hw.finished = false) (hnext : hw.Next inst) (hnamed : Named inst) :
    { sim with prompt := some (inst, []) }.Unattended debug logging hw := by
  refine { h with prompt := ?_ }
  rintro inst' c hc
  obtain ⟨rfl, rfl⟩ := Prod.mk.inj (Option.some.inj hc)
  exact ⟨h.debug_eq ▸ hd, rfl, hgoing, hnext, hnamed⟩

/-- A step of the simulator is a round without debugger and log, or leads to the prompt. -/
lemma Simulator.Unattended.step (h : sim.Unattended debug logging hw)
    (hround : Simulator.Round term sim sim') :
    ∃ hw', ReflTransGen Hardware.Round hw hw' ∧ sim'.Unattended debug logging hw' := by
  obtain ⟨hdone, hstep⟩ := hround
  unfold Simulator.step at hstep
  split at hstep
  · next hp =>
    rw [h.done_eq hp] at hdone
    obtain rfl := h.hw_eq
    obtain ⟨inst, hnext, ⟨hd, hnamed, rfl⟩ | ⟨-, he⟩⟩ := (fetch_eq_ok h.quiet).mp hstep
    · exact ⟨sim.hw, .refl, h.open hd hdone hnext hnamed⟩
    · obtain ⟨hrun, -⟩ := (h.execute_iff hnext).mp ⟨sim', he, rfl⟩
      exact ⟨sim'.hw, .single ⟨hdone, hrun⟩, h.execute he⟩
  · next inst c hp =>
    obtain ⟨-, -, hgoing, hnext, -⟩ := h.prompt inst c hp
    obtain ⟨left, hleft, hcmd⟩ := h.command term hp
    have he := hcmd.symm.trans hstep
    obtain ⟨hrun, -⟩ := (hleft.execute_iff hnext).mp ⟨sim', he, rfl⟩
    exact ⟨sim'.hw, .single ⟨hgoing, hrun⟩, hleft.execute he⟩

/-- A round is left from the prompt in one step. -/
lemma Simulator.Unattended.leave (h : sim.Unattended debug logging hw)
    (hp : sim.prompt = some (inst, c)) (hrun : runStep hw = .ok hw') :
    ∃ sim', Simulator.Round term sim sim' ∧ sim'.Unattended debug logging hw' := by
  obtain ⟨-, -, -, hnext, hnamed⟩ := h.prompt inst c hp
  obtain ⟨left, hleft, hcmd⟩ := h.command term hp
  obtain ⟨sim', he, rfl⟩ := (hleft.execute_iff hnext).mpr ⟨hrun, fun _ => hnamed⟩
  refine ⟨sim', ⟨by rw [Simulator.done, hp]; rfl, ?_⟩, hleft.execute he⟩
  rw [Simulator.step, hp]
  exact hcmd.trans he

/-- A round without debugger and log is one step of the simulator or two. -/
lemma Simulator.Unattended.follow (h : sim.Unattended debug logging hw)
    (hround : Hardware.Round hw hw') (hshown : debug = true ∨ logging = true → hw.Shown) :
    ∃ sim', ReflTransGen (Simulator.Round term) sim sim' ∧ sim'.Unattended debug logging hw' := by
  obtain ⟨hgoing, hrun⟩ := hround
  cases hp : sim.prompt with
  | some p =>
    obtain ⟨sim', hr, h'⟩ := h.leave hp hrun
    exact ⟨sim', .single hr, h'⟩
  | none =>
    have hdone : sim.done = false := (h.done_eq hp).trans hgoing
    have hstep : sim.step term = sim.fetch := by rw [Simulator.step, hp]
    obtain rfl := h.hw_eq
    obtain ⟨⟨inst, hnext⟩, -⟩ := (runStep_iff_next h.quiet).mp hrun
    cases hd : sim.debug with
    | true =>
      have hnamed := hshown (.inl (h.debug_eq ▸ hd)) inst hnext
      have hfetch : sim.fetch = .ok { sim with prompt := some (inst, []) } :=
        (fetch_eq_ok h.quiet).mpr ⟨inst, hnext, .inl ⟨hd, hnamed, rfl⟩⟩
      obtain ⟨sim', hr, h'⟩ := (h.open hd hgoing hnext hnamed).leave rfl hrun
      exact ⟨sim', .head ⟨hdone, hstep.trans hfetch⟩ (.single hr), h'⟩
    | false =>
      have hnamed : logging = true → Named inst := fun hl => hshown (.inr hl) inst hnext
      obtain ⟨sim', he, rfl⟩ := (h.execute_iff hnext).mpr ⟨hrun, hnamed⟩
      have hfetch : sim.fetch = .ok sim' :=
        (fetch_eq_ok h.quiet).mpr ⟨inst, hnext, .inr ⟨hd, he⟩⟩
      exact ⟨sim', .single ⟨hdone, hstep.trans hfetch⟩, h.execute he⟩

end Unattended

section Boot

variable {program : Option (List Byte)} {cores memsz : ℕ} {hw₀ : Hardware} {term : Terminal}
  {debug logging : Bool} {stdin : List Char} {v : Word}

lemma simulate_eq_some {fuel : ℕ} : simulate program cores memsz fuel = .ok (some v) ↔
    ∃ hw₀, boot program cores memsz = .ok hw₀ ∧ hw₀.run fuel = .ok (some v) := bind_eq_ok

lemma exists_simulate_iff : (∃ fuel, simulate program cores memsz fuel = .ok (some v)) ↔
    ∃ hw₀, boot program cores memsz = .ok hw₀ ∧ ∃ fuel, hw₀.run fuel = .ok (some v) := by
  simp only [simulate_eq_some]
  exact exists_comm.trans (exists_congr fun _ => exists_and_left)

lemma exists_simulateWith_iff :
    (∃ fuel, simulateWith term debug logging stdin program cores memsz fuel = .ok (some v)) ↔
      ∃ hw₀, boot program cores memsz = .ok hw₀ ∧
        ∃ fuel, (Simulator.start hw₀ debug logging stdin).run term fuel = .ok (some v) := by
  simp only [simulateWith, bind_eq_ok]
  exact exists_comm.trans (exists_congr fun _ => exists_and_left)

/-- The words that the runs of a program come to before their ends all have a name. -/
def AllShown (program : Option (List Byte)) (cores memsz : ℕ) : Prop :=
  ∀ hw₀ hw, boot program cores memsz = .ok hw₀ → ReflTransGen Hardware.Round hw₀ hw →
    hw.finished = false → hw.Shown

/-- A run that is over has come to the words of its rounds. -/
lemma allShown_of_iterate {n : ℕ} {hw : Hardware} (hboot : boot program cores memsz = .ok hw₀)
    (hrun : iterate runStep n hw₀ = .ok hw) (hfin : hw.finished = true)
    (hshown : ∀ k < n, ∀ t, iterate runStep k hw₀ = .ok t → t.Shown) :
    AllShown program cores memsz := by
  intro hw₁ t hboot₁ ht hgoing
  obtain rfl := Except.ok.inj (hboot.symm.trans hboot₁)
  obtain ⟨k, hk, hiter⟩ := exists_iterate_of_star hrun hfin ht
  refine hshown k (lt_of_le_of_ne hk ?_) t hiter
  rintro rfl
  obtain rfl := Except.ok.inj (hrun.symm.trans hiter)
  rw [hfin] at hgoing
  cases hgoing

lemma unattended_start (hs : hw₀.mmu.Silent) (hreturns : ∀ a ∈ stdin, a = '\n') :
    (Simulator.start hw₀ debug logging stdin).Unattended debug logging hw₀ :=
  ⟨rfl, rfl, rfl, rfl, hs, hreturns, nofun⟩

/-- With nobody at the terminal, `simulate` returns with the debugger or the log what it returns
without them, for a program whose words can be shown if there is something to show. -/
theorem simulateWith_of_returns (term : Terminal) (debug logging : Bool) (stdin : List Char)
    (program : Option (List Byte)) (cores memsz : ℕ) (v : Word)
    (hreturns : ∀ a ∈ stdin, a = '\n')
    (hshown : debug = true ∨ logging = true → AllShown program cores memsz) :
    (∃ fuel, simulateWith term debug logging stdin program cores memsz fuel = .ok (some v)) ↔
      ∃ fuel, simulate program cores memsz fuel = .ok (some v) := by
  rw [exists_simulateWith_iff, exists_simulate_iff]
  refine exists_congr fun hw₀ => and_congr_right fun hboot => ?_
  have hstart := @unattended_start hw₀ debug logging stdin (silent_of_boot hboot) hreturns
  rw [Simulator.exists_run_iff, Hardware.exists_run_iff]
  constructor
  · rintro ⟨sim, hrun, hdone, hv⟩
    obtain ⟨hw, hrounds, h⟩ := star_of_simulation (fun _ _ _ h => h.step) hstart hrun
    rw [Simulator.done, Bool.and_eq_true, Option.isNone_iff_eq_none] at hdone
    rw [h.finished_eq, h.hw_eq, Bool.or_false] at hdone
    exact ⟨hw, hrounds, hdone.2, h.hw_eq ▸ hv⟩
  · rintro ⟨hw, hrounds, hfin, hv⟩
    have hguarded := star_guarded (P := fun t => debug = true ∨ logging = true → t.Shown) hrounds
      fun t ht hgoing hflags => hshown hflags hw₀ t hboot ht hgoing
    obtain ⟨sim, hrun, h⟩ := star_of_simulation
      (R := fun hw (sim : Simulator) => sim.Unattended debug logging hw)
      (fun _ _ _ h hr => h.follow hr.1 hr.2) hstart hguarded
    have hp : sim.prompt = none := by
      cases hp : sim.prompt with
      | none => rfl
      | some p =>
        obtain ⟨-, -, hgoing, -⟩ := h.prompt p.1 p.2 hp
        exact absurd (hgoing.symm.trans hfin) Bool.false_ne_true
    exact ⟨sim, hrun, (h.done_eq hp).trans hfin, h.hw_eq.symm ▸ hv⟩

end Boot

/-- `ADDIU $2, $0, 10; SYSCALL`. -/
def exitText : List Byte := [0x24, 0x02, 0, 0x0A, 0, 0, 0, 0x0C]

/-- The state in which its run starts. -/
def exitStart : Hardware := .start (bootRegs 1024) 0x80000000#32 bootCp0 (loadedMmu 1024 exitText)

lemma exitText_loads : elfDump (some (executable exitText)) 0 (initIo (mmuInit 1024)) =
    .ok (none, 0x80000000#32, loadedMmu 1024 exitText) := by
  rw [initIo_mmuInit]
  rfl

/-- The words of its run: the two instructions, and zeros for the rounds that these take to WB. -/
lemma exitText_shown {k : ℕ} (hk : k < 6) {t : Hardware}
    (ht : iterate runStep k exitStart = .ok t) : t.Shown := by
  have hword : ∃ inst, t.Next inst ∧ Named inst := by
    interval_cases k
    case «0» =>
      obtain rfl := Except.ok.inj ht
      exact ⟨0x2402000A#32, ⟨_, _, _, rfl, rfl⟩, by decide⟩
    case «1» =>
      obtain rfl := Except.ok.inj ht
      exact ⟨0x0000000C#32, ⟨_, _, _, rfl, rfl⟩, by decide⟩
    all_goals
      obtain rfl := Except.ok.inj ht
      exact ⟨0#32, ⟨_, _, _, rfl, rfl⟩, by decide⟩
  obtain ⟨inst, hnext, hnamed⟩ := hword
  exact hnext.shown hnamed

lemma exitText_allShown : AllShown (some (executable exitText)) 1 1024 := by
  obtain ⟨hw, hrun, hfin⟩ : ∃ hw, iterate runStep 6 exitStart = .ok hw ∧ hw.finished = true :=
    ⟨_, rfl, rfl⟩
  exact allShown_of_iterate (boot_one exitText_loads) hrun hfin fun k hk t => exitText_shown hk

lemma exitText_returns : simulate (some (executable exitText)) 1 1024 7 = .ok (some 0) := by
  rw [simulate_one exitText_loads]
  rfl

/-- With the debugger and the log, too, the program returns 0. -/
theorem simulateWith_of_returns_exit :
    ∃ fuel, simulateWith idleTerminal true true ['\n', '\n'] (some (executable exitText)) 1 1024
      fuel = .ok (some 0) :=
  (simulateWith_of_returns idleTerminal true true ['\n', '\n'] (some (executable exitText)) 1 1024 0
    (by simp) fun _ => exitText_allShown).mpr ⟨7, exitText_returns⟩

/-! ### Sessions that do not end -/

/-- The debugger asks for the next command. For `m` this depends on what is typed behind it. -/
def Command.asks : Command → Bool
  | .memory | .quit | .step => false
  | _ => true

/-- The commands of an input. -/
def commands : List Char → List Command
  | [] => []
  | [a] => [.ofBuffer [a]]
  | a :: b :: rest =>
    if a = '\n' then .ofBuffer [a] :: commands (b :: rest) else .ofBuffer [a, b] :: commands rest

lemma commands_cons (c : List Char) {stdin : List Char} (h : stdin ≠ []) :
    commands stdin =
      Command.ofBuffer (fgets c stdin).1 :: commands (fgets c stdin).2 := by
  match stdin, h with
  | [a], _ => rfl
  | a :: b :: rest, _ =>
    rw [commands, fgets]
    split_ifs <;> rfl

/-- The input ends before the debugger is left. -/
structure Simulator.Stuck (sim : Simulator) : Prop where
  prompt : ∃ inst c, sim.prompt = some (inst, c) ∧
    (sim.stdin = [] → (Command.ofBuffer c).asks = true)
  asks : ∀ cmd ∈ commands sim.stdin, cmd.asks = true

section Stuck

variable {sim sim' : Simulator} {term : Terminal} {inst : Word} {c : List Char}

/-- The debugger goes on. -/
lemma command_of_asks (hcmd : (Command.ofBuffer (fgets c sim.stdin).1).asks = true)
    (h : sim.command term inst c = .ok sim') :
    (∀ cmd, Command.ofBuffer (fgets c sim.stdin).1 = cmd → cmd ≠ .resume → sim'.debug = sim.debug) ∧
    sim'.hw = sim.hw ∧ sim'.finished = sim.finished ∧ sim'.stdin = (fgets c sim.stdin).2 ∧
      sim'.prompt = some (inst, (fgets c sim.stdin).1) := by
  unfold Simulator.command at h
  dsimp only at h
  split at h
  · cases h
  · generalize Command.ofBuffer (fgets c sim.stdin).1 = cmd at *
    cases cmd with
    | memory | quit | step => cases hcmd
    | instruction =>
      obtain ⟨u, -, h⟩ := bind_eq_ok.mp h
      obtain rfl := Except.ok.inj h
      exact ⟨fun _ _ _ => rfl, rfl, rfl, rfl, rfl⟩
    | resume =>
      obtain rfl := Except.ok.inj h
      exact ⟨fun _ heq hne => absurd heq.symm hne, rfl, rfl, rfl, rfl⟩
    | _ =>
      obtain rfl := Except.ok.inj h
      exact ⟨fun _ _ _ => rfl, rfl, rfl, rfl, rfl⟩

lemma Simulator.Stuck.step (h : sim.Stuck) (hround : Simulator.Round term sim sim') :
    sim'.Stuck := by
  obtain ⟨inst, c, hp, hlast⟩ := h.prompt
  have hstep := hround.2
  rw [Simulator.step, hp] at hstep
  have hcmd : (Command.ofBuffer (fgets c sim.stdin).1).asks = true ∧
      ∀ cmd ∈ commands (fgets c sim.stdin).2, cmd.asks = true := by
    by_cases hnil : sim.stdin = []
    · rw [hnil]
      exact ⟨hlast hnil, nofun⟩
    · have hall := h.asks
      rw [commands_cons c hnil] at hall
      exact List.forall_mem_cons.mp hall
  obtain ⟨-, -, -, hstdin, hprompt⟩ := command_of_asks hcmd.1 hstep
  exact ⟨⟨inst, _, hprompt, fun _ => hcmd.1⟩, hstdin ▸ hcmd.2⟩

end Stuck

/-- The debugger is still on behind the command. -/
def Command.Keeps (cmd : Command) : Prop := cmd = .step ∨ cmd.asks = true ∧ cmd ≠ .resume

instance (cmd : Command) : Decidable cmd.Keeps := inferInstanceAs (Decidable (_ ∨ _))

/-- The debugger is on, and there are some commands left before the last ones. -/
structure Simulator.Session (last first : List Command) (sim : Simulator) : Prop where
  quiet : sim.hw.mmu.Silent
  debug_eq : sim.debug = true
  finished_eq : sim.finished = false
  commands : commands sim.stdin = first ++ last
  keeps : ∀ cmd ∈ first, cmd.Keeps
  prompt : ∀ inst c, sim.prompt = some (inst, c) →
    sim.hw.finished = false ∧ sim.hw.Next inst ∧ Named inst

section Session

variable {last first : List Command} {cmd : Command} {sim sim' : Simulator} {term : Terminal}
  {inst : Word} {c : List Char}

/-- The prompt opens. -/
lemma Simulator.Session.open (h : sim.Session last first) (hgoing : sim.hw.finished = false)
    (hnext : sim.hw.Next inst) (hnamed : Named inst) :
    { sim with prompt := some (inst, []) }.Session last first := by
  refine { h with prompt := ?_ }
  rintro inst' c hc
  obtain ⟨rfl, -⟩ := Prod.mk.inj (Option.some.inj hc)
  exact ⟨hgoing, hnext, hnamed⟩

/-- The next command. -/
lemma Simulator.Session.cons_eq (h : sim.Session last first) (hne : last ≠ []) (c : List Char) :
    Command.ofBuffer (fgets c sim.stdin).1 :: MipsSim.commands (fgets c sim.stdin).2 =
      first ++ last := by
  rw [← h.commands]
  refine (commands_cons c fun hnil => ?_).symm
  have hcmds := h.commands
  rw [hnil] at hcmds
  exact hne (List.append_eq_nil_iff.mp hcmds.symm).2

/-- A step that is typed is a round. -/
lemma Simulator.Session.execute (h : sim.Session last (.step :: first)) (hne : last ≠ [])
    (hp : sim.prompt = some (inst, c)) (hstep : sim.command term inst c = .ok sim') :
    sim'.Session last first ∧ Hardware.Round sim.hw sim'.hw := by
  obtain ⟨hgoing, hnext, -⟩ := h.prompt inst c hp
  obtain ⟨hcmd, hrest⟩ := List.cons.inj (h.cons_eq hne c)
  obtain ⟨core, cores, -, hcores, -⟩ := id hnext
  rw [command_of_step hcores hcmd] at hstep
  obtain ⟨hw, lines, htick, -, rfl⟩ := execute_eq_ok.mp hstep
  refine ⟨?_, hgoing, (runStep_iff_next h.quiet).mpr ⟨⟨inst, hnext⟩, htick⟩⟩
  exact
    { quiet := silent_of_tick h.quiet htick
      debug_eq := h.debug_eq
      finished_eq := h.finished_eq
      commands := hrest
      keeps := (List.forall_mem_cons.mp h.keeps).2
      prompt := nofun }

/-- Any other command leads back to the prompt. -/
lemma Simulator.Session.ask (h : sim.Session last (cmd :: first)) (hne : last ≠ [])
    (hp : sim.prompt = some (inst, c)) (hasks : cmd.asks = true) (hresume : cmd ≠ .resume)
    (hstep : sim.command term inst c = .ok sim') :
    sim'.Session last first ∧ sim'.hw = sim.hw ∧ ∃ c', sim'.prompt = some (inst, c') := by
  obtain ⟨hcmd, hrest⟩ := List.cons.inj (h.cons_eq hne c)
  obtain ⟨hdebug, hhw, hfin, hstdin, hprompt⟩ := command_of_asks (hcmd ▸ hasks) hstep
  refine ⟨?_, hhw, _, hprompt⟩
  exact
    { quiet := hhw ▸ h.quiet
      debug_eq := (hdebug cmd hcmd hresume).trans h.debug_eq
      finished_eq := hfin.trans h.finished_eq
      commands := hstdin ▸ hrest
      keeps := (List.forall_mem_cons.mp h.keeps).2
      prompt := by
        rintro inst' c' hc
        obtain ⟨rfl, -⟩ := Prod.mk.inj (Option.some.inj (hprompt.symm.trans hc))
        exact hhw ▸ h.prompt inst c hp }

/-- A step of the simulator leads on in the session, or behind the last commands that leave the
debugger. -/
lemma Simulator.Session.step (h : sim.Session last first) (hne : last ≠ [])
    (hlast : ∀ cmd ∈ last, cmd.asks = true) (hround : Simulator.Round term sim sim') :
    (∃ first', sim'.Session last first' ∧
      (sim'.hw = sim.hw ∧ first'.count .step = first.count .step ∨
        Hardware.Round sim.hw sim'.hw ∧ first'.count .step + 1 = first.count .step)) ∨
      sim'.Stuck := by
  obtain ⟨hdone, hstep⟩ := hround
  unfold Simulator.step at hstep
  split at hstep
  · next hp =>
    rw [Simulator.done, hp, h.finished_eq, Bool.or_false] at hdone
    obtain ⟨inst, hnext, ⟨-, hnamed, rfl⟩ | ⟨hd, -⟩⟩ := (fetch_eq_ok h.quiet).mp hstep
    · exact .inl ⟨first, h.open hdone hnext hnamed, .inl ⟨rfl, rfl⟩⟩
    · rw [h.debug_eq] at hd
      cases hd
  · next inst c hp =>
    cases first with
    | nil =>
      -- the debugger is not left any more
      have hcmds := h.cons_eq hne c
      rw [List.nil_append] at hcmds
      rw [← hcmds] at hlast
      obtain ⟨hcmd, hrest⟩ := List.forall_mem_cons.mp hlast
      obtain ⟨-, -, -, hstdin, hprompt⟩ := command_of_asks hcmd hstep
      exact .inr ⟨⟨inst, _, hprompt, fun _ => hcmd⟩, hstdin ▸ hrest⟩
    | cons cmd first =>
      rcases (List.forall_mem_cons.mp h.keeps).1 with rfl | ⟨hasks, hresume⟩
      · obtain ⟨h', hrun⟩ := h.execute hne hp hstep
        exact .inl ⟨first, h', .inr ⟨hrun, List.count_cons_self.symm⟩⟩
      · obtain ⟨h', hhw, -⟩ := h.ask hne hp hasks hresume hstep
        have hcmd : cmd ≠ .step := by
          rintro rfl
          cases hasks
        exact .inl ⟨first, h', .inl ⟨hhw, (List.count_cons_of_ne hcmd).symm⟩⟩

/-- The loop without debugger and log comes from the hardware of the session to what it comes to
from the start, with a test for each step that is still to be typed. -/
def Simulator.Tracks (hw₀ : Hardware) (n : ℕ) (last : List Command) (sim : Simulator) : Prop :=
  ∃ rest, sim.Session last rest ∧
    hw₀.runLoop (n + 1) = sim.hw.runLoop (rest.count .step + 1)

lemma Simulator.Tracks.step {hw₀ : Hardware} {n : ℕ} (h : sim.Tracks hw₀ n last) (hne : last ≠ [])
    (hlast : ∀ cmd ∈ last, cmd.asks = true) (hround : Simulator.Round term sim sim') :
    sim'.Tracks hw₀ n last ∨ sim'.Stuck := by
  obtain ⟨rest, hsession, hloop⟩ := h
  rcases hsession.step hne hlast hround with
    ⟨rest', h', ⟨hhw, hcount⟩ | ⟨hrun, hcount⟩⟩ | h'
  · refine .inl ⟨rest', h', ?_⟩
    rw [hloop, hhw, hcount]
  · refine .inl ⟨rest', h', ?_⟩
    rw [hloop, ← hcount]
    exact hrun.loopUntil_succ _
  · exact .inr h'

/-- A session that is through has come to the end of the run in as many rounds as steps were
typed, or in fewer. -/
lemma Simulator.Session.run_of_done (h : sim.Session last first) (hne : last ≠ [])
    (hlast : ∀ cmd ∈ last, cmd.asks = true) (hrun : ReflTransGen (Simulator.Round term) sim sim')
    (hdone : sim'.done = true) :
    sim.hw.runLoop (first.count .step + 1) = .ok (some sim'.hw) := by
  have hinv : sim'.Tracks sim.hw (first.count .step) last ∨ sim'.Stuck := by
    refine invariant_of_star
      (P := fun t : Simulator => t.Tracks sim.hw (first.count .step) last ∨ t.Stuck) ?_
      (.inl ⟨first, h, rfl⟩) hrun
    rintro t t' (ht | ht) hround
    · exact ht.step hne hlast hround
    · exact .inr (ht.step hround)
  rcases hinv with ⟨rest, hsession, hloop⟩ | hstuck
  · rw [Simulator.done, hsession.finished_eq, Bool.or_false, Bool.and_eq_true] at hdone
    exact hloop.trans (if_pos hdone.2)
  · obtain ⟨inst, c, hp, -⟩ := hstuck.prompt
    rw [Simulator.done, hp] at hdone
    cases hdone

/-- A command that asks for the next one does not fault, since its instruction was printed
before. -/
lemma command_ok_of_asks (hnext : sim.hw.Next inst) (hnamed : Named inst)
    (hasks : (Command.ofBuffer (fgets c sim.stdin).1).asks = true) :
    ∃ sim', sim.command term inst c = .ok sim' := by
  obtain ⟨core, cores, -, hcores, -⟩ := hnext
  unfold Simulator.command
  dsimp only
  rw [hcores]
  cases hcmd : Command.ofBuffer (fgets c sim.stdin).1 with
  | memory | quit | step =>
    rw [hcmd] at hasks
    cases hasks
  | instruction => exact ⟨_, bind_eq_ok.mpr ⟨(), printInstruction_iff_named.mpr hnamed, rfl⟩⟩
  | _ => exact ⟨_, rfl⟩

lemma Simulator.Session.done_eq (h : sim.Session last first) (hp : sim.prompt = none) :
    sim.done = sim.hw.finished := by
  rw [Simulator.done, hp, h.finished_eq, Option.isNone_none, Bool.true_and, Bool.or_false]

lemma done_of_prompt (hp : sim.prompt = some (inst, c)) : sim.done = false := by
  rw [Simulator.done, hp]
  rfl

/-- The prompt opens if the instruction can be printed. -/
lemma Simulator.Session.round_open (h : sim.Session last first) (term : Terminal)
    (hp : sim.prompt = none) (hgoing : sim.hw.finished = false) (hnext : sim.hw.Next inst)
    (hnamed : Named inst) :
    Simulator.Round term sim { sim with prompt := some (inst, []) } := by
  refine ⟨(h.done_eq hp).trans hgoing, ?_⟩
  rw [Simulator.step, hp]
  exact (fetch_eq_ok h.quiet).mpr ⟨inst, hnext, .inl ⟨h.debug_eq, hnamed, rfl⟩⟩

/-- A step can be typed if the round does not fault. -/
lemma Simulator.Session.exists_execute {hw : Hardware} (h : sim.Session last (.step :: first))
    (hne : last ≠ []) (term : Terminal) (hp : sim.prompt = some (inst, c))
    (hrun : runStep sim.hw = .ok hw) :
    ∃ sim', Simulator.Round term sim sim' ∧ sim'.Session last first ∧ sim'.hw = hw ∧
      sim'.prompt = none := by
  obtain ⟨-, hnext, hnamed⟩ := h.prompt inst c hp
  obtain ⟨core, cores, -, hcores, -⟩ := id hnext
  have hcmd := (List.cons.inj (h.cons_eq hne c)).1
  obtain ⟨sim', he, hhw⟩ := (@execute_iff hw inst
    { sim with stdin := (fgets c sim.stdin).2, prompt := none } h.quiet hnext).mpr
      ⟨hrun, fun _ => hnamed⟩
  have hfirst : sim.command term inst c = .ok sim' := (command_of_step hcores hcmd).trans he
  refine ⟨sim', ⟨done_of_prompt hp, ?_⟩, (h.execute hne hp hfirst).1, hhw, ?_⟩
  · rw [Simulator.step, hp]
    exact hfirst
  · obtain ⟨hw', lines, -, -, rfl⟩ := execute_eq_ok.mp he
    rfl

lemma Simulator.Session.exists_ask (h : sim.Session last (cmd :: first)) (hne : last ≠ [])
    (term : Terminal) (hp : sim.prompt = some (inst, c)) (hasks : cmd.asks = true)
    (hresume : cmd ≠ .resume) :
    ∃ sim', Simulator.Round term sim sim' ∧ sim'.Session last first ∧ sim'.hw = sim.hw ∧
      ∃ c', sim'.prompt = some (inst, c') := by
  obtain ⟨-, hnext, hnamed⟩ := h.prompt inst c hp
  have hcmd := (List.cons.inj (h.cons_eq hne c)).1
  obtain ⟨sim', hfirst⟩ := @command_ok_of_asks sim term inst c hnext hnamed (hcmd ▸ hasks)
  refine ⟨sim', ⟨done_of_prompt hp, ?_⟩, h.ask hne hp hasks hresume hfirst⟩
  rw [Simulator.step, hp]
  exact hfirst

/-- From the prompt on, the session comes to the end of the run if the steps suffice. -/
lemma Simulator.Session.follow {hw : Hardware} (h : sim.Session last first) (hne : last ≠ [])
    (hp : sim.prompt = some (inst, c))
    (hloop : sim.hw.runLoop (first.count .step + 1) = .ok (some hw))
    (hshown : ∀ t, ReflTransGen Hardware.Round sim.hw t → t.finished = false → t.Shown) :
    ∃ sim', ReflTransGen (Simulator.Round term) sim sim' ∧ sim'.done = true ∧ sim'.hw = hw := by
  induction first generalizing sim inst c with
  | nil =>
    obtain ⟨hw₁, -, hrest⟩ := exists_round_of_loopUntil (h.prompt inst c hp).1 hloop
    cases hrest
  | cons cmd first ih =>
    rcases (List.forall_mem_cons.mp h.keeps).1 with rfl | ⟨hasks, hresume⟩
    · rw [List.count_cons_self] at hloop
      obtain ⟨hw₁, hround, hrest⟩ := exists_round_of_loopUntil (h.prompt inst c hp).1 hloop
      obtain ⟨sim₁, hr₁, h₁, rfl, hp₁⟩ := h.exists_execute hne term hp hround.2
      cases hfin : sim₁.hw.finished with
      | true =>
        have hend := eq_of_star_of_done (star_of_loopUntil hrest).1 hfin
        exact ⟨sim₁, .single hr₁, (h₁.done_eq hp₁).trans hfin, hend.symm⟩
      | false =>
        obtain ⟨hw₂, hround₂, -⟩ := exists_round_of_loopUntil hfin hrest
        obtain ⟨⟨inst₂, hnext₂⟩, -⟩ := (runStep_iff_next h₁.quiet).mp hround₂.2
        have hnamed₂ := hshown sim₁.hw (.single hround) hfin inst₂ hnext₂
        obtain ⟨sim', hrun, hend⟩ := ih (h₁.open hfin hnext₂ hnamed₂) rfl hrest
          fun t ht => hshown t (.head hround ht)
        exact ⟨sim', .head hr₁ (.head (h₁.round_open term hp₁ hfin hnext₂ hnamed₂) hrun), hend⟩
    · have hcmd : cmd ≠ .step := by
        rintro rfl
        cases hasks
      rw [List.count_cons_of_ne hcmd] at hloop
      obtain ⟨sim₁, hr₁, h₁, hhw, c', hp₁⟩ := h.exists_ask hne term hp hasks hresume
      obtain ⟨sim', hrun, hend⟩ := ih h₁ hp₁ (hhw ▸ hloop) (hhw ▸ hshown)
      exact ⟨sim', .head hr₁ hrun, hend⟩

end Session

/-- An input that ends behind a command for which the debugger asks for the next one. The debugger
does not notice the end, so that `simulate` returns exactly if the run is over after as many rounds
as steps were typed, or after fewer. -/
theorem simulateWith_of_asks (term : Terminal) (logging : Bool) (stdin : List Char)
    (program : Option (List Byte)) (cores memsz : ℕ) (v : Word) {first last : List Command}
    (hcmds : commands stdin = first ++ last) (hkeeps : ∀ cmd ∈ first, cmd.Keeps)
    (hlast : ∀ cmd ∈ last, cmd.asks = true) (hne : last ≠ [])
    (hshown : AllShown program cores memsz) :
    (∃ fuel, simulateWith term true logging stdin program cores memsz fuel = .ok (some v)) ↔
      simulate program cores memsz (first.count .step + 1) = .ok (some v) := by
  rw [exists_simulateWith_iff, simulate_eq_some]
  refine exists_congr fun hw₀ => and_congr_right fun hboot => ?_
  have h : (Simulator.start hw₀ true logging stdin).Session last first :=
    ⟨silent_of_boot hboot, rfl, rfl, hcmds, hkeeps, nofun⟩
  rw [Simulator.exists_run_iff, Hardware.run_eq_some]
  constructor
  · rintro ⟨sim, hstar, hdone, hv⟩
    exact ⟨sim.hw, h.run_of_done hne hlast hstar hdone, hv⟩
  · rintro ⟨hw, hloop, hv⟩
    have hgoing : hw₀.finished = false := by
      obtain ⟨n, entry, mem, -, -, rfl⟩ := boot_eq_ok.mp hboot
      rfl
    obtain ⟨hw₁, hround, -⟩ := exists_round_of_loopUntil hgoing hloop
    obtain ⟨⟨inst, hnext⟩, -⟩ := (runStep_iff_next h.quiet).mp hround.2
    have hnamed := hshown hw₀ hw₀ hboot .refl hgoing inst hnext
    obtain ⟨sim, hstar, hdone, rfl⟩ := (h.open hgoing hnext hnamed).follow hne rfl hloop
      fun t => hshown hw₀ t hboot
    exact ⟨sim, .head (h.round_open term rfl hgoing hnext hnamed) hstar, hdone, hv⟩

/-- The program is over after six rounds: six steps in front of the last command suffice, and five
do not. -/
theorem simulateWith_of_asks_exit :
    (∃ fuel, simulateWith idleTerminal true false "\n\n\nr\n\n\n\nc".toList
        (some (executable exitText)) 1 1024 fuel = .ok (some 0)) ∧
      ¬ ∃ fuel, simulateWith idleTerminal true false "\n\nr\n\n\n\nc".toList
        (some (executable exitText)) 1 1024 fuel = .ok (some 0) := by
  constructor
  · exact (simulateWith_of_asks idleTerminal false "\n\n\nr\n\n\n\nc".toList
      (some (executable exitText)) 1 1024 0
      (show commands _ = [.step, .step, .step, .registers, .step, .step, .step] ++ [.resume] by
        decide)
      (by decide) (by decide) (by decide) exitText_allShown).mpr exitText_returns
  · intro h
    have hreturns := (simulateWith_of_asks idleTerminal false "\n\nr\n\n\n\nc".toList
      (some (executable exitText)) 1 1024 0
      (show commands _ = [.step, .step, .registers, .step, .step, .step] ++ [.resume] by decide)
      (by decide) (by decide) (by decide) exitText_allShown).mp h
    rw [simulate_one exitText_loads] at hreturns
    cases hreturns

end MipsSim
