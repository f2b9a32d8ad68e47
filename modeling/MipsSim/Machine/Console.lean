import MipsSim.Disasm.Text
import MipsSim.Lib.Rounds
import MipsSim.Sequential.Result

/-!
# The debugger and the log

`run` with all that `simulator_t` holds: the debugger of `debug.c`, which reads commands from the
terminal before each tick, and the log of executed instructions. Of what the debugger prints only
the instruction is kept, whose name may be behind the end of a table; the other commands that print
have no effect on the simulator.
-/

namespace MipsSim

open Run Relation

/-! ### Commands -/

/-- The cases of the switch of `debug`. -/
inductive Command where
  | help | registers | instruction | memory | pipeline | cp0 | register | resume | quit | devices
  | step
  deriving DecidableEq

/-- The case for the contents of the buffer `c`. -/
def Command.ofBuffer : List Char → Command
  | 'h' :: _ => .help
  | 'r' :: _ => .registers
  | 'i' :: _ => .instruction
  | 'm' :: _ => .memory
  | 'p' :: _ => .pipeline
  | '0' :: _ => .cp0
  | 'v' :: _ | 's' :: _ | 't' :: _ => .register
  | 'c' :: _ => .resume
  | 'q' :: _ => .quit
  | 'd' :: _ => .devices
  | _ => .step

/-- `fgets` for a buffer of three bytes, with the rest of the input. At the end of the input the
buffer is left as it is. -/
def fgets (c : List Char) : List Char → List Char × List Char
  | [] => (c, [])
  | [a] => ([a], [])
  | a :: b :: rest => if a = '\n' then ([a], b :: rest) else ([a, b], rest)

/-- What else is called on the input. -/
structure Terminal where
  /-- `scanf("%X", &addr)`, with the number that it finds. -/
  scanf : List Char → Option Word × List Char
  /-- `fseek(stdin, 0, SEEK_END)`, for which the input has to be a file. -/
  fseek : List Char → List Char

/-! ### The simulator -/

/-- `simulator_t` in `run`, with the input and what was written to the log. -/
structure Simulator where
  hw : Hardware
  debug : Bool
  logging : Bool
  finished : Bool
  stdin : List Char
  logFh : List String
  /-- The variables `inst` and `c` of `debug`, while it is running. -/
  prompt : Option (Word × List Char)

/-- The line that is written to the log for an instruction. The address and the registers are those
that are there after the tick. -/
def logLine (inst : Word) (hw : Hardware) : Except HostFault String :=
  match hw.cores with
  | [] => .error .outOfBounds
  | core :: _ => do
    let text ← instructionString inst core
    pure (hex core.pc ++ ": " ++ text)

/-- What a round writes to the log. -/
def logLines (logging : Bool) (inst : Word) (hw : Hardware) : Except HostFault (List String) :=
  if logging then do
    let line ← logLine inst hw
    pure [line]
  else pure []

/-- A round of `run` from the tick on. -/
def Simulator.execute (sim : Simulator) (inst : Word) : Except HostFault Simulator := do
  let hw ← tick sim.hw
  let lines ← logLines sim.logging inst hw
  pure { sim with hw := hw, logFh := sim.logFh ++ lines, prompt := none }

/-- `print_instruction`, without what it prints. -/
def printInstruction (inst : Word) (core : Core) : Except HostFault Unit := do
  let _ ← instructionString inst core
  pure ()

/-- A round of `run` up to the debugger's loop, or all of it without the debugger. -/
def Simulator.fetch (sim : Simulator) : Except HostFault Simulator :=
  match sim.hw.cores with
  | [] => .error .outOfBounds
  | core :: _ => do
    let (_, inst, mmu) ← mmuRead sim.hw.mmu core.pc 0 .word
    let sim := { sim with hw := { sim.hw with mmu := mmu } }
    if sim.debug then do
      printInstruction inst core
      pure { sim with prompt := some (inst, []) }
    else sim.execute inst

/-- The case `m` of `debug`, without what it prints. -/
def Simulator.inspect (term : Terminal) (sim : Simulator) : Except HostFault Simulator :=
  match term.scanf sim.stdin with
  | (none, rest) => pure { sim with stdin := term.fseek rest }
  | (some addr, rest) => do
    let (_, _, mmu) ← mmuRead sim.hw.mmu addr 0 .word
    pure { sim with hw := { sim.hw with mmu := mmu }, stdin := term.fseek rest }

/-- A round of the loop of `debug`, with the rest of `run` where it returns. -/
def Simulator.command (term : Terminal) (sim : Simulator) (inst : Word) (c : List Char) :
    Except HostFault Simulator :=
  let (c, stdin) := fgets c sim.stdin
  let sim := { sim with stdin := stdin, prompt := some (inst, c) }
  match sim.hw.cores with
  | [] => .error .outOfBounds
  | core :: _ =>
    match Command.ofBuffer c with
    | .help | .registers | .pipeline | .cp0 | .register | .devices => pure sim
    | .instruction => do
      printInstruction inst core
      pure sim
    | .memory => sim.inspect term
    -- the flag is for the next round of `run`; the loop of `debug` goes on
    | .resume => pure { sim with debug := false }
    | .quit => { sim with finished := true }.execute inst
    | .step => sim.execute inst

/-- One step of `run`, inside or outside of the debugger. -/
def Simulator.step (term : Terminal) (sim : Simulator) : Except HostFault Simulator :=
  match sim.prompt with
  | none => sim.fetch
  | some (inst, c) => sim.command term inst c

/-- The condition of the loop of `run`, which is not tested inside of the debugger. -/
def Simulator.done (sim : Simulator) : Bool :=
  sim.prompt.isNone && (sim.hw.finished || sim.finished)

/-- `run`, or nothing if it is still running. -/
def Simulator.run (term : Terminal) (fuel : ℕ) (sim : Simulator) :
    Except HostFault (Option Word) := do
  match ← loopUntil Simulator.done (Simulator.step term) fuel sim with
  | none => pure none
  | some sim => do
    let v1 ← sim.hw.result
    pure (some v1)

/-- The simulator when `run` is called. -/
def Simulator.start (hw : Hardware) (debug logging : Bool) (stdin : List Char) : Simulator :=
  ⟨hw, debug, logging, false, stdin, [], none⟩

/-- `simulate` with a debugger and a log. -/
def simulateWith (term : Terminal) (debug logging : Bool) (stdin : List Char)
    (program : Option (List Byte)) (cores memsz fuel : ℕ) : Except HostFault (Option Word) := do
  let hw ← boot program cores memsz
  (Simulator.start hw debug logging stdin).run term fuel

/-! ### What a step does -/

lemma printInstruction_iff_named {inst : Word} {core : Core} {u : Unit} :
    printInstruction inst core = .ok u ↔ Named inst := by
  rw [← @instructionString_iff_named inst core, printInstruction]
  constructor
  · intro h
    obtain ⟨text, htext, -⟩ := bind_eq_ok.mp h
    exact ⟨text, htext⟩
  · rintro ⟨text, htext⟩
    exact bind_eq_ok.mpr ⟨text, htext, rfl⟩

/-- The word at the program counter of the first core. -/
def Hardware.Next (hw : Hardware) (inst : Word) : Prop :=
  ∃ core cores e, hw.cores = core :: cores ∧
    mmuRead hw.mmu core.pc 0 .word = .ok (e, inst, hw.mmu)

/-- A round of the loop without debugger and log. -/
def Hardware.Round : Hardware → Hardware → Prop := Run.Round Hardware.finished runStep

/-- The steps of the simulator. -/
def Simulator.Round (term : Terminal) : Simulator → Simulator → Prop :=
  Run.Round Simulator.done (Simulator.step term)

section Steps

variable {hw hw' : Hardware} {inst : Word}

lemma Hardware.Next.unique {inst' : Word} (h : hw.Next inst) (h' : hw.Next inst') :
    inst = inst' := by
  obtain ⟨core, cores, e, hcores, hread⟩ := h
  obtain ⟨core', cores', e', hcores', hread'⟩ := h'
  obtain ⟨rfl, -⟩ := List.cons.inj (hcores.symm.trans hcores')
  exact (Prod.mk.inj (Prod.mk.inj (Except.ok.inj (hread.symm.trans hread'))).2).1

lemma Mmu.Silent.of_mmuRead {mem mem' : Mmu} {a dst x : Word} {e : Exception}
    (hs : mem.Silent) (h : mmuRead mem a dst .word = .ok (e, x, mem')) : mem' = mem :=
  (hs.read a dst .word).of_ok h

/-- A round is a tick if the word at the program counter can be read. -/
lemma runStep_iff_next (hs : hw.mmu.Silent) :
    runStep hw = .ok hw' ↔ (∃ inst, hw.Next inst) ∧ tick hw = .ok hw' := by
  unfold runStep
  constructor
  · intro h
    split at h
    · cases h
    · next core cores hcores =>
      simp only [bind_eq_ok, Prod.exists] at h
      obtain ⟨e, inst, mem, hread, htick⟩ := h
      obtain rfl := hs.of_mmuRead hread
      exact ⟨⟨inst, core, cores, e, hcores, hread⟩, htick⟩
  · rintro ⟨⟨inst, core, cores, e, hcores, hread⟩, htick⟩
    rw [hcores]
    refine bind_eq_ok.mpr ⟨(e, inst, hw.mmu), hread, ?_⟩
    rw [← hcores]
    exact htick

lemma silent_of_tick (hs : hw.mmu.Silent) (h : tick hw = .ok hw') : hw'.mmu.Silent :=
  hs.sameUnit (((accessInvariant_sameUnit hw.mmu).tick (.refl _)).of_ok h)

variable {sim sim' : Simulator} {term : Terminal} {c : List Char}

lemma execute_eq_ok : sim.execute inst = .ok sim' ↔
    ∃ hw lines, tick sim.hw = .ok hw ∧ logLines sim.logging inst hw = .ok lines ∧
      sim' = { sim with hw := hw, logFh := sim.logFh ++ lines, prompt := none } := by
  simp only [Simulator.execute, bind_eq_ok, pure_eq_ok]
  constructor
  · rintro ⟨hw, htick, lines, hlog, rfl⟩
    exact ⟨hw, lines, htick, hlog, rfl⟩
  · rintro ⟨hw, lines, htick, hlog, rfl⟩
    exact ⟨hw, htick, lines, hlog, rfl⟩

lemma fetch_eq_ok (hs : sim.hw.mmu.Silent) : sim.fetch = .ok sim' ↔
    ∃ inst, sim.hw.Next inst ∧
      (sim.debug = true ∧ Named inst ∧ sim' = { sim with prompt := some (inst, []) } ∨
        sim.debug = false ∧ sim.execute inst = .ok sim') := by
  unfold Simulator.fetch
  constructor
  · intro h
    split at h
    · cases h
    · next core cores hcores =>
      simp only [bind_eq_ok, Prod.exists] at h
      obtain ⟨e, inst, mem, hread, h⟩ := h
      obtain rfl := hs.of_mmuRead hread
      refine ⟨inst, ⟨core, cores, e, hcores, hread⟩, ?_⟩
      split_ifs at h with hd
      · obtain ⟨u, hprint, h⟩ := bind_eq_ok.mp h
        exact .inl ⟨hd, printInstruction_iff_named.mp hprint, (Except.ok.inj h).symm⟩
      · exact .inr ⟨Bool.not_eq_true _ ▸ hd, h⟩
  · rintro ⟨inst, ⟨core, cores, e, hcores, hread⟩, h⟩
    rw [hcores]
    refine bind_eq_ok.mpr ⟨(e, inst, sim.hw.mmu), hread, ?_⟩
    dsimp only
    rcases h with ⟨hd, hnamed, rfl⟩ | ⟨hd, h⟩
    · rw [if_pos hd]
      exact bind_eq_ok.mpr ⟨(), printInstruction_iff_named.mpr hnamed, rfl⟩
    · rw [hd, if_neg Bool.false_ne_true]
      exact hd ▸ h

lemma inspect_cases (hs : sim.hw.mmu.Silent) (h : sim.inspect term = .ok sim') :
    ∃ stdin, sim' = { sim with stdin := stdin } := by
  unfold Simulator.inspect at h
  split at h
  · exact ⟨_, (Except.ok.inj h).symm⟩
  · simp only [bind_eq_ok, Prod.exists] at h
    obtain ⟨e, word, mem, hread, h⟩ := h
    obtain rfl := hs.of_mmuRead hread
    exact ⟨_, (Except.ok.inj h).symm⟩

/-- A command leads back to the prompt or out of the debugger. Nothing but the flags and the input
changes before the tick. -/
lemma command_cases (hs : sim.hw.mmu.Silent) (h : sim.command term inst c = .ok sim') :
    (∃ debug stdin c', (debug = true → sim.debug = true) ∧
      sim' = { sim with debug := debug, stdin := stdin, prompt := some (inst, c') }) ∨
    ∃ finished stdin c',
      { sim with finished := finished, stdin := stdin, prompt := some (inst, c') }.execute inst =
        .ok sim' := by
  unfold Simulator.command at h
  dsimp only at h
  split at h
  · cases h
  · cases hcmd : Command.ofBuffer (fgets c sim.stdin).1 with
    | instruction =>
      rw [hcmd] at h
      obtain ⟨u, -, h⟩ := bind_eq_ok.mp h
      obtain rfl := Except.ok.inj h
      exact .inl ⟨sim.debug, _, _, id, rfl⟩
    | memory =>
      rw [hcmd] at h
      obtain ⟨stdin, rfl⟩ := inspect_cases (by exact hs) h
      exact .inl ⟨sim.debug, _, _, id, rfl⟩
    | resume =>
      rw [hcmd] at h
      obtain rfl := Except.ok.inj h
      exact .inl ⟨false, _, _, nofun, rfl⟩
    | quit =>
      rw [hcmd] at h
      exact .inr ⟨true, _, _, h⟩
    | step =>
      rw [hcmd] at h
      exact .inr ⟨sim.finished, _, _, h⟩
    | _ =>
      rw [hcmd] at h
      obtain rfl := Except.ok.inj h
      exact .inl ⟨sim.debug, _, _, id, rfl⟩

/-- The debugger returns. -/
lemma command_of_step {core : Core} {cores : List Core} (hcores : sim.hw.cores = core :: cores)
    (hcmd : Command.ofBuffer (fgets c sim.stdin).1 = .step) : sim.command term inst c =
      { sim with stdin := (fgets c sim.stdin).2, prompt := none }.execute inst := by
  unfold Simulator.command
  dsimp only
  rw [hcores]
  dsimp only
  rw [hcmd]
  rfl

end Steps

/-! ### What the debugger and the log see -/

/-- The rounds of the loop without debugger and log, and the lines that a log of them has: one for
each round, with the word that was at the program counter before the tick. -/
inductive Logs (logging : Bool) (hw₀ : Hardware) : List String → Hardware → Prop where
  | start : Logs logging hw₀ [] hw₀
  | round {hw hw' : Hardware} {lines new : List String} {inst : Word}
      (h : Logs logging hw₀ lines hw) (hround : hw.Round hw') (hnext : hw.Next inst)
      (hnew : logLines logging inst hw' = .ok new) :
      Logs logging hw₀ (lines ++ new) hw'

lemma Logs.rounds {logging : Bool} {hw₀ hw : Hardware} {lines : List String}
    (h : Logs logging hw₀ lines hw) : ReflTransGen Hardware.Round hw₀ hw := by
  induction h with
  | start => exact .refl
  | round _ hround _ _ ih => exact ih.tail hround

/-- What holds of the simulator whatever is typed. -/
structure Simulator.Watches (hw₀ : Hardware) (logging : Bool) (sim : Simulator) : Prop where
  logs : Logs logging hw₀ sim.logFh sim.hw
  logging_eq : sim.logging = logging
  quiet : sim.hw.mmu.Silent
  prompt : ∀ inst c, sim.prompt = some (inst, c) → sim.hw.finished = false ∧ sim.hw.Next inst

section Watches

variable {hw₀ : Hardware} {logging : Bool} {sim sim' : Simulator} {term : Terminal} {inst : Word}

/-- The flags and the input do not matter. -/
lemma Simulator.Watches.atPrompt (h : sim.Watches hw₀ logging) (hgoing : sim.hw.finished = false)
    (hnext : sim.hw.Next inst) (debug finished : Bool) (stdin c : List Char) :
    { sim with debug := debug, finished := finished, stdin := stdin,
               prompt := some (inst, c) }.Watches hw₀ logging where
  logs := h.logs
  logging_eq := h.logging_eq
  quiet := h.quiet
  prompt := by
    rintro inst' c' hc
    obtain ⟨rfl, -⟩ := Prod.mk.inj (Option.some.inj hc)
    exact ⟨hgoing, hnext⟩

/-- The tick, from a state in which the loop goes on. -/
lemma Simulator.Watches.execute (h : sim.Watches hw₀ logging) (hgoing : sim.hw.finished = false)
    (hnext : sim.hw.Next inst) (he : sim.execute inst = .ok sim') : sim'.Watches hw₀ logging := by
  obtain ⟨hw, lines, htick, hlog, rfl⟩ := execute_eq_ok.mp he
  rw [h.logging_eq] at hlog
  have hround : sim.hw.Round hw := ⟨hgoing, (runStep_iff_next h.quiet).mpr ⟨⟨inst, hnext⟩, htick⟩⟩
  exact
    { logs := h.logs.round hround hnext hlog
      logging_eq := h.logging_eq
      quiet := silent_of_tick h.quiet htick
      prompt := nofun }

lemma Simulator.Watches.step (h : sim.Watches hw₀ logging)
    (hround : Simulator.Round term sim sim') : sim'.Watches hw₀ logging := by
  obtain ⟨hdone, hstep⟩ := hround
  unfold Simulator.step at hstep
  split at hstep
  · next hp =>
    have hgoing : sim.hw.finished = false := by
      rw [Simulator.done, hp, Option.isNone_none, Bool.true_and, Bool.or_eq_false_iff] at hdone
      exact hdone.1
    obtain ⟨inst, hnext, ⟨-, -, rfl⟩ | ⟨-, he⟩⟩ := (fetch_eq_ok h.quiet).mp hstep
    · exact h.atPrompt hgoing hnext sim.debug sim.finished sim.stdin []
    · exact h.execute hgoing hnext he
  · next inst c hp =>
    obtain ⟨hgoing, hnext⟩ := h.prompt inst c hp
    rcases command_cases h.quiet hstep with ⟨debug, stdin, c', -, rfl⟩ | ⟨finished, stdin, c', he⟩
    · exact h.atPrompt hgoing hnext debug sim.finished stdin c'
    · have hleave := h.atPrompt hgoing hnext sim.debug finished stdin c'
      exact hleave.execute hgoing hnext he

end Watches

/-- The log of a run has as many lines as the run has rounds. -/
lemma Logs.iterate {hw₀ hw : Hardware} {lines : List String} (h : Logs true hw₀ lines hw) :
    iterate runStep lines.length hw₀ = .ok hw := by
  induction h with
  | start => rfl
  | round _ hround _ hnew ih =>
    obtain ⟨line, -, hline⟩ := bind_eq_ok.mp hnew
    obtain rfl := Except.ok.inj hline
    rw [List.length_append, List.length_singleton]
    exact iterate_succ_eq_ok.mpr ⟨_, ih, hround.2⟩

lemma Logs.eq_nil {hw₀ hw : Hardware} {lines : List String} (h : Logs false hw₀ lines hw) :
    lines = [] := by
  induction h with
  | start => rfl
  | round _ _ _ hnew ih =>
    obtain rfl := Except.ok.inj hnew
    rw [ih, List.append_nil]

section Session

variable {program : Option (List Byte)} {cores memsz : ℕ} {hw₀ : Hardware} {term : Terminal}
  {debug logging : Bool} {stdin : List Char} {sim : Simulator}

lemma watches_of_boot (hboot : boot program cores memsz = .ok hw₀)
    (hrun : ReflTransGen (Simulator.Round term) (.start hw₀ debug logging stdin) sim) :
    sim.Watches hw₀ logging := by
  refine invariant_of_star (P := fun sim => sim.Watches hw₀ logging) (fun _ _ h => h.step) ?_ hrun
  exact ⟨.start, rfl, silent_of_boot hboot, nofun⟩

/-- The debugger and the log watch the run and nothing else. Whatever is typed, the hardware comes
to the states of the run without them, one after the other, and the log has a line for each round;
if nobody quits, the end is the end of that run. -/
theorem session_watches (hboot : boot program cores memsz = .ok hw₀)
    (hrun : ReflTransGen (Simulator.Round term) (.start hw₀ debug logging stdin) sim) :
    Logs logging hw₀ sim.logFh sim.hw ∧
      (logging = true → iterate runStep sim.logFh.length hw₀ = .ok sim.hw) ∧
      (logging = false → sim.logFh = []) ∧
      (sim.done = true → sim.finished = false →
        ∃ fuel, hw₀.runLoop fuel = .ok (some sim.hw)) := by
  have hlogs := (watches_of_boot hboot hrun).logs
  refine ⟨hlogs, ?_, ?_, ?_⟩
  · rintro rfl
    exact hlogs.iterate
  · rintro rfl
    exact hlogs.eq_nil
  · intro hdone hquit
    rw [Simulator.done, hquit, Bool.or_false, Bool.and_eq_true] at hdone
    exact exists_loopUntil_iff.mpr ⟨hlogs.rounds, hdone.2⟩

end Session

/-- An input that is no file, in which no number is found. -/
def idleTerminal : Terminal := ⟨fun stdin => (none, stdin), id⟩

/-- Two instructions with the debugger and the log: the first one is printed once more, and behind
the second one the session ends. -/
theorem session_watches_quit : ∃ (hw₀ : Hardware) (sim : Simulator),
    boot (some (executable powerOffText)) 1 1024 = .ok hw₀ ∧ sim.finished = true ∧
    Logs true hw₀ sim.logFh sim.hw ∧ iterate runStep sim.logFh.length hw₀ = .ok sim.hw := by
  have hload : elfDump (some (executable powerOffText)) 0 (initIo (mmuInit 1024)) =
      .ok (none, 0x80000000#32, loadedMmu 1024 powerOffText) := by
    rw [initIo_mmuInit]
    rfl
  obtain ⟨hw₀, hboot, sim, hrun, hfin⟩ : ∃ hw₀,
      boot (some (executable powerOffText)) 1 1024 = .ok hw₀ ∧ ∃ sim : Simulator,
        loopUntil Simulator.done (Simulator.step idleTerminal) 6
          (.start hw₀ true true "i\n\nq".toList) = .ok (some sim) ∧ sim.finished = true :=
    ⟨_, boot_eq_ok.mpr ⟨0, _, _, rfl, hload, rfl⟩, _, rfl, rfl⟩
  obtain ⟨hlogs, hlength, -, -⟩ := session_watches hboot (star_of_loopUntil hrun).1
  exact ⟨hw₀, sim, hboot, hfin, hlogs, hlength rfl⟩

end MipsSim
