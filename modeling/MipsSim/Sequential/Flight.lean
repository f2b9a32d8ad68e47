import MipsSim.Sequential.Operands

/-!
# Instructions in flight

The simulation between the pipeline and the machine without one. It is stated for the core after WB:
then the registers and the memory are those of one state of the machine, and the pipeline registers
hold the instructions that it executes next, with bubbles between them. As long as the machine is at
regular instructions, each tick brings the next of them through MEM, or a bubble.
-/

namespace MipsSim

open Run

/-! ### Slots -/

/-- Which of `EX_MEM`, `ID_EX` and `IF_ID` hold an instruction and not a bubble, and the points of
the next instruction from `ID_EX` on and from `IF_ID` on. -/
structure Slots where
  ex : Bool
  id : Bool
  fetch : Bool
  idPoint : Point
  ifPoint : Point

/-- Nothing is in flight. -/
def Slots.empty (p : Point) : Slots := ⟨false, false, false, p, p⟩

/-- Everything moves on by one stage: the instruction in `IF_ID`, if there is one, is decoded as
`inst` with `redirect`, and IF fetches the next word unless it is held back. -/
def Slots.shift (v : Slots) (inst : Word) (redirect : Option Word) (held : Bool) : Slots where
  ex := v.id
  id := v.fetch
  fetch := !held
  idPoint := v.ifPoint
  ifPoint := if v.fetch then v.ifPoint.after inst redirect else v.ifPoint

/-! ### The simulation relation -/

/-- The pipeline registers, seen from the machine's state `s` on. -/
structure Flight (code : Code) (s : SingleCycle) (core : Core) (v : Slots) : Prop where
  ex_nop : v.ex = false → core.exMem.inst = 0 ∧ v.idPoint = s.point
  ex_text : v.ex = true → ∀ w, code s.point.pc = some w → core.exMem.inst = w
  ex_shown : v.ex = true → s.Regular code →
    core.exMem.shown = (s.executed core.exMem.inst).shown ∧
      v.idPoint = s.point.after core.exMem.inst (s.decoded core.exMem.inst).redirect
  id_nop : v.id = false → core.idEx.inst = 0 ∧ v.ifPoint = v.idPoint ∧ v.idPoint.delay = false
  id_text : v.id = true → ∀ w, code v.idPoint.pc = some w → core.idEx.inst = w
  id_after : v.id = true → core.idEx.Decoded ∧
    v.ifPoint = v.idPoint.after core.idEx.inst core.idEx.redirect
  id_shown : v.id = true → supported core.idEx.inst = true →
    ¬ Conflict core.idEx.inst v.idPoint.prev v.idPoint.prev₂ →
    core.idEx.shown = (decodeAt v.idPoint core.idEx.inst (gprAfter core.exMem {} core.regs)
      (cp0After core.exMem {} core.cp0)).shown
  if_nop : v.fetch = false → core.ifId.inst = 0 ∧ v.ifPoint.npc = v.ifPoint.pc + 4 ∧
    v.ifPoint.delay = false ∧ (core.idEx.inst = 0 ∨ (controlOf core.idEx.inst).memRead = true)
  if_text : v.fetch = true → ∀ w, code v.ifPoint.pc = some w → core.ifId.inst = w
  if_next : v.fetch = true → core.ifId.nextPc = v.ifPoint.pc + 4 ∧ core.ifId.isBranchDelay = false
  fetch_eq : core.idEx.redirect.getD core.pc = if v.fetch then v.ifPoint.npc else v.ifPoint.pc
  follows : Follows v.ifPoint.prev v.ifPoint.prev₂ core.idEx.inst core.exMem.inst
  hazard_ex : NoHazard core.exMem.inst core.idEx.inst
  hazard_id : NoHazard core.idEx.inst core.ifId.inst

/-- A pipeline that was just cleared. -/
lemma flight_init (code : Code) {s : SingleCycle} {pc : Word} (h : s.point = .start pc) :
    Flight code s (.init s.regs pc s.cp0) (.empty s.point) where
  ex_nop := fun _ => ⟨rfl, rfl⟩
  ex_text := nofun
  ex_shown := nofun
  id_nop := fun _ => ⟨rfl, rfl, by rw [Slots.empty, h]; rfl⟩
  id_text := nofun
  id_after := nofun
  id_shown := nofun
  if_nop := fun _ => ⟨rfl, by rw [Slots.empty, h]; rfl, by rw [Slots.empty, h]; rfl, .inl rfl⟩
  if_text := nofun
  if_next := nofun
  fetch_eq := by
    rw [Slots.empty, h]
    rfl
  follows := .inr ⟨rfl, .inl rfl⟩
  hazard_ex := noHazard_zero _
  hazard_id := noHazard_zero _

/-! ### One tick -/

lemma decodeAt_congr (p : Point) {inst : Word} {regs regs' cp0 cp0' : ℕ → Word}
    (hrs : regs (getRs inst) = regs' (getRs inst)) (hrt : regs (getRt inst) = regs' (getRt inst))
    (hcp0 : cp0 (getRd inst + 1) = cp0' (getRd inst + 1)) :
    decodeAt p inst regs cp0 = decodeAt p inst regs' cp0' := by
  have hsplit : decodeAt p inst regs cp0 = { decodeAt p inst regs' cp0' with
      rsValue := (decodeAt p inst regs cp0).rsValue
      rtValue := (decodeAt p inst regs cp0).rtValue } := rfl
  rw [hsplit, decodeAt_rsValue, decodeAt_rtValue, hrs, hrt, hcp0]
  rfl

/-- A word of zeros does not hold anything back. -/
lemma not_holds_of_nop {core : Core} {inst : Word} (h : core.ifId.inst = 0) :
    ¬ core.holds inst := by
  rintro ⟨hload, -⟩
  rw [h] at hload
  revert hload
  decide

/-- Bubbles redirect nothing. -/
lemma redirect_of_nop {idEx : IdEx} (h : idEx = {} ∨ idEx.Decoded) (hnop : idEx.inst = 0) :
    idEx.redirect = none := by
  rcases h with rfl | h
  · rfl
  · apply h.redirect_eq_none
    rw [hnop]
    decide

/-- The core after a tick whose WB writes back, and the WB of the tick after that. -/
def Core.nextWb (core : Core) (memWb : MemWb) (inst : Word) : Core :=
  (core.next memWb inst).withRegs (commitRegs memWb core.regs) (commitCp0 memWb core.cp0)

/-- The slots after a tick whose WB writes back. -/
def Slots.next (v : Slots) (core : Core) (memWb : MemWb) (inst : Word) : Slots :=
  v.shift core.ifId.inst (core.next memWb inst).idEx.redirect (decide (core.holds inst))

section Next

variable {code : Code} {s s' : SingleCycle} {core : Core} {v : Slots} {memWb : MemWb} {inst : Word}

lemma Slots.next_ifPoint_of_fetch (hf : v.fetch = true) :
    (v.next core memWb inst).ifPoint =
      v.ifPoint.after core.ifId.inst (core.next memWb inst).idEx.redirect := by
  rw [Slots.next, Slots.shift, if_pos hf]

lemma Slots.next_ifPoint_of_not_fetch (hf : v.fetch = false) :
    (v.next core memWb inst).ifPoint = v.ifPoint := by
  rw [Slots.next, Slots.shift, if_neg (by simp [hf])]

variable (h : Flight code s core v)

include h

/-- A load that holds back the next word is not a bubble. -/
lemma Flight.fetch_of_holds (hh : core.holds inst) : v.fetch = true := by
  cases hf : v.fetch with
  | true => rfl
  | false => exact absurd hh (not_holds_of_nop (h.if_nop hf).1)

/-- IF reads at the point of the next instruction. -/
lemma Flight.fetch_pc : core.idEx.redirect.getD core.pc = (v.next core memWb inst).ifPoint.pc := by
  rw [h.fetch_eq]
  cases hf : v.fetch with
  | true =>
    rw [Slots.next_ifPoint_of_fetch hf]
    rfl
  | false =>
    rw [Slots.next_ifPoint_of_not_fetch hf]
    rfl

/-- The address after the next one, once the word in `IF_ID` is decoded. -/
lemma Flight.fetch_npc :
    (core.next memWb inst).idEx.redirect.getD (core.idEx.redirect.getD core.pc + 4) =
      (v.next core memWb inst).ifPoint.npc := by
  rw [h.fetch_eq]
  cases hf : v.fetch with
  | true =>
    rw [Slots.next_ifPoint_of_fetch hf]
    rfl
  | false =>
    obtain ⟨hnop, hnpc, -⟩ := h.if_nop hf
    rw [Slots.next_ifPoint_of_not_fetch hf, hnpc,
      redirect_of_nop (.inr (decoded_next core memWb inst)) (by rw [Core.next_idEx_inst, hnop])]
    rfl

/-- The two words ahead of the next instruction. -/
lemma Flight.follows_next :
    Follows (v.next core memWb inst).ifPoint.prev (v.next core memWb inst).ifPoint.prev₂
      core.ifId.inst core.idEx.inst := by
  cases hf : v.fetch with
  | true =>
    rw [Slots.next_ifPoint_of_fetch hf]
    rcases h.follows with ⟨hex, -⟩ | ⟨hex, -⟩
    · exact .inl ⟨rfl, .inl hex⟩
    · exact .inl ⟨rfl, .inr hex⟩
  | false =>
    obtain ⟨hnop, -, -, hload⟩ := h.if_nop hf
    rw [Slots.next_ifPoint_of_not_fetch hf]
    refine .inr ⟨hnop, ?_⟩
    rcases h.follows with ⟨hex, -⟩ | ⟨hex, -⟩
    · exact hload.imp id fun hl => ⟨hex, hex ▸ hl⟩
    · exact .inl hex

variable (hpipe : PipeOk core)

include hpipe

/-- The word in `IF_ID` is in a delay slot if the point says so. -/
lemma Flight.delay_eq (hfetch : v.fetch = true) :
    (core.idEx.redirect.isSome || core.ifId.isBranchDelay) = v.ifPoint.delay := by
  rw [(h.if_next hfetch).2, Bool.or_false]
  cases hid : v.id with
  | true =>
    rw [(h.id_after hid).2]
    rfl
  | false =>
    obtain ⟨hnop, hpoint, hdelay⟩ := h.id_nop hid
    rw [redirect_of_nop hpipe.idEx_ok hnop, hpoint, hdelay]
    rfl

variable (hzero : core.regs 0 = 0)

include hzero

/-- The word in `IF_ID` is decoded with the registers that the two instructions ahead will leave. -/
lemma Flight.shown_next (hwb : memWb.Empty ∨ memWb.Moved) (hinst : memWb.inst = core.exMem.inst)
    (hf : v.fetch = true) (hsup : supported core.ifId.inst = true)
    (hconf : ¬ Conflict core.ifId.inst v.ifPoint.prev v.ifPoint.prev₂) :
    (core.next memWb inst).idEx.shown = (decodeAt v.ifPoint core.ifId.inst
      (gprAfter (executeStage core) {} (commitRegs memWb core.regs))
      (cp0After (executeStage core) {} (commitCp0 memWb core.cp0))).shown := by
  have hconf' : ¬ Conflict core.ifId.inst core.idEx.inst memWb.inst := by
    rw [hinst]
    exact h.follows.not_conflict hconf
  exact MipsSim.shown_next hpipe.idEx_ok hwb hzero hconf' hsup (h.if_next hf).1 inst
    (h.delay_eq hpipe hf)

section Moved

variable {e : Exception} {readData bad : Word} (hid : v.id = true) (hpoint : s'.point = v.idPoint)
  (hregs : s'.regs = commitRegs (moveStage core e readData bad) core.regs)
  (hcp0 : s'.cp0 = commitCp0 (moveStage core e readData bad) core.cp0) (hreg : s'.Regular code)

include hid hpoint hregs hcp0 hreg

/-- The instruction in `ID_EX` was decoded with the registers that it finds when it comes to MEM. -/
lemma Flight.decoded_eq :
    core.idEx.shown = (s'.decoded core.idEx.inst).shown ∧ supported core.idEx.inst = true := by
  obtain ⟨w, hw, hsup, hconf⟩ := hreg
  rw [hpoint] at hw hconf
  obtain rfl := h.id_text hid w hw
  refine ⟨?_, hsup⟩
  rw [h.id_shown hid hsup hconf, SingleCycle.decoded, hpoint, hregs, hcp0]
  have hmove : ∀ r, ((controlOf core.exMem.inst).memRead = true → dstOf core.exMem.inst ≠ 0 →
      dstOf core.exMem.inst ≠ r) → gprAfter core.exMem {} core.regs r =
        commitRegs (moveStage core e readData bad) core.regs r := fun r hr =>
    (@commitRegs_moveStage { core with memWb := {} } e readData bad hpipe.exMem_ok core.regs hzero r
      hr).symm
  refine congrArg IdEx.shown (decodeAt_congr _ (hmove _ ?_) (hmove _ ?_) ?_)
  · exact fun hl hd => (h.hazard_ex hl hd).1
  · exact fun hl hd => (h.hazard_ex hl hd).2
  · exact (@commitCp0_moveStage { core with memWb := {} } e readData bad hpipe.exMem_ok core.cp0 _
      (Nat.succ_ne_zero _)).symm

/-- It is executed as in the machine without a pipeline. -/
lemma Flight.executed_eq :
    (executeStage core).shown = (s'.executed core.idEx.inst).shown ∧
      v.ifPoint = s'.point.after core.idEx.inst (s'.decoded core.idEx.inst).redirect := by
  obtain ⟨hshown, hsup⟩ := h.decoded_eq hpipe hzero hid hpoint hregs hcp0 hreg
  obtain ⟨hdec, hafter⟩ := h.id_after hid
  have hredirect : core.idEx.redirect = (s'.decoded core.idEx.inst).redirect :=
    hdec.redirect_of_shown (decoded_decodeStage _) hshown
  constructor
  · exact executeStage_shown hdec hsup hshown
  · rw [hafter, hpoint, hredirect]

end Moved

/-- The relation after a tick, up to the WB of the next one, if that writes back: everything has
moved on by one stage. -/
lemma Flight.next {e : Exception} {readData bad : Word} (hpoint : s'.point = v.idPoint)
    (hregs : s'.regs = commitRegs (moveStage core e readData bad) core.regs)
    (hcp0 : s'.cp0 = commitCp0 (moveStage core e readData bad) core.cp0)
    (htext : ∀ w, code (core.idEx.redirect.getD core.pc) = some w → inst = w) :
    Flight code s' (core.nextWb (moveStage core e readData bad) inst)
      (v.next core (moveStage core e readData bad) inst) := by
  set memWb := moveStage core e readData bad
  have hnot : (v.next core memWb inst).fetch = true → ¬ core.holds inst := by
    intro hf hh
    rw [Slots.next, Slots.shift, decide_eq_true hh] at hf
    cases hf
  have hheld : (v.next core memWb inst).fetch = false → core.holds inst := by
    intro hf
    by_contra hh
    rw [Slots.next, Slots.shift, decide_eq_false hh] at hf
    cases hf
  have hinst : (core.nextWb memWb inst).idEx.inst = core.ifId.inst := Core.next_idEx_inst ..
  have hex : (core.nextWb memWb inst).exMem = executeStage core := Core.next_exMem ..
  constructor
  case ex_nop =>
    intro hid
    obtain ⟨hnop, hifp, -⟩ := h.id_nop hid
    exact ⟨by rw [hex]; exact hnop, hifp.trans hpoint.symm⟩
  case ex_text =>
    intro hid
    rw [hpoint, hex]
    exact h.id_text hid
  case ex_shown =>
    intro hid hreg
    rw [hex]
    exact h.executed_eq hpipe hzero hid hpoint hregs hcp0 hreg
  case id_nop =>
    intro hf
    obtain ⟨hnop, -, hdelay, -⟩ := h.if_nop hf
    exact ⟨by rw [hinst, hnop], Slots.next_ifPoint_of_not_fetch hf, hdelay⟩
  case id_text =>
    intro hf
    rw [hinst]
    exact h.if_text hf
  case id_after =>
    intro hf
    refine ⟨decoded_next .., ?_⟩
    rw [hinst]
    exact Slots.next_ifPoint_of_fetch hf
  case id_shown =>
    intro hf hsup hconf
    rw [hinst] at hsup hconf ⊢
    rw [hex]
    exact h.shown_next hpipe hzero (moved_moveStage hpipe.exMem_ok) rfl hf hsup hconf
  case if_nop =>
    intro hf
    have hh := hheld hf
    have hred : (core.next memWb inst).idEx.redirect = none := Core.next_redirect_of_holds hh
    refine ⟨Core.next_ifId_of_holds hh, ?_, ?_, .inr (by rw [hinst]; exact hh.1)⟩
    · rw [Slots.next_ifPoint_of_fetch (h.fetch_of_holds hh), hred]
      rfl
    · rw [Slots.next_ifPoint_of_fetch (h.fetch_of_holds hh), hred]
      rfl
  case if_text =>
    intro hf w hw
    rw [← h.fetch_pc] at hw
    have hif : (core.nextWb memWb inst).ifId = _ := Core.next_ifId_of_not_holds (hnot hf)
    rw [hif]
    exact htext w hw
  case if_next =>
    intro hf
    have hif : (core.nextWb memWb inst).ifId = _ := Core.next_ifId_of_not_holds (hnot hf)
    rw [hif, ← h.fetch_pc]
    exact ⟨rfl, rfl⟩
  case fetch_eq =>
    cases hf : (v.next core memWb inst).fetch with
    | true =>
      have hpc : (core.nextWb memWb inst).pc = _ := Core.next_pc_of_not_holds (hnot hf)
      rw [hpc, if_pos rfl]
      exact h.fetch_npc
    | false =>
      have hpc : (core.nextWb memWb inst).pc = _ := Core.next_pc_of_holds (hheld hf)
      have hred : (core.nextWb memWb inst).idEx.redirect = none :=
        Core.next_redirect_of_holds (hheld hf)
      rw [hpc, hred, if_neg (by decide)]
      exact h.fetch_pc
  case follows =>
    rw [hinst, hex]
    exact h.follows_next
  case hazard_ex =>
    rw [hinst, hex]
    exact h.hazard_id
  case hazard_id => exact noHazard_next core memWb inst

end Next

/-! ### Bubbles -/

/-- The bubbles that come before the next instruction in MEM. -/
def Slots.wait (v : Slots) : ℕ := if v.ex then 0 else if v.id then 1 else if v.fetch then 2 else 3

/-- There is a bubble behind a load exactly if the next instruction uses what is loaded. -/
structure Paced (code : Code) (core : Core) (v : Slots) : Prop where
  restarted : v.id = false → v.fetch = false → v.ex = false
  free_if : v.id = true → v.fetch = true → ¬ LoadUse core.idEx.inst core.ifId.inst
  held_if : v.id = true → v.fetch = false →
    ∀ w, code v.ifPoint.pc = some w → LoadUse core.idEx.inst w
  free_id : v.ex = true → v.id = true → ¬ LoadUse core.exMem.inst core.idEx.inst
  held_id : v.ex = true → v.id = false →
    ∀ w, code v.ifPoint.pc = some w → LoadUse core.exMem.inst w

lemma paced_init (code : Code) (regs : ℕ → Word) (pc : Word) (cp0 : ℕ → Word) (p : Point) :
    Paced code (.init regs pc cp0) (.empty p) where
  restarted := fun _ _ => rfl
  free_if := nofun
  held_if := nofun
  free_id := nofun
  held_id := nofun

lemma Paced.next {code : Code} {s : SingleCycle} {core : Core} {v : Slots} {memWb : MemWb}
    {inst : Word} (h : Paced code core v) (hflight : Flight code s core v)
    (htext : ∀ w, code (core.idEx.redirect.getD core.pc) = some w → inst = w) :
    Paced code (core.nextWb memWb inst) (v.next core memWb inst) := by
  have hidEx : (core.nextWb memWb inst).idEx.inst = core.ifId.inst := Core.next_idEx_inst ..
  have hexMem : (core.nextWb memWb inst).exMem.inst = core.idEx.inst := by
    have hex : (core.nextWb memWb inst).exMem = executeStage core := Core.next_exMem ..
    rw [hex]
    rfl
  -- a word is held back exactly if it uses what the load in `IF_ID` loads
  have hheld : (v.next core memWb inst).fetch = false ↔ LoadUse core.ifId.inst inst := by
    simp only [Slots.next, Slots.shift, Bool.not_eq_false', decide_eq_true_eq]
    rfl
  constructor
  case restarted =>
    intro hid hf
    have hfetch := hflight.fetch_of_holds (hheld.mp hf)
    exact absurd (hid.symm.trans hfetch) (by decide)
  case free_if =>
    intro _ hf huse
    have hif : (core.nextWb memWb inst).ifId.inst = inst := by
      have hnot : ¬ core.holds inst := fun hh =>
        absurd (hf.symm.trans (hheld.mpr hh)) (by decide)
      have heq : (core.nextWb memWb inst).ifId = _ := Core.next_ifId_of_not_holds hnot
      rw [heq]
    rw [hidEx, hif] at huse
    exact absurd (hf.symm.trans (hheld.mpr huse)) (by decide)
  case held_if =>
    intro _ hf w hw
    rw [← hflight.fetch_pc] at hw
    rw [hidEx, ← htext w hw]
    exact hheld.mp hf
  case free_id =>
    intro hex hid
    rw [hexMem, hidEx]
    exact h.free_if hex hid
  case held_id =>
    intro hex hid w hw
    rw [Slots.next_ifPoint_of_not_fetch hid] at hw
    rw [hexMem]
    exact h.held_if hex hid w hw

/-- A bubble leaves MEM. -/
lemma Flight.wait_of_nop {code : Code} {s : SingleCycle} {core : Core} {v : Slots} {memWb : MemWb}
    {inst : Word} (hflight : Flight code s core v) (hex : v.ex = false) :
    (v.next core memWb inst).wait + 1 = v.wait := by
  have hheld : v.fetch = false → ¬ core.holds inst := fun hf hh =>
    absurd (hf.symm.trans (hflight.fetch_of_holds hh)) (by decide)
  unfold Slots.wait Slots.next Slots.shift
  cases hid : v.id with
  | true => simp [hex]
  | false =>
    cases hf : v.fetch with
    | true => simp [hex]
    | false => simp [hex, hheld hf]

/-- An instruction leaves MEM: the bubbles before the next one are the ticks that it costs. -/
lemma Paced.wait_of_instruction {code : Code} {s s' : SingleCycle} {core : Core} {v : Slots}
    {memWb : MemWb} {inst : Word} (h : Paced code core v) (hflight : Flight code s core v)
    (hex : v.ex = true) (hpoint : s'.point = v.idPoint) (hprev : s'.point.prev = core.exMem.inst)
    (hfresh : s'.point.fresh = false) (hreg : s'.Regular code) :
    (v.next core memWb inst).wait = s'.penalty code := by
  obtain ⟨w, hw, -⟩ := hreg
  unfold SingleCycle.penalty
  rw [hprev, hfresh]
  cases hid : v.id with
  | true =>
    have hno : (code s'.point.pc).any (LoadUse core.exMem.inst ·) ≠ true := by
      intro huse
      rw [Option.any_eq_true] at huse
      obtain ⟨w, hw, huse⟩ := huse
      rw [hpoint] at hw
      rw [decide_eq_true_eq, ← hflight.id_text hid w hw] at huse
      exact h.free_id hex hid huse
    rw [if_neg (by decide), if_neg hno]
    simp [Slots.wait, Slots.next, Slots.shift, hid]
  | false =>
    have hfetch : v.fetch = true := by
      by_contra hf
      exact absurd (hex.symm.trans (h.restarted hid (by simpa using hf))) (by decide)
    have huse : (code s'.point.pc).any (LoadUse core.exMem.inst ·) = true := by
      rw [Option.any_eq_true]
      refine ⟨w, hw, decide_eq_true (h.held_id hex hid w ?_)⟩
      rw [(hflight.id_nop hid).2.1, ← hpoint]
      exact hw
    rw [if_neg (by decide), if_pos huse]
    simp [Slots.wait, Slots.next, Slots.shift, hid, hfetch]

end MipsSim
