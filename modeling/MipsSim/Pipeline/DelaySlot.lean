import MipsSim.Pipeline.Flow

/-!
# Delay slots

The flag `is_branch_delay` on its way to WB. EX of a jump or a taken branch sets it in `IF_ID`, in the
middle of the tick, ID copies it from there, and only a fetch that is not held back resets it. Over a
whole run the flag with which an instruction reaches WB is compared with what was fetched before it.
-/

namespace MipsSim

open Run

/-! ### Fetch order -/

/-- What the two youngest instructions have to do with each other, between two ticks. -/
structure FetchOrder (t : Tracked) : Prop where
  /-- The word in `IF_ID` is not marked yet. -/
  flag : ∀ v, t.ifId = some v → t.core.ifId.isBranchDelay = false
  /-- It is the last one that was fetched. -/
  last : ∀ v, t.ifId = some v → v.seq + 1 = t.fetched
  /-- It is fetched right behind the word in `ID_EX`. -/
  next : ∀ p v, t.idEx = some p → t.ifId = some v → p.seq + 1 = v.seq
  /-- Only a load has a bubble behind it. -/
  held : ∀ p, t.idEx = some p → t.ifId = none → (controlOf t.core.idEx.inst).memRead = true

lemma fetchOrder_start (core : Core) (mem : Mmu) : FetchOrder (.start core mem) := by
  constructor <;> nofun

lemma FetchOrder.tick {t t' : Tracked} (h : FetchOrder t) (hpipe : PipeOk t.core)
    (ht : t.tick = .ok t') : FetchOrder t' := by
  obtain ⟨memWb, inst, mem', rfl, -⟩ := Tracked.tick_word hpipe ht
  have hpc := Core.interpretWb_redirect t.core
  have hidEx : ∀ p, (t.record ((interpretWb t.core).1.next memWb inst) mem'
      (interpretWb t.core).2).idEx = some p → t.ifId = some p := by
    intro p hp
    simp only [Tracked.record] at hp
    split_ifs at hp
    exact hp
  have hifId := @Tracked.record_ifId t _ memWb inst mem' (interpretWb t.core).2 hpc
  have hfetched := @Tracked.record_fetched t _ memWb inst mem' (interpretWb t.core).2 hpc
  by_cases hh : (interpretWb t.core).1.holds inst
  · rw [if_pos hh] at hifId
    refine ⟨?_, ?_, ?_, ?_⟩
    · intro v hv
      rw [hifId] at hv
      cases hv
    · intro v hv
      rw [hifId] at hv
      cases hv
    · intro p v _ hv
      rw [hifId] at hv
      cases hv
    · intro p _ _
      rw [Tracked.record_core, Core.next_idEx_inst]
      exact hh.1
  · rw [if_neg hh] at hifId hfetched
    refine ⟨?_, ?_, ?_, ?_⟩
    · intro v _
      rw [Tracked.record_core, Core.next_ifId_of_not_holds hh]
    · intro v hv
      rw [hifId, Option.some.injEq] at hv
      rw [hfetched, ← hv]
    · intro p v hp hv
      rw [hifId, Option.some.injEq] at hv
      rw [← hv]
      exact h.last p (hidEx p hp)
    · intro p _ hnone
      rw [hifId] at hnone
      cases hnone

lemma Reachable.fetchOrder {t : Tracked} (h : Reachable t) : FetchOrder t := by
  induction h with
  | start regs pc cp0 mem h => exact fetchOrder_start _ _
  | tick h hfin ht ih => exact ih.tick h.pipeOk ht
  | other h mem' ih => exact ⟨ih.flag, ih.last, ih.next, ih.held⟩

/-! ### The flag in a tick -/

/-- Where the flag comes from in a tick that does not empty the pipeline. -/
lemma Passes.isBranchDelay {t t' : Tracked} (hp : Passes t t') (h : Reachable t) :
    t'.core.idEx.isBranchDelay =
        (t.core.idEx.redirect.isSome || t.core.ifId.isBranchDelay) ∧
      t'.core.exMem.isBranchDelay = t.core.idEx.isBranchDelay ∧
      t'.core.memWb.isBranchDelay = t.core.exMem.isBranchDelay := by
  obtain ⟨regs, cp0, mem, e, readData, badVAddr, mem₁, inst, mem', -, rfl⟩ := hp.record h
  refine ⟨?_, ?_, ?_⟩
  · rw [Tracked.record_core, Core.next_idEx]
    rfl
  · rw [Tracked.record_core, Core.next_exMem]
    rfl
  · rw [Tracked.record_core, Core.next_memWb]
    rfl

/-- The word transfers control: `J`, `JAL`, `JR`, or a branch whose condition holds. -/
def IdEx.Transfers (idEx : IdEx) : Prop :=
  match getOpcode idEx.inst with
  | .j | .jal => True
  | .r => getFunct idEx.inst = .jr
  | .beq => idEx.rsValue = idEx.rtValue
  | .bne => idEx.rsValue ≠ idEx.rtValue
  | _ => False

lemma Reachable.redirect_isSome_iff {t : Tracked} (h : Reachable t) :
    t.core.idEx.redirect.isSome = true ↔ t.core.idEx.Transfers := by
  rcases h.pipeOk.idEx_ok with hz | hd
  · rw [hz]
    exact ⟨nofun, nofun⟩
  · unfold IdEx.Transfers IdEx.redirect
    rw [hd.c_eq, controlOf]
    cases hop : getOpcode t.core.idEx.inst with
    | r => by_cases hjr : getFunct t.core.idEx.inst = .jr <;> simp [hjr]
    | cp0 => cases hc : getCp0Funct t.core.idEx.inst <;> simp
    | beq => by_cases heq : t.core.idEx.rsValue = t.core.idEx.rtValue <;> simp [heq]
    | bne => by_cases heq : t.core.idEx.rsValue = t.core.idEx.rtValue <;> simp [heq]
    | _ => simp

/-! ### Runs -/

/-- A run of one core from its reset state: `n` ticks, between which the memory may change in any
way. -/
structure IsRun (s : ℕ → Tracked) (n : ℕ) : Prop where
  start : ∃ regs pc cp0 mem, regs 0 = 0 ∧ s 0 = .start (.init regs pc cp0) mem
  tick : ∀ i < n, (s i).finished = false ∧
    ∃ mem, ({ s i with mem := mem } : Tracked).tick = .ok (s (i + 1))

section IsRun

variable {s : ℕ → Tracked} {n : ℕ} (h : IsRun s n)

include h

lemma IsRun.reachable {i : ℕ} (hi : i ≤ n) : Reachable (s i) := by
  induction i with
  | zero =>
    obtain ⟨regs, pc, cp0, mem, hzero, hstart⟩ := h.start
    rw [hstart]
    exact .start regs pc cp0 mem hzero
  | succ i ih =>
    obtain ⟨hfin, mem, ht⟩ := h.tick i hi
    exact ((ih (by omega)).other mem).tick hfin ht

lemma IsRun.passes {i : ℕ} (hi : i < n) (hf : ¬ (s i).core.flushes) : Passes (s i) (s (i + 1)) :=
  ⟨(h.tick i hi).1, hf, (h.tick i hi).2⟩

/-- What is behind `IF_ID` after a tick was one register ahead before it, and the pipeline was not
emptied. -/
lemma IsRun.back {i : ℕ} (hi : i < n) {k u : ℕ} (hk : k < 3)
    (hslot : (s (i + 1)).slot (k + 1) = some u) :
    ¬ (s i).core.flushes ∧ (s i).slot k = some u := by
  obtain ⟨-, mem, ht⟩ := h.tick i hi
  have hreach := (h.reachable (Nat.le_of_lt hi)).other mem
  by_cases hf : (s i).core.flushes
  · obtain ⟨inst, mem', -, hrec⟩ := Tracked.tick_of_flushes hreach.pipeOk hf ht
    rw [hrec] at hslot
    match k, hk with
    | 0, _ => simp [Tracked.slot, Tracked.record, hf] at hslot
    | 1, _ => simp [Tracked.slot, Tracked.record, hf] at hslot
    | 2, _ => simp [Tracked.slot, Tracked.record, hf] at hslot
  · refine ⟨hf, ?_⟩
    rw [← hslot]
    exact ((h.passes hi hf).slot_succ (h.reachable (Nat.le_of_lt hi)) hk).symm

lemma IsRun.slot_start (k : ℕ) : (s 0).slot k = none := by
  obtain ⟨regs, pc, cp0, mem, -, hstart⟩ := h.start
  rw [hstart]
  match k with
  | 0 | 1 | 2 | 3 | _ + 4 => rfl

/-- An instruction in `MEM_WB` was in `IF_ID` three ticks ago. -/
lemma IsRun.origin {u : ℕ} (hu : (s n).slot 3 = some u) :
    ∃ m, n = m + 3 ∧ (s m).slot 0 = some u ∧ ∀ i, m ≤ i → i < n → ¬ (s i).core.flushes := by
  have hstart : ∀ k v, (s 0).slot k ≠ some v := by
    intro k v
    rw [h.slot_start]
    nofun
  -- one register back for each tick back, as long as the run has one
  rcases n with _ | n
  · exact absurd hu (hstart 3 u)
  obtain ⟨hf₂, hu⟩ := h.back (Nat.lt_succ_self n) (by decide) hu
  rcases n with _ | n
  · exact absurd hu (hstart 2 u)
  obtain ⟨hf₁, hu⟩ := h.back (i := n) (by omega) (by decide) hu
  rcases n with _ | n
  · exact absurd hu (hstart 1 u)
  obtain ⟨hf₀, hu⟩ := h.back (i := n) (by omega) (by decide) hu
  refine ⟨n, rfl, hu, ?_⟩
  intro i hlo hhi
  have hcases : i = n ∨ i = n + 1 ∨ i = n + 2 := by omega
  rcases hcases with rfl | rfl | rfl
  · exact hf₀
  · exact hf₁
  · exact hf₂

/-- The flag with which a word reaches `MEM_WB` was set, if at all, in its first tick. -/
lemma IsRun.flag_eq {m : ℕ} (hm : m + 3 ≤ n) (hnf : ∀ i, m ≤ i → i < m + 3 → ¬ (s i).core.flushes)
    {v : DynInst} (hv : (s m).ifId = some v) :
    (s (m + 3)).core.memWb.isBranchDelay = true ↔ (s m).core.idEx.Transfers := by
  have hreach : ∀ i, i ≤ n → Reachable (s i) := fun i hi => h.reachable hi
  have hp : ∀ i, m ≤ i → i < m + 3 → Passes (s i) (s (i + 1)) := by
    intro i hlo hhi
    exact h.passes (by omega) (hnf i hlo hhi)
  have hid := ((hp m (by omega) (by omega)).isBranchDelay (hreach m (by omega))).1
  have hex := ((hp (m + 1) (by omega) (by omega)).isBranchDelay (hreach (m + 1) (by omega))).2.1
  have hwb := ((hp (m + 2) (by omega) (by omega)).isBranchDelay (hreach (m + 2) (by omega))).2.2
  rw [hwb, hex, hid, (hreach m (by omega)).fetchOrder.flag v hv, Bool.or_false]
  exact (hreach m (by omega)).redirect_isSome_iff

/-- Instructions are latched in fetch order, one at a time. -/
lemma IsRun.fetched_le {i j : ℕ} (hij : i ≤ j) (hj : j ≤ n) : (s i).fetched ≤ (s j).fetched := by
  induction j, hij using Nat.le_induction with
  | base => exact Nat.le_refl _
  | succ j hij ih =>
    obtain ⟨-, mem, ht⟩ := h.tick j hj
    have hstep : (s j).fetched ≤ (s (j + 1)).fetched := by
      simp only [Tracked.tick, bind_eq_ok, pure_eq_ok, Prod.exists] at ht
      obtain ⟨core', mem', fin, -, hrec⟩ := ht
      rw [← hrec]
      simp only [Tracked.record]
      split_ifs <;> omega
    exact (ih (by omega)).trans hstep

/-- A later word in `IF_ID` has a later place in fetch order. -/
lemma IsRun.seq_lt {i j : ℕ} (hij : i < j) (hj : j ≤ n) {v w : DynInst} (hv : (s i).ifId = some v)
    (hw : (s j).ifId = some w) : v.seq < w.seq := by
  rcases j with _ | j
  · omega
  obtain ⟨-, mem, ht⟩ := h.tick j hj
  have hseq : w.seq = (s j).fetched := by
    simp only [Tracked.tick, bind_eq_ok, pure_eq_ok, Prod.exists] at ht
    obtain ⟨core', mem', fin, -, hrec⟩ := ht
    rw [← hrec] at hw
    simp only [Tracked.record] at hw
    split_ifs at hw
    rw [Option.some.injEq] at hw
    rw [← hw]
  have hle := h.fetched_le (show i ≤ j by omega) (by omega)
  have hlast := (h.reachable (show i ≤ n by omega)).fetchOrder.last v hv
  omega

/-- A word that transfers control has the next one behind it. -/
lemma IsRun.ifId_of_transfers {m : ℕ} (hm : m ≤ n) {p : DynInst} (hp : (s m).idEx = some p)
    (htrans : (s m).core.idEx.Transfers) : ∃ w, (s m).ifId = some w ∧ p.seq + 1 = w.seq := by
  have hreach := h.reachable hm
  cases hif : (s m).ifId with
  | some w => exact ⟨w, rfl, hreach.fetchOrder.next p w hp hif⟩
  | none =>
    have hload := hreach.fetchOrder.held p hp hif
    have hsome := hreach.redirect_isSome_iff.mpr htrans
    rcases hreach.pipeOk.idEx_ok with hz | hd
    · rw [hz] at hload
      exact absurd hload (by decide)
    · rw [hd.redirect_eq_none (control_of_memRead hload)] at hsome
      cases hsome

/-- In every run an instruction reaches WB with the flag exactly when the instruction that was fetched
right before it was a jump or a taken branch, and no exception or `ERET` came in between. -/
theorem IsRun.isBranchDelay_iff {u : DynInst} (hu : (s n).memWb = some u) :
    (s n).core.memWb.isBranchDelay = true ↔
      ∃ m < n, ∃ p, (s m).idEx = some p ∧ p.seq + 1 = u.seq ∧
        (∀ i, m ≤ i → i < n → ¬ (s i).core.flushes) ∧ (s m).core.idEx.Transfers := by
  have hslot : (s n).slot 3 = some u.seq := by
    simp only [Tracked.slot, hu, Option.map_some]
  obtain ⟨m, rfl, hslot₀, hnf⟩ := h.origin hslot
  obtain ⟨v, hv, hseq⟩ := Option.map_eq_some_iff.mp hslot₀
  have hreach := h.reachable (show m ≤ m + 3 by omega)
  rw [h.flag_eq le_rfl hnf hv]
  constructor
  · intro htrans
    cases hid : (s m).idEx with
    | none =>
      -- a bubble goes nowhere
      have hnop := hreach.labelled.idEx_nop hid
      simp only [IdEx.Transfers, hnop, show getOpcode 0 = .r by decide] at htrans
      exact absurd htrans (by decide)
    | some p =>
      have hnext := hreach.fetchOrder.next p v hid hv
      exact ⟨m, by omega, p, hid, by omega, hnf, htrans⟩
  · rintro ⟨m', hm', p, hp, hpu, -, htrans⟩
    obtain ⟨w, hw, hpw⟩ := h.ifId_of_transfers (Nat.le_of_lt hm') hp htrans
    rcases lt_trichotomy m' m with hlt | rfl | hlt
    · have hgt := h.seq_lt hlt (by omega) hw hv
      omega
    · exact htrans
    · have hgt := h.seq_lt hlt (Nat.le_of_lt hm') hv hw
      omega

end IsRun

/-- A run in which nobody else touches the memory between the ticks. -/
lemma isRun_boot {mem : Mmu} {n : ℕ} {t : Tracked} (h : iterate Tracked.tick n (.boot mem) = .ok t)
    (hfin : t.finished = false) : IsRun (runFrom (.boot mem)) n := by
  refine ⟨⟨_, _, _, _, rfl, rfl⟩, ?_⟩
  intro i hi
  exact ⟨finished_runFrom h hfin (Nat.le_of_lt hi), (runFrom (.boot mem) i).mem, tick_runFrom h hi⟩

/-- `J` to itself at the start of kseg0. -/
def jumpMem : Mmu := imageMem 128 [0x08, 0, 0, 0]

/-- The word behind a `J` reaches WB with the flag. -/
theorem isBranchDelay_iff_jump : ∃ s u, IsRun s 5 ∧ (s 5).memWb = some u ∧ u.seq = 1 ∧
    (s 5).core.memWb.isBranchDelay = true ∧
    ∃ m < 5, ∃ p, (s m).idEx = some p ∧ p.seq + 1 = u.seq ∧
      (∀ i, m ≤ i → i < 5 → ¬ (s i).core.flushes) ∧ (s m).core.idEx.Transfers := by
  have hrun : IsRun (runFrom (.boot jumpMem)) 5 := isRun_boot rfl rfl
  have hflag : (runFrom (.boot jumpMem) 5).core.memWb.isBranchDelay = true := by decide
  exact ⟨_, _, hrun, rfl, rfl, hflag, (hrun.isBranchDelay_iff rfl).mp hflag⟩

end MipsSim
