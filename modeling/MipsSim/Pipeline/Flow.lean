import MipsSim.Pipeline.Precise

/-!
# Progress through the pipeline

IF holds the fetch back for one tick at most and then fetches what it held back. Every word that it
latches moves on by one pipeline register in each tick until WB gets it, unless an exception or
`ERET` empties the pipeline first, and this happens to each word once.
-/

namespace MipsSim

open Run

/-! ### Bubbles -/

/-- The core and the memory as IF finds them in a tick. -/
def beforeIf (core : Core) (mem : Mmu) : Except HostFault (Core × Mmu) := do
  let (core, mem) ← interpretMem (interpretWb core).1 mem
  pure (interpretId (interpretEx core), mem)

/-- In the tick from this state IF inserts a bubble. -/
def Stalled (core : Core) (mem : Mmu) : Prop :=
  ∃ core₁ mem₁ e inst mem₂, beforeIf core mem = .ok (core₁, mem₁) ∧
    mmuRead mem₁ core₁.pc 0 .word = .ok (e, inst, mem₂) ∧ core₁.stalls inst

lemma beforeIf_eq_ok {core core₁ : Core} {mem mem₁ : Mmu} (h : PipeOk core) :
    beforeIf core mem = .ok (core₁, mem₁) ↔
      ∃ e readData badVAddr, MemStep (interpretWb core).1 mem e readData badVAddr mem₁ ∧
        core₁ = (interpretWb core).1.advance
          (moveStage (interpretWb core).1 e readData badVAddr) := by
  have hadv := interpretId_interpretEx h.wb.ifId_exception h.wb.idEx_exception
  simp only [beforeIf, bind_eq_ok, pure_eq_ok, Prod.exists, Prod.mk.injEq]
  constructor
  · rintro ⟨core₂, mem₂, hmem, rfl, rfl⟩
    obtain ⟨e, readData, badVAddr, hstep, rfl⟩ := interpretMem_cases hmem
    exact ⟨e, readData, badVAddr, hstep, hadv _⟩
  · rintro ⟨e, readData, badVAddr, hstep, rfl⟩
    exact ⟨_, _, interpretMem_eq_ok hstep, hadv _, rfl⟩

/-- The address at which IF reads. -/
lemma beforeIf_pc {core core₁ : Core} {mem mem₁ : Mmu} (h : PipeOk core)
    (hok : beforeIf core mem = .ok (core₁, mem₁)) : core₁.pc = core.fetchPc := by
  obtain ⟨e, readData, badVAddr, -, rfl⟩ := (beforeIf_eq_ok h).mp hok
  exact Core.interpretWb_redirect core

/-- A bubble is inserted only behind a load in `IF_ID`. -/
lemma Stalled.memRead {core : Core} {mem : Mmu} (h : PipeOk core) (hs : Stalled core mem) :
    (controlOf (interpretWb core).1.ifId.inst).memRead = true := by
  obtain ⟨core₁, mem₁, e, inst, mem₂, hok, -, hstall⟩ := hs
  obtain ⟨e', readData, badVAddr, -, rfl⟩ := (beforeIf_eq_ok h).mp hok
  exact hstall.1

/-- A tick, with the word that IF reads in it. -/
lemma Tracked.tick_word {t t' : Tracked} (h : PipeOk t.core) (ht : t.tick = .ok t') :
    ∃ memWb inst mem', t' = t.record ((interpretWb t.core).1.next memWb inst) mem'
        (interpretWb t.core).2 ∧
      (Stalled t.core t.mem ↔ (interpretWb t.core).1.holds inst) := by
  obtain ⟨e, readData, badVAddr, mem₁, inst, mem', hstep, hread, rfl⟩ := (Tracked.tick_eq_ok h).mp ht
  have hok := (beforeIf_eq_ok h).mpr ⟨e, readData, badVAddr, hstep, rfl⟩
  have hpc := beforeIf_pc h hok
  refine ⟨_, inst, mem', rfl, ?_⟩
  constructor
  · rintro ⟨core₁, mem₂, e', inst', mem₃, hok', hread', hstall⟩
    rw [hok, Except.ok.injEq, Prod.mk.injEq] at hok'
    obtain ⟨rfl, rfl⟩ := hok'
    rw [hpc, hread, Except.ok.injEq, Prod.mk.injEq, Prod.mk.injEq] at hread'
    obtain ⟨-, rfl, -⟩ := hread'
    exact hstall
  · intro hh
    exact ⟨_, _, _, inst, mem', hok, by rw [hpc]; exact hread, hh⟩

/-- A tick that inserts a bubble leaves a word of zeros and the address that it has read at. -/
lemma Tracked.tick_of_stalled {t t' : Tracked} (h : PipeOk t.core) (ht : t.tick = .ok t')
    (hs : Stalled t.core t.mem) :
    t'.core.ifId.inst = 0 ∧ t'.core.pc = t.core.fetchPc ∧ t'.core.idEx.redirect = none := by
  obtain ⟨memWb, inst, mem', rfl, hiff⟩ := Tracked.tick_word h ht
  have hh := hiff.mp hs
  refine ⟨Core.next_ifId_of_holds hh, ?_, Core.next_redirect_of_holds hh⟩
  rw [← Core.interpretWb_redirect]
  exact Core.next_pc_of_holds hh

lemma Tracked.record_of_stalled {t t' : Tracked} (h : PipeOk t.core) (ht : t.tick = .ok t')
    (hs : Stalled t.core t.mem) : t'.ifId = none ∧ t'.fetched = t.fetched := by
  obtain ⟨memWb, inst, mem', rfl, hiff⟩ := Tracked.tick_word h ht
  have hh := hiff.mp hs
  have hpc := Core.interpretWb_redirect t.core
  rw [Tracked.record_ifId hpc, Tracked.record_fetched hpc, if_pos hh, if_pos hh]
  exact ⟨rfl, rfl⟩

/-- WB keeps a word of zeros in `IF_ID`. -/
lemma interpretWb_ifId_nop {core : Core} (h : core.ifId.inst = 0) :
    (interpretWb core).1.ifId.inst = 0 := by
  by_cases hf : core.flushes
  · rw [interpretWb_of_flushes hf]
    rfl
  · obtain ⟨regs, cp0, heq⟩ := interpretWb_of_not_flushes hf
    rw [heq]
    exact h

/-- IF inserts no bubble behind a bubble. -/
lemma not_stalled_of_nop {core : Core} (h : PipeOk core) (hnop : core.ifId.inst = 0) (mem : Mmu) :
    ¬ Stalled core mem := by
  intro hs
  have hread := hs.memRead h
  rw [interpretWb_ifId_nop hnop] at hread
  exact absurd hread (by decide)

/-- A tick that inserts no bubble latches the word that it has read. -/
lemma Tracked.tick_of_not_stalled {t t' : Tracked} (h : PipeOk t.core) (ht : t.tick = .ok t')
    (hs : ¬ Stalled t.core t.mem) :
    t'.ifId = some { seq := t.fetched, addr := t.core.fetchPc } ∧ t'.fetched = t.fetched + 1 := by
  obtain ⟨memWb, inst, mem', rfl, hiff⟩ := Tracked.tick_word h ht
  have hh := mt hiff.mpr hs
  have hpc := Core.interpretWb_redirect t.core
  rw [Tracked.record_ifId hpc, Tracked.record_fetched hpc, if_neg hh, if_neg hh]
  exact ⟨rfl, rfl⟩

/-! ### A word on its way -/

/-- The instruction in the pipeline register with this place, counted from `IF_ID`. -/
def Tracked.slot (t : Tracked) : ℕ → Option ℕ
  | 0 => t.ifId.map (·.seq)
  | 1 => t.idEx.map (·.seq)
  | 2 => t.exMem.map (·.seq)
  | 3 => t.memWb.map (·.seq)
  | _ => none

/-- The word in that pipeline register and the address after it. -/
def Core.latched (core : Core) : ℕ → Word × Word
  | 0 => (core.ifId.inst, core.ifId.nextPc)
  | 1 => (core.idEx.inst, core.idEx.nextPc)
  | 2 => (core.exMem.inst, core.exMem.nextPc)
  | _ => (core.memWb.inst, core.memWb.nextPc)

/-- Unless the pipeline is emptied, a tick moves every word on by one register. -/
lemma Tracked.slot_tick {t t' : Tracked} (h : PipeOk t.core) (hf : ¬ t.core.flushes)
    (ht : t.tick = .ok t') {n : ℕ} (hn : n < 3) :
    t'.slot (n + 1) = t.slot n ∧ t'.core.latched (n + 1) = t.core.latched n := by
  obtain ⟨regs, cp0, e, readData, badVAddr, mem₁, inst, mem', -, -, -, rfl⟩ :=
    Tracked.tick_of_not_flushes h hf ht
  match n, hn with
  | 0, _ =>
    simp only [Tracked.slot, Core.latched, Tracked.record, if_neg hf, Core.next_idEx_inst,
      Core.next_idEx_nextPc]
    exact ⟨trivial, rfl⟩
  | 1, _ =>
    simp only [Tracked.slot, Core.latched, Tracked.record, if_neg hf, Core.next_exMem,
      Option.map_map]
    exact ⟨rfl, rfl⟩
  | 2, _ =>
    simp only [Tracked.slot, Core.latched, Tracked.record, if_neg hf, Core.next_memWb]
    exact ⟨trivial, rfl⟩

lemma Tracked.mem_younger_of_slot {t : Tracked} {n u : ℕ} (hn : n < 3) (h : t.slot n = some u) :
    u ∈ t.younger := by
  match n, hn with
  | 0, _ =>
    obtain ⟨v, hv, rfl⟩ := Option.map_eq_some_iff.mp h
    simp [Tracked.younger, hv]
  | 1, _ =>
    obtain ⟨v, hv, rfl⟩ := Option.map_eq_some_iff.mp h
    simp [Tracked.younger, hv]
  | 2, _ =>
    obtain ⟨v, hv, rfl⟩ := Option.map_eq_some_iff.mp h
    simp [Tracked.younger, hv]

lemma Tracked.notMem_of_notMem_seqs {t : Tracked} {u : ℕ} (h : u ∉ t.seqs) :
    t.slot 3 ≠ some u ∧ u ∉ t.younger := by
  refine ⟨fun hslot => ?_, fun hy => h (Tracked.mem_seqs.mpr (.inr hy))⟩
  obtain ⟨v, hv, rfl⟩ := Option.map_eq_some_iff.mp hslot
  exact h (Tracked.mem_seqs.mpr (.inl ⟨v, hv, rfl⟩))

/-! ### Leaving the pipeline -/

/-- The instruction that WB gets. -/
def Event.reaches : Event → Option ℕ
  | .retired seq | .trapped seq | .returned seq | .exited seq => some seq
  | _ => none

/-- The instruction that is discarded. -/
def Event.drops : Event → Option ℕ
  | .squashed seq => some seq
  | _ => none

/-- How often WB got the instruction. -/
def reached (log : List Event) (u : ℕ) : ℕ := log.countP (fun e => e.reaches = some u)

/-- How often the instruction was discarded. -/
def dropped (log : List Event) (u : ℕ) : ℕ := log.countP (fun e => e.drops = some u)

/-- Only WB lets instructions leave. -/
lemma Tracked.counts_tick {t t' : Tracked} (ht : t.tick = .ok t') (u : ℕ) :
    reached t'.log u = reached t.wbEvents u + reached t.log u ∧
      dropped t'.log u = dropped t.wbEvents u + dropped t.log u := by
  simp only [Tracked.tick, bind_eq_ok, pure_eq_ok, Prod.exists] at ht
  obtain ⟨core', mem', fin, -, rfl⟩ := ht
  have hif : reached (t.ifEvents core') u = 0 ∧ dropped (t.ifEvents core') u = 0 := by
    unfold Tracked.ifEvents
    split_ifs <;> exact ⟨rfl, rfl⟩
  have hmem : reached (t.memEvents core') u = 0 ∧ dropped (t.memEvents core') u = 0 := by
    unfold Tracked.memEvents
    split
    · exact ⟨rfl, rfl⟩
    · split_ifs <;> exact ⟨rfl, rfl⟩
  unfold reached dropped at *
  simp only [Tracked.record, List.countP_append, hif, hmem, Nat.zero_add, and_self]

/-- Write back emits no event of an instruction that leaves. -/
lemma counts_writes (memWb : MemWb) (seq u : ℕ) :
    reached (memWb.writes seq) u = 0 ∧ dropped (memWb.writes seq) u = 0 := by
  unfold MemWb.writes
  split_ifs <;> exact ⟨rfl, rfl⟩

/-- WB gets the instruction in `MEM_WB`. -/
lemma reached_wbEvents (t : Tracked) (u : ℕ) :
    reached t.wbEvents u = if t.slot 3 = some u then 1 else 0 := by
  have hsquash : ∀ l : List DynInst, reached (l.map fun w => .squashed w.seq) u = 0 := by
    intro l
    simp [reached, List.countP_eq_zero, Event.reaches]
  cases hm : t.memWb with
  | none => simp [Tracked.wbEvents, Tracked.slot, hm, reached]
  | some v =>
    have hcons : ∀ e : Event, e.reaches = some v.seq → ∀ log, reached log u = 0 →
        reached (e :: log) u = if v.seq = u then 1 else 0 := by
      intro e he log hlog
      simp only [reached, List.countP_cons, he, Option.some.injEq, decide_eq_true_eq] at hlog ⊢
      rw [hlog, Nat.zero_add]
    simp only [Tracked.wbEvents, Tracked.slot, hm, Option.map_some, Option.some.injEq]
    by_cases hf : t.core.flushes
    · rw [if_pos hf]
      refine hcons _ ?_ _ (hsquash _)
      split_ifs <;> rfl
    · rw [if_neg hf]
      by_cases hx : t.core.exits
      · rw [if_pos hx]
        exact hcons (.exited v.seq) rfl [] rfl
      · rw [if_neg hx]
        exact hcons (.retired v.seq) rfl _ (counts_writes t.core.memWb v.seq u).1

/-- Emptying the pipeline discards what is behind `MEM_WB`. -/
lemma dropped_wbEvents {t : Tracked} (h : Reachable t) (u : ℕ) :
    dropped t.wbEvents u = if t.core.flushes then t.younger.count u else 0 := by
  by_cases hf : t.core.flushes
  · obtain ⟨v, hv⟩ := h.victim hf
    simp only [Tracked.wbEvents, hv, if_pos hf, Tracked.younger, dropped, List.countP_cons,
      List.countP_map, List.count]
    have hhead : (if t.core.memWb.inst = instructionEret then Event.returned v.seq
        else .trapped v.seq).drops = none := by
      split_ifs <;> rfl
    rw [hhead]
    simp only [reduceCtorEq, decide_false, Bool.false_eq_true, if_false, Nat.add_zero]
    refine List.countP_congr fun w _ => ?_
    simp [Event.drops]
  · rw [if_neg hf]
    unfold Tracked.wbEvents
    split
    · rfl
    · rw [if_neg hf]
      split_ifs
      · rfl
      · exact (counts_writes _ _ u).2

/-- After a tick only what was behind `MEM_WB` and what was fetched is in flight, and after the
pipeline was emptied only the latter. -/
lemma Reachable.seqs_tick {t t' : Tracked} (h : Reachable t) (ht : t.tick = .ok t') :
    (∀ u ∈ t'.seqs, (¬ t.core.flushes ∧ u ∈ t.younger) ∨ u = t.fetched) ∧
      t.fetched ≤ t'.fetched := by
  by_cases hf : t.core.flushes
  · have hr := Tracked.restarts_of_flushes h.pipeOk hf ht
    rw [hr.seqs_eq, hr.fetched_eq]
    exact ⟨fun u hu => .inr (List.mem_singleton.mp hu), Nat.le_succ _⟩
  · rcases (Tracked.moves_of_not_flushes h.pipeOk hf ht).seqs_eq with ⟨heq, hn⟩ | ⟨heq, hn⟩
    · rw [heq, hn]
      exact ⟨fun u hu => .inl ⟨hf, hu⟩, Nat.le_refl _⟩
    · rw [heq, hn]
      refine ⟨fun u hu => ?_, Nat.le_succ _⟩
      rcases List.mem_append.mp hu with hu | hu
      · exact .inl ⟨hf, hu⟩
      · exact .inr (List.mem_singleton.mp hu)

/-- Instructions that have left were fetched. -/
lemma Reachable.lt_fetched_of_count {t : Tracked} (h : Reachable t) {u : ℕ}
    (hu : t.fetched ≤ u) : reached t.log u = 0 ∧ dropped t.log u = 0 := by
  induction h with
  | start regs pc cp0 mem h => exact ⟨rfl, rfl⟩
  | other h mem' ih => exact ih hu
  | @tick t t' h hfin ht ih =>
    have hle : t.fetched ≤ u := (h.seqs_tick ht).2.trans hu
    have hnot : u ∉ t.seqs := fun hin => absurd (h.ordered.bounded u hin) (Nat.not_lt.mpr hle)
    obtain ⟨hr, hd⟩ := Tracked.counts_tick ht u
    obtain ⟨hwb, hy⟩ := Tracked.notMem_of_notMem_seqs hnot
    rw [hr, hd, (ih hle).1, (ih hle).2, reached_wbEvents, dropped_wbEvents h, if_neg hwb,
      List.count_eq_zero.mpr hy, ite_self]
    exact ⟨rfl, rfl⟩

/-! ### The life of a word -/

/-- The states that a core reaches from a state in `n` ticks. -/
inductive Ticks (t : Tracked) : ℕ → Tracked → Prop
  | zero : Ticks t 0 t
  | tick {n : ℕ} {s s' : Tracked} (h : Ticks t n s) (hfin : s.finished = false)
      (hs : s.tick = .ok s') : Ticks t (n + 1) s'
  | other {n : ℕ} {s : Tracked} (h : Ticks t n s) (mem' : Mmu) : Ticks t n { s with mem := mem' }

lemma Ticks.reachable {t s : Tracked} {n : ℕ} (h : Ticks t n s) (ht : Reachable t) :
    Reachable s := by
  induction h with
  | zero => exact ht
  | tick h hfin hs ih => exact ih.tick hfin hs
  | other h mem' ih => exact ih.other mem'

/-- What became of the `u`-th fetched word `n` ticks after it was latched: it is in the pipeline
register that many places on and nowhere else, or WB got it once, in the fourth tick, or it was
discarded once. -/
inductive Fate (w : Word × Word) (u : ℕ) : ℕ → Tracked → Prop
  | inFlight {n : ℕ} {s : Tracked} (hn : n ≤ 3) (hslot : s.slot n = some u)
      (hword : s.core.latched n = w) (hcount : s.seqs.count u = 1)
      (hreached : reached s.log u = 0) (hdropped : dropped s.log u = 0) : Fate w u n s
  | writtenBack {n : ℕ} {s : Tracked} (hn : 4 ≤ n) (hcount : s.seqs.count u = 0)
      (hreached : reached s.log u = 1) (hdropped : dropped s.log u = 0) : Fate w u n s
  | discarded {n : ℕ} {s : Tracked} (hn : 1 ≤ n) (hcount : s.seqs.count u = 0)
      (hreached : reached s.log u = 0) (hdropped : dropped s.log u = 1) : Fate w u n s

lemma Reachable.nodup_seqs {t : Tracked} (h : Reachable t) : t.seqs.Nodup :=
  h.ordered.sorted.imp fun hlt => Nat.ne_of_lt hlt

/-- Of an instruction behind `MEM_WB` there is one copy, and none in `MEM_WB`. -/
lemma Reachable.count_younger {t : Tracked} (h : Reachable t) {u : ℕ} (hu : u ∈ t.younger) :
    t.younger.count u = 1 ∧ t.slot 3 ≠ some u := by
  have hnodup := List.nodup_append.mp h.nodup_seqs
  refine ⟨List.count_eq_one_of_mem hnodup.2.1 hu, fun hslot => ?_⟩
  obtain ⟨v, hv, rfl⟩ := Option.map_eq_some_iff.mp hslot
  exact hnodup.2.2 v.seq (by simp [hv]) v.seq hu rfl

/-- An instruction that is not in flight does not come back. -/
lemma Reachable.count_seqs_tick {t t' : Tracked} (h : Reachable t) (ht : t.tick = .ok t') {u : ℕ}
    (hu : u < t.fetched) (hnot : t.core.flushes ∨ u ∉ t.younger) : t'.seqs.count u = 0 := by
  rw [List.count_eq_zero]
  intro hin
  rcases (h.seqs_tick ht).1 u hin with ⟨hf, hy⟩ | rfl
  · exact hnot.elim hf fun hn => hn hy
  · exact absurd hu (Nat.lt_irrefl _)

/-- One tick in the life of a word. -/
lemma Fate.tick {w : Word × Word} {u n : ℕ} {s s' : Tracked} (hf : Fate w u n s) (h : Reachable s)
    (hu : u < s.fetched) (hfin : s.finished = false) (hs : s.tick = .ok s') :
    Fate w u (n + 1) s' := by
  obtain ⟨hr, hd⟩ := Tracked.counts_tick hs u
  rw [reached_wbEvents] at hr
  rw [dropped_wbEvents h] at hd
  cases hf with
  | inFlight hn hslot hword hcount hreached hdropped =>
    rcases Nat.lt_or_eq_of_le hn with hlt | rfl
    · have hy := Tracked.mem_younger_of_slot hlt hslot
      obtain ⟨hone, hwb⟩ := h.count_younger hy
      rw [if_neg hwb, hreached] at hr
      by_cases hflush : s.core.flushes
      · rw [if_pos hflush, hone, hdropped] at hd
        exact .discarded (Nat.le_add_left _ _) (h.count_seqs_tick hs hu (.inl hflush)) hr hd
      · rw [if_neg hflush, hdropped] at hd
        obtain ⟨hslot', hword'⟩ := Tracked.slot_tick h.pipeOk hflush hs hlt
        refine .inFlight hlt (hslot'.trans hslot) (hword'.trans hword) ?_ hr hd
        apply List.count_eq_one_of_mem (h.tick hfin hs).nodup_seqs
        rcases (Tracked.moves_of_not_flushes h.pipeOk hflush hs).seqs_eq with ⟨heq, -⟩ | ⟨heq, -⟩
        · rw [heq]
          exact hy
        · rw [heq]
          exact List.mem_append_left _ hy
    · -- the tick in which WB gets the word
      have hnot : u ∉ s.younger := fun hy => (h.count_younger hy).2 hslot
      rw [if_pos hslot, hreached] at hr
      rw [List.count_eq_zero.mpr hnot, ite_self, hdropped] at hd
      exact .writtenBack (Nat.le_refl _) (h.count_seqs_tick hs hu (.inr hnot)) hr hd
  | writtenBack hn hcount hreached hdropped =>
    obtain ⟨hwb, hy⟩ := Tracked.notMem_of_notMem_seqs (List.count_eq_zero.mp hcount)
    rw [if_neg hwb, hreached] at hr
    rw [List.count_eq_zero.mpr hy, ite_self, hdropped] at hd
    exact .writtenBack (Nat.le_succ_of_le hn) (h.count_seqs_tick hs hu (.inr hy)) hr hd
  | discarded hn hcount hreached hdropped =>
    obtain ⟨hwb, hy⟩ := Tracked.notMem_of_notMem_seqs (List.count_eq_zero.mp hcount)
    rw [if_neg hwb, hreached] at hr
    rw [List.count_eq_zero.mpr hy, ite_self, hdropped] at hd
    exact .discarded (Nat.le_succ_of_le hn) (h.count_seqs_tick hs hu (.inr hy)) hr hd

/-- The whole life of a word, from the tick that latched it. -/
lemma Ticks.fate {t₁ s : Tracked} {w : Word × Word} {u n : ℕ} (h : Ticks t₁ n s)
    (ht : Reachable t₁) (hstart : Fate w u 0 t₁) (hu : u < t₁.fetched) :
    Fate w u n s ∧ u < s.fetched := by
  induction h with
  | zero => exact ⟨hstart, hu⟩
  | tick h hfin hs ih =>
    have hreach := h.reachable ht
    exact ⟨ih.1.tick hreach ih.2 hfin hs, ih.2.trans_le (hreach.seqs_tick hs).2⟩
  | other h mem' ih =>
    refine ⟨?_, ih.2⟩
    cases ih.1 with
    | inFlight hn hslot hword hcount hr hd => exact .inFlight hn hslot hword hcount hr hd
    | writtenBack hn hcount hr hd => exact .writtenBack hn hcount hr hd
    | discarded hn hcount hr hd => exact .discarded hn hcount hr hd

/-! ### Ticks that keep the pipeline -/

/-- A tick that does not empty the pipeline, from the state with any memory. -/
structure Passes (t t' : Tracked) : Prop where
  finished : t.finished = false
  not_flushes : ¬ t.core.flushes
  tick : ∃ mem, ({ t with mem := mem } : Tracked).tick = .ok t'

lemma Passes.reachable {t t' : Tracked} (hp : Passes t t') (h : Reachable t) : Reachable t' := by
  obtain ⟨mem, ht⟩ := hp.tick
  exact (h.other mem).tick hp.finished ht

lemma Passes.record {t t' : Tracked} (hp : Passes t t') (h : Reachable t) :
    ∃ regs cp0 mem e readData badVAddr mem₁ inst mem',
      MemStep (t.core.withRegs regs cp0) mem e readData badVAddr mem₁ ∧
      t' = t.record ((t.core.withRegs regs cp0).next (moveStage t.core e readData badVAddr) inst)
        mem' (interpretWb t.core).2 := by
  obtain ⟨mem, ht⟩ := hp.tick
  obtain ⟨regs, cp0, e, readData, badVAddr, mem₁, inst, mem', -, hstep, -, rfl⟩ :=
    Tracked.tick_of_not_flushes (h.other mem).pipeOk hp.not_flushes ht
  exact ⟨regs, cp0, mem, e, readData, badVAddr, mem₁, inst, mem', hstep, rfl⟩

lemma Passes.idEx_eq {t t' : Tracked} (hp : Passes t t') (h : Reachable t) : t'.idEx = t.ifId := by
  obtain ⟨regs, cp0, mem, e, readData, badVAddr, mem₁, inst, mem', -, rfl⟩ := hp.record h
  exact if_neg hp.not_flushes

lemma Passes.slot_succ {t t' : Tracked} (hp : Passes t t') (h : Reachable t) {n : ℕ} (hn : n < 3) :
    t'.slot (n + 1) = t.slot n := by
  obtain ⟨mem, ht⟩ := hp.tick
  exact (Tracked.slot_tick (h.other mem).pipeOk hp.not_flushes ht hn).1

/-- What is fetched next is latched in this tick or in the next one. -/
lemma Passes.fetch {t t₁ t₂ : Tracked} (h₁ : Passes t t₁) (h₂ : Passes t₁ t₂) (h : Reachable t) :
    t₁.ifId = some { seq := t.fetched, addr := t.core.fetchPc } ∨
      (t₁.ifId = none ∧ t₂.ifId = some { seq := t.fetched, addr := t.core.fetchPc }) := by
  obtain ⟨mem, ht⟩ := h₁.tick
  by_cases hs : Stalled t.core mem
  · obtain ⟨hnop, hpc, hnone⟩ := Tracked.tick_of_stalled (h.other mem).pipeOk ht hs
    obtain ⟨hif, hn⟩ := Tracked.record_of_stalled (h.other mem).pipeOk ht hs
    have hreach := h₁.reachable h
    obtain ⟨mem₂, ht₂⟩ := h₂.tick
    have hif₂ := (Tracked.tick_of_not_stalled (hreach.other mem₂).pipeOk ht₂
      (not_stalled_of_nop hreach.pipeOk hnop mem₂)).1
    right
    refine ⟨hif, ?_⟩
    rw [hif₂, Core.fetchPc_of_not_flushes h₂.not_flushes, hnone, Option.getD_none, hpc]
    exact congrArg some (congrArg (DynInst.mk · _ 0 0) hn)
  · exact .inl (Tracked.tick_of_not_stalled (h.other mem).pipeOk ht hs).1

/-! ### Progress -/

/-- What the fetch unit and the pipeline do with the words of the program, from a state on. -/
structure Flows (t : Tracked) : Prop where
  /-- IF reads at this address. -/
  address : ∀ core mem, beforeIf t.core t.mem = .ok (core, mem) → core.pc = t.core.fetchPc
  /-- The tick after a bubble inserts none, whatever happened to the memory in between. -/
  no_two_bubbles : ∀ t₁ mem, t.tick = .ok t₁ → Stalled t.core t.mem → ¬ Stalled t₁.core mem
  /-- The fetch that was held back is made at the same address. -/
  refetch : ∀ t₁, t.tick = .ok t₁ → Stalled t.core t.mem → ¬ t₁.core.flushes →
    t₁.core.fetchPc = t.core.fetchPc
  /-- A word that is latched meets one of the three fates. -/
  fate : ∀ t₁, t.tick = .ok t₁ → ¬ Stalled t.core t.mem →
    ∀ n s, Ticks t₁ n s → Fate (t₁.core.latched 0) t.fetched n s
  /-- No instruction is in two pipeline registers. -/
  nodup : t.seqs.Nodup

/-- Progress and no loss, in every run. -/
theorem Reachable.flows {t : Tracked} (h : Reachable t) (hfin : t.finished = false) : Flows t where
  address := fun core mem hok => beforeIf_pc h.pipeOk hok
  no_two_bubbles := by
    intro t₁ mem ht hs
    exact not_stalled_of_nop (h.tick hfin ht).pipeOk (Tracked.tick_of_stalled h.pipeOk ht hs).1 mem
  refetch := by
    intro t₁ ht hs hf
    obtain ⟨-, hpc, hnone⟩ := Tracked.tick_of_stalled h.pipeOk ht hs
    rw [Core.fetchPc_of_not_flushes hf, hnone, Option.getD_none, hpc]
  fate := by
    intro t₁ ht hs n s hticks
    have hreach := h.tick hfin ht
    obtain ⟨hif, hn⟩ := Tracked.tick_of_not_stalled h.pipeOk ht hs
    have hslot : t₁.slot 0 = some t.fetched := by
      simp only [Tracked.slot, hif, Option.map_some]
    have hmem : t.fetched ∈ t₁.seqs :=
      Tracked.mem_seqs.mpr (.inr (Tracked.mem_younger_of_slot (by decide) hslot))
    obtain ⟨hr, hd⟩ := Tracked.counts_tick ht t.fetched
    have hnot : t.fetched ∉ t.seqs := fun hin =>
      absurd (h.ordered.bounded t.fetched hin) (Nat.lt_irrefl _)
    obtain ⟨hwb, hy⟩ := Tracked.notMem_of_notMem_seqs hnot
    obtain ⟨hr₀, hd₀⟩ := h.lt_fetched_of_count (Nat.le_refl t.fetched)
    rw [reached_wbEvents, if_neg hwb, hr₀] at hr
    rw [dropped_wbEvents h, List.count_eq_zero.mpr hy, ite_self, hd₀] at hd
    have hstart : Fate (t₁.core.latched 0) t.fetched 0 t₁ :=
      .inFlight (Nat.zero_le _) hslot rfl (List.count_eq_one_of_mem hreach.nodup_seqs hmem) hr hd
    exact (hticks.fate hreach hstart (by rw [hn]; exact Nat.lt_succ_self _)).1
  nodup := h.nodup_seqs

/-- `LW $2, 0($1)` at the start of kseg0, with `ADD $3, $2, $2` behind it. -/
def loadUseMem : Mmu := imageMem 128 [0x8C, 0x22, 0, 0, 0, 0x42, 0x18, 0x20]

lemma tick_loadUseMem :
    ∃ t, (Tracked.boot loadUseMem).tick = .ok t ∧ t.finished = false ∧
      ∃ core mem inst mem', beforeIf t.core t.mem = .ok (core, mem) ∧
        mmuRead mem core.pc 0 .word = .ok (.none, inst, mem') ∧ core.stalls inst :=
  ⟨_, rfl, rfl, _, _, _, _, rfl, rfl, rfl, .inl rfl⟩

/-- The use of the loaded register is held back in the second tick. -/
theorem Reachable.flows_loadUse : ∃ t, Reachable t ∧ Stalled t.core t.mem ∧ Flows t := by
  obtain ⟨t, ht, hfin, core, mem, inst, mem', hok, hread, hstall⟩ := tick_loadUseMem
  have hreach := (reachable_boot loadUseMem).tick rfl ht
  exact ⟨t, hreach, ⟨core, mem, _, inst, mem', hok, hread, hstall⟩, hreach.flows hfin⟩

end MipsSim
