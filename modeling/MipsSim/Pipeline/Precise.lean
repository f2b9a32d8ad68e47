import MipsSim.Pipeline.Track
import Mathlib.Data.List.Sort

/-!
# Precise exceptions

The order of the instructions in flight, and what follows from it when an exception is taken or
`ERET` is recognised: everything older is done, nothing of the rest ever happens, and the program
continues at the right address. Also what an exception leaves in EPC.
-/

namespace MipsSim

open Run

/-! ### Order -/

/-- The places in fetch order of the instructions behind `MEM_WB`, oldest first. -/
def Tracked.younger (t : Tracked) : List ℕ :=
  (t.exMem.toList ++ t.idEx.toList ++ t.ifId.toList).map (·.seq)

/-- The places in fetch order of the instructions in the pipeline, oldest first. -/
def Tracked.seqs (t : Tracked) : List ℕ := t.memWb.toList.map (·.seq) ++ t.younger

/-- The instruction has left the pipeline. -/
def Left (log : List Event) (seq : ℕ) : Prop := ∃ e ∈ log, e.leaver = some seq

/-- What one tick does to the instructions in flight and to the log. -/
structure Tracked.Moves (t t' : Tracked) (new : List Event) : Prop where
  log_eq : t'.log = new ++ t.log
  leavers : ∀ v, t.memWb = some v → Left new v.seq
  seqs_eq : (t'.seqs = t.younger ∧ t'.fetched = t.fetched) ∨
    (t'.seqs = t.younger ++ [t.fetched] ∧ t'.fetched = t.fetched + 1)
  writers : ∀ e ∈ new, ∀ u, e.writer = some u →
    (∃ v, t.memWb = some v ∧ u = v.seq) ∨
      (∃ v, t'.memWb = some v ∧ u = v.seq ∧ t'.core.memWb.commits)

/-- The events of a WB that writes back are by the instruction there. -/
lemma writer_of_mem_writes {memWb : MemWb} {seq u : ℕ} {e : Event} (he : e ∈ memWb.writes seq)
    (hu : e.writer = some u) : u = seq := by
  unfold MemWb.writes at he
  split_ifs at he <;> simp at he <;> subst he <;> simpa [Event.writer] using hu.symm

/-- A store is not an `ERET`. -/
lemma ne_eret_of_memWrite {core : Core} (h : PipeOk core) (hw : core.exMem.cMemWrite = true) :
    core.exMem.inst ≠ instructionEret := by
  intro heret
  rcases h.exMem_ok with h | h
  · rw [h.memWrite_eq] at hw
    cases hw
  · rw [h.memWrite_eq, heret] at hw
    revert hw
    decide

lemma Tracked.moves_of_not_flushes {t t' : Tracked} (h : PipeOk t.core) (hf : ¬ t.core.flushes)
    (ht : t.tick = .ok t') :
    t.Moves t' (t.ifEvents t'.core ++ t.memEvents t'.core ++ t.wbEvents) := by
  obtain ⟨regs, cp0, e, readData, badVAddr, mem₁, inst, mem', -, -, -, rfl⟩ :=
    Tracked.tick_of_not_flushes h hf ht
  have hpc : (t.core.withRegs regs cp0).idEx.redirect.getD (t.core.withRegs regs cp0).pc =
      t.core.fetchPc := (Core.fetchPc_of_not_flushes hf).symm
  refine ⟨rfl, ?_, ?_, ?_⟩
  · intro v hv
    have hmem : ∃ e ∈ t.wbEvents, e.leaver = some v.seq := by
      simp only [Tracked.wbEvents, hv, if_neg hf]
      split_ifs
      · exact ⟨.exited v.seq, by simp, rfl⟩
      · exact ⟨.retired v.seq, by simp, rfl⟩
    obtain ⟨e, he, hl⟩ := hmem
    exact ⟨e, List.mem_append_right _ he, hl⟩
  · rw [Tracked.record_fetched hpc]
    simp only [Tracked.seqs, Tracked.younger, Tracked.record_ifId hpc]
    by_cases hh : (t.core.withRegs regs cp0).holds inst
    · left
      simp [Tracked.record, hf, hh, Option.toList_map, Function.comp_def]
    · right
      simp [Tracked.record, hf, hh, Option.toList_map, Function.comp_def]
  · intro ev hev u hu
    rcases List.mem_append.mp hev with hev | hev
    · rcases List.mem_append.mp hev with hev | hev
      · -- a fetch writes nothing
        unfold Tracked.ifEvents at hev
        split_ifs at hev <;> simp at hev
        subst hev
        cases hu
      · right
        unfold Tracked.memEvents at hev
        cases hx : t.exMem with
        | none => simp [hx] at hev
        | some v =>
          simp only [hx] at hev
          split_ifs at hev with hstore
          · rw [List.mem_singleton] at hev
            subst hev
            refine ⟨v, by simp [Tracked.record, hf, hx], by simpa [Event.writer] using hu.symm, ?_⟩
            refine ⟨?_, hstore.2.2.2.2⟩
            simp only [Tracked.record, Core.next_memWb]
            exact ne_eret_of_memWrite h hstore.2.2.2.1
          · cases hev
    · left
      unfold Tracked.wbEvents at hev
      cases hm : t.memWb with
      | none => simp [hm] at hev
      | some v =>
        simp only [hm, if_neg hf] at hev
        refine ⟨v, rfl, ?_⟩
        split_ifs at hev
        · rw [List.mem_singleton] at hev
          subst hev
          cases hu
        · rcases List.mem_cons.mp hev with rfl | hev
          · cases hu
          · exact writer_of_mem_writes hev hu

/-- What a tick that empties the pipeline does to the record. -/
structure Tracked.Restarts (t t' : Tracked) : Prop where
  log_eq : t'.log = .fetched t.fetched t.core.flushTarget :: (t.wbEvents ++ t.log)
  ifId_eq : t'.ifId = some { seq := t.fetched, addr := t.core.flushTarget }
  seqs_eq : t'.seqs = [t.fetched]
  fetched_eq : t'.fetched = t.fetched + 1
  memWb_eq : t'.memWb = none
  regs_eq : t'.core.regs = t.core.regs
  cp0_eq : t'.core.cp0 = t.core.flushCp0
  sameWrites : t.mem.SameWrites t'.mem

lemma Tracked.restarts_of_flushes {t t' : Tracked} (h : PipeOk t.core) (hf : t.core.flushes)
    (ht : t.tick = .ok t') : t.Restarts t' := by
  obtain ⟨inst, mem', hread, rfl⟩ := Tracked.tick_of_flushes h hf ht
  have hpc : (Core.init t.core.regs t.core.flushTarget t.core.flushCp0).idEx.redirect.getD
      (Core.init t.core.regs t.core.flushTarget t.core.flushCp0).pc = t.core.fetchPc :=
    (Core.fetchPc_of_flushes hf).symm
  have hh := Core.not_holds_init t.core.regs t.core.flushTarget t.core.flushCp0 inst
  have hne : (t.core.restart inst).pc ≠ t.core.fetchPc := by
    rw [← hpc]
    exact mt Core.next_pc_eq_iff.mp hh
  have hmem : t.memEvents (t.core.restart inst) = [] := by
    unfold Tracked.memEvents
    split <;> simp [hf]
  refine ⟨?_, ?_, ?_, ?_, ?_, ?_, ?_, ?_⟩
  · rw [← Core.fetchPc_of_flushes hf]
    simp [Tracked.record, Tracked.ifEvents, hne, hmem]
  · rw [← Core.fetchPc_of_flushes hf]
    simp [Tracked.record, hne]
  · simp [Tracked.seqs, Tracked.younger, Tracked.record, hf, hne]
  · simp [Tracked.record, hne]
  · simp [Tracked.record, hf]
  · simp only [Tracked.record, Core.restart, Core.next_regs]
    rfl
  · simp only [Tracked.record, Core.restart, Core.next_cp0]
    rfl
  · exact (mmuRead_spec hread).2

lemma Event.writer_of_mem_flush {t : Tracked} (hf : t.core.flushes) {e : Event}
    (he : e ∈ t.wbEvents) : e.writer = none := by
  unfold Tracked.wbEvents at he
  split at he
  · cases he
  · rw [if_pos hf] at he
    rcases List.mem_cons.mp he with rfl | he
    · split_ifs <;> rfl
    · obtain ⟨u, -, rfl⟩ := List.mem_map.mp he
      rfl

/-- The instructions in flight are in fetch order, every other fetched instruction has left, and an
instruction that has written is older than all in flight, except for a store that waits in `MEM_WB`
to be written back. -/
structure Tracked.Ordered (t : Tracked) : Prop where
  sorted : t.seqs.Pairwise (· < ·)
  bounded : ∀ u ∈ t.seqs, u < t.fetched
  left : ∀ u < t.fetched, u ∈ t.seqs ∨ Left t.log u
  writers : ∀ e ∈ t.log, ∀ u, e.writer = some u →
    (∀ w ∈ t.seqs, u < w) ∧ u < t.fetched ∨
      (∃ v, t.memWb = some v ∧ u = v.seq ∧ t.core.memWb.commits)

lemma Left.mono {new log : List Event} {u : ℕ} (h : Left log u) : Left (new ++ log) u := by
  obtain ⟨e, he, hl⟩ := h
  exact ⟨e, List.mem_append_right _ he, hl⟩

lemma Tracked.Ordered.younger_gt {t : Tracked} (h : t.Ordered) {v : DynInst}
    (hv : t.memWb = some v) : ∀ w ∈ t.younger, v.seq < w := by
  have hs := h.sorted
  simp only [Tracked.seqs, hv, Option.toList_some, List.map_cons, List.map_nil,
    List.singleton_append, List.pairwise_cons] at hs
  exact hs.1

lemma Tracked.mem_seqs {t : Tracked} {u : ℕ} :
    u ∈ t.seqs ↔ (∃ v, t.memWb = some v ∧ v.seq = u) ∨ u ∈ t.younger := by
  simp [Tracked.seqs]

/-- Everything ahead of an instruction in `MEM_WB` that is not going to be written back is through, and
nothing else has written. -/
lemma Tracked.Ordered.oldest {t : Tracked} (h : t.Ordered) {v : DynInst} (hv : t.memWb = some v)
    (hc : ¬ t.core.memWb.commits) :
    (∀ u < v.seq, Left t.log u) ∧ ∀ e ∈ t.log, ∀ u, e.writer = some u → u < v.seq := by
  have hvmem : v.seq ∈ t.seqs := mem_seqs.mpr (.inl ⟨v, hv, rfl⟩)
  constructor
  · intro u hu
    rcases h.left u (hu.trans (h.bounded v.seq hvmem)) with hin | hleft
    · rcases mem_seqs.mp hin with ⟨w, hw, rfl⟩ | hin
      · rw [hv, Option.some.injEq] at hw
        rw [hw] at hu
        exact absurd hu (Nat.lt_irrefl _)
      · exact absurd (h.younger_gt hv u hin) (by omega)
    · exact hleft
  · intro e he u hu
    rcases h.writers e he u hu with ⟨hall, -⟩ | ⟨-, -, -, hc'⟩
    · exact hall v.seq hvmem
    · exact absurd hc' hc

/-- A tick that does not empty the pipeline keeps the order. -/
lemma Tracked.Ordered.moves {t t' : Tracked} {new : List Event} (h : t.Ordered)
    (hm : t.Moves t' new) : t'.Ordered := by
  have hyounger : ∀ w ∈ t.younger, w < t.fetched := fun w hw => h.bounded w (mem_seqs.mpr (.inr hw))
  have hsub : t.younger.Pairwise (· < ·) := (List.pairwise_append.mp h.sorted).2.1
  have hfetched : t.fetched ≤ t'.fetched := by
    rcases hm.seqs_eq with ⟨-, h'⟩ | ⟨-, h'⟩ <;> omega
  have hseqs : ∀ w ∈ t'.seqs, w ∈ t.younger ∨ w = t.fetched := by
    intro w hw
    rcases hm.seqs_eq with ⟨h', -⟩ | ⟨h', -⟩ <;> rw [h'] at hw
    · exact .inl hw
    · simpa using hw
  -- whoever was in `MEM_WB` is older than all that are in flight now
  have hold : ∀ v, t.memWb = some v → (∀ w ∈ t'.seqs, v.seq < w) ∧ v.seq < t'.fetched := by
    intro v hv
    have hvf := h.bounded v.seq (mem_seqs.mpr (.inl ⟨v, hv, rfl⟩))
    refine ⟨fun w hw => ?_, by omega⟩
    rcases hseqs w hw with hw | rfl
    · exact h.younger_gt hv w hw
    · exact hvf
  refine ⟨?_, ?_, ?_, ?_⟩
  · rcases hm.seqs_eq with ⟨h', -⟩ | ⟨h', -⟩ <;> rw [h']
    · exact hsub
    · rw [List.pairwise_append]
      exact ⟨hsub, List.pairwise_singleton _ _, by simpa using hyounger⟩
  · rcases hm.seqs_eq with ⟨h', hn⟩ | ⟨h', hn⟩ <;> rw [h', hn]
    · exact hyounger
    · intro w hw
      rcases List.mem_append.mp hw with hw | hw
      · have := hyounger w hw
        omega
      · rw [List.mem_singleton] at hw
        omega
  · intro u hu
    rw [hm.log_eq]
    by_cases hlt : u < t.fetched
    · rcases h.left u hlt with hin | hleft
      · rcases mem_seqs.mp hin with ⟨v, hv, rfl⟩ | hin
        · obtain ⟨e, he, hl⟩ := hm.leavers v hv
          exact .inr ⟨e, List.mem_append_left _ he, hl⟩
        · left
          rcases hm.seqs_eq with ⟨h', -⟩ | ⟨h', -⟩ <;> rw [h']
          · exact hin
          · exact List.mem_append_left _ hin
      · exact .inr hleft.mono
    · left
      rcases hm.seqs_eq with ⟨-, hn⟩ | ⟨h', hn⟩
      · omega
      · rw [h', List.mem_append, List.mem_singleton]
        omega
  · intro e he u hu
    rw [hm.log_eq] at he
    rcases List.mem_append.mp he with he | he
    · rcases hm.writers e he u hu with ⟨v, hv, rfl⟩ | hnew
      · exact .inl (hold v hv)
      · exact .inr hnew
    · rcases h.writers e he u hu with ⟨hall, hlt⟩ | ⟨v, hv, rfl, -⟩
      · left
        refine ⟨fun w hw => ?_, by omega⟩
        rcases hseqs w hw with hw | rfl
        · exact hall w (mem_seqs.mpr (.inr hw))
        · exact hlt
      · exact .inl (hold v hv)

/-- Emptying the pipeline lets everything in it leave. -/
lemma left_of_flushes {t : Tracked} {v : DynInst} (hv : t.memWb = some v) (hf : t.core.flushes)
    {u : ℕ} (hu : u ∈ t.seqs) : Left t.wbEvents u := by
  simp only [Tracked.wbEvents, hv, if_pos hf]
  rcases Tracked.mem_seqs.mp hu with ⟨w, hw, rfl⟩ | hin
  · rw [hv, Option.some.injEq] at hw
    subst hw
    refine ⟨_, List.mem_cons_self, ?_⟩
    split_ifs <;> rfl
  · obtain ⟨w, hw, rfl⟩ := List.mem_map.mp hin
    exact ⟨.squashed w.seq, List.mem_cons_of_mem _ (List.mem_map.mpr ⟨w, hw, rfl⟩), rfl⟩

lemma Tracked.Ordered.restarts {t t' : Tracked} {v : DynInst} (h : t.Ordered)
    (hv : t.memWb = some v) (hf : t.core.flushes) (hr : t.Restarts t') : t'.Ordered := by
  refine ⟨?_, ?_, ?_, ?_⟩
  · rw [hr.seqs_eq]
    exact List.pairwise_singleton _ _
  · rw [hr.seqs_eq, hr.fetched_eq]
    simp
  · intro u hu
    rw [hr.fetched_eq] at hu
    rw [hr.seqs_eq, hr.log_eq, List.mem_singleton]
    by_cases hlt : u < t.fetched
    · right
      rw [← List.cons_append]
      rcases h.left u hlt with hin | hleft
      · obtain ⟨e, he, hl⟩ := left_of_flushes hv hf hin
        exact ⟨e, List.mem_append_left _ (List.mem_cons_of_mem _ he), hl⟩
      · exact hleft.mono
    · left
      omega
  · intro e he u hu
    rw [hr.log_eq] at he
    rw [hr.seqs_eq, hr.fetched_eq]
    left
    rcases List.mem_cons.mp he with rfl | he
    · cases hu
    · rcases List.mem_append.mp he with he | he
      · rw [Event.writer_of_mem_flush hf he] at hu
        cases hu
      · have hlt : u < t.fetched := by
          rcases h.writers e he u hu with ⟨-, hlt⟩ | ⟨w, hw, rfl, -⟩
          · exact hlt
          · exact h.bounded w.seq (Tracked.mem_seqs.mpr (.inl ⟨w, hw, rfl⟩))
        simp only [List.mem_singleton, forall_eq]
        omega

/-- The order holds in every reachable state. -/
lemma Reachable.ordered {t : Tracked} (h : Reachable t) : t.Ordered := by
  induction h with
  | start regs pc cp0 mem h =>
    refine ⟨List.Pairwise.nil, nofun, ?_, nofun⟩
    intro u hu
    exact absurd hu (Nat.not_lt_zero u)
  | @tick t t' h hfin ht ih =>
    by_cases hf : t.core.flushes
    · obtain ⟨v, hv⟩ := h.victim hf
      exact ih.restarts hv hf (Tracked.restarts_of_flushes h.pipeOk hf ht)
    · exact ih.moves (Tracked.moves_of_not_flushes h.pipeOk hf ht)
  | other h mem' ih => exact ⟨ih.1, ih.2, ih.3, ih.4⟩

/-! ### What happens later -/

/-- The states that a core reaches from a state. -/
inductive Later (t : Tracked) : Tracked → Prop
  | refl : Later t t
  | tick {s s' : Tracked} (h : Later t s) (hfin : s.finished = false) (hs : s.tick = .ok s') :
      Later t s'
  | other {s : Tracked} (h : Later t s) (mem' : Mmu) : Later t { s with mem := mem' }

lemma Later.reachable {t s : Tracked} (h : Later t s) (ht : Reachable t) : Reachable s := by
  induction h with
  | refl => exact ht
  | tick h hfin hs ih => exact ih.tick hfin hs
  | other h mem' ih => exact ih.other mem'

/-- Whatever is written from now on is written by an instruction in flight or by one that is yet to
be fetched. -/
lemma Later.writer {t s : Tracked} (h : Later t s) (ht : Reachable t) {n : ℕ}
    (hn : ∀ u ∈ t.seqs, n ≤ u) (hf : n ≤ t.fetched) :
    ((∀ u ∈ s.seqs, n ≤ u) ∧ n ≤ s.fetched) ∧
      ∀ e ∈ s.log, ∀ u, e.writer = some u → e ∈ t.log ∨ n ≤ u := by
  induction h with
  | refl => exact ⟨⟨hn, hf⟩, fun e he u _ => .inl he⟩
  | other h mem' ih => exact ih
  | @tick s s' h hfin hs ih =>
    obtain ⟨⟨hseqs, hfetched⟩, hlog⟩ := ih
    have hreach := h.reachable ht
    by_cases hflush : s.core.flushes
    · have hr := Tracked.restarts_of_flushes hreach.pipeOk hflush hs
      refine ⟨⟨?_, ?_⟩, ?_⟩
      · rw [hr.seqs_eq]
        simpa using hfetched
      · rw [hr.fetched_eq]
        omega
      · intro e he u hu
        rw [hr.log_eq] at he
        rcases List.mem_cons.mp he with rfl | he
        · cases hu
        · rcases List.mem_append.mp he with he | he
          · rw [Event.writer_of_mem_flush hflush he] at hu
            cases hu
          · exact hlog e he u hu
    · have hm := Tracked.moves_of_not_flushes hreach.pipeOk hflush hs
      have hyounger : ∀ u ∈ s.younger, n ≤ u := fun u hu => hseqs u (Tracked.mem_seqs.mpr (.inr hu))
      have hseqs' : ∀ u ∈ s'.seqs, n ≤ u := by
        intro u hu
        rcases hm.seqs_eq with ⟨h', -⟩ | ⟨h', -⟩ <;> rw [h'] at hu
        · exact hyounger u hu
        · rcases List.mem_append.mp hu with hu | hu
          · exact hyounger u hu
          · rw [List.mem_singleton] at hu
            omega
      refine ⟨⟨hseqs', ?_⟩, ?_⟩
      · rcases hm.seqs_eq with ⟨-, h'⟩ | ⟨-, h'⟩ <;> omega
      · intro e he u hu
        rw [hm.log_eq] at he
        rcases List.mem_append.mp he with he | he
        · right
          rcases hm.writers e he u hu with ⟨v, hv, rfl⟩ | ⟨v, hv, rfl, -⟩
          · exact hseqs _ (Tracked.mem_seqs.mpr (.inl ⟨v, hv, rfl⟩))
          · exact hseqs' _ (Tracked.mem_seqs.mpr (.inl ⟨v, hv, rfl⟩))
        · exact hlog e he u hu

/-! ### The log is complete -/

/-- Every change of a register, of memory or of a device between the two states is an event of the
log, and CP0 registers change by such events or by entering or leaving a handler. -/
def Explained (t t' : Tracked) : Prop :=
  ∃ new, t'.log = new ++ t.log ∧
    (∀ r, t'.core.regs r = t.core.regs r ∨ ∃ seq, .regWrite seq r (t'.core.regs r) ∈ new) ∧
    (∀ r, t'.core.cp0 r = t.core.cp0 r ∨ (∃ seq, .cp0Write seq r (t'.core.cp0 r) ∈ new) ∨
      ∃ seq, .trapped seq ∈ new ∨ .returned seq ∈ new) ∧
    (t.mem.SameWrites t'.mem ∨ ∃ seq, .memWrite seq ∈ new)

lemma memLoad_spec {core : Core} {mem mem' : Mmu} {readData x : Word} {e : Exception}
    (h : memLoad core mem readData = .ok (e, x, mem')) : e = .none ∧ mem.SameWrites mem' := by
  unfold memLoad at h
  split at h
  · exact mmuRead_spec h
  · exact mmuRead_spec h
  · exact mmuRead_spec h
  · simp only [bind_eq_ok, pure_eq_ok, Prod.exists, Prod.mk.injEq] at h
    obtain ⟨_, _, _, hread, rfl, -, rfl⟩ := h
    exact mmuRead_spec hread
  · simp only [bind_eq_ok, pure_eq_ok, Prod.exists, Prod.mk.injEq] at h
    obtain ⟨_, _, _, hread, rfl, -, rfl⟩ := h
    exact mmuRead_spec hread
  · simp only [pure_eq_ok, Prod.mk.injEq] at h
    obtain ⟨rfl, -, rfl⟩ := h
    exact ⟨rfl, .refl mem⟩

/-- A store raises nothing but an address error, and then it has written nothing. -/
lemma memStore_spec {core : Core} {mem mem' : Mmu} {e : Exception}
    (h : memStore core mem = .ok (e, mem')) :
    e = .none ∨ (e = .addressErrorStore ∧ mem.SameWrites mem') := by
  have hwrite : ∀ {mem₁ v src opSize}, mmuWrite mem₁ v src opSize = .ok (e, mem') →
      mem.SameWrites mem₁ → e = .none ∨ (e = .addressErrorStore ∧ mem.SameWrites mem') := by
    intro mem₁ v src opSize hw hs
    rcases mmuWrite_spec hw with he | ⟨he, rfl⟩
    · exact .inl he
    · exact .inr ⟨he, hs⟩
  unfold memStore at h
  split at h
  · exact hwrite h (.refl mem)
  · exact hwrite h (.refl mem)
  · exact hwrite h (.refl mem)
  · simp only [bind_eq_ok, Prod.exists] at h
    obtain ⟨_, _, mem₁, hread, h⟩ := h
    exact hwrite h (mmuRead_spec hread).2
  · simp only [bind_eq_ok, Prod.exists] at h
    obtain ⟨_, _, mem₁, hread, h⟩ := h
    exact hwrite h (mmuRead_spec hread).2
  · simp only [pure_eq_ok, Prod.mk.injEq] at h
    exact .inl h.1.symm

/-- MEM writes only through a store that raises no exception. -/
lemma MemStep.sameWrites {core : Core} {mem mem' : Mmu} {e : Exception} {readData badVAddr : Word}
    (h : MemStep core mem e readData badVAddr mem') :
    mem.SameWrites mem' ∨ (core.exMem.exception = .none ∧ core.exMem.cMemRead = false ∧
      core.exMem.cMemWrite = true ∧ e = .none) := by
  cases h with
  | carried h => exact .inl (.refl mem)
  | load h hread hload => exact .inl (memLoad_spec hload).2
  | store h hread hwrite hstore =>
    rcases memStore_spec hstore with he | ⟨-, hsame⟩
    · exact .inr ⟨h, hread, hwrite, he⟩
    · exact .inl hsame
  | plain h hread hwrite => exact .inl (.refl mem)

lemma commitRegs_of_ne {memWb : MemWb} {regs : ℕ → Word} {r : ℕ}
    (h : commitRegs memWb regs r ≠ regs r) :
    memWb.cRegWrite = true ∧ ¬ isMtc0 memWb.inst ∧ r = memWb.regDst ∧
      commitRegs memWb regs r = if r = 0 then 0 else memWb.data := by
  unfold commitRegs at h ⊢
  by_cases hw : memWb.cRegWrite ∧ ¬ isMtc0 memWb.inst
  · rw [if_pos hw] at h ⊢
    by_cases hr : r = memWb.regDst
    · refine ⟨hw.1, hw.2, hr, ?_⟩
      rw [hr, setReg_self]
    · exact absurd (setReg_of_ne _ _ hr) h
  · rw [if_neg hw] at h
    exact absurd rfl h

lemma commitCp0_of_ne {memWb : MemWb} {cp0 : ℕ → Word} {r : ℕ} (h : commitCp0 memWb cp0 r ≠ cp0 r) :
    memWb.cRegWrite = true ∧ isMtc0 memWb.inst ∧ r = memWb.regDst ∧
      commitCp0 memWb cp0 r = memWb.data := by
  unfold commitCp0 at h ⊢
  by_cases hw : memWb.cRegWrite ∧ isMtc0 memWb.inst
  · rw [if_pos hw] at h ⊢
    by_cases hr : r = memWb.regDst
    · refine ⟨hw.1, hw.2, hr, ?_⟩
      rw [hr, setReg_self]
    · exact absurd (setReg_of_ne _ _ hr) h
  · rw [if_neg hw] at h
    exact absurd rfl h

/-- The word of zeros writes register 0, if any. -/
lemma MemWb.regDst_nop {memWb : MemWb} (h : memWb.Empty ∨ memWb.Moved) (hnop : memWb.inst = 0)
    (hw : memWb.cRegWrite = true) : memWb.regDst = 0 := by
  rcases h with h | h
  · rw [h.regWrite_eq] at hw
    cases hw
  · rw [h.regDst_eq, hnop]
    decide

/-- The registers that WB changes are those of the events it is recorded with. -/
lemma Reachable.wb_explained {t : Tracked} (h : Reachable t) (hf : ¬ t.core.flushes) :
    (∀ r, (interpretWb t.core).1.regs r = t.core.regs r ∨
      ∃ seq, .regWrite seq r ((interpretWb t.core).1.regs r) ∈ t.wbEvents) ∧
    ∀ r, (interpretWb t.core).1.cp0 r = t.core.cp0 r ∨
      ∃ seq, .cp0Write seq r ((interpretWb t.core).1.cp0 r) ∈ t.wbEvents := by
  rcases (flushes_or_exits_or_commits t.core).resolve_left hf with hx | hc
  · rw [interpretWb_of_exits hx]
    exact ⟨fun _ => .inl rfl, fun _ => .inl rfl⟩
  have hnx : ¬ t.core.exits := by
    rintro ⟨-, hsys, -⟩
    rw [hc.2] at hsys
    cases hsys
  rw [interpretWb_of_commits hc]
  refine ⟨fun r => ?_, fun r => ?_⟩
  · by_cases heq : commitRegs t.core.memWb t.core.regs r = t.core.regs r
    · exact .inl heq
    · obtain ⟨hw, hm, hr, hval⟩ := commitRegs_of_ne heq
      have hr0 : r ≠ 0 := by
        rintro rfl
        rw [hval, if_pos rfl, h.reg_zero] at heq
        exact heq rfl
      cases hv : t.memWb with
      | none =>
        have hdst := MemWb.regDst_nop h.pipeOk.memWb_ok (h.labelled.memWb_nop hv) hw
        exact absurd (hr.trans hdst) hr0
      | some v =>
        right
        refine ⟨v.seq, ?_⟩
        simp only [Tracked.wbEvents, hv, if_neg hf, if_neg hnx, MemWb.writes, if_pos hw, if_neg hm,
          if_neg (hr ▸ hr0), hval, if_neg hr0]
        rw [hr]
        exact List.mem_cons_of_mem _ List.mem_cons_self
  · by_cases heq : commitCp0 t.core.memWb t.core.cp0 r = t.core.cp0 r
    · exact .inl heq
    · obtain ⟨hw, hm, hr, hval⟩ := commitCp0_of_ne heq
      cases hv : t.memWb with
      | none =>
        have hnop := h.labelled.memWb_nop hv
        rw [hnop] at hm
        exact absurd hm (by decide)
      | some v =>
        right
        refine ⟨v.seq, ?_⟩
        simp only [Tracked.wbEvents, hv, if_neg hf, if_neg hnx, MemWb.writes, if_pos hw, if_pos hm,
          hval]
        rw [hr]
        exact List.mem_cons_of_mem _ List.mem_cons_self

/-- Every change that a tick makes is in the log. -/
lemma Reachable.explained {t t' : Tracked} (h : Reachable t) (ht : t.tick = .ok t') :
    Explained t t' := by
  by_cases hf : t.core.flushes
  · obtain ⟨v, hv⟩ := h.victim hf
    have hr := Tracked.restarts_of_flushes h.pipeOk hf ht
    refine ⟨.fetched t.fetched t.core.flushTarget :: t.wbEvents, hr.log_eq, ?_, ?_, .inl hr.sameWrites⟩
    · intro r
      exact .inl (by rw [hr.regs_eq])
    · intro r
      right
      right
      refine ⟨v.seq, ?_⟩
      simp only [Tracked.wbEvents, hv, if_pos hf]
      split_ifs <;> simp
  · have hwb := h.wb_explained hf
    obtain ⟨regs, cp0, e, readData, badVAddr, mem₁, inst, mem', heq, hstep, hread, rfl⟩ :=
      Tracked.tick_of_not_flushes h.pipeOk hf ht
    rw [heq] at hwb
    refine ⟨_, rfl, ?_, ?_, ?_⟩
    · intro r
      simp only [Tracked.record, Core.next_regs]
      rcases hwb.1 r with hsame | ⟨seq, hev⟩
      · exact .inl hsame
      · exact .inr ⟨seq, List.mem_append_right _ hev⟩
    · intro r
      simp only [Tracked.record, Core.next_cp0]
      rcases hwb.2 r with hsame | ⟨seq, hev⟩
      · exact .inl hsame
      · exact .inr (.inl ⟨seq, List.mem_append_right _ hev⟩)
    · rcases hstep.sameWrites with hsame | ⟨hexc, hnr, hw, he⟩
      · exact .inl (hsame.trans (mmuRead_spec hread).2)
      · right
        cases hx : t.exMem with
        | none =>
          have hno := ExMem.no_access h.pipeOk.exMem_ok (h.labelled.exMem_nop hx)
          exact absurd (hw.symm.trans hno.2) (by decide)
        | some v =>
          refine ⟨v.seq, List.mem_append_left _ (List.mem_append_right _ ?_)⟩
          have hstored : ¬ t.core.flushes ∧ t.core.exMem.exception = .none ∧
              t.core.exMem.cMemRead = false ∧ t.core.exMem.cMemWrite = true ∧
              ((t.core.withRegs regs cp0).next
                (moveStage t.core e readData badVAddr) inst).memWb.exception = .none :=
            ⟨hf, hexc, hnr, hw, by rw [Core.next_memWb]; exact he⟩
          simp only [Tracked.memEvents, hx, if_pos hstored, List.mem_singleton]

/-- The value that the last `MTC0` to the register wrote, if it came after the last exception or
`ERET`. -/
def lastCp0 (r : ℕ) : List Event → Option Word
  | [] => none
  | .cp0Write _ r' x :: log => if r' = r then some x else lastCp0 r log
  | .trapped _ :: _ | .returned _ :: _ => none
  | _ :: log => lastCp0 r log

/-- Events that leave the CP0 registers alone. -/
def Event.keepsCp0 : Event → Bool
  | .cp0Write .. | .trapped _ | .returned _ => false
  | _ => true

lemma lastCp0_append {r : ℕ} {new log : List Event} (h : ∀ e ∈ new, e.keepsCp0 = true) :
    lastCp0 r (new ++ log) = lastCp0 r log := by
  induction new with
  | nil => rfl
  | cons e new ih =>
    have he := h e List.mem_cons_self
    have hrest := ih fun e' he' => h e' (List.mem_cons_of_mem e he')
    cases e <;> simp [Event.keepsCp0] at he <;> simpa [lastCp0] using hrest

/-- What WB does to a CP0 register is what its events say. -/
lemma Reachable.lastCp0_wb {t : Tracked} (h : Reachable t) (hf : ¬ t.core.flushes) {r : ℕ} {x : Word}
    (hold : lastCp0 r t.log = some x → t.core.cp0 r = x)
    (hx : lastCp0 r (t.wbEvents ++ t.log) = some x) : (interpretWb t.core).1.cp0 r = x := by
  rcases (flushes_or_exits_or_commits t.core).resolve_left hf with hexit | hc
  · rw [interpretWb_of_exits hexit]
    apply hold
    rw [← hx, lastCp0_append]
    intro e he
    cases hv : t.memWb with
    | none => simp [Tracked.wbEvents, hv] at he
    | some v =>
      simp only [Tracked.wbEvents, hv, if_neg hf, if_pos hexit, List.mem_singleton] at he
      rw [he]
      rfl
  have hnx : ¬ t.core.exits := fun hexit => by
    have hsys := hexit.2.1
    rw [hc.2] at hsys
    cases hsys
  rw [interpretWb_of_commits hc]
  simp only [commitCp0]
  cases hv : t.memWb with
  | none =>
    have hm : ¬ isMtc0 t.core.memWb.inst := by
      rw [h.labelled.memWb_nop hv]
      decide
    rw [if_neg (fun hw => hm hw.2)]
    simp only [Tracked.wbEvents, hv, List.nil_append] at hx
    exact hold hx
  | some v =>
    simp only [Tracked.wbEvents, hv, if_neg hf, if_neg hnx, List.cons_append, lastCp0] at hx
    by_cases hw : t.core.memWb.cRegWrite ∧ isMtc0 t.core.memWb.inst
    · rw [if_pos hw]
      simp only [MemWb.writes, if_pos hw.1, if_pos hw.2, List.cons_append, List.nil_append,
        lastCp0] at hx
      by_cases hr : t.core.memWb.regDst = r
      · rw [if_pos hr, Option.some.injEq] at hx
        rw [← hr, setReg_self, hx]
      · rw [if_neg hr] at hx
        rw [setReg_of_ne _ _ (Ne.symm hr), hold hx]
    · rw [if_neg hw]
      apply hold
      rw [← hx, lastCp0_append]
      intro e he
      unfold MemWb.writes at he
      split_ifs at he with hw' hm hz
      · exact absurd ⟨hw', hm⟩ hw
      · cases he
      · rw [List.mem_singleton] at he
        rw [he]
        rfl
      · cases he

/-- The CP0 registers hold what the log says. -/
lemma Reachable.lastCp0_eq {t : Tracked} (h : Reachable t) {r : ℕ} {x : Word}
    (hx : lastCp0 r t.log = some x) : t.core.cp0 r = x := by
  induction h with
  | start regs pc cp0 mem h => cases hx
  | other h mem' ih => exact ih hx
  | @tick t t' h hfin ht ih =>
    by_cases hf : t.core.flushes
    · obtain ⟨v, hv⟩ := h.victim hf
      have hr := Tracked.restarts_of_flushes h.pipeOk hf ht
      rw [hr.log_eq] at hx
      simp only [Tracked.wbEvents, hv, if_pos hf] at hx
      split_ifs at hx <;> simp [lastCp0] at hx
    · have hwb := h.lastCp0_wb hf ih
      obtain ⟨regs, cp0, e, readData, badVAddr, mem₁, inst, mem', heq, -, -, rfl⟩ :=
        Tracked.tick_of_not_flushes h.pipeOk hf ht
      rw [heq] at hwb
      simp only [Tracked.record, Core.next_cp0]
      refine hwb (Eq.trans (Eq.symm ?_) hx)
      simp only [Tracked.record]
      rw [List.append_assoc]
      refine lastCp0_append ?_
      intro ev hev
      rcases List.mem_append.mp hev with hev | hev
      · unfold Tracked.ifEvents at hev
        split_ifs at hev
        · cases hev
        · rw [List.mem_singleton.mp hev]
          rfl
      · unfold Tracked.memEvents at hev
        split at hev
        · cases hev
        · split_ifs at hev
          · rw [List.mem_singleton.mp hev]
            rfl
          · cases hev

/-! ### Precision -/

/-- Entering a handler writes EPC, Cause, BadVAddr and SR; leaving one writes SR. -/
lemma flushCp0_of_ne (core : Core) {r : ℕ} (hsr : r ≠ regSr)
    (h : core.memWb.inst = instructionEret ∨ (r ≠ regEpc ∧ r ≠ regCause ∧ r ≠ regBadvaddr)) :
    core.flushCp0 r = core.cp0 r := by
  unfold Core.flushCp0
  by_cases heret : core.memWb.inst = instructionEret
  · rw [if_pos heret, setReg_of_ne _ _ hsr]
  · obtain ⟨h₁, h₂, h₃⟩ := h.resolve_left heret
    rw [if_neg heret]
    simp only [handleException]
    rw [setReg_of_ne _ _ hsr]
    split_ifs
    · rw [setReg_of_ne _ _ h₃, setReg_of_ne _ _ h₂, setReg_of_ne _ _ h₁]
    · rw [setReg_of_ne _ _ h₂, setReg_of_ne _ _ h₁]

/-- What must be the case when the instruction `v` in `MEM_WB` takes an exception or is `ERET`. -/
structure Precise (t : Tracked) (v : DynInst) : Prop where
  /-- Every instruction fetched earlier is through, or was discarded by an earlier exception. -/
  older_left : ∀ u < v.seq, Left t.log u
  /-- Neither `v` nor anything behind it has written a register, a CP0 register, memory or a
  device. -/
  writers_older : ∀ e ∈ t.log, ∀ u, e.writer = some u → u < v.seq
  /-- Whoever else carries an exception is younger. -/
  oldest : ∀ w, (t.exMem = some w ∧ t.core.exMem.exception ≠ .none) ∨
    (t.idEx = some w ∧ t.core.idEx.exception ≠ .none) ∨
    (t.ifId = some w ∧ t.core.ifId.exception ≠ .none) → v.seq < w.seq
  /-- The tick itself writes nothing but the CP0 registers of the exception or of `ERET`. -/
  tick_writes : ∀ t', t.tick = .ok t' →
    t'.core.regs = t.core.regs ∧ t.mem.SameWrites t'.mem ∧
      ∀ r, r ≠ regSr → (t.core.memWb.inst = instructionEret ∨
        (r ≠ regEpc ∧ r ≠ regCause ∧ r ≠ regBadvaddr)) → t'.core.cp0 r = t.core.cp0 r
  /-- From then on every write that was not made before is by an instruction that is fetched
  later, and every change is such a write. -/
  later_writes : ∀ t' s, t.tick = .ok t' → Later t' s →
    (∀ e ∈ s.log, ∀ u, e.writer = some u → e ∈ t.log ∨ t.fetched ≤ u) ∧
      ∀ s', s.tick = .ok s' → Explained s s'
  /-- The next instruction is the one at the exception vector, or the one that EPC points to. -/
  next_fetch : ∀ t', t.tick = .ok t' →
    t'.ifId = some { seq := t.fetched, addr := t.core.flushTarget } ∧
      ∃ mem', mmuRead t.mem t.core.flushTarget 0 .word = .ok (.none, t'.core.ifId.inst, mem')
  /-- EPC holds what the last `MTC0` to it wrote, if there was one since the last exception. -/
  epc_current : ∀ x, lastCp0 regEpc t.log = some x → t.core.cp0 regEpc = x
  /-- The tick goes through whenever this instruction can be read. -/
  tick_ok : ∀ inst mem', mmuRead t.mem t.core.flushTarget 0 .word = .ok (.none, inst, mem') →
    ∃ t', t.tick = .ok t'

/-- Exceptions and `ERET` are precise in every reachable state. -/
theorem precise_of_flushes {t : Tracked} (h : Reachable t) (hfin : t.finished = false)
    (hf : t.core.flushes) : ∃ v, t.memWb = some v ∧ Precise t v := by
  obtain ⟨v, hv⟩ := h.victim hf
  have hord := h.ordered
  obtain ⟨holder, hwriters⟩ := hord.oldest hv (fun hc => hc.not_flushes hf)
  refine ⟨v, hv, holder, hwriters, ?_, ?_, ?_, ?_, fun x => h.lastCp0_eq, ?_⟩
  · intro w hw
    apply hord.younger_gt hv
    rcases hw with ⟨hw, -⟩ | ⟨hw, -⟩ | ⟨hw, -⟩ <;> simp [Tracked.younger, hw]
  · intro t' ht
    have hr := Tracked.restarts_of_flushes h.pipeOk hf ht
    refine ⟨hr.regs_eq, hr.sameWrites, fun r hsr hr' => ?_⟩
    rw [hr.cp0_eq]
    exact flushCp0_of_ne t.core hsr hr'
  · intro t' s ht hs
    have hr := Tracked.restarts_of_flushes h.pipeOk hf ht
    have hreach := h.tick hfin ht
    refine ⟨fun e he u hu => ?_, fun s' hs' => (hs.reachable hreach).explained hs'⟩
    have hwriter := hs.writer hreach (n := t.fetched) (by simp [hr.seqs_eq]) (by simp [hr.fetched_eq])
    rcases hwriter.2 e he u hu with hold | hnew
    · left
      rw [hr.log_eq] at hold
      rcases List.mem_cons.mp hold with rfl | hold
      · cases hu
      · rcases List.mem_append.mp hold with hold | hold
        · rw [Event.writer_of_mem_flush hf hold] at hu
          cases hu
        · exact hold
    · exact .inr hnew
  · intro t' ht
    obtain ⟨inst, mem', hread, rfl⟩ := Tracked.tick_of_flushes h.pipeOk hf ht
    refine ⟨(Tracked.restarts_of_flushes h.pipeOk hf ht).ifId_eq, mem', ?_⟩
    have hinst : (t.core.restart inst).ifId.inst = inst := by
      rw [Core.restart, Core.next_ifId_of_not_holds (Core.not_holds_init _ _ _ _)]
    simp only [Tracked.record, hinst]
    exact hread
  · intro inst mem' hread
    refine ⟨_, (Tracked.tick_eq_ok h.pipeOk).mpr ⟨.none, 0, 0, t.mem, inst, mem', ?_, ?_, rfl⟩⟩
    · rw [interpretWb_of_flushes hf]
      exact .plain rfl rfl rfl
    · rw [Core.fetchPc_of_flushes hf]
      exact hread

/-- A memory with one `SYSCALL` at the start of kseg0. -/
def syscallMem : Mmu := imageMem 128 [0, 0, 0, 0x0C]

lemma iterate_syscallMem :
    ∃ t, iterate Tracked.tick 4 (.boot syscallMem) = .ok t ∧ t.finished = false ∧
      t.core.memWb.exception = .syscall ∧ t.core.memWb.inst = 0x0C#32 ∧ t.core.regs regV0 = 0 ∧
      t.memWb = some { seq := 0, addr := 0x80000000#32 } := by
  exact ⟨_, rfl, rfl, rfl, rfl, rfl, rfl⟩

/-- `ADDIU $8, $0, 1; LUI $1, 0x8000; SYSCALL; SW $8, 0x40($1)` at the start of kseg0. -/
def syscallStoreMem : Mmu := imageMem 1024
  [0x24, 0x08, 0, 1, 0x3C, 0x01, 0x80, 0, 0, 0, 0, 0x0C, 0xAC, 0x28, 0, 0x40]

/-- The `SYSCALL` between two instructions that have written a register and a store in MEM. -/
theorem precise_of_flushes_syscall : ∃ t v, Reachable t ∧ t.core.flushes ∧ t.memWb = some v ∧
    v.seq = 2 ∧ t.core.regs 8 = 1 ∧ t.core.exMem.inst = 0xAC280040#32 ∧ Precise t v := by
  have hrun : ∃ t, iterate Tracked.tick 6 (.boot syscallStoreMem) = .ok t ∧ t.finished = false ∧
      t.core.flushes ∧ t.memWb = some { seq := 2, addr := 0x80000008#32 } ∧ t.core.regs 8 = 1 ∧
      t.core.exMem.inst = 0xAC280040#32 := ⟨_, rfl, rfl, by decide, rfl, by decide, by decide⟩
  obtain ⟨t, hrun, hfin, hf, hv, hreg, hstore⟩ := hrun
  have hreach := (reachable_boot _).iterate hrun hfin
  obtain ⟨v, hv', hprecise⟩ := precise_of_flushes hreach hfin hf
  rw [hv, Option.some.injEq] at hv'
  exact ⟨t, v, hreach, hf, by rw [hv, hv'], by rw [← hv'], hreg, hstore, hprecise⟩

/-! ### EPC -/

/-- `interpret_wb` calls `handle_exception`. -/
def Core.traps (core : Core) : Prop :=
  core.memWb.inst ≠ instructionEret ∧ core.memWb.exception ≠ .none ∧
    ¬ (core.memWb.exception = .syscall ∧ core.regs regV0 = 10)

/-- The registers from which a handler can resume the instruction `v`: EPC and Cause.BD name it, or
the branch before it when it is in a delay slot. -/
def Restartable (v : DynInst) (inDelaySlot : Bool) (cp0 : ℕ → Word) : Prop :=
  if inDelaySlot then cp0 regEpc = v.addr - 4 ∧ cp0 regCause &&& causeBd ≠ 0
  else cp0 regEpc = v.addr ∧ cp0 regCause &&& causeBd = 0

/-- EPC is taken from `next_pc`, which is one word behind the instruction. -/
lemma handleException_epc (core : Core) : (handleException core).cp0 regEpc = core.memWb.nextPc := by
  simp only [handleException]
  rw [setReg_of_ne _ _ (by decide)]
  split_ifs
  · rw [setReg_of_ne _ _ (by decide), setReg_of_ne _ _ (by decide), setReg_self]
  · rw [setReg_of_ne _ _ (by decide), setReg_self]

/-- No exception is restartable: whatever the victim, in a delay slot or not, EPC points to the word
after it. -/
theorem not_restartable {t : Tracked} (h : Reachable t) (htrap : t.core.traps) :
    ∃ v, t.memWb = some v ∧ (handleException t.core).cp0 regEpc = v.addr + 4 ∧
      ∀ inDelaySlot, ¬ Restartable v inDelaySlot (handleException t.core).cp0 := by
  obtain ⟨v, hv⟩ := h.victim (.inr htrap.2)
  have hepc : (handleException t.core).cp0 regEpc = v.addr + 4 := by
    rw [handleException_epc, h.labelled.memWb_addr v hv]
  refine ⟨v, hv, hepc, ?_⟩
  intro inDelaySlot hr
  unfold Restartable at hr
  rw [hepc] at hr
  split_ifs at hr
  · exact absurd hr.1 (by bv_omega)
  · exact absurd hr.1 (by bv_omega)

theorem not_restartable_syscall :
    ∃ t, Reachable t ∧ t.core.traps ∧ ∃ v, t.memWb = some v ∧
      (handleException t.core).cp0 regEpc = v.addr + 4 ∧
      ∀ inDelaySlot, ¬ Restartable v inDelaySlot (handleException t.core).cp0 := by
  obtain ⟨t, hrun, hfin, hexc, hinst, hv0, -⟩ := iterate_syscallMem
  have htrap : t.core.traps := by
    unfold Core.traps
    rw [hexc, hinst, hv0]
    decide
  have hreach := (reachable_boot _).iterate hrun hfin
  exact ⟨t, hreach, htrap, not_restartable hreach htrap⟩

/-- A `SYSCALL` at the start of kseg0, in no delay slot, leaves the address of the next word in
EPC. -/
theorem epc_of_syscall :
    ∃ t v, Reachable t ∧ t.core.traps ∧ t.memWb = some v ∧ v.addr = 0x80000000#32 ∧
      (handleException t.core).cp0 regEpc = 0x80000004#32 ∧
      ¬ Restartable v false (handleException t.core).cp0 := by
  obtain ⟨t, hrun, hfin, hexc, hinst, hv0, hv⟩ := iterate_syscallMem
  have hreach := (reachable_boot _).iterate hrun hfin
  have hepc : (handleException t.core).cp0 regEpc = 0x80000004#32 := by
    rw [handleException_epc, hreach.labelled.memWb_addr _ hv]
    rfl
  refine ⟨t, _, hreach, ?_, hv, rfl, hepc, ?_⟩
  · unfold Core.traps
    rw [hexc, hinst, hv0]
    decide
  · rintro ⟨hbad, -⟩
    rw [hepc] at hbad
    revert hbad
    decide

end MipsSim
