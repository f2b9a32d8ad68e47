import MipsSim.Lib.Run

/-!
# Outcomes

Postconditions of computations that may fault, with one condition on the results and one on the
faults, and `while` loops whose bodies may fault, with fuel for the tests of their condition.
-/

namespace Run

universe u

variable {ε : Type*} {α β σ : Type u}

/-- The result of a computation that is mapped. -/
lemma map_eq_ok {x : Except ε α} {f : α → β} {b : β} :
    x.map f = .ok b ↔ ∃ a, x = .ok a ∧ f a = b := by
  cases x with
  | error e => exact ⟨nofun, nofun⟩
  | ok a =>
    constructor
    · intro h
      exact ⟨a, rfl, Except.ok.inj h⟩
    · rintro ⟨_, ha, rfl⟩
      obtain rfl := Except.ok.inj ha
      rfl

/-! ### Postconditions -/

/-- The computation has a result with `P`, or a fault with `F`. -/
def Yields (P : α → Prop) (F : ε → Prop) : Except ε α → Prop
  | .ok a => P a
  | .error e => F e

section Yields

variable {P : α → Prop} {Q : β → Prop} {F : ε → Prop} {x : Except ε α} {f : α → Except ε β}

lemma Yields.of_ok {a : α} (h : Yields P F x) (ha : x = .ok a) : P a := by
  rw [ha] at h
  exact h

lemma Yields.of_error {e : ε} (h : Yields P F x) (he : x = .error e) : F e := by
  rw [he] at h
  exact h

/-- The rule for a sequence. -/
lemma Yields.bind (h : Yields P F x) (hf : ∀ a, P a → Yields Q F (f a)) : Yields Q F (x >>= f) := by
  cases x with
  | ok a => exact hf a h
  | error e => exact h

/-- The rule for a run: an invariant of each step. -/
lemma Yields.iterate {P : σ → Prop} {step : σ → Except ε σ} {s : σ} (n : ℕ)
    (hstep : ∀ t, P t → Yields P F (step t)) (hs : P s) : Yields P F (iterate step n s) := by
  induction n with
  | zero => exact hs
  | succ n ih => exact ih.bind hstep

end Yields

/-! ### Loops -/

/-- `while (!done) step`. There is no result when the fuel does not suffice. -/
def loopUntil (done : σ → Bool) (step : σ → Except ε σ) : ℕ → σ → Except ε (Option σ)
  | 0, _ => .ok none
  | fuel + 1, s => if done s then .ok (some s) else step s >>= loopUntil done step fuel

variable {done : σ → Bool} {step : σ → Except ε σ} {s s' : σ} {n fuel : ℕ}

/-- The first step of a run on its own. -/
lemma iterate_succ_of_first (h : step s = .ok s') :
    iterate step (n + 1) s = iterate step n s' := by
  induction n with
  | zero =>
    simp only [iterate, bind, Except.bind, h]
  | succ n ih =>
    rw [iterate, ih]
    rfl

lemma iterate_succ_of_fault {e : ε} (h : step s = .error e) :
    iterate step (n + 1) s = .error e := by
  induction n with
  | zero =>
    simp only [iterate, bind, Except.bind, h]
  | succ n ih =>
    rw [iterate, ih]
    rfl

/-- The states of a run behind its first step. -/
lemma forall_iterate_succ {P : ℕ → σ → Prop} (h : step s = .ok s')
    (hP : ∀ k ≤ n + 1, ∀ t, iterate step k s = .ok t → P k t) :
    ∀ k ≤ n, ∀ t, iterate step k s' = .ok t → P (k + 1) t := by
  intro k hk t ht
  rw [← iterate_succ_of_first h] at ht
  exact hP (k + 1) (Nat.succ_le_succ hk) t ht

/-- The rule for termination: a loop whose condition fails exactly after `n` rounds is `n` rounds of
its body. -/
lemma loopUntil_of_lt (h : ∀ k ≤ n, ∀ t, iterate step k s = .ok t → (done t = true ↔ k = n))
    (hfuel : n < fuel) : loopUntil done step fuel s = (iterate step n s).map some := by
  induction fuel generalizing n s with
  | zero => exact absurd hfuel (Nat.not_lt_zero n)
  | succ fuel ih =>
    have hstart := h 0 (Nat.zero_le n) s rfl
    rw [loopUntil]
    cases n with
    | zero =>
      rw [if_pos (hstart.mpr rfl)]
      rfl
    | succ n =>
      rw [if_neg fun hd => Nat.succ_ne_zero n (hstart.mp hd).symm]
      cases hs : step s with
      | error e =>
        rw [iterate_succ_of_fault hs]
        rfl
      | ok s' =>
        rw [iterate_succ_of_first hs]
        refine ih (fun k hk t ht => ?_) (Nat.lt_of_succ_lt_succ hfuel)
        rw [forall_iterate_succ (P := fun k t => done t = true ↔ k = n + 1) hs h k hk t ht]
        exact Nat.succ_inj

/-- A loop whose condition holds before each of its rounds is not through. -/
lemma loopUntil_of_running (h : ∀ k < fuel, ∀ t, iterate step k s = .ok t → done t = false) :
    loopUntil done step fuel s = (iterate step fuel s).map fun _ => none := by
  induction fuel generalizing s with
  | zero => rfl
  | succ fuel ih =>
    rw [loopUntil, h 0 (Nat.succ_pos fuel) s rfl]
    cases hs : step s with
    | error e =>
      rw [iterate_succ_of_fault hs]
      rfl
    | ok s' =>
      rw [iterate_succ_of_first hs]
      refine ih fun k hk t ht => h (k + 1) (Nat.succ_lt_succ hk) t ?_
      rw [iterate_succ_of_first hs]
      exact ht

/-- A loop that is through has come to the first state in which its condition fails. -/
lemma iterate_of_loopUntil (h : loopUntil done step fuel s = .ok (some s')) :
    ∃ n < fuel, iterate step n s = .ok s' ∧ done s' = true ∧
      ∀ k < n, ∀ t, iterate step k s = .ok t → done t = false := by
  induction fuel generalizing s with
  | zero => cases h
  | succ fuel ih =>
    rw [loopUntil] at h
    split at h
    · next hd =>
      obtain rfl := Option.some.inj (Except.ok.inj h)
      exact ⟨0, Nat.succ_pos fuel, rfl, hd, nofun⟩
    · next hd =>
      obtain ⟨s₁, hs, h⟩ := bind_eq_ok.mp h
      obtain ⟨n, hn, hrun, hdone, hgoing⟩ := ih h
      refine ⟨n + 1, Nat.succ_lt_succ hn, (iterate_succ_of_first hs).trans hrun, hdone, ?_⟩
      intro k hk t ht
      cases k with
      | zero =>
        obtain rfl := Except.ok.inj ht
        exact Bool.not_eq_true _ ▸ hd
      | succ k =>
        rw [iterate_succ_of_first hs] at ht
        exact hgoing k (Nat.lt_of_succ_lt_succ hk) t ht

/-- The rule for a loop: an invariant of its body. -/
lemma Yields.loopUntil {P : σ → Prop} {F : ε → Prop} (fuel : ℕ)
    (hstep : ∀ t, P t → Yields P F (step t)) (hs : P s) :
    Yields (fun r => ∀ t, r = some t → P t) F (loopUntil done step fuel s) := by
  induction fuel generalizing s with
  | zero => exact nofun
  | succ fuel ih =>
    rw [Run.loopUntil]
    split
    · intro t ht
      rw [← Option.some.inj ht]
      exact hs
    · exact (hstep s hs).bind fun _ ht => ih ht

end Run
