import Mathlib.Data.Nat.Notation

/-!
# Computations that may fault

Rules for computations in `Except`: how a sequence of steps succeeds.
-/

namespace Run

universe u

variable {ε : Type*} {α β : Type u}

/-- A sequence succeeds exactly when its steps succeed in turn. -/
lemma bind_eq_ok {x : Except ε α} {f : α → Except ε β} {b : β} :
    x >>= f = .ok b ↔ ∃ a, x = .ok a ∧ f a = .ok b := by
  rcases x with e | a <;> simp [bind, Except.bind]

lemma pure_eq_ok {a b : α} : (pure a : Except ε α) = .ok b ↔ a = b := by
  simp [pure, Except.pure]

/-- A check passes exactly when its error condition does not hold. -/
lemma check_eq_ok {p : Prop} [Decidable p] {e : ε} {u : Unit} :
    (if p then .error e else .ok () : Except ε Unit) = .ok u ↔ ¬ p := by
  by_cases hp : p <;> simp [hp]

/-- `n` steps of a computation that may fault. -/
def iterate {σ : Type u} (step : σ → Except ε σ) : ℕ → σ → Except ε σ
  | 0, s => .ok s
  | n + 1, s => iterate step n s >>= step

section Iterate

variable {σ : Type u} {step : σ → Except ε σ} {P C : σ → Prop} {n : ℕ} {s s' : σ}

lemma iterate_succ_eq_ok :
    iterate step (n + 1) s = .ok s' ↔ ∃ t, iterate step n s = .ok t ∧ step t = .ok s' := bind_eq_ok

/-- Fewer steps do not fault either. -/
lemma iterate_of_le {k : ℕ} (h : iterate step n s = .ok s') (hk : k ≤ n) :
    ∃ t, iterate step k s = .ok t := by
  induction n generalizing s' with
  | zero =>
    obtain rfl : k = 0 := Nat.le_zero.mp hk
    exact ⟨s', h⟩
  | succ n ih =>
    rcases Nat.le_succ_iff.mp hk with hle | rfl
    · obtain ⟨t, ht, -⟩ := iterate_succ_eq_ok.mp h
      exact ih ht hle
    · exact ⟨s', h⟩

/-- The rule for invariants under a condition: what holds at the start and is kept by a step from a
state with the condition holds after any number of such steps. -/
lemma iterate_invariant_when (hstep : ∀ t t', P t → C t → step t = .ok t' → P t') (hs : P s)
    (hC : ∀ k < n, ∀ t, iterate step k s = .ok t → C t) (h : iterate step n s = .ok s') : P s' := by
  induction n generalizing s' with
  | zero =>
    simp only [iterate, Except.ok.injEq] at h
    rw [← h]
    exact hs
  | succ n ih =>
    obtain ⟨t, ht, h⟩ := iterate_succ_eq_ok.mp h
    have hP : P t := ih (fun k hk => hC k (Nat.lt_succ_of_lt hk)) ht
    exact hstep t s' hP (hC n (Nat.lt_succ_self n) t ht) h

/-- The rule for invariants: what holds at the start and is kept by a step holds after any number of
steps. -/
lemma iterate_invariant (hstep : ∀ t t', P t → step t = .ok t' → P t') (hs : P s)
    (h : iterate step n s = .ok s') : P s' :=
  iterate_invariant_when (C := fun _ => True) (fun t t' hP _ => hstep t t' hP) hs
    (fun _ _ _ _ => trivial) h

/-- The rule for progress: if a step from a state with the invariant and the condition succeeds and
keeps the invariant, then any number of steps succeeds as long as the condition holds. -/
lemma iterate_progress (hstep : ∀ t, P t → C t → ∃ t', step t = .ok t' ∧ P t') (hs : P s)
    (hC : ∀ k < n, ∀ t, iterate step k s = .ok t → C t) :
    ∃ s', iterate step n s = .ok s' ∧ P s' := by
  induction n with
  | zero => exact ⟨s, rfl, hs⟩
  | succ n ih =>
    obtain ⟨t, ht, hP⟩ := ih fun k hk => hC k (Nat.lt_succ_of_lt hk)
    obtain ⟨t', ht', hP'⟩ := hstep t hP (hC n (Nat.lt_succ_self n) t ht)
    exact ⟨t', iterate_succ_eq_ok.mpr ⟨t, ht, ht'⟩, hP'⟩

end Iterate

end Run
