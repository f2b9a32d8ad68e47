import MipsSim.Lib.Outcome
import Mathlib.Logic.Relation

/-!
# Rounds of a loop

A `while` loop whose body may fault as the closure of its rounds: what it returns, what a loop
returns whose rounds have a guard, and how one loop follows another that takes more or fewer steps
for the same work.
-/

namespace Run

open Relation

universe u

/-! ### Simulation -/

section Simulation

variable {α β : Type*} {r : α → α → Prop} {p : β → β → Prop} {a a' : α}

/-- The rule for invariants. -/
lemma invariant_of_star {P : α → Prop} (hstep : ∀ b b', P b → r b b' → P b') (ha : P a)
    (h : ReflTransGen r a a') : P a' := by
  induction h with
  | refl => exact ha
  | tail _ hr ih => exact hstep _ _ ih hr

/-- The rule for simulations in which a step may be followed by any number of steps. -/
lemma star_of_simulation {R : α → β → Prop}
    (hstep : ∀ a a' b, R a b → r a a' → ∃ b', ReflTransGen p b b' ∧ R a' b') {b : β}
    (hR : R a b) (h : ReflTransGen r a a') : ∃ b', ReflTransGen p b b' ∧ R a' b' := by
  induction h with
  | refl => exact ⟨b, .refl, hR⟩
  | tail _ hr ih =>
    obtain ⟨b₁, hb₁, hR₁⟩ := ih
    obtain ⟨b₂, hb₂, hR₂⟩ := hstep _ _ b₁ hR₁ hr
    exact ⟨b₂, hb₁.trans hb₂, hR₂⟩

end Simulation

/-! ### Loops -/

variable {ε : Type*} {σ : Type u} {done : σ → Bool} {step : σ → Except ε σ} {s s' t : σ}

/-- A round of `while (!done) step`. -/
def Round (done : σ → Bool) (step : σ → Except ε σ) (s s' : σ) : Prop :=
  done s = false ∧ step s = .ok s'

/-- A round costs one test of the condition. -/
lemma Round.loopUntil_succ (h : Round done step s s') (fuel : ℕ) :
    loopUntil done step (fuel + 1) s = loopUntil done step fuel s' := by
  rw [loopUntil, h.1, if_neg Bool.false_ne_true, h.2]
  rfl

/-- Behind the end of a loop there is no round. -/
lemma eq_of_star_of_done (h : ReflTransGen (Round done step) s t) (hd : done s = true) : t = s := by
  induction h using ReflTransGen.head_induction_on with
  | refl => rfl
  | head hr _ _ =>
    rw [hr.1] at hd
    cases hd

lemma exists_round_of_loopUntil {fuel : ℕ} (hd : done s = false)
    (h : loopUntil done step (fuel + 1) s = .ok (some t)) :
    ∃ s', Round done step s s' ∧ loopUntil done step fuel s' = .ok (some t) := by
  rw [loopUntil, hd, if_neg Bool.false_ne_true] at h
  obtain ⟨s', hs, hrest⟩ := bind_eq_ok.mp h
  exact ⟨s', ⟨hd, hs⟩, hrest⟩

lemma star_of_loopUntil {fuel : ℕ} (h : loopUntil done step fuel s = .ok (some s')) :
    ReflTransGen (Round done step) s s' ∧ done s' = true := by
  induction fuel generalizing s with
  | zero => cases h
  | succ fuel ih =>
    cases hd : done s with
    | true =>
      rw [loopUntil, if_pos hd] at h
      obtain rfl := Option.some.inj (Except.ok.inj h)
      exact ⟨.refl, hd⟩
    | false =>
      obtain ⟨s₁, hr, hrest⟩ := exists_round_of_loopUntil hd h
      obtain ⟨hstar, hdone⟩ := ih hrest
      exact ⟨.head hr hstar, hdone⟩

/-- A loop returns a state exactly when its rounds come to it and its condition fails there. -/
lemma exists_loopUntil_iff :
    (∃ fuel, loopUntil done step fuel s = .ok (some s')) ↔
      ReflTransGen (Round done step) s s' ∧ done s' = true := by
  constructor
  · rintro ⟨fuel, h⟩
    exact star_of_loopUntil h
  · rintro ⟨h, hd⟩
    induction h using ReflTransGen.head_induction_on with
    | refl => exact ⟨1, if_pos hd⟩
    | head hr _ ih =>
      obtain ⟨fuel, hfuel⟩ := ih
      exact ⟨fuel + 1, (hr.loopUntil_succ fuel).trans hfuel⟩

/-- The rounds of a loop that comes to its end lead to the states on the way there. -/
lemma exists_iterate_of_star {n : ℕ} (hend : iterate step n s = .ok s') (hd : done s' = true)
    (h : ReflTransGen (Round done step) s t) : ∃ k ≤ n, iterate step k s = .ok t := by
  induction h with
  | refl => exact ⟨0, Nat.zero_le n, rfl⟩
  | tail _ hr ih =>
    obtain ⟨k, hk, hiter⟩ := ih
    refine ⟨k + 1, Nat.lt_of_le_of_ne hk ?_, iterate_succ_eq_ok.mpr ⟨_, hiter, hr.2⟩⟩
    rintro rfl
    obtain rfl := Except.ok.inj (hend.symm.trans hiter)
    rw [hr.1] at hd
    cases hd

/-- Rounds have a guard if it holds in every state from which the loop goes on. -/
lemma star_guarded {P : σ → Prop} (h : ReflTransGen (Round done step) s s')
    (hP : ∀ t, ReflTransGen (Round done step) s t → done t = false → P t) :
    ReflTransGen (fun t t' => Round done step t t' ∧ P t) s s' := by
  induction h using ReflTransGen.head_induction_on with
  | refl => exact .refl
  | head hr _ ih => exact .head ⟨hr, hP _ .refl hr.1⟩ (ih fun t ht => hP t (.head hr ht))

end Run
