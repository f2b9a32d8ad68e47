import Mathlib.Data.List.Forall2
import Mathlib.Logic.Relation

/-!
# Components that share a store

A system of components that act on one store, one component at a time. `Step` lets any component
take the next step; `Sweep` lets each of them take one step, in order, and `Turns` counts the sweeps
in which each of them takes at most one. The rule of this file turns a simulation of single
components into one of the systems: what is done in sweeps is an interleaving.
-/

namespace Interleaving

open Relation

variable {α β σ : Type*}

/-- One component of the system takes a step. -/
inductive Step (A : α → σ → α → σ → Prop) : List α × σ → List α × σ → Prop
  | mk (l r : List α) {a a' : α} {m m' : σ} (h : A a m a' m') :
      Step A (l ++ a :: r, m) (l ++ a' :: r, m')

lemma Step.not_nil {A : α → σ → α → σ → Prop} {m : σ} {y : List α × σ} : ¬ Step A ([], m) y := by
  generalize hx : (([], m) : List α × σ) = x
  rintro ⟨l, r, h⟩
  simp at hx

/-- Either the first component takes the step, or one of the others. -/
lemma Step.of_cons {A : α → σ → α → σ → Prop} {a : α} {as : List α} {m : σ} {y : List α × σ}
    (h : Step A (a :: as, m) y) :
    (∃ a' m', A a m a' m' ∧ y = (a' :: as, m')) ∨
      ∃ as' m', Step A (as, m) (as', m') ∧ y = (a :: as', m') := by
  generalize hx : (a :: as, m) = x at h
  obtain ⟨l, r, h⟩ := h
  cases l with
  | nil =>
    simp only [List.nil_append, Prod.mk.injEq, List.cons.injEq] at hx
    obtain ⟨⟨rfl, rfl⟩, rfl⟩ := hx
    exact .inl ⟨_, _, h, rfl⟩
  | cons b l =>
    simp only [List.cons_append, Prod.mk.injEq, List.cons.injEq] at hx
    obtain ⟨⟨rfl, rfl⟩, rfl⟩ := hx
    exact .inr ⟨_, _, .mk l r h, rfl⟩

/-- The states that the system can come to, in whatever order its components take their steps. -/
abbrev Reaches (A : α → σ → α → σ → Prop) : List α × σ → List α × σ → Prop := ReflTransGen (Step A)

/-- Each component takes one step, in order. -/
inductive Sweep (C : β → σ → β → σ → Prop) : List β → σ → List β → σ → Prop
  | nil (m : σ) : Sweep C [] m [] m
  | cons {b b' : β} {bs bs' : List β} {m m₁ m' : σ} (h : C b m b' m₁) (hs : Sweep C bs m₁ bs' m') :
      Sweep C (b :: bs) m (b' :: bs') m'

/-- A component takes one step or none. -/
def AtMostOne (A : α → σ → α → σ → Prop) (a : α) (m : σ) (a' : α) (m' : σ) : Prop :=
  (a' = a ∧ m' = m) ∨ A a m a' m'

lemma AtMostOne.reaches {A : α → σ → α → σ → Prop} {a a' : α} {m m' : σ}
    (h : AtMostOne A a m a' m') (l r : List α) : Reaches A (l ++ a :: r, m) (l ++ a' :: r, m') := by
  rcases h with ⟨rfl, rfl⟩ | h
  · exact .refl
  · exact .single (.mk l r h)

/-- In each of `n` sweeps every component takes one step or none. -/
inductive Turns (A : α → σ → α → σ → Prop) (x : List α × σ) : ℕ → List α × σ → Prop
  | zero : Turns A x 0 x
  | succ {n : ℕ} {as as' : List α} {m m' : σ} (h : Turns A x n (as, m))
      (hs : Sweep (AtMostOne A) as m as' m') : Turns A x (n + 1) (as', m')

lemma Sweep.reaches {A : α → σ → α → σ → Prop} {as as' : List α} {m m' : σ}
    (h : Sweep (AtMostOne A) as m as' m') (l : List α) :
    Reaches A (l ++ as, m) (l ++ as', m') := by
  induction h generalizing l with
  | nil m => exact .refl
  | @cons a a' as as' m m₁ m' hA hs ih =>
    have hrest := ih (l ++ [a'])
    rw [List.append_assoc, List.append_assoc] at hrest
    exact (hA.reaches l as).trans hrest

/-- Sweeps are one of the orders. -/
lemma Turns.reaches {A : α → σ → α → σ → Prop} {x y : List α × σ} {n : ℕ} (h : Turns A x n y) :
    Reaches A x y := by
  induction h with
  | zero => exact .refl
  | succ _ hs ih => exact ih.trans (hs.reaches [])

section Simulation

variable {A : α → σ → α → σ → Prop} {C : β → σ → β → σ → Prop} {R : α → β → Prop}
  {Pre : α → σ → Prop} {Inv : σ → Prop}

/-- A step of a component `C` is no step or one step of the component `A` that simulates it, for as
long as the latter is in a state with `Pre`. The simulation goes on if the store keeps `Inv`. -/
def Simulates (A : α → σ → α → σ → Prop) (C : β → σ → β → σ → Prop) (R : α → β → Prop)
    (Pre : α → σ → Prop) (Inv : σ → Prop) : Prop :=
  ∀ a b m b' m', R a b → Pre a m → Inv m → C b m b' m' →
    (m' = m ∧ R a b') ∨ ∃ a', A a m a' m' ∧ (Inv m' → R a' b')

/-- All that can be reached satisfies `Pre` in each component, and `Inv` in the store. -/
def Safe (A : α → σ → α → σ → Prop) (Pre : α → σ → Prop) (Inv : σ → Prop) (x : List α × σ) : Prop :=
  ∀ y, Reaches A x y → (∀ a ∈ y.1, Pre a y.2) ∧ Inv y.2

lemma Safe.of_reaches {x y : List α × σ} (h : Safe A Pre Inv x) (hr : Reaches A x y) :
    Safe A Pre Inv y := fun z hz => h z (hr.trans hz)

/-- The rule for safety: an invariant of the steps that says enough. -/
lemma Safe.of_invariant {I : List α × σ → Prop} {x : List α × σ} (hx : I x)
    (hstep : ∀ y z, I y → Step A y z → I z)
    (hI : ∀ y, I y → (∀ a ∈ y.1, Pre a y.2) ∧ Inv y.2) : Safe A Pre Inv x := by
  intro y hy
  apply hI
  induction hy with
  | refl => exact hx
  | tail _ hs ih => exact hstep _ _ ih hs

variable (hsim : Simulates A C R Pre Inv)

include hsim

/-- A sweep over the components behind `done`, by induction on those that are left. -/
lemma Sweep.simulated_behind {bs bs' : List β} {m m' : σ} (h : Sweep C bs m bs' m') (done : List α)
    {as : List α} (hR : List.Forall₂ R as bs) (hsafe : Safe A Pre Inv (done ++ as, m)) :
    ∃ as', Sweep (AtMostOne A) as m as' m' ∧ List.Forall₂ R as' bs' := by
  induction h generalizing done as with
  | nil m =>
    obtain rfl := List.forall₂_nil_right_iff.mp hR
    exact ⟨[], .nil m, hR⟩
  | @cons b b' bs bs' m m₁ m' hC hs ih =>
    obtain ⟨a, as, hab, hrest, rfl⟩ := List.forall₂_cons_right_iff.mp hR
    obtain ⟨hpre, hinv⟩ := hsafe _ .refl
    -- after the first component the sweep goes on behind it
    have hgo : ∃ a', AtMostOne A a m a' m₁ ∧ R a' b' := by
      rcases hsim a b m b' m₁ hab (hpre a (by simp)) hinv hC with ⟨rfl, hR'⟩ | ⟨a', hA, hR'⟩
      · exact ⟨a, .inl ⟨rfl, rfl⟩, hR'⟩
      · exact ⟨a', .inr hA, hR' (hsafe _ (.single (.mk done as hA))).2⟩
    obtain ⟨a', hA, hR'⟩ := hgo
    have hsafe' := hsafe.of_reaches (hA.reaches done as)
    rw [show done ++ a' :: as = (done ++ [a']) ++ as by simp] at hsafe'
    obtain ⟨as', hsweep, hrest'⟩ := ih (done ++ [a']) hrest hsafe'
    exact ⟨a' :: as', .cons hA hsweep, .cons hR' hrest'⟩

/-- The rule for one sweep. -/
lemma Sweep.simulated {bs bs' : List β} {m m' : σ} (h : Sweep C bs m bs' m') {as : List α}
    (hR : List.Forall₂ R as bs) (hsafe : Safe A Pre Inv (as, m)) :
    ∃ as', Sweep (AtMostOne A) as m as' m' ∧ List.Forall₂ R as' bs' :=
  h.simulated_behind hsim [] hR hsafe

end Simulation

end Interleaving
