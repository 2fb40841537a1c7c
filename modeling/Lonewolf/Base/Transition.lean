import Mathlib

/-!
# Transition systems

States, initial states and a step relation; what holds of every reachable state is proved by showing
it of the initial states and through one step.
-/

namespace Transitions

/-- Initial states and the steps between states. -/
structure System (σ : Type*) where
  init : σ → Prop
  step : σ → σ → Prop

namespace System

variable {σ : Type*} (sys : System σ)

/-- The states a run of the system passes through. -/
inductive Reachable : σ → Prop where
  | init {s : σ} : sys.init s → Reachable s
  | step {s t : σ} : Reachable s → sys.step s t → Reachable t

variable {sys} {s : σ}

theorem Reachable.invariant {p : σ → Prop} (hinit : ∀ s, sys.init s → p s)
    (hstep : ∀ s t, sys.Reachable s → p s → sys.step s t → p t) (hs : sys.Reachable s) : p s := by
  induction hs with
  | init h => exact hinit _ h
  | step hreach hst ih => exact hstep _ _ hreach ih hst

theorem Reachable.map {τ : Type*} {sys' : System τ} (f : σ → τ) (hinit : ∀ s, sys.init s → sys'.init (f s))
    (hstep : ∀ s t, sys.Reachable s → sys.step s t → sys'.step (f s) (f t) ∨ f t = f s) (hs : sys.Reachable s) :
    sys'.Reachable (f s) := by
  induction hs with
  | init h => exact .init (hinit _ h)
  | step hreach hst ih =>
    rcases hstep _ _ hreach hst with hstep | heq
    · exact ih.step hstep
    · rw [heq]
      exact ih

theorem Reachable.run {ε : Type*} {next : σ → ε → Option σ} (hnext : ∀ s e t, next s e = some t → sys.step s t) {t : σ}
    (hs : sys.Reachable s) {events : List ε} (hrun : events.foldlM next s = some t) : sys.Reachable t := by
  induction events generalizing s with
  | nil =>
    obtain rfl := Option.some.inj hrun
    exact hs
  | cons e events ih =>
    obtain ⟨u, hu, hrest⟩ := Option.bind_eq_some_iff.mp hrun
    exact ih (hs.step (hnext s e u hu)) hrest

end System

end Transitions
