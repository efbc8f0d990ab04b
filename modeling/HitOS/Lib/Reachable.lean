import Mathlib

/-!
# Reachable states and invariants

A transition system is a set of initial states and a step relation. `Reachable` collects the states
its runs pass through, and `Reachable.invariant` is the induction rule every invariant below is
proved with: it holds initially, and a step from a reachable state keeps it. `foldlM_invariant` is
the same for the events of a list.
-/

universe u v

/-- The states that runs from `init` along `step` pass through. -/
inductive Reachable {σ : Type u} (init : σ → Prop) (step : σ → σ → Prop) : σ → Prop
  | start {s : σ} (h : init s) : Reachable init step s
  | step {s t : σ} (hs : Reachable init step s) (h : step s t) : Reachable init step t

/-- **The invariant rule.** -/
theorem Reachable.invariant {σ : Type u} {init : σ → Prop} {step : σ → σ → Prop} {I : σ → Prop}
    (hinit : ∀ s, init s → I s) (hstep : ∀ s t, I s → step s t → I t) {s : σ}
    (h : Reachable init step s) : I s := by
  induction h with
  | start h => exact hinit _ h
  | step _ h ih => exact hstep _ _ ih h

/-- What every event of a list keeps holds after all of them. -/
theorem foldlM_invariant {σ : Type u} {ε : Type v} {exec : σ → ε → Option σ} {I : σ → Prop}
    {es : List ε} {s t : σ}
    (hI : I s) (hexec : ∀ s e t, e ∈ es → I s → exec s e = some t → I t) (hrun : es.foldlM exec s = some t) :
    I t := by
  induction es generalizing s with
  | nil =>
    cases hrun
    exact hI
  | cons e es ih =>
    obtain ⟨u, hstep, hrest⟩ := Option.bind_eq_some_iff.mp hrun
    exact ih (hexec _ _ _ (.head _) hI hstep) (fun s e' t he => hexec s e' t (.tail _ he)) hrest
