import HitOS.Lib.Reachable

/-!
# Loops with fuel

A loop whose body either ends it with a result or goes on with another state, run for a number of
rounds. `run_of_measure` is the rule for termination: where the body keeps an invariant and lowers a
measure, as many rounds as the measure says suffice. `run_eq_some` says where a result comes from:
from a state the rounds have led to.
-/

namespace FuelLoop

universe u v

variable {σ : Type u} {ρ : Type v}

/-- The loop, for at most `fuel` rounds. -/
def run (body : σ → ρ ⊕ σ) : Nat → σ → Option ρ
  | 0, _ => none
  | fuel + 1, s =>
    match body s with
    | .inl r => some r
    | .inr t => run body fuel t

variable {body : σ → ρ ⊕ σ} {s : σ} {fuel : Nat}

/-- **The rule for termination.** -/
theorem run_of_measure {I : σ → Prop} {m : σ → Nat} (hround : ∀ s t, I s → body s = .inr t → I t ∧ m t < m s)
    (hs : I s) (hfuel : m s < fuel) : ∃ r, run body fuel s = some r := by
  induction fuel generalizing s with
  | zero => exact absurd hfuel (Nat.not_lt_zero _)
  | succ _ ih =>
    unfold run
    cases hb : body s with
    | inl r => exact ⟨r, rfl⟩
    | inr t =>
      obtain ⟨ht, hlt⟩ := hround s t hs hb
      exact ih ht (Nat.lt_of_lt_of_le hlt (Nat.le_of_lt_succ hfuel))

/-- **The result** is that of the last round. -/
theorem run_eq_some {r : ρ} (h : run body fuel s = some r) :
    ∃ t, Reachable (· = s) (fun t u => body t = .inr u) t ∧ body t = .inl r := by
  -- the state so far is reached from the first one; the rounds go on from it
  suffices hgo : ∀ fuel t, Reachable (· = s) (fun t u => body t = .inr u) t → run body fuel t = some r →
      ∃ t, Reachable (· = s) (fun t u => body t = .inr u) t ∧ body t = .inl r from
    hgo fuel s (.start rfl) h
  intro fuel
  induction fuel with
  | zero =>
    nofun
  | succ _ ih =>
    intro t ht hrun
    unfold run at hrun
    cases hb : body t with
    | inl =>
      rw [hb] at hrun
      cases hrun
      exact ⟨t, ht, hb⟩
    | inr u =>
      rw [hb] at hrun
      exact ih u (.step ht hb) hrun

end FuelLoop
