import Mathlib

/-!
# Stores that keep the order of each class

What has been put into a store, what has been taken out of it, and what is in it. In each class of
elements, those with one key, the store is a queue (`KeepsOrder`): nothing is lost or there twice,
and what is taken is what was put in first. It stays one if an element goes behind the others of its
class (`KeepsOrder.put`) and leaves from before them (`KeepsOrder.take`).
-/

open List

variable {α κ : Type} [DecidableEq κ] {key : α → κ} {sent taken l₁ l₂ : List α} {x : α}

/-- In each class, what was put in is what was taken, and then what is stored. -/
def KeepsOrder (key : α → κ) (sent taken stored : List α) : Prop :=
  ∀ k, sent.filter (key · = k) = taken.filter (key · = k) ++ stored.filter (key · = k)

theorem KeepsOrder.filter_of_ne {l : List α} (h : ∀ y ∈ l, key y ≠ key x) : l.filter (key · = key x) = [] :=
  filter_eq_nil_iff.mpr fun y hy hk => h y hy (of_decide_eq_true hk)

theorem KeepsOrder.put (h : KeepsOrder key sent taken (l₁ ++ l₂)) (hlast : ∀ y ∈ l₂, key y ≠ key x) :
    KeepsOrder key (sent ++ [x]) taken (l₁ ++ x :: l₂) := by
  intro k
  have hk := h k
  by_cases hx : key x = k
  · subst hx
    simp [filter_of_ne hlast, hk]
  · simpa [hx] using hk

theorem KeepsOrder.take (h : KeepsOrder key sent taken (l₁ ++ x :: l₂)) (hfirst : ∀ y ∈ l₁, key y ≠ key x) :
    KeepsOrder key sent (taken ++ [x]) (l₁ ++ l₂) := by
  intro k
  have hk := h k
  by_cases hx : key x = k
  · subst hx
    simp [filter_of_ne hfirst, hk]
  · simpa [hx] using hk
