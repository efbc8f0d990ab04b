import Mathlib

/-!
# Lists of items that own points

An item owns a set of points and says something about each of them. A list of items is *valid* when
no point has two owners, and then it says one thing about every point: `Reads l f` is this reading,
independent of the order of the list.

* `Reads.perm`, `Reads.append`, `Reads.singleton` — how a reading follows the list;
* `Reads.rebuild` — a loop that replaces each item by pieces of it, and works on a map on points
  beside, acts point by point.
-/

universe u v w

/-- What the points of an item are, what it says about each, and when it is well formed. -/
structure Items (α : Type u) (ρ : Type v) where
  owns : α → Nat → Bool
  read : α → Nat → ρ
  Ok : α → Prop

namespace Items

open List Option

variable {α : Type u} {ρ : Type v} {β : Type w} (I : Items α ρ)

/-- Two items own no point in common. -/
def Apart (a b : α) : Prop := ∀ x, I.owns a x = true → I.owns b x = false

/-- What the list says about a point: what its first owner says. -/
def readAt (l : List α) (x : Nat) : Option ρ := (l.find? (fun a => I.owns a x)).map (fun a => I.read a x)

/-- The list is valid and says `f`. -/
structure Reads (l : List α) (f : Nat → Option ρ) : Prop where
  ok : ∀ a ∈ l, I.Ok a
  apart : l.Pairwise I.Apart
  read : ∀ x, I.readAt l x = f x

variable {I} {l l' : List α} {f g : Nat → Option ρ} {a : α} {x : Nat}

theorem Apart.symm {b : α} (h : I.Apart a b) : I.Apart b a := by
  intro x hb
  rw [Bool.eq_false_iff]
  intro ha
  rw [h x ha] at hb
  cases hb

/-- In a list without double owners the owner of a point is found. -/
theorem find?_of_mem (h : l.Pairwise I.Apart) (ha : a ∈ l) (hx : I.owns a x = true) :
    l.find? (fun a => I.owns a x) = some a := by
  induction l with
  | nil => cases ha
  | cons b l ih =>
    obtain ⟨hb, hl⟩ := pairwise_cons.mp h
    rcases mem_cons.mp ha with rfl | ha'
    · exact find?_cons_of_pos (by exact hx)
    · have hno : I.owns b x = false := (hb a ha').symm x hx
      rw [find?_cons_of_neg (by simp [hno]), ih hl ha']

theorem readAt_of_mem (h : l.Pairwise I.Apart) (ha : a ∈ l) (hx : I.owns a x = true) :
    I.readAt l x = some (I.read a x) := by
  rw [readAt, find?_of_mem h ha hx, map_some]

theorem readAt_eq_none_iff : I.readAt l x = none ↔ ∀ a ∈ l, I.owns a x = false := by
  simp [readAt]

/-- What is said about a point is said by an owner. -/
theorem exists_of_readAt {r : ρ} (h : I.readAt l x = some r) :
    ∃ a ∈ l, I.owns a x = true ∧ I.read a x = r := by
  obtain ⟨a, ha, rfl⟩ := map_eq_some_iff.mp h
  exact ⟨a, mem_of_find?_eq_some ha, by simpa using find?_some ha, rfl⟩

namespace Reads

theorem congr (h : I.Reads l f) (hfg : ∀ x, f x = g x) : I.Reads l g :=
  ⟨h.ok, h.apart, fun x => (h.read x).trans (hfg x)⟩

theorem of_mem (h : I.Reads l f) (ha : a ∈ l) (hx : I.owns a x = true) : f x = some (I.read a x) := by
  rw [← h.read, readAt_of_mem h.apart ha hx]

theorem eq_none_iff (h : I.Reads l f) : f x = none ↔ ∀ a ∈ l, I.owns a x = false := by
  rw [← h.read, readAt_eq_none_iff]

theorem nil : I.Reads [] (fun _ => none) := ⟨by simp, Pairwise.nil, fun _ => rfl⟩

theorem singleton (ha : I.Ok a) :
    I.Reads [a] (fun x => if I.owns a x = true then some (I.read a x) else none) := by
  refine ⟨by simpa using ha, pairwise_singleton .., fun x => ?_⟩
  by_cases hx : I.owns a x = true
  · simp [readAt]
  · simp [readAt]

/-- A reading does not depend on the order of the list. -/
theorem perm (h : I.Reads l f) (hp : l.Perm l') : I.Reads l' f := by
  have hapart : l'.Pairwise I.Apart := (hp.pairwise_iff fun h => h.symm).mp h.apart
  refine ⟨fun a ha => h.ok a (hp.mem_iff.mpr ha), hapart, fun x => ?_⟩
  have hread (m : List α) (hm : m.Pairwise I.Apart) r :
      I.readAt m x = some r ↔ ∃ a ∈ m, I.owns a x = true ∧ I.read a x = r := by
    refine ⟨exists_of_readAt, ?_⟩
    rintro ⟨a, ha, hx, rfl⟩
    exact readAt_of_mem hm ha hx
  rw [← h.read]
  ext r
  simp only [hread l' hapart, hread l h.apart, hp.mem_iff]

/-- Two lists that say nothing about the same point can be joined. -/
theorem append (h : I.Reads l f) (h' : I.Reads l' g) (hfg : ∀ x, f x = none ∨ g x = none) :
    I.Reads (l ++ l') (fun x => (f x).or (g x)) := by
  refine ⟨fun a ha => ?_, pairwise_append.mpr ⟨h.apart, h'.apart, fun a ha b hb x hx => ?_⟩, fun x => ?_⟩
  · rcases mem_append.mp ha with ha | ha
    · exact h.ok a ha
    · exact h'.ok a ha
  · rcases hfg x with hnone | hnone
    · rw [h.of_mem ha hx] at hnone
      cases hnone
    · exact h'.eq_none_iff.mp hnone b hb
  · rw [← h.read, ← h'.read, readAt, find?_append]
    unfold readAt
    cases l.find? fun a => I.owns a x <;> rfl

/-- What is left when one item is taken out. -/
theorem erase (h : I.Reads l f) (hp : l.Perm (a :: l')) :
    I.Reads l' (fun x => if I.owns a x = true then none else f x) := by
  obtain ⟨hok, hapart, hread⟩ := h.perm hp
  obtain ⟨hal, hl⟩ := pairwise_cons.mp hapart
  refine ⟨fun b hb => hok b (.tail _ hb), hl, fun x => ?_⟩
  split
  · next hx => exact readAt_eq_none_iff.mpr fun b hb => hal b hb x hx
  · next hx => rw [← hread x, readAt, readAt, find?_cons_of_neg (by simpa using hx)]

/-- What is said when one item stands in for another, which may own more points that nobody owns. -/
theorem replace {a' : α} {l₁ l₂ : List α} (h : I.Reads (l₁ ++ a :: l₂) f) (hok : I.Ok a')
    (hnew : ∀ x, I.owns a' x = true → I.owns a x = true ∨ f x = none) :
    I.Reads (l₁ ++ a' :: l₂) (fun x => if I.owns a' x = true then some (I.read a' x)
      else if I.owns a x = true then none else f x) := by
  have hrest := h.erase perm_middle
  have hjoin := (singleton hok).append hrest fun x => ?_
  · have hp : ([a'] ++ (l₁ ++ l₂)).Perm (l₁ ++ a' :: l₂) := by
      rw [singleton_append]
      exact perm_middle.symm
    refine (hjoin.perm hp).congr fun x => ?_
    split <;> rfl
  · by_cases hx : I.owns a' x = true
    · refine .inr ?_
      rcases hnew x hx with ha | hnone
      · rw [if_pos ha]
      · rw [hnone, ite_self]
    · exact .inl (if_neg hx)

end Reads

/-! ### Rebuilding a list -/

/-- A loop over the items that replaces each by its pieces and works on a map `m` on points as it
goes. -/
def rebuild (step : (Nat → β) → α → (Nat → β) × List α) : (Nat → β) → List α → (Nat → β) × List α
  | m, [] => (m, [])
  | m, a :: l =>
    let now := step m a
    let rest := rebuild step now.1 l
    (rest.1, now.2 ++ rest.2)

/-- The body of such a loop acts on the points of its item only, and on each of them by `effect`:
from what the item says there and the value of the map to what the piece says, if there is one left,
and the new value. -/
structure Acts (I : Items α ρ) (step : (Nat → β) → α → (Nat → β) × List α)
    (effect : Nat → ρ → β → Option ρ × β) : Prop where
  /-- The pieces are well formed and say what the effect says. -/
  pieces : ∀ m a, I.Ok a → I.Reads (step m a).2
    (fun x => if I.owns a x = true then (effect x (I.read a x) (m x)).1 else none)
  /-- The map changes at the points of the item only. -/
  map : ∀ m a, I.Ok a → ∀ x, (step m a).1 x = if I.owns a
    x = true then (effect x (I.read a x) (m x)).2 else m x

/-- **Rebuilding acts point by point.** -/
theorem Reads.rebuild {step : (Nat → β) → α → (Nat → β) × List α} {effect : Nat → ρ → β → Option ρ × β}
    (hstep : I.Acts step effect) (h : I.Reads l f) (m : Nat → β) :
    I.Reads (rebuild step m l).2 (fun x => (f x).bind (fun r => (effect x r (m x)).1)) ∧
      ∀ x, (Items.rebuild step m l).1 x = (f x).elim (m x) (fun r => (effect x r (m x)).2) := by
  induction l generalizing m f with
  | nil =>
    have hnone x : f x = none := (h.read x).symm
    exact ⟨nil.congr fun x => by rw [hnone]; rfl, fun x => by rw [hnone]; rfl⟩
  | cons a l ih =>
    have hok : I.Ok a := h.ok a (.head _)
    -- a point of `a` is no point of the rest
    obtain ⟨hrest, hmap⟩ := ih (h.erase .rfl) (step m a).1
    constructor
    · refine ((hstep.pieces m a hok).append hrest fun x => ?_).congr fun x => ?_
      · by_cases hx : I.owns a x = true
        · exact .inr (by rw [if_pos hx]; rfl)
        · exact .inl (if_neg hx)
      by_cases hx : I.owns a x = true
      · rw [if_pos hx, if_pos hx, h.of_mem (.head _) hx]
        simp
      · rw [if_neg hx, if_neg hx, hstep.map m a hok x, if_neg hx]
        simp
    · intro x
      change (rebuild step (step m a).1 l).1 x = _
      rw [hmap x, hstep.map m a hok x]
      split_ifs with hx
      · rw [h.of_mem (.head _) hx]
        rfl
      · rfl

end Items
