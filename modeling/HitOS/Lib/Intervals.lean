import Mathlib

/-!
# Lists of half-open intervals

An interval `[a, b)` of natural numbers is the pair `(a, b)`. `cover` is the set of points a list of
intervals holds; for a list of disjoint intervals its size is the sum of the lengths
(`card_cover`). `sortAndMerge` sorts a list by lower end and joins intervals that touch or overlap:
the result holds the same points and its intervals are apart (`sortAndMerge_spec`).
-/

namespace Intervals

open List Finset

variable {l : List (Nat × Nat)}

/-- The points of the intervals. -/
def cover : List (Nat × Nat) → Finset Nat
  | [] => ∅
  | r :: l => Finset.Ico r.1 r.2 ∪ cover l

theorem mem_cover {x : Nat} : x ∈ cover l ↔ ∃ r ∈ l, r.1 ≤ x ∧ x < r.2 := by
  induction l with
  | nil => simp [cover]
  | cons r l ih => simp [cover, ih]

/-- Two intervals have no point in common. -/
def Apart (r q : Nat × Nat) : Prop := r.2 ≤ q.1 ∨ q.2 ≤ r.1

/-- **The size of a disjoint cover.** -/
theorem card_cover (h : l.Pairwise Apart) : (cover l).card = (l.map (fun r => r.2 - r.1)).sum := by
  induction l with
  | nil => rfl
  | cons r l ih =>
    obtain ⟨hr, hl⟩ := pairwise_cons.mp h
    have hdisj : Disjoint (Finset.Ico r.1 r.2) (cover l) := by
      rw [Finset.disjoint_left]
      intro x hx hxl
      obtain ⟨q, hq, h1, h2⟩ := mem_cover.mp hxl
      have hx' := mem_Ico.mp hx
      rcases hr q hq with h' | h' <;> omega
    rw [cover, card_union_of_disjoint hdisj, Nat.card_Ico, ih hl]
    rfl

/-! ### Sorting and merging -/

/-- The merging loop over a list sorted by lower end: `cur` is the interval being built. -/
def mergeFrom (cur : Nat × Nat) : List (Nat × Nat) → List (Nat × Nat)
  | [] => [cur]
  | q :: l => if q.1 ≤ cur.2 then mergeFrom (cur.1, max cur.2 q.2) l else cur :: mergeFrom q l

/-- Join the intervals of a sorted list that touch or overlap. -/
def mergeSorted : List (Nat × Nat) → List (Nat × Nat)
  | [] => []
  | r :: l => mergeFrom r l

/-- Sort by lower end and merge. -/
def sortAndMerge (l : List (Nat × Nat)) : List (Nat × Nat) :=
  mergeSorted (l.insertionSort (fun r q => r.1 ≤ q.1))

/-- What the merging loop builds from a sorted list of non-empty intervals. -/
theorem mergeFrom_spec {cur : Nat × Nat} (hcur : cur.1 < cur.2)
    (hl : ∀ r ∈ l, r.1 < r.2) (hsorted : (cur :: l).Pairwise (fun r q => r.1 ≤ q.1)) :
    (∀ x, x ∈ cover (mergeFrom cur l) ↔ x ∈ cover (cur :: l)) ∧
      (mergeFrom cur l).Pairwise (fun r q => r.2 < q.1) ∧
      (∀ r ∈ mergeFrom cur l, r.1 < r.2 ∧ cur.1 ≤ r.1) := by
  induction l generalizing cur with
  | nil => simp [mergeFrom, hcur]
  | cons q l ih =>
    obtain ⟨hlow, hrest⟩ := pairwise_cons.mp hsorted
    obtain ⟨-, hl'⟩ := pairwise_cons.mp hrest
    have hq := hl q (.head _)
    have hcq := hlow q (.head _)
    have htail r (hr : r ∈ l) : r.1 < r.2 := hl r (.tail _ hr)
    unfold mergeFrom
    split
    · -- `q` is swallowed: it begins inside or right after the interval being built
      have hjoined : ((cur.1, max cur.2 q.2) : Nat × Nat).1 < (cur.1, max cur.2 q.2).2 := by omega
      obtain ⟨h1, h2, h3⟩ := ih hjoined htail (pairwise_cons.mpr ⟨fun r hr => hlow r (.tail _ hr), hl'⟩)
      refine ⟨fun x => ?_, h2, h3⟩
      have hjoin : cur.1 ≤ x ∧ x < max cur.2 q.2 ↔ (cur.1 ≤ x ∧ x < cur.2) ∨ (q.1 ≤ x ∧ x < q.2) := by omega
      rw [h1]
      simp only [cover, mem_union, mem_Ico, hjoin, or_assoc]
    · obtain ⟨h1, h2, h3⟩ := ih hq htail hrest
      refine ⟨fun x => ?_, pairwise_cons.mpr ⟨fun r hr => ?_, h2⟩, fun r hr => ?_⟩
      · change x ∈ Finset.Ico cur.1 cur.2 ∪ _ ↔ x ∈ Finset.Ico cur.1 cur.2 ∪ _
        rw [mem_union, mem_union, h1]
      · have := (h3 r hr).2
        omega
      · rcases mem_cons.mp hr with rfl | hr
        · exact ⟨hcur, le_rfl⟩
        · exact ⟨(h3 r hr).1, hcq.trans (h3 r hr).2⟩

section SortAndMerge

/-- **Merging, in full.** Sorting and merging non-empty intervals keeps the points and leaves gaps
between the intervals. -/
theorem sortAndMerge_spec (hl : ∀ r ∈ l, r.1 < r.2) : (∀ x, x ∈ cover (sortAndMerge l) ↔ x ∈ cover l) ∧
      (sortAndMerge l).Pairwise (fun r q => r.2 < q.1) ∧ ∀ r ∈ sortAndMerge l, r.1 < r.2 := by
  have hsorted := pairwise_insertionSort (fun r q : Nat × Nat => r.1 ≤ q.1) l
  have hperm := perm_insertionSort (fun r q : Nat × Nat => r.1 ≤ q.1) l
  have hcover x : x ∈ cover (l.insertionSort fun r q => r.1 ≤ q.1) ↔ x ∈ cover l := by
    simp only [mem_cover, hperm.mem_iff]
  have hne r (hr : r ∈ l.insertionSort fun r q => r.1 ≤ q.1) : r.1 < r.2 := hl r (hperm.mem_iff.mp hr)
  unfold sortAndMerge
  generalize l.insertionSort fun r q => r.1 ≤ q.1 = m at hsorted hcover hne
  cases m with
  | nil => exact ⟨hcover, Pairwise.nil, by simp [mergeSorted]⟩
  | cons r =>
    obtain ⟨h1, h2, h3⟩ := mergeFrom_spec (hne r (.head _)) (fun q hq => hne q (.tail _ hq)) hsorted
    exact ⟨fun x => (h1 x).trans (hcover x), h2, fun q hq => (h3 q hq).1⟩

/-- An upper bound of all upper ends is kept. -/
theorem sortAndMerge_le (hl : ∀ r ∈ l, r.1 < r.2) {b : Nat} (hb : ∀ r ∈ l, r.2 ≤ b) :
    ∀ r ∈ sortAndMerge l, r.2 ≤ b := by
  intro r hr
  obtain ⟨hcover, -, hne⟩ := sortAndMerge_spec hl
  have hlt := hne r hr
  -- the last point of a merged interval is a point of the list
  obtain ⟨q, hq, -, h2⟩ := mem_cover.mp ((hcover (r.2 - 1)).mp (mem_cover.mpr ⟨r, hr, by omega, by omega⟩))
  have := hb q hq
  omega

end SortAndMerge

end Intervals
