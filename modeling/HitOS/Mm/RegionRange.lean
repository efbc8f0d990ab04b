import HitOS.Mm.RegionInsert

/-!
# Range operations on the region set

`trim_range`, `trim_heap_range` and `apply_mprotect_range` collect the regions that meet the range
and then, from the lowest up, take each out of the set and put its pieces back. One iteration is
described for one region (`trimOne_reads`, `mprotectOne_reads`), from keeping the part below the
range (`keepLower_reads`) and filling a free gap (`Reads.fill`); the loops are inductions over the
collected list.

The list is collected before the first change, so the regions to come must still be in the set,
unchanged, at their turn. Trimming never touches them. Re-protecting does not as long as
`NoPendingMerge` holds: no re-protected piece can be merged with an overlapped region.

* `trimRange_reads`, `trimHeapRange_reads` — the range is unmapped and nothing else changes;
* `applyMprotectRange_reads` — the range is re-protected and nothing else changes.
-/

namespace HitOS

open List VmRegion ByteAttrs Option Bool

namespace VmRegionSet

variable {α : Type} {V : RegionView α} {q p : VmRegion} {s : VmRegionSet} {l : List VmRegion} {f : Nat → Option α}

/-- The view that only tells mapped addresses from unmapped ones. -/
def mappedView : RegionView Unit where
  read _ _ := ()
  Good _ := True
  good_merged _ _ _ _ _ := trivial
  read_merged _ _ _ _ _ _ _ := rfl
  good_slice _ _ _ _ _ := trivial
  read_slice _ _ _ _ := rfl

/-! ### What a set says -/

/-- The set is well formed and good for the view, and through it says `f`. -/
structure Reads (V : RegionView α) (s : VmRegionSet) (f : Nat → Option α) : Prop where
  wellFormed : s.WellFormed
  good : s.AllGood V
  view : ∀ x, s.viewAt V x = f x

section Reads

variable {r : VmRegion} {g : Nat → Option α}

variable (h : Reads V s f)

include h

theorem Reads.congr (hfg : ∀ x, f x = g x) : Reads V s g :=
  ⟨h.wellFormed, h.good, fun x => (h.view x).trans (hfg x)⟩

theorem Reads.of_mem (hp : p ∈ s) {x : Nat} (hx : p.Contains x) : f x = some (V.read p x) := by
  rw [← h.view, viewAt_of_mem h.wellFormed hp hx]

/-- A range the set says nothing about is free. -/
theorem Reads.free {a b : Nat} (hnone : ∀ x, a ≤ x → x < b → f x = none) : s.Free a b := by
  intro q hq
  by_contra hno
  -- the first common address of the region and the range is mapped
  have hlt := h.wellFormed.start_lt_endAddr hq
  have hx := h.of_mem hq (x := max a q.start) ⟨by omega, by omega⟩
  rw [hnone _ (by omega) (by omega)] at hx
  cases hx

theorem Reads.remove (hp : p ∈ s) :
    Reads V (s.remove p.start) (fun x => if p.Contains x then none else f x) := by
  refine ⟨remove_wellFormed h.wellFormed, allGood_remove h.good, fun x => ?_⟩
  rw [viewAt_remove h.wellFormed hp, h.view]

/-- Putting a piece into a free gap: it may be empty, and then nothing happens. -/
theorem Reads.fill (hfit : r.Fits) (hgood : V.Good r) (hnone : ∀ x, r.Contains x → f x = none) :
    Reads V (s.insertMerged r) (fun x => if r.Contains x then some (V.read r x) else f x) := by
  by_cases hlen : r.len = 0
  · rw [insertMerged_of_len_eq_zero hlen]
    refine h.congr fun x => (if_neg ?_).symm
    unfold Contains
    rw [hfit.endAddr_eq]
    omega
  · have hc : Placeable s r := ⟨h.wellFormed, by omega, hfit, h.free fun x ha hb => hnone x ⟨ha, hb⟩⟩
    refine ⟨insertMerged_wellFormed hc, insertMerged_allGood hc h.good hgood, fun x => ?_⟩
    rw [viewAt_insertMerged hc h.good hgood, h.view]

/-- Putting back the part `[c, d)` of a region into a gap. -/
theorem Reads.fill_slice (hfit : p.Fits) (hgood : V.Good p) {c d : Nat} (hc : p.start ≤ c) (hcd : c ≤ d)
    (hd : d ≤ p.endAddr) (hnone : ∀ x, c ≤ x → x < d → f x = none) :
    Reads V (s.insertMerged (p.slice c (d - c)))
      (fun x => if c ≤ x ∧ x < d then some (V.read p x) else f x) := by
  have hend := slice_endAddr hcd hd
  have hcont x : (p.slice c (d - c)).Contains x ↔ c ≤ x ∧ x < d := by
    unfold Contains
    rw [hend, slice_start]
  refine (h.fill (slice_fits hcd hd) (V.good_slice hfit hgood hc hcd hd)
    fun x hx => hnone x ((hcont x).mp hx).1 ((hcont x).mp hx).2).congr fun x => ?_
  simp only [hcont]
  split
  · next hx => rw [V.read_slice hc hd hx.1 hx.2]
  · rfl

end Reads

theorem mem_of_collected {a b : Nat} {pred : VmRegion → Bool} (hs : s.WellFormed) :
    ∀ p ∈ s.collectOverlapsWhere a b pred, p ∈ s ∧ p.start < b ∧ a < p.endAddr := by
  intro p hp
  obtain ⟨hps, -, hpb, hpa, -⟩ := (mem_collectOverlapsWhere_iff hs).mp hp
  exact ⟨hps, hpb, hpa⟩

/-- An address of the range that no collected region holds is not mapped. -/
theorem Reads.eq_none_of_not_collected {f : Nat → Option α} (h : Reads V s f) {a b x : Nat} (hab : a < b)
    (hx : a ≤ x ∧ x < b) (hno : ¬ ∃ p ∈ s.collectOverlapsWhere a b (fun _ => true), p.Contains x) :
    f x = none := by
  rw [← h.view, viewAt_eq_none h.wellFormed]
  intro p hp hpx
  have h1 := hpx.1
  have h2 := hpx.2
  exact hno ⟨p, (mem_collectOverlapsWhere_iff h.wellFormed).mpr ⟨hp, hab, by omega, by omega, rfl⟩, hpx⟩

/-! ### Taking a region out and putting its lower part back -/

section KeepLower

variable {a : Nat}

theorem keepLower_reads (h : Reads V s f) (hp : p ∈ s) (ha : a < p.endAddr) :
    Reads V (keepLower a s p) (fun x => if p.Contains x ∧ a ≤ x then none else f x) := by
  have hrem := h.remove hp
  unfold keepLower
  split
  · next hgt =>
    refine (hrem.fill_slice (h.wellFormed.fits p hp) (h.good p hp) (le_rfl) hgt.le
      ha.le fun x h1 h2 => if_pos ⟨h1, lt_trans h2 ha⟩).congr fun x => ?_
    split
    · next hx =>
      rw [if_neg fun h => by omega, h.of_mem hp ⟨hx.1, by omega⟩]
    · exact if_congr (by unfold Contains; omega) rfl rfl
  · exact hrem.congr fun x => if_congr (by unfold Contains; omega) rfl rfl

/-- The lower part never merges upwards: the address above it was inside the region. -/
theorem mem_keepLower_iff (hs : s.WellFormed) (hp : p ∈ s) (ha : a < p.endAddr)
    (hq : p.endAddr ≤ q.start) : q ∈ keepLower a s p ↔ q ∈ s := by
  have hlt := hs.start_lt_endAddr hp
  have hrem : q ∈ s.remove p.start ↔ q ∈ s := by
    rw [mem_remove_iff]
    exact ⟨fun h => h.1, fun h => ⟨h, by omega⟩⟩
  unfold keepLower
  split
  · next hgt =>
    have hend := slice_endAddr hgt.le ha.le
    have hc : Placeable (s.remove p.start) (p.slice p.start (a - p.start)) := by
      refine ⟨remove_wellFormed hs, ?_, slice_fits hgt.le ha.le, ?_⟩
      · rw [slice_len]
        omega
      · rw [hend]
        exact (free_remove hs hp).mono (le_rfl) ha.le
    rw [mem_insertMerged_of_not_above hc (min_le_right ..) ?_ (show p.start < q.start by omega), hrem]
    intro n hn
    rw [eq_false_iff]
    intro hcan
    have hadj := endAddr_eq_of_canMergeWith hcan
    have hfree := free_remove hs hp n hn
    have := hs.start_lt_endAddr (mem_remove_iff.mp hn).1
    omega
  · exact hrem

end KeepLower

/-! ### Trimming -/

section Trim

variable {a b : Nat}

theorem trimOne_reads (h : Reads V s f) (hp : p ∈ s) (hab : a < b) (ha : a < p.endAddr) (hb : p.start < b) :
    Reads V (trimOne a b s p) (fun x => if p.Contains x ∧ a ≤ x ∧ x < b then none else f x) := by
  have hlow := keepLower_reads h hp ha
  dsimp only [trimOne]
  split
  · next hgt =>
    refine (hlow.fill_slice (h.wellFormed.fits p hp) (h.good p hp) hb.le hgt.le
      (le_rfl) fun x h1 h2 => if_pos ⟨⟨by omega, h2⟩, by omega⟩).congr fun x => ?_
    split
    · next hx =>
      rw [if_neg fun h => by omega, h.of_mem hp ⟨by omega, hx.2⟩]
    · exact if_congr (by unfold Contains; omega) rfl rfl
  · exact hlow.congr fun x => if_congr (by unfold Contains; omega) rfl rfl

theorem mem_trimOne_iff (hs : s.WellFormed) (hp : p ∈ s) (ha : a < p.endAddr) (hb : p.endAddr ≤ b)
    (hq : p.endAddr ≤ q.start) : q ∈ trimOne a b s p ↔ q ∈ s := by
  dsimp only [trimOne]
  rw [if_neg (by omega)]
  exact mem_keepLower_iff hs hp ha hq

/-- The trimming loop: each region of the list loses its part inside the range. -/
theorem foldl_trimOne_reads (hab : a < b) (hl : l.Pairwise (fun r q => r.endAddr ≤ q.start))
    (h : Reads V s f) (hmem : ∀ p ∈ l, p ∈ s ∧ p.start < b ∧ a < p.endAddr) :
    Reads V (l.foldl (trimOne a b) s)
      (fun x => if (∃ p ∈ l, p.Contains x) ∧ a ≤ x ∧ x < b then none else f x) := by
  induction l generalizing s f with
  | nil => exact h.congr fun x => by simp
  | cons p l ih =>
    obtain ⟨hpl, hl'⟩ := pairwise_cons.mp hl
    obtain ⟨hp, hpb, hpa⟩ := hmem p (.head _)
    -- the regions still to come are above `p`, so this iteration leaves them in place
    have hrest q (hq : q ∈ l) : q ∈ trimOne a b s p ∧ q.start < b ∧ a < q.endAddr := by
      obtain ⟨hqs, hqb, hqa⟩ := hmem q (.tail _ hq)
      have hle := hpl q hq
      exact ⟨(mem_trimOne_iff h.wellFormed hp hpa (by omega) hle).mpr hqs, hqb, hqa⟩
    refine (ih hl' (trimOne_reads h hp hab hpa hpb) hrest).congr fun x => ?_
    by_cases hin : a ≤ x ∧ x < b
    · by_cases hpx : p.Contains x
      · simp [hpx, hin]
      · simp [hpx]
    · simp [hin]

/-- **Trimming unmaps the range.** -/
theorem trimRange_reads (h : Reads V s f) :
    Reads V (s.trimRange a b) (fun x => if a ≤ x ∧ x < b then none else f x) := by
  rcases lt_or_ge a b with hab | hba
  swap
  · unfold trimRange collectOverlapsWhere
    rw [if_pos hba]
    exact h.congr fun x => by rw [if_neg (by omega)]
  refine (foldl_trimOne_reads hab (collectOverlapsWhere_sorted h.wellFormed) h
    (mem_of_collected h.wellFormed)).congr fun x => ?_
  by_cases hin : a ≤ x ∧ x < b
  · split
    · rfl
    · next hno => rw [h.eq_none_of_not_collected hab hin fun hex => hno ⟨hex, hin⟩]
  · rw [if_neg hin, if_neg fun h => hin h.2]

/-- **Heap trimming unmaps the heap part of the range.** -/
theorem trimHeapRange_reads (hab : a < b) (h : Reads V s f) : Reads V (s.trimHeapRange a b)
    (fun x => if (s.containingAddr x).any isHeap ∧ a ≤ x ∧ x < b then none else f x) := by
  refine (foldl_trimOne_reads hab (collectOverlapsWhere_sorted h.wellFormed) h
    (mem_of_collected h.wellFormed)).congr fun x => ?_
  refine if_congr (and_congr_left fun _ => ⟨?_, ?_⟩) rfl rfl
  · rintro ⟨p, hp, hpx⟩
    obtain ⟨hps, -, -, -, hheap⟩ := (mem_collectOverlapsWhere_iff h.wellFormed).mp hp
    rwa [(containingAddr_eq_some_iff h.wellFormed).mpr ⟨hps, hpx⟩]
  intro hany
  obtain ⟨p, hcont, hheap⟩ := (Option.any_eq_true ..).mp hany
  obtain ⟨hps, hpx⟩ := (containingAddr_eq_some_iff h.wellFormed).mp hcont
  have h1 := hpx.1
  have h2 := hpx.2
  exact ⟨p, (mem_collectOverlapsWhere_iff h.wellFormed).mpr ⟨hps, hab, by omega, by omega, hheap⟩, hpx⟩

end Trim

/-! ### Re-protecting -/

/-- No overlapped region's re-protected part can be merged with an overlapped region: what the loop
of `apply_mprotect_range` needs for the regions it has yet to visit to stay in the set. -/
def NoPendingMerge (s : VmRegionSet) (a b prot : Nat) : Prop :=
  ∀ p ∈ s, p.overlaps a b = true → ∀ q ∈ s, q.overlaps a b = true →
    (reprotected a b prot p).canMergeWith q = false

instance (s : VmRegionSet) (a b prot : Nat) : Decidable (NoPendingMerge s a b prot) :=
  inferInstanceAs (Decidable (∀ p ∈ s, _ → ∀ q ∈ s, _ → _))

section Mprotect

variable {a b prot : Nat} {upd : α → α}

theorem reprotected_start (a b prot : Nat) :
    (reprotected a b prot p).start = max a p.start := rfl

theorem reprotected_range (prot : Nat) (ha : a < p.endAddr) (hpp : p.start < p.endAddr) (hb : p.start < b)
    (hab : a < b) : (reprotected a b prot p).Fits ∧ (reprotected a b prot p).endAddr = min b p.endAddr :=
  ⟨slice_fits (r := p) (a := max a p.start) (by omega) (by omega),
    slice_endAddr (r := p) (a := max a p.start) (by omega) (by omega)⟩

/-- One iteration of the re-protecting loop. -/
theorem mprotectOne_reads (h : Reads V s f) (hp : p ∈ s) (hab : a < b) (ha : a < p.endAddr) (hb : p.start < b)
    (hgood : ∀ r, V.Good r → V.Good (r.setProt prot))
    (hupd : ∀ r x, V.read (r.setProt prot) x = upd (V.read r x)) :
    Reads V (mprotectOne a b prot s p)
      (fun x => if p.Contains x ∧ a ≤ x ∧ x < b then (f x).map upd else f x) := by
  have hlt := h.wellFormed.start_lt_endAddr hp
  have hfit := h.wellFormed.fits p hp
  obtain ⟨hrfit, hend⟩ := reprotected_range prot ha hlt hb hab
  have hcont x : (reprotected a b prot p).Contains x ↔ p.Contains x ∧ a ≤ x ∧ x < b := by
    unfold Contains
    rw [reprotected_start]
    omega
  have hread x (hx : p.Contains x ∧ a ≤ x ∧ x < b) :
    some (V.read (reprotected a b prot p) x) = (f x).map upd := by
    rw [h.of_mem hp hx.1, map_some]
    unfold reprotected
    obtain ⟨⟨h1, h2⟩, h3, h4⟩ := hx
    rw [hupd, V.read_slice (by omega) (by omega) (by omega) (by omega)]
  -- the upper part is still missing
  have hmid : Reads V ((keepLower a s p).insertMerged (reprotected a b prot p)) fun x =>
      if p.Contains x ∧ a ≤ x ∧ x < b then (f x).map upd else if b ≤ x ∧ x < p.endAddr then none else f x := by
    refine ((keepLower_reads h hp ha).fill hrfit
      (hgood _ (V.good_slice hfit (h.good p hp) (by omega) (by omega) (by omega)))
      fun x hx => if_pos ⟨((hcont x).mp hx).1, ((hcont x).mp hx).2.1⟩).congr fun x => ?_
    by_cases hin : p.Contains x ∧ a ≤ x ∧ x < b
    · rw [if_pos ((hcont x).mpr hin), if_pos hin, hread x hin]
    · rw [if_neg (hin ∘ (hcont x).mp), if_neg hin]
      refine if_congr ?_ rfl rfl
      unfold Contains at hin ⊢
      omega
  dsimp only [mprotectOne]
  split
  · next hgt =>
    refine (hmid.fill_slice hfit (h.good p hp) hb.le hgt.le (le_rfl) fun x h1 h2 => ?_).congr fun x => ?_
    · rw [if_neg fun hx => by omega, if_pos ⟨h1, h2⟩]
    split
    · next hx => rw [if_neg fun h => by omega, h.of_mem hp ⟨by omega, hx.2⟩]
    · rfl
  · refine hmid.congr fun x => ?_
    rw [if_neg fun hx : b ≤ x ∧ _ => by omega]

/-- An iteration whose piece does not merge upwards leaves the regions above in place. -/
theorem mem_mprotectOne_iff (hs : s.WellFormed) (hp : p ∈ s) (hab : a < b) (ha : a < p.endAddr)
    (hb : p.endAddr < b)
    (hno : ∀ n ∈ s, n.start = p.endAddr → (reprotected a b prot p).canMergeWith n = false)
    (hq : p.endAddr ≤ q.start) : q ∈ mprotectOne a b prot s p ↔ q ∈ s := by
  have hlt := hs.start_lt_endAddr hp
  obtain ⟨hrfit, hend⟩ := reprotected_range prot ha hlt (by omega) hab
  rw [min_eq_right hb.le] at hend
  have hreads := keepLower_reads (V := mappedView) ⟨hs, fun _ _ => trivial, fun _ => rfl⟩ hp ha
  have hc : Placeable (keepLower a s p) (reprotected a b prot p) := by
    refine ⟨hreads.wellFormed, ?_, hrfit, ?_⟩
    · change 0 < min b p.endAddr - max a p.start
      omega
    · rw [hend, reprotected_start]
      exact hreads.free fun _ _ h2 => if_pos ⟨⟨by omega, h2⟩, by omega⟩
  dsimp only [mprotectOne]
  rw [if_neg (by omega), mem_insertMerged_of_not_above hc (min_le_right ..) ?_
    (show max a p.start < q.start by omega)]
  · exact mem_keepLower_iff hs hp ha hq
  intro n hn
  by_cases hadj : n.start = p.endAddr
  · exact hno n ((mem_keepLower_iff hs hp ha (by omega)).mp hn) hadj
  · rw [eq_false_iff]
    intro hcan
    exact hadj (endAddr_eq_of_canMergeWith hcan ▸ hend)

/-- The re-protecting loop. The pieces of the regions already visited lie below the ones to come and
do not merge with them, so each region is still in the set when its turn comes. -/
theorem foldl_mprotectOne_reads (hab : a < b) (hgood : ∀ r, V.Good r → V.Good (r.setProt prot))
    (hupd : ∀ r x, V.read (r.setProt prot) x = upd (V.read r x))
    (hl : l.Pairwise (fun r q => r.endAddr ≤ q.start))
    (h : Reads V s f) (hmem : ∀ p ∈ l, p ∈ s ∧ p.start < b ∧ a < p.endAddr)
    (hno : ∀ p ∈ l, ∀ n ∈ s, n.start = p.endAddr → n.start < b →
      (reprotected a b prot p).canMergeWith n = false) :
    Reads V (l.foldl (mprotectOne a b prot) s)
      (fun x => if (∃ p ∈ l, p.Contains x) ∧ a ≤ x ∧ x < b then (f x).map upd else f x) := by
  induction l generalizing s f with
  | nil => exact h.congr fun x => by simp
  | cons p l ih =>
    obtain ⟨hpl, hl'⟩ := pairwise_cons.mp hl
    obtain ⟨hp, hpb, hpa⟩ := hmem p (.head _)
    -- what lies above `p` is as before, because a region to come begins below `b`
    have hkeep q (hq : q ∈ l) (n : VmRegion) (hn : p.endAddr ≤ n.start) :
      (n ∈ mprotectOne a b prot s p ↔ n ∈ s) := by
      have hle := hpl q hq
      have hqb := (hmem q (.tail _ hq)).2.1
      exact mem_mprotectOne_iff h.wellFormed hp hab hpa (by omega)
        (fun n hn hadj => hno p (.head _) n hn hadj (by omega)) hn
    have hrest q (hq : q ∈ l) : q ∈ mprotectOne a b prot s p ∧ q.start < b ∧ a < q.endAddr := by
      obtain ⟨hqs, hqb, hqa⟩ := hmem q (.tail _ hq)
      exact ⟨(hkeep q hq q (hpl q hq)).mpr hqs, hqb, hqa⟩
    have hno' q (hq : q ∈ l) n (hn : n ∈ mprotectOne a b prot s p) (hadj : n.start = q.endAddr) (hnb :
        n.start < b) : (reprotected a b prot q).canMergeWith n = false := by
      have hqs := (hmem q (.tail _ hq)).1
      have := h.wellFormed.start_lt_endAddr hqs
      have hle := hpl q hq
      exact hno q (.tail _ hq) n ((hkeep q hq n (by omega)).mp hn) hadj hnb
    refine (ih hl' (mprotectOne_reads h hp hab hpa hpb hgood hupd) hrest hno').congr fun x => ?_
    -- no address is re-protected twice: the regions of the list are apart
    by_cases hin : a ≤ x ∧ x < b
    · by_cases hpx : p.Contains x
      · have hnot : ¬ ∃ q ∈ l, q.Contains x := by
          rintro ⟨q, hq, hqx⟩
          have h1 := hpl q hq
          have h2 := hqx.1
          have h3 := hpx.2
          omega
        simp [hnot]
      · simp [hpx]
    · simp [hin]

/-- **Re-protecting changes the range and nothing else.** When the request is granted and no
re-protected piece merges with a region of the range, the mapped addresses of the range get the new
protection, and all others read as before. -/
theorem applyMprotectRange_reads (upd : α → α) (hab : a < b) (h : Reads V s f)
    (hno : NoPendingMerge s a b prot)
    (hgood : ∀ r, V.Good r → V.Good (r.setProt prot))
    (hupd : ∀ r x, V.read (r.setProt prot) x = upd (V.read r x))
    {s' : VmRegionSet} (hs' : s.applyMprotectRange a b prot = some s') :
    Reads V s' (fun x => if a ≤ x ∧ x < b then (f x).map upd else f x) := by
  dsimp only [applyMprotectRange] at hs'
  split at hs'
  · cases hs'
  cases hs'
  refine (foldl_mprotectOne_reads hab hgood hupd (collectOverlapsWhere_sorted h.wellFormed) h
    (mem_of_collected h.wellFormed) ?_).congr fun x => ?_
  · intro p hp n hn _ hnb
    obtain ⟨hps, hpb, hpa⟩ := mem_of_collected h.wellFormed p hp
    have := h.wellFormed.start_lt_endAddr hn
    exact hno p hps (overlaps_iff.mpr ⟨hpb, hpa⟩) n hn (overlaps_iff.mpr ⟨hnb, by omega⟩)
  · by_cases hin : a ≤ x ∧ x < b
    · split
      · rfl
      · next hno =>
        rw [h.eq_none_of_not_collected hab hin fun hex => hno ⟨hex, hin⟩]
        rfl
    · rw [if_neg hin, if_neg fun h => hin h.2]

/-- A request that `can_mprotect_range` accepts is not refused. -/
theorem applyMprotectRange_isSome (hs : s.WellFormed)
    (hcan : s.canMprotectRange a b prot = true) : (s.applyMprotectRange a b prot).isSome := by
  dsimp only [applyMprotectRange]
  split
  · next hrefused =>
    obtain ⟨p, hp, hbad⟩ := any_eq_true.mp hrefused
    obtain ⟨hps, hpb, hpa⟩ := mem_of_collected hs p hp
    have hok := all_eq_true.mp hcan p (OrdMap.mem_values_iff.mpr ⟨p.start, hps⟩)
    rw [overlaps_iff.mpr ⟨hpb, hpa⟩] at hok
    change (_ && !p.mapPerm.w && !p.mayWriteUpgrade) = true at hbad
    simp only [and_eq_true, not_eq_true'] at hbad
    simp [hbad.1.1, hbad.1.2, hbad.2] at hok
  · rfl

end Mprotect

/-- The attributes of every address of the set. -/
def attrsAt (s : VmRegionSet) (x : Nat) : Option ByteAttrs := (s.containingAddr x).map (fun r => r.attrsAt x)

/-- **`mprotect`, address by address.** In a well-formed set, a request the code accepts is carried
out: the mapped addresses of the range keep what they are promised, except for the new protection
and page permission, and every other address is as before. -/
theorem applyMprotectRange_pointwise {s : VmRegionSet} {a b prot : Nat} (hs : s.WellFormed)
    (hfile : ∀ r ∈ s, r.FileFits) (hcan : s.canMprotectRange a b prot = true)
    (hno : NoPendingMerge s a b prot) :
    ∃ s', s.applyMprotectRange a b prot = some s' ∧ ∀ x, (s'.attrsAt x).map promised = if a ≤ x ∧ x < b then
          ((s.attrsAt x).map (withProt prot)).map promised
        else (s.attrsAt x).map promised := by
  obtain ⟨s', hs'⟩ := isSome_iff_exists.mp (applyMprotectRange_isSome hs hcan)
  refine ⟨s', hs', ?_⟩
  have hview (t : VmRegionSet) (x : Nat) : (t.attrsAt x).map promised = t.viewAt promisedView x := by
    simp only [attrsAt, Option.map_map]
    rfl
  by_cases hab : a < b
  · have hreads : Reads promisedView s (s.viewAt promisedView) := ⟨hs, hfile, fun _ => rfl⟩
    have hres := applyMprotectRange_reads (withProt prot) hab hreads hno (fun r hr => hr) (fun r x => rfl) hs'
    intro x
    rw [hview, hview, hres.view x]
    split
    · rw [← hview, Option.map_map, Option.map_map]
      rfl
    · rfl
  · -- an empty range overlaps nothing, and the set is returned as it is
    have hsame : s' = s := by
      have hnil : s.collectOverlapsWhere a b (fun _ => true) = [] := by
        rw [collectOverlapsWhere, if_pos (by omega)]
      rw [applyMprotectRange, hnil] at hs'
      exact (some.inj hs').symm
    intro x
    rw [hsame, if_neg fun h => hab (by omega)]

/-- Two writable pages, of which the first is made inaccessible. -/
theorem applyMprotectRange_pointwise_two_pages :
    ∃ s', (new.insertMerged (.anonymous 0x1000 0x2000 3)).applyMprotectRange 0x1000 0x2000 0 = some s' ∧ ∀ x,
      (s'.attrsAt x).map promised = if 0x1000 ≤ x ∧ x < 0x2000 then
          (((new.insertMerged (.anonymous 0x1000 0x2000 3)).attrsAt x).map
            (withProt 0)).map promised
        else ((new.insertMerged (.anonymous 0x1000 0x2000 3)).attrsAt x).map promised :=
  applyMprotectRange_pointwise (by decide) (by decide) (by decide) (by decide)

/-- Re-protecting the second of two anonymous pages to what the first one has merges the two and
moves the file offset of the second. With a shared anonymous mapping the second page then lies in
the SIGBUS tail. And where the first of three anonymous pages gets what the other two have, the
third page is no longer found. -/
theorem mprotect_changes_other_attrs :
    (∃ s s' : VmRegionSet, s.WellFormed ∧ s.canMprotectRange 0x2000 0x3000 1 = true ∧
      s.applyMprotectRange 0x2000 0x3000 1 = some s' ∧
      (s.attrsAt 0x2000).map (·.fileOffset) = some 0 ∧
      (s'.attrsAt 0x2000).map (·.fileOffset) = some 0x1000) ∧
    (∃ s s' : VmRegionSet, s.WellFormed ∧ s.canMprotectRange 0x2000 0x3000 1 = true ∧
      s.applyMprotectRange 0x2000 0x3000 1 = some s' ∧
      (s.attrsAt 0x2000).map (·.sigbus) = some false ∧
      (s'.attrsAt 0x2000).map (·.sigbus) = some true) ∧
    (∃ s s' : VmRegionSet, s.WellFormed ∧ s.canMprotectRange 0x1000 0x3000 3 = true ∧
      s.applyMprotectRange 0x1000 0x3000 3 = some s' ∧
      (s.attrsAt 0x3000).isSome ∧ (s'.attrsAt 0x3000) = none) := by
  refine ⟨⟨(new.insertMerged (.anonymous 0x1000 0x1000 1)).insertMerged
      (.anonymous 0x2000 0x1000 3), _, by decide, by decide, rfl, by decide, by decide⟩,
    ⟨(new.insertMerged { anonymous 0x1000 0x1000 1 with shared := true, anonSharedId := 7 }).insertMerged
        { anonymous 0x2000 0x1000 3 with
          shared := true, anonSharedId := 7, fileOffset := 0x1000 },
      _, by decide, by decide, rfl, by decide, by decide⟩,
    ⟨((new.insertUnmerged (.anonymous 0x1000 0x1000 1)).insertUnmerged
        (.anonymous 0x2000 0x1000 3)).insertUnmerged (.anonymous 0x3000 0x1000 3),
      _, by decide, by decide, rfl, by decide, by decide⟩⟩

end VmRegionSet

end HitOS
