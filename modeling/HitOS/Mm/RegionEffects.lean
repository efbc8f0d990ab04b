import HitOS.Mm.MemorySet

/-!
# The memory set, region by region

What the operations of the memory set do to the regions, said for each address through a
`RegionView`. The areas and the page table play no part here, except that they decide whether an
operation succeeds.

An operation that fails puts the regions back from snapshots. `rollBack_reads` says that this gives
every address back what it had, if nothing was changed outside the ranges of the snapshots. The
merges on the way do not matter: a `RegionView` does not see them.

* `tryInsertUserVmaWith_reads`, `tryReplaceUserVmaWith_reads` — inserting and replacing;
* `moveUserVmaRangeReplacing_reads`, `tryGrowUserVmaRangeWithLayout_reads` — moving and growing a
  range inside one region, through the view of the shared memory segment that a region belongs to.
-/

namespace HitOS

open List VmRegion Intervals

variable {α : Type} {V : RegionView α} {g : Nat → Option α} {a b old len new newLen : Nat}

namespace VmRegionSet

variable {s t : VmRegionSet} {f : Nat → Option α} {p r : VmRegion} {x c d : Nat}

/-! ### Queries -/

/-- **The overlap test is exact.** -/
theorem overlapsRange_eq_false_iff (hs : s.WellFormed) (hab : a < b) :
    s.overlapsRange a b = false ↔ ∀ q ∈ s, q.endAddr ≤ a ∨ b ≤ q.start := by
  rw [Bool.eq_false_iff, Ne, overlapsRange, anyOverlapWhere_iff hs]
  constructor
  · intro hno q hq
    by_contra hin
    exact hno ⟨q, hq, rfl, (hs.meets_iff hq).mpr (by omega)⟩
  · rintro hall ⟨q, hq, -, hmeets⟩
    have h1 := (hs.meets_iff hq).mp hmeets
    have h2 := hall q hq
    omega

/-- A range that no region meets has nothing to see. -/
theorem Reads.eq_none_of_apart (h : Reads V s f) (hall : ∀ q ∈ s, q.endAddr ≤ a ∨ b ≤ q.start) (hax : a ≤ x)
    (hxb : x < b) : f x = none := by
  rw [← h.view, viewAt_eq_none h.wellFormed]
  intro q hq hx
  have h1 := hx.1
  have h2 := hx.2
  have h3 := hall q hq
  omega

/-- The only region a range inside a region meets. -/
theorem collectOverlapsWhere_eq_singleton (hs : s.WellFormed) (hp : p ∈ s) (hab : a < b) (hpa : p.start ≤ a)
    (hpb : b ≤ p.endAddr) : s.collectOverlapsWhere a b (fun _ => true) = [p] := by
  have hall q (hq : q ∈ s.collectOverlapsWhere a b fun _ => true) : q = p := by
    obtain ⟨hqs, h1, h2⟩ := mem_of_collected hs q hq
    have hlt := hs.start_lt_endAddr hqs
    exact hs.eq_of_contains hqs hp (x := max a q.start) ⟨by omega, by omega⟩ ⟨by omega, by omega⟩
  have hmem : p ∈ s.collectOverlapsWhere a b fun _ => true :=
    (mem_collectOverlapsWhere_iff hs).mpr ⟨hp, hab, by omega, by omega, rfl⟩
  have hsorted : (s.collectOverlapsWhere a b fun _ => true).Pairwise fun r q => r.endAddr ≤ q.start :=
    collectOverlapsWhere_sorted hs
  generalize s.collectOverlapsWhere a b (fun _ => true) = l at hall hmem hsorted
  match l with
  | [] => cases hmem
  | [q] => rw [hall q (.head _)]
  | q :: q' :: l =>
    -- the second one would begin where `p` ends
    have hle := (pairwise_cons.mp hsorted).1 q' (.head _)
    rw [hall q (.head _), hall q' (by simp)] at hle
    omega

/-! ### Putting a snapshot back -/

/-- The loop over the regions of a snapshot: the part of each region inside `[a, b)` is put back. -/
theorem foldl_insertMerged_clipped (h : Reads V s f) (hab : a < b) {l : List VmRegion}
    (hl : l.Pairwise (fun r q => r.endAddr ≤ q.start)) (hmem : ∀ p ∈ l, p ∈ s ∧ p.start < b ∧ a < p.endAddr)
    (ht : Reads V t g) (hnone : ∀ x, (∃ p ∈ l, p.Contains x) → a ≤ x → x < b → g x = none) :
    Reads V ((l.filterMap (clipped a b)).foldl insertMerged t)
      (fun x => if (∃ p ∈ l, p.Contains x) ∧ a ≤ x ∧ x < b then f x else g x) := by
  induction l generalizing t g with
  | nil => exact ht.congr fun x => by simp
  | cons p l ih =>
    obtain ⟨hpl, hl'⟩ := pairwise_cons.mp hl
    obtain ⟨hp, hpb, hpa⟩ := hmem p (.head _)
    have hlt := h.wellFormed.start_lt_endAddr hp
    have hclip : clipped a b p = some (p.slice (max a p.start) (min b p.endAddr - max a p.start)) :=
      if_pos (by omega)
    rw [filterMap_cons_some hclip]
    have hput := ht.fill_slice (h.wellFormed.fits p hp) (h.good p hp) (c := max a p.start)
      (d := min b p.endAddr) (by omega) (by omega) (by omega)
      fun x _ _ => hnone x ⟨p, (.head _), by omega, by omega⟩ (by omega) (by omega)
    refine (ih hl' (fun q hq => hmem q (.tail _ hq)) hput ?_).congr fun x => ?_
    · rintro x ⟨q, hq, hqx⟩ h1 h2
      have hle := hpl q hq
      have hqs := hqx.1
      rw [if_neg (by omega)]
      exact hnone x ⟨q, .tail _ hq, hqx⟩ h1 h2
    by_cases hin : a ≤ x ∧ x < b
    · by_cases hpx : p.Contains x
      · have h1 := hpx.1
        have h2 := hpx.2
        have hfx := h.of_mem hp hpx
        simp only [mem_cons, exists_eq_or_imp, hpx, hin, hfx]
        rw [if_pos (show max a p.start ≤ x ∧ x < min b p.endAddr by omega)]
        exact ite_self _
      · have hout : ¬ (max a p.start ≤ x ∧ x < min b p.endAddr) := fun _ => hpx ⟨by omega, by omega⟩
        simp only [mem_cons, exists_eq_or_imp, hpx, false_or, if_neg hout]
    · have hout : ¬ (max a p.start ≤ x ∧ x < min b p.endAddr) := by omega
      simp only [hin, and_false, if_neg hout]

/-- **Restoring a range** from what another set had there. -/
theorem snapshotRange_reads (h : Reads V s f) (ht : Reads V t g) (a b : Nat) :
    Reads V ((s.snapshotRange a b).foldl insertMerged (t.trimRange a b))
      (fun x => if a ≤ x ∧ x < b then f x else g x) := by
  by_cases hab : a < b
  · refine (foldl_insertMerged_clipped h hab (collectOverlapsWhere_sorted h.wellFormed)
      (mem_of_collected h.wellFormed) (trimRange_reads ht)
      fun x _ h1 h2 => if_pos ⟨h1, h2⟩).congr fun x => ?_
    by_cases hin : a ≤ x ∧ x < b
    · split
      · rfl
      · next hno => rw [h.eq_none_of_not_collected hab hin fun hex => hno ⟨hex, hin⟩]
    · simp only [hin, and_false, if_false]
  · -- nothing is taken
    unfold snapshotRange collectOverlapsWhere
    rw [if_pos (by omega)]
    exact (trimRange_reads ht).congr fun x => by rw [if_neg (by omega), if_neg (by omega)]

/-! ### One region spans a range -/

/-- Some region holds all of `[c, d)`. -/
def Spans (s : VmRegionSet) (c d : Nat) : Prop := ∃ m ∈ s, m.start ≤ c ∧ d ≤ m.endAddr

/-- An insertion may merge regions, but cuts none. -/
theorem Spans.insertMerged (h : s.Spans c d ∨ r.start ≤ c ∧ d ≤ r.endAddr)
    (hc : Placeable s r) : (s.insertMerged r).Spans c d := by
  obtain ⟨s', r', habs, heq⟩ := insertMerged_absorbs hc
  obtain ⟨h1, h2, h3⟩ := habs.span hc
  have hmem q : q ∈ s.insertMerged r ↔ q = r' ∨ q ∈ s' := by
    rw [heq]
    exact mem_insertUnmerged_iff (habs.placeable hc)
  rcases h with ⟨m, hm, hlo, hhi⟩ | ⟨hlo, hhi⟩
  · rcases h3 m hm with hin | ⟨hlo', hhi'⟩
    · exact ⟨m, (hmem m).mpr (.inr hin), hlo, hhi⟩
    · exact ⟨r', (hmem r').mpr (.inl rfl), by omega, by omega⟩
  · exact ⟨r', (hmem r').mpr (.inl rfl), by omega, by omega⟩

/-- Putting back a piece of a region that has been taken out. -/
theorem Spans.put_back {y : Nat} (hs : s.WellFormed) (h : s.Spans c d ∨ x ≤ c ∧ d ≤ y) (hxy : x < y)
    (hyp : y ≤ p.endAddr) (hfree : s.Free x y) : (s.insertMerged (p.slice x (y - x))).Spans c d := by
  have hend := slice_endAddr hxy.le hyp
  refine insertMerged ?_ ⟨hs, ?_, slice_fits hxy.le hyp, ?_⟩
  · rwa [hend]
  · rw [slice_len]
    omega
  · rwa [hend]

/-- One round of trimming. -/
theorem Spans.trimOne (hs : s.WellFormed) (hab : a < b) (hp : p ∈ s) (hpb : p.start < b) (hpa : a < p.endAddr)
    (hcd : c < d) (hout : d ≤ a ∨ b ≤ c) (h : s.Spans c d) : (trimOne a b s p).Spans c d := by
  have hreads := reads_mapped hs
  have hlow := keepLower_reads hreads hp hpa
  -- the range lies in a region that stays, or in one of the two pieces of this one
  have hrest : (s.remove p.start).Spans c d ∨ p.start ≤ c ∧ d ≤ a ∨ b ≤ c ∧ d ≤ p.endAddr := by
    obtain ⟨m, hm, hlo, hhi⟩ := h
    by_cases hmp : m.start = p.start
    · rw [WellFormed.eq_of_start_eq hm hp hmp] at hlo hhi
      rcases hout with hda | hbc
      · exact .inr (.inl ⟨hlo, hda⟩)
      · exact .inr (.inr ⟨hbc, hhi⟩)
    · exact .inl ⟨m, mem_remove_iff.mpr ⟨hm, hmp⟩, hlo, hhi⟩
  have hkept : (keepLower a s p).Spans c d ∨ b ≤ c ∧ d ≤ p.endAddr := by
    rw [or_comm (a := p.start ≤ c ∧ d ≤ a), ← or_assoc, or_right_comm] at hrest
    refine hrest.imp_left fun hspan => ?_
    unfold keepLower
    split
    · next hgt =>
      refine put_back (remove_wellFormed hs) hspan hgt hpa.le ?_
      exact (free_remove hs hp).mono (le_rfl) hpa.le
    · exact hspan.resolve_right (by omega)
  unfold VmRegionSet.trimOne
  dsimp only
  split
  · next hgt =>
    refine put_back hlow.wellFormed hkept hgt (le_rfl) ?_
    exact hlow.free fun _ _ h2 => if_pos ⟨⟨by omega, h2⟩, by omega⟩
  · exact hkept.resolve_right (by omega)

/-- **A range outside the trimmed one** stays in one region. -/
theorem Spans.trimRange (hs : s.WellFormed) (hab : a < b) (hcd : c < d)
    (hout : d ≤ a ∨ b ≤ c) (h : s.Spans c d) : (s.trimRange a b).Spans c d := by
  unfold VmRegionSet.trimRange
  have hsorted : (s.collectOverlapsWhere a b fun _ => true).Pairwise fun r q => r.endAddr ≤ q.start :=
    collectOverlapsWhere_sorted hs
  have hmem := @mem_of_collected s a b (fun _ => true) hs
  generalize s.collectOverlapsWhere a b (fun _ => true) = l at hsorted hmem
  induction l generalizing s with
  | nil => exact h
  | cons p l ih =>
    obtain ⟨hpl, hl⟩ := pairwise_cons.mp hsorted
    obtain ⟨hp, hpb, hpa⟩ := hmem p (.head _)
    refine ih (trimOne_reads (reads_mapped hs) hp hab hpa hpb).wellFormed
      (h.trimOne hs hab hp hpb hpa hcd hout) hl fun q hq => ?_
    obtain ⟨hqs, h1, h2⟩ := hmem q (.tail _ hq)
    have hle := hpl q hq
    exact ⟨(mem_trimOne_iff hs hp hpa (by omega) hle).mpr hqs, h1, h2⟩

/-! ### The segment of an address -/

/-- What a region says about shared memory: the identifier of the segment, 0 if it is none, and
whether the mapping is shared. -/
def segmentView : RegionView (Nat × Bool) where
  read r _ := (r.sysvShmid, r.shared)
  Good _ := True
  good_merged _ _ _ _ _ := trivial
  read_merged _ _ _ _ h _ _ := by
    have hpolicy := policy_eq_of_canMergeWith h
    have hid := congrArg VmPolicy.sysvShmid hpolicy
    have hshared := congrArg VmPolicy.shared hpolicy
    split
    · rfl
    · exact Prod.ext hid hshared
  good_slice _ _ _ _ _ := trivial
  read_slice _ _ _ _ := rfl

section Segments

variable {f : Nat → Option (Nat × Bool)}

/-- A range in one region belongs to one segment. -/
theorem Spans.segment (h : Reads segmentView s f) (hspan : s.Spans old (old + len)) (h1 : old ≤ x)
    (h2 : x < old + len) : f x = f old := by
  obtain ⟨m, hm, hlo, hhi⟩ := hspan
  rw [h.of_mem hm ⟨by omega, by omega⟩, h.of_mem hm ⟨by omega, by omega⟩]
  rfl

/-- What is seen when the range `[old, old + len)` has become `[new, new + newLen)`. -/
def relocated (f : Nat → Option (Nat × Bool)) (old len new newLen x : Nat) : Option (Nat × Bool) :=
  if new ≤ x ∧ x < new + newLen then f old else if old ≤ x ∧ x < old + len then none else f x

/-- **Moving a range inside one region** to a free range. -/
theorem moveRangeMetadataRaw_reads (h : Reads segmentView s f) (hspan : s.Spans old (old + len))
    (hlen : 0 < len) (hnew : new + len ≤ usizeMax) (hfree : ∀ x, new ≤ x → x < new + len → f x = none) :
    Reads segmentView (s.moveRangeMetadataRaw old len new) (relocated f old len new len) := by
  obtain ⟨p, hp, hpo, hop⟩ := hspan
  have hold : f old = some (p.sysvShmid, p.shared) := h.of_mem hp ⟨hpo, by omega⟩
  have hfit := h.wellFormed.fits p hp
  have hmax : old + len ≤ usizeMax := by
    have := hfit.endAddr_eq
    unfold Fits at hfit
    omega
  -- the two ranges have no address in common
  have hapart : ∀ x, ¬ ((new ≤ x ∧ x < new + len) ∧ p.Contains x) := by
    rintro x ⟨⟨h1, h2⟩, hx⟩
    have := h.of_mem hp hx
    rw [hfree x h1 h2] at this
    cases this
  have hcont x : (movedPart old (old + len) new p).Contains x ↔ new ≤ x ∧ x < new + len := by
    have hplt := h.wellFormed.start_lt_endAddr hp
    unfold Contains
    rw [movedPart_start (by omega) (by omega), movedPart_endAddr (by omega) (by omega) (by omega)
      hplt (by omega)]
    omega
  unfold moveRangeMetadataRaw
  rw [satAdd_of_le hmax]
  dsimp only
  rw [collectOverlapsWhere_eq_singleton h.wellFormed hp (by omega) hpo hop, foldl_cons, moveOne_eq,
    max_eq_left hpo, min_eq_left hop]
  have hmid := (keepLower_reads h hp (a := old) (by omega)).fill (r := movedPart old (old + len) new p)
    (movedPart_fits (by omega) (by omega)) trivial fun x hx => by
      have hx' := (hcont x).mp hx
      rw [if_neg fun hpx => hapart x ⟨hx', hpx.1⟩]
      exact hfree x hx'.1 hx'.2
  have hmid' : Reads segmentView ((keepLower old s p).insertMerged (movedPart old (old + len) new p))
      (fun x => if new ≤ x ∧ x < new + len then f old
        else if p.Contains x ∧ old ≤ x then none else f x) :=
    hmid.congr fun x => by simp only [hcont, hold]; rfl
  have hiff x (hup : ¬ (old + len ≤ x ∧ x < p.endAddr)) : p.Contains x ∧ old ≤ x ↔ old ≤ x ∧ x <
    old + len := by
    unfold Contains
    omega
  unfold relocated
  split
  · next hgt =>
    refine (hmid'.fill_slice hfit trivial (by omega) hgt.le (le_rfl) fun x h1 h2 => ?_).congr fun x => ?_
    · have hpx : p.Contains x := ⟨by omega, h2⟩
      rw [if_neg fun hx => hapart x ⟨hx, hpx⟩, if_pos ⟨hpx, by omega⟩]
    by_cases hup : old + len ≤ x ∧ x < p.endAddr
    · have hpx : p.Contains x := ⟨by omega, hup.2⟩
      rw [if_pos hup, if_neg fun hx => hapart x ⟨hx, hpx⟩, if_neg (by omega), h.of_mem hp hpx]
    · rw [if_neg hup]
      simp only [hiff x hup]
  · refine hmid'.congr fun x => ?_
    simp only [hiff x (by omega)]

end Segments

end VmRegionSet

/-! ### Ranges of addresses -/

variable {ranges : List (Nat × Nat)}

theorem mem_cover_normalizeRanges {x : Nat} : x ∈ cover (normalizeRanges ranges) ↔ x ∈ cover ranges := by
  unfold normalizeRanges
  rw [(sortAndMerge_spec fun r hr => by simpa using (mem_filter.mp hr).2).1, mem_cover, mem_cover]
  constructor
  · rintro ⟨r, hr, hx⟩
    exact ⟨r, (mem_filter.mp hr).1, hx⟩
  · rintro ⟨r, hr, h1, h2⟩
    exact ⟨r, mem_filter.mpr ⟨hr, by simpa using h1.trans_lt h2⟩, h1, h2⟩

namespace MemorySet

open VmRegionSet

variable {frames' : List Nat}

variable {s t u : MemorySet} {f : Nat → Option α} {region : VmRegion} {areas : List VmaInsertArea}
  {lockRange hasFile ok : Bool} {frames : List Nat} {maxMapCount : Nat} {postInsert : MemorySet → Bool}
  {perm : MapPermission}

/-! ### Unmapping -/

theorem unmapUserVmaRange_vmRegions (a b : Nat) :
    (s.unmapUserVmaRange a b).vmRegions = s.vmRegions.trimRange a b := by
  have hkeep : (s.unmapUserRange a b).vmRegions = s.vmRegions := by
    unfold unmapUserRange
    dsimp only
    split
    · rfl
    · split <;> rfl
  change (s.unmapUserRange a b).vmRegions.trimRange a b = _
  rw [hkeep]

section

variable (h : Reads V s.vmRegions f)

include h

/-- **Unmapping** takes the range away. -/
theorem unmapUserVmaRange_reads (a b : Nat) :
    Reads V (s.unmapUserVmaRange a b).vmRegions (fun x => if a ≤ x ∧ x < b then none else f x) := by
  rw [unmapUserVmaRange_vmRegions]
  exact trimRange_reads h

/-! ### Rolling back -/

/-- **One snapshot** is put back. -/
theorem restoreUserRange_reads (ht : Reads V t.vmRegions g)
    (hu : t.restoreUserRange (s.snapshotUserRange a b) = some u) :
    Reads V u.vmRegions (fun x => if a ≤ x ∧ x < b then f x else g x) := by
  have hreads := snapshotRange_reads h ht a b
  unfold restoreUserRange at hu
  dsimp only at hu
  split at hu
  · cases hu
  · cases hu
    rwa [unmapUserVmaRange_vmRegions]

/-- Snapshots of several ranges are put back, in any order. -/
theorem foldlM_restoreUserRange_reads (l : List (Nat × Nat)) (ht : Reads V t.vmRegions g)
    (hu : (l.map fun r => s.snapshotUserRange r.1 r.2).foldlM restoreUserRange t = some u) :
    Reads V u.vmRegions (fun x => if x ∈ cover l then f x else g x) := by
  induction l generalizing t g with
  | nil =>
    cases hu
    exact ht.congr fun x => by simp [cover]
  | cons r l ih =>
    obtain ⟨_, ht', hu'⟩ := Option.bind_eq_some_iff.mp hu
    have hone := restoreUserRange_reads h ht ht'
    refine (ih hone hu').congr fun x => ?_
    by_cases hx : r.1 ≤ x ∧ x < r.2
    · rw [if_pos hx, ite_self, if_pos]
      exact mem_cover.mpr ⟨r, (.head _), hx⟩
    have hiff : x ∈ cover (r :: l) ↔ x ∈ cover l := by
      rw [cover, Finset.mem_union, Finset.mem_Ico]
      exact or_iff_right hx
    rw [if_neg hx]
    simp only [hiff]

/-- **Rolling back** undoes every change inside the ranges. -/
theorem rollBack_reads (ht : Reads V t.vmRegions g)
    (hout : ∀ x, (∀ r ∈ ranges, ¬ (r.1 ≤ x ∧ x < r.2)) → g x = f x)
    (hu : t.rollBack (s.captureRanges ranges) = some (u, ok)) : ok = false ∧ Reads V u.vmRegions f := by
  obtain ⟨_, hu', heq⟩ := Option.map_eq_some_iff.mp hu
  cases heq
  unfold restoreAll captureRanges at hu'
  rw [← map_reverse] at hu'
  refine ⟨rfl, (foldlM_restoreUserRange_reads h _ ht hu').congr fun x => ?_⟩
  have hiff : x ∈ cover (normalizeRanges ranges).reverse ↔ x ∈ cover ranges := by
    refine trans ?_ mem_cover_normalizeRanges
    rw [mem_cover, mem_cover]
    simp only [mem_reverse]
  simp only [hiff]
  split
  · rfl
  · next hx => exact hout x fun r hr hin => hx (mem_cover.mpr ⟨r, hr, hin⟩)

end

/-! ### Inserting and replacing -/

theorem tryPushRaw_vmRegions {area : MapArea}
    (h : s.tryPushRaw area frames = some (t, frames', ok)) : t.vmRegions = s.vmRegions := by
  unfold tryPushRaw at h
  split at h
  · cases h
    rfl
  split at h <;> cases h <;> rfl

theorem tryInsertLazyAreaRaw_vmRegions (h : s.tryInsertLazyAreaRaw a b perm frames = some (t, frames', ok)) :
    t.vmRegions = s.vmRegions := by
  unfold tryInsertLazyAreaRaw at h
  dsimp only at h
  iterate 4
    split at h
    · cases h
      rfl
  exact tryPushRaw_vmRegions h

theorem tryInsertSharedFramesAreaRaw_vmRegions {shared : List Nat}
    (h : s.tryInsertSharedFramesAreaRaw a b perm shared = some (t, ok)) : t.vmRegions = s.vmRegions := by
  unfold tryInsertSharedFramesAreaRaw at h
  dsimp only at h
  iterate 3
    split at h
    · cases h
      rfl
  split at h <;> cases h
  rfl

/-- Areas are inserted without a word to the regions. -/
theorem tryInsertVmaAreaRawInRegion_vmRegions {area : VmaInsertArea}
    (h : s.tryInsertVmaAreaRawInRegion area region a b frames = some (t, frames', ok)) :
    t.vmRegions = s.vmRegions := by
  unfold tryInsertVmaAreaRawInRegion at h
  split at h
  · cases h
    rfl
  next _ _ =>
  -- the bounds of the area are tested twice
  cases area
  all_goals
    dsimp only at h
    iterate 2
      split at h
      · cases h
        rfl
  · exact tryInsertLazyAreaRaw_vmRegions h
  · exact tryPushRaw_vmRegions h
  · obtain ⟨r, hr, heq⟩ := Option.map_eq_some_iff.mp h
    obtain ⟨rfl, -⟩ := Prod.mk.inj heq
    exact tryInsertSharedFramesAreaRaw_vmRegions hr

theorem insertAreas_vmRegions (h : insertAreas region a b s frames areas = some (t, frames', ok)) :
    t.vmRegions = s.vmRegions := by
  induction areas generalizing s frames with
  | nil =>
    cases h
    rfl
  | cons _ _ ih =>
    unfold insertAreas at h
    split at h
    · cases h
    · next hone =>
      cases h
      exact tryInsertVmaAreaRawInRegion_vmRegions hone
    · next hone => exact (ih h).trans (tryInsertVmaAreaRawInRegion_vmRegions hone)

section Segments

variable {f : Nat → Option (Nat × Bool)}

/-- What is seen when a region has taken its range. -/
def taken (region : VmRegion) (f : Nat → Option (Nat × Bool)) (x : Nat) : Option (Nat × Bool) :=
  if region.Contains x then some (region.sysvShmid, region.shared) else f x

section

variable (h : Reads segmentView s.vmRegions f)

include h

variable (hfit : region.Fits)

include hfit

/-- Recording a region inserts it, under the backing entry it gets, or changes no region. -/
theorem recordRegion_reads
    (hfree : ∀ x, region.Contains x → f x = none) (hrun : s.recordRegion region lockRange hasFile = (t, ok)) :
    Reads segmentView t.vmRegions (bif ok then taken region f else f) := by
  unfold recordRegion at hrun
  dsimp only at hrun
  generalize hbacked : (if region.needsBacking = true then s.allocateMmapBacking region hasFile
    else (s, region.backingId)) = backed at hrun
  rw [← (backed_keeps hbacked).1] at h
  split at hrun
  · cases hrun
    exact h
  · cases hrun
    have hfill := h.fill (r := { region with backingId := backed.2 }) hfit trivial hfree
    split <;> exact hfill

/-- Inserting the areas and recording the region, in a free range. -/
theorem tryInsertUserVmaRaw_reads (hfree : ∀ x, region.Contains x → f x = none)
    (hrun : s.tryInsertUserVmaRaw region areas lockRange hasFile frames = some (t, ok)) :
    Reads segmentView t.vmRegions (bif ok then taken region f else f) := by
  unfold tryInsertUserVmaRaw at hrun
  split at hrun
  · cases hrun
  · next hareas =>
    cases hrun
    rwa [insertAreas_vmRegions hareas]
  · next hareas =>
    rw [← insertAreas_vmRegions hareas] at h
    exact recordRegion_reads h hfit hfree (Option.some.inj hrun)

/-- **Inserting a region**: its range was free, and is taken by the region. -/
theorem tryInsertUserVmaWith_reads
    (hrun : s.tryInsertUserVmaWith region areas lockRange hasFile frames maxMapCount
      postInsert = some (t, ok)) :
    (ok = true → region.start < region.endAddr ∧ ∀ x, region.Contains x → f x = none) ∧
      Reads segmentView t.vmRegions (bif ok then taken region f else f) := by
  unfold tryInsertUserVmaWith at hrun
  split at hrun
  · cases hrun
    exact ⟨nofun, h⟩
  next hok =>
  unfold refusesInsert at hok
  simp only [Bool.or_eq_true, not_or, decide_eq_true_eq, Bool.not_eq_true] at hok
  obtain ⟨⟨⟨⟨hlt, hno⟩, -⟩, -⟩, -⟩ := hok
  have hapart := (overlapsRange_eq_false_iff h.wellFormed (by omega)).mp hno
  have hfree x (hx : region.Contains x) : f x = none := h.eq_none_of_apart hapart hx.1 hx.2
  -- every failure is rolled back, and nothing but the range had changed
  split at hrun
  · cases hrun
  · next hraw =>
    obtain ⟨rfl, hback⟩ := rollBack_reads h (tryInsertUserVmaRaw_reads h hfit hfree hraw) (fun _ _ => rfl) hrun
    exact ⟨nofun, hback⟩
  next hraw =>
  have hs₁ : Reads segmentView _ (taken region f) := tryInsertUserVmaRaw_reads h hfit hfree hraw
  split at hrun
  · cases hrun
    exact ⟨fun _ => ⟨by omega, hfree⟩, hs₁⟩
  · obtain ⟨rfl, hback⟩ := rollBack_reads h hs₁ (fun x hx => by
      exact if_neg (hx _ (mem_singleton_self _))) hrun
    exact ⟨nofun, hback⟩

/-- **Replacing** what is in the range of a region. -/
theorem tryReplaceUserVmaWith_reads
    (hrun : s.tryReplaceUserVmaWith region areas lockRange hasFile frames maxMapCount
      postInsert = some (t, ok)) :
    (ok = true → region.start < region.endAddr) ∧
      Reads segmentView t.vmRegions (bif ok then taken region f else f) := by
  have hcut := unmapUserVmaRange_reads h region.start region.endAddr
  -- a failure is restored from the snapshot
  have hback {u : MemorySet} {g : Nat → Option (Nat × Bool)} (hu : Reads segmentView u.vmRegions g)
      (hg : ∀ x, ¬ region.Contains x → g x = f x)
      (hres : (u.restoreUserRange (s.snapshotUserRange region.start region.endAddr)).map
        (fun t => (t, false)) =
        some (t, ok)) : ok = false ∧ Reads segmentView t.vmRegions f := by
    obtain ⟨_, hu', heq⟩ := Option.map_eq_some_iff.mp hres
    cases heq
    refine ⟨rfl, (restoreUserRange_reads h hu hu').congr fun x => ?_⟩
    split
    · rfl
    · next hx => exact hg x hx
  unfold tryReplaceUserVmaWith at hrun
  split at hrun
  · cases hrun
  · next hins =>
    obtain ⟨rfl, hs⟩ := hback (tryInsertUserVmaWith_reads hcut hfit hins).2 (fun _ hx => if_neg hx) hrun
    exact ⟨nofun, hs⟩
  next hins =>
  obtain ⟨hlt, hs₁⟩ := tryInsertUserVmaWith_reads hcut hfit hins
  have hs₂ : Reads segmentView _ (taken region f) := hs₁.congr fun x => by
    simp only [cond_true, taken]
    split
    · rfl
    · next hx => exact if_neg hx
  split at hrun
  · cases hrun
    exact ⟨fun _ => (hlt rfl).1, hs₂⟩
  · obtain ⟨rfl, hs⟩ := hback hs₂ (fun x hx => if_neg hx) hrun
    exact ⟨nofun, hs⟩

end

/-! ### Moving -/

theorem moveUserRangeRaw_vmRegions {stop : Nat}
    (h : s.moveUserRangeRaw old stop new = some (t, ok)) : t.vmRegions = s.vmRegions := by
  unfold moveUserRangeRaw at h
  dsimp only at h
  iterate 4
    split at h
    · cases h
      rfl
  split at h <;> cases h
  rfl

/-- A range inside one region is moved to a free range. The regions are moved after the pages, and
not at all if these cannot be. -/
theorem moveUserVmaRange_reads (h : Reads segmentView s.vmRegions f)
    (hspan : s.vmRegions.Spans old (old + len))
    (hlen : 0 < len) (hnew : new + len ≤ usizeMax) (hfree : ∀ x, new ≤ x → x < new + len → f x = none)
    (hrun : s.moveUserVmaRange old len new = some (t, ok)) :
    Reads segmentView t.vmRegions (bif ok then relocated f old len new len else f) := by
  unfold moveUserVmaRange at hrun
  split at hrun
  · cases hrun
    exact h
  split at hrun
  · cases hrun
  · next hraw =>
    cases hrun
    rwa [moveUserRangeRaw_vmRegions hraw]
  next hraw =>
  cases hrun
  rw [← moveUserRangeRaw_vmRegions hraw] at h hspan
  have hmoved := moveRangeMetadataRaw_reads h hspan hlen hnew hfree
  unfold moveLockedRanges
  dsimp only
  split <;> exact hmoved

/-- **Moving a range inside one region** over whatever is at its destination. -/
theorem moveUserVmaRangeReplacing_reads (h : Reads segmentView s.vmRegions f)
    (hspan : s.vmRegions.Spans old (old + len)) (hlen : 0 < len) (hapart : old + len ≤ new ∨ new + len ≤ old)
    (hrun : s.moveUserVmaRangeReplacing old len new = some (t, ok)) :
    Reads segmentView t.vmRegions (bif ok then relocated f old len new len else f) := by
  unfold moveUserVmaRangeReplacing at hrun
  split at hrun
  · cases hrun
    exact h
  next hmax =>
  simp only [Bool.or_eq_true, decide_eq_true_eq, not_or, not_lt] at hmax
  have hcut := unmapUserVmaRange_reads h new (new + len)
  have hspan' : (s.unmapUserVmaRange new (new + len)).vmRegions.Spans old (old + len) := by
    rw [unmapUserVmaRange_vmRegions]
    exact hspan.trimRange h.wellFormed (by omega) (by omega) hapart
  have hmoved {u : MemorySet} {done : Bool} (hmove : _ = some (u, done)) :=
    moveUserVmaRange_reads hcut hspan' hlen hmax.2 (fun _ h1 h2 => if_pos ⟨h1, h2⟩) hmove
  split at hrun
  · cases hrun
  · next hmove =>
    cases hrun
    refine (hmoved hmove).congr fun x => ?_
    simp only [cond_true, relocated]
    rw [if_neg (show ¬ (new ≤ old ∧ old < new + len) by omega)]
    split <;> rfl
  · next hmove =>
    obtain ⟨rfl, hs⟩ := rollBack_reads h (hmoved hmove) (fun x hx => by
      exact if_neg (hx _ (.tail _ (mem_singleton_self _)))) hrun
    exact hs

/-! ### Growing -/

variable {valid : Option Nat} {populate : MemorySet → Bool}

variable (h : Reads segmentView s.vmRegions f)

include h

/-- The range as it is when the new part is added. -/
theorem prepareGrow_reads (hspan : s.vmRegions.Spans old (old + len)) (hlen : 0 < len)
    (hnew : new + len ≤ usizeMax)
    (hplace : new = old ∨ ∀ x, new ≤ x → x < new + len → f x = none)
    (hrun : s.prepareGrow old len new = some (t, ok)) :
    Reads segmentView t.vmRegions (bif ok then relocated f old len new len else f) := by
  unfold prepareGrow at hrun
  split at hrun
  · next hne => exact moveUserVmaRange_reads h hspan hlen hnew (hplace.resolve_left hne) hrun
  next heq =>
  obtain rfl := not_not.mp heq
  split at hrun
  · cases hrun
    exact h
  next _ hiso =>
  cases hrun
  refine (isolateRangeRaw_reads h hiso).congr fun x => ?_
  change _ = relocated f new len new len x
  unfold relocated
  split_ifs with hx
  · exact Spans.segment h hspan hx.1 hx.2
  · rfl

/-- A region that is just the range grows into the free range above it. -/
theorem growRegion_reads (hregion : region ∈ s.vmRegions)
    (hstart : region.start = new) (hend : region.endAddr = new + len) (hle : len ≤ newLen)
    (hmax : new + newLen ≤ usizeMax) (hroom : ∀ x, new + len ≤ x → x < new + newLen → f x = none)
    (hrun : s.growRegion region (new + len) (new + newLen) newLen areas valid frames populate = some (t, ok)) :
    Reads segmentView t.vmRegions (bif ok then fun x =>
      if new ≤ x ∧ x < new + newLen then some (region.sysvShmid, region.shared) else f x else f) := by
  obtain ⟨hgrown, hgrownLen, hread⟩ : (grownRegion region newLen valid).start = region.start ∧
      (grownRegion region newLen valid).len = newLen ∧
      ∀ x, segmentView.read (grownRegion region newLen valid) x = (region.sysvShmid, region.shared) := by
    cases valid <;> exact ⟨rfl, rfl, fun _ => rfl⟩
  have hfit : (grownRegion region newLen valid).Fits := by
    unfold Fits
    omega
  have hcont x : (grownRegion region newLen valid).Contains x ↔ new ≤ x ∧ x < new + newLen := by
    unfold Contains
    rw [hfit.endAddr_eq, hgrown, hgrownLen, hstart]
  unfold growRegion at hrun
  split at hrun
  · cases hrun
  · next hareas =>
    cases hrun
    rwa [insertAreas_vmRegions hareas]
  next s₁ _ hareas =>
  rw [← insertAreas_vmRegions hareas] at h hregion
  split at hrun
  swap
  · cases hrun
    exact h
  have hget : s₁.vmRegions.regions.get? region.start = some region := hregion
  unfold setRegionLen updateByStart at hrun
  rw [hget] at hrun
  cases hrun
  refine ((h.remove hregion).fill hfit trivial fun x hx => ?_).congr fun x => ?_
  · obtain ⟨h1, h2⟩ := (hcont x).mp hx
    split
    · rfl
    next hno =>
    unfold Contains at hno
    exact hroom x (by omega) h2
  · simp only [hcont, hread, cond_true]
    by_cases hx : new ≤ x ∧ x < new + newLen
    · rw [if_pos hx, if_pos hx]
    · have hno : ¬ region.Contains x := by
        unfold Contains
        omega
      rw [if_neg hx, if_neg hx, if_neg hno]

/-- **Growing a range inside one region**, where it is or in a free range. -/
theorem tryGrowUserVmaRangeWithLayout_reads (hspan : s.vmRegions.Spans old (old + len)) (hlen : 0 < len)
    (hplace : new = old ∨ ∀ x, new ≤ x → x < new + len → f x = none)
    (hroom : ∀ x, new + len ≤ x → x < new + newLen → f x = none)
    (hrun : s.tryGrowUserVmaRangeWithLayout old len new newLen areas valid frames populate = some (t, ok)) :
    Reads segmentView t.vmRegions (bif ok then relocated f old len new newLen else f) := by
  unfold tryGrowUserVmaRangeWithLayout at hrun
  dsimp only at hrun
  iterate 2
    split at hrun
    · cases hrun
      exact h
  next hmax _ =>
  simp only [Bool.or_eq_true, decide_eq_true_eq, not_or, not_le, not_lt] at hmax
  have hprepared {u : MemorySet} {done : Bool} (hpg : _ = some (u, done)) :=
    prepareGrow_reads h hspan hlen (by omega) hplace hpg
  -- every failure is rolled back, and nothing but the two ranges had changed
  have hback {u : MemorySet} (hu : Reads segmentView u.vmRegions (relocated f old len new len))
      (hrun : u.rollBack (s.captureRanges [(old, old + len), (new, new + newLen)]) = some (t, ok)) :
      Reads segmentView t.vmRegions (bif ok then relocated f old len new newLen else f) := by
    obtain ⟨rfl, hs⟩ := rollBack_reads h hu (fun x hx => by
      have h1 := hx _ (.head _)
      have h2 := hx _ (.tail _ (mem_singleton_self _))
      unfold relocated
      rw [if_neg (by omega), if_neg h1]) hrun
    exact hs
  split at hrun
  · cases hrun
  · next hpg =>
    obtain ⟨rfl, hs⟩ := rollBack_reads h (hprepared hpg) (fun _ _ => rfl) hrun
    exact hs
  next hpg =>
  have hs₁ : Reads segmentView _ (relocated f old len new len) := hprepared hpg
  split at hrun
  · exact hback hs₁ hrun
  next region hreg =>
  split at hrun
  · exact hback hs₁ hrun
  next hexact =>
  simp only [Bool.or_eq_true, decide_eq_true_eq, not_or, not_not] at hexact
  obtain ⟨hstart, hend⟩ := hexact
  obtain ⟨hmem, hin⟩ := (containingAddr_eq_some_iff hs₁.wellFormed).mp hreg
  have hseg : f old = some (region.sysvShmid, region.shared) := by
    have := hs₁.of_mem hmem hin
    unfold relocated at this
    rwa [if_pos ⟨le_rfl, by omega⟩] at this
  have hgrown {u : MemorySet} {done : Bool}
      (hgrow : growRegion _ region _ _ newLen areas valid frames populate = some (u, done)) :=
    growRegion_reads hs₁ hmem hstart hend (le_of_lt hmax.1.1.1) hmax.2 (fun x h1 h2 => by
      unfold relocated
      rw [if_neg (by omega)]
      split
      · rfl
      · exact hroom x h1 h2) hgrow
  split at hrun
  · cases hrun
  · next hgrow => exact hback (hgrown hgrow) hrun
  next hgrow =>
  cases hrun
  refine (hgrown hgrow).congr fun x => ?_
  simp only [cond_true, relocated, hseg]
  by_cases hx : new ≤ x ∧ x < new + newLen
  · rw [if_pos hx, if_pos hx]
  · rw [if_neg hx, if_neg hx, if_neg (by omega)]

end Segments

end MemorySet

end HitOS
