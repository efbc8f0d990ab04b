import HitOS.Mm.RegionRange

/-!
# Moving, isolating and resizing regions

The remaining operations of the region set keep it well formed. `move_range_metadata_raw` is the
delicate one. A piece that has just been moved may be merged into a region the loop has yet to
visit, when the destination begins where the source ends; that region is then still found under its
key, only longer. `MoveInv` says what stays true all the same: every region to come has a region
under its start that spans it, and the part of the destination it will fill is free.
-/

namespace HitOS

open List VmRegion

namespace VmRegionSet

/-! ### Moving -/

/-- What holds between two rounds of the moving loop, for the source `[oldAddr, oldEnd)`, the
destination `[newStart, newStart + (oldEnd - oldAddr))` and the regions `l` still to be visited. -/
structure MoveInv (oldAddr oldEnd newStart : Nat) (s : VmRegionSet) (l : List VmRegion) : Prop where
  wellFormed : s.WellFormed
  /-- A region to come meets the source. -/
  meets : ∀ p ∈ l, p.start < oldEnd ∧ oldAddr < p.endAddr
  fits : ∀ p ∈ l, p.Fits ∧ p.start < p.endAddr
  /-- It lies outside the destination. -/
  apart : ∀ p ∈ l, p.endAddr ≤ newStart ∨ newStart + (oldEnd - oldAddr) ≤ p.start
  /-- Its start is a key, of a region that spans it. -/
  present : ∀ p ∈ l, ∃ e ∈ s, e.start = p.start ∧ p.endAddr ≤ e.endAddr
  /-- The destination is free from where it will be moved to. -/
  free : ∀ p ∈ l, s.Free (newStart + (max oldAddr p.start - oldAddr)) (newStart + (oldEnd - oldAddr))

variable {s : VmRegionSet} {newStart : Nat}

/-- A set as it is, through the view that only tells mapped from unmapped. -/
theorem reads_mapped (hs : s.WellFormed) :
    Reads mappedView s (s.viewAt mappedView) := ⟨hs, fun _ _ => trivial, fun _ => rfl⟩

theorem Free.viewAt_eq_none (hs : s.WellFormed) {a b x : Nat} (h : s.Free a b)
    (ha : a ≤ x) (hb : x < b) : s.viewAt mappedView x = none := by
  refine VmRegionSet.viewAt_eq_none hs fun r hr hx => ?_
  have h1 := hx.1
  have h2 := hx.2
  have h3 := h r hr
  omega

section MoveStep

variable {oldAddr oldEnd c : Nat} {p e : VmRegion} {l : List VmRegion}

/-- Taking out the region under the start of `p`, which spans `p`, and putting back the part of `p`
below `c`. -/
theorem keepLower_reads_span {f : Nat → Option Unit} (h : Reads mappedView s f) (he : e ∈ s)
    (hstart : e.start = p.start) (hend : p.endAddr ≤ e.endAddr) (hfit : p.Fits)
    (hc : p.start ≤ c) (hce : c ≤ p.endAddr) :
    Reads mappedView (keepLower c s p)
      (fun x => if p.start ≤ x ∧ x < c then some () else if e.Contains x then none else f x) := by
  have hrem := h.remove he
  rw [hstart] at hrem
  unfold keepLower
  split
  · exact hrem.fill_slice hfit trivial (le_rfl) hc hce fun _ _ _ => if_pos ⟨by omega, by omega⟩
  · refine hrem.congr fun x => ?_
    rw [if_neg (show ¬ (p.start ≤ x ∧ x < c) by omega)]

/-- The regions to come survive the first part of a round: the address at `c` is free, so the part
put back below it cannot reach them. -/
theorem keepLower_present (hs : s.WellFormed) (he : e ∈ s) (hstart : e.start = p.start)
    (hend : p.endAddr ≤ e.endAddr)
    (hfit : p.Fits) (hc : p.start ≤ c) (hce : c < p.endAddr) {d : VmRegion} (hd : d ∈ s)
    (hpd : p.endAddr ≤ d.start) :
    ∃ m ∈ keepLower c s p, m.start = d.start ∧ d.endAddr ≤ m.endAddr := by
  have hreads := keepLower_reads_span (reads_mapped hs) he hstart hend hfit hc hce.le
  have hdr : d ∈ s.remove p.start := mem_remove_iff.mpr ⟨hd, by omega⟩
  by_cases hgt : c > p.start
  · have hfree : (s.remove p.start).Free p.start e.endAddr := hstart ▸ free_remove hs he
    have hcend := slice_endAddr hgt.le hce.le
    have hplace : Placeable (s.remove p.start) (p.slice p.start (c - p.start)) := by
      refine ⟨remove_wellFormed hs, ?_, slice_fits hc hce.le, ?_⟩
      · rw [slice_len]
        omega
      · exact hfree.mono (le_rfl) (by omega)
    have heq : keepLower c s p = (s.remove p.start).insertMerged (p.slice p.start (c - p.start)) := if_pos hgt
    rw [heq] at hreads ⊢
    rcases insertMerged_keeps hplace hdr with hm | ⟨-, m, hm, hlo, hhi⟩
    · exact hm
    -- a region from the lower part up to `d` would hold the free address `c`
    exfalso
    have hdlt := hs.start_lt_endAddr hd
    rw [slice_start] at hlo
    have hmc := hreads.of_mem hm (x := c) ⟨by omega, by omega⟩
    rw [if_neg (by omega), if_pos ⟨by omega, by omega⟩] at hmc
    cases hmc
  · have heq : keepLower c s p = s.remove p.start := if_neg hgt
    rw [heq]
    exact ⟨d, hdr, rfl, le_rfl⟩

/-- The part of `p` inside the source, as `moveOne` puts it into the destination. -/
def movedPart (oldAddr oldEnd newStart : Nat) (p : VmRegion) : VmRegion :=
  (p.slice (max oldAddr p.start) (min oldEnd p.endAddr - max oldAddr p.start)).moveTo
    (satAdd newStart (max oldAddr p.start - oldAddr))

theorem moveOne_eq (oldAddr oldEnd newStart : Nat) :
    moveOne oldAddr oldEnd newStart s p =
      let t := (keepLower (max oldAddr p.start) s p).insertMerged (movedPart oldAddr oldEnd newStart p)
      if min oldEnd p.endAddr < p.endAddr then
        t.insertMerged (p.slice (min oldEnd p.endAddr) (p.endAddr - min oldEnd p.endAddr))
      else t := rfl

variable (hmax : newStart + (oldEnd - oldAddr) ≤ usizeMax)

include hmax

theorem movedPart_start (hpe : p.start < oldEnd) :
    (movedPart oldAddr oldEnd newStart p).start = newStart + (max oldAddr p.start - oldAddr) :=
  satAdd_of_le (by omega)

theorem movedPart_fits (hpe : p.start < oldEnd) : (movedPart oldAddr oldEnd newStart p).Fits := by
  unfold Fits
  rw [movedPart_start hmax hpe]
  change _ + (min oldEnd p.endAddr - max oldAddr p.start) ≤ usizeMax
  omega

theorem movedPart_endAddr (hpe : p.start < oldEnd)
    (hpo : oldAddr < p.endAddr) (hlt : p.start < p.endAddr) (hold : oldAddr < oldEnd) :
    (movedPart oldAddr oldEnd newStart p).endAddr = newStart + (min oldEnd p.endAddr - oldAddr) := by
  rw [(movedPart_fits hmax hpe).endAddr_eq, movedPart_start hmax hpe]
  change _ + (min oldEnd p.endAddr - max oldAddr p.start) = _
  omega

/-- **One round of the moving loop.** The region to be moved may have grown since it was collected,
but the loop works on the pieces of what was collected, which are still where they were. -/
theorem MoveInv.step (hold : oldAddr < oldEnd)
    (hout : oldEnd ≤ newStart ∨ newStart + (oldEnd - oldAddr) ≤ oldAddr)
    (hinv : MoveInv oldAddr oldEnd newStart s (p :: l)) (hpl : ∀ q ∈ l, p.endAddr ≤ q.start) :
    MoveInv oldAddr oldEnd newStart (moveOne oldAddr oldEnd newStart s p) l := by
  have hp : p ∈ p :: l := (.head _)
  obtain ⟨hpe, hpo⟩ := hinv.meets p hp
  obtain ⟨hfit, hlt⟩ := hinv.fits p hp
  have hapart := hinv.apart p hp
  obtain ⟨e, he, hstart, hend⟩ := hinv.present p hp
  have hs := hinv.wellFormed
  have hms := movedPart_start hmax hpe
  have hme := movedPart_endAddr hmax hpe hpo hlt hold
  have hmfit := movedPart_fits hmax hpe
  have hlow := keepLower_reads_span (reads_mapped hs) he hstart hend hfit
    (c := max oldAddr p.start) (by omega) (by omega)
  -- the destination of this round is free: it was, and the part put back is a part of `p`
  have hgap x (hx : (movedPart oldAddr oldEnd newStart p).Contains x) :
      (if p.start ≤ x ∧ x < max oldAddr p.start then some () else if e.Contains x then
      none else s.viewAt mappedView x) = none := by
    have h1 := hx.1
    have h2 := hx.2
    rw [if_neg (by omega)]
    split
    · rfl
    · exact (hinv.free p hp).viewAt_eq_none hs (by omega) (by omega)
  have hmid := hlow.fill hmfit trivial hgap
  rw [moveOne_eq]
  split
  · -- the region sticks out above the source, so it is the last one
    have hlast : l = [] := by
      refine eq_nil_iff_forall_not_mem.mpr fun q hq => ?_
      have h1 := hpl q hq
      have h2 := (hinv.meets q (.tail _ hq)).1
      omega
    have hup := hmid.fill_slice hfit trivial (c := min oldEnd p.endAddr) (by omega)
      (by omega) (le_rfl) fun _ _ _ => by
        rw [if_neg fun hx => by have := hx.1; have := hx.2; omega, if_neg (by omega),
          if_pos ⟨by omega, by omega⟩]
    subst hlast
    exact ⟨hup.wellFormed, by simp, by simp, by simp, by simp, by simp⟩
  refine ⟨hmid.wellFormed, fun q hq => hinv.meets q (.tail _ hq), fun q hq => hinv.fits q (.tail _ hq),
    fun q hq => hinv.apart q (.tail _ hq), fun q hq => ?_, fun q hq => ?_⟩
  · -- the region under the start of `q` survives both insertions
    have hq' := mem_cons_of_mem p hq
    have hpq := hpl q hq
    obtain ⟨d, hd, hds, hde⟩ := hinv.present q hq'
    obtain ⟨m, hm, hms', hme'⟩ := keepLower_present hs he hstart hend hfit
      (c := max oldAddr p.start) (by omega) (by omega) hd (by omega)
    have hplace : Placeable (keepLower (max oldAddr p.start) s p) (movedPart oldAddr oldEnd newStart p) := by
      refine ⟨hlow.wellFormed, ?_, hmfit, hlow.free fun x h1 h2 => hgap x ⟨h1, h2⟩⟩
      change 0 < min oldEnd p.endAddr - max oldAddr p.start
      omega
    rcases insertMerged_keeps hplace hm with ⟨m', hm', h1, h2⟩ | ⟨h1, m', hm', h2, h3⟩
    · exact ⟨m', hm', by omega, by omega⟩
    -- only a destination below the source could absorb it, across the free source of this round
    exfalso
    have hqe := (hinv.meets q hq').1
    have hqlt := (hinv.fits q hq').2
    have hfull := hmid.of_mem hm' (x := max oldAddr p.start) ⟨by omega, by omega⟩
    rw [if_neg fun hx => by have := hx.1; have := hx.2; omega, if_neg (by omega),
      if_pos ⟨by omega, by omega⟩] at hfull
    cases hfull
  · refine hmid.free fun x h1 h2 => ?_
    have hpq := hpl q hq
    rw [if_neg fun hx => by have := hx.2; omega, if_neg (by omega)]
    split
    · rfl
    · exact (hinv.free q (.tail _ hq)).viewAt_eq_none hs h1 h2

end MoveStep

/-- **Moving to a free destination keeps the set well formed.** -/
theorem moveRangeMetadataRaw_wellFormed {oldAddr oldLen : Nat} (hs : s.WellFormed)
    (hold : oldAddr + oldLen ≤ usizeMax) (hnew : newStart + oldLen ≤ usizeMax)
    (hout : oldAddr + oldLen ≤ newStart ∨ newStart + oldLen ≤ oldAddr)
    (hfree : s.Free newStart (newStart + oldLen)) :
    (s.moveRangeMetadataRaw oldAddr oldLen newStart).WellFormed := by
  have hend : satAdd oldAddr oldLen = oldAddr + oldLen := satAdd_of_le hold
  unfold moveRangeMetadataRaw
  rw [hend]
  dsimp only
  by_cases hpos : oldLen = 0
  · rwa [collectOverlapsWhere, if_pos (by omega)]
  have hsorted : (s.collectOverlapsWhere oldAddr (oldAddr + oldLen) fun _ => true).Pairwise
      fun r q => r.endAddr ≤ q.start := collectOverlapsWhere_sorted hs
  have hinv : MoveInv oldAddr (oldAddr + oldLen) newStart s
      (s.collectOverlapsWhere oldAddr (oldAddr + oldLen) fun _ => true) := by
    have hmem p : p ∈ s.collectOverlapsWhere oldAddr (oldAddr + oldLen) (fun _ => true) ↔ _ :=
      mem_collectOverlapsWhere_iff hs
    refine ⟨hs, fun p hp => ?_, fun p hp => ?_, fun p hp => ?_, fun p hp => ?_, fun p _ => ?_⟩
    · exact ⟨((hmem p).mp hp).2.2.1, ((hmem p).mp hp).2.2.2.1⟩
    · exact ⟨hs.fits p ((hmem p).mp hp).1, hs.start_lt_endAddr ((hmem p).mp hp).1⟩
    · have := hfree p ((hmem p).mp hp).1
      omega
    · exact ⟨p, ((hmem p).mp hp).1, rfl, le_rfl⟩
    · exact hfree.mono (by omega) (by omega)
  -- from here on only the invariant matters
  clear hfree
  generalize s.collectOverlapsWhere oldAddr (oldAddr + oldLen) (fun _ => true) = l at hsorted hinv ⊢
  induction l generalizing s with
  | nil => exact hinv.wellFormed
  | cons p l ih =>
    obtain ⟨hpl, hl⟩ := pairwise_cons.mp hsorted
    have hnext := hinv.step (by omega) (by omega) (by omega) hpl
    exact ih hnext.wellFormed hl hnext

/-! ### Isolating -/

section Isolate

variable {α : Type} {V : RegionView α} {s' : VmRegionSet} {p : VmRegion} {f : Nat → Option α}

/-- Putting back the part `[c, d)` of a region into a gap, without merging. -/
theorem Reads.put_slice (h : Reads V s f) (hfit : p.Fits) (hgood : V.Good p) {c d : Nat} (hc : p.start ≤ c)
    (hcd : c < d) (hd : d ≤ p.endAddr) (hnone : ∀ x, c ≤ x → x < d → f x = none) :
    Reads V (s.insertUnmerged (p.slice c (d - c)))
      (fun x => if c ≤ x ∧ x < d then some (V.read p x) else f x) := by
  have hend := slice_endAddr hcd.le hd
  have hplace : Placeable s (p.slice c (d - c)) := by
    refine ⟨h.wellFormed, ?_, slice_fits hcd.le hd, ?_⟩
    · rw [slice_len]
      omega
    · rw [hend]
      exact h.free hnone
  refine ⟨insertUnmerged_wellFormed hplace, fun q hq => ?_, fun x => ?_⟩
  · rcases (mem_insertUnmerged_iff hplace).mp hq with rfl | hq
    · exact V.good_slice hfit hgood hc hcd.le hd
    · exact h.good q hq
  rw [viewAt_insertUnmerged hplace, h.view]
  have hcont : (p.slice c (d - c)).Contains x ↔ c ≤ x ∧ x < d := by
    unfold Contains
    rw [hend, slice_start]
  simp only [hcont]
  split
  · next hx => rw [V.read_slice hc hd hx.1 hx.2]
  · rfl

/-- **Isolating a range keeps what the set says.** The region that holds the range is cut at its two
ends and the pieces are put back next to each other. -/
theorem isolateRangeRaw_reads {start len : Nat} (h : Reads V s f)
    (hs' : s.isolateRangeRaw start len = some s') : Reads V s' f := by
  unfold isolateRangeRaw at hs'
  split at hs'
  · cases hs'
  dsimp only at hs'
  split at hs'
  · cases hs'
  split at hs'
  · cases hs'
  next p hp =>
  obtain ⟨hps, hlo, hhi⟩ := (containingAddr_eq_some_iff h.wellFormed).mp hp
  split at hs'
  · cases hs'
  cases hs'
  have hfit := h.wellFormed.fits p hps
  have hgood := h.good p hps
  have hlow : Reads V (if start > p.start then (s.remove p.start).insertUnmerged
    (p.slice p.start (start - p.start))
      else s.remove p.start)
      fun x => if p.Contains x ∧ start ≤ x then none else f x := by
    have hrem := h.remove hps
    split
    · next hgt =>
      refine (hrem.put_slice hfit hgood (le_rfl) hgt hhi.le fun x h1 h2 => if_pos
        ⟨h1, by omega⟩).congr fun x => ?_
      split
      · next hx =>
        rw [if_neg fun h => by omega, h.of_mem hps ⟨hx.1, by omega⟩]
      · exact if_congr (by unfold Contains; omega) rfl rfl
    · exact hrem.congr fun x => if_congr (by unfold Contains; omega) rfl rfl
  have hlen : start + len - start = len := by omega
  have hmid := hlow.put_slice hfit hgood (d := start + len) hlo (by omega) (by omega)
    fun _ h1 _ => if_pos ⟨⟨by omega, by omega⟩, h1⟩
  rw [hlen] at hmid
  have hback x (hx : ¬(start + len ≤ x ∧ x < p.endAddr)) : (if start ≤ x ∧ x < start + len then
      some (V.read p x) else if p.Contains x ∧ start ≤ x then none else f x) = f x := by
    split
    · rw [h.of_mem hps ⟨by omega, by omega⟩]
    · rw [if_neg (by unfold Contains; omega)]
  split
  · next hgt =>
    refine (hmid.put_slice hfit hgood (by omega) hgt (le_rfl) fun x h1 h2 => ?_).congr fun x => ?_
    · rw [if_neg (by omega), if_pos ⟨⟨by omega, h2⟩, by omega⟩]
    split
    · next hx =>
      rw [h.of_mem hps ⟨by omega, hx.2⟩]
    · next hx =>
      rw [hback x hx]
  · exact hmid.congr fun x => hback x (by omega)

end Isolate

/-! ### Resizing -/

section Resize

variable {start : Nat}

/-- Replacing the region at `start` by one whose range is free without it. -/
theorem updateByStart_wellFormed {g : VmRegion → VmRegion} (hs : s.WellFormed)
    (hg : ∀ r, s.regions.get? start = some r → (g r).Fits ∧ (s.remove start).Free (g r).start (g r).endAddr) :
    (s.updateByStart start g).1.WellFormed := by
  unfold updateByStart
  split
  · exact hs
  next r hr =>
  obtain ⟨hfit, hfree⟩ := hg r hr
  by_cases hlen : (g r).len = 0
  · rw [insertMerged_of_len_eq_zero hlen]
    exact remove_wellFormed hs
  · exact insertMerged_wellFormed ⟨remove_wellFormed hs, by omega, hfit, hfree⟩

theorem expandDownTo_range {r : VmRegion} (hfit : r.Fits) (newStart : Nat) (h : newStart ≤ r.start) :
    (r.expandDownTo newStart).start = newStart ∧
    (r.expandDownTo newStart).len = r.len + (r.start - newStart) := by
  unfold Fits at hfit
  unfold expandDownTo
  split
  · exact ⟨by omega, by omega⟩
  · exact ⟨rfl, satAdd_of_le (by omega)⟩

/-- Growing a stack down into a free range. -/
theorem expandGrowsdownAt_wellFormed (hs : s.WellFormed) (hle : newStart ≤ start)
    (hfree : s.Free newStart start) : (s.expandGrowsdownAt start newStart).1.WellFormed := by
  unfold expandGrowsdownAt
  split
  · exact hs
  next r hr =>
  have hk := hs.keyed start r hr
  have hrs := hs.mem_of_get? hr
  have hfit := hs.fits r hrs
  split
  · -- the region is put back under its own key
    have hback : (⟨(s.remove start).regions.insert start r⟩ : VmRegionSet) =
      (s.remove start).insertUnmerged r := by
      rw [insertUnmerged, if_neg (by have := hs.nonempty r hrs; omega), hk]
    rw [hback]
    refine insertUnmerged_wellFormed ⟨remove_wellFormed hs, hs.nonempty r hrs, hfit, ?_⟩
    rw [← hk]
    exact free_remove hs hrs
  · obtain ⟨hst, hlen⟩ := expandDownTo_range hfit newStart (by omega)
    have hfit' : (r.expandDownTo newStart).Fits := by
      unfold Fits at hfit ⊢
      omega
    refine insertMerged_wellFormed ⟨remove_wellFormed hs, ?_, hfit', ?_⟩
    · have := hs.nonempty r hrs
      omega
    rw [hfit'.endAddr_eq]
    intro q hq
    have h1 := hfree q (mem_remove_iff.mp hq).1
    have h2 := free_remove hs hrs q (by rw [hk]; exact hq)
    have h3 := hs.start_lt_endAddr (mem_remove_iff.mp hq).1
    rw [hfit.endAddr_eq] at h2
    omega

end Resize

end VmRegionSet

end HitOS
