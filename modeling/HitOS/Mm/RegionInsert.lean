import HitOS.Mm.VmRegionSet

/-!
# Insertion with merging

`insert_merged` takes mergeable neighbours out of the set one by one and grows the new region by
each of them. `Absorbs` is a chain of such steps, and `insertMerged_absorbs` says that the code is
such a chain followed by a plain insertion. What an insertion does is then read off one step:

* `Placeable` — the new region is non-empty, fits and lies in a free range — is kept by a step;
* `viewAt_insertMerged` — so is, for every `RegionView`, what the set and the new region together
  say about each address;
* `mem_insertMerged_of_not_above` — and the regions above the new one stay, as long as none of them
  can be merged into it.
-/

namespace HitOS

open VmRegion

/-- A reading of regions, address by address, that survives cutting and merging: what the operations
on a set are tracked through. `Good` is what regions must satisfy for a merge to keep the
reading. -/
structure RegionView (α : Type) where
  /-- What region `r` says about its address `x`. -/
  read : VmRegion → Nat → α
  /-- The regions the reading is faithful for. -/
  Good : VmRegion → Prop
  good_merged : ∀ {r q : VmRegion}, r.Fits → q.Fits → Good r → Good q → r.canMergeWith q = true →
    Good (r.merged q)
  read_merged : ∀ {r q : VmRegion} {x : Nat}, r.Fits → q.Fits → Good r → Good q →
    r.canMergeWith q = true → r.start ≤ x → x < q.endAddr →
      read (r.merged q) x = if x < q.start then read r x else read q x
  good_slice : ∀ {r : VmRegion} {a b : Nat}, r.Fits → Good r → r.start ≤ a → a ≤ b →
    b ≤ r.endAddr → Good (r.slice a (b - a))
  read_slice : ∀ {r : VmRegion} {a b x : Nat}, r.start ≤ a → b ≤ r.endAddr → a ≤ x → x < b →
    read (r.slice a (b - a)) x = read r x

/-- The promised attributes, for regions whose file range fits in a word. -/
def promisedView : RegionView ByteAttrs where
  read r x := (r.attrsAt x).promised
  Good := VmRegion.FileFits
  good_merged hr hq hrf hqf h := merged_fileFits hr hq hrf hqf h
  read_merged hr hq hrf _ h hrx hxq := by
    rw [promised_attrsAt_merged hr hq hrf h hrx hxq]
    split <;> rfl
  good_slice hr hf ha hab hb := slice_fileFits hr hf ha hab hb
  read_slice ha hb hax hxb := by rw [attrsAt_slice ha hb hax hxb]

namespace VmRegionSet

/-- What the set says about the address `x` through the view `V`. -/
def viewAt (V : RegionView α) (s : VmRegionSet) (x : Nat) : Option α :=
  (s.containingAddr x).map (fun r => V.read r x)

/-- Every region of the set is good for the view. -/
def AllGood (V : RegionView α) (s : VmRegionSet) : Prop := ∀ r ∈ s, V.Good r

/-! ### Merge chains -/

/-- A region about to be inserted takes mergeable neighbours out of the set, one after the other,
and grows by each. -/
inductive Absorbs : VmRegionSet → VmRegion → VmRegionSet → VmRegion → Prop
  | refl (s : VmRegionSet) (r : VmRegion) : Absorbs s r s r
  | lower {s s' : VmRegionSet} {p r r' : VmRegion} (hp : p ∈ s) (h : p.canMergeWith r = true)
    (rest : Absorbs (s.remove p.start) (p.merged r) s' r') : Absorbs s r s' r'
  | upper {s s' : VmRegionSet} {r q r' : VmRegion} (hq : q ∈ s) (h : r.canMergeWith q = true)
    (rest : Absorbs (s.remove q.start) (r.merged q) s' r') : Absorbs s r s' r'

section Placeable

variable {s : VmRegionSet} {p r q : VmRegion}

theorem Placeable.lower (hc : Placeable s r) (hp : p ∈ s) (h : p.canMergeWith r = true) :
    Placeable (s.remove p.start) (p.merged r) := by
  obtain ⟨hs, hpos, hfit, hfree⟩ := hc
  have hadj := endAddr_eq_of_canMergeWith h
  have hpfit := hs.fits p hp
  have hlen := merged_len_eq hpfit hfit hadj
  refine ⟨remove_wellFormed hs, by omega, merged_fits hpfit hfit hadj, ?_⟩
  rw [merged_start, merged_endAddr hpfit hfit hadj]
  intro q hq
  have h1 := free_remove hs hp q hq
  have h2 := hfree q (mem_remove_iff.mp hq).1
  have h3 := hs.start_lt_endAddr (mem_remove_iff.mp hq).1
  omega

theorem Placeable.upper (hc : Placeable s r) (hq : q ∈ s) (h : r.canMergeWith q = true) :
    Placeable (s.remove q.start) (r.merged q) := by
  obtain ⟨hs, hpos, hfit, hfree⟩ := hc
  have hadj := endAddr_eq_of_canMergeWith h
  have hqfit := hs.fits q hq
  have hlen := merged_len_eq hfit hqfit hadj
  refine ⟨remove_wellFormed hs, by omega, merged_fits hfit hqfit hadj, ?_⟩
  rw [merged_start, merged_endAddr hfit hqfit hadj]
  intro p hp
  have h1 := free_remove hs hq p hp
  have h2 := hfree p (mem_remove_iff.mp hp).1
  have h3 := hs.start_lt_endAddr (mem_remove_iff.mp hp).1
  omega

end Placeable

variable {s s' : VmRegionSet} {r r' q : VmRegion} {fuel : Nat} {m : OrdMap Nat VmRegion}

theorem Absorbs.placeable (h : Absorbs s r s' r') (hc : Placeable s r) : Placeable s' r' := by
  induction h with
  | refl => exact hc
  | lower hp h _ ih => exact ih (hc.lower hp h)
  | upper hq h _ ih => exact ih (hc.upper hq h)

/-- One round of the forward loop. -/
theorem mergeForward_succ : mergeForward (fuel + 1) m r = match m.get? r.endAddr with
      | none => (m, r)
      | some next =>
        match r.mergeWith next with
        | none => (m, r)
        | some merged => mergeForward fuel (m.erase r.endAddr) merged := by
  rfl

theorem mergeForward_absorbs (fuel : Nat) (hs : s.WellFormed) :
    Absorbs s r ⟨(mergeForward fuel s.regions r).1⟩ (mergeForward fuel s.regions r).2 := by
  induction fuel generalizing s r with
  | zero => exact .refl s r
  | succ _ ih =>
    rw [mergeForward_succ]
    cases hq : s.regions.get? r.endAddr with
    | none => exact .refl s r
    | some q =>
    cases hm : r.mergeWith q with
    | none =>
      simp only [hm]
      exact .refl s r
    | some =>
      simp only [hm]
      obtain ⟨hcan, rfl⟩ := mergeWith_eq_some_iff.mp hm
      rw [endAddr_eq_of_canMergeWith hcan] at hq ⊢
      exact .upper hq hcan (ih (remove_wellFormed hs))

theorem mergeForward_start : (mergeForward fuel m r).2.start = r.start := by
  induction fuel generalizing m r with
  | zero => rfl
  | succ _ ih =>
    rw [mergeForward_succ]
    cases m.get? r.endAddr with
    | none => rfl
    | some q =>
      cases hm : r.mergeWith q with
      | none => simp only [hm]
      | some =>
        obtain ⟨-, rfl⟩ := mergeWith_eq_some_iff.mp hm
        simp only [hm]
        rw [ih, merged_start]

/-- The two phases of an insertion: at most one region is merged from below, and then the start of
the new region is settled. -/
theorem insertMerged_phases (hc : Placeable s r) : ∃ s₁ r₁ s' r',
      (s₁ = s ∧ r₁ = r ∨ ∃ p ∈ s, p.canMergeWith r = true ∧ s₁ = s.remove p.start ∧ r₁ = p.merged r) ∧
      Absorbs s₁ r₁ s' r' ∧ r'.start = r₁.start ∧ s.insertMerged r = s'.insertUnmerged r' := by
  have hphase : (⟨(mergeBackward s.regions r).1⟩ = s ∧ (mergeBackward s.regions r).2 = r) ∨
      ∃ p ∈ s, p.canMergeWith r = true ∧ ⟨(mergeBackward s.regions r).1⟩ = s.remove p.start ∧
        (mergeBackward s.regions r).2 = p.merged r := by
    unfold mergeBackward
    split
    · exact .inl ⟨rfl, rfl⟩
    next k p hp =>
    obtain ⟨hget, -, -⟩ := OrdMap.lastLT_eq_some_iff.mp hp
    split
    · exact .inl ⟨rfl, rfl⟩
    · next m hm =>
      obtain ⟨hcan, rfl⟩ := mergeWith_eq_some_iff.mp hm
      rw [← hc.wellFormed.keyed k p hget]
      exact .inr ⟨p, hc.wellFormed.mem_of_get? hget, hcan, rfl, rfl⟩
  have hwf : WellFormed ⟨(mergeBackward s.regions r).1⟩ := by
    rcases hphase with ⟨heq, -⟩ | ⟨p, -, -, heq, -⟩ <;> rw [heq]
    · exact hc.wellFormed
    · exact remove_wellFormed hc.wellFormed
  refine ⟨_, _, _, _, hphase, mergeForward_absorbs (mergeBackward s.regions r).1.size hwf,
    mergeForward_start, ?_⟩
  have hpos := hc.nonempty
  rw [insertMerged, if_neg (by omega)]

/-- **Insertion is a merge chain.** `insert_merged` absorbs some neighbours and puts what it got
into what is left. -/
theorem insertMerged_absorbs (hc : Placeable s r) :
    ∃ s' r', Absorbs s r s' r' ∧ s.insertMerged r = s'.insertUnmerged r' := by
  obtain ⟨_, _, s', r', ⟨rfl, rfl⟩ | ⟨p, hp, hcan, rfl, rfl⟩, habs, -, heq⟩ := insertMerged_phases hc
  · exact ⟨s', r', habs, heq⟩
  · exact ⟨s', r', .lower hp hcan habs, heq⟩

theorem insertMerged_of_len_eq_zero (h : r.len = 0) : s.insertMerged r = s := by
  rw [insertMerged, if_pos h]

/-- **Insertion keeps the set well formed.** -/
theorem insertMerged_wellFormed (hc : Placeable s r) : (s.insertMerged r).WellFormed := by
  obtain ⟨_, _, habs, heq⟩ := insertMerged_absorbs hc
  rw [heq]
  exact insertUnmerged_wellFormed (habs.placeable hc)

/-! ### What an insertion says about each address -/

section View

variable {α : Type} {V : RegionView α} {p : VmRegion} {x : Nat}

section

variable (hs : s.WellFormed)

include hs

theorem viewAt_of_mem (hr : r ∈ s) (hx : r.Contains x) : s.viewAt V x = some (V.read r x) := by
  unfold viewAt
  rw [(containingAddr_eq_some_iff hs).mpr ⟨hr, hx⟩]
  rfl

theorem viewAt_eq_none (h : ∀ r ∈ s, ¬ r.Contains x) : s.viewAt V x = none := by
  unfold viewAt
  rw [(containingAddr_eq_none_iff hs).mpr h]
  rfl

/-- Two well-formed sets with the same region, or none, at an address say the same about it. -/
theorem viewAt_congr (hs' : s'.WellFormed)
    (h : ∀ q, q.Contains x → (q ∈ s ↔ q ∈ s')) : s.viewAt V x = s'.viewAt V x := by
  by_cases hex : ∃ q ∈ s, q.Contains x
  · obtain ⟨q, hq, hqx⟩ := hex
    rw [viewAt_of_mem hs hq hqx, viewAt_of_mem hs' ((h q hqx).mp hq) hqx]
  · rw [viewAt_eq_none hs fun q hq hqx => hex ⟨q, hq, hqx⟩,
      viewAt_eq_none hs' fun q hq hqx => hex ⟨q, (h q hqx).mpr hq, hqx⟩]

theorem viewAt_remove (hp : p ∈ s) :
    (s.remove p.start).viewAt V x = if p.Contains x then none else s.viewAt V x := by
  split
  · next hx =>
    refine viewAt_eq_none (remove_wellFormed hs) fun q hq hqx => ?_
    obtain ⟨hqs, hne⟩ := mem_remove_iff.mp hq
    exact hne (hs.eq_of_contains hqs hp hqx hx ▸ rfl)
  · next hx =>
    refine viewAt_congr (remove_wellFormed hs) hs fun _ _ => ?_
    rw [mem_remove_iff]
    refine ⟨fun h => h.1, fun h => ⟨h, fun he => hx ?_⟩⟩
    rwa [← WellFormed.eq_of_start_eq h hp he]

end

theorem viewAt_insertUnmerged (hc : Placeable s r) : (s.insertUnmerged r).viewAt V x =
      if r.Contains x then some (V.read r x) else s.viewAt V x := by
  have hwf := insertUnmerged_wellFormed hc
  split
  · next hx => exact viewAt_of_mem hwf ((mem_insertUnmerged_iff hc).mpr (.inl rfl)) hx
  · next hx =>
    refine viewAt_congr hwf hc.wellFormed fun q hqx => ?_
    rw [mem_insertUnmerged_iff hc]
    exact ⟨fun h => h.resolve_left fun he => hx (he ▸ hqx), .inr⟩

/-- What a set and a region about to be inserted into it say together. -/
def overlayAt (V : RegionView α) (s : VmRegionSet) (r : VmRegion) (x : Nat) : Option α :=
  if r.Contains x then some (V.read r x) else s.viewAt V x

/-- A merged region says what its two halves say. -/
theorem overlayAt_merged (hr : r.Fits) (hq : q.Fits) (h : r.canMergeWith q = true) (hgr : V.Good r)
    (hgq : V.Good q) :
    overlayAt V s (r.merged q) x = if r.Contains x then some (V.read r x) else overlayAt V s q x := by
  have hadj := endAddr_eq_of_canMergeWith h
  have hend := merged_endAddr hr hq hadj
  have hread := fun hx : (r.merged q).Contains x => V.read_merged hr hq hgr hgq h hx.1 (hend ▸ hx.2)
  have hcont : (r.merged q).Contains x ↔ r.Contains x ∨ q.Contains x := by
    have hle := hr.endAddr_eq
    have hle' := hq.endAddr_eq
    simp only [Contains, merged_start]
    omega
  unfold overlayAt
  split
  · next hx =>
    rw [hread hx]
    split
    · rw [if_pos ((hcont.mp hx).resolve_right fun hqx => by have := hqx.1; omega)]
    · have hrx : ¬ r.Contains x := fun hrx => by have := hrx.2; omega
      rw [if_neg hrx, if_pos ((hcont.mp hx).resolve_left hrx)]
  · next hx => rw [if_neg (hx ∘ hcont.mpr ∘ .inl), if_neg (hx ∘ hcont.mpr ∘ .inr)]

theorem overlayAt_lower (hc : Placeable s r) (hp : p ∈ s) (h : p.canMergeWith r = true) (hgp : V.Good p)
    (hgr : V.Good r) : overlayAt V (s.remove p.start) (p.merged r) x = overlayAt V s r x := by
  have hadj := endAddr_eq_of_canMergeWith h
  rw [overlayAt_merged (hc.wellFormed.fits p hp) hc.fits h hgp hgr, overlayAt, overlayAt,
    viewAt_remove hc.wellFormed hp]
  split
  · next hx =>
    rw [if_neg fun hrx => by have := hx.2; have := hrx.1; omega, viewAt_of_mem hc.wellFormed hp hx]
  · rfl

theorem overlayAt_upper (hc : Placeable s r) (hq : q ∈ s) (h : r.canMergeWith q = true) (hgr : V.Good r)
    (hgq : V.Good q) : overlayAt V (s.remove q.start) (r.merged q) x = overlayAt V s r x := by
  rw [overlayAt_merged hc.fits (hc.wellFormed.fits q hq) h hgr hgq, overlayAt, overlayAt,
    viewAt_remove hc.wellFormed hq]
  split
  · rfl
  · split
    · next hx => rw [viewAt_of_mem hc.wellFormed hq hx]
    · rfl

theorem allGood_remove {k : Nat} (hg : s.AllGood V) : (s.remove k).AllGood V :=
  fun q hq => hg q (mem_remove_iff.mp hq).1

/-- A merge chain keeps what the set and the new region say together. -/
theorem Absorbs.overlayAt_eq (h : Absorbs s r s' r') (hc : Placeable s r) (hg : s.AllGood V) (hgr : V.Good r) :
    s'.AllGood V ∧ V.Good r' ∧ ∀ x, overlayAt V s' r' x = overlayAt V s r x := by
  induction h with
  | refl => exact ⟨hg, hgr, fun _ => rfl⟩
  | @lower s s' p r r' hp h _ ih =>
    have hgood := V.good_merged (hc.wellFormed.fits p hp) hc.fits (hg p hp) hgr h
    obtain ⟨h1, h2, h3⟩ := ih (hc.lower hp h) (allGood_remove hg) hgood
    exact ⟨h1, h2, fun x => (h3 x).trans (overlayAt_lower hc hp h (hg p hp) hgr)⟩
  | @upper s s' r q r' hq h _ ih =>
    have hgood := V.good_merged hc.fits (hc.wellFormed.fits q hq) hgr (hg q hq) h
    obtain ⟨h1, h2, h3⟩ := ih (hc.upper hq h) (allGood_remove hg) hgood
    exact ⟨h1, h2, fun x => (h3 x).trans (overlayAt_upper hc hq h hgr (hg q hq))⟩

/-- **Insertion, address by address.** After `insert_merged` the addresses of the new region read as
the region says, and all others as before. -/
theorem viewAt_insertMerged (hc : Placeable s r) (hg : s.AllGood V) (hgr : V.Good r) :
    (s.insertMerged r).viewAt V x = if r.Contains x then some (V.read r x) else s.viewAt V x := by
  obtain ⟨_, _, habs, heq⟩ := insertMerged_absorbs hc
  obtain ⟨-, -, hover⟩ := habs.overlayAt_eq hc hg hgr
  rw [heq, viewAt_insertUnmerged (habs.placeable hc)]
  exact hover x

theorem insertMerged_allGood (hc : Placeable s r) (hg : s.AllGood V) (hgr : V.Good r) :
    (s.insertMerged r).AllGood V := by
  obtain ⟨_, _, habs, heq⟩ := insertMerged_absorbs hc
  obtain ⟨hg', hgr', -⟩ := habs.overlayAt_eq hc hg hgr
  rw [heq]
  intro q hq
  rcases (mem_insertUnmerged_iff (habs.placeable hc)).mp hq with rfl | hq
  · exact hgr'
  · exact hg' q hq

end View

/-! ### What an insertion leaves alone -/

/-- Without a mergeable region above, a merge chain only reaches down. -/
theorem Absorbs.mem_iff_of_not_above (h : Absorbs s r s' r') (hc : Placeable s r)
    (hval : r.fileValidLen ≤ r.len) (hup : ∀ n ∈ s, r.canMergeWith n = false) :
    r'.start ≤ r.start ∧ ∀ q : VmRegion, r.start < q.start → (q ∈ s' ↔ q ∈ s) := by
  induction h with
  | refl => exact ⟨le_rfl, fun _ _ => Iff.rfl⟩
  | @lower s s' p r r' hp h _ ih =>
    have hpfit := hc.wellFormed.fits p hp
    have hadj := endAddr_eq_of_canMergeWith h
    have hlt := hc.wellFormed.start_lt_endAddr hp
    obtain ⟨hle, hmem⟩ := ih (hc.lower hp h) (merged_fileValidLen_le hpfit hc.fits hadj) (by
      intro n hn
      rw [Bool.eq_false_iff]
      intro hcan
      have := canMergeWith_of_merged hc.fits hpfit hval h hcan
      rw [hup n (mem_remove_iff.mp hn).1] at this
      cases this)
    rw [merged_start] at hle hmem
    refine ⟨by omega, fun q hq => ?_⟩
    rw [hmem q (by omega), mem_remove_iff]
    exact ⟨fun h => h.1, fun h => ⟨h, by omega⟩⟩
  | @upper s s' r q r' hq h _ ih =>
    rw [hup q hq] at h
    cases h

/-- **Insertion leaves the regions above alone**, unless the one next to the new region merges. -/
theorem mem_insertMerged_of_not_above (hc : Placeable s r) (hval : r.fileValidLen ≤ r.len)
    (hup : ∀ n ∈ s, r.canMergeWith n = false) (hq : r.start < q.start) : q ∈ s.insertMerged r ↔ q ∈ s := by
  obtain ⟨_, _, habs, heq⟩ := insertMerged_absorbs hc
  obtain ⟨hle, hmem⟩ := habs.mem_iff_of_not_above hc hval hup
  rw [heq, mem_insertUnmerged_iff (habs.placeable hc), hmem q hq]
  refine ⟨fun h => h.resolve_left fun he => ?_, .inr⟩
  rw [he] at hq
  omega

/-- A merge chain ends with a region that spans the one it began with, and every region it took out
of the set lies inside that span. -/
theorem Absorbs.span (h : Absorbs s r s' r') (hc : Placeable s r) :
    r'.start ≤ r.start ∧ r.endAddr ≤ r'.endAddr ∧ ∀ e ∈ s, e ∈ s' ∨ r'.start ≤ e.start ∧ e.endAddr ≤
      r'.endAddr := by
  induction h with
  | refl => exact ⟨le_rfl, le_rfl, fun _ he => .inl he⟩
  | @lower s s' p r r' hp h _ ih =>
    have hadj := endAddr_eq_of_canMergeWith h
    have hend := merged_endAddr (hc.wellFormed.fits p hp) hc.fits hadj
    have hlt := hc.wellFormed.start_lt_endAddr hp
    have hr := hc.fits.endAddr_eq
    obtain ⟨h1, h2, h3⟩ := ih (hc.lower hp h)
    rw [merged_start] at h1
    rw [hend] at h2
    refine ⟨by omega, h2, fun e he => ?_⟩
    by_cases hep : e.start = p.start
    · rw [WellFormed.eq_of_start_eq he hp hep]
      exact .inr ⟨h1, by omega⟩
    · exact h3 e (mem_remove_iff.mpr ⟨he, hep⟩)
  | @upper s s' r q r' hq h _ ih =>
    have hadj := endAddr_eq_of_canMergeWith h
    have hend := merged_endAddr hc.fits (hc.wellFormed.fits q hq) hadj
    have hlt := hc.wellFormed.start_lt_endAddr hq
    have hr := hc.fits.endAddr_eq
    obtain ⟨h1, h2, h3⟩ := ih (hc.upper hq h)
    rw [merged_start] at h1
    rw [hend] at h2
    refine ⟨h1, by omega, fun e he => ?_⟩
    by_cases heq : e.start = q.start
    · rw [WellFormed.eq_of_start_eq he hq heq]
      exact .inr ⟨by omega, h2⟩
    · exact h3 e (mem_remove_iff.mpr ⟨he, heq⟩)

/-- **Where the regions go.** An insertion leaves a region in place, or grows it in place at its
upper end, or takes it into the new region from above. -/
theorem insertMerged_keeps {s : VmRegionSet} {r : VmRegion} (hc : Placeable s r) {e : VmRegion} (he : e ∈ s) :
    (∃ m ∈ s.insertMerged r, m.start = e.start ∧ e.endAddr ≤ m.endAddr) ∨
      (r.endAddr ≤ e.start ∧ ∃ m ∈ s.insertMerged r, m.start ≤ r.start ∧ e.endAddr ≤ m.endAddr) := by
  obtain ⟨_, _, _, r', hphase, habs, hstart, heq⟩ := insertMerged_phases hc
  have hfree := hc.free e he
  have hlt := hc.wellFormed.start_lt_endAddr he
  have hrend := hc.fits.endAddr_eq
  rcases hphase with ⟨rfl, rfl⟩ | ⟨p, hp, hcan, rfl, rfl⟩
  · obtain ⟨h1, h2, h3⟩ := habs.span hc
    rw [heq]
    rcases h3 e he with hin | ⟨hlo, hhi⟩
    · exact .inl ⟨e, (mem_insertUnmerged_iff (habs.placeable hc)).mpr (.inr hin), rfl, le_rfl⟩
    · exact .inr ⟨by omega, r', (mem_insertUnmerged_iff (habs.placeable hc)).mpr (.inl rfl), h1, hhi⟩
  have hc₁ := hc.lower hp hcan
  have hadj := endAddr_eq_of_canMergeWith hcan
  have hplt := hc.wellFormed.start_lt_endAddr hp
  have hend := merged_endAddr (hc.wellFormed.fits p hp) hc.fits hadj
  obtain ⟨h1, h2, h3⟩ := habs.span hc₁
  rw [merged_start] at h1 hstart
  have hr' := (mem_insertUnmerged_iff (habs.placeable hc₁)).mpr (.inl rfl)
  rw [heq]
  by_cases hep : e.start = p.start
  · -- the region below: it keeps its start and grows
    rw [WellFormed.eq_of_start_eq he hp hep]
    exact .inl ⟨r', hr', hstart, by omega⟩
  · have hapart := hc.wellFormed.apart he hp fun h => hep (h ▸ rfl)
    rcases h3 e (mem_remove_iff.mpr ⟨he, hep⟩) with hin | ⟨hlo, hhi⟩
    · exact .inl ⟨e, (mem_insertUnmerged_iff (habs.placeable hc₁)).mpr (.inr hin), rfl, le_rfl⟩
    · exact .inr ⟨by omega, r', hr', by omega, hhi⟩

end VmRegionSet

end HitOS
