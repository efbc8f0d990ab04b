import HitOS.Mm.VmaPolicy

/-!
# The queries of a region set are exact

Every query of `vma.rs` looks at the nearest entry at or below a key, and at the entries that start
inside the range. In a well-formed set no entry further down reaches into the range, so that

* `queries_exact` — each query answers as a look at all the addresses of the range would;
* `countAfterInsertMerged_eq` — the number of regions after an insertion is predicted right.
-/

namespace HitOS

open List OrdMap VmRegion Nat

def rangeOverlapsExcept (start stop otherStart otherEnd : Nat) (exclude : Option (Nat × Nat)) : Bool :=
  if stop ≤ otherStart || start ≥ otherEnd then false
  else
    match exclude with
    | none => true
    | some (excludeStart, excludeEnd) =>
      let leftEnd := min otherEnd excludeStart
      if otherStart < leftEnd && stop > otherStart && start < leftEnd then true
      else
        let rightStart := max otherStart excludeEnd
        rightStart < otherEnd && stop > rightStart && start < otherEnd

/-- The address lies in the range, if there is one. -/
def Excluded (exclude : Option (Nat × Nat)) (x : Nat) : Prop := ∃ e ∈ exclude, e.1 ≤ x ∧ x < e.2

theorem rangeOverlapsExcept_iff {a b c d : Nat} {exclude : Option (Nat × Nat)} (hab : a < b)
    (hcd : c < d) : rangeOverlapsExcept a b c d exclude = true ↔
      ∃ x, (a ≤ x ∧ x < b) ∧ (c ≤ x ∧ x < d) ∧ ¬ Excluded exclude x := by
  unfold rangeOverlapsExcept Excluded
  split
  · next hout =>
    simp only [Bool.or_eq_true, decide_eq_true_eq] at hout
    simp only [Bool.false_eq_true, false_iff]
    rintro ⟨x, hx, hcx, -⟩
    omega
  next hin =>
  simp only [Bool.or_eq_true, decide_eq_true_eq] at hin
  cases exclude with
  | none =>
    simp only [Option.not_mem_none, false_and, exists_false, not_false_iff, and_true, true_iff]
    exact ⟨max a c, by omega, by omega⟩
  | some e =>
    simp only [Option.mem_some_iff, exists_eq_left', Bool.if_true_left, Bool.or_eq_true,
      Bool.and_eq_true, decide_eq_true_eq]
    constructor
    · rintro (h | h)
      · exact ⟨max a c, by omega, by omega, by omega⟩
      · exact ⟨max a (max c e.2), by omega, by omega, by omega⟩
    · rintro ⟨x, hx, hcx, hout⟩
      omega

namespace VmRegionSet

def anyOverlapExcept (s : VmRegionSet) (start stop : Nat) (exclude : Option (Nat × Nat)) : Bool :=
  s.anyOverlapWhere start stop fun region =>
    rangeOverlapsExcept start stop region.start region.endAddr exclude

variable {s : VmRegionSet} {r : VmRegion} {a b cursor fuel n : Nat}

theorem coversFrom_of_le (h : b ≤ cursor) : s.coversFrom b fuel cursor = true := by
  cases fuel with
  | zero => simpa [coversFrom] using h
  | succ => rw [coversFrom, if_neg (not_lt.mpr h)]

/-- The rounds of the coverage loop: one for each region that ends behind the cursor. -/
theorem coversFrom_iff (hs : s.WellFormed)
    (hfuel : (s.regions.values.filter fun r => cursor < r.endAddr).length ≤ fuel) :
    s.coversFrom b fuel cursor = true ↔ ∀ x, cursor ≤ x → x < b → ∃ r ∈ s, r.Contains x := by
  induction fuel generalizing cursor with
  | zero =>
    -- no region ends behind the cursor
    have hnone r (hr : r ∈ s) : r.endAddr ≤ cursor := by
      by_contra hlt
      have hmem : r ∈ s.regions.values.filter fun r => cursor < r.endAddr :=
        mem_filter.mpr ⟨mem_values_iff.mpr ⟨_, hr⟩, by simpa using hlt⟩
      rw [length_eq_zero_iff.mp (le_zero.mp hfuel)] at hmem
      cases hmem
    simp only [coversFrom, decide_eq_true_eq]
    refine ⟨fun h x hx hxb => absurd hxb (by omega), fun h => ?_⟩
    by_contra hlt
    obtain ⟨r, hr, hrx⟩ := h cursor le_rfl (by omega)
    have := hnone r hr
    have := hrx.2
    omega
  | succ _ ih =>
    unfold coversFrom
    split
    · next hlt =>
      cases hc : s.containingAddr cursor with
      | none =>
        simp only [Bool.false_eq_true, false_iff]
        intro h
        obtain ⟨r, hr, hrx⟩ := h cursor le_rfl hlt
        exact (containingAddr_eq_none_iff hs).mp hc r hr hrx
      | some r =>
        obtain ⟨hr, hrx⟩ := (containingAddr_eq_some_iff hs).mp hc
        have h1 := hrx.1
        have h2 := hrx.2
        simp only [if_neg h2.not_ge]
        by_cases hb : b ≤ r.endAddr
        · rw [min_eq_right hb, coversFrom_of_le le_rfl]
          exact iff_of_true rfl fun _ _ _ => ⟨r, hr, by omega, by omega⟩
        rw [min_eq_left (by omega), ih ?_]
        · constructor
          · intro h x hx hxb
            by_cases hxr : x < r.endAddr
            · exact ⟨r, hr, by omega, hxr⟩
            · exact h x (by omega) hxb
          · intro h x _ hxb
            exact h x (by omega) hxb
        · -- the region that held the cursor is behind it now
          have hsub : (s.regions.values.filter fun q => r.endAddr < q.endAddr) =
              (s.regions.values.filter fun q => cursor < q.endAddr).filter fun q => r.endAddr < q.endAddr := by
            rw [filter_filter]
            refine filter_congr fun q _ => ?_
            simp only [← Bool.decide_and, decide_eq_decide]
            omega
          rw [hsub]
          refine le_of_lt_succ (lt_of_lt_of_le (length_filter_lt_length_iff_exists.mpr ⟨r, ?_, ?_⟩) hfuel)
          · exact mem_filter.mpr ⟨mem_values_iff.mpr ⟨_, hr⟩, by simpa using h2⟩
          · simp
    · exact iff_of_true rfl fun _ _ hxb => absurd hxb (by omega)

/-- **The queries are exact**: each one answers as a scan over the addresses of the set would. -/
theorem queries_exact (hs : s.WellFormed) (a b : Nat) :
    (∀ r, s.containingAddr a = some r ↔ r ∈ s ∧ r.Contains a) ∧
      (s.overlapsRange a b = true ↔ ∃ x, (a ≤ x ∧ x < b) ∧ ∃ r ∈ s, r.Contains x) ∧
      (s.coversRange a b = true ↔ ∀ x, a ≤ x → x < b → ∃ r ∈ s, r.Contains x) ∧
      (∀ r, s.firstOverlapBeforeOrAt a b = some r ↔ r ∈ s ∧ r.start ≤ a ∧ Meets r a b) ∧
      (∀ exclude, s.anyOverlapExcept a b exclude = true ↔
        ∃ x, (a ≤ x ∧ x < b) ∧ (∃ r ∈ s, r.Contains x) ∧ ¬ Excluded exclude x) ∧
      (∀ pred, s.anyOverlapWhere a b pred = true ↔ ∃ r ∈ s, pred r = true ∧ Meets r a b) ∧
      (∀ pred, (∀ r, r ∈ s.collectOverlapsWhere a b pred ↔ r ∈ s ∧ pred r = true ∧ Meets r a b) ∧
        (s.collectOverlapsWhere a b pred).Pairwise fun r q => r.endAddr ≤ q.start) ∧
      s.snapshotRange a b = (s.collectOverlapsWhere a b fun _ => true).map fun r =>
        r.slice (max a r.start) (min b r.endAddr - max a r.start) := by
  refine ⟨fun r => containingAddr_eq_some_iff hs, ?_, ?_, fun r => ?_, fun _ => ?_,
    fun pred => anyOverlapWhere_iff hs, fun pred => ⟨fun r => ?_, collectOverlapsWhere_sorted hs⟩, ?_⟩
  · rw [overlapsRange, anyOverlapWhere_iff hs]
    constructor
    · rintro ⟨r, hr, -, x, hx, hrx⟩
      exact ⟨x, hx, r, hr, hrx⟩
    · rintro ⟨x, hx, r, hr, hrx⟩
      exact ⟨r, hr, rfl, x, hx, hrx⟩
  · unfold coversRange
    split
    · exact iff_of_true rfl fun _ _ hxb => absurd hxb (by omega)
    · exact coversFrom_iff hs ((length_filter_le ..).trans_eq (length_map _))
  · by_cases hab : a < b
    · rw [firstOverlapBeforeOrAt_eq_some_iff hs hab]
      refine and_congr_right fun hr => ?_
      rw [hs.meets_iff hr, Contains]
      omega
    · rw [firstOverlapBeforeOrAt, if_pos (by omega)]
      refine iff_of_false (by simp) ?_
      rintro ⟨-, -, x, hx, -⟩
      omega
  · rw [anyOverlapExcept, anyOverlapWhere_iff hs]
    constructor
    · rintro ⟨r, hr, hov, hm⟩
      have hlt := hs.start_lt_endAddr hr
      obtain ⟨x, hx, hrx, hout⟩ := (rangeOverlapsExcept_iff ((hs.meets_iff hr).mp hm).1 hlt).mp hov
      exact ⟨x, hx, ⟨r, hr, hrx⟩, hout⟩
    · rintro ⟨x, hx, ⟨r, hr, hrx⟩, hout⟩
      exact ⟨r, hr, (rangeOverlapsExcept_iff (by omega) (hs.start_lt_endAddr hr)).mpr
        ⟨x, hx, hrx, hout⟩, x, hx, hrx⟩
  · rw [mem_collectOverlapsWhere_iff hs]
    refine and_congr_right fun hr => ?_
    rw [hs.meets_iff hr]
    tauto
  · refine filterMap_eq_map_iff_forall_eq_some.mpr fun r hr => ?_
    obtain ⟨hrs, hab, hlt, hgt, -⟩ := (mem_collectOverlapsWhere_iff hs).mp hr
    have := hs.start_lt_endAddr hrs
    exact if_pos (by omega)

/-- Two pages with a hole between them: the range is not covered, at the hole. -/
theorem queries_exact_hole :
    let s := (new.insertMerged (.anonymous 0x1000 0x1000 3)).insertMerged (.anonymous 0x3000 0x1000 3)
    s.coversRange 0x1000 0x4000 = false ∧ ¬ ∀ x, 0x1000 ≤ x → x < 0x4000 → ∃ r ∈ s, r.Contains x := by
  have hcovers := (queries_exact (s := (new.insertMerged (.anonymous 0x1000 0x1000 3)).insertMerged
    (.anonymous 0x3000 0x1000 3)) (by decide) 0x1000 0x4000).2.2.1
  exact ⟨by decide, fun h => absurd (hcovers.mpr h) (by decide)⟩

/-! ### The number of regions after an insertion -/

theorem mergeForward_of_none {m : OrdMap Nat VmRegion} (h : m.get? r.endAddr = none) :
    mergeForward n m r = (m, r) := by
  cases n with
  | zero => rfl
  | succ => rw [mergeForward_succ, h]

theorem countForward_succ {count : Nat} : s.countForward (fuel + 1) r count =
    match s.regions.get? r.endAddr with
    | none => count
    | some q => match r.mergeWith q with
      | none => count
      | some merged => s.countForward fuel merged (count - 1) := by
  change (match s.regions.get? r.endAddr with
    | none => _
    | some q => match r.mergeWith q with
      | none => _
      | some merged => _) = _
  rfl

/-- The loop that counts looks at the whole set, the loop that merges at what is left of it: above
the region the two agree. -/
theorem countForward_eq {t : VmRegionSet} (hc : Placeable t r)
    (hsame : ∀ k, r.endAddr ≤ k → s.regions.get? k = t.regions.get? k) (hfuel : t.regions.size ≤ fuel)
    (hn : t.regions.size ≤ n) :
    s.countForward fuel r (t.regions.size + 1) = (mergeForward n t.regions r).1.size + 1 := by
  induction fuel generalizing t r n with
  | zero =>
    have hnone : t.regions.get? r.endAddr = none := by
      refine Option.eq_none_iff_forall_ne_some.mpr fun q hq => ?_
      have := size_erase hq
      omega
    rw [mergeForward_of_none hnone]
    rfl
  | succ _ ih =>
    rw [countForward_succ, hsame _ le_rfl]
    cases hq : t.regions.get? r.endAddr with
    | none =>
      rw [mergeForward_of_none hq]
    | some q =>
    have hsize := size_erase hq
    obtain ⟨n, rfl⟩ : ∃ n', n = n' + 1 := ⟨n - 1, by omega⟩
    rw [mergeForward_succ, hq]
    dsimp only
    cases hm : r.mergeWith q with
    | none => rfl
    | some =>
    obtain ⟨hcan, rfl⟩ := mergeWith_eq_some_iff.mp hm
    have hadj := endAddr_eq_of_canMergeWith hcan
    rw [hadj] at hq hsize hsame ⊢
    have hlt := hc.wellFormed.start_lt_endAddr hq
    have hend := merged_endAddr hc.fits (hc.wellFormed.fits q hq) hadj
    rw [← hsize]
    refine ih (t := t.remove q.start) (hc.upper hq hcan) (fun k hk => ?_) ?_ ?_
    · rw [hsame k (by omega), remove, get?_erase, if_neg (by omega)]
    · exact le_of_succ_le_succ (hsize.trans_le hfuel)
    · exact le_of_succ_le_succ (hsize.trans_le hn)

/-- A region that meets nothing goes under a key of its own. -/
theorem Placeable.size_insertUnmerged (hc : Placeable s r) :
    (s.insertUnmerged r).regions.size = s.regions.size + 1 := by
  have hpos := hc.nonempty
  have hnone : s.regions.get? r.start = none := by
    refine Option.eq_none_iff_forall_ne_some.mpr fun p hp => ?_
    have hmem := hc.wellFormed.mem_of_get? hp
    have hfree := hc.free p hmem
    have hkey := hc.wellFormed.keyed _ _ hp
    have hlt := hc.wellFormed.start_lt_endAddr hmem
    have hend := hc.fits.endAddr_eq
    omega
  rw [insertUnmerged, if_neg (by omega)]
  exact size_insert hnone

/-- **The prediction is right**: the number of regions `count_after_insert_merged` announces is the
number after the insertion. -/
theorem countAfterInsertMerged_eq (hs : s.WellFormed) (hr : r.Fits) (hfree : s.Free r.start r.endAddr) :
    s.countAfterInsertMerged r = (s.insertMerged r).regions.size := by
  unfold countAfterInsertMerged insertMerged
  split
  · rfl
  next hlen =>
  have hc : Placeable s r := ⟨hs, Nat.pos_of_ne_zero hlen, hr, hfree⟩
  have hfwd {t : VmRegionSet} {q : VmRegion} (hq : Placeable t q) (hsame :
      (∀ k, q.endAddr ≤ k → s.regions.get? k = t.regions.get? k)) (hle : t.regions.size ≤ s.regions.size) :
      s.countForward s.regions.size q (t.regions.size + 1) =
      (insertUnmerged ⟨(mergeForward t.regions.size t.regions q).1⟩
      (mergeForward t.regions.size t.regions q).2).regions.size := by
    rw [((mergeForward_absorbs _ hq.wellFormed).placeable hq).size_insertUnmerged]
    exact countForward_eq hq hsame hle le_rfl
  unfold mergeBackward
  cases hp : s.regions.lastLT r.start with
  | none => exact hfwd hc (fun _ _ => rfl) le_rfl
  | some e =>
  obtain ⟨k, p⟩ := e
  obtain ⟨hget, hlt, -⟩ := lastLT_eq_some_iff.mp hp
  obtain rfl := hs.keyed k p hget
  dsimp only
  cases hm : p.mergeWith r with
  | none => exact hfwd hc (fun _ _ => rfl) le_rfl
  | some =>
  obtain ⟨hcan, rfl⟩ := mergeWith_eq_some_iff.mp hm
  have hsize := size_erase hget
  have hadj := endAddr_eq_of_canMergeWith hcan
  have hend := merged_endAddr (hs.fits p hget) hr hadj
  have hrend := hr.endAddr_eq
  have hrest := hfwd (hc.lower hget hcan) (fun j hj => by
    rw [remove, get?_erase, if_neg (by omega)]) (le_of_succ_le hsize.le)
  rwa [remove, hsize] at hrest

/-- A page that joins its two neighbours leaves one region of the two. -/
theorem countAfterInsertMerged_eq_between :
    let s := (new.insertMerged (.anonymous 0x1000 0x1000 3)).insertMerged (.anonymous 0x3000 0x1000 3)
    s.countAfterInsertMerged (.anonymous 0x2000 0x1000 3) = 1 ∧
      (s.insertMerged (.anonymous 0x2000 0x1000 3)).regions.size = 1 := by
  have heq := countAfterInsertMerged_eq (s := (new.insertMerged (.anonymous 0x1000 0x1000 3)).insertMerged
    (.anonymous 0x3000 0x1000 3)) (r := .anonymous 0x2000 0x1000 3) (by decide) (by decide) (by decide)
  exact ⟨by decide, heq.symm.trans (by decide)⟩

end VmRegionSet

end HitOS
