import HitOS.Mm.MemorySet

/-!
# The memory set, page by page

What the operations on areas and page table do, said for each virtual page. A page has a `PageView`:
what its area says about it, and its page-table entry. An operation is specified by a function on
page views, so that a property of all pages can be followed through an operation one page at a time.
The region set plays no part here.

* `unmapUserRange_spec` — unmapping;
* `mprotectUserRange_spec` — changing the protection.

Insertion follows in `HitOS.Mm.PageInsert`.
-/

namespace HitOS

open List MapArea MemorySet PageTable OrdMap

/-- What there is to see of a page. -/
structure PageView where
  /-- What the area that owns the page says about it. -/
  area : Option AreaPage
  /-- The valid entry of the page. -/
  pte : Option Pte
  deriving DecidableEq, Repr

namespace PageView

/-- Change a page that has an area. -/
def update (F : AreaPage → Option Pte → PageView) (p : PageView) : PageView :=
  match p.area with
  | none => p
  | some r => F r p.pte

/-- Unmapping: a user page is gone. -/
def unmapped (r : AreaPage) (pte : Option Pte) : PageView :=
  if r.mapPerm.u then ⟨none, none⟩ else ⟨some r, pte⟩

/-- What a new permission does to the entry and the flags put aside of a user page. Without any
access the entry is taken away and its flags are put aside; otherwise a resident page is mapped,
with the flags put aside or those it has. -/
def reprotected (newPerm : MapPermission) (r : AreaPage) (pte : Option Pte) : AreaPage × Option Pte :=
  match pte with
  | some pte =>
    if newPerm = .U then ({ r with saved := some pte.flags }, none)
    else ({ r with saved := none }, some (.new pte.ppn (pteFlagsForMprotect newPerm (some pte.flags))))
  | none =>
    if newPerm = .U then (r, none)
    else
      match r.frame with
      | none => (r, none)
      | some frame =>
        ({ r with saved := none }, some (.new frame (pteFlagsForMprotect newPerm r.saved)))

/-- A new permission leaves type and frame as they are. -/
theorem reprotected_fst {newPerm : MapPermission} {r : AreaPage} {pte : Option Pte} :
    (reprotected newPerm r pte).1.mapType = r.mapType ∧ (reprotected newPerm r pte).1.frame = r.frame := by
  unfold reprotected
  cases pte with
  | some => by_cases hU : newPerm = .U <;> simp [hU]
  | none =>
    by_cases hU : newPerm = .U
    · simp [hU]
    · cases hf : r.frame <;> simp [hU, hf]

/-- Changing the protection: only user pages change. -/
def mprotected (newPerm : MapPermission) (r : AreaPage) (pte : Option Pte) : PageView :=
  if r.mapPerm.u then
    ⟨some { (reprotected newPerm r pte).1 with mapPerm := newPerm }, (reprotected newPerm r pte).2⟩
  else ⟨some r, pte⟩

end PageView

/-- **The areas are in order.** Each is well formed, no page has two of them, and they are
sorted. -/
structure AreasValid (areas : List MapArea) : Prop where
  ok : ∀ area ∈ areas, area.Ok
  apart : areas.Pairwise areaItems.Apart
  sorted : areas.Pairwise (fun a b => a.start ≤ b.start)

namespace MemorySet

/-- What there is to see of the page `v`. -/
def pageView (s : MemorySet) (v : Nat) : PageView := ⟨areaItems.readAt s.areas v, s.pageTable v⟩

end MemorySet

/-! ### Lists of areas -/

variable {v start stop : Nat} {area : MapArea} {s : MemorySet}

section Areas

variable {areas areas' : List MapArea} {f : Nat → Option AreaPage}

theorem AreasValid.reads (h : AreasValid areas) :
    areaItems.Reads areas (areaItems.readAt areas) := ⟨h.ok, h.apart, fun _ => rfl⟩

theorem areasValid_nil : AreasValid [] := ⟨by simp, .nil, .nil⟩

/-- Sorting makes a list of areas with a reading a valid one with the same reading. -/
theorem sortUserAreas_valid (h : areaItems.Reads areas f) : AreasValid (sortUserAreas areas) ∧
      ∀ v, areaItems.readAt (sortUserAreas areas) v = f v := by
  have hperm : areas.Perm (sortUserAreas areas) := (perm_insertionSort _ areas).symm
  have hreads := h.perm hperm
  have hsorted : (sortUserAreas areas).Pairwise fun a b => a.start ≤ b.start := by
    exact pairwise_insertionSort _ areas
  exact ⟨⟨hreads.ok, hreads.apart, hsorted⟩, hreads.read⟩

end Areas

/-! ### Loops over the areas -/

section Rebuild

variable {F : AreaPage → Option Pte → PageView} {step body : PageTable → MapArea → PageTable × List MapArea}

/-- **A loop over the areas** passes over those that are not for user mode or do not meet the range.
Where its body changes the pages of `[start, stop)` of the others by `F`, the loop does so to all
pages. -/
theorem rebuild_cut {s : MemorySet} (hvalid : AreasValid s.areas)
    (hstep : ∀ pt area, step pt area = if !area.mapPerm.u ||
      !area.overlapsVpnRange start stop then (pt, [area])
      else body pt area) (hkeep : ∀ r pte, r.mapPerm.u = false → F r pte = ⟨some r, pte⟩)
    (hbody : ∀ pt area, area.Ok → area.mapPerm.u = true → area.overlapsVpnRange start stop = true →
      areaItems.Reads (body pt area).2 (fun x => if area.containsVpn x = true then
        if start ≤ x ∧ x < stop then (F (area.page x) (pt x)).area else some (area.page x) else none) ∧
      ∀ x, (body pt area).1 x = if area.containsVpn x = true ∧ start ≤ x ∧ x < stop
        then (F (area.page x) (pt x)).pte else pt x) :
    AreasValid (sortUserAreas (Items.rebuild step s.pageTable s.areas).2) ∧
      ∀ v, PageView.mk (areaItems.readAt (sortUserAreas (Items.rebuild step s.pageTable s.areas).2) v)
        ((Items.rebuild step s.pageTable s.areas).1 v) =
          if start ≤ v ∧ v < stop then (s.pageView v).update F else s.pageView v := by
  have hone pt area (hok : area.Ok) : areaItems.Reads (step pt area).2 (fun x =>
      if area.containsVpn x = true then if start ≤ x ∧ x < stop then (F (area.page x) (pt x)).area
        else some (area.page x) else none) ∧
      ∀ x, (step pt area).1 x = if area.containsVpn x = true ∧ start ≤ x ∧ x < stop
        then (F (area.page x) (pt x)).pte else pt x := by
    rw [hstep]
    split
    · next hskip =>
      -- an area that meets the range and is passed over is not for user mode
      have hsame x (hx : area.containsVpn x = true) (hin : start ≤ x ∧ x < stop) :
          F (area.page x) (pt x) = ⟨some (area.page x), pt x⟩ := by
        have hc := containsVpn_iff.mp hx
        have hov : area.overlapsVpnRange start stop = true := overlapsVpnRange_iff.mpr (by omega)
        exact hkeep _ _ (show area.mapPerm.u = false by simpa [hov] using hskip)
      refine ⟨(Items.Reads.singleton hok).congr fun x => ?_, fun x => ?_⟩
      · change (if area.containsVpn x = true then some (area.page x) else none) = _
        split
        · next hx =>
          split
          · next hin => rw [hsame x hx hin]
          · rfl
        · rfl
      · split
        · next h => rw [hsame x h.1 h.2]
        · rfl
    · next hskip =>
      obtain ⟨hu, hov⟩ : area.mapPerm.u = true ∧ area.overlapsVpnRange start stop = true := by
        simpa using hskip
      exact hbody pt area hok hu hov
  have hacts : areaItems.Acts step (fun x r pte =>
      if start ≤ x ∧ x < stop then ((F r pte).area, (F r pte).pte) else (some r, pte)) := by
    refine ⟨fun pt area hok => (hone pt area hok).1.congr fun x => ?_, fun pt area hok x => ?_⟩
    · rw [apply_ite Prod.fst]
      rfl
    · rw [(hone pt area hok).2, ite_and, apply_ite Prod.snd]
      rfl
  obtain ⟨hreads, hmap⟩ := hvalid.reads.rebuild hacts s.pageTable
  obtain ⟨hvalid', hread'⟩ := sortUserAreas_valid hreads
  refine ⟨hvalid', fun v => ?_⟩
  rw [hmap, hread']
  unfold pageView PageView.update
  cases areaItems.readAt s.areas v with
  | none => simp
  | some => split <;> rfl

end Rebuild

variable {x : Nat}

/-- Cutting an area around the pages of a range it overlaps, and replacing these. -/
theorem splitAround_cut (hok : area.Ok) (hlt : start < stop) (hov : area.overlapsVpnRange start stop = true)
    {mids : List MapArea} {g : Nat → Option AreaPage} (hmids : areaItems.Reads mids g)
    (hg : ∀ x, ¬ (max start area.start ≤ x ∧ x < min stop area.stop) → g x = none) :
    areaItems.Reads ((area.splitAround (max start area.start) (min stop area.stop)).1.toList ++ mids ++
        (area.splitAround (max start area.start) (min stop area.stop)).2.2.toList)
      (fun x => if area.containsVpn x = true then
        if start ≤ x ∧ x < stop then g x else some (area.page x) else none) := by
  obtain ⟨h1, h2⟩ := overlapsVpnRange_iff.mp hov
  have hne := hok.nonempty
  refine (splitAround_reads hok (by omega) (by omega) (by omega) hmids hg).congr fun x => ?_
  split
  · next hx =>
    have hin := containsVpn_iff.mp hx
    have hiff : max start area.start ≤ x ∧ x < min stop area.stop ↔ start ≤ x ∧ x < stop := by omega
    simp only [hiff]
  · rfl

theorem mem_cut_iff : max start area.start ≤ x ∧
    x < min stop area.stop ↔ area.containsVpn x = true ∧ start ≤ x ∧ x < stop := by
  rw [containsVpn_iff]
  omega

/-! ### Unmapping -/

section Unmap

variable {pt : PageTable}

theorem rebuild_unmapStep (hvalid : AreasValid s.areas) (hlt : start < stop) :
    AreasValid (sortUserAreas (Items.rebuild (unmapStep start stop) s.pageTable s.areas).2) ∧
      ∀ v, PageView.mk (areaItems.readAt
          (sortUserAreas (Items.rebuild (unmapStep start stop) s.pageTable s.areas).2) v)
        ((Items.rebuild (unmapStep start stop) s.pageTable s.areas).1 v) =
          if start ≤ v ∧ v < stop then (s.pageView v).update PageView.unmapped else s.pageView v := by
  refine rebuild_cut hvalid (fun _ _ => rfl) fun r pte hu => by simp [PageView.unmapped, hu]
    fun pt area hok hu hov => ?_
  obtain ⟨area', _, hrun, hok', hs', he', hpage, hpt⟩ := unmapRangeMaybe_spec hok
  dsimp only
  rw [hrun]
  have hcont x : area'.containsVpn x = area.containsVpn x := by simp only [containsVpn, hs', he']
  constructor
  · have hov' : area'.overlapsVpnRange start stop = true := by
      simpa only [overlapsVpnRange, hs', he'] using hov
    have hcut := splitAround_cut hok' hlt hov' Items.Reads.nil fun _ _ => rfl
    rw [hs', he', append_nil] at hcut
    refine hcut.congr fun x => ?_
    rw [hcont]
    split
    · split
      · simp [PageView.unmapped, page, hu]
      · rw [hpage, if_neg (by omega)]
    · rfl
  · intro x
    simp only [hpt, mem_cut_iff]
    split
    · simp [PageView.unmapped, page, hu]
    · rfl

/-- Unmapping pages touches no other page, in whatever area. -/
theorem unmapPages_pageTable {vpns : List Nat} (hv : v ∉ vpns) : (area.unmapPages pt vpns).2 v = pt v := by
  unfold unmapPages
  induction vpns generalizing area pt with
  | nil => rfl
  | cons vpn _ ih =>
    rw [foldl_cons, ih fun h => hv (mem_cons_of_mem vpn h)]
    have hne : v ≠ vpn := fun h => hv (h ▸ (.head _))
    change pt.unmapIfMapped vpn v = pt v
    rw [unmapIfMapped_apply, if_neg hne]

theorem rebuild_unmapStep_pageTable {areas : List MapArea} (hv : v < start ∨ stop ≤ v) :
    (Items.rebuild (unmapStep start stop) pt areas).1 v = pt v := by
  induction areas generalizing pt with
  | nil => rfl
  | cons area _ ih =>
    refine ih.trans ?_
    unfold unmapStep
    split
    · rfl
    · exact unmapPages_pageTable fun h => by have := mem_vpnRange.mp h; omega

/-- **Unmapping a range** leaves the page table alone outside it. Nothing is assumed about the
areas. -/
theorem unmapUserVmaRange_pageTable (hv : v < vpnFloor start ∨ vpnCeil stop ≤ v) :
    (s.unmapUserVmaRange start stop).pageTable v = s.pageTable v := by
  change (s.unmapUserRange start stop).pageTable v = _
  unfold unmapUserRange
  dsimp only
  split
  · rfl
  split
  · next area hfind =>
    obtain ⟨-, hs, he⟩ : area.mapPerm.u = true ∧ area.start = vpnFloor start ∧
        area.stop = vpnCeil stop := by simpa [hasExactVpnRange] using find?_some hfind
    refine unmapPages_pageTable fun h => ?_
    have := mem_vpnRange.mp h
    omega
  · exact rebuild_unmapStep_pageTable hv

/-- **Unmapping**, page by page. -/
theorem unmapUserRange_spec (hvalid : AreasValid s.areas) (start stop : Nat) :
    AreasValid (s.unmapUserRange start stop).areas ∧ ∀ v, (s.unmapUserRange start stop).pageView v =
        if vpnFloor start ≤ v ∧ v < vpnCeil stop then (s.pageView v).update PageView.unmapped
        else s.pageView v := by
  unfold unmapUserRange
  dsimp only
  split
  · exact ⟨hvalid, fun v => by rw [if_neg (by omega)]⟩
  next hlt =>
  split
  · -- one user area is the whole range: its pages have no other owner
    next area hfind =>
    obtain ⟨hexact, l₁, l₂, hl, hbefore⟩ := find?_eq_some_iff_append.mp hfind
    obtain ⟨hu, hs, he⟩ : area.mapPerm.u = true ∧ area.start = vpnFloor start ∧
        area.stop = vpnCeil stop := by simpa [hasExactVpnRange] using hexact
    have herase : s.areas.eraseP (fun area : MapArea => area.mapPerm.u &&
        area.hasExactVpnRange (vpnFloor start) (vpnCeil stop)) = l₁ ++ l₂ := by
      have hno b (hb : b ∈ l₁) :
        ¬ (b.mapPerm.u && b.hasExactVpnRange (vpnFloor start) (vpnCeil stop)) = true := by
        rw [Bool.not_eq_true, ← Bool.not_eq_true']
        exact hbefore b hb
      rw [hl, eraseP_append_right _ hno]
      exact congrArg (l₁ ++ ·) (eraseP_cons_of_pos (by exact hexact))
    have hmem : area ∈ s.areas := mem_of_find?_eq_some hfind
    have hperm : s.areas.Perm (area :: (l₁ ++ l₂)) := by
      rw [hl]
      exact perm_middle
    have hsub : (l₁ ++ l₂).Sublist s.areas := by
      rw [hl]
      exact (Sublist.refl l₁).append (sublist_cons_self area l₂)
    have hreads := hvalid.reads.erase hperm
    obtain ⟨_, _, hrun, -, -, -, -, hpt⟩ := unmapRangeMaybe_spec (hvalid.ok area hmem)
    rw [herase, unmap, hrun]
    refine ⟨⟨hreads.ok, hreads.apart, hvalid.sorted.sublist hsub⟩, fun v => ?_⟩
    have hown : areaItems.owns area v = true ↔ vpnFloor start ≤ v ∧ v < vpnCeil stop := by
      rw [← hs, ← he]
      exact containsVpn_iff
    unfold pageView
    dsimp only
    rw [hreads.read v, hpt, hs, he]
    by_cases hv : vpnFloor start ≤ v ∧ v < vpnCeil stop
    · rw [if_pos hv, if_pos (hown.mpr hv), if_pos hv, hvalid.reads.of_mem hmem (hown.mpr hv)]
      change _ = PageView.unmapped (area.page v) _
      simp [PageView.unmapped, page, hu]
    · rw [if_neg hv, if_neg fun h => hv (hown.mp h), if_neg hv]
  · exact rebuild_unmapStep hvalid (Nat.lt_of_not_le hlt)

end Unmap

/-! ### Changing the protection -/

section Mprotect

variable {newPerm : MapPermission}

/-- One page of the loop; the other pages and the bounds stay as they are. -/
theorem mprotectPage_changed (newPerm : MapPermission) (s : MapArea × PageTable) {vpn : Nat} :
    PagesChanged (PageView.reprotected newPerm) (· = vpn) s (mprotectPage newPerm s.1 s.2 vpn) := by
  obtain ⟨mid, pt⟩ := s
  unfold mprotectPage
  dsimp only
  cases hpte : pt vpn with
  | some pte =>
    dsimp only
    split
    all_goals
      next hU =>
      refine ⟨rfl, rfl, fun x => ?_⟩
      by_cases hx : x = vpn
      · subst hx
        simp [PageView.reprotected, page, savePteFlags, dropSavedPteFlags, unmapIfMapped_apply, setFlags_apply,
          get?_erase, hpte, hU]
      · simp [page, savePteFlags, dropSavedPteFlags, unmapIfMapped_apply, setFlags_apply, get?_insert,
          get?_erase, hx]
  | none =>
    -- a page without a frame is left alone
    have hkeep (h : PageView.reprotected newPerm (mid.page vpn) none = (mid.page vpn, none)) :
        PagesChanged (PageView.reprotected newPerm) (· = vpn) (mid, pt) (mid, pt) := by
      refine ⟨rfl, rfl, fun x => ?_⟩
      dsimp only
      split
      · next hx => rw [hx, hpte, h]
      · rfl
    dsimp only
    split
    · next hU => exact hkeep (if_pos hU)
    next hU =>
    cases hframe : mid.dataFrames.get? vpn with
    | none => exact hkeep (by simp [PageView.reprotected, page, hframe])
    | some =>
      refine ⟨rfl, rfl, fun x => ?_⟩
      by_cases hx : x = vpn
      · subst hx
        simp [PageView.reprotected, page, dropSavedPteFlags, put_apply, get?_erase, hpte, hframe, hU]
      · simp [page, dropSavedPteFlags, put_apply, get?_erase, hx]

/-- The loop over the pages of an area that has been cut out. -/
theorem mprotectPages_spec {mid : MapArea} (hok : mid.Ok) {pt : PageTable} :
    ∃ mid' pt', (vpnRange mid.start mid.stop).foldl
        (fun s vpn => mprotectPage newPerm s.1 s.2 vpn) (mid, pt) = (mid', pt') ∧
      ({ mid' with mapPerm := newPerm } : MapArea).Ok ∧ mid'.start = mid.start ∧
      mid'.stop = mid.stop ∧
      (∀ x, mid.start ≤ x → x < mid.stop → ({ mid' with mapPerm := newPerm } : MapArea).page x =
        { (PageView.reprotected newPerm (mid.page x) (pt x)).1 with mapPerm := newPerm }) ∧
      ∀ x, pt' x = if mid.start ≤ x ∧ x < mid.stop
        then (PageView.reprotected newPerm (mid.page x) (pt x)).2 else pt x := by
  generalize hrun : (vpnRange mid.start mid.stop).foldl
    (fun s vpn => mprotectPage newPerm s.1 s.2 vpn) (mid, pt) = res
  have hchanged := PagesChanged.foldl (mprotectPage_changed newPerm)
    (@nodup_vpnRange mid.start mid.stop) (mid, pt)
  rw [hrun] at hchanged
  obtain ⟨mid', pt'⟩ := res
  have hs : mid'.start = mid.start := hchanged.start
  have he : mid'.stop = mid.stop := hchanged.stop
  obtain ⟨hpage, hpt⟩ := forall_and.mp hchanged.page
  simp only [mem_vpnRange] at hpage hpt
  have hcont x : ({ mid' with mapPerm := newPerm } : MapArea).containsVpn x = mid.containsVpn x := by
    simp only [containsVpn, hs, he]
  obtain ⟨hlt, hkept⟩ := ok_iff_page.mp hok
  refine ⟨mid', pt', rfl, ok_iff_page.mpr ⟨hs ▸ he ▸ hlt, fun x => ?_⟩, hs, he, fun x h1 h2 => ?_, hpt⟩
  · change (_ → (mid'.page x).frame = none ∧ (mid'.page x).saved = none) ∧ ((mid'.page x).mapType = _ →
      (mid'.page x).frame = none)
    rw [hcont, hpage]
    split
    · -- flags are put aside for pages of the area only
      next hin =>
      obtain ⟨htype, hframe⟩ := PageView.reprotected_fst
      rw [htype, hframe]
      exact ⟨absurd (containsVpn_iff.mpr hin), (hkept x).2⟩
    · exact hkept x
  · have := hpage x
    rw [if_pos ⟨h1, h2⟩] at this
    rw [← this]
    rfl

/-- **Changing the protection**, page by page. -/
theorem mprotectUserRange_spec (hvalid : AreasValid s.areas) (hlt : vpnFloor start < vpnCeil stop) :
    AreasValid (s.mprotectUserRange start stop newPerm).areas ∧
      ∀ v, (s.mprotectUserRange start stop newPerm).pageView v = if vpnFloor start ≤ v ∧ v < vpnCeil stop
        then (s.pageView v).update (PageView.mprotected newPerm) else s.pageView v := by
  refine rebuild_cut hvalid (fun _ _ => rfl) fun r pte hu => by simp [PageView.mprotected, hu]
    fun pt area hok hu hov => ?_
  generalize vpnFloor start = start, vpnCeil stop = stop at hlt hov
  obtain ⟨h1, h2⟩ := overlapsVpnRange_iff.mp hov
  have hne := hok.nonempty
  obtain ⟨hmok, hms, hme, hmpage⟩ := descriptorWithState_spec hok (fun x _ _ => by simp) (by omega)
    (by omega) (by omega)
    (rfl : (area.splitAround (max start area.start) (min stop area.stop)).2.1 = _)
  obtain ⟨_, _, hrun, hok', hs', he', hpage, hpt⟩ := mprotectPages_spec hmok
  rw [hms, hme] at hrun hpage hpt
  dsimp only
  rw [hrun]
  have hmprot x : PageView.mprotected newPerm (area.page x) (pt x) =
      ⟨some { (PageView.reprotected newPerm (area.page x) (pt x)).1 with mapPerm :=
      newPerm }, (PageView.reprotected newPerm (area.page x) (pt x)).2⟩ := if_pos hu
  constructor
  · have hmids := reads_singleton hok'
    refine (splitAround_cut hok hlt hov hmids fun x hx => ?_).congr fun x => ?_
    · exact if_neg (by dsimp only; rw [hs', he']; exact hx)
    split
    · next hx =>
      have hin := containsVpn_iff.mp hx
      split
      · rw [pagesIn, if_pos (by dsimp only; rw [he']; omega),
          hpage x (by omega) (by omega), hmpage x (by omega) (by omega), hmprot]
      · rfl
    · rfl
  · intro x
    dsimp only
    rw [hpt]
    simp only [mem_cut_iff]
    split
    · next hx =>
      have := mem_cut_iff.mpr hx
      rw [hmpage x this.1 this.2, hmprot]
    · rfl

end Mprotect

end HitOS
