import HitOS.Mm.PageOps

/-!
# Inserting areas, page by page

The raw insertions of `memory_set.rs` put one area into the set: the pages it covers had no area
before, and get the view of a new page (`Inserted`). `insertAreas_spec` says what a whole list of
areas does: every area of the list is inserted, or all before the first that fails.

* `tryInsertLazyAreaRaw_spec`, `tryInsertFramedAreaRaw_spec`, `tryInsertSharedFramesAreaRaw_spec` —
  one area of each kind;
* `InsertedArea.pageView` — the pages after the insertion of one area.
-/

namespace HitOS

open List MapArea MemorySet Nat VmaInsertArea OrdMap

section Insert

variable {s : MemorySet} {start stop : Nat} {perm : MapPermission} {frames shared : List Nat}
  {v : Nat} {area : VmaInsertArea} {region : VmRegion} {t : MemorySet}

theorem vpnFloor_lt_vpnCeil (h : start < stop) : vpnFloor start < vpnCeil stop := by
  unfold vpnFloor vpnCeil pageSize
  omega

/-- The first element that satisfies `p` is changed, and no other. -/
theorem modifyFirst_eq {α : Type} {p : α → Bool} {f : α → α} {l : List α} (h : l.any p = true) :
    ∃ l₁ a l₂, l = l₁ ++ a :: l₂ ∧ p a = true ∧ modifyFirst p f l = l₁ ++ f a :: l₂ := by
  induction l with
  | nil => cases h
  | cons b l ih =>
    by_cases hb : p b = true
    · exact ⟨[], b, l, rfl, hb, by rw [modifyFirst, if_pos hb]; rfl⟩
    obtain ⟨l₁, a, l₂, hl, ha, hmod⟩ := ih (by simpa [hb] using h)
    refine ⟨b :: l₁, a, l₂, by rw [hl]; rfl, ha, ?_⟩
    rw [modifyFirst, if_neg hb, hmod]
    rfl

/-- No page of the range has an area. -/
def MemorySet.FreePages (s : MemorySet) (start stop : Nat) : Prop :=
  ∀ v, vpnFloor start ≤ v → v < vpnCeil stop → (s.pageView v).area = none

theorem freePages_of_not_overlaps (h : s.concreteRangeOverlaps start stop = false) :
    s.FreePages start stop := by
  intro v h1 h2
  refine Items.readAt_eq_none_iff.mpr fun area harea => ?_
  unfold concreteRangeOverlaps at h
  rw [Bool.or_eq_false_iff, any_eq_false] at h
  have hno := h.1 area harea
  rw [Bool.eq_false_iff]
  intro hx
  have hin := containsVpn_iff.mp hx
  exact hno (overlapsVpnRange_iff.mpr (by omega))

/-- Only pages of areas are mapped. -/
def MemorySet.OnlyAreaPages (s : MemorySet) : Prop :=
  ∀ v, (s.pageView v).area = none → (s.pageView v).pte = none

/-- **Insertion**: the pages of `[start, stop)`, which had no area, get the given views, and nothing
else changes. -/
structure Inserted (s t : MemorySet) (start stop : Nat) (view : Nat → PageView) : Prop where
  /-- Only areas and page table change. -/
  others : t = { s with areas := t.areas, pageTable := t.pageTable }
  valid : AreasValid t.areas
  free : ∀ v, vpnFloor start ≤ v → v < vpnCeil stop → (s.pageView v).area = none
  views : ∀ v, t.pageView v = if vpnFloor start ≤ v ∧ v < vpnCeil stop then view v else s.pageView v

/-- One more area beside the others. -/
theorem Inserted.push (pt : PageTable) {area : MapArea} {view : Nat → PageView} (hvalid : AreasValid s.areas)
    (hok : area.Ok) (hstart : area.start = vpnFloor start) (hstop : area.stop = vpnCeil stop)
    (hfree : s.FreePages start stop)
    (hin : ∀ v, vpnFloor start ≤ v → v < vpnCeil stop → view v = ⟨some (area.page v), pt v⟩)
    (hout : ∀ v, ¬ (vpnFloor start ≤ v ∧ v < vpnCeil stop) → pt v = s.pageTable v) :
    Inserted s { s with pageTable := pt, areas := sortUserAreas (s.areas ++ [area]) } start stop view := by
  have hcont v : areaItems.owns area v = true ↔ vpnFloor start ≤ v ∧ v < vpnCeil stop := by
    rw [← hstart, ← hstop]
    exact containsVpn_iff
  have hreads := hvalid.reads.append (Items.Reads.singleton hok) fun v => ?_
  · obtain ⟨hvalid', hread'⟩ := sortUserAreas_valid hreads
    refine ⟨rfl, hvalid', hfree, fun v => ?_⟩
    unfold pageView
    dsimp only
    rw [hread']
    by_cases hv : vpnFloor start ≤ v ∧ v < vpnCeil stop
    · have hnone : areaItems.readAt s.areas v = none := hfree v hv.1 hv.2
      rw [if_pos hv, hin v hv.1 hv.2, hnone, if_pos ((hcont v).mpr hv)]
      rfl
    · rw [if_neg hv, if_neg (mt (hcont v).mp hv), Option.or_none, hout v hv]
  · by_cases hv : areaItems.owns area v = true
    · exact .inl (hfree v ((hcont v).mp hv).1 ((hcont v).mp hv).2)
    · exact .inr (if_neg hv)

/-- A page of a new lazy area. -/
def PageView.newLazy (perm : MapPermission) : PageView := ⟨some ⟨.lazy, perm, none, none⟩, none⟩

/-- A page of a new framed area. -/
def PageView.newFramed (perm : MapPermission) (flags : PTEFlags) (frame : Option Nat) : PageView :=
  ⟨some ⟨.framed, perm, frame, none⟩, frame.map (fun frame => .new frame flags)⟩

/-- A lazy area next to the range takes it in. -/
theorem extend_spec {area : MapArea} {l₁ l₂ : List MapArea} {a b : Nat} (hvalid : AreasValid s.areas)
    (hl : s.areas = l₁ ++ area :: l₂) (hlazy : area.mapType = .lazy) (hlt : vpnFloor start < vpnCeil stop)
    (hown : ∀ v, a ≤ v ∧ v < b ↔ (area.start ≤ v ∧ v < area.stop) ∨ (vpnFloor start ≤ v ∧ v < vpnCeil stop))
    (hfree : s.FreePages start stop) (honly : s.OnlyAreaPages) :
    Inserted s { s with areas := sortUserAreas (l₁ ++ { area with start := a, stop := b } :: l₂) } start stop
      (fun _ => .newLazy area.mapPerm) := by
  have hmem : area ∈ s.areas := by rw [hl]; exact mem_append_right _ (.head _)
  have hok := hvalid.ok area hmem
  have hcont v : containsVpn { area with start := a, stop := b } v = true ↔ area.containsVpn v = true ∨
      (vpnFloor start ≤ v ∧ v < vpnCeil stop) := by
    rw [containsVpn_iff, containsVpn_iff]
    exact hown v
  have hok' : Ok { area with start := a, stop := b } := by
    refine ⟨?_, fun v frame hv => ?_, fun v flags hv => ?_, fun hid => ?_⟩
    · have := (hown (vpnFloor start)).mpr (.inr ⟨le_rfl, hlt⟩)
      exact this.1.trans_lt this.2
    · exact (hcont v).mpr (.inl (hok.tracked v frame hv))
    · exact (hcont v).mpr (.inl (hok.saved v flags hv))
    · cases hlazy.symm.trans (isIdentical_iff.mp hid)
  have hreads := hvalid.reads
  rw [hl] at hreads
  obtain ⟨hvalid', hread'⟩ := sortUserAreas_valid (hreads.replace hok' (fun v hv => by
    rcases (hcont v).mp hv with h | h
    · exact .inl h
    · have := hfree v h.1 h.2
      rw [pageView, hl] at this
      exact .inr this))
  refine ⟨rfl, hvalid', hfree, fun v => ?_⟩
  have hview : (pageView
    { s with areas := sortUserAreas (l₁ ++ { area with start := a, stop := b } :: l₂) } v) =
      ⟨if containsVpn { area with start := a, stop := b } v = true then some (area.page v)
        else if area.containsVpn v = true then none else (s.pageView v).area, s.pageTable v⟩ := by
    unfold pageView
    rw [hread', hl]
    rfl
  rw [hview]
  by_cases hv : vpnFloor start ≤ v ∧ v < vpnCeil stop
  · have hnone := hfree v hv.1 hv.2
    -- a new page is not one of the old area
    have hnot : area.containsVpn v ≠ true := by
      intro hin
      rw [pageView, hvalid.reads.of_mem hmem hin] at hnone
      cases hnone
    have hpt : s.pageTable v = none := honly v hnone
    rw [if_pos hv, if_pos ((hcont v).mpr (.inr hv)), hok.page_of_not hnot, hlazy, hpt]
    rfl
  · rw [if_neg hv]
    by_cases hin : area.containsVpn v = true
    · rw [if_pos ((hcont v).mpr (.inl hin)), pageView, hvalid.reads.of_mem hmem hin]
      rfl
    · rw [if_neg fun h => ((hcont v).mp h).elim hin hv, if_neg hin]
      rfl

/-- What `try_push_raw` finds free before it maps an area. -/
theorem freePages_of_push (h : s.concreteRangeOverlaps (vpnFloor start * pageSize)
    (vpnCeil stop * pageSize) = false) : s.FreePages start stop := by
  intro v h1 h2
  refine freePages_of_not_overlaps h v ?_ ?_
  · unfold vpnFloor pageSize at *
    omega
  · unfold vpnCeil pageSize at *
    omega

theorem mem_zip_vpnRange {a b f : Nat} :
    (v, f) ∈ (vpnRange a b).zip shared ↔ a ≤ v ∧ v < b ∧ shared[v - a]? = some f := by
  rw [mem_iff_getElem?]
  unfold vpnRange
  constructor
  · rintro ⟨i, hi⟩
    obtain ⟨h1, h2⟩ := getElem?_zip_eq_some.mp hi
    obtain ⟨hlt, heq⟩ := List.getElem?_eq_some_iff.mp h1
    rw [length_range'] at hlt
    rw [getElem_range'] at heq
    refine ⟨by omega, by omega, ?_⟩
    rwa [show v - a = i by omega]
  · rintro ⟨h1, h2, h3⟩
    refine ⟨v - a, getElem?_zip_eq_some.mpr ⟨?_, h3⟩⟩
    rw [getElem?_range' (by omega)]
    congr 1
    omega

/-- Tracking a list of frames, one for each of distinct pages. -/
theorem foldl_insertTrackedFrame (area : MapArea) {pages : List (Nat × Nat)}
    (hnodup : (pages.map Prod.fst).Nodup) :
    ∃ frames, pages.foldl (fun area e => area.insertTrackedFrame e.1 e.2) area =
      { area with dataFrames := frames } ∧
      (∀ e ∈ pages, frames.get? e.1 = some e.2) ∧
      ∀ v, v ∉ pages.map Prod.fst → frames.get? v = area.dataFrames.get? v := by
  induction pages generalizing area with
  | nil => exact ⟨area.dataFrames, rfl, by simp, fun _ _ => rfl⟩
  | cons e _ ih =>
    obtain ⟨he, hnodup'⟩ := nodup_cons.mp hnodup
    obtain ⟨frames, hrun, hin, hout⟩ := ih (area.insertTrackedFrame e.1 e.2) hnodup'
    refine ⟨frames, hrun, fun e' he' => ?_, fun v hv => ?_⟩
    · rcases mem_cons.mp he' with rfl | he'
      · rw [hout _ he]
        change (area.dataFrames.insert e'.1 e'.2).get? e'.1 = _
        rw [get?_insert, if_pos rfl]
      · exact hin e' he'
    · rw [map_cons, mem_cons, not_or] at hv
      rw [hout v hv.2]
      change (area.dataFrames.insert e.1 e.2).get? v = _
      rw [get?_insert, if_neg hv.1]

/-- The loop over the frames of a shared area, with the area and the page table it leaves. -/
theorem mapShared_spec (pt : PageTable) {a b : Nat} (hlt : a < b) (hlen : shared.length = b - a)
    (hfree : ∀ v, a ≤ v → v < b → pt v = none) {flags : PTEFlags} :
    ∃ area' pt', pt.mapAll (((vpnRange a b).zip shared).map (fun e => (e.1, e.2, flags))) = some pt' ∧
      ((vpnRange a b).zip shared).foldl (fun area e => area.insertTrackedFrame e.1 e.2)
        (new a b .framed perm) = area' ∧
      area'.Ok ∧ area'.start = a ∧ area'.stop = b ∧
      (∀ v, a ≤ v → v < b → area'.page v = ⟨.framed, perm, shared[v - a]?, none⟩) ∧
      ∀ v, pt' v = if a ≤ v ∧ v < b then shared[v - a]?.map fun frame => Pte.new frame flags else pt v := by
  have hfst : ((vpnRange a b).zip shared).map Prod.fst = vpnRange a b :=
    map_fst_zip (by rw [vpnRange, length_range']; omega)
  have hnodup : (((vpnRange a b).zip shared).map Prod.fst).Nodup := by
    rw [hfst]
    exact nodup_vpnRange
  obtain ⟨pt', hmap, hin, hout⟩ := PageTable.mapAll_spec pt
    (((vpnRange a b).zip shared).map fun e => (e.1, e.2, flags)) (by rw [map_map]; exact hnodup)
    fun e he => by
      obtain ⟨_, he', rfl⟩ := mem_map.mp he
      obtain ⟨h1, h2, -⟩ := mem_zip_vpnRange.mp he'
      exact hfree _ h1 h2
  obtain ⟨fr, hfold, hfin, hfout⟩ := foldl_insertTrackedFrame (.new a b .framed perm) hnodup
  -- there is a frame for every page
  have hframe v (h1 : a ≤ v) (h2 : v < b) : ∃ frame, shared[v - a]? = some frame ∧
      (v, frame) ∈ (vpnRange a b).zip shared := ⟨_, getElem?_eq_getElem (by omega),
      mem_zip_vpnRange.mpr ⟨h1, h2, getElem?_eq_getElem (by omega)⟩⟩
  refine ⟨_, pt', hmap, hfold, ⟨hlt, fun v frame hv => containsVpn_iff.mpr ?_, by simp [new],
    fun hid => nomatch isIdentical_iff.mp hid⟩, rfl, rfl, fun v h1 h2 => ?_, fun v => ?_⟩
  · by_contra hno
    cases hv.symm.trans ((hfout v (by rw [hfst, mem_vpnRange]; exact hno)).trans (get?_empty))
  · obtain ⟨frame, hget, hmem⟩ := hframe v h1 h2
    rw [hget, page, hfin _ hmem]
    rfl
  · split
    · next hv =>
      obtain ⟨frame, hget, hmem⟩ := hframe v hv.1 hv.2
      rw [hget]
      exact hin _ (mem_map_of_mem hmem)
    · next hv =>
      refine hout v fun hmem => hv ?_
      rw [map_map] at hmem
      exact mem_vpnRange.mp (hfst ▸ hmem)

section

variable (hvalid : AreasValid s.areas) (honly : s.OnlyAreaPages) (hlt : start < stop)

include hvalid honly hlt

theorem tryPushRaw_lazy_spec :
    s.tryPushRaw (.new (vpnFloor start) (vpnCeil stop) .lazy perm) frames = some (s, frames, false) ∨
      ∃ t, s.tryPushRaw (.new (vpnFloor start) (vpnCeil stop) .lazy perm) frames =
          some (t, frames, true) ∧ Inserted s t start stop (fun _ => .newLazy perm) := by
  have hpages := vpnFloor_lt_vpnCeil hlt
  unfold tryPushRaw
  split
  · exact .inl rfl
  next hno =>
  have hfree := freePages_of_push ((Bool.not_eq_true _).mp hno)
  refine .inr ⟨_, rfl, .push s.pageTable hvalid (new_ok hpages) rfl rfl hfree (fun v h1 h2 => ?_)
    fun _ _ => rfl⟩
  have hpt : s.pageTable v = none := honly v (hfree v h1 h2)
  rw [hpt]
  rfl

/-- **Inserting a framed area.** Every page gets the next frame, or the frames do not suffice and
nothing changes. -/
theorem tryInsertFramedAreaRaw_spec :
    (∃ frames', s.tryInsertFramedAreaRaw start stop perm frames = some (s, frames', false)) ∨
      ∃ t, s.tryInsertFramedAreaRaw start stop perm frames =
          some (t, frames.drop (vpnCeil stop - vpnFloor start), true) ∧
        vpnCeil stop - vpnFloor start ≤ frames.length ∧
        Inserted s t start stop
          (fun v => .newFramed perm (.ofPermission perm) frames[v - vpnFloor start]?) := by
  have hpages := vpnFloor_lt_vpnCeil hlt
  unfold tryInsertFramedAreaRaw tryPushRaw
  split
  · exact .inl ⟨_, rfl⟩
  next hno =>
  have hfree := freePages_of_push ((Bool.not_eq_true _).mp hno)
  have hunmapped v (h1 : vpnFloor start ≤ v) (h2 : v < vpnCeil stop) : s.pageTable v = none :=
    honly v (hfree v h1 h2)
  rcases @map_new_framed _ _ _ frames perm hpages hunmapped with
    ⟨hlen, area', pt', hmap, hok', hs', he', hpage, hpt⟩ | ⟨-, area', frames', hmap⟩
  · refine .inr ⟨_, by rw [hmap], hlen, .push pt' hvalid hok' hs' he' hfree (fun v h1 h2 => ?_) fun v hv => ?_⟩
    · rw [hpage v h1 h2, hpt, if_pos ⟨h1, h2⟩]
      rfl
    · rw [hpt, if_neg hv]
  · exact .inl ⟨frames', by rw [hmap]⟩

theorem tryInsertLazyAreaRaw_spec :
    s.tryInsertLazyAreaRaw start stop perm frames = some (s, frames, false) ∨
      ∃ t, s.tryInsertLazyAreaRaw start stop perm frames = some (t, frames, true) ∧
        Inserted s t start stop (fun _ => .newLazy perm) := by
  have hpages := vpnFloor_lt_vpnCeil hlt
  unfold tryInsertLazyAreaRaw
  rw [if_neg hpages.not_ge]
  split
  · exact .inl rfl
  next hno =>
  have hfree : s.FreePages start stop := freePages_of_not_overlaps (by simpa using hno)
  split
  swap
  split
  swap
  · exact tryPushRaw_lazy_spec hvalid honly hlt
  -- the area below or above grows by the range
  all_goals
    next hany =>
    obtain ⟨_, area, _, hl, ha, hmod⟩ := modifyFirst_eq hany
    simp only [Bool.and_eq_true, beq_iff_eq] at ha
    obtain ⟨⟨hlazy, hp⟩, hend⟩ := ha
    refine .inr ⟨_, by rw [hmod], ?_⟩
    subst hp
    have hne := (hvalid.ok area (by rw [hl]; simp)).nonempty
    exact extend_spec hvalid hl (isLazy_iff.mp hlazy) hpages fun v => by omega hfree honly

theorem tryInsertSharedFramesAreaRaw_spec :
    s.tryInsertSharedFramesAreaRaw start stop perm shared = some (s, false) ∨
      ∃ t, s.tryInsertSharedFramesAreaRaw start stop perm shared = some (t, true) ∧
        shared.length = vpnCeil stop - vpnFloor start ∧
        Inserted s t start stop (fun v =>
          .newFramed perm { PTEFlags.ofPermission perm with shared := true }
            shared[v - vpnFloor start]?) := by
  have hpages := vpnFloor_lt_vpnCeil hlt
  unfold tryInsertSharedFramesAreaRaw
  rw [if_neg (by change ¬ (vpnCeil stop - vpnFloor start = 0); omega)]
  split
  · exact .inl rfl
  next hno =>
  obtain ⟨hlen, hno⟩ : shared.length = vpnCeil stop - vpnFloor start ∧
      s.concreteRangeOverlaps start stop = false := by
    rwa [Bool.or_eq_true, not_or, decide_eq_true_eq, not_not, Bool.not_eq_true] at hno
  split
  · exact .inl rfl
  have hfree := freePages_of_not_overlaps hno
  obtain ⟨area', pt', hmap, hfold, hok', hs', he', hpage, hpt⟩ := mapShared_spec s.pageTable hpages hlen
    (fun v h1 h2 => honly v (hfree v h1 h2))
  refine .inr ⟨_, ?_, hlen, .push pt' hvalid hok' hs' he' hfree (fun v h1 h2 => ?_) fun v hv => ?_⟩
  · dsimp only
    split
    · next hnone => cases hmap.symm.trans hnone
    · next hsome =>
      cases hmap.symm.trans hsome
      rw [← hfold]
      rfl
  · rw [hpage v h1 h2, hpt, if_pos ⟨h1, h2⟩]
    rfl
  · rw [hpt, if_neg hv]

end

/-- A page of an area that has just been inserted with the permission `perm`, where `frames` were
the frames to be had. -/
inductive NewPage (perm : MapPermission) (frames : List Nat) : VmaInsertArea → Nat → PageView → Prop
  | lazy {a b v : Nat} : NewPage perm frames (.lazy a b) v (.newLazy perm)
  | framed {a b v frame : Nat} (h : frames[v - vpnFloor a]? = some frame) :
    NewPage perm frames (.framed a b) v (.newFramed perm (.ofPermission perm) (some frame))
  | shared {a b v frame : Nat} {l : List Nat} (h : l[v - vpnFloor a]? = some frame) :
    NewPage perm frames (.sharedFrames a b l) v
      (.newFramed perm { PTEFlags.ofPermission perm with shared := true } (some frame))

/-- How many frames an area takes. -/
def VmaInsertArea.taken : VmaInsertArea → Nat
  | .framed start stop => if stop ≤ start then 0 else vpnCeil stop - vpnFloor start
  | _ => 0

/-- **One area is inserted**, with the permission it has in the region: it may be empty, and
otherwise lies in `[start, stop)` and its pages are new. -/
structure InsertedArea (region : VmRegion) (start stop : Nat) (area : VmaInsertArea)
    (frames : List Nat) (s t : MemorySet) : Prop where
  compatible : area.compatibleWithRegion region = true
  taken : area.taken ≤ frames.length
  empty : area.stop ≤ area.start → t = s
  inserted : area.start < area.stop → start ≤ area.start ∧ area.stop ≤ stop ∧
    ∃ perm view, area.concretePermissionFromRegion region = some perm ∧
      Inserted s t area.start area.stop view ∧
      ∀ v, vpnFloor area.start ≤ v → v < vpnCeil area.stop → NewPage perm frames area v (view v)

/-- **Inserting one area** either changes nothing and fails, or inserts it. -/
theorem tryInsertVmaAreaRawInRegion_spec (hvalid : AreasValid s.areas) (honly : s.OnlyAreaPages) :
    (∃ frames', s.tryInsertVmaAreaRawInRegion area region start stop frames = some (s, frames', false)) ∨
    ∃ t, s.tryInsertVmaAreaRawInRegion area region start stop frames = some (t, frames.drop area.taken, true) ∧
      InsertedArea region start stop area frames s t := by
  unfold tryInsertVmaAreaRawInRegion
  cases hperm : area.concretePermissionFromRegion region with
  | none => exact .inl ⟨frames, rfl⟩
  | some perm =>
  have hcomp : area.compatibleWithRegion region = true := by
    unfold concretePermissionFromRegion at hperm
    split at hperm
    · next h => exact h
    · cases hperm
  cases area with
  | lazy a b =>
    dsimp only
    split
    · next hba =>
      exact .inr ⟨s, rfl, hcomp, zero_le _, fun _ => rfl, fun h => absurd hba h.not_ge⟩
    next hba =>
    split
    · exact .inl ⟨frames, rfl⟩
    next hin =>
    obtain ⟨hsa, hbs⟩ : start ≤ a ∧ b ≤ stop := by simpa using hin
    rcases @tryInsertLazyAreaRaw_spec _ _ _ perm frames hvalid honly (Nat.lt_of_not_le hba) with
      hfail | ⟨t, hrun, hins⟩
    · exact .inl ⟨frames, hfail⟩
    · exact .inr ⟨t, hrun, hcomp, zero_le _, fun h => absurd h hba,
        fun _ => ⟨hsa, hbs, perm, _, hperm, hins, fun v _ _ => .lazy⟩⟩
  | framed a b =>
    dsimp only
    split
    · next hba =>
      refine .inr ⟨s, ?_, hcomp, ?_, fun _ => rfl, fun h => absurd hba h.not_ge⟩
      · rw [taken, if_pos hba]
        rfl
      · rw [taken, if_pos hba]
        exact zero_le _
    next hba =>
    split
    · exact .inl ⟨frames, rfl⟩
    next hin =>
    obtain ⟨hsa, hbs⟩ : start ≤ a ∧ b ≤ stop := by simpa using hin
    have htaken : (framed a b).taken = vpnCeil b - vpnFloor a := if_neg hba
    rcases @tryInsertFramedAreaRaw_spec _ _ _ perm frames hvalid honly (Nat.lt_of_not_le hba) with
      ⟨frames', hfail⟩ | ⟨t, hrun, hlen, hins⟩
    · exact .inl ⟨frames', hfail⟩
    refine .inr ⟨t, htaken ▸ hrun, hcomp, htaken ▸ hlen, fun h => absurd h hba,
      fun _ => ⟨hsa, hbs, perm, _, hperm, hins, fun v h1 h2 => ?_⟩⟩
    change v < vpnCeil b at h2
    have hframe : frames[v - vpnFloor a]? = some _ := getElem?_eq_getElem (by
      change vpnFloor a ≤ v at h1
      omega)
    rw [hframe]
    exact .framed hframe
  | sharedFrames a b l =>
    dsimp only
    split
    · next hba =>
      cases l with
      | nil =>
        exact .inr ⟨s, rfl, hcomp, zero_le _, fun _ => rfl, fun h => absurd hba h.not_ge⟩
      | cons => exact .inl ⟨frames, rfl⟩
    next hba =>
    split
    · exact .inl ⟨frames, rfl⟩
    next hin =>
    obtain ⟨hsa, hbs⟩ : start ≤ a ∧ b ≤ stop := by simpa using hin
    rcases @tryInsertSharedFramesAreaRaw_spec _ _ _ perm l hvalid honly (Nat.lt_of_not_le hba) with
      hfail | ⟨t, hrun, hlen, hins⟩
    · exact .inl ⟨frames, by rw [hfail]; rfl⟩
    refine .inr ⟨t, by rw [hrun]; rfl, hcomp, zero_le _, fun h => absurd h hba,
      fun _ => ⟨hsa, hbs, perm, _, hperm, hins, fun v h1 h2 => ?_⟩⟩
    change v < vpnCeil b at h2
    have hframe : l[v - vpnFloor a]? = some _ := getElem?_eq_getElem (by
      change vpnFloor a ≤ v at h1
      omega)
    rw [hframe]
    exact .shared hframe

theorem NewPage.isSome {view : PageView} (h : NewPage perm frames area v view) : ∃ r, view.area = some r := by
  cases h with
  | lazy | framed | shared => exact ⟨_, rfl⟩

/-- The pages after the insertion of one area: the old ones, and the new ones, which had no area. -/
theorem InsertedArea.pageView (h : InsertedArea region start stop area frames s t) (v : Nat) :
    t.pageView v = s.pageView v ∧ ¬ (area.start < area.stop ∧ vpnFloor area.start ≤ v ∧ v <
      vpnCeil area.stop) ∨
      (s.pageView v).area = none ∧ (area.start < area.stop ∧ vpnFloor area.start ≤ v ∧ v < vpnCeil area.stop) ∧
        ∃ perm, area.concretePermissionFromRegion region = some perm ∧ NewPage perm frames area v
          (t.pageView v) := by
  by_cases hlt : area.start < area.stop
  · obtain ⟨-, -, perm, _, hperm, hins, hnew⟩ := h.inserted hlt
    by_cases hv : vpnFloor area.start ≤ v ∧ v < vpnCeil area.stop
    · refine .inr ⟨hins.free v hv.1 hv.2, ⟨hlt, hv⟩, perm, hperm, ?_⟩
      rw [hins.views, if_pos hv]
      exact hnew v hv.1 hv.2
    · refine .inl ⟨?_, fun h => hv h.2⟩
      rw [hins.views, if_neg hv]
  · exact .inl ⟨by rw [h.empty (Nat.le_of_not_lt hlt)], fun h => hlt h.1⟩

theorem InsertedArea.onlyAreaPages (h : InsertedArea region start stop area frames s t)
    (honly : s.OnlyAreaPages) :
    t.OnlyAreaPages := by
  intro v hv
  rcases h.pageView v with ⟨heq, -⟩ | ⟨-, -, perm, -, hnew⟩
  · rw [heq] at hv ⊢
    exact honly v hv
  · obtain ⟨r, hr⟩ := hnew.isSome
    rw [hr] at hv
    cases hv

inductive InsertedAreas (region : VmRegion) (start stop : Nat) :
    List VmaInsertArea → List Nat → MemorySet → MemorySet → Prop
  | nil {frames : List Nat} {s : MemorySet} : InsertedAreas region start stop [] frames s s
  | cons {area : VmaInsertArea} {areas : List VmaInsertArea} {frames : List Nat}
      {s u t : MemorySet} (head : InsertedArea region start stop area frames s u)
      (tail : InsertedAreas region start stop areas (frames.drop area.taken) u t) :
    InsertedAreas region start stop (area :: areas) frames s t

theorem InsertedArea.valid (h : InsertedArea region start stop area frames s t) (hvalid : AreasValid s.areas) :
    AreasValid t.areas := by
  by_cases hlt : area.start < area.stop
  · obtain ⟨-, -, _, _, -, hins, -⟩ := h.inserted hlt
    exact hins.valid
  · rwa [h.empty (Nat.le_of_not_lt hlt)]

/-- **Inserting areas**: all of them, or those before the first that fails. -/
theorem insertAreas_spec {areas : List VmaInsertArea} (hvalid : AreasValid s.areas) (honly : s.OnlyAreaPages) :
    ∃ t frames' ok done, insertAreas region start stop s frames areas =
        some (t, frames', ok) ∧ done <+: areas ∧ (ok = true → done = areas) ∧
      InsertedAreas region start stop done frames s t := by
  induction areas generalizing s frames with
  | nil => exact ⟨s, frames, true, [], rfl, prefix_refl _, fun _ => rfl, .nil⟩
  | cons area _ ih =>
    unfold insertAreas
    rcases @tryInsertVmaAreaRawInRegion_spec _ start stop frames area region hvalid honly with
      ⟨frames', hfail⟩ | ⟨u, hrun, hins⟩
    · rw [hfail]
      exact ⟨s, frames', false, [], rfl, nil_prefix, by simp, .nil⟩
    obtain ⟨t, frames', ok, done, hrest, hpre, hall, hareas⟩ :=
      @ih _ (frames.drop area.taken) (hins.valid hvalid)
      (hins.onlyAreaPages honly)
    rw [hrun]
    exact ⟨t, frames', ok, area :: done, hrest, (prefix_cons_inj area).mpr hpre,
      fun h => by rw [hall h], .cons hins hareas⟩

/-- Recording the region does not touch the pages. -/
theorem recordRegion_pages {lockRange hasFile : Bool} :
    (s.recordRegion region lockRange hasFile).1.areas = s.areas ∧
      (s.recordRegion region lockRange hasFile).1.pageTable = s.pageTable := by
  unfold recordRegion
  dsimp only
  generalize hbacked : (if region.needsBacking = true then s.allocateMmapBacking region hasFile
    else (s, region.backingId)) = backed
  have hb := (backed_keeps hbacked).2
  split
  · exact hb
  · split <;> exact hb

end Insert

end HitOS
