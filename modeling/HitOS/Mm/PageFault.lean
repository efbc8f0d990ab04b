import HitOS.Mm.Fault
import HitOS.Mm.PageInsert

/-!
# Faults, page by page

A fault that is resolved changes one page: it gets a frame and an entry for it.
`resolveCowFault_spec` and `resolveLazyFault_spec` say which faults are resolved, what the page is
then, and what is written to memory; a fault that is not resolved leaves the address space as it is.
-/

namespace HitOS

open MemorySet List MapArea Function Bool Option

variable {region : VmRegion} {r : AreaPage} {mem : Memory} {faultVa v : Nat}

variable {s : MemorySet} {flags : PTEFlags}

/-- Tracking a frame for one page of the first area of a kind, and an entry for the page. -/
theorem modifyFirst_track {p : MapArea → Bool} {f : MapArea → MapArea} {n : Nat} (hvalid : AreasValid s.areas)
    (hr : areaItems.readAt s.areas v = some r) (hany : s.areas.any p = true)
    (hp : ∀ area, p area = true → area.containsVpn v = true ∧ area.mapType ≠ .identical)
    (hf : ∀ area, ∃ c, f area = { area with dataFrames := area.dataFrames.insert v n, chargedPages := c }) :
    AreasValid (modifyFirst p f s.areas) ∧ ∀ w, (⟨areaItems.readAt (modifyFirst p f s.areas) w,
        s.pageTable.put v n flags w⟩ : PageView) = if w = v then
          ⟨some { r with frame := some n }, some (.new n flags)⟩ else s.pageView w := by
  obtain ⟨l₁, area, l₂, hl, harea, hmod⟩ := modifyFirst_eq hany
  obtain ⟨hin, hid⟩ := hp area harea
  obtain ⟨c, hc⟩ := hf area
  rw [hmod, hc]
  have hmem : area ∈ s.areas := by rw [hl]; exact mem_append_right _ (.head _)
  have hok : Ok { area with dataFrames := area.dataFrames.insert v n, chargedPages := c } := by
    have h : (area.insertTrackedFrame v n).Ok := (hvalid.ok area hmem).insertTrackedFrame hin hid
    exact ⟨h.nonempty, h.tracked, h.saved, h.identical⟩
  have hreads := hvalid.reads
  rw [hl] at hreads
  have hrep := hreads.replace hok fun w hw => .inl hw
  refine ⟨⟨hrep.ok, hrep.apart, ?_⟩, fun w => ?_⟩
  · -- the starts are as before
    simpa [hl, pairwise_append] using hvalid.sorted
  rw [hrep.read w, ← hl, PageTable.put_apply]
  change (⟨if area.containsVpn w = true then some ((area.insertTrackedFrame v n).page w)
    else if area.containsVpn w = true then none else areaItems.readAt s.areas w, _⟩ : PageView) = _
  rw [page_insertTrackedFrame]
  have hown {w} (hw : area.containsVpn w = true) : areaItems.readAt s.areas w = some (area.page w) :=
    hvalid.reads.of_mem hmem hw
  by_cases hv : w = v
  · subst hv
    rw [if_pos hin, if_pos rfl, if_pos rfl, if_pos rfl, ← some.inj ((hown hin).symm.trans hr)]
  · rw [pageView]
    split
    · next hw => rw [hown hw]
    · rfl

theorem modifyFirst_of_none {α : Type} {p : α → Bool} {f : α → α} {l : List α}
    (h : l.any p = false) : modifyFirst p f l = l := by
  induction l with
  | nil => rfl
  | cons a l ih =>
    rw [any_cons, or_eq_false_iff] at h
    rw [modifyFirst, if_neg (eq_false_iff.mp h.1), ih h.2]

/-- The area that owns a page decides whether some area of a kind owns it. -/
theorem any_owner_iff (hvalid : AreasValid s.areas) (hr : areaItems.readAt s.areas v = some r)
    (q : MapType → Bool) :
    s.areas.any (fun area => q area.mapType && area.containsVpn v) = q r.mapType := by
  obtain ⟨area, hmem, hown, hread⟩ := Items.exists_of_readAt hr
  have htype : area.mapType = r.mapType := by rw [← hread]; rfl
  cases hq : q r.mapType with
  | true =>
    refine any_eq_true.mpr ⟨area, hmem, ?_⟩
    rwa [htype, hq]
  | false =>
    refine any_eq_false.mpr fun b hb hall => ?_
    rw [and_eq_true] at hall
    -- another owner of the page would be the same area
    have hfb := Items.find?_of_mem hvalid.apart hb hall.2
    have hfa := Items.find?_of_mem hvalid.apart hmem hown
    rw [some.inj (hfb.symm.trans hfa), htype, hq] at hall
    cases hall.1

/-! ### The copy-on-write fault -/

/-- **The copy-on-write fault** is resolved for a marked private page, where the region admits it
and there is a frame. -/
theorem resolveCowFault_spec (hvalid : AreasValid s.areas) (honly : s.OnlyAreaPages) {frame : Option Nat} :
    s.resolveCowFault mem faultVa frame = (s, mem, false) ∨
    ∃ region pte r new t, s.vmRegions.containingAddr faultVa = some region ∧
      region.allowsCowFault faultVa = true ∧ s.pageView (vpnFloor faultVa) = ⟨some r, some pte⟩ ∧
      pte.flags.cow = true ∧ pte.flags.shared = false ∧ frame = some new ∧
      s.resolveCowFault mem faultVa frame = (t, update mem new (mem pte.ppn), true) ∧
      t = { s with areas := t.areas, pageTable := t.pageTable } ∧ AreasValid t.areas ∧
      ∀ w, t.pageView w = if w = vpnFloor faultVa then
          ⟨some (if r.mapType = .identical then r else { r with frame := some new }),
            some (.new new pte.flags.cowResolved)⟩
        else s.pageView w := by
  unfold resolveCowFault
  cases hregion : s.vmRegions.containingAddr faultVa with
  | none => exact .inl rfl
  | some region =>
  dsimp only
  split
  · exact .inl rfl
  next hallow =>
  cases hpte : s.pageTable (vpnFloor faultVa) with
  | none => exact .inl rfl
  | some pte =>
  cases frame with
  | none => exact .inl rfl
  | some new =>
  dsimp only
  split
  · exact .inl rfl
  next hflags =>
  obtain ⟨hcow, hshared⟩ : pte.flags.cow = true ∧ pte.flags.shared = false := by simpa using hflags
  -- a page with an entry has an area
  obtain ⟨r, hr⟩ : ∃ r, areaItems.readAt s.areas (vpnFloor faultVa) = some r := by
    cases har : areaItems.readAt s.areas (vpnFloor faultVa) with
    | none =>
      have := honly (vpnFloor faultVa) har
      rw [pageView, hpte] at this
      cases this
    | some r => exact ⟨r, rfl⟩
  refine .inr ⟨region, pte, r, new, _, rfl, by simpa using hallow, ?_, hcow, hshared, rfl, rfl, rfl, ?_⟩
  · rw [pageView, hr, hpte]
  have hany : s.areas.any (fun area : MapArea =>
      !area.isIdentical && area.containsVpn (vpnFloor faultVa)) = !(r.mapType == .identical) :=
    any_owner_iff hvalid hr fun t => !(t == .identical)
  by_cases hid : r.mapType = .identical
  · -- no frame is tracked for a page of an identical area
    have hsame : modifyFirst (fun area : MapArea =>
        !area.isIdentical && area.containsVpn (vpnFloor faultVa))
        (fun area => area.insertTrackedFrame (vpnFloor faultVa) new) s.areas = s.areas :=
      modifyFirst_of_none (hany.trans (by simp [hid]))
    rw [hsame]
    refine ⟨hvalid, fun w => ?_⟩
    unfold pageView
    dsimp only
    rw [PageTable.put_apply]
    split
    · next hw => rw [hw, hr]
    · rfl
  · rw [if_neg hid]
    refine modifyFirst_track hvalid hr (hany.trans (by simpa using hid)) (fun _ harea => ?_)
      (fun area => ⟨area.chargedPages, rfl⟩)
    rw [and_eq_true] at harea
    exact ⟨harea.2, by simpa [isIdentical] using harea.1⟩

/-! ### The fault on a page that is not resident -/

/-- The frame a fault finds in the cache of shared pages. -/
def FaultEnv.cached (env : FaultEnv) (region : VmRegion) : Option Nat :=
  if region.usesSharedCache then env.cachedShared else none

/-- What a fault on a page that is not resident finds: a lazy page without an entry, in a region
that admits the access, and a frame for it, from the cache of shared pages or a new one. -/
structure LazyFault (s : MemorySet) (faultVa : Nat) (access : MapPermission) (env : FaultEnv)
    (region : VmRegion) (flags : PTEFlags) (r : AreaPage) (frame : Nat) : Prop where
  found : s.vmRegions.containingAddr faultVa = some region
  admitted : region.lazyFaultPolicy faultVa access = some (region.mapPerm, flags)
  view : s.pageView (vpnFloor faultVa) = ⟨some r, none⟩
  isLazy : r.mapType = .lazy
  supplied : (env.cached region).or env.frame = some frame

/-- The memory after a fault: a new frame is filled, a cached one is not touched. -/
def faultMemory (s : MemorySet) (mem : Memory) (files : Files) (region : VmRegion) (vpn frame : Nat)
    (env : FaultEnv) : Memory :=
  if (env.cached region).isSome then mem
  else update mem frame (s.faultedPage files region vpn)

/-- A page that a fault brings in is marked `SHARED` just if its mapping is shared. -/
theorem lazyFaultPolicy_shared {va : Nat} {access perm : MapPermission}
    (h : region.lazyFaultPolicy va access = some (perm, flags)) :
    perm = region.mapPerm ∧ flags.shared = region.shared := by
  unfold VmRegion.lazyFaultPolicy at h
  split at h
  · cases h
  · split at h
    · cases h
      exact ⟨rfl, rfl⟩
    · cases h

/-- **The fault on a page that is not resident** is resolved, or leaves the address space as it
is. -/
theorem resolveLazyFault_spec (hvalid : AreasValid s.areas) {files : Files}
    {access : MapPermission} {env : FaultEnv} :
    (∃ mem' res, s.resolveLazyFault mem files faultVa access env = (s, mem', res) ∧
      res ≠ .resolved ∧ ∀ frame, env.frame ≠ some frame → mem' frame = mem frame) ∨
    ∃ region flags r frame t, LazyFault s faultVa access env region flags r frame ∧
      s.resolveLazyFault mem files faultVa access env =
        (t, faultMemory s mem files region (vpnFloor faultVa) frame env, .resolved) ∧
      t = { s with areas := t.areas, pageTable := t.pageTable } ∧ AreasValid t.areas ∧
      ∀ w, t.pageView w = if w = vpnFloor faultVa then
          ⟨some { r with frame := some frame }, some (.new frame flags)⟩ else s.pageView w := by
  unfold resolveLazyFault
  cases hregion : s.vmRegions.containingAddr faultVa with
  | none => exact .inl ⟨mem, .invalid, rfl, by simp, fun _ _ => rfl⟩
  | some region =>
  dsimp only
  cases hpolicy : region.lazyFaultPolicy faultVa access with
  | none => exact .inl ⟨mem, .invalid, rfl, by simp, fun _ _ => rfl⟩
  | some pf =>
  obtain ⟨_, flags⟩ := pf
  cases howner : s.areas.find? (fun area : MapArea =>
      area.isLazy && area.containsVpn (vpnFloor faultVa)) with
  | none => exact .inl ⟨mem, .invalid, rfl, by simp, fun _ _ => rfl⟩
  | some area =>
    dsimp only
    split
    · exact .inl ⟨mem, .invalid, rfl, by simp, fun _ _ => rfl⟩
    next hpte =>
    have hpte' : s.pageTable (vpnFloor faultVa) = none := by simpa using hpte
    have hmem := mem_of_find?_eq_some howner
    obtain ⟨hlazy, hin⟩ : area.isLazy = true ∧ area.containsVpn (vpnFloor faultVa) = true := by
      simpa using find?_some howner
    have hr : areaItems.readAt s.areas (vpnFloor faultVa) = some (area.page (vpnFloor faultVa)) :=
      hvalid.reads.of_mem hmem hin
    have hcached : (if region.usesSharedCache = true then env.cachedShared else none) =
      env.cached region := rfl
    rw [hcached]
    cases hframe : (env.cached region).or env.frame with
    | none => exact .inl ⟨mem, .oom, rfl, by simp, fun _ _ => rfl⟩
    | some frame =>
    dsimp only
    split
    · refine .inl ⟨_, .oom, rfl, by simp, fun frame' hne => ?_⟩
      -- only the frame that was supplied is written
      cases hc : env.cached region with
      | some => rfl
      | none =>
        rw [hc] at hframe
        rw [if_neg (by simp), update_of_ne]
        rintro rfl
        exact hne hframe
    next _ =>
    refine .inr ⟨region, flags, area.page (vpnFloor faultVa), frame, _,
      ⟨hregion, by rw [hpolicy, (lazyFaultPolicy_shared hpolicy).1], by rw [pageView, hr, hpte'],
        by simpa [isLazy, page] using hlazy, hframe⟩, rfl, rfl, ?_⟩
    refine modifyFirst_track hvalid hr (any_eq_true.mpr ⟨area, hmem, by rw [hlazy, hin]; rfl⟩)
      (fun area' harea' => ?_) (fun _ => ⟨_, rfl⟩)
    rw [and_eq_true] at harea'
    have hl : area'.mapType = .lazy := by simpa [isLazy] using harea'.1
    exact ⟨harea'.2, by rw [hl]; simp⟩

end HitOS
