import HitOS.Lib.Items
import HitOS.Lib.OrdMap
import HitOS.Lib.Usize
import HitOS.Mm.PageTable

/-!
# Areas of resident pages

The `MapArea` of `map_area.rs`: a run of virtual pages with one mapping type and permission, the
frames that are resident in it, and the page-table flags put aside while a page is under
`PROT_NONE`. An area says something about each of its pages (`AreaPage`), and a list of areas is
read page by page as `areaItems` says.

* `splitAround_reads` — cutting an area in three keeps what is said about every page;
* `unmapRangeMaybe_spec` — unmapping pages takes away what is said about them;
* `map_new_framed` — mapping a framed area takes a frame for every page, or has no effect at all.
-/

namespace HitOS

open List OrdMap PageTable Option

/-! ### The operations of `map_area.rs` -/

def shiftVpnByDelta (vpn : Nat) (delta : Int) : Option Nat :=
  if 0 ≤ delta then
    if vpn + delta.toNat ≤ usizeMax then some (vpn + delta.toNat) else none
  else if delta.natAbs ≤ vpn then some (vpn - delta.natAbs) else none

/-- `pte_flags_for_mprotect`: the copy-on-write mark of the old flags keeps the page from becoming
writable, and the shared mark is kept. -/
def pteFlagsForMprotect (newPerm : MapPermission) (oldFlags : Option PTEFlags) : PTEFlags :=
  let flags := PTEFlags.ofPermission newPerm
  match oldFlags with
  | none => flags
  | some old =>
    let flags := if old.cow then { flags with cow := true, w := false, d := false } else flags
    if old.shared then { flags with shared := true, d := flags.d || old.d } else flags

/-- What a new permission does to flags: both software marks stay, and a page that is marked
copy-on-write does not become writable. -/
theorem pteFlagsForMprotect_marks {newPerm : MapPermission} {old : PTEFlags} :
    (pteFlagsForMprotect newPerm (some old)).shared = old.shared ∧
      (pteFlagsForMprotect newPerm (some old)).cow = old.cow ∧
      ((pteFlagsForMprotect newPerm (some old)).w = true → newPerm.w = true ∧ old.cow = false) := by
  unfold pteFlagsForMprotect PTEFlags.ofPermission
  cases hcow : old.cow <;> cases hshared : old.shared <;> simp [hcow, hshared]

/-- The pages from `start` up to but not including `stop`. -/
def vpnRange (start stop : Nat) : List Nat := List.range' start (stop - start)

/-- A run of pages and what is resident in it. -/
structure MapArea where
  /-- The first page. -/
  start : Nat
  /-- The page after the last one. -/
  stop : Nat
  /-- The frame of each resident page. -/
  dataFrames : OrdMap Nat Nat := empty
  /-- The flags of the pages whose entry was taken away by `PROT_NONE`. -/
  savedPteFlags : OrdMap Nat PTEFlags := empty
  chargedPages : Nat := 0
  mapType : MapType
  mapPerm : MapPermission
  deriving DecidableEq

namespace MapArea

/-- `MapArea::new`, for pages. -/
def new (start stop : Nat) (mapType : MapType) (mapPerm : MapPermission) : MapArea :=
  { start := start, stop := stop, mapType := mapType, mapPerm := mapPerm }

/-- `from_another`: the same run, with nothing resident. -/
def fromAnother (another : MapArea) : MapArea :=
  { start := another.start, stop := another.stop, chargedPages := another.chargedPages
    mapType := another.mapType, mapPerm := another.mapPerm }

variable (area : MapArea)

def isLazy : Bool := area.mapType == .lazy

def isIdentical : Bool := area.mapType == .identical

def pteFlags : PTEFlags := PTEFlags.ofPermission area.mapPerm

def pageCount : Nat := area.stop - area.start

def chargedOrTrackedPages : Nat := max area.chargedPages area.dataFrames.size

def containsVpn (vpn : Nat) : Bool := vpn ≥ area.start && vpn < area.stop

def overlapsVpnRange (start stop : Nat) : Bool := stop > area.start && start < area.stop

def hasExactVpnRange (start stop : Nat) : Bool := area.start == start && area.stop == stop

def insertTrackedFrame (vpn frame : Nat) : MapArea :=
  { area with dataFrames := area.dataFrames.insert vpn frame }

def savePteFlags (vpn : Nat) (flags : PTEFlags) : MapArea :=
  { area with savedPteFlags := area.savedPteFlags.insert vpn flags }

/-- What `take_saved_pte_flags` leaves behind. -/
def dropSavedPteFlags (vpn : Nat) : MapArea :=
  { area with savedPteFlags := area.savedPteFlags.erase vpn }

def descriptorWithState (start stop : Nat) (frames : OrdMap Nat Nat)
    (flags : OrdMap Nat PTEFlags) : MapArea :=
  { fromAnother area with
    start := start, stop := stop, dataFrames := frames, savedPteFlags := flags }

/-- `split_around`: the part below `start`, the part `[start, stop)` and the part from `stop` on. An
identical area hands on no frames. -/
def splitAround (start stop : Nat) : Option MapArea × MapArea × Option MapArea :=
  let frames := if area.isIdentical then empty else area.dataFrames
  let flags := area.savedPteFlags
  let below := fun vpn : Nat => decide (vpn < start)
  let inside := fun vpn : Nat => decide (start ≤ vpn ∧ vpn < stop)
  let above := fun vpn : Nat => decide (stop ≤ vpn)
  (if area.start < start then
      some (area.descriptorWithState area.start start (frames.filterKey below) (flags.filterKey below))
    else none,
    area.descriptorWithState start stop (frames.filterKey inside) (flags.filterKey inside),
    if stop < area.stop then
      some (area.descriptorWithState stop area.stop (frames.filterKey above) (flags.filterKey above))
    else none)

/-- The frames of a moved area; those of an identical area are not its own. -/
def movedFrames (delta : Int) : Option (OrdMap Nat Nat) :=
  if area.isIdentical then some area.dataFrames
  else area.dataFrames.remapKeys (fun vpn => shiftVpnByDelta vpn delta)

def moveByDelta (delta : Int) : Option MapArea := do
  let newStart ← shiftVpnByDelta area.start delta
  let newStop ← shiftVpnByDelta area.stop delta
  let frames ← area.movedFrames delta
  let flags ← area.savedPteFlags.remapKeys (fun vpn => shiftVpnByDelta vpn delta)
  some { area with
    start := newStart, stop := newStop, dataFrames := frames, savedPteFlags := flags }

def unmapOneMaybe (pt : PageTable) (vpn : Nat) : MapArea × PageTable :=
  ({ area with
      dataFrames := if area.isIdentical then area.dataFrames else area.dataFrames.erase vpn
      savedPteFlags := area.savedPteFlags.erase vpn },
    pt.unmapIfMapped vpn)

/-- `unmap_one_maybe` for each page of a list. -/
def unmapPages (pt : PageTable) (vpns : List Nat) : MapArea × PageTable :=
  vpns.foldl (fun s vpn => s.1.unmapOneMaybe s.2 vpn) (area, pt)

def unmapRangeMaybe (pt : PageTable) (start stop : Nat) : MapArea × PageTable :=
  area.unmapPages pt (vpnRange start stop)

def unmap (pt : PageTable) : MapArea × PageTable :=
  area.unmapRangeMaybe pt area.start area.stop

/-- Why a page could not be mapped: no frame was left, or an assertion of the page table failed. -/
inductive MapStop where
  | outOfFrames
  | panic
  deriving DecidableEq, Repr

/-- `map_one`, where `frames` are the frames the allocator has to give. -/
def mapOne (pt : PageTable) (frames : List Nat) (vpn : Nat) :
    Except MapStop (MapArea × PageTable × List Nat) :=
  match area.mapType with
  | .lazy => .ok (area, pt, frames)
  | .identical =>
    match pt.map vpn vpn area.pteFlags with
    | none => .error .panic
    | some pt => .ok (area, pt, frames)
  | .framed =>
    match frames with
    | [] => .error .outOfFrames
    | frame :: frames =>
      match pt.map vpn frame area.pteFlags with
      | none => .error .panic
      | some pt => .ok (area.insertTrackedFrame vpn frame, pt, frames)

/-- The loop of `map` over the pages still to be mapped; `mapped` are those done, which a failure
unmaps again. -/
def mapFrom (area : MapArea) (pt : PageTable) (frames mapped : List Nat) :
    List Nat → Option (MapArea × PageTable × List Nat × Bool)
  | [] => some (area, pt, frames, true)
  | vpn :: rest =>
    match area.mapOne pt frames vpn with
    | .error .panic => none
    | .error .outOfFrames =>
      let undone := area.unmapPages pt mapped
      some (undone.1, undone.2, frames, false)
    | .ok (area, pt, frames) => mapFrom area pt frames (mapped ++ [vpn]) rest

/-- `map`: the area and page table after it, the frames left, and whether it succeeded; `none` where
the kernel panics. -/
def map (pt : PageTable) (frames : List Nat) :
    Option (MapArea × PageTable × List Nat × Bool) :=
  if area.isLazy then some (area, pt, frames, true)
  else area.mapFrom pt frames [] (vpnRange area.start area.stop)

end MapArea

/-! ### What an area says about a page -/

/-- What an area says about one of its pages. -/
structure AreaPage where
  mapType : MapType
  mapPerm : MapPermission
  /-- The resident frame. -/
  frame : Option Nat
  /-- The flags put aside by `PROT_NONE`. -/
  saved : Option PTEFlags
  deriving DecidableEq, Repr

namespace MapArea

/-- What the area says about the page `vpn`. -/
def page (area : MapArea) (vpn : Nat) : AreaPage :=
  { mapType := area.mapType, mapPerm := area.mapPerm
    frame := area.dataFrames.get? vpn, saved := area.savedPteFlags.get? vpn }

/-- **Well-formedness of one area.** It has a page, what it keeps is kept for its own pages, and an
identical area owns no frames. -/
structure Ok (area : MapArea) : Prop where
  nonempty : area.start < area.stop
  /-- A tracked frame lies in the area. -/
  tracked : ∀ vpn frame, area.dataFrames.get? vpn = some frame → area.containsVpn vpn = true
  /-- Saved flags lie in the area. -/
  saved : ∀ vpn flags, area.savedPteFlags.get? vpn = some flags → area.containsVpn vpn = true
  /-- The frames of an identical area are not its own. -/
  identical : area.isIdentical = true → ∀ vpn, area.dataFrames.get? vpn = none

end MapArea

/-- Areas as owners of their pages. -/
def areaItems : Items MapArea AreaPage where
  owns := MapArea.containsVpn
  read := MapArea.page
  Ok := MapArea.Ok

section Pages

variable {start stop x v n frame : Nat} {area piece : MapArea} {pt : PageTable} {mapped frames vpns : List Nat}
  {mapType : MapType} {perm : MapPermission} {F : AreaPage → Option Pte → AreaPage × Option Pte}

theorem mem_vpnRange : x ∈ vpnRange start stop ↔ start ≤ x ∧ x < stop := by
  unfold vpnRange
  rw [mem_range'_1]
  omega

theorem nodup_vpnRange : (vpnRange start stop).Nodup := nodup_range'

namespace MapArea

theorem containsVpn_iff : area.containsVpn x = true ↔ area.start ≤ x ∧ x < area.stop := by
  simp [containsVpn]

theorem overlapsVpnRange_iff :
    area.overlapsVpnRange start stop = true ↔ area.start < stop ∧ start < area.stop := by
  simp [overlapsVpnRange]

theorem isLazy_iff : area.isLazy = true ↔ area.mapType = .lazy := by simp [isLazy]

theorem isIdentical_iff : area.isIdentical = true ↔ area.mapType = .identical := by
  simp [isIdentical]

/-- Nothing is resident in a new area. -/
theorem new_ok (h : start < stop) : (new start stop mapType perm).Ok :=
  ⟨h, by simp [new], by simp [new], by simp [new]⟩

/-- What `area` says about the pages of `[start, stop)`. -/
def pagesIn (area : MapArea) (start stop x : Nat) : Option AreaPage :=
  if start ≤ x ∧ x < stop then some (area.page x) else none

theorem reads_singleton (hok : area.Ok) : areaItems.Reads [area] (area.pagesIn area.start area.stop) := by
  refine (Items.Reads.singleton hok).congr fun x => ?_
  change (if area.containsVpn x = true then some (area.page x) else none) = _
  simp only [containsVpn_iff, pagesIn]

/-- Well-formedness, page by page: nothing is kept for a page that is not of the area. -/
theorem ok_iff_page : area.Ok ↔ area.start < area.stop ∧ ∀ x,
    (area.containsVpn x ≠ true → (area.page x).frame = none ∧ (area.page x).saved = none) ∧
      ((area.page x).mapType = .identical → (area.page x).frame = none) := by
  constructor
  · rintro ⟨hlt, htracked, hsaved, hid⟩
    refine ⟨hlt, fun x => ⟨fun hx => ⟨?_, ?_⟩, fun h => hid (isIdentical_iff.mpr h) x⟩⟩
    · exact eq_none_iff_forall_ne_some.mpr fun frame h => hx (htracked x frame h)
    · exact eq_none_iff_forall_ne_some.mpr fun flags h => hx (hsaved x flags h)
  · rintro ⟨hlt, hpage⟩
    refine ⟨hlt, fun x frame hx => ?_, fun x flags hx => ?_, fun h x => (hpage x).2 (isIdentical_iff.mp h)⟩
    · by_contra hno
      cases ((hpage x).1 hno).1.symm.trans hx
    · by_contra hno
      cases ((hpage x).1 hno).2.symm.trans hx

/-- An area keeps nothing for a page that is not its own. -/
theorem Ok.page_of_not (hok : area.Ok) (hx : area.containsVpn x ≠ true) :
    area.page x = ⟨area.mapType, area.mapPerm, none, none⟩ := by
  obtain ⟨hf, hs⟩ := ((ok_iff_page.mp hok).2 x).1 hx
  exact congrArg₂ (AreaPage.mk area.mapType area.mapPerm) hf hs

/-! ### Cutting -/

/-- A piece `[start, stop)` of an area, with what the area keeps for these pages. -/
theorem descriptorWithState_spec (hok : area.Ok) {keep : Nat → Bool}
    (hkeep : ∀ x, area.start ≤ x → x < area.stop → (keep x = true ↔ start ≤ x ∧ x < stop))
    (hs : area.start ≤ start) (hlt : start < stop) (he : stop ≤ area.stop)
    (hpiece : piece = area.descriptorWithState start stop
      ((if area.isIdentical then empty else area.dataFrames).filterKey keep)
      (area.savedPteFlags.filterKey keep)) :
    piece.Ok ∧ piece.start = start ∧ piece.stop = stop ∧ ∀ x, start ≤ x → x < stop →
      piece.page x = area.page x := by
  -- an identical area has no frames to hand on
  have hframes x : (if area.isIdentical then empty else area.dataFrames).get? x = area.dataFrames.get? x := by
    split
    · next hid => rw [hok.identical hid x, get?_empty]
    · rfl
  have hpage x : piece.page x = if keep x then area.page x else ⟨area.mapType, area.mapPerm, none, none⟩ := by
    rw [hpiece]
    simp only [page, descriptorWithState, fromAnother, get?_filterKey, hframes]
    split <;> rfl
  obtain ⟨hs', he'⟩ : piece.start = start ∧ piece.stop = stop := by
    subst hpiece
    exact ⟨rfl, rfl⟩
  have hcont x : piece.containsVpn x = true ↔ start ≤ x ∧ x < stop := by rw [containsVpn_iff, hs', he']
  refine ⟨ok_iff_page.mpr ⟨by rwa [hs', he'], fun x => ?_⟩, hs', he', fun x h1 h2 => ?_⟩
  · rw [hpage, Ne, hcont]
    split
    · next hk =>
      refine ⟨fun hout => ?_, ((ok_iff_page.mp hok).2 x).2⟩
      rw [hok.page_of_not fun hx => hout ?_]
      · exact ⟨rfl, rfl⟩
      · have hin := containsVpn_iff.mp hx
        exact (hkeep x hin.1 hin.2).mp hk
    · exact ⟨fun _ => ⟨rfl, rfl⟩, fun _ => rfl⟩
  · rw [hpage, if_pos ((hkeep x (by omega) (by omega)).mpr ⟨h1, h2⟩)]

/-- An optional piece reads as the area does on its pages. -/
private theorem toList_reads (h : start < stop → piece.Ok ∧ piece.start = start ∧ piece.stop = stop ∧
      ∀ x, start ≤ x → x < stop → piece.page x = area.page x) :
    areaItems.Reads (if start < stop then some piece else none).toList (area.pagesIn start stop) := by
  split
  · next hlt =>
    obtain ⟨hok, hs, he, hpage⟩ := h hlt
    refine (reads_singleton hok).congr fun x => ?_
    unfold pagesIn
    rw [hs, he]
    split
    · next hx => rw [hpage x hx.1 hx.2]
    · rfl
  · refine Items.Reads.nil.congr fun x => ?_
    rw [pagesIn, if_neg (by omega)]

/-- **Cutting an area and replacing its middle.** Around the pages `[start, stop)`, for which the
pieces `mids` stand in, everything is said as before. -/
theorem splitAround_reads (hok : area.Ok) (hs : area.start ≤ start) (hse : start ≤ stop)
    (he : stop ≤ area.stop) {mids : List MapArea} {g : Nat → Option AreaPage}
    (hmids : areaItems.Reads mids g) (hg : ∀ x, ¬ (start ≤ x ∧ x < stop) → g x = none) :
    areaItems.Reads
      ((area.splitAround start stop).1.toList ++ mids ++ (area.splitAround start stop).2.2.toList)
      (fun x => if area.containsVpn x = true then
        if start ≤ x ∧ x < stop then g x else some (area.page x) else none) := by
  have hleft : areaItems.Reads (area.splitAround start stop).1.toList (area.pagesIn area.start start) :=
    toList_reads fun hlt =>
      descriptorWithState_spec hok fun _ _ _ => by simp; omega (le_rfl) hlt (by omega) rfl
  have hright : areaItems.Reads (area.splitAround start stop).2.2.toList (area.pagesIn stop area.stop) :=
    toList_reads fun hlt =>
      descriptorWithState_spec hok fun _ _ _ => by simp; omega (by omega) hlt (le_rfl) rfl
  refine ((hleft.append hmids fun x => ?_).append hright fun x => ?_).congr fun x => ?_
  · by_cases hx : start ≤ x ∧ x < stop
    · exact .inl (by rw [pagesIn, if_neg (by omega)])
    · exact .inr (hg x hx)
  · by_cases hx : stop ≤ x ∧ x < area.stop
    · refine .inl ?_
      rw [pagesIn, if_neg (by omega), hg x (by omega)]
      rfl
    · exact .inr (by rw [pagesIn, if_neg hx])
  simp only [containsVpn_iff, pagesIn]
  by_cases hx : start ≤ x ∧ x < stop
  · rw [if_pos (show area.start ≤ x ∧ x < area.stop by omega), if_pos hx,
      if_neg (show ¬ (area.start ≤ x ∧ x < start) by omega),
      if_neg (show ¬ (stop ≤ x ∧ x < area.stop) by omega)]
    simp
  rw [hg x hx]
  iterate 2
    split
    · rw [if_pos (show area.start ≤ x ∧ x < area.stop by omega)]
      rfl
  · rw [if_neg (show ¬ (area.start ≤ x ∧ x < area.stop) by omega)]
    rfl

/-! ### Unmapping -/

/-- The pages in `p` change by `F`, and nothing else does. -/
structure PagesChanged (F : AreaPage → Option Pte → AreaPage × Option Pte) (p : Nat → Prop) [DecidablePred p]
    (s t : MapArea × PageTable) : Prop where
  start : t.1.start = s.1.start
  stop : t.1.stop = s.1.stop
  views : ∀ x, (t.1.page x, t.2 x) = if p x then F (s.1.page x) (s.2 x) else (s.1.page x, s.2 x)

/-- **A loop over distinct pages** that changes one page a round. -/
theorem PagesChanged.foldl {step : MapArea × PageTable → Nat → MapArea × PageTable}
    (hstep : ∀ s i, PagesChanged F (· = i) s (step s i)) (hvpns : vpns.Nodup) (s : MapArea × PageTable) :
    PagesChanged F (· ∈ vpns) s (vpns.foldl step s) := by
  induction vpns generalizing s with
  | nil => exact ⟨rfl, rfl, fun _ => (if_neg not_mem_nil).symm⟩
  | cons i vpns ih =>
    obtain ⟨hi, hvpns'⟩ := nodup_cons.mp hvpns
    obtain ⟨hs, he, hviews⟩ := ih hvpns' (step s i)
    obtain ⟨hs₁, he₁, hviews₁⟩ := hstep s i
    refine ⟨hs.trans hs₁, he.trans he₁, fun x => (hviews x).trans ?_⟩
    have hx := hviews₁ x
    by_cases heq : x = i
    · subst heq
      rw [if_neg hi, if_pos (.head _), hx, if_pos rfl]
    · rw [if_neg heq, Prod.mk.injEq] at hx
      simp only [hx.1, hx.2, mem_cons, heq, false_or]

theorem PagesChanged.page {p : Nat → Prop} [DecidablePred p]
    {s t : MapArea × PageTable} (h : PagesChanged F p s t) (x : Nat) :
    t.1.page x = (if p x then (F (s.1.page x) (s.2 x)).1 else s.1.page x) ∧
      t.2 x = if p x then (F (s.1.page x) (s.2 x)).2 else s.2 x := by
  have hx := h.views x
  split at hx
  · next hp => rw [if_pos hp, if_pos hp, ← hx]; exact ⟨rfl, rfl⟩
  · next hp => rw [if_neg hp, if_neg hp]; exact Prod.mk.inj hx

/-- One page is unmapped; what an identical area tracks is not its own. -/
theorem unmapOneMaybe_changed (s : MapArea × PageTable) (i : Nat) :
    PagesChanged (fun r _ => ({ r with
      frame := if r.mapType == .identical then r.frame else none, saved := none }, none)) (· = i) s
      (s.1.unmapOneMaybe s.2 i) := by
  refine ⟨rfl, rfl, fun x => ?_⟩
  by_cases hid : (s.1.mapType == MapType.identical) = true <;> by_cases hx : x = i <;>
    simp [unmapOneMaybe, page, isIdentical, unmapIfMapped_apply, get?_erase, hid, hx]

/-- What is left of a page that is unmapped: nothing is resident. -/
theorem unmapPages_spec (pt : PageTable) (hok : area.Ok) (hvpns : vpns.Nodup) :
    (area.unmapPages pt vpns).1.Ok ∧ (area.unmapPages pt vpns).1.start = area.start ∧
      (area.unmapPages pt vpns).1.stop = area.stop ∧
      (∀ x, (area.unmapPages pt vpns).1.page x =
        if x ∈ vpns then { area.page x with frame := none, saved := none } else area.page x) ∧
      ∀ x, (area.unmapPages pt vpns).2 x = if x ∈ vpns then none else pt x := by
  have h := PagesChanged.foldl unmapOneMaybe_changed hvpns (area, pt)
  have hnone x : (if area.isIdentical then area.dataFrames.get? x else none) = none := by
    split
    · next hid => exact hok.identical hid x
    · rfl
  have hpage' x : (area.unmapPages pt vpns).1.page x = if x ∈ vpns then
      { area.page x with frame := none, saved := none } else area.page x := by
    refine (h.page x).1.trans (if_congr Iff.rfl ?_ rfl)
    exact congrArg (AreaPage.mk area.mapType area.mapPerm · none) (hnone x)
  obtain ⟨hlt, hkept⟩ := ok_iff_page.mp hok
  have hcont x : (area.unmapPages pt vpns).1.containsVpn x = area.containsVpn x :=
    congrArg₂ (fun a b => decide (x ≥ a) && decide (x < b)) h.start h.stop
  refine ⟨ok_iff_page.mpr ⟨?_, fun x => ?_⟩, h.start, h.stop, hpage', fun x => (h.page x).2⟩
  · exact h.start.trans_lt (hlt.trans_eq h.stop.symm)
  rw [hpage', hcont]
  split
  · exact ⟨fun _ => ⟨rfl, rfl⟩, fun _ => rfl⟩
  · exact hkept x

/-- **Unmapping a range of pages** leaves nothing resident in it. -/
theorem unmapRangeMaybe_spec (hok : area.Ok) :
    ∃ area' pt', area.unmapRangeMaybe pt start stop = (area', pt') ∧ area'.Ok ∧
      area'.start = area.start ∧ area'.stop = area.stop ∧
      (∀ x, area'.page x = if start ≤ x ∧ x < stop
        then { area.page x with frame := none, saved := none } else area.page x) ∧
      ∀ x, pt' x = if start ≤ x ∧ x < stop then none else pt x := by
  have h := unmapPages_spec pt hok (@nodup_vpnRange start stop)
  simp only [mem_vpnRange] at h
  exact ⟨_, _, rfl, h⟩

/-! ### Mapping -/

theorem page_insertTrackedFrame : (area.insertTrackedFrame v frame).page x =
    if x = v then { area.page v with frame := some frame } else area.page x := by
  simp only [page, insertTrackedFrame, get?_insert]
  split
  · next h => rw [h]
  · rfl

theorem Ok.insertTrackedFrame (hok : area.Ok) (hin : area.containsVpn v = true)
    (hid : area.mapType ≠ .identical) : (area.insertTrackedFrame v frame).Ok := by
  refine ⟨hok.nonempty, fun x f hx => ?_, hok.saved, fun h => absurd (isIdentical_iff.mp h) hid⟩
  change (area.dataFrames.insert v frame).get? x = some f at hx
  rw [get?_insert] at hx
  split at hx
  · next heq => rw [heq]; exact hin
  · exact hok.tracked x f hx

theorem mapOne_framed (htype : area.mapType = .framed) (hfree : pt x = none) :
    area.mapOne pt (frame :: frames) x =
      .ok (area.insertTrackedFrame x frame, pt.put x frame area.pteFlags, frames) := by
  unfold mapOne
  rw [htype]
  dsimp only
  rw [map_of_unmapped hfree]

/-- With frames for all the pages, each page gets the next one. -/
theorem mapFrom_of_le (htype : area.mapType = .framed)
    (hfree : ∀ x, start ≤ x → x < start + n → pt x = none) (hn : n ≤ frames.length) :
    ∃ area' pt', area.mapFrom pt frames mapped (range' start n) = some (area', pt', frames.drop n, true) ∧
      area'.start = area.start ∧ area'.stop = area.stop ∧
      (∀ x, area'.page x = if start ≤ x ∧ x < start + n
        then { area.page x with frame := frames[x - start]? } else area.page x) ∧
      ∀ x, pt' x = if start ≤ x ∧ x < start + n
        then frames[x - start]?.map (fun frame => Pte.new frame area.pteFlags) else pt x := by
  induction n generalizing start area pt mapped frames with
  | zero => refine ⟨area, pt, rfl, rfl, rfl, fun x => ?_, fun x => ?_⟩ <;> rw [if_neg (by omega)]
  | succ n ih =>
    obtain ⟨frame, frames, rfl⟩ : ∃ f l, frames = f :: l := exists_cons_of_length_pos (by omega)
    obtain ⟨area', pt', hrun, hs, he, hpage, hpt⟩ := @ih (start + 1)
      (area.insertTrackedFrame start frame) (pt.put start frame area.pteFlags) (mapped ++ [start])
      frames htype
      fun x _ _ => by rw [put_apply, if_neg (by omega), hfree x (by omega) (by omega)]
      (by simpa using hn)
    refine ⟨area', pt', ?_, hs, he, fun x => ?_, fun x => ?_⟩
    · rwa [range'_succ, mapFrom, mapOne_framed htype (hfree start (le_rfl) (by omega))]
    all_goals
      first
        | rw [hpage, page_insertTrackedFrame]
        | rw [hpt, put_apply]
      by_cases hx : x = start
      · rw [if_neg (by omega), if_pos hx, if_pos (by omega), hx, Nat.sub_self]
        rfl
      split
      · rw [if_pos (by omega), show x - start = (x - (start + 1)) + 1 by omega]
        rfl
      · rw [if_neg (by omega)]

/-- With too few frames, the pages already mapped are unmapped again. -/
theorem mapFrom_of_lt (hok : area.Ok) (htype : area.mapType = .framed) (hmapped : mapped.Nodup)
    (hin : ∀ x, start ≤ x → x < start + n → area.containsVpn x = true ∧ pt x = none ∧ x ∉ mapped)
    (hn : frames.length < n) :
    ∃ area' frames', area.mapFrom pt frames mapped (range' start n) =
      some (area', fun x => if x ∈ mapped then none else pt x, frames', false) := by
  induction n generalizing start area pt mapped frames with
  | zero => omega
  | succ n ih =>
    obtain ⟨hc, hfree, hnew⟩ := hin start (le_rfl) (by omega)
    cases frames with
    | nil =>
      refine ⟨(area.unmapPages pt mapped).1, [], ?_⟩
      have hpt : (area.unmapPages pt mapped).2 = fun x => if x ∈ mapped then none else pt x :=
        funext (unmapPages_spec pt hok hmapped).2.2.2.2
      rw [← hpt, range'_succ, mapFrom, mapOne, htype]
    | cons frame frames =>
      obtain ⟨area', frames', hrun⟩ := @ih (start + 1)
        (area.insertTrackedFrame start frame) (pt.put start frame area.pteFlags) (mapped ++ [start])
        frames (hok.insertTrackedFrame hc (by simp [htype])) htype
        (nodup_append.mpr ⟨hmapped, pairwise_singleton .., by
          intro a ha b hb hab
          rw [mem_singleton] at hb
          exact hnew (hb ▸ hab ▸ ha)⟩)
        fun x _ _ => by
          obtain ⟨h3, h4, h5⟩ := hin x (by omega) (by omega)
          refine ⟨h3, ?_, ?_⟩
          · rw [put_apply, if_neg (by omega), h4]
          · simp only [mem_append, mem_singleton, not_or]
            exact ⟨h5, by omega⟩
        (by simpa using hn)
      refine ⟨area', frames', ?_⟩
      rw [range'_succ, mapFrom, mapOne_framed htype hfree]
      refine hrun.trans ?_
      congr 3
      funext x
      rw [put_apply]
      by_cases hx : x = start
      · subst hx
        simp [hfree]
      · simp [hx]

/-- **Mapping a new framed area**, over pages that are not mapped: every page gets the next frame,
or the frames do not suffice and the page table is as before. -/
theorem map_new_framed (hlt : start < stop) (hfree : ∀ x, start ≤ x → x < stop → pt x = none) :
    (stop - start ≤ frames.length ∧ ∃ area' pt', (new start stop .framed perm).map pt frames =
          some (area', pt', frames.drop (stop - start), true) ∧
        area'.Ok ∧ area'.start = start ∧ area'.stop = stop ∧
        (∀ x, start ≤ x → x < stop → area'.page x = ⟨.framed, perm, frames[x - start]?, none⟩) ∧
        ∀ x, pt' x = if start ≤ x ∧ x < stop
          then frames[x - start]?.map fun frame => Pte.new frame (.ofPermission perm)
          else pt x) ∨
    (frames.length < stop - start ∧ ∃ area' frames', (new start stop .framed perm).map pt frames =
        some (area', pt, frames', false)) := by
  have hrange x : start ≤ x ∧ x < start + (stop - start) ↔ start ≤ x ∧ x < stop := by omega
  rcases lt_or_ge frames.length (stop - start) with hfew | hge
  · refine .inr ⟨hfew, ?_⟩
    obtain ⟨area', frames', hrun⟩ := @mapFrom_of_lt start (stop - start) _ pt [] frames
      (new_ok hlt) rfl nodup_nil
      (fun x h1 h2 => ⟨containsVpn_iff.mpr ((hrange x).mp ⟨h1, h2⟩),
        hfree x h1 ((hrange x).mp ⟨h1, h2⟩).2, by simp⟩) hfew
    exact ⟨area', frames', hrun.trans (by simp)⟩
  refine .inl ⟨hge, ?_⟩
  obtain ⟨area', pt', hrun, hs, he, hpage, hpt⟩ := @mapFrom_of_le start (stop - start)
    (new start stop .framed perm) pt [] frames rfl
    (fun x h1 h2 => hfree x h1 ((hrange x).mp ⟨h1, h2⟩).2) hge
  have hpage' x : area'.page x = if start ≤ x ∧ x < stop then
      ⟨.framed, perm, frames[x - start]?, none⟩ else ⟨.framed, perm, none, none⟩ := by
    rw [hpage]
    simp only [hrange]
    rfl
  refine ⟨area', pt', hrun, ok_iff_page.mpr ⟨by rwa [hs, he], fun x => ?_⟩, hs, he,
    fun x h1 h2 => ?_, fun x => ?_⟩
  · rw [hpage', Ne, containsVpn_iff, hs, he]
    split
    · next hin => exact ⟨absurd hin, nofun⟩
    · exact ⟨fun _ => ⟨rfl, rfl⟩, fun _ => rfl⟩
  · rw [hpage', if_pos ⟨h1, h2⟩]
  · rw [hpt]
    simp only [hrange]
    rfl

end MapArea

end Pages

end HitOS
