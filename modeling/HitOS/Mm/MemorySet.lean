import HitOS.Lib.Intervals
import HitOS.Mm.MapArea
import HitOS.Mm.VmaPolicy

/-!
# The memory set

The user part of the `MemorySet` of `memory_set.rs`: an address space as three layers, the page
table, the areas with the resident frames, and the region set that says what was mapped, beside the
backing entries of file mappings and the locked ranges.

Addresses are natural numbers. The system calls admit user addresses below `USER_VA_TOP = 2^38`
only, on which the 39-bit mask of `VirtAddr::from` is the identity, so the mask is left out. What
the kernel takes from outside is an argument: `frames` are the frames the allocator will hand out in
turn, until the list is empty and `frame_alloc` fails. A function that can fail an assertion of the
page table returns `none` where the kernel would panic.

What the functions do is said page by page in `HitOS.Mm.PageOps`. Faults and `fork` follow in
`HitOS.Mm.Fault`.
-/

namespace HitOS

/-- `VirtAddr::floor`. -/
def vpnFloor (addr : Nat) : Nat := addr / pageSize

/-- `VirtAddr::ceil`. -/
def vpnCeil (addr : Nat) : Nat := (addr + (pageSize - 1)) / pageSize

/-! ### Ranges of addresses, `range.rs` -/

/-- `normalize_ranges`: sort, drop the empty ranges and merge those that touch. -/
def normalizeRanges (ranges : List (Nat × Nat)) : List (Nat × Nat) :=
  Intervals.sortAndMerge (ranges.filter (fun r => r.1 < r.2))

/-- The parts of a range outside `[start, stop)`. -/
def trimmed (start stop : Nat) (r : Nat × Nat) : List (Nat × Nat) :=
  if stop ≤ r.1 || start ≥ r.2 then [r]
  else
    (if start > r.1 then [(r.1, start)] else []) ++ (if stop < r.2 then [(stop, r.2)] else [])

def trimRanges (ranges : List (Nat × Nat)) (start stop : Nat) : List (Nat × Nat) :=
  if stop ≤ start then ranges else normalizeRanges (ranges.flatMap (trimmed start stop))

/-- One range of `move_locked_ranges`: its part inside `[oldAddr, oldEnd)` is moved. -/
def movedLock (oldAddr oldEnd newStart : Nat) (r : Nat × Nat) : List (Nat × Nat) :=
  if oldEnd ≤ r.1 || oldAddr ≥ r.2 then [r]
  else
    let overlapStart := max r.1 oldAddr
    let overlapEnd := min r.2 oldEnd
    (if oldAddr > r.1 then [(r.1, oldAddr)] else []) ++
      [(satAdd newStart (overlapStart - oldAddr), satAdd newStart (overlapEnd - oldAddr))] ++
      (if oldEnd < r.2 then [(oldEnd, r.2)] else [])

/-! ### The state -/

/-- `MmapBackingKind`: what a backing entry stands for. -/
inductive MmapBackingKind where
  | file (dev ino : Nat)
  | memfd (id : Nat)
  deriving DecidableEq, Repr

def MmapBackingKind.fromRegion (r : VmRegion) : Option MmapBackingKind :=
  if r.memfdId != 0 then some (.memfd r.memfdId)
  else if r.fileBacked then some (.file r.fileDev r.fileIno)
  else none

def MmapBackingKind.matchesRegion (kind : MmapBackingKind) (r : VmRegion) : Bool :=
  match kind with
  | file dev ino => r.fileBacked && r.memfdId == 0 && r.fileDev == dev && r.fileIno == ino
  | memfd id => r.memfdId == id

/-- A user address space. -/
structure MemorySet where
  pageTable : PageTable := PageTable.new
  areas : List MapArea := []
  vmRegions : VmRegionSet := .new
  mmapBackings : OrdMap Nat MmapBackingKind := OrdMap.empty
  nextMmapBackingId : Nat := 1
  /-- The ranges locked by `mlock`. -/
  mlockedRanges : List (Nat × Nat) := []
  /-- The address ranges of the kernel mappings shared into the user page table. -/
  kernelRanges : List (Nat × Nat) := []

namespace MemorySet

def sortUserAreas (areas : List MapArea) : List MapArea := areas.insertionSort (fun a b => a.start ≤ b.start)

variable (s : MemorySet)

/-- `concrete_range_overlaps`: some area, or a kernel mapping, meets the range. -/
def concreteRangeOverlaps (start stop : Nat) : Bool :=
  s.areas.any (fun area => area.overlapsVpnRange (vpnFloor start) (vpnCeil stop)) ||
    (decide (start < stop) && s.kernelRanges.any (fun r => stop > r.1 && start < r.2))

/-! ### Unmapping -/

/-- The body of `unmap_user_range`'s loop. -/
def unmapStep (start stop : Nat) (pt : PageTable) (area : MapArea) : PageTable × List MapArea :=
  if !area.mapPerm.u || !area.overlapsVpnRange start stop then (pt, [area])
  else
    let ovStart := max start area.start
    let ovEnd := min stop area.stop
    let unmapped := area.unmapRangeMaybe pt ovStart ovEnd
    let parts := unmapped.1.splitAround ovStart ovEnd
    (unmapped.2, parts.1.toList ++ parts.2.2.toList)

/-- `unmap_user_range`. A user area that is exactly the range is dropped at once; otherwise all
areas are gone through. -/
def unmapUserRange (start stop : Nat) : MemorySet :=
  let startVpn := vpnFloor start
  let endVpn := vpnCeil stop
  if startVpn ≥ endVpn then s
  else
    let exact := fun area : MapArea => area.mapPerm.u && area.hasExactVpnRange startVpn endVpn
    match s.areas.find? exact with
    | some area =>
      { s with areas := s.areas.eraseP exact, pageTable := (area.unmap s.pageTable).2 }
    | none =>
      let rebuilt := Items.rebuild (unmapStep startVpn endVpn) s.pageTable s.areas
      { s with areas := sortUserAreas rebuilt.2, pageTable := rebuilt.1 }

def pruneUnusedMmapBackings : MemorySet :=
  { s with mmapBackings := s.mmapBackings.filterKey (fun id =>
      (s.mmapBackings.get? id).any (fun kind =>
        s.vmRegions.regions.values.any (fun region =>
          region.needsBacking && region.backingId == id && kind.matchesRegion region))) }

def trimVmRegions (start stop : Nat) : MemorySet :=
  pruneUnusedMmapBackings { s with vmRegions := s.vmRegions.trimRange start stop }

def trimLockedRanges (start stop : Nat) : MemorySet :=
  { s with mlockedRanges := trimRanges s.mlockedRanges start stop }

def unmapUserVmaRange (start stop : Nat) : MemorySet :=
  ((s.unmapUserRange start stop).trimVmRegions start stop).trimLockedRanges start stop

/-! ### Changing the protection -/

/-- What `mprotect_user_range` does with one page of the area `mid` that it has cut out. Taking an
entry away for `PROT_NONE` keeps the frame and puts the flags aside; a frame without an entry is
mapped again. The entry has just been looked up, so the assertions of `map` and `unmap` hold. -/
def mprotectPage (newPerm : MapPermission) (mid : MapArea) (pt : PageTable) (vpn : Nat) :
    MapArea × PageTable :=
  match pt vpn with
  | some pte =>
    if newPerm = .U then (mid.savePteFlags vpn pte.flags, pt.unmapIfMapped vpn)
    else (mid.dropSavedPteFlags vpn, pt.setFlags vpn (pteFlagsForMprotect newPerm (some pte.flags)))
  | none =>
    if newPerm = .U then (mid, pt)
    else
      match mid.dataFrames.get? vpn with
      | none => (mid, pt)
      | some ppn =>
        (mid.dropSavedPteFlags vpn, pt.put vpn ppn (pteFlagsForMprotect newPerm (mid.savedPteFlags.get? vpn)))

/-- The body of `mprotect_user_range`'s loop. -/
def mprotectStep (start stop : Nat) (newPerm : MapPermission) (pt : PageTable) (area : MapArea) :
    PageTable × List MapArea :=
  if !area.mapPerm.u || !area.overlapsVpnRange start stop then (pt, [area])
  else
    let ovStart := max start area.start
    let ovEnd := min stop area.stop
    let parts := area.splitAround ovStart ovEnd
    let changed := (vpnRange ovStart ovEnd).foldl (fun s vpn => mprotectPage newPerm s.1 s.2 vpn)
      (parts.2.1, pt)
    (changed.2, parts.1.toList ++ [{ changed.1 with mapPerm := newPerm }] ++ parts.2.2.toList)

def mprotectUserRange (start stop : Nat) (newPerm : MapPermission) : MemorySet :=
  let rebuilt :=
    Items.rebuild (mprotectStep (vpnFloor start) (vpnCeil stop) newPerm) s.pageTable s.areas
  { s with areas := sortUserAreas rebuilt.2, pageTable := rebuilt.1 }

/-- What `mprotect_user_vma_range` does with the areas of one region of the range: the part below
the SIGBUS start gets the permission of the region, the tail only the user bit. -/
def mprotectRegion (region : VmRegion) : MemorySet :=
  let validEnd := min region.endAddr region.sigbusStart
  let s :=
    if region.start < validEnd then s.mprotectUserRange region.start validEnd region.mapPerm else s
  if validEnd < region.endAddr then s.mprotectUserRange validEnd region.endAddr .U else s

inductive MprotectError where
  | accessDenied
  | unmapped
  deriving DecidableEq, Repr

def mprotectUserVmaRange (start stop newProt : Nat) : Except MprotectError MemorySet :=
  if !s.vmRegions.canMprotectRange start stop newProt then .error .accessDenied
  else if !s.vmRegions.coversRange start stop then .error .unmapped
  else
    match s.vmRegions.applyMprotectRange start stop newProt with
    | none => .error .accessDenied
    | some vmRegions =>
      .ok ((vmRegions.snapshotRange start stop).foldl mprotectRegion { s with vmRegions := vmRegions })

/-! ### Moving -/

/-- What the loop of `move_user_range_raw` has gathered. -/
structure MoveAcc where
  pageTable : PageTable
  /-- The areas, and parts of areas, that stay. -/
  kept : List MapArea
  moved : List MapArea
  /-- The entries to be mapped at the destination. -/
  ptes : List (Nat × Nat × PTEFlags)
  found : Bool

/-- Take the entries of the pages away and note them under the shifted page; `error` where a page
has no shifted page. -/
def takePtes (delta : Int) : PageTable → List (Nat × Nat × PTEFlags) → List Nat →
    Except PageTable (PageTable × List (Nat × Nat × PTEFlags))
  | pt, ptes, [] => .ok (pt, ptes)
  | pt, ptes, vpn :: rest =>
    match pt vpn with
    | none => takePtes delta pt ptes rest
    | some pte =>
      match shiftVpnByDelta vpn delta with
      | none => .error pt
      | some newVpn =>
        takePtes delta (pt.unmapIfMapped vpn) (ptes ++ [(newVpn, pte.ppn, pte.flags)]) rest

/-- The body of `move_user_range_raw`'s loop. -/
def moveStep (oldStart oldEnd : Nat) (delta : Int) (acc : MoveAcc) (area : MapArea) :
    Except PageTable MoveAcc :=
  if !area.mapPerm.u || !area.overlapsVpnRange oldStart oldEnd then
    .ok { acc with kept := acc.kept ++ [area] }
  else
    let ovStart := max oldStart area.start
    let ovEnd := min oldEnd area.stop
    match takePtes delta acc.pageTable acc.ptes (vpnRange ovStart ovEnd) with
    | .error pt => .error pt
    | .ok (pt, ptes) =>
      let parts := area.splitAround ovStart ovEnd
      match parts.2.1.moveByDelta delta with
      | none => .error pt
      | some mid =>
        .ok { pageTable := pt, kept := acc.kept ++ (parts.1.toList ++ parts.2.2.toList)
              moved := acc.moved ++ [mid], ptes := ptes, found := true }

/-- `move_user_range_raw`. A shift that fails on the way would leave the set without areas. -/
def moveUserRangeRaw (oldStart oldEnd newStart : Nat) : Option (MemorySet × Bool) :=
  let oldStartVpn := vpnFloor oldStart
  let oldEndVpn := vpnCeil oldEnd
  if oldStartVpn ≥ oldEndVpn then some (s, true)
  else
    let delta := (vpnFloor newStart : Int) - oldStartVpn
    if (shiftVpnByDelta oldStartVpn delta).isNone || (shiftVpnByDelta oldEndVpn delta).isNone then
      some (s, false)
    else
      match s.areas.foldlM (moveStep oldStartVpn oldEndVpn delta)
          { pageTable := s.pageTable, kept := [], moved := [], ptes := [], found := false } with
      | .error pt => some ({ s with areas := [], pageTable := pt }, false)
      | .ok acc =>
        if !acc.found then
          some ({ s with areas := sortUserAreas acc.kept, pageTable := acc.pageTable }, false)
        else
          match acc.pageTable.mapAll acc.ptes with
          | none => none
          | some pt =>
            some ({ s with areas := sortUserAreas (acc.kept ++ acc.moved), pageTable := pt }, true)

def moveLockedRanges (oldAddr oldLen newStart : Nat) : MemorySet :=
  let oldEnd := satAdd oldAddr oldLen
  if oldEnd ≤ oldAddr then s
  else { s with
    mlockedRanges := normalizeRanges (s.mlockedRanges.flatMap (movedLock oldAddr oldEnd newStart)) }

def moveUserVmaRange (oldAddr oldLen newStart : Nat) : Option (MemorySet × Bool) :=
  if oldAddr + oldLen > usizeMax then some (s, false)
  else
    match s.moveUserRangeRaw oldAddr (oldAddr + oldLen) newStart with
    | none => none
    | some (s, false) => some (s, false)
    | some (s, true) =>
      some ({ s with vmRegions := s.vmRegions.moveRangeMetadataRaw oldAddr oldLen newStart
            }.moveLockedRanges oldAddr oldLen newStart, true)

/-! ### Inserting areas -/

/-- Change the first element that satisfies `p`. -/
def modifyFirst {α : Type} (p : α → Bool) (f : α → α) : List α → List α
  | [] => []
  | a :: l => if p a then f a :: l else a :: modifyFirst p f l

/-- `try_push_raw`, without data to copy: the set, the frames left, and whether the area is in. -/
def tryPushRaw (area : MapArea) (frames : List Nat) : Option (MemorySet × List Nat × Bool) :=
  if s.concreteRangeOverlaps (area.start * pageSize) (area.stop * pageSize) then
    some (s, frames, false)
  else
    match area.map s.pageTable frames with
    | none => none
    | some (_, pt, frames, false) => some ({ s with pageTable := pt }, frames, false)
    | some (area, pt, frames, true) =>
      some ({ s with pageTable := pt, areas := sortUserAreas (s.areas ++ [area]) }, frames, true)

def tryInsertFramedAreaRaw (start stop : Nat) (perm : MapPermission)
    (frames : List Nat) : Option (MemorySet × List Nat × Bool) :=
  s.tryPushRaw (.new (vpnFloor start) (vpnCeil stop) .framed perm) frames

/-- `try_insert_lazy_area_raw`: a lazy area with the same permission that ends or begins next to the
range takes it in. -/
def tryInsertLazyAreaRaw (start stop : Nat) (perm : MapPermission)
    (frames : List Nat) : Option (MemorySet × List Nat × Bool) :=
  let startVpn := vpnFloor start
  let endVpn := vpnCeil stop
  let endsHere := fun area : MapArea => area.isLazy && area.mapPerm == perm && area.stop == startVpn
  let beginsHere := fun area : MapArea => area.isLazy && area.mapPerm == perm && area.start == endVpn
  if startVpn ≥ endVpn then some (s, frames, true)
  else if s.concreteRangeOverlaps start stop then some (s, frames, false)
  else if s.areas.any endsHere then
    let areas := modifyFirst endsHere (fun area => { area with stop := endVpn }) s.areas
    some ({ s with areas := sortUserAreas areas }, frames, true)
  else if s.areas.any beginsHere then
    let areas := modifyFirst beginsHere (fun area => { area with start := startVpn }) s.areas
    some ({ s with areas := sortUserAreas areas }, frames, true)
  else s.tryPushRaw (.new startVpn endVpn .lazy perm) frames

def tryInsertSharedFramesAreaRaw (start stop : Nat) (perm : MapPermission)
    (shared : List Nat) : Option (MemorySet × Bool) :=
  let area := MapArea.new (vpnFloor start) (vpnCeil stop) .framed perm
  if area.pageCount = 0 then some (s, shared.isEmpty)
  else if shared.length ≠ area.pageCount || s.concreteRangeOverlaps start stop then some (s, false)
  else if (vpnRange area.start area.stop).any (fun vpn => (s.pageTable vpn).isSome) then
    some (s, false)
  else
    let flags := { area.pteFlags with shared := true }
    let pages := (vpnRange area.start area.stop).zip shared
    match s.pageTable.mapAll (pages.map (fun e => (e.1, e.2, flags))) with
    | none => none
    | some pt =>
      let area := pages.foldl (fun area e => area.insertTrackedFrame e.1 e.2) area
      some ({ s with pageTable := pt, areas := sortUserAreas (s.areas ++ [area]) }, true)

/-- `try_insert_vma_area_raw_in_region`; the loop of `try_insert_user_vma_raw` has the same body. -/
def tryInsertVmaAreaRawInRegion (area : VmaInsertArea) (region : VmRegion)
    (start stop : Nat) (frames : List Nat) : Option (MemorySet × List Nat × Bool) :=
  match area.concretePermissionFromRegion region with
  | none => some (s, frames, false)
  | some perm =>
    match area with
    | .lazy areaStart areaEnd =>
      if areaEnd ≤ areaStart then some (s, frames, true)
      else if areaStart < start || areaEnd > stop then some (s, frames, false)
      else s.tryInsertLazyAreaRaw areaStart areaEnd perm frames
    | .framed areaStart areaEnd =>
      if areaEnd ≤ areaStart then some (s, frames, true)
      else if areaStart < start || areaEnd > stop then some (s, frames, false)
      else s.tryInsertFramedAreaRaw areaStart areaEnd perm frames
    | .sharedFrames areaStart areaEnd shared =>
      if areaEnd ≤ areaStart then some (s, frames, shared.isEmpty)
      else if areaStart < start || areaEnd > stop then some (s, frames, false)
      else (s.tryInsertSharedFramesAreaRaw areaStart areaEnd perm shared).map (fun r => (r.1, frames, r.2))

/-- The areas one after the other, up to the first that cannot be inserted. -/
def insertAreas (region : VmRegion) (start stop : Nat) :
    MemorySet → List Nat → List VmaInsertArea → Option (MemorySet × List Nat × Bool)
  | s, frames, [] => some (s, frames, true)
  | s, frames, area :: rest =>
    match s.tryInsertVmaAreaRawInRegion area region start stop frames with
    | none => none
    | some (s, frames, false) => some (s, frames, false)
    | some (s, frames, true) => insertAreas region start stop s frames rest

/-- `allocate_mmap_backing`: the id is 0 if there is no file. -/
def allocateMmapBacking (region : VmRegion) (hasFile : Bool) : MemorySet × Nat :=
  if !hasFile then (s, 0)
  else
    match MmapBackingKind.fromRegion region with
    | none => (s, 0)
    | some kind =>
      match s.mmapBackings.entries.find? (fun e => e.2.matchesRegion region) with
      | some e => (s, e.1)
      | none =>
        ({ s with
            nextMmapBackingId := satAdd s.nextMmapBackingId 1
            mmapBackings := s.mmapBackings.insert s.nextMmapBackingId kind },
          s.nextMmapBackingId)

def addLockedRange (start stop : Nat) : MemorySet :=
  { s with mlockedRanges := normalizeRanges (s.mlockedRanges ++ [(start, stop)]) }

/-- The end of `try_insert_user_vma_raw`: the areas are in, the region follows. -/
def recordRegion (region : VmRegion) (lockRange hasFile : Bool) : MemorySet × Bool :=
  let backed := if region.needsBacking then s.allocateMmapBacking region hasFile else (s, region.backingId)
  if region.needsBacking && backed.2 == 0 then (backed.1, false)
  else
    let s := { backed.1 with
      vmRegions := backed.1.vmRegions.insertMerged { region with backingId := backed.2 } }
    (if lockRange then s.addLockedRange region.start region.endAddr else s, true)

/-- A backing entry changes neither regions nor pages. -/
theorem backed_keeps {s : MemorySet} {region : VmRegion} {hasFile : Bool} {backed : MemorySet × Nat}
    (h : (if region.needsBacking then s.allocateMmapBacking region
      hasFile else (s, region.backingId)) = backed) :
    backed.1.vmRegions = s.vmRegions ∧ backed.1.areas = s.areas ∧ backed.1.pageTable = s.pageTable := by
  subst h
  unfold allocateMmapBacking
  split
  · split
    · exact ⟨rfl, rfl, rfl⟩
    · split
      · exact ⟨rfl, rfl, rfl⟩
      · split <;> exact ⟨rfl, rfl, rfl⟩
  · exact ⟨rfl, rfl, rfl⟩

def tryInsertUserVmaRaw (region : VmRegion) (areas : List VmaInsertArea)
    (lockRange hasFile : Bool) (frames : List Nat) : Option (MemorySet × Bool) :=
  match insertAreas region region.start region.endAddr s frames areas with
  | none => none
  | some (s, _, false) => some (s, false)
  | some (s, _, true) => some (s.recordRegion region lockRange hasFile)

/-! ### Snapshots and rollback, `rollback.rs` -/

structure UserRangeSnapshot where
  start : Nat
  stop : Nat
  areas : List MapArea
  vmRegions : List VmRegion
  lockedRanges : List (Nat × Nat)
  ptes : List (Nat × Nat × PTEFlags)
  backingEntries : List (Nat × MmapBackingKind)
  nextMmapBackingId : Nat

/-- The pages of a user area inside a range of pages. -/
def overlapOf (start stop : Nat) (area : MapArea) : Option (Nat × Nat) :=
  if !area.mapPerm.u || !area.overlapsVpnRange start stop then none
  else
    let ovStart := max start area.start
    let ovEnd := min stop area.stop
    if ovStart ≥ ovEnd then none else some (ovStart, ovEnd)

/-- The part of a user area inside a range of pages. -/
def snapshotArea (start stop : Nat) (area : MapArea) : Option MapArea :=
  (overlapOf start stop area).map (fun ov => (area.splitAround ov.1 ov.2).2.1)

/-- The valid entries of a user area inside a range of pages. -/
def snapshotPtes (start stop : Nat) (pt : PageTable) (area : MapArea) : List (Nat × Nat × PTEFlags) :=
  match overlapOf start stop area with
  | none => []
  | some ov =>
    (vpnRange ov.1 ov.2).filterMap (fun vpn => (pt vpn).map (fun pte => (vpn, pte.ppn, pte.flags)))

/-- The part of a locked range inside `[start, stop)`. -/
def clippedLock (start stop : Nat) (r : Nat × Nat) : Option (Nat × Nat) :=
  if max start r.1 < min stop r.2 then some (max start r.1, min stop r.2) else none

def snapshotUserRange (start stop : Nat) : UserRangeSnapshot :=
  let startVpn := vpnFloor start
  let endVpn := vpnCeil stop
  let vmRegions := s.vmRegions.snapshotRange start stop
  { start := start, stop := stop
    areas := s.areas.filterMap (snapshotArea startVpn endVpn)
    ptes := s.areas.flatMap (snapshotPtes startVpn endVpn s.pageTable)
    vmRegions := vmRegions
    backingEntries := vmRegions.filterMap (fun region =>
      if !region.needsBacking || region.backingId == 0 then none
      else (s.mmapBackings.get? region.backingId).map (fun kind => (region.backingId, kind)))
    lockedRanges := s.mlockedRanges.filterMap (clippedLock start stop)
    nextMmapBackingId := s.nextMmapBackingId }

def restoreUserRange (snapshot : UserRangeSnapshot) : Option MemorySet :=
  let s := s.unmapUserVmaRange snapshot.start snapshot.stop
  match s.pageTable.mapAll snapshot.ptes with
  | none => none
  | some pt =>
    let mmapBackings := snapshot.backingEntries.foldl (fun m e => m.insert e.1 e.2) s.mmapBackings
    some { s with
      areas := sortUserAreas (s.areas ++ snapshot.areas)
      pageTable := pt
      vmRegions := snapshot.vmRegions.foldl VmRegionSet.insertMerged s.vmRegions
      mmapBackings := mmapBackings
      mlockedRanges := normalizeRanges (s.mlockedRanges ++ snapshot.lockedRanges)
      nextMmapBackingId := max snapshot.nextMmapBackingId (satAdd (mmapBackings.keys.getLast?.getD 0) 1) }

/-- `UserRangeRollback::capture`. -/
def captureRanges (ranges : List (Nat × Nat)) : List UserRangeSnapshot :=
  (normalizeRanges ranges).map (fun r => s.snapshotUserRange r.1 r.2)

/-- `UserRangeRollback::restore`. -/
def restoreAll (snapshots : List UserRangeSnapshot) : Option MemorySet :=
  snapshots.reverse.foldlM restoreUserRange s

/-- Roll back and report failure. -/
def rollBack (snapshots : List UserRangeSnapshot) : Option (MemorySet × Bool) :=
  (s.restoreAll snapshots).map (fun s => (s, false))

/-! ### Inserting and replacing regions -/

/-- What `try_insert_user_vma_with` refuses before it changes anything. -/
def refusesInsert (region : VmRegion) (areas : List VmaInsertArea) (hasFile : Bool)
    (maxMapCount : Nat) : Bool :=
  region.endAddr ≤ region.start || s.vmRegions.overlapsRange region.start region.endAddr ||
    s.vmRegions.countAfterInsertMerged region > satAdd maxMapCount 1 ||
    !areas.all (fun area => area.compatibleWithRegion region) ||
    (region.needsBacking && !hasFile)

/-- `try_insert_user_vma_with`. The callback `postInsert` writes into the new pages and says whether
that succeeded. -/
def tryInsertUserVmaWith (region : VmRegion) (areas : List VmaInsertArea)
    (lockRange hasFile : Bool) (frames : List Nat) (maxMapCount : Nat)
    (postInsert : MemorySet → Bool) : Option (MemorySet × Bool) :=
  if s.refusesInsert region areas hasFile maxMapCount then some (s, false)
  else
    let rollback := s.captureRanges [(region.start, region.endAddr)]
    match s.tryInsertUserVmaRaw region areas lockRange hasFile frames with
    | none => none
    | some (t, false) => t.rollBack rollback
    | some (t, true) => if postInsert t then some (t, true) else t.rollBack rollback

def tryReplaceUserVmaWith (region : VmRegion) (areas : List VmaInsertArea)
    (lockRange hasFile : Bool) (frames : List Nat) (maxMapCount : Nat)
    (postInsert : MemorySet → Bool) : Option (MemorySet × Bool) :=
  let snapshot := s.snapshotUserRange region.start region.endAddr
  match (s.unmapUserVmaRange region.start region.endAddr).tryInsertUserVmaWith region areas lockRange
      hasFile frames maxMapCount (fun _ => true) with
  | none => none
  | some (t, false) => (t.restoreUserRange snapshot).map (fun t => (t, false))
  | some (t, true) =>
    if postInsert t then some (t, true)
    else (t.restoreUserRange snapshot).map (fun t => (t, false))

def moveUserVmaRangeReplacing (oldAddr oldLen newStart : Nat) : Option (MemorySet × Bool) :=
  if oldAddr + oldLen > usizeMax || newStart + oldLen > usizeMax then some (s, false)
  else
    let rollback := s.captureRanges [(oldAddr, oldAddr + oldLen), (newStart, newStart + oldLen)]
    match (s.unmapUserVmaRange newStart (newStart + oldLen)).moveUserVmaRange oldAddr oldLen
        newStart with
    | none => none
    | some (t, true) => some (t, true)
    | some (t, false) => t.rollBack rollback

/-! ### Growing -/

/-- The areas follow each other from `cursor` up to `stop`; the check of
`try_grow_user_vma_range_with_layout`. -/
def tilesFrom (stop : Nat) : Nat → List VmaInsertArea → Bool
  | cursor, [] => cursor == stop
  | cursor, area :: rest =>
    if area.stop ≤ area.start then tilesFrom stop cursor rest
    else if area.start != cursor || area.stop > stop then false
    else tilesFrom stop area.stop rest

/-- The region with its new length. -/
def grownRegion (region : VmRegion) (newLen : Nat) : Option Nat → VmRegion
  | some fileValidLen => region.setLenAndFileValid newLen fileValidLen
  | none => region.setLen newLen

/-- `set_vm_region_len_by_start` or `set_vm_region_len_and_file_valid_by_start`. -/
def setRegionLen (start newLen : Nat) (fileValidLen : Option Nat) : MemorySet × Bool :=
  let updated := s.vmRegions.updateByStart start (fun region => grownRegion region newLen fileValidLen)
  ({ s with vmRegions := updated.1 }, updated.2)

/-- How growing begins: the range is moved, or made a region of its own where it is. -/
def prepareGrow (oldAddr oldLen targetStart : Nat) : Option (MemorySet × Bool) :=
  if targetStart ≠ oldAddr then s.moveUserVmaRange oldAddr oldLen targetStart
  else
    match s.vmRegions.isolateRangeRaw oldAddr oldLen with
    | none => some (s, false)
    | some vmRegions => some ({ s with vmRegions := vmRegions }, true)

/-- How growing goes on, with the region that is to grow. -/
def growRegion (region : VmRegion) (targetOldEnd targetNewEnd newLen : Nat)
    (growAreas : List VmaInsertArea) (fileValidLen : Option Nat) (frames : List Nat)
    (populateGrow : MemorySet → Bool) : Option (MemorySet × Bool) :=
  match insertAreas (grownRegion region newLen fileValidLen) targetOldEnd targetNewEnd s frames
      growAreas with
  | none => none
  | some (s, _, false) => some (s, false)
  | some (s, _, true) =>
    if populateGrow s then some (s.setRegionLen region.start newLen fileValidLen) else some (s, false)

def tryGrowUserVmaRangeWithLayout (oldAddr oldLen targetStart newLen : Nat)
    (growAreas : List VmaInsertArea) (fileValidLen : Option Nat) (frames : List Nat)
    (populateGrow : MemorySet → Bool) : Option (MemorySet × Bool) :=
  let targetOldEnd := targetStart + oldLen
  let targetNewEnd := targetStart + newLen
  if newLen ≤ oldLen || oldAddr + oldLen > usizeMax || targetOldEnd > usizeMax ||
      targetNewEnd > usizeMax then some (s, false)
  else if !tilesFrom targetNewEnd targetOldEnd growAreas then some (s, false)
  else
    let rollback := s.captureRanges [(oldAddr, oldAddr + oldLen), (targetStart, targetNewEnd)]
    match s.prepareGrow oldAddr oldLen targetStart with
    | none => none
    | some (t, false) => t.rollBack rollback
    | some (t, true) =>
      match t.vmRegions.containingAddr targetStart with
      | none => t.rollBack rollback
      | some region =>
        if region.start ≠ targetStart || region.endAddr ≠ targetOldEnd then t.rollBack rollback
        else
          match t.growRegion region targetOldEnd targetNewEnd newLen growAreas fileValidLen frames
              populateGrow with
          | none => none
          | some (t, false) => t.rollBack rollback
          | some (t, true) => some (t, true)

end MemorySet

end HitOS
